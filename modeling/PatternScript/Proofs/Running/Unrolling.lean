import PatternScript.Proofs.LetterCase.Runs
import PatternScript.Proofs.Running.Interruption

/-!
# Loops and their copies

The index of a loop is a number in each of its iterations. So a loop leaves what copies of its
body leave that are run one after the other, each with its own number in place of the index.
Within a loop in the body the index is that of the inner loop, and nothing is replaced there.
-/
namespace PatternScript

def Token.unrolled (i : Int32) : Token → Token
  | .var v => if v.name = indexName then .int (if v.negated then -i else i) else .var v
  | t => t

def Action.mapTokens (f : Token → Token) : Action → Action
  | declare name init => declare name (init.map f)
  | assign name value => assign name (value.map f)
  | color args => color (args.map f)
  | fill args => fill (args.map f)
  | resetTransforms => resetTransforms
  | translate args => translate (args.map f)
  | rotate args => rotate (args.map f)
  | scale args => scale (args.map f)
  | draw shape args => draw shape (args.map f)

namespace Command

mutual

def mapTokens (f : Token → Token) : Command → Command
  | .act line a => .act line (a.mapTokens f)
  | .loop line count body => .loop line (f count) body
  | .choice line condition yes no =>
    .choice line (condition.map f) (mapAllTokens f yes) (mapAllTokens f no)

def mapAllTokens (f : Token → Token) : List Command → List Command
  | [] => []
  | c :: rest => c.mapTokens f :: mapAllTokens f rest

end

def copies (body : List Command) (i : Nat) : Nat → List Command
  | 0 => []
  | left + 1 => mapAllTokens (Token.unrolled (Int32.ofNat i)) body ++ copies body (i + 1) left

end Command

theorem Action.mapTokens_id (a : Action) : a.mapTokens id = a := by
  have hargs (args : Arguments) : args.map id = args := NameMap.eq_of_entries (by simp [NameMap.map])
  cases a <;> simp [mapTokens, hargs]

mutual

theorem Command.mapTokens_id (c : Command) : c.mapTokens id = c := by
  cases c with
  | act line a => rw [mapTokens, Action.mapTokens_id]
  | loop line count body => rw [mapTokens, id]
  | choice line condition yes no =>
    rw [mapTokens, List.map_id, mapAllTokens_id yes, mapAllTokens_id no]

theorem Command.mapAllTokens_id (cs : List Command) : mapAllTokens id cs = cs := by
  cases cs with
  | nil => rw [mapAllTokens]
  | cons c rest => rw [mapAllTokens, mapTokens_id c, mapAllTokens_id rest]

end

/-- Tokens replaced by `f` mean under `index'` what they mean under `index`: only references
to variables are replaced, and by numbers. -/
structure Token.Renders (index index' : Option Int32) (f : Token → Token) : Prop where
  operand : ∀ store t, Evaluation.operand? store index' (f t) = Evaluation.operand? store index t
  changed : ∀ t, f t = t ∨ ∃ v n, t = .var v ∧ f t = .int n

namespace Token

variable {index index' : Option Int32} {f : Token → Token}

theorem renders_id (index : Option Int32) : Renders index index id :=
  ⟨fun _ _ => rfl, fun _ => .inl rfl⟩

theorem renders_unrolled (i : Int32) (index : Option Int32) :
    Renders (some i) index (unrolled i) where
  operand store t := by
    cases t with
    | var v =>
      by_cases hname : v.name = indexName
      · by_cases hneg : v.negated = true
        · simp [unrolled, hname, hneg, Evaluation.operand?, Evaluation.readVariable]
        · simp [unrolled, hname, hneg, Evaluation.operand?, Evaluation.readVariable]
      · simp [unrolled, hname, Evaluation.operand?, Evaluation.readVariable]
    | _ => rfl
  changed t := by
    cases t with
    | var v =>
      by_cases hname : v.name = indexName
      · exact .inr ⟨v, _, rfl, if_pos hname⟩
      · exact .inl (if_neg hname)
    | _ => exact .inl rfl

namespace Renders

variable (hf : Renders index index' f)
include hf

theorem eq_self {t : Token} (ht : t.isOperand = false) : f t = t := by
  rcases hf.changed t with h | ⟨v, n, rfl, -⟩
  · exact h
  · cases ht

theorem isComparison_eq (t : Token) : (f t).isComparison = t.isComparison := by
  rcases hf.changed t with h | ⟨v, n, rfl, h⟩ <;> rw [h]
  rfl

theorem text?_eq (t : Token) : (f t).text? = t.text? := by
  rcases hf.changed t with h | ⟨v, n, rfl, h⟩ <;> rw [h]
  rfl

end Renders

end Token

structure Evaluated.Matches {α : Type} (e e' : Evaluated α) : Prop where
  value : e'.value = e.value
  codes : e'.faults.map RuntimeCause.code = e.faults.map RuntimeCause.code

namespace Evaluation

variable {index index' : Option Int32} {f : Token → Token} (hf : Token.Renders index index' f)
  (store : Store)
include hf

theorem integer_matches (t : Token) :
    (integer store index t).Matches (integer store index' (f t)) := by
  rw [integer, integer, hf.operand]
  cases operand? store index t <;> exact ⟨rfl, rfl⟩

theorem readChain_matches (ts : List Token) :
    (readChain store index ts).Matches (readChain store index' (ts.map f)) := by
  have hop (o : Arithmetic) : f (.op o) = .op o := hf.eq_self rfl
  fun_induction readChain store index ts with
  | case1 => exact ⟨rfl, rfl⟩
  | case2 o =>
    rw [List.map_singleton, hop, readChain]
    exact ⟨rfl, rfl⟩
  | case3 o t rest b hb tail ih =>
    rw [List.map_cons, List.map_cons, hop, readChain, hf.operand, hb]
    exact ⟨by simp only [ih.value, tail], by simp only [List.map_append, ih.codes, tail]⟩
  | case4 o t rest hb =>
    rw [List.map_cons, List.map_cons, hop, readChain, hf.operand, hb]
    exact ⟨rfl, rfl⟩
  | case5 t rest hone hmore =>
    rcases hf.changed t with ht | ⟨v, n, rfl, ht⟩
    · rw [List.map_cons, ht]
      cases t with
      | op o =>
        cases rest with
        | nil => exact (hone o rfl rfl).elim
        | cons t' rest => exact (hmore o t' rest rfl rfl).elim
      | _ => exact ⟨rfl, rfl⟩
    · rw [List.map_cons, ht]
      exact ⟨rfl, rfl⟩

theorem expression_matches (ts : List Token) :
    (expression store index ts).Matches (expression store index' (ts.map f)) := by
  cases ts with
  | nil => exact ⟨rfl, rfl⟩
  | cons t rest =>
    have hread := readChain_matches hf store rest
    rw [List.map_cons, expression, expression, hf.operand]
    cases operand? store index t with
    | none => exact ⟨rfl, rfl⟩
    | some first =>
      dsimp only
      rw [hread.value]
      split
      · exact ⟨rfl, by simp only [List.map_append, hread.codes]⟩
      · exact ⟨rfl, by simp only [List.map_append, hread.codes]⟩

theorem condition_matches (ts : List Token) :
    (condition store index ts).Matches (condition store index' (ts.map f)) := by
  have hcompare : Token.isComparison ∘ f = Token.isComparison := funext hf.isComparison_eq
  have hcompare' : (fun t => !t.isComparison) ∘ f = fun t : Token => !t.isComparison :=
    funext fun t => congrArg not (hf.isComparison_eq t)
  have hkept : (ts.filter Token.isComparison).map f = ts.filter Token.isComparison := by
    refine (List.map_congr_left fun t ht => ?_).trans (List.map_id _)
    have htrue := (List.mem_filter.1 ht).2
    refine hf.eq_self ?_
    cases t with
    | compare => rfl
    | _ => cases htrue
  rw [condition, condition, List.filter_map, hcompare, hkept, List.takeWhile_map,
    List.dropWhile_map, hcompare', ← List.map_drop]
  split
  · have hl := expression_matches hf store (ts.takeWhile (!·.isComparison))
    have hr := expression_matches hf store ((ts.dropWhile (!·.isComparison)).drop 1)
    exact ⟨by simp only [hl.value, hr.value], by simp only [List.map_append, hl.codes, hr.codes]⟩
  · exact ⟨rfl, rfl⟩

end Evaluation

namespace Generation

/-- The same variables, pen and items, and errors with the same codes in the same lines. -/
structure Matches (g g' : Generation) : Prop where
  vars : g'.vars = g.vars
  pen : g'.pen = g.pen
  items : g'.items = g.items
  places : g'.errors.map RuntimeError.place = g.errors.map RuntimeError.place

variable {g g' : Generation}

namespace Matches

theorem refl (g : Generation) : Matches g g := ⟨rfl, rfl, rfl, rfl⟩

theorem fault (h : Matches g g') (line : Nat) {causes causes' : List RuntimeCause}
    (hcodes : causes'.map RuntimeCause.code = causes.map RuntimeCause.code) :
    Matches (g.fault line causes) (g'.fault line causes') := by
  have hplaces (cs : List RuntimeCause) : (cs.map (RuntimeError.mk line)).map RuntimeError.place =
      (cs.map RuntimeCause.code).map fun code => (code, line) := by
    rw [List.map_map, List.map_map]
    rfl
  refine ⟨h.vars, h.pen, h.items, ?_⟩
  rw [errors_fault, errors_fault, List.map_append, List.map_append, h.places, hplaces, hplaces,
    hcodes]

theorem setUser (h : Matches g g') (name : String) {n n' : Int32} (hn : n' = n) :
    Matches { g with vars := g.vars.setUser name n } { g' with vars := g'.vars.setUser name n' } :=
  ⟨by rw [hn, h.vars], h.pen, h.items, h.places⟩

theorem setPen (h : Matches g g') (pen : Pen) : Matches { g with pen } { g' with pen } :=
  ⟨h.vars, rfl, h.items, h.places⟩

theorem push (h : Matches g g') {item item' : Item} (hitem : item' = item) :
    Matches { g with items := g.items.push item } { g' with items := g'.items.push item' } :=
  ⟨h.vars, h.pen, by rw [h.items, hitem], h.places⟩

theorem transform (h : Matches g g') (line : Nat) (t : Affine) :
    Matches (g.transform line t) (g'.transform line t) := by
  have hplaces : (g'.transform line t).errors.map RuntimeError.place =
      (g.transform line t).errors.map RuntimeError.place := by
    rw [errors_transform, errors_transform, h.places]
  rw [Generation.transform, Generation.transform, h.pen] at hplaces ⊢
  split
  next pen hpen => exact h.setPen pen
  next hpen =>
    rw [hpen] at hplaces
    exact ⟨h.vars, rfl, h.items, hplaces⟩

end Matches

section Act

variable {index index' : Option Int32} {f : Token → Token} (hf : Token.Renders index index' f)
  (patterns : PatternTable) (line : Nat) (args : Arguments)
include hf

theorem integer_matches (h : Matches g g') (key : String) (default : Int32) :
    (g.integer index args key default).Matches (g'.integer index' (args.map f) key default) := by
  rw [integer, integer, NameMap.get?_map, h.vars]
  cases args.get? key with
  | none => exact ⟨rfl, rfl⟩
  | some t => exact Evaluation.integer_matches hf g.vars t

theorem shapeParams_matches (h : Matches g g') (keys : List String) :
    (g.shapeParams index args keys).Matches (g'.shapeParams index' (args.map f) keys) := by
  induction keys with
  | nil => exact ⟨rfl, rfl⟩
  | cons key rest ih =>
    have hfirst := integer_matches hf args h key 0
    rw [shapeParams, shapeParams]
    exact ⟨by rw [hfirst.value, ih.value],
      by rw [List.map_append, List.map_append, hfirst.codes, ih.codes]⟩

theorem chooseColor_matches : (chooseColor args).Matches (chooseColor (args.map f)) := by
  rw [chooseColor, chooseColor, NameMap.get?_map]
  cases args.get? "NAME" with
  | none => exact ⟨rfl, rfl⟩
  | some t =>
    rw [Option.map_some]
    dsimp only
    rw [hf.text?_eq]
    cases t.text?.bind Color.ofName? <;> exact ⟨rfl, rfl⟩

theorem chooseFill_matches :
    (chooseFill patterns args).Matches (chooseFill patterns (args.map f)) := by
  rw [chooseFill, chooseFill, NameMap.get?_map]
  cases args.get? "NAME" with
  | none => exact ⟨rfl, rfl⟩
  | some t =>
    rw [Option.map_some]
    rcases hf.changed t with ht | ⟨v, n, rfl, ht⟩
    · rw [ht]
      exact ⟨rfl, rfl⟩
    · rw [ht]
      exact ⟨rfl, rfl⟩

theorem stampName_map : stampName (args.map f) = stampName args := by
  rw [stampName, stampName, NameMap.get?_map, Option.bind_map,
    show Token.text? ∘ f = Token.text? from funext hf.text?_eq]

theorem draw_matches (h : Matches g g') (shape : Shape) :
    Matches (g.draw patterns line index shape args)
      (g'.draw patterns line index' shape (args.map f)) := by
  have hparams := shapeParams_matches hf args h shape.params
  have hfault := h.fault line hparams.codes
  rw [draw, draw, hparams.value, stampName_map hf]
  dsimp only
  split
  · split
    · exact hfault.push (by rw [hfault.pen])
    · exact hfault.fault line rfl
  · exact hfault.push (by rw [hfault.pen])

theorem act_matches (h : Matches g g') (a : Action) :
    Matches (g.act patterns line index a) (g'.act patterns line index' (a.mapTokens f)) := by
  cases a with
  | declare name init =>
    cases init with
    | nil => exact h.setUser name rfl
    | cons t init =>
      have hvalue := Evaluation.expression_matches hf g.vars (t :: init)
      rw [Action.mapTokens, act, act, h.vars]
      · exact (h.fault line hvalue.codes).setUser name hvalue.value
      · simp
      · simp
  | assign name value =>
    have hvalue := Evaluation.expression_matches hf g.vars value
    rw [Action.mapTokens, act, act, h.vars]
    dsimp only
    split
    · exact (h.fault line hvalue.codes).setUser name hvalue.value
    · exact h.fault line rfl
  | color args =>
    have hcolor := chooseColor_matches hf args
    have hfault := h.fault line hcolor.codes
    rw [Action.mapTokens, act, act]
    dsimp only
    rw [hcolor.value, hfault.pen]
    exact hfault.setPen _
  | fill args =>
    have hfill := chooseFill_matches hf patterns args
    have hfault := h.fault line hfill.codes
    rw [Action.mapTokens, act, act]
    dsimp only
    rw [hfill.value, hfault.pen]
    exact hfault.setPen _
  | resetTransforms =>
    rw [Action.mapTokens, act, act, h.pen]
    exact h.setPen _
  | translate args =>
    have hx := integer_matches hf args h "DX" 0
    have hy := integer_matches hf args h "DY" 0
    have hcodes := congrArg₂ (· ++ ·) hx.codes hy.codes
    simp only [← List.map_append] at hcodes
    rw [Action.mapTokens, act, act, hx.value, hy.value]
    exact (h.fault line hcodes).transform line _
  | rotate args =>
    have hdegrees := integer_matches hf args h "DEGREES" 0
    rw [Action.mapTokens, act, act, hdegrees.value]
    exact (h.fault line hdegrees.codes).transform line _
  | scale args =>
    have hfactor := integer_matches hf args h "FACTOR" 1
    have hfault := h.fault line hfactor.codes
    rw [Action.mapTokens, act, act]
    dsimp only
    rw [hfactor.value, hfault.pen]
    exact hfault.setPen _
  | draw shape args => exact draw_matches hf patterns line args h shape

end Act

section Walk

variable (patterns : PatternTable)

theorem down_poll_quiet (h : g.signal.raised = false) :
    (g.poll .quiet).signal.raised = false := by
  rw [raised_poll_quiet, h]

theorem Matches.poll (h : Matches g g') (host host' : Host) : Matches (g.poll host) (g'.poll host') :=
  ⟨h.vars, h.pen, h.items, h.places⟩

theorem Matches.yieldIf (h : Matches g g') (p : Prop) [Decidable p] (host : Host) :
    Matches (if p then g.yield host else g) g' := by
  split
  · exact ⟨h.vars, h.pen, h.items, h.places⟩
  · exact h

theorem Matches.symm (h : Matches g g') : Matches g' g :=
  ⟨h.vars.symm, h.pen.symm, h.items.symm, h.places.symm⟩

theorem iterate_matches {body : Int32 → Generation → Generation}
    (hbody : ∀ i g g', Matches g g' → g.signal.raised = false → g'.signal.raised = false →
      Matches (body i g) (body i g'))
    (hquiet : ∀ i g, (body i g).signal.raised = g.signal.raised) (i left : Nat)
    (h : Matches g g') (hdown : g.signal.raised = false) (hdown' : g'.signal.raised = false) :
    Matches (iterate .quiet body i left g) (iterate .quiet body i left g') := by
  induction left generalizing i g g' with
  | zero => exact h
  | succ left ih =>
    have hpoll := down_poll_quiet hdown
    have hpoll' := down_poll_quiet hdown'
    have hnext := hbody (Int32.ofNat i) _ _ (h.poll .quiet .quiet) hpoll hpoll'
    rw [iterate, iterate]
    dsimp only
    rw [hpoll, hpoll']
    refine ih (i + 1) ((hnext.yieldIf _ .quiet).symm.yieldIf _ .quiet).symm ?_ ?_
    · rw [raised_yieldIf_quiet, hquiet, hpoll]
    · rw [raised_yieldIf_quiet, hquiet, hpoll']

mutual

/-- Commands that mean the same keep states matching. The bodies of loops are the same on both
sides, which is the case of nothing replaced. -/
theorem execute_matches {index index' : Option Int32} {f : Token → Token}
    (hf : Token.Renders index index' f) (c : Command) {g g' : Generation} (h : Matches g g')
    (hdown : g.signal.raised = false) (hdown' : g'.signal.raised = false) :
    Matches (execute .quiet patterns index c g)
      (execute .quiet patterns index' (c.mapTokens f) g') := by
  cases c with
  | act line a =>
    rw [Command.mapTokens, execute, execute]
    exact act_matches hf patterns line h a
  | loop line count body =>
    have hcount := Evaluation.integer_matches hf g.vars count
    have hfault := h.fault line hcount.codes
    rw [Command.mapTokens, execute, execute, h.vars]
    rw [hcount.value]
    split
    · exact hfault.fault line rfl
    · refine iterate_matches ?_ (fun i => raised_executeAll_quiet (some i) body) 0 _ hfault
        hdown hdown'
      intro i g g' h hdown hdown'
      have hbody := executeAll_matches (Token.renders_id (some i)) body h hdown hdown'
      rwa [Command.mapAllTokens_id] at hbody
  | choice line condition yes no =>
    have htaken := Evaluation.condition_matches hf g.vars condition
    have hfault := h.fault line htaken.codes
    rw [Command.mapTokens, execute, execute, h.vars]
    rw [htaken.value]
    split
    · exact executeAll_matches hf yes hfault hdown hdown'
    · exact executeAll_matches hf no hfault hdown hdown'

theorem executeAll_matches {index index' : Option Int32} {f : Token → Token}
    (hf : Token.Renders index index' f) (cs : List Command) {g g' : Generation}
    (h : Matches g g') (hdown : g.signal.raised = false) (hdown' : g'.signal.raised = false) :
    Matches (executeAll .quiet patterns index cs g)
      (executeAll .quiet patterns index' (Command.mapAllTokens f cs) g') := by
  cases cs with
  | nil =>
    rw [Command.mapAllTokens, executeAll, executeAll]
    exact h
  | cons c rest =>
    have hpoll := down_poll_quiet hdown
    have hpoll' := down_poll_quiet hdown'
    rw [Command.mapAllTokens, executeAll, executeAll]
    rw [hpoll, hpoll']
    refine executeAll_matches hf rest (execute_matches hf c (h.poll _ _) hpoll hpoll') ?_ ?_
    · rw [raised_execute_quiet, hpoll]
    · rw [raised_execute_quiet, hpoll']

end

theorem executeAll_append (index : Option Int32) (cs ds : List Command)
    (hdown : g.signal.raised = false) :
    executeAll .quiet patterns index (cs ++ ds) g =
      executeAll .quiet patterns index ds (executeAll .quiet patterns index cs g) := by
  induction cs generalizing g with
  | nil => rw [List.nil_append, executeAll]
  | cons c cs ih =>
    have hpoll := down_poll_quiet hdown
    rw [List.cons_append, executeAll, executeAll]
    rw [hpoll]
    exact ih (by rw [raised_execute_quiet, hpoll])

theorem iterate_matches_copies (index : Option Int32) (body : List Command) (i left : Nat)
    (h : Matches g g') (hdown : g.signal.raised = false) (hdown' : g'.signal.raised = false) :
    Matches (iterate .quiet (fun i => executeAll .quiet patterns (some i) body) i left g)
      (executeAll .quiet patterns index (Command.copies body i left) g') := by
  induction left generalizing i g g' with
  | zero =>
    rw [Command.copies, executeAll]
    exact h
  | succ left ih =>
    have hpoll := down_poll_quiet hdown
    have hpolled : Matches (g.poll .quiet) g' := ⟨h.vars, h.pen, h.items, h.places⟩
    have hcopy := executeAll_matches patterns (Token.renders_unrolled (Int32.ofNat i) index) body
      hpolled hpoll hdown'
    rw [Command.copies, executeAll_append patterns index _ _ hdown', iterate]
    dsimp only
    rw [hpoll]
    refine ih (i + 1) (hcopy.yieldIf _ .quiet) ?_ ?_
    · rw [raised_yieldIf_quiet, raised_executeAll_quiet, hpoll]
    · rw [raised_executeAll_quiet, hdown']

end Walk

theorem Matches.trans {g g' g'' : Generation} (h : Matches g g') (h' : Matches g' g'') :
    Matches g g'' :=
  ⟨h'.vars.trans h.vars, h'.pen.trans h.pen, h'.items.trans h.items, h'.places.trans h.places⟩

theorem matches_of_still (h : g.still = g'.still) : Matches g g' :=
  ⟨show g'.still.vars = g.still.vars by rw [h], show g'.still.pen = g.still.pen by rw [h],
    show g'.still.items = g.still.items by rw [h],
    show g'.still.errors.map _ = g.still.errors.map _ by rw [h]⟩

section Loop

variable {host : Host} {patterns : PatternTable} {index : Option Int32}

theorem execute_loop {line : Nat} {count : Token} {body : List Command} {n : Int32}
    {faults : List RuntimeCause} (hcount : Evaluation.integer g.vars index count = ⟨n, faults⟩)
    (hn : 0 ≤ n) : execute host patterns index (.loop line count body) g =
      iterate host (fun i => executeAll host patterns (some i) body) 0 n.toNatClampNeg
        (g.fault line faults) := by
  rw [execute, hcount]
  exact if_neg (Int32.not_lt.2 hn)

theorem down_of_completed (h : g.completed = true) : g.signal.raised = false := by
  simpa [completed] using h

theorem execute_matches_quiet (c : Command) (hg : g.signal.raised = false)
    (h : (execute host patterns index c g).completed = true) :
    Matches (execute host patterns index c g) (execute .quiet patterns index c g) :=
  matches_of_still
    ((cutShort_execute [] index c g g rfl hg hg).finished (down_of_completed h)).2

theorem executeAll_matches_quiet (cs : List Command) (hg : g.signal.raised = false)
    (h : (executeAll host patterns index cs g).completed = true) :
    Matches (executeAll host patterns index cs g) (executeAll .quiet patterns index cs g) :=
  matches_of_still
    ((cutShort_executeAll [] index cs g g rfl hg).finished (down_of_completed h)).2

/-- A loop that is not interrupted leaves the variables, the pen and the items that copies of
its body leave, one for each iteration and run under any index, and the same errors in the same
lines. Faults of its count, if it has any, are recorded first. -/
theorem loop_is_unrolled (patterns : PatternTable) (g : Generation) (host host' : Host)
    (index index' : Option Int32) (line : Nat) (count : Token) (body : List Command) (n : Int32)
    (faults : List RuntimeCause)
    (hcount : Evaluation.integer g.vars index count = ⟨n, faults⟩) (hn : 0 ≤ n)
    (hloop : (execute host patterns index (.loop line count body) g).completed = true)
    (hcopies : (executeAll host' patterns index' (Command.copies body 0 n.toNatClampNeg)
      (g.fault line faults)).completed = true) :
    let looped := execute host patterns index (.loop line count body) g
    let copied := executeAll host' patterns index' (Command.copies body 0 n.toNatClampNeg)
      (g.fault line faults)
    looped.vars = copied.vars ∧ looped.pen = copied.pen ∧ looped.items = copied.items ∧
      looped.errors.map RuntimeError.place = copied.errors.map RuntimeError.place := by
  have hg : (g.fault line faults).signal.raised = false := by
    -- A signal that is up at the start is up at the end.
    cases hraised : (g.fault line faults).signal.raised with
    | false => rfl
    | true =>
      have hup : (executeAll host' patterns index' (Command.copies body 0 n.toNatClampNeg)
        (g.fault line faults)).signal.raised = true := (stopped_executeAll [] _ hraised).2
      rw [down_of_completed hcopies] at hup
      cases hup
  have hquiet := execute_matches_quiet (g := g) (.loop line count body) hg hloop
  have hquiet' := executeAll_matches_quiet (Command.copies body 0 n.toNatClampNeg) hg hcopies
  have hcopied := iterate_matches_copies patterns index' body 0 n.toNatClampNeg
    (.refl (g.fault line faults)) hg hg
  rw [← execute_loop hcount hn] at hcopied
  have hall := (hquiet.trans hcopied).trans hquiet'.symm
  exact ⟨hall.vars.symm, hall.pen.symm, hall.items.symm, hall.places.symm⟩

theorem loop_is_unrolled_of_nested :
    let index : Token := .var ⟨"$INDEX", false⟩
    let pixel (t : Token) : Action := .draw .pixel (NameMap.empty.set "X" t)
    let body : List Command := [.loop 2 index [.act 3 (pixel index)],
      .choice 4 [index, .compare .lt, .int 1] [.act 5 (.assign "$A" [index])]
        [.act 6 (pixel (.var ⟨"$INDEX", true⟩))]]
    let looped := execute .quiet .empty none (.loop 1 (.int 3) body) {}
    let copied := executeAll .quiet .empty (some 7) (Command.copies body 0 3) {}
    (looped.completed = true ∧ copied.completed = true) ∧ looped.items = copied.items ∧
      looped.errors.map RuntimeError.place = copied.errors.map RuntimeError.place ∧
      looped.items.toList.map (fun item => (item.line, item.param "X")) =
        [(3, 0), (6, -1), (3, 0), (3, 1), (6, -2)] ∧
      looped.errors = [⟨5, .assignUndeclared "$A"⟩] := by
  intro index pixel body looped copied
  have hlooped : looped.completed = true := by decide +kernel
  have hcopied : copied.completed = true := by decide +kernel
  have hfault : ({} : Generation).fault 1 [] = {} := rfl
  obtain ⟨-, -, hitems, hplaces⟩ := loop_is_unrolled .empty {} .quiet .quiet none (some 7) 1
    (.int 3) body 3 [] rfl (by decide) hlooped (by rw [hfault]; exact hcopied)
  exact ⟨⟨hlooped, hcopied⟩, hitems, hplaces, by decide +kernel, by decide +kernel⟩

end Loop

end Generation

end PatternScript
