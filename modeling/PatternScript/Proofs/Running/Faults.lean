import PatternScript.Proofs.Reading.Scoping
import PatternScript.Run.Generation

/-!
# The faults of a command

The errors that a command adds to a run are a function of the command and of the state in
which it is met. Of a command whose tokens have the form that its reader promises, they are
faults of a variable in it, zero divisors, a text in place of an integer, or complaints
that no reader could have spared it.
-/
namespace PatternScript

namespace Evaluation

variable {store : Store} {index : Option Int32} {t : Token} {ts : List Token}
  {cause : RuntimeCause}

def OfVariable (store : Store) (index : Option Int32) (ts : List Token) (cause : RuntimeCause) :
    Prop :=
  ∃ v, .var v ∈ ts ∧ cause ∈ (readVariable store index v).faults

def OfArithmetic (store : Store) (index : Option Int32) (ts : List Token) (cause : RuntimeCause) :
    Prop :=
  OfVariable store index ts cause ∨ cause = .divisionByZero ∨ cause = .moduloByZero

theorem OfVariable.mono {ts' : List Token} (h : OfVariable store index ts cause)
    (hsub : ∀ t ∈ ts, t ∈ ts') : OfVariable store index ts' cause := by
  obtain ⟨v, hv, hc⟩ := h
  exact ⟨v, hsub _ hv, hc⟩

theorem OfArithmetic.mono {ts' : List Token} (h : OfArithmetic store index ts cause)
    (hsub : ∀ t ∈ ts, t ∈ ts') : OfArithmetic store index ts' cause :=
  h.imp_left fun h => h.mono hsub

theorem faults_negated (negated : Bool) (e : Evaluated Int32) :
    (if negated then { e with value := -e.value } else e).faults = e.faults := by
  split <;> rfl

theorem mem_faults_readVariable {v : VarRef} (h : cause ∈ (readVariable store index v).faults) :
    (cause = .indexOutsideLoop ∧ index = none) ∨
      (cause = .undefined v.name ∧ v.name ≠ indexName ∧ store.get? v.name = none) := by
  dsimp only [readVariable] at h
  rw [faults_negated] at h
  split at h
  next hname =>
    split at h
    · cases h
    · exact Or.inl ⟨List.mem_singleton.1 h, rfl⟩
  next hname =>
    split at h
    · cases h
    · next hget => exact Or.inr ⟨List.mem_singleton.1 h, hname, hget⟩

theorem operand_of_isOperand (store : Store) (index : Option Int32) (h : t.isOperand = true) :
    ∃ e, operand? store index t = some e ∧
      ∀ cause ∈ e.faults, OfVariable store index [t] cause := by
  cases t with
  | int n =>
    refine ⟨⟨n, []⟩, rfl, ?_⟩
    intro cause hc
    cases hc
  | var v => exact ⟨_, rfl, fun cause hc => ⟨v, List.mem_singleton.2 rfl, hc⟩⟩
  | text | op | compare => cases h

theorem mem_faults_integer (h : t.isOperand = true)
    (hc : cause ∈ (integer store index t).faults) : OfVariable store index [t] cause := by
  obtain ⟨e, he, hfaults⟩ := operand_of_isOperand store index h
  rw [integer, he] at hc
  exact hfaults cause hc

theorem mem_faults_apply {a b : Int32} {o : Arithmetic} (h : cause ∈ (apply a o b).faults) :
    cause = .divisionByZero ∨ cause = .moduloByZero := by
  cases o with
  | add | sub | mul => cases h
  | div =>
    rw [apply] at h
    split at h
    · exact Or.inl (List.mem_singleton.1 h)
    · cases h
  | mod =>
    rw [apply] at h
    split at h
    · exact Or.inr (List.mem_singleton.1 h)
    · cases h

theorem mem_faults_foldProducts {a : Int32} {chain : Chain}
    (h : cause ∈ (foldProducts a chain).faults) :
    cause = .divisionByZero ∨ cause = .moduloByZero := by
  induction chain generalizing a with
  | nil => cases h
  | cons step rest ih =>
    rw [foldProducts] at h
    split at h
    · rcases List.mem_append.1 h with h | h
      · exact mem_faults_apply h
      · exact ih h
    · exact ih h

theorem mem_faults_foldSums {a : Int32} {chain : Chain} (h : cause ∈ (foldSums a chain).faults) :
    cause = .divisionByZero ∨ cause = .moduloByZero := by
  induction chain generalizing a with
  | nil => cases h
  | cons step rest ih =>
    rcases List.mem_append.1 h with h | h
    · exact mem_faults_apply h
    · exact ih h

theorem mem_faults_chainValue {a : Int32} {chain : Chain}
    (h : cause ∈ (chainValue a chain).faults) :
    cause = .divisionByZero ∨ cause = .moduloByZero := by
  rcases List.mem_append.1 h with h | h
  · exact mem_faults_foldProducts h
  · exact mem_faults_foldSums h

open Expression (checkAlternation)

theorem isOperand_of_alternates {rest : List Token} (h : Alternates (t :: rest)) :
    t.isOperand = true ∧ checkAlternation false rest = .ok () := by
  cases t with
  | int | var => exact ⟨rfl, h⟩
  | text | op | compare => cases h

theorem readChain_of_alternates (store : Store) (index : Option Int32)
    (h : checkAlternation false ts = .ok ()) :
    ∃ chain, (readChain store index ts).value = some chain ∧
      ∀ cause ∈ (readChain store index ts).faults, OfVariable store index ts cause := by
  fun_induction readChain store index ts with
  | case1 =>
    refine ⟨[], rfl, ?_⟩
    intro cause hc
    cases hc
  | case2 o => cases h
  | case3 o t rest b hb tail ih =>
    obtain ⟨hoperand, hrest⟩ := isOperand_of_alternates h
    obtain ⟨chain, hchain, hfaults⟩ := ih hrest
    refine ⟨(o, b.value) :: chain, by rw [hchain]; rfl, ?_⟩
    intro cause hc
    obtain ⟨e, he, hefaults⟩ := operand_of_isOperand store index hoperand
    rw [hb, Option.some.injEq] at he
    subst he
    rcases List.mem_append.1 hc with hc | hc
    · exact (hefaults cause hc).mono (by simp)
    · exact (hfaults cause hc).mono (by simp +contextual)
  | case4 o t rest hb =>
    obtain ⟨hoperand, -⟩ := isOperand_of_alternates h
    obtain ⟨e, he, -⟩ := operand_of_isOperand store index hoperand
    rw [hb] at he
    cases he
  | case5 t rest hone hmore =>
    cases t with
    | op o =>
      cases rest with
      | nil => exact (hone o rfl rfl).elim
      | cons t' rest => exact (hmore o t' rest rfl rfl).elim
    | int | var | text | compare => cases h

theorem mem_faults_expression (h : Alternates ts)
    (hc : cause ∈ (expression store index ts).faults) : OfArithmetic store index ts cause := by
  cases ts with
  | nil => cases h
  | cons t rest =>
    obtain ⟨hoperand, hrest⟩ := isOperand_of_alternates h
    obtain ⟨first, hfirst, hfaults⟩ :=
      operand_of_isOperand store index hoperand
    obtain ⟨chain, hchain, hchainFaults⟩ :=
      readChain_of_alternates store index hrest
    simp only [expression, hfirst, hchain, List.mem_append] at hc
    rcases hc with (hc | hc) | hc
    · exact Or.inl ((hfaults cause hc).mono (by simp))
    · exact Or.inl ((hchainFaults cause hc).mono (by simp +contextual))
    · exact Or.inr (mem_faults_chainValue hc)

theorem mem_faults_condition (hone : ts.countP Token.isComparison = 1)
    (hlhs : Alternates (Condition.split ts).1) (hrhs : Alternates (Condition.split ts).2)
    (hc : cause ∈ (condition store index ts).faults) : OfArithmetic store index ts cause := by
  rw [List.countP_eq_length_filter, List.length_eq_one_iff] at hone
  obtain ⟨t, ht⟩ := hone
  have hcomparison : t.isComparison = true :=
    (List.mem_filter.1 (ht ▸ List.mem_singleton.2 rfl)).2
  cases t with
  | compare rel =>
    simp only [condition, ht, List.mem_append] at hc
    rcases hc with hc | hc
    · exact (mem_faults_expression hlhs hc).mono fun t => (List.takeWhile_sublist _).mem
    · exact (mem_faults_expression hrhs hc).mono fun t ht =>
        (List.dropWhile_sublist _).mem ((List.drop_sublist _ _).mem ht)
  | int | var | text | op => cases hcomparison

end Evaluation

def Action.integerKeys : Action → List String
  | translate _ => ["DX", "DY"]
  | rotate _ => ["DEGREES"]
  | scale _ => ["FACTOR"]
  | draw shape _ => shape.params
  | declare .. | assign .. | color _ | fill _ | resetTransforms => []

namespace Generation

variable {g : Generation} {index : Option Int32} {patterns : PatternTable} {line : Nat}
  {args : Arguments} {key : String} {cause : RuntimeCause}

def integerFaults (g : Generation) (index : Option Int32) (args : Arguments)
    (keys : List String) : List RuntimeCause :=
  keys.flatMap fun key => (g.integer index args key 0).faults

theorem faults_integer (g : Generation) (index : Option Int32) (args : Arguments) (key : String)
    (default : Int32) :
    (g.integer index args key default).faults = g.integerFaults index args [key] := by
  rw [integerFaults, List.flatMap_singleton]
  unfold integer
  cases args.get? key <;> rfl

theorem faults_shapeParams (g : Generation) (index : Option Int32) (args : Arguments)
    (keys : List String) :
    (g.shapeParams index args keys).faults = g.integerFaults index args keys := by
  induction keys with
  | nil => rfl
  | cons key rest ih => rw [shapeParams, ih, integerFaults, integerFaults, List.flatMap_cons]

end Generation

def Action.faults (patterns : PatternTable) (index : Option Int32) (g : Generation) :
    Action → List RuntimeCause
  | declare _ [] => []
  | declare _ init => (Evaluation.expression g.vars index init).faults
  | assign name value =>
    if g.vars.hasUser name then (Evaluation.expression g.vars index value).faults
    else [.assignUndeclared name]
  | color args => (Generation.chooseColor args).faults
  | fill args => (Generation.chooseFill patterns args).faults
  | resetTransforms => []
  | translate args => g.integerFaults index args ["DX", "DY"]
  | rotate args => g.integerFaults index args ["DEGREES"]
  | scale args => g.integerFaults index args ["FACTOR"]
  | draw shape args =>
    g.integerFaults index args shape.params ++
      if shape = .stamp ∧ patterns.find? (Generation.stampName args) = none then
        [.stampUnknown (Generation.stampName args)]
      else []

def Command.faults (patterns : PatternTable) (index : Option Int32) (g : Generation) :
    Command → List RuntimeCause
  | act _ a => a.faults patterns index g
  | loop _ count _ =>
    let n := Evaluation.integer g.vars index count
    n.faults ++ if n.value < 0 then [.negativeCount n.value] else []
  | choice _ condition _ _ => (Evaluation.condition g.vars index condition).faults

namespace Generation

theorem errors_fault (line : Nat) (causes : List RuntimeCause) (g : Generation) :
    (g.fault line causes).errors = g.errors ++ causes.map (RuntimeError.mk line) := by
  simp only [errors, fault, Array.toList_appendList, List.filterMap_append, List.filterMap_map]
  congr 1
  induction causes with
  | nil => rfl
  | cons cause causes ih => exact congrArg (_ :: ·) ih

theorem errors_transform (line : Nat) (t : Affine) (g : Generation) :
    (g.transform line t).errors = g.errors := by
  rw [transform]
  split
  · rfl
  · simp [errors, Notice.error?]

theorem errors_draw (shape : Shape) :
    (g.draw patterns line index shape args).errors =
      g.errors ++
        ((Action.draw shape args).faults patterns index g).map (RuntimeError.mk line) := by
  dsimp only [draw, Action.faults]
  rw [faults_shapeParams]
  by_cases hstamp : shape = .stamp
  · rw [if_pos hstamp]
    cases hfind : patterns.find? (stampName args) with
    | none =>
      rw [if_pos ⟨hstamp, rfl⟩, errors_fault, errors_fault, List.map_append, List.append_assoc]
    | some p =>
      rw [if_neg (by simp), List.append_nil]
      exact errors_fault line _ g
  · rw [if_neg hstamp, if_neg (by simp [hstamp]), List.append_nil]
    exact errors_fault line _ g

theorem errors_act (a : Action) : (g.act patterns line index a).errors =
    g.errors ++ (a.faults patterns index g).map (RuntimeError.mk line) := by
  cases a with
  | declare name init =>
    cases init with
    | nil => exact (List.append_nil _).symm
    | cons t init => exact errors_fault line _ g
  | assign name value =>
    rw [act, Action.faults]
    dsimp only
    split
    · exact errors_fault line _ g
    · exact errors_fault line _ g
  | color args => exact errors_fault line _ g
  | fill args => exact errors_fault line _ g
  | resetTransforms => exact (List.append_nil _).symm
  | translate args =>
    unfold act
    dsimp only
    rw [errors_transform, errors_fault, faults_integer, faults_integer, integerFaults,
      integerFaults, ← List.flatMap_append]
    rfl
  | rotate args =>
    unfold act
    dsimp only
    rw [errors_transform, errors_fault, faults_integer]
    rfl
  | scale args =>
    refine (errors_fault line _ g).trans ?_
    rw [faults_integer]
    rfl
  | draw shape args => exact errors_draw shape

end Generation

theorem NameMap.mem_values_of_get? {α : Type} {m : NameMap α} {name : String} {value : α}
    (h : m.get? name = some value) : value ∈ m.values := by
  rw [get?] at h
  rw [values]
  revert h
  generalize m.entries = es
  intro h
  induction es with
  | nil => cases h
  | cons e rest ih =>
    rw [List.lookup_cons] at h
    split at h
    · cases h
      exact List.mem_cons_self
    · exact List.mem_cons_of_mem _ (ih h)

def Command.HasText (c : Command) (text : String) : Prop :=
  ∃ line a args key, c = .act line a ∧ a.args? = some args ∧ key ∈ a.integerKeys ∧
    args.get? key = some (.text text)

section Cases

variable {g : Generation} {index : Option Int32} {patterns : PatternTable} {cause : RuntimeCause}

theorem Generation.mem_integerFaults {args : Arguments} {keys : List String}
    (hvalues : ∀ t ∈ args.values, t.isOperator = false)
    (h : cause ∈ g.integerFaults index args keys) :
    Evaluation.OfVariable g.vars index args.values cause ∨
      ∃ key ∈ keys, ∃ text,
        args.get? key = some (.text text) ∧ cause = .notInteger (.text text) := by
  obtain ⟨key, hkey, hcause⟩ := List.mem_flatMap.1 h
  rw [integer] at hcause
  cases hget : args.get? key with
  | none =>
    rw [hget] at hcause
    cases hcause
  | some t =>
    rw [hget] at hcause
    have hmem := NameMap.mem_values_of_get? hget
    have hsingle : ∀ t' ∈ [t], t' ∈ args.values := by
      intro t' ht'
      rwa [List.mem_singleton.1 ht']
    cases t with
    | int n => exact Or.inl ((Evaluation.mem_faults_integer rfl hcause).mono hsingle)
    | var v => exact Or.inl ((Evaluation.mem_faults_integer rfl hcause).mono hsingle)
    | text text => exact Or.inr ⟨key, hkey, text, hget, List.mem_singleton.1 hcause⟩
    | op o => exact absurd (hvalues _ hmem) Bool.noConfusion
    | compare rel => exact absurd (hvalues _ hmem) Bool.noConfusion

/-- The codes of faults that the reader of a script guards against. -/
def RuntimeCause.Guarded (cause : RuntimeCause) : Prop :=
  cause.code = .malformed ∨ cause.code = .indexOutsideLoop ∨ cause.code = .unresolved ∨
    cause.code = .undeclared

theorem not_guarded_of_arithmetic (h : cause = .divisionByZero ∨ cause = .moduloByZero) :
    ¬ cause.Guarded := by
  rcases h with rfl | rfl <;> simp [RuntimeCause.Guarded, RuntimeCause.code]

theorem ofVariable_of_ofArithmetic {ts : List Token} (hguarded : cause.Guarded)
    (h : Evaluation.OfArithmetic g.vars index ts cause) :
    Evaluation.OfVariable g.vars index ts cause :=
  h.resolve_right fun h => not_guarded_of_arithmetic h hguarded

theorem Generation.not_guarded_of_color {args : Arguments}
    (h : cause ∈ (chooseColor args).faults) : ¬ cause.Guarded := by
  rw [chooseColor] at h
  split at h
  · cases h
  · split at h
    · cases h
    · cases List.mem_singleton.1 h
      simp [RuntimeCause.Guarded, RuntimeCause.code]

theorem Generation.not_guarded_of_fill {args : Arguments}
    (h : cause ∈ (chooseFill patterns args).faults) : ¬ cause.Guarded := by
  rw [chooseFill] at h
  split at h
  · cases h
  · split at h
    · cases h
    · split at h
      · cases h
      · cases List.mem_singleton.1 h
        simp [RuntimeCause.Guarded, RuntimeCause.code]
  · cases List.mem_singleton.1 h
    simp [RuntimeCause.Guarded, RuntimeCause.code]

theorem Command.mem_faults_of_keys {line : Nat} {a : Action} {args : Arguments}
    (hargs : a.args? = some args) (htokens : a.tokens = args.values)
    (hvalues : ∀ t ∈ args.values, t.isOperator = false)
    (h : cause ∈ g.integerFaults index args a.integerKeys) :
    Evaluation.OfVariable g.vars index (act line a).tokens cause ∨
      ∃ text, (act line a).HasText text ∧ cause = .notInteger (.text text) := by
  rcases Generation.mem_integerFaults hvalues h with h | ⟨key, hkey, text, hget, hcause⟩
  · exact Or.inl (by rwa [tokens, htokens])
  · exact Or.inr ⟨text, ⟨line, a, args, key, rfl, hargs, hkey, hget⟩, hcause⟩

theorem Command.mem_faults_cases {c : Command} (hshape : c.Shaped)
    (h : cause ∈ c.faults patterns index g) (hguarded : cause.Guarded) :
    Evaluation.OfVariable g.vars index c.tokens cause ∨
      (∃ text, c.HasText text ∧ cause = .notInteger (.text text)) ∨
      ∃ line name value, c = .act line (.assign name value) ∧ g.vars.hasUser name = false ∧
        cause = .assignUndeclared name := by
  cases c with
  | loop line count body =>
    rcases List.mem_append.1 h with h | h
    · exact Or.inl (Evaluation.mem_faults_integer hshape h)
    · split at h
      · cases List.mem_singleton.1 h
        simp [RuntimeCause.Guarded, RuntimeCause.code] at hguarded
      · cases h
  | choice line condition yes no =>
    obtain ⟨hone, hlhs, hrhs⟩ := hshape
    exact Or.inl (ofVariable_of_ofArithmetic hguarded
      (Evaluation.mem_faults_condition hone hlhs hrhs h))
  | act line a =>
    cases a with
    | declare name init =>
      cases init with
      | nil => cases h
      | cons t init =>
        have halternates : Alternates (t :: init) := hshape.resolve_left (List.cons_ne_nil _ _)
        exact Or.inl (ofVariable_of_ofArithmetic hguarded
          (Evaluation.mem_faults_expression halternates h))
    | assign name value =>
      simp only [faults, Action.faults] at h
      split at h
      · exact Or.inl (ofVariable_of_ofArithmetic hguarded
          (Evaluation.mem_faults_expression hshape h))
      · next hnone =>
        exact Or.inr (Or.inr ⟨line, name, value, rfl, by simpa using hnone,
          List.mem_singleton.1 h⟩)
    | color args => exact absurd hguarded (Generation.not_guarded_of_color h)
    | fill args => exact absurd hguarded (Generation.not_guarded_of_fill h)
    | resetTransforms => cases h
    | translate args =>
      exact (mem_faults_of_keys (a := .translate args) rfl rfl hshape h).imp_right Or.inl
    | rotate args =>
      exact (mem_faults_of_keys (a := .rotate args) rfl rfl hshape h).imp_right Or.inl
    | scale args =>
      exact (mem_faults_of_keys (a := .scale args) rfl rfl hshape h).imp_right Or.inl
    | draw shape args =>
      rcases List.mem_append.1 h with h | h
      · exact (mem_faults_of_keys (a := .draw shape args) rfl rfl hshape h).imp_right Or.inl
      · split at h
        · cases List.mem_singleton.1 h
          simp [RuntimeCause.Guarded, RuntimeCause.code] at hguarded
        · cases h

end Cases

end PatternScript
