import PatternScript.Proofs.Running.Tallies

/-!
# Commands that cannot be at fault

What a command finds fault with depends on the values of variables, but often not on which values
these are: where the variables it reads are stored, its divisors are constants other than zero and
its patterns are defined, there is nothing to find fault with. All of this can be checked before
the run, and so can the number of items such a command adds.
-/
namespace PatternScript

/-- What is known before a command: variables of the host and of the script that are stored,
whether a loop is around it, and a variable of which the value must stay. -/
structure Scope where
  host : List String
  own : List String
  inLoop : Bool
  pinned : String

namespace Scope

def reads (scope : Scope) : Token → Bool
  | .int _ => true
  | .var v =>
    if v.name = indexName then scope.inLoop
    else scope.own.contains v.name || scope.host.contains v.name
  | .text _ | .op _ | .compare _ => false

def readsAfter (scope : Scope) : Arithmetic → Token → Bool
  | .div, .int n | .mod, .int n => n != 0
  | .div, _ | .mod, _ => false
  | .add, t | .sub, t | .mul, t => scope.reads t

def chains (scope : Scope) : List Token → Bool
  | [] => true
  | .op o :: t :: rest => scope.readsAfter o t && scope.chains rest
  | _ => false

def evaluates (scope : Scope) : List Token → Bool
  | [] => false
  | t :: rest => scope.reads t && scope.chains rest

def decides (scope : Scope) (ts : List Token) : Bool :=
  (ts.filter Token.isComparison).length == 1 && scope.evaluates (Condition.split ts).1 &&
    scope.evaluates (Condition.split ts).2

def readsAll (scope : Scope) (args : Arguments) (keys : List String) : Bool :=
  keys.all fun key => (args.get? key).all scope.reads

structure Holds (scope : Scope) (environment : NameMap Int32) (index : Option Int32)
    (value : Int32) (vars : Store) : Prop where
  environment_eq : vars.environment = environment
  host : ∀ name ∈ scope.host, environment.contains name = true
  own : ∀ name ∈ scope.own, vars.hasUser name = true
  inLoop : scope.inLoop = true → index.isSome = true
  pinned : vars.get? scope.pinned = some value

end Scope

open Evaluation

section Reading

variable {scope : Scope} {environment : NameMap Int32} {index : Option Int32} {value : Int32}
  {vars : Store} {t : Token} {ts : List Token} {args : Arguments} {chain : Chain} {a b : Int32}
  {o : Arithmetic}

def Evaluation.Regular (step : Arithmetic × Int32) : Prop :=
  step.1 = .div ∨ step.1 = .mod → step.2 ≠ 0

theorem Evaluation.faults_apply_of_regular (h : Regular (o, b)) : (apply a o b).faults = [] := by
  cases o with
  | add | sub | mul => rfl
  | div => rw [apply, if_neg (h (.inl rfl))]
  | mod => rw [apply, if_neg (h (.inr rfl))]

theorem Evaluation.faults_foldProducts_of_regular (h : ∀ step ∈ chain, Regular step) :
    (foldProducts a chain).faults = [] ∧
      ∀ step ∈ (foldProducts a chain).value.2, Regular step := by
  induction chain generalizing a with
  | nil => exact ⟨rfl, nofun⟩
  | cons step rest ih =>
    obtain ⟨o, b⟩ := step
    obtain ⟨hstep, hrest⟩ := List.forall_mem_cons.1 h
    rw [foldProducts]
    split
    next =>
      obtain ⟨hfaults, hsums⟩ := ih (a := (apply a o b).value) hrest
      refine ⟨?_, hsums⟩
      dsimp only
      rw [faults_apply_of_regular hstep, hfaults]
      rfl
    next hloose =>
      obtain ⟨hfaults, hsums⟩ := ih (a := b) hrest
      refine ⟨hfaults, List.forall_mem_cons.2 ⟨?_, hsums⟩⟩
      -- A sum or a difference divides nothing.
      rintro (hdiv | hmod)
      · exact absurd (by rw [show o = .div from hdiv]; rfl) hloose
      · exact absurd (by rw [show o = .mod from hmod]; rfl) hloose

theorem Evaluation.faults_foldSums_of_regular (h : ∀ step ∈ chain, Regular step) :
    (foldSums a chain).faults = [] := by
  induction chain generalizing a with
  | nil => rfl
  | cons step rest ih =>
    obtain ⟨hstep, hrest⟩ := List.forall_mem_cons.1 h
    rw [foldSums]
    dsimp only
    rw [faults_apply_of_regular hstep, ih hrest]
    rfl

theorem Evaluation.faults_chainValue_of_regular (h : ∀ step ∈ chain, Regular step) :
    (chainValue a chain).faults = [] := by
  obtain ⟨hproducts, hsums⟩ := faults_foldProducts_of_regular (a := a) h
  rw [chainValue]
  dsimp only
  rw [hproducts, faults_foldSums_of_regular hsums]
  rfl

namespace Scope

theorem Holds.get?_host (h : scope.Holds environment index value vars) {name : String} {n : Int32}
    (hname : environment.get? name = some n) : vars.get? name = some n := by
  rw [Store.get?, h.environment_eq, hname]
  rfl

theorem Holds.isSome_get? (h : scope.Holds environment index value vars) {name : String}
    (hname : name ∈ scope.own ∨ name ∈ scope.host) : (vars.get? name).isSome = true := by
  rw [Store.get?, h.environment_eq]
  cases hget : environment.get? name with
  | some n => rfl
  | none =>
    refine hname.elim (h.own name) fun hhost => ?_
    simpa [NameMap.contains, hget] using h.host name hhost

theorem readVariable_of_reads (h : scope.Holds environment index value vars) {v : VarRef}
    (hv : scope.reads (.var v) = true) : ∃ n, readVariable vars index v = ⟨n, []⟩ := by
  rw [reads] at hv
  split at hv
  next hname =>
    obtain ⟨i, rfl⟩ := Option.isSome_iff_exists.1 (h.inLoop hv)
    refine ⟨if v.negated then -i else i, ?_⟩
    simp only [readVariable, hname, if_true]
    split <;> rfl
  next hname =>
    rw [Bool.or_eq_true, List.contains_iff_mem, List.contains_iff_mem] at hv
    obtain ⟨n, hn⟩ := Option.isSome_iff_exists.1 (h.isSome_get? hv)
    refine ⟨if v.negated then -n else n, ?_⟩
    simp only [readVariable, hname, if_false, hn]
    split <;> rfl

theorem operand_of_reads (h : scope.Holds environment index value vars)
    (ht : scope.reads t = true) : ∃ n, operand? vars index t = some ⟨n, []⟩ := by
  cases t with
  | int n => exact ⟨n, rfl⟩
  | var v => exact (readVariable_of_reads h ht).imp fun _ => congrArg some
  | text | op | compare => cases ht

theorem operand_of_readsAfter (h : scope.Holds environment index value vars)
    (ht : scope.readsAfter o t = true) :
    ∃ n, operand? vars index t = some ⟨n, []⟩ ∧ Regular (o, n) := by
  cases o with
  | add | sub | mul =>
    obtain ⟨n, hn⟩ := operand_of_reads h ht
    exact ⟨n, hn, by simp [Regular]⟩
  | div | mod =>
    cases t with
    | int n => exact ⟨n, rfl, fun _ => by simpa [readsAfter] using ht⟩
    | var | text | op | compare => cases ht

theorem readChain_of_chains (h : scope.Holds environment index value vars)
    (hts : scope.chains ts = true) :
    ∃ chain, readChain vars index ts = ⟨some chain, []⟩ ∧ ∀ step ∈ chain, Regular step := by
  fun_induction chains scope ts with
  | case1 => exact ⟨[], rfl, nofun⟩
  | case2 o t rest ih =>
    obtain ⟨ht, hrest⟩ := Bool.and_eq_true_iff.1 hts
    obtain ⟨n, hn, hregular⟩ := operand_of_readsAfter h ht
    obtain ⟨chain, hchain, hall⟩ := ih hrest
    refine ⟨(o, n) :: chain, ?_, List.forall_mem_cons.2 ⟨hregular, hall⟩⟩
    rw [readChain, hn]
    simp [hchain]
  | case3 => cases hts

theorem faults_expression_of_evaluates (h : scope.Holds environment index value vars)
    (hts : scope.evaluates ts = true) : (expression vars index ts).faults = [] := by
  cases ts with
  | nil => cases hts
  | cons t rest =>
    obtain ⟨ht, hrest⟩ := Bool.and_eq_true_iff.1 hts
    obtain ⟨n, hn⟩ := operand_of_reads h ht
    obtain ⟨chain, hchain, hall⟩ := readChain_of_chains h hrest
    rw [expression, hn]
    simp [hchain, faults_chainValue_of_regular hall]

theorem faults_condition_of_decides (h : scope.Holds environment index value vars)
    (hts : scope.decides ts = true) : (condition vars index ts).faults = [] := by
  rw [decides, Bool.and_eq_true_iff, Bool.and_eq_true_iff, beq_iff_eq,
    List.length_eq_one_iff] at hts
  obtain ⟨⟨⟨t, ht⟩, hlhs⟩, hrhs⟩ := hts
  have hcomparison : t.isComparison = true :=
    (List.mem_filter.1 (ht ▸ List.mem_singleton.2 rfl)).2
  cases t with
  | compare rel =>
    simp only [condition, ht]
    exact List.append_eq_nil_iff.2
      ⟨faults_expression_of_evaluates h hlhs, faults_expression_of_evaluates h hrhs⟩
  | int | var | text | op => cases hcomparison

theorem integerFaults_of_readsAll {g : Generation} (h : scope.Holds environment index value g.vars)
    {keys : List String} (hargs : scope.readsAll args keys = true) :
    g.integerFaults index args keys = [] := by
  rw [Generation.integerFaults, List.flatMap_eq_nil_iff]
  intro key hkey
  have hread := List.all_eq_true.1 hargs key hkey
  rw [Generation.integer]
  cases hget : args.get? key with
  | none => rfl
  | some t =>
    rw [hget] at hread
    obtain ⟨n, hn⟩ := operand_of_reads h hread
    simp [Evaluation.integer, hn]

end Scope

end Reading

def Action.target? : Action → Option String
  | declare name _ | assign name _ => some name
  | color _ | fill _ | resetTransforms | translate _ | rotate _ | scale _ | draw .. => none

def Action.safe (patterns : PatternTable) (scope : Scope) : Action → Bool
  | declare _ init => init.isEmpty || scope.evaluates init
  | assign name value => scope.own.contains name && scope.evaluates value
  | color args => (Generation.chooseColor args).faults.isEmpty
  | fill args => (Generation.chooseFill patterns args).faults.isEmpty
  | resetTransforms => true
  | translate args => scope.readsAll args ["DX", "DY"]
  | rotate args => scope.readsAll args ["DEGREES"]
  | scale args => scope.readsAll args ["FACTOR"]
  | draw shape args => scope.readsAll args shape.params &&
      (shape != .stamp || (patterns.find? (Generation.stampName args)).isSome)

/-- What is known after a command; what a branch declares is not counted on. -/
def Scope.after (scope : Scope) : Command → Scope
  | .act _ a => { scope with own := a.target?.toList ++ scope.own }
  | .loop .. | .choice .. => scope

mutual

def Command.drawn (patterns : PatternTable) : Command → Nat
  | .act _ a => a.drawn patterns
  | .loop .. => 0
  | .choice _ _ yes _ => drawnAll patterns yes

def Command.drawnAll (patterns : PatternTable) : List Command → Nat
  | [] => 0
  | c :: rest => c.drawn patterns + drawnAll patterns rest

end

mutual

/-- Whether a command is known to be without a fault, to leave the pinned variable alone and to
add so many items whatever the values are. A loop is not, as its count is a value. -/
def Command.safe (patterns : PatternTable) (scope : Scope) : Command → Bool
  | .act _ a => a.target? != some scope.pinned && a.safe patterns scope
  | .loop .. => false
  | .choice _ condition yes no => scope.decides condition && safeAll patterns scope yes &&
      safeAll patterns scope no && drawnAll patterns yes == drawnAll patterns no

def Command.safeAll (patterns : PatternTable) (scope : Scope) : List Command → Bool
  | [] => true
  | c :: rest => c.safe patterns scope && safeAll patterns (scope.after c) rest

end

section Soundness

variable {patterns : PatternTable} {scope : Scope} {environment : NameMap Int32}
  {index : Option Int32} {value : Int32} {vars : Store} {t t' t'' : Tally} {n m : Nat}

theorem Action.faults_of_safe (h : scope.Holds environment index value vars) {a : Action}
    (ha : a.safe patterns scope = true) : a.faults patterns index { vars } = [] := by
  cases a with
  | declare name init =>
    cases init with
    | nil => rfl
    | cons first rest => exact Scope.faults_expression_of_evaluates h ha
  | assign name value =>
    obtain ⟨hname, hvalue⟩ := Bool.and_eq_true_iff.1 ha
    have huser : vars.hasUser name = true := h.own name (List.contains_iff_mem.1 hname)
    rw [faults, if_pos huser]
    exact Scope.faults_expression_of_evaluates h hvalue
  | color args => exact List.isEmpty_iff.1 ha
  | fill args => exact List.isEmpty_iff.1 ha
  | resetTransforms => rfl
  | translate args | rotate args | scale args => exact Scope.integerFaults_of_readsAll h ha
  | draw shape args =>
    obtain ⟨hargs, hfound⟩ := Bool.and_eq_true_iff.1 ha
    have hstamp : ¬ (shape = .stamp ∧ patterns.find? (Generation.stampName args) = none) := by
      rintro ⟨rfl, hnone⟩
      simp [hnone] at hfound
    rw [faults, if_neg hstamp, List.append_nil]
    exact Scope.integerFaults_of_readsAll h hargs

namespace Scope.Holds

theorem pin (h : scope.Holds environment index value vars)
    (hfree : environment.get? scope.pinned = none) (v : Int32) :
    scope.Holds environment index v (vars.setUser scope.pinned v) where
  environment_eq := h.environment_eq
  host := h.host
  own name hname := Store.hasUser_setUser.2 (.inr (h.own name hname))
  inLoop := h.inLoop
  pinned := by simp [Store.get?, Store.setUser, h.environment_eq, hfree]

theorem set (h : scope.Holds environment index value vars) {name : String}
    (hname : name ≠ scope.pinned) (v : Int32) :
    Holds { scope with own := name :: scope.own } environment index value
      (vars.setUser name v) where
  environment_eq := h.environment_eq
  host := h.host
  own other hother := Store.hasUser_setUser.2 ((List.mem_cons.1 hother).imp_right (h.own other))
  inLoop := h.inLoop
  pinned := by
    have hpinned := h.pinned
    simp only [Store.get?, Store.setUser, NameMap.get?_set, hname.symm, if_false] at hpinned ⊢
    exact hpinned

theorem before {c : Command} (h : (scope.after c).Holds environment index value vars) :
    scope.Holds environment index value vars := by
  cases c with
  | act line a =>
    exact { h with own := fun name hname => h.own name (List.mem_append_right _ hname) }
  | loop | choice => exact h

theorem inside (h : scope.Holds environment index value vars) (i : Int32) :
    Holds { scope with inLoop := true } environment (some i) value vars :=
  ⟨h.environment_eq, h.host, h.own, fun _ => rfl, h.pinned⟩

theorem outside {i : Int32}
    (h : Holds { scope with inLoop := true } environment (some i) value vars)
    (hloop : scope.inLoop = true → index.isSome = true) :
    scope.Holds environment index value vars :=
  ⟨h.environment_eq, h.host, h.own, hloop, h.pinned⟩

theorem stored (h : scope.Holds environment index value vars) (line : Nat) {a : Action}
    (hown : ∀ name ∈ a.target?, name ≠ scope.pinned) (ha : a.safe patterns scope = true) :
    (scope.after (.act line a)).Holds environment index value (a.stored index vars) := by
  cases a with
  | declare name init => cases init <;> exact h.set (hown name rfl) _
  | assign name value =>
    have hname := List.contains_iff_mem.1 (Bool.and_eq_true_iff.1 ha).1
    rw [Action.stored, if_pos (h.own name hname)]
    exact h.set (hown name rfl) _
  | _ => exact h

end Scope.Holds

/-- From a tally to a later one, so many items were added and no errors, and what was known of the
variables still holds. -/
structure Steady (scope : Scope) (environment : NameMap Int32) (index : Option Int32)
    (value : Int32) (n : Nat) (t t' : Tally) : Prop where
  holds : scope.Holds environment index value t'.vars
  items_eq : t'.items = t.items + n
  errors_eq : t'.errors = t.errors

theorem Steady.trans {scope' : Scope} (h : Steady scope' environment index value n t t')
    (h' : Steady scope environment index value m t' t'') :
    Steady scope environment index value (n + m) t t'' where
  holds := h'.holds
  items_eq := by rw [h'.items_eq, h.items_eq, Nat.add_assoc]
  errors_eq := by rw [h'.errors_eq, h.errors_eq]

namespace Command

mutual

theorem steady_tally (scope : Scope) (c : Command) (t : Tally)
    (h : scope.Holds environment index value t.vars) (hc : c.safe patterns scope = true) :
    Steady (scope.after c) environment index value (c.drawn patterns) t
      (c.tally patterns index t) := by
  cases c with
  | act line a =>
    rw [safe, Bool.and_eq_true, bne_iff_ne] at hc
    have hown : ∀ name ∈ a.target?, name ≠ scope.pinned := by
      rintro name hname rfl
      exact hc.1 hname
    rw [tally, drawn]
    refine ⟨h.stored line hown hc.2, rfl, ?_⟩
    rw [Action.tally, Action.faults_of_safe h hc.2, List.map_nil, List.append_nil]
  | loop => cases hc
  | choice line condition yes no =>
    rw [safe, Bool.and_eq_true, Bool.and_eq_true, Bool.and_eq_true, beq_iff_eq] at hc
    obtain ⟨⟨⟨hcondition, hyes⟩, hno⟩, hsame⟩ := hc
    rw [tally, drawn, Scope.faults_condition_of_decides h hcondition, Tally.fault_nil]
    split
    · exact steady_tallyAll scope yes t h hyes
    · rw [hsame]
      exact steady_tallyAll scope no t h hno

theorem steady_tallyAll (scope : Scope) (cs : List Command) (t : Tally)
    (h : scope.Holds environment index value t.vars) (hcs : safeAll patterns scope cs = true) :
    Steady scope environment index value (drawnAll patterns cs) t
      (tallyAll patterns index cs t) := by
  cases cs with
  | nil =>
    rw [tallyAll]
    exact ⟨h, rfl, rfl⟩
  | cons c rest =>
    rw [safeAll, Bool.and_eq_true] at hcs
    have hfirst := steady_tally scope c t h hcs.1
    have hrest := steady_tallyAll (scope.after c) rest _ hfirst.holds hcs.2
    have hall := hfirst.trans hrest
    rw [tallyAll, drawnAll]
    exact ⟨hall.holds.before, hall.items_eq, hall.errors_eq⟩

end

theorem steady_passes (body : List Command)
    (hbody : safeAll patterns { scope with inLoop := true } body = true) (i left : Nat) (t : Tally)
    (h : scope.Holds environment index value t.vars) :
    Steady scope environment index value (drawnAll patterns body * left) t
      (t.passes (fun i => tallyAll patterns (some i) body) i left) := by
  induction left generalizing i t with
  | zero => exact ⟨h, rfl, rfl⟩
  | succ left ih =>
    have hpass := steady_tallyAll _ body t (h.inside (Int32.ofNat i)) hbody
    have hrest := ih (i + 1) _ (hpass.holds.outside h.inLoop)
    refine ⟨hrest.holds, ?_, hrest.errors_eq.trans hpass.errors_eq⟩
    rw [Tally.passes, hrest.items_eq, hpass.items_eq, Nat.mul_succ]
    omega

end Command

end Soundness

end PatternScript
