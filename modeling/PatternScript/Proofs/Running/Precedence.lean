import PatternScript.Proofs.Reading.Grammar
import PatternScript.Proofs.Running.Faults

/-!
# Expressions as trees

The standard meaning of an expression, said without its evaluation in two passes. The grammar
has products of operands and sums of products, both grouped to the left, and every well-formed
list of tokens has one tree in it. A tree stands for an integer that is cut to 32 bits at every
node, where a division by zero gives zero. The two passes compute this value, and what they find
fault with is first every operand without a value and then every zero divisor, both from left to
right.
-/
namespace PatternScript

inductive ExpressionTree
  | operand (t : Token)
  | node (lhs : ExpressionTree) (o : Arithmetic) (rhs : ExpressionTree)

def Arithmetic.onIntegers (a b : Int) : Arithmetic → Int
  | add => a + b
  | sub => a - b
  | mul => a * b
  | div => if b = 0 then 0 else a.tdiv b
  | mod => if b = 0 then 0 else a.tmod b

def Arithmetic.zeroDivisor? (b : Int32) : Arithmetic → Option RuntimeCause
  | div => if b = 0 then some .divisionByZero else none
  | mod => if b = 0 then some .moduloByZero else none
  | add | sub | mul => none

namespace ExpressionTree

/-- Operands with `*`, `/` and `%` between them, grouped to the left. -/
inductive IsProduct : List Token → ExpressionTree → Prop where
  | operand {t : Token} (ht : t.isOperand = true) : IsProduct [t] (.operand t)
  | step {ts : List Token} {e : ExpressionTree} {o : Arithmetic} {t : Token} (h : IsProduct ts e)
      (ho : o ∈ [Arithmetic.mul, .div, .mod]) (ht : t.isOperand = true) :
      IsProduct (ts ++ [.op o, t]) (.node e o (.operand t))

inductive IsSum : List Token → ExpressionTree → Prop where
  | product {ts : List Token} {e : ExpressionTree} (h : IsProduct ts e) : IsSum ts e
  | step {ts us : List Token} {e e' : ExpressionTree} {o : Arithmetic} (h : IsSum ts e)
      (ho : o ∈ [Arithmetic.add, .sub]) (h' : IsProduct us e') :
      IsSum (ts ++ .op o :: us) (.node e o e')

section Meaning

variable (store : Store) (index : Option Int32)

def lookUp (name : String) : Option Int32 :=
  if name = indexName then index else store.get? name

def operandValue : Token → Int32
  | .int n => n
  | .var v =>
    let n := (lookUp store index v.name).getD 0
    if v.negated then Int32.ofInt (-n.toInt) else n
  | .text _ | .op _ | .compare _ => 0

def unresolved? : Token → Option RuntimeCause
  | .var v =>
    if lookUp store index v.name = none then
      some (if v.name = indexName then .indexOutsideLoop else .undefined v.name)
    else none
  | .int _ | .text _ | .op _ | .compare _ => none

def value : ExpressionTree → Int32
  | operand t => operandValue store index t
  | node lhs o rhs => Int32.ofInt (o.onIntegers lhs.value.toInt rhs.value.toInt)

def zeroDivisors : ExpressionTree → List RuntimeCause
  | operand _ => []
  | node lhs o rhs =>
    lhs.zeroDivisors ++ (o.zeroDivisor? (rhs.value store index)).toList ++ rhs.zeroDivisors

end Meaning

section Unique

variable {ts us : List Token} {e e' : ExpressionTree}

def IsLoose (t : Token) : Prop := t = .op .add ∨ t = .op .sub

theorem isLoose_op {o : Arithmetic} : IsLoose (.op o) ↔ o ∈ [Arithmetic.add, .sub] := by
  simp [IsLoose]

theorem not_isLoose_of_isOperand {t : Token} (ht : t.isOperand = true) : ¬ IsLoose t := by
  rintro (rfl | rfl) <;> cases ht

theorem IsProduct.not_isLoose (h : IsProduct ts e) : ∀ t ∈ ts, ¬ IsLoose t := by
  induction h with
  | operand ht => simpa using not_isLoose_of_isOperand ht
  | @step ts e o t h ho ht ih =>
    have hop : ¬ IsLoose (.op o) := by
      rw [isLoose_op]
      revert ho
      cases o <;> decide
    simp only [List.forall_mem_append, List.forall_mem_cons]
    exact ⟨ih, hop, not_isLoose_of_isOperand ht, nofun⟩

theorem IsProduct.unique (h : IsProduct ts e) (h' : IsProduct ts e') : e = e' := by
  induction h generalizing e' with
  | operand ht =>
    generalize hts : [_] = us at h'
    cases h' with
    | operand => cases hts; rfl
    | step => simpa using congrArg List.length hts
  | @step ts e o t h ho ht ih =>
    generalize hts : ts ++ [.op o, t] = us at h'
    cases h' with
    | operand => simpa using congrArg List.length hts
    | step h' =>
      obtain ⟨rfl, hlast⟩ := List.append_inj' hts rfl
      cases hlast
      rw [ih h']

theorem cut_last_unique {α : Type} {p : α → Prop} {xs ys xs' ys' : List α} {a a' : α}
    (heq : xs ++ a :: ys = xs' ++ a' :: ys') (ha : p a) (ha' : p a')
    (hys : ∀ y ∈ ys, ¬ p y) (hys' : ∀ y ∈ ys', ¬ p y) : xs = xs' ∧ a = a' ∧ ys = ys' := by
  rcases List.append_eq_append_iff.1 heq with ⟨zs, rfl, hzs⟩ | ⟨zs, rfl, hzs⟩
  · cases zs with
    | nil => cases hzs; simp
    | cons z zs =>
      obtain ⟨rfl, rfl⟩ := List.cons_eq_cons.1 hzs
      exact absurd ha' (hys a' (by simp))
  · cases zs with
    | nil => cases hzs; simp
    | cons z zs =>
      obtain ⟨rfl, rfl⟩ := List.cons_eq_cons.1 hzs
      exact absurd ha (hys' a (by simp))

theorem IsSum.unique (h : IsSum ts e) (h' : IsSum ts e') : e = e' := by
  induction h generalizing e' with
  | product h =>
    cases h' with
    | product h' => exact h.unique h'
    | step h' ho => exact absurd (isLoose_op.2 ho) (h.not_isLoose _ (by simp))
  | @step ts us e₁ e₂ o h ho hus ih =>
    generalize hts : ts ++ .op o :: us = all at h'
    cases h' with
    | product h' =>
      cases hts
      exact absurd (isLoose_op.2 ho) (h'.not_isLoose _ (by simp))
    | step h' ho' hus' =>
      -- Both lists are cut at the last operator that stands between products.
      obtain ⟨rfl, ho, rfl⟩ := cut_last_unique hts (isLoose_op.2 ho) (isLoose_op.2 ho')
        hus.not_isLoose hus'.not_isLoose
      cases ho
      rw [ih h', hus.unique hus']

end Unique

section Exists

variable {ts us : List Token} {e : ExpressionTree} {t : Token}

theorem tight_or_loose (o : Arithmetic) :
    o ∈ [Arithmetic.mul, .div, .mod] ∨ o ∈ [Arithmetic.add, .sub] := by
  cases o <;> simp

theorem IsSum.push (h : IsSum ts e) (o : Arithmetic) (ht : t.isOperand = true) :
    ∃ e', IsSum (ts ++ [.op o, t]) e' := by
  rcases tight_or_loose o with ho | ho
  · cases h with
    | product h => exact ⟨_, .product (h.step ho ht)⟩
    | step h ho' h' =>
      rw [List.append_assoc, List.cons_append]
      exact ⟨_, h.step ho' (h'.step ho ht)⟩
  · exact ⟨_, h.step ho (.operand ht)⟩

theorem IsSum.pushAll (h : IsSum ts e) (o : Arithmetic) (hus : Expression.WellFormed us) :
    ∃ e', IsSum (ts ++ .op o :: us) e' := by
  induction hus generalizing ts e o with
  | operand ht => exact h.push o ht
  | @step t us ht o' _ ih =>
    obtain ⟨e', h'⟩ := h.push o ht
    simpa using ih h' o'

theorem exists_of_wellFormed (h : Expression.WellFormed ts) : ∃ e, IsSum ts e := by
  cases h with
  | operand ht => exact ⟨_, .product (.operand ht)⟩
  | step ht o hts => exact IsSum.pushAll (.product (.operand ht)) o hts

end Exists

end ExpressionTree

namespace Evaluation

open ExpressionTree (IsProduct IsSum lookUp operandValue unresolved?)

variable {store : Store} {index : Option Int32}

section Parts

theorem apply_eq (a b : Int32) (o : Arithmetic) :
    apply a o b = ⟨Int32.ofInt (o.onIntegers a.toInt b.toInt), (o.zeroDivisor? b).toList⟩ := by
  have hzero : b.toInt = 0 ↔ b = 0 := by
    rw [← Int32.toInt_inj]
    rfl
  have hquotient : a / b = Int32.ofInt (a.toInt.tdiv b.toInt) := by
    rw [← Int32.toInt_inj, Int32.toInt_div, Int32.toInt_ofInt]
  have hremainder : a % b = Int32.ofInt (a.toInt.tmod b.toInt) := by
    rw [← Int32.toInt_mod, Int32.ofInt_toInt]
  cases o with
  | add => simp [apply, Arithmetic.onIntegers, Arithmetic.zeroDivisor?, Int32.ofInt_add]
  | sub => simp [apply, Arithmetic.onIntegers, Arithmetic.zeroDivisor?, Int32.ofInt_sub]
  | mul => simp [apply, Arithmetic.onIntegers, Arithmetic.zeroDivisor?, Int32.ofInt_mul]
  | div | mod =>
    simp only [apply, Arithmetic.onIntegers, Arithmetic.zeroDivisor?, hzero]
    split
    · rfl
    · simp [hquotient, hremainder]

theorem readVariable_eq (v : VarRef) : readVariable store index v =
    ⟨operandValue store index (.var v), (unresolved? store index (.var v)).toList⟩ := by
  have hneg (n : Int32) : Int32.ofInt (-n.toInt) = -n := by simp [Int32.ofInt_neg]
  simp only [readVariable, operandValue, unresolved?, lookUp, hneg]
  by_cases hname : v.name = indexName
  · cases index <;> cases v.negated <;> simp [hname]
  · obtain hget | ⟨n, hget⟩ := Option.eq_none_or_eq_some (store.get? v.name) <;>
      cases v.negated <;> simp [hname, hget]

theorem operand?_eq {t : Token} (ht : t.isOperand = true) : operand? store index t =
    some ⟨operandValue store index t, (unresolved? store index t).toList⟩ := by
  cases t with
  | int n => rfl
  | var v => exact congrArg some (readVariable_eq v)
  | text | op | compare => cases ht

end Parts

section Chains

variable {o : Arithmetic} {pairs : List (Arithmetic × Token)}

def linked (pairs : List (Arithmetic × Token)) : List Token :=
  pairs.flatMap fun p => [.op p.1, p.2]

def chainOf (store : Store) (index : Option Int32) (pairs : List (Arithmetic × Token)) : Chain :=
  pairs.map fun p => (p.1, operandValue store index p.2)

theorem readChain_linked (h : ∀ p ∈ pairs, p.2.isOperand = true) :
    readChain store index (linked pairs) =
      ⟨some (chainOf store index pairs), (linked pairs).filterMap (unresolved? store index)⟩ := by
  induction pairs with
  | nil => rfl
  | cons p pairs ih =>
    obtain ⟨hp, hpairs⟩ := List.forall_mem_cons.1 h
    have hfaults : (linked (p :: pairs)).filterMap (unresolved? store index) =
        (unresolved? store index p.2).toList ++
          (linked pairs).filterMap (unresolved? store index) := by
      change (.op p.1 :: p.2 :: linked pairs).filterMap _ = _
      rw [List.filterMap_cons_none rfl, List.filterMap_cons]
      cases unresolved? store index p.2 <;> rfl
    change readChain store index (.op p.1 :: p.2 :: linked pairs) = _
    rw [readChain, operand?_eq hp, ih hpairs, hfaults]
    rfl

theorem foldProducts_append_loose (ho : o.bindsTight = false) (a b : Int32) (c c' : Chain) :
    foldProducts a (c ++ (o, b) :: c') =
      ⟨((foldProducts a c).value.1,
          (foldProducts a c).value.2 ++ (o, (foldProducts b c').value.1) ::
            (foldProducts b c').value.2),
        (foldProducts a c).faults ++ (foldProducts b c').faults⟩ := by
  induction c generalizing a with
  | nil => simp [foldProducts, ho]
  | cons step c ih =>
    simp only [List.cons_append, foldProducts, ih]
    split <;> simp

theorem foldProducts_concat_tight (ho : o.bindsTight = true) {a n : Int32} {c : Chain}
    {faults : List RuntimeCause} (h : foldProducts a c = ⟨(n, []), faults⟩) (b : Int32) :
    foldProducts a (c ++ [(o, b)]) =
      ⟨((apply n o b).value, []), faults ++ (apply n o b).faults⟩ := by
  induction c generalizing a faults with
  | nil =>
    cases h
    simp [foldProducts, ho]
  | cons step c ih =>
    simp only [List.cons_append, foldProducts] at h ⊢
    split at h
    next htight =>
      simp only [Evaluated.mk.injEq] at h
      obtain ⟨hvalue, rfl⟩ := h
      have hrest : foldProducts (apply a step.1 step.2).value c =
          ⟨(n, []), (foldProducts (apply a step.1 step.2).value c).faults⟩ := by rw [← hvalue]
      rw [if_pos htight, ih hrest, List.append_assoc]
    next => simp at h

theorem foldSums_concat (a b : Int32) (c : Chain) (o : Arithmetic) :
    foldSums a (c ++ [(o, b)]) =
      ⟨(apply (foldSums a c).value o b).value,
        (foldSums a c).faults ++ (apply (foldSums a c).value o b).faults⟩ := by
  induction c generalizing a with
  | nil => simp [foldSums]
  | cons step c ih => simp [foldSums, ih]

end Chains

section Folds

def Folds (store : Store) (index : Option Int32) (ts : List Token)
    (folded : Evaluated (Int32 × Chain)) : Prop :=
  ∃ t pairs, ts = t :: linked pairs ∧ t.isOperand = true ∧ (∀ p ∈ pairs, p.2.isOperand = true) ∧
    foldProducts (operandValue store index t) (chainOf store index pairs) = folded

variable {ts us : List Token} {o : Arithmetic} {t : Token} {e : ExpressionTree}
  {folded folded' : Evaluated (Int32 × Chain)}

theorem Folds.append (h : Folds store index ts folded) (ho : o.bindsTight = false)
    (h' : Folds store index us folded') : Folds store index (ts ++ .op o :: us)
      ⟨(folded.value.1, folded.value.2 ++ (o, folded'.value.1) :: folded'.value.2),
        folded.faults ++ folded'.faults⟩ := by
  obtain ⟨t, pairs, rfl, ht, hpairs, rfl⟩ := h
  obtain ⟨t', pairs', rfl, ht', hpairs', rfl⟩ := h'
  refine ⟨t, pairs ++ (o, t') :: pairs', by simp [linked], ht, ?_, ?_⟩
  · exact List.forall_mem_append.2 ⟨hpairs, List.forall_mem_cons.2 ⟨ht', hpairs'⟩⟩
  · rw [chainOf, List.map_append, List.map_cons]
    exact foldProducts_append_loose ho _ _ _ _

theorem Folds.concat {n : Int32} {faults : List RuntimeCause}
    (h : Folds store index ts ⟨(n, []), faults⟩) (ho : o.bindsTight = true)
    (ht : t.isOperand = true) : Folds store index (ts ++ [.op o, t])
      ⟨((apply n o (operandValue store index t)).value, []),
        faults ++ (apply n o (operandValue store index t)).faults⟩ := by
  obtain ⟨t₀, pairs, rfl, ht₀, hpairs, hfold⟩ := h
  refine ⟨t₀, pairs ++ [(o, t)], by simp [linked], ht₀, ?_, ?_⟩
  · exact List.forall_mem_append.2 ⟨hpairs, List.forall_mem_singleton.2 ht⟩
  · rw [chainOf, List.map_append]
    exact foldProducts_concat_tight ho hfold _

theorem Folds.expression_eq (h : Folds store index ts folded) :
    expression store index ts =
      ⟨(foldSums folded.value.1 folded.value.2).value,
        ts.filterMap (unresolved? store index) ++
          (folded.faults ++ (foldSums folded.value.1 folded.value.2).faults)⟩ := by
  obtain ⟨t, pairs, rfl, ht, hpairs, rfl⟩ := h
  rw [expression, operand?_eq ht, readChain_linked hpairs, List.filterMap_cons]
  cases unresolved? store index t <;> rfl

variable (store index)

theorem IsProduct.folds (h : IsProduct ts e) : Folds store index ts
    ⟨(e.value store index, []), e.zeroDivisors store index⟩ := by
  induction h with
  | @operand t ht => exact ⟨t, [], rfl, ht, nofun, rfl⟩
  | @step ts e o t h ho ht ih =>
    have htight : o.bindsTight = true := by
      revert ho
      cases o <;> decide
    have hfolds := ih.concat htight ht
    rw [apply_eq] at hfolds
    simpa [ExpressionTree.value, ExpressionTree.zeroDivisors] using hfolds

theorem IsSum.folds (h : IsSum ts e) : ∃ a sums,
    Folds store index ts ⟨(a, sums), e.zeroDivisors store index⟩ ∧
      foldSums a sums = ⟨e.value store index, []⟩ := by
  induction h with
  | product h => exact ⟨_, [], IsProduct.folds store index h, rfl⟩
  | @step ts us e e' o h ho h' ih =>
    obtain ⟨a, sums, hfolds, hsum⟩ := ih
    have hloose : o.bindsTight = false ∧ ∀ b, o.zeroDivisor? b = none := by
      revert ho
      cases o <;> simp [Arithmetic.bindsTight, Arithmetic.zeroDivisor?]
    refine ⟨a, sums ++ [(o, e'.value store index)], ?_, ?_⟩
    · have happend := hfolds.append hloose.1 (IsProduct.folds store index h')
      simpa [ExpressionTree.zeroDivisors, hloose.2] using happend
    · rw [foldSums_concat, hsum, apply_eq, hloose.2]
      rfl

end Folds

/-- The value of a well-formed expression is that of its one tree. The faults are first those of
operands and then those of divisors, and they are recorded in this order. -/
theorem expression_means_its_tree (store : Store) (index : Option Int32) {ts : List Token}
    (h : Expression.WellFormed ts) : ∃ e : ExpressionTree,
      (∀ e', IsSum ts e' ↔ e' = e) ∧
      (expression store index ts).value = e.value store index ∧
      (expression store index ts).faults =
        ts.filterMap (unresolved? store index) ++ e.zeroDivisors store index ∧
      ∀ (g : Generation) (line : Nat),
        (g.fault line (expression store index ts).faults).errors =
          g.errors ++ (ts.filterMap (unresolved? store index) ++ e.zeroDivisors store index).map
            (RuntimeError.mk line) := by
  obtain ⟨e, he⟩ := ExpressionTree.exists_of_wellFormed h
  obtain ⟨a, sums, hfolds, hsum⟩ := IsSum.folds store index he
  have heq := hfolds.expression_eq
  rw [hsum] at heq
  refine ⟨e, ?_, ?_, ?_, ?_⟩
  · intro e'
    exact ⟨fun h' => h'.unique he, fun h' => h' ▸ he⟩
  · rw [heq]
  · rw [heq, List.append_nil]
  · intro g line
    rw [heq, List.append_nil]
    exact Generation.errors_fault line _ g

theorem expression_means_its_tree_of_faults :
    let ts : List Token := [.int 7, .op .sub, .int 10, .op .mod, .int 0, .op .mul, .int 2,
      .op .sub, .var ⟨"$A", false⟩]
    Expression.WellFormed ts ∧ (expression {} none ts).value = 7 ∧
      (expression {} none ts).faults = [.undefined "$A", .moduloByZero] := by
  intro ts
  have hts : Expression.WellFormed ts :=
    .step rfl _ (.step rfl _ (.step rfl _ (.step rfl _ (.operand rfl))))
  obtain ⟨e, htree, hvalue, hfaults, -⟩ := expression_means_its_tree {} none hts
  have hproduct : IsProduct [.int 10, .op .mod, .int 0, .op .mul, .int 2] _ :=
    .step (.step (.operand rfl) (by decide) rfl) (by decide) rfl
  have hsum : IsSum ts _ :=
    .step (.step (.product (.operand rfl)) (by decide) hproduct) (by decide) (.operand rfl)
  obtain rfl := (htree _).1 hsum
  exact ⟨hts, hvalue, hfaults⟩

end Evaluation

end PatternScript
