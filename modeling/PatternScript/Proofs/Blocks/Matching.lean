import PatternScript.Proofs.Blocks.Brackets
import PatternScript.Script.Outline

/-!
# The lines of a block

In a balanced list each header has one terminator, the first closing line with a balanced
list between the two, and at most one `ELSE` of its own. So the blocks around a line can be
told from the marks alone; a line in a balanced stretch lies in the blocks of that stretch
and in those that are open where the stretch begins.
-/
namespace PatternScript

namespace Brackets

/-- The lines of a block among some marks: that of its header, that of its `ELSE` if it has
one, and that of its terminator. -/
inductive Matched (ms : Marks) : BlockKind → Nat → Option Nat → Nat → Prop where
  | plain {kind : BlockKind} {start stop : Nat} {inside : Marks} (before after : Marks) :
      Balanced inside →
      ms = before ++ (start, .opens kind) :: (inside ++ (stop, .closes kind) :: after) →
      Matched ms kind start none stop
  | turned {start turn stop : Nat} {yes no : Marks} (before after : Marks) :
      Balanced yes → Balanced no →
      ms = before ++ (start, .opens .choice) ::
        (yes ++ (turn, .turns) :: (no ++ (stop, .closes .choice) :: after)) →
      Matched ms .choice start (some turn) stop

def afterBalanced : Nat → Marks → Marks
  | _, [] => []
  | depth, (_, .opens _) :: rest => afterBalanced (depth + 1) rest
  | 0, (line, .turns) :: rest => (line, .turns) :: rest
  | depth + 1, (_, .turns) :: rest => afterBalanced (depth + 1) rest
  | 0, (line, .closes kind) :: rest => (line, .closes kind) :: rest
  | depth + 1, (_, .closes _) :: rest => afterBalanced depth rest

theorem afterBalanced_append {ms rest : Marks} (h : Balanced ms) (depth : Nat) :
    afterBalanced depth (ms ++ rest) = afterBalanced depth rest := by
  induction h generalizing depth rest with
  | nil => rfl
  | block hinside hrest ihinside ihrest =>
    simp only [List.cons_append, List.append_assoc, afterBalanced, ihinside, ihrest]
  | turned hyes hno hrest ihyes ihno ihrest =>
    simp only [List.cons_append, List.append_assoc, afterBalanced, ihyes, ihno, ihrest]

namespace Matched

variable {ms : Marks} {kind kind' : BlockKind} {start stop stop' : Nat} {turn turn' : Option Nat}

theorem opens_mem (h : Matched ms kind start turn stop) : (start, .opens kind) ∈ ms := by
  cases h <;> simp_all

theorem closes_mem (h : Matched ms kind start turn stop) : (stop, .closes kind) ∈ ms := by
  cases h <;> simp_all

theorem within {whole : Marks} (before after : Marks) (h : Matched ms kind start turn stop)
    (hwhole : whole = before ++ ms ++ after) : Matched whole kind start turn stop := by
  cases h with
  | plain before' after' hinside heq =>
    exact .plain (before ++ before') (after' ++ after) hinside (by simp [hwhole, heq])
  | turned before' after' hyes hno heq =>
    exact .turned (before ++ before') (after' ++ after) hyes hno (by simp [hwhole, heq])

theorem of_balanced (h : Balanced ms) (hmem : (start, .opens kind) ∈ ms) :
    ∃ turn stop, Matched ms kind start turn stop := by
  induction h with
  | nil => cases hmem
  | @block kind' start' stop inside rest hinside hrest ihinside ihrest =>
    simp only [List.mem_cons, List.mem_append, Prod.mk.injEq, reduceCtorEq, and_false,
      false_or] at hmem
    rcases hmem with ⟨rfl, hkind⟩ | hmem | hmem
    · cases hkind
      exact ⟨none, stop, .plain [] rest hinside rfl⟩
    · obtain ⟨turn, stop', hmatched⟩ := ihinside hmem
      exact ⟨turn, stop', hmatched.within [(start', .opens kind')] _ rfl⟩
    · obtain ⟨turn, stop', hmatched⟩ := ihrest hmem
      exact ⟨turn, stop', hmatched.within
        ((start', .opens kind') :: (inside ++ [(stop, .closes kind')])) [] (by simp)⟩
  | @turned start' turn stop yes no rest hyes hno hrest ihyes ihno ihrest =>
    simp only [List.mem_cons, List.mem_append, Prod.mk.injEq, reduceCtorEq, and_false,
      false_or] at hmem
    rcases hmem with ⟨rfl, hkind⟩ | hmem | hmem | hmem
    · cases hkind
      exact ⟨some turn, stop, .turned [] rest hyes hno rfl⟩
    · obtain ⟨turn', stop', hmatched⟩ := ihyes hmem
      exact ⟨turn', stop', hmatched.within [(start', .opens .choice)] _ rfl⟩
    · obtain ⟨turn', stop', hmatched⟩ := ihno hmem
      exact ⟨turn', stop', hmatched.within
        ((start', .opens .choice) :: (yes ++ [(turn, .turns)])) ((stop, .closes .choice) :: rest)
        (by simp)⟩
    · obtain ⟨turn', stop', hmatched⟩ := ihrest hmem
      exact ⟨turn', stop', hmatched.within ((start', .opens .choice) ::
        (yes ++ (turn, .turns) :: (no ++ [(stop, .closes .choice)]))) [] (by simp)⟩

end Matched

def Ordered {α : Type} (ls : List (Nat × α)) : Prop := ls.Pairwise fun s s' => s.1 < s'.1

theorem eq_of_same_line {ms before before' after after' : Marks} {line : Nat} {m m' : BlockMark}
    (hms : Ordered ms) (h : ms = before ++ (line, m) :: after)
    (h' : ms = before' ++ (line, m') :: after') : m = m' ∧ after = after' := by
  induction ms generalizing before before' with
  | nil => simp at h
  | cons e ms ih =>
    obtain ⟨hfirst, hms⟩ := List.pairwise_cons.1 hms
    cases before with
    | nil =>
      cases before' with
      | nil =>
        cases h
        cases h'
        exact ⟨rfl, rfl⟩
      | cons e' before' =>
        cases h
        rw [List.cons_append, List.cons.injEq] at h'
        have hlt := hfirst (line, m') (by simp [h'.2])
        exact absurd hlt (Nat.lt_irrefl _)
    | cons e₁ before =>
      cases before' with
      | nil =>
        cases h'
        rw [List.cons_append, List.cons.injEq] at h
        have hlt := hfirst (line, m) (by simp [h.2])
        exact absurd hlt (Nat.lt_irrefl _)
      | cons e' before' =>
        rw [List.cons_append, List.cons.injEq] at h h'
        exact ih hms h.2 h'.2

theorem Matched.unique {ms : Marks} {kind kind' : BlockKind} {start stop stop' : Nat}
    {turn turn' : Option Nat} (hms : Ordered ms) (h : Matched ms kind start turn stop)
    (h' : Matched ms kind' start turn' stop') : kind = kind' ∧ turn = turn' ∧ stop = stop' := by
  cases h with
  | plain _ _ hinside heq =>
    cases h' with
    | plain _ _ hinside' heq' =>
      obtain ⟨hkind, hafter⟩ := eq_of_same_line hms heq heq'
      have hrest := congrArg (afterBalanced 0) hafter
      rw [afterBalanced_append hinside, afterBalanced_append hinside'] at hrest
      cases hkind
      cases hrest
      exact ⟨rfl, rfl, rfl⟩
    | turned _ _ hyes' hno' heq' =>
      obtain ⟨-, hafter⟩ := eq_of_same_line hms heq heq'
      have hrest := congrArg (afterBalanced 0) hafter
      rw [afterBalanced_append hinside, afterBalanced_append hyes'] at hrest
      cases hrest
  | turned _ _ hyes hno heq =>
    cases h' with
    | plain _ _ hinside' heq' =>
      obtain ⟨-, hafter⟩ := eq_of_same_line hms heq heq'
      have hrest := congrArg (afterBalanced 0) hafter
      rw [afterBalanced_append hyes, afterBalanced_append hinside'] at hrest
      cases hrest
    | turned _ _ hyes' hno' heq' =>
      obtain ⟨-, hafter⟩ := eq_of_same_line hms heq heq'
      have hrest := congrArg (afterBalanced 0) hafter
      rw [afterBalanced_append hyes, afterBalanced_append hyes'] at hrest
      simp only [afterBalanced, List.cons.injEq, Prod.mk.injEq, and_true] at hrest
      obtain ⟨rfl, hno_rest⟩ := hrest
      have hstop := congrArg (afterBalanced 0) hno_rest
      rw [afterBalanced_append hno, afterBalanced_append hno'] at hstop
      cases hstop
      exact ⟨rfl, rfl, rfl⟩

def partOf : BlockKind → Option Nat → Nat → Place
  | .loop, _, _ => .body
  | .choice, none, _ => .yes
  | .choice, some turn, line => if turn < line then .no else .yes

/-- Whether a line lies within the block with a certain header, and in which part of it. -/
def Encloses (ms : Marks) (line start : Nat) (place : Place) : Prop :=
  ∃ kind turn stop, Matched ms kind start turn stop ∧ start < line ∧ line < stop ∧
    place = partOf kind turn line

section Enclosing

variable {ms mid : Marks} {line start : Nat} {place : Place}

theorem encloses_iff_of_matched {kind : BlockKind} {turn : Option Nat} {stop : Nat}
    (hms : Ordered ms) (h : Matched ms kind start turn stop) (hstart : start < line)
    (hstop : line < stop) : Encloses ms line start place ↔ place = partOf kind turn line := by
  constructor
  · rintro ⟨kind', turn', stop', h', -, -, rfl⟩
    obtain ⟨rfl, rfl, -⟩ := h.unique hms h'
    rfl
  · intro hplace
    exact ⟨kind, turn, stop, h, hstart, hstop, hplace⟩

theorem encloses_iff_of_balanced (before after : Marks) (hms : Ordered ms)
    (heq : ms = before ++ mid ++ after)
    (hmid : Balanced mid) (hafter : ∀ m ∈ after, line < m.1) :
    Encloses ms line start place ↔ Encloses mid line start place ∨
      (∃ kind, (start, .opens kind) ∈ before) ∧ Encloses ms line start place := by
  constructor
  · rintro ⟨kind, turn, stop, hmatched, hstart, hstop, hplace⟩
    have hmem := hmatched.opens_mem
    rw [heq, List.mem_append, List.mem_append] at hmem
    rcases hmem with (hmem | hmem) | hmem
    · exact Or.inr ⟨⟨kind, hmem⟩, kind, turn, stop, hmatched, hstart, hstop, hplace⟩
    · obtain ⟨turn', stop', hinner⟩ := Matched.of_balanced hmid hmem
      obtain ⟨-, rfl, rfl⟩ := hmatched.unique hms (hinner.within _ _ heq)
      exact Or.inl ⟨kind, turn, stop, hinner, hstart, hstop, hplace⟩
    · exact absurd (hafter _ hmem) (Nat.not_lt.2 (Nat.le_of_lt hstart))
  · rintro (⟨kind, turn, stop, hinner, hrest⟩ | ⟨-, h⟩)
    · exact ⟨kind, turn, stop, hinner.within _ _ heq, hrest⟩
    · exact h

theorem not_encloses_of_past {past : Marks} {kind : BlockKind} (before after : Marks)
    (hms : Ordered ms) (heq : ms = before ++ past ++ after) (hpast : Balanced past) (hline : ∀ m ∈ past, m.1 < line)
    (hmem : (start, .opens kind) ∈ past) : ¬ Encloses ms line start place := by
  rintro ⟨kind', turn, stop, hmatched, -, hstop, -⟩
  obtain ⟨turn', stop', hinner⟩ := Matched.of_balanced hpast hmem
  obtain ⟨-, -, rfl⟩ := hmatched.unique hms (hinner.within _ _ heq)
  have hbefore := hline _ hinner.closes_mem
  exact absurd hbefore (Nat.not_lt.2 (Nat.le_of_lt hstop))

theorem encloses_after {past rest : Marks} (hms : Ordered (past ++ rest)) (hpast : Balanced past)
    (hrest : Balanced rest) (hline : ∀ m ∈ past, m.1 < line) :
    Encloses (past ++ rest) line start place ↔ Encloses rest line start place := by
  rw [encloses_iff_of_balanced past [] hms (by simp) hrest (by simp), or_iff_left]
  rintro ⟨⟨kind, hmem⟩, h⟩
  exact not_encloses_of_past [] rest hms (by simp) hpast hline hmem h

theorem encloses_inside {header past after : Marks} {kind : BlockKind} {turn : Option Nat}
    {first stop : Nat} (hms : Ordered ms)
    (heq : ms = ((first, .opens kind) :: past ++ header) ++ mid ++ after)
    (hmatched : Matched ms kind first turn stop) (hfirst : first < line) (hstop : line < stop)
    (hpast : Balanced past) (hpastLine : ∀ m ∈ past, m.1 < line)
    (hheader : ∀ start kind, (start, .opens kind) ∉ header) (hmid : Balanced mid)
    (hafter : ∀ m ∈ after, line < m.1) :
    Encloses ms line start place ↔
      Encloses mid line start place ∨ (start, place) = (first, partOf kind turn line) := by
  rw [encloses_iff_of_balanced _ _ hms heq hmid hafter]
  refine or_congr_right ⟨?_, ?_⟩
  · rintro ⟨⟨kind', hmem⟩, h⟩
    simp only [List.cons_append, List.mem_cons, List.mem_append, Prod.mk.injEq, hheader,
      or_false] at hmem
    rcases hmem with ⟨rfl, -⟩ | hmem
    · rw [(encloses_iff_of_matched hms hmatched hfirst hstop).1 h]
    · exact absurd h (not_encloses_of_past [(first, .opens kind)] (header ++ mid ++ after) hms
        (by simp [heq]) hpast hpastLine hmem)
  · intro h
    cases h
    exact ⟨⟨kind, by simp⟩, (encloses_iff_of_matched hms hmatched hfirst hstop).2 rfl⟩

end Enclosing

end Brackets

end PatternScript
