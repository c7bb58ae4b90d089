import PatternScript.Proofs.Reading.Growth
import PatternScript.Proofs.Reading.Steps
import PatternScript.Proofs.Words

/-!
# The pattern table

Only a definition changes the pattern table, and what it adds stands under its own name in
upper case, has a size, and has exactly as many cells as its size asks for. So the table of a
script holds such patterns and no others.
-/
namespace PatternScript

structure Pattern.Filled (p : Pattern) : Prop where
  width_pos : 0 < p.width
  height_pos : 0 < p.height
  size_eq : p.cells.size = p.width * p.height

structure PatternTable.Proper (t : PatternTable) : Prop where
  key_eq : ∀ key p, t.get? key = some p → p.key = key
  filled : ∀ key p, t.get? key = some p → p.Filled

namespace PatternTable

variable {t t' : PatternTable} {p : Pattern}

theorem proper_empty : Proper .empty := ⟨nofun, nofun⟩

theorem Proper.add (h : t.Proper) (hp : p.Filled) (hadd : t.add? p = some t') : t'.Proper := by
  rw [add?] at hadd
  split at hadd
  next => cases hadd
  next =>
    cases hadd
    refine ⟨?_, ?_⟩
    · intro key q hq
      rw [NameMap.get?_set] at hq
      split at hq
      next hkey =>
        cases hq
        exact hkey.symm
      next => exact h.key_eq key q hq
    · intro key q hq
      rw [NameMap.get?_set] at hq
      split at hq
      next =>
        cases hq
        exact hp
      next => exact h.filled key q hq

theorem Proper.find? (h : t.Proper) {name : String} (hfind : t.find? name = some p) :
    t.get? p.key = some p ∧ p.Filled :=
  ⟨by rwa [h.key_eq _ _ hfind], h.filled _ _ hfind⟩

end PatternTable

theorem Pattern.isOpaque_iff {p : Pattern} (h : p.Filled) :
    p.isOpaque = true ↔ ∀ i < p.width * p.height, p.cells[i]? = some 1 := by
  have hne : p.cells.isEmpty = false := by
    rw [Array.isEmpty_eq_false_iff, ← Array.size_pos_iff, h.size_eq]
    exact Nat.mul_pos h.width_pos h.height_pos
  rw [isOpaque, hne, Bool.not_false, Bool.true_and, Array.all_eq_true, ← h.size_eq]
  refine forall₂_congr fun i hi => ?_
  rw [Array.getElem?_eq_getElem hi, Option.some_inj, beq_iff_eq]

namespace Definition

theorem size_cells (data : List Char) (count : Nat) : (cells data count).size = count := by
  simp only [cells, List.size_toArray, List.length_append, List.length_replicate, List.length_map,
    List.length_take]
  omega

theorem pos_of_not_le {n : Int32} (h : ¬ n ≤ 0) : 0 < n.toNatClampNeg := by
  rw [Words.le_iff] at h
  exact Int.lt_toNat.2 (Int.not_le.1 h)

theorem filled_pattern {f : Fields} (h : sizeFault? f = none) : (pattern f).Filled := by
  rw [sizeFault?] at h
  split at h
  next => cases h
  next hpositive =>
    rw [Bool.or_eq_true, decide_eq_true_iff, decide_eq_true_iff, not_or] at hpositive
    exact ⟨pos_of_not_le hpositive.1, pos_of_not_le hpositive.2, size_cells _ _⟩

theorem proper_read {table table' : PatternTable} {args : List Char} {remarks : List ParseRemark}
    (h : table.Proper) (hread : read table args = (remarks, .ok table')) : table'.Proper := by
  rw [read] at hread
  split at hread
  next => cases hread
  next f hfields =>
    split at hread
    next => cases hread
    next hsize =>
      split at hread
      next => cases hread
      next hcontent =>
        cases hread
        cases hadd : table.add? (pattern f) with
        | none => exact h
        | some table' => exact h.add (filled_pattern hsize) hadd

end Definition

namespace Reading

variable {r r' : Reading} {line : Nat} {keyword : String} {args : List Char}

theorem patterns_push (r : Reading) (c : Command) : (r.push c).patterns = r.patterns := by
  rw [push]
  split <;> rfl

theorem patterns_turnToElse (r : Reading) (line : Nat) :
    (r.turnToElse line).patterns = r.patterns := by
  rw [turnToElse]
  split <;> rfl

theorem patterns_close (r : Reading) (line : Nat) (kind : BlockKind) :
    (r.close line kind).patterns = r.patterns := by
  rw [close]
  split
  · split
    · exact patterns_push _ _
    · rfl
  · rfl

theorem patterns_of_outcome (h : Outcome r line keyword args r') (hkeyword : keyword ≠ "DEFINE") :
    r'.patterns = r.patterns := by
  cases h with
  | defines hdefine => exact absurd hdefine hkeyword
  | refuses | declares | opensLoop | opensFaultyLoop | opensChoice | opensFaultyChoice => rfl
  | acts => exact patterns_push _ _
  | turns => exact patterns_turnToElse _ line
  | closes kind => exact patterns_close _ line kind

theorem proper_define (h : r.patterns.Proper) : (r.define line args).patterns.Proper := by
  rw [define]
  cases hread : Definition.read r.patterns args with
  | mk remarks table =>
    cases table with
    | error cause => exact h
    | ok table' => exact Definition.proper_read h hread

theorem proper_readLine (h : r.patterns.Proper) (line : Nat) (text : List Char) :
    (r.readLine line text).patterns.Proper := by
  rw [readLine_eq]
  cases Text.statement? text with
  | none => exact h
  | some s =>
    obtain ⟨keyword, args⟩ := s
    by_cases hkeyword : keyword = "DEFINE"
    · subst hkeyword
      exact proper_define h
    · rw [patterns_of_outcome (outcome_readCommand r line keyword args) hkeyword]
      exact h

theorem proper_readLines (h : r.patterns.Proper) (line : Nat) (texts : List (List Char)) :
    (r.readLines line texts).patterns.Proper := by
  induction texts generalizing r line with
  | nil => exact h
  | cons text rest ih => exact ih (proper_readLine h line text) (line + 1)

end Reading

theorem Script.proper_of_compile {source : String} {script : Script}
    (h : compile source = .ok script) : script.patterns.Proper := by
  obtain ⟨-, -, rfl⟩ := Reading.of_compile h
  exact Reading.proper_readLines PatternTable.proper_empty 1 _

end PatternScript
