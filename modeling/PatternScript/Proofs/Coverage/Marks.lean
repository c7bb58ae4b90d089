import PatternScript.Proofs.Coverage.Cells

/-!
# What a coverage grid knows

After any sequence of resets and marks a cell is marked exactly when its part on the
surface lies in one of the rectangles that were given since the last reset. So a rectangle
that counts as covered has all its pixels on the surface in the union of those rectangles.
-/
namespace PatternScript.Coverage

variable {g : Coverage} {r q s cells : Rect} {col row x y : Int32}

def markWhole (g : Coverage) (r : Rect) : Coverage :=
  match g.wholeCells? r with
  | some s => g.mark s
  | none => g

theorem isMarked_iff : g.isMarked col row = true ↔
    g.HasCell col row ∧ g.cells.getD (g.index col row) false = true := by
  simp only [isMarked, HasCell, Bool.and_eq_true, decide_eq_true_eq, ge_iff_le, Words.le_iff,
    Words.lt_iff, Int32.toInt_zero]
  constructor
  · intro h
    obtain ⟨⟨⟨⟨h₁, h₂⟩, h₃⟩, h₄⟩, h₅⟩ := h
    exact ⟨⟨⟨h₁, h₃⟩, h₂, h₄⟩, h₅⟩
  · intro h
    obtain ⟨⟨⟨h₁, h₃⟩, h₂, h₄⟩, h₅⟩ := h
    exact ⟨⟨⟨⟨h₁, h₂⟩, h₃⟩, h₄⟩, h₅⟩

theorem getD_foldl_setIfInBounds {α : Type} (f : α → Nat) (ps : List α) (a : Array Bool) (i : Nat)
    (hi : i < a.size) :
    (ps.foldl (fun a p => a.setIfInBounds (f p) true) a).getD i false = true ↔
      a.getD i false = true ∨ ∃ p ∈ ps, f p = i := by
  induction ps generalizing a with
  | nil => simp
  | cons p ps ih =>
    rw [List.foldl_cons, ih _ (by simpa using hi)]
    by_cases hp : f p = i <;> simp [Array.getD, hp, hi]

theorem size_foldl_setIfInBounds {α : Type} (f : α → Nat) (ps : List α) (a : Array Bool) :
    (ps.foldl (fun a p => a.setIfInBounds (f p) true) a).size = a.size := by
  induction ps generalizing a with
  | nil => rfl
  | cons p ps ih => rw [List.foldl_cons, ih, Array.size_setIfInBounds]

/-- Nothing but the marks of a grid ever changes. -/
def SameGrid (g g' : Coverage) : Prop :=
  ∃ cells : Array Bool, cells.size = g.cells.size ∧ g' = { g with cells }

namespace SameGrid

variable {g' g'' : Coverage} (same : g.SameGrid g')
include same

theorem trans (same' : g'.SameGrid g'') : g.SameGrid g'' := by
  obtain ⟨cells, hsize, rfl⟩ := same
  obtain ⟨cells', hsize', rfl⟩ := same'
  exact ⟨cells', hsize'.trans hsize, rfl⟩

theorem wellFormed (hg : g.WellFormed) : g'.WellFormed := by
  obtain ⟨cells, hsize, rfl⟩ := same
  exact wellFormed_of_cells hg hsize

theorem isGridOf {width height block : Int32} (hg : g.IsGridOf width height block) :
    g'.IsGridOf width height block := by
  obtain ⟨cells, hsize, rfl⟩ := same
  exact { hg with size_eq := hsize ▸ hg.size_eq }

theorem hasCell_iff : g'.HasCell col row ↔ g.HasCell col row := by
  obtain ⟨cells, -, rfl⟩ := same
  rfl

theorem inCell_iff : g'.InCell col row x y ↔ g.InCell col row x y := by
  obtain ⟨cells, -, rfl⟩ := same
  rfl

theorem encloses_iff : g'.Encloses r col row ↔ g.Encloses r col row := by
  obtain ⟨cells, -, rfl⟩ := same
  rfl

end SameGrid

theorem mark_of_none (h : g.cellsOf? q = none) : g.mark q = g := by
  rw [mark, h]

theorem mark_of_some (h : g.cellsOf? q = some cells) : g.mark q = { g with
    cells := cells.points.foldl (fun a p => a.setIfInBounds (g.index p.1 p.2) true) g.cells } := by
  rw [mark, h]

theorem sameGrid_mark (g : Coverage) (q : Rect) : g.SameGrid (g.mark q) := by
  cases hcells : g.cellsOf? q with
  | none => exact ⟨g.cells, rfl, mark_of_none hcells⟩
  | some cells => exact ⟨_, size_foldl_setIfInBounds _ _ _, mark_of_some hcells⟩

theorem sameGrid_reset (g : Coverage) : g.SameGrid g.reset :=
  ⟨_, Array.size_replicate, rfl⟩

theorem isMarked_reset : g.reset.isMarked col row = false := by
  rw [Bool.eq_false_iff, Ne, isMarked_iff]
  intro h
  obtain ⟨-, h⟩ := h
  simp [reset, Array.getD] at h

section Marks

variable (hg : g.WellFormed)
include hg

theorem isMarked_mark : (g.mark q).isMarked col row = true ↔
    g.isMarked col row = true ∨ ∃ x y, g.InCell col row x y ∧ q.contains x y = true := by
  cases hcells : g.cellsOf? q with
  | none =>
    rw [mark_of_none hcells]
    constructor
    · exact Or.inl
    · intro h
      rcases h with h | ⟨x, y, hin, hq⟩
      · exact h
      · have hon := hin.1
        rw [cellsOf_eq_none_iff.1 hcells x y hq] at hon
        cases hon
  | some cells =>
    rw [← contains_cellsOf hg hcells, isMarked_iff, (sameGrid_mark g q).hasCell_iff, isMarked_iff,
      mark_of_some hcells]
    have placed (hc : g.HasCell col row) :=
      getD_foldl_setIfInBounds (fun p => g.index p.1 p.2) cells.points g.cells
        (g.index col row) (toInt_index hg hc).2
    constructor
    · intro h
      obtain ⟨hc, h⟩ := h
      rcases (placed hc).1 h with h | ⟨p, hp, hpi⟩
      · exact Or.inl ⟨hc, h⟩
      · have hp' := Rect.mem_points.1 hp
        obtain ⟨rfl, rfl⟩ := index_injective hg (hasCell_of_cellsOf hg hcells hp') hc hpi
        exact Or.inr hp'
    · intro h
      rcases h with ⟨hc, h⟩ | h
      · exact ⟨hc, (placed hc).2 (Or.inl h)⟩
      · have hc := hasCell_of_cellsOf hg hcells h
        exact ⟨hc, (placed hc).2 (Or.inr ⟨(col, row), Rect.mem_points.2 h, rfl⟩)⟩

theorem isMarked_markWhole : (g.markWhole r).isMarked col row = true ↔
    g.isMarked col row = true ∨ g.HasCell col row ∧ g.Encloses r col row := by
  rw [markWhole]
  cases hs : g.wholeCells? r with
  | none =>
    constructor
    · exact Or.inl
    · intro h
      rcases h with h | ⟨hc, h⟩
      · exact h
      · exact absurd h (not_encloses_of_wholeCells hg hs hc)
  | some s =>
    rw [isMarked_mark hg]
    refine or_congr Iff.rfl ⟨?_, ?_⟩
    · intro h
      obtain ⟨x, y, hin, hsx⟩ := h
      exact ⟨hasCell_of_inCell hg hin, (contains_of_wholeCells hg hs hin).1 hsx⟩
    · intro h
      obtain ⟨hc, h⟩ := h
      obtain ⟨x, y, hin⟩ := exists_inCell hg hc
      exact ⟨x, y, hin, (contains_of_wholeCells hg hs hin).2 h⟩

theorem covers_iff : g.covers q = true ↔
    (∃ x y, q.contains x y = true ∧ (Rect.ofSize g.width g.height).contains x y = true) ∧
      ∀ col row x y, g.InCell col row x y → q.contains x y = true →
        g.isMarked col row = true := by
  rw [covers]
  cases hcells : g.cellsOf? q with
  | none =>
    constructor
    · intro h
      cases h
    · intro h
      obtain ⟨⟨x, y, hq, hon⟩, -⟩ := h
      rw [cellsOf_eq_none_iff.1 hcells x y hq] at hon
      cases hon
  | some cells =>
    simp only [List.all_eq_true]
    constructor
    · intro hall
      constructor
      · have hne : g.cellsOf? q ≠ none := by rw [hcells]; exact Option.some_ne_none _
        rw [Ne, cellsOf_eq_none_iff] at hne
        simpa using hne
      · intro col row x y hin hq
        have hp := (contains_cellsOf hg hcells).2 ⟨x, y, hin, hq⟩
        exact isMarked_iff.2 ⟨hasCell_of_inCell hg hin, hall (col, row) (Rect.mem_points.2 hp)⟩
    · intro h
      obtain ⟨-, hall⟩ := h
      intro p hp
      obtain ⟨x, y, hin, hq⟩ := (contains_cellsOf hg hcells).1 (Rect.mem_points.1 hp)
      exact (isMarked_iff.1 (hall _ _ x y hin hq)).2

end Marks

theorem sameGrid_markWhole (g : Coverage) (r : Rect) : g.SameGrid (g.markWhole r) := by
  rw [markWhole]
  cases g.wholeCells? r with
  | none => exact ⟨g.cells, rfl, rfl⟩
  | some s => exact sameGrid_mark g s

inductive Change
  | reset
  | mark (r : Rect)

def apply (g : Coverage) : Change → Coverage
  | .reset => g.reset
  | .mark r => g.markWhole r

def applyAll (g : Coverage) (changes : List Change) : Coverage := changes.foldl apply g

/-- The rectangles given since the last reset, those of `before` included. -/
def Change.given (before : List Rect) : List Change → List Rect
  | [] => before
  | .reset :: rest => given [] rest
  | .mark r :: rest => given (before ++ [r]) rest

def after (width height block : Int32) (changes : List Change) : Coverage :=
  (new width height block).applyAll changes

theorem sameGrid_apply (g : Coverage) (c : Change) : g.SameGrid (g.apply c) := by
  cases c with
  | reset => exact sameGrid_reset g
  | mark r => exact sameGrid_markWhole g r

theorem sameGrid_applyAll (g : Coverage) (changes : List Change) :
    g.SameGrid (g.applyAll changes) := by
  induction changes generalizing g with
  | nil => exact ⟨g.cells, rfl, rfl⟩
  | cons c rest ih => exact (sameGrid_apply g c).trans (ih _)

theorem isMarked_applyAll (hg : g.WellFormed) (before : List Rect)
    (hbefore : ∀ col row, g.isMarked col row = true ↔
      g.HasCell col row ∧ ∃ r ∈ before, g.Encloses r col row) (changes : List Change) :
    (g.applyAll changes).isMarked col row = true ↔
      g.HasCell col row ∧ ∃ r ∈ Change.given before changes, g.Encloses r col row := by
  induction changes generalizing g before with
  | nil => exact hbefore col row
  | cons c rest ih =>
    have same := sameGrid_apply g c
    have hstep : ∀ col row, (g.apply c).isMarked col row = true ↔
        (g.apply c).HasCell col row ∧
          ∃ r ∈ Change.given before [c], (g.apply c).Encloses r col row := by
      intro col row
      simp only [same.hasCell_iff, same.encloses_iff]
      cases c with
      | reset => simp [apply, isMarked_reset, Change.given]
      | mark r =>
        simp only [apply, isMarked_markWhole hg, hbefore, Change.given, List.mem_append,
          List.mem_singleton]
        constructor
        · intro h
          rcases h with ⟨hc, r', hr', h⟩ | ⟨hc, h⟩
          · exact ⟨hc, r', Or.inl hr', h⟩
          · exact ⟨hc, r, Or.inr rfl, h⟩
        · intro h
          obtain ⟨hc, r', hr' | rfl, h⟩ := h
          · exact Or.inl ⟨hc, r', hr', h⟩
          · exact Or.inr ⟨hc, h⟩
    have hrest := ih (same.wellFormed hg) _ hstep
    simp only [same.hasCell_iff, same.encloses_iff] at hrest
    cases c <;> exact hrest

theorem isMarked_new {width height block : Int32} :
    (new width height block).isMarked col row = false := by
  rw [Bool.eq_false_iff, Ne, isMarked_iff]
  intro h
  obtain ⟨-, h⟩ := h
  simp [new, Array.getD] at h

theorem contains_clamped {width height : Int32} :
    (Rect.ofSize (max width 0) (max height 0)).contains x y = true ↔
      (Rect.ofSize width height).contains x y = true := by
  simp only [Rect.contains_ofSize, Words.toInt_max, Int32.toInt_zero]
  omega

/-- Whatever is changed, a grid stays the grid of its surface, and its marks tell exactly which
cells the rectangles given to it enclose. -/
theorem marks_are_exact (width height block : Int32)
    (fits : cellCount width height block < 2147483648) (changes : List Change) :
    (after width height block changes).IsGridOf width height block ∧
    (∀ col row, (after width height block changes).isMarked col row = true ↔
      (after width height block changes).HasCell col row ∧
        ∃ r ∈ Change.given [] changes, (after width height block changes).Encloses r col row) ∧
    (∀ q, (after width height block changes).covers q = true →
      ∀ x y, (Rect.ofSize width height).contains x y = true → q.contains x y = true →
        ∃ r ∈ Change.given [] changes, r.contains x y = true) ∧
    (∀ q, (∀ x y, q.contains x y = true → (Rect.ofSize width height).contains x y = false) →
      (after width height block changes).covers q = false) ∧
    (∀ q cells col row, (after width height block changes).cellsOf? q = some cells →
      cells.contains col row = true →
      ((after width height block changes).index col row : Int) =
          row.toInt * (after width height block changes).columns.toInt + col.toInt ∧
        (after width height block changes).index col row <
          (after width height block changes).cells.size) := by
  have hnew := wellFormed_new fits
  have same : (new width height block).SameGrid (after width height block changes) :=
    sameGrid_applyAll _ changes
  have hg := same.wellFormed hnew
  have hon (x y : Int32) : (Rect.ofSize (after width height block changes).width
      (after width height block changes).height).contains x y = true ↔
      (Rect.ofSize width height).contains x y = true := by
    obtain ⟨cells, -, h⟩ := same
    rw [h]
    exact contains_clamped
  have hmarked (col row : Int32) : (after width height block changes).isMarked col row = true ↔
      (after width height block changes).HasCell col row ∧
        ∃ r ∈ Change.given [] changes, (after width height block changes).Encloses r col row := by
    simp only [same.hasCell_iff, same.encloses_iff]
    exact isMarked_applyAll hnew [] (by simp [isMarked_new]) changes
  refine ⟨same.isGridOf (isGridOf_new fits), hmarked, ?_, ?_, ?_⟩
  · intro q hcov x y hsurface hq
    obtain ⟨col, row, hin⟩ := exists_cell hg ((hon x y).2 hsurface)
    obtain ⟨-, r, hr, hr'⟩ := (hmarked col row).1 (((covers_iff hg).1 hcov).2 col row x y hin hq)
    exact ⟨r, hr, hr' x y hin⟩
  · intro q hout
    rw [Bool.eq_false_iff, Ne, covers_iff hg]
    intro h
    obtain ⟨⟨x, y, hq, hsurface⟩, -⟩ := h
    rw [hon, hout x y hq] at hsurface
    cases hsurface
  · intro q cells col row hcells h
    exact toInt_index hg (hasCell_of_cellsOf hg hcells h)

theorem marks_are_exact_at_border : cellCount 40 20 16 < 2147483648 ∧
    ∃ r ∈ Change.given [] [.mark ⟨0, 0, 9, 9⟩, .reset, .mark ⟨-3, 2, 50, 20⟩],
      (after 40 20 16 [.mark ⟨0, 0, 9, 9⟩, .reset, .mark ⟨-3, 2, 50, 20⟩]).Encloses r 2 1 :=
  ⟨by decide, (((marks_are_exact 40 20 16 (by decide) _).2.1 2 1).1 (by decide)).2⟩

end PatternScript.Coverage
