import PatternScript.Proofs.Coverage.Marks
import PatternScript.Raster.Rendering

/-!
# Which items are kept

What is kept of a display list can be told without a grid: from the last item to the first,
an item is dropped when it is out of sight, or when it is opaque and every cell that it
reaches lies in what one of the items kept behind it covers for certain. The judging pass
keeps exactly these, for its grid marks the cells that some kept item encloses.
-/
namespace PatternScript

variable {width height block : Int32} {item : Item} {later : List Item} {kept : List Survivor}

def Survivor.Fills (width height block : Int32) (s : Survivor) (col row : Int32) : Prop :=
  ∃ b m, s.item.bounds? width height = some b ∧ b.marking = some m ∧
    (Coverage.new width height block).Encloses m col row

/-- Whether each cell with a pixel of the rectangle is filled by one of the survivors. -/
def Hidden (width height block : Int32) (kept : List Survivor) (r : Rect) : Prop :=
  ∀ col row x y, (Coverage.new width height block).InCell col row x y →
    r.contains x y = true → ∃ s ∈ kept, s.Fills width height block col row

/-- What is kept of a display list, in the order of painting. -/
inductive Keeps (width height block : Int32) : List Item → List Survivor → Prop where
  | nil : Keeps width height block [] []
  | offScreen {item : Item} {later : List Item} {kept : List Survivor} :
      Keeps width height block later kept → item.bounds? width height = none →
      Keeps width height block (item :: later) kept
  | hidden {item : Item} {later : List Item} {kept : List Survivor} {b : Bounds} :
      Keeps width height block later kept → item.bounds? width height = some b →
      item.isOpaque = true → Hidden width height block kept b.visual →
      Keeps width height block (item :: later) kept
  | shown {item : Item} {later : List Item} {kept : List Survivor} {b : Bounds} :
      Keeps width height block later kept → item.bounds? width height = some b →
      ¬ (item.isOpaque = true ∧ Hidden width height block kept b.visual) →
      Keeps width height block (item :: later) (⟨item, b.visual⟩ :: kept)

namespace Keeps

theorem mem (h : Keeps width height block later kept) {s : Survivor} (hs : s ∈ kept) :
    s.item ∈ later ∧ ∃ b, s.item.bounds? width height = some b ∧ b.visual = s.visual := by
  induction h with
  | nil => cases hs
  | offScreen _ _ ih => exact ⟨List.mem_cons_of_mem _ (ih hs).1, (ih hs).2⟩
  | hidden _ _ _ _ ih => exact ⟨List.mem_cons_of_mem _ (ih hs).1, (ih hs).2⟩
  | shown _ hb _ ih =>
    rcases List.mem_cons.1 hs with rfl | hs
    · exact ⟨List.mem_cons_self, _, hb, rfl⟩
    · exact ⟨List.mem_cons_of_mem _ (ih hs).1, (ih hs).2⟩

theorem unique {kept' : List Survivor} (h : Keeps width height block later kept)
    (h' : Keeps width height block later kept') : kept = kept' := by
  induction h generalizing kept' with
  | nil =>
    cases h'
    rfl
  | offScreen _ hb ih =>
    cases h' with
    | offScreen h' _ => exact ih h'
    | hidden _ hb' => simp [hb] at hb'
    | shown _ hb' => simp [hb] at hb'
  | hidden _ hb hsolid hhid ih =>
    cases h' with
    | offScreen h' _ => exact ih h'
    | hidden h' _ => exact ih h'
    | shown h' hb' hshown =>
      cases ih h'
      rw [hb, Option.some.injEq] at hb'
      subst hb'
      exact absurd ⟨hsolid, hhid⟩ hshown
  | shown _ hb hshown ih =>
    cases h' with
    | offScreen _ hb' => simp [hb] at hb'
    | hidden h' hb' hsolid hhid =>
      cases ih h'
      rw [hb, Option.some.injEq] at hb'
      subst hb'
      exact absurd ⟨hsolid, hhid⟩ hshown
    | shown h' hb' _ =>
      cases ih h'
      rw [hb, Option.some.injEq] at hb'
      subst hb'
      rfl

end Keeps

theorem Item.visual_of_bounds {b : Bounds} (hb : item.bounds? width height = some b) :
    ∃ r : Rect, r.clip? width height = some b.visual := by
  rw [bounds?] at hb
  cases hbox : item.visualBox? with
  | none => simp [hbox] at hb
  | some e =>
    cases hclip : (e.1.outerRect e.2).clip? width height with
    | none => simp [hbox, hclip] at hb
    | some visual =>
      refine ⟨e.1.outerRect e.2, ?_⟩
      simp only [hbox, hclip, Option.bind_eq_bind, Option.bind_some] at hb
      split at hb
      · cases hb
      · cases hb
        exact hclip

theorem Item.exists_contains_visual {b : Bounds} (hb : item.bounds? width height = some b) :
    ∃ x y, b.visual.contains x y = true ∧ (Rect.ofSize width height).contains x y = true := by
  obtain ⟨r, hr⟩ := visual_of_bounds hb
  have hcorner := Rect.contains_corner (Rect.clip?_eq_some.1 hr).2
  exact ⟨_, _, hcorner, ((Rect.contains_clip hr).1 hcorner).2⟩

namespace Culling

variable {c : Culling}

/-- The state of the judging pass once some items, those that are painted last, are judged:
the survivors are what is kept of these, and the marked cells are those that one of the
survivors fills. -/
structure Follows (width height block : Int32) (later : List Item) (c : Culling) : Prop where
  keeps : Keeps width height block later c.survivors
  sameGrid : (Coverage.new width height block).SameGrid c.coverage
  marked : ∀ col row, c.coverage.isMarked col row = true ↔
    (Coverage.new width height block).HasCell col row ∧
      ∃ s ∈ c.survivors, s.Fills width height block col row

theorem follows_nil {signal : Signal} : Follows width height block []
    { coverage := .new width height block, signal } where
  keeps := .nil
  sameGrid := ⟨_, rfl, rfl⟩
  marked col row := by simp [Coverage.isMarked_new]

section Steps

variable (fits : Coverage.cellCount width height block < 2147483648)
  (h : Follows width height block later c)
include fits h

theorem covers_iff_hidden {b : Bounds} (hb : item.bounds? width height = some b) :
    c.coverage.covers b.visual = true ↔ Hidden width height block c.survivors b.visual := by
  have hg := Coverage.wellFormed_new fits
  rw [Coverage.covers_iff (h.sameGrid.wellFormed hg)]
  constructor
  · intro h
    obtain ⟨-, hall⟩ := h
    intro col row x y hin hvisual
    exact ((h.marked col row).1 (hall col row x y (h.sameGrid.inCell_iff.2 hin) hvisual)).2
  · intro hhid
    constructor
    · obtain ⟨x, y, hvisual, hon⟩ := Item.exists_contains_visual hb
      refine ⟨x, y, hvisual, ?_⟩
      obtain ⟨cells, -, hcells⟩ := h.sameGrid
      rw [hcells]
      exact Coverage.contains_clamped.2 hon
    · intro col row x y hin hvisual
      have hin' := h.sameGrid.inCell_iff.1 hin
      exact (h.marked col row).2
        ⟨Coverage.hasCell_of_inCell hg hin', hhid col row x y hin' hvisual⟩

end Steps

theorem fills_cons_iff {b : Bounds} (hb : item.bounds? width height = some b) (col row : Int32) :
    (∃ s ∈ (⟨item, b.visual⟩ :: kept : List Survivor), s.Fills width height block col row) ↔
      (∃ m, b.marking = some m ∧ (Coverage.new width height block).Encloses m col row) ∨
        ∃ s ∈ kept, s.Fills width height block col row := by
  simp only [List.mem_cons, exists_eq_or_imp]
  refine or_congr ⟨?_, ?_⟩ Iff.rfl
  · intro h
    obtain ⟨b', m, hb', hm, hencloses⟩ := h
    rw [hb, Option.some.injEq] at hb'
    subst hb'
    exact ⟨m, hm, hencloses⟩
  · intro h
    obtain ⟨m, hm, hencloses⟩ := h
    exact ⟨b, m, hb, hm, hencloses⟩

def markFor (b : Bounds) (g : Coverage) : Coverage :=
  match b.marking with
  | some m => g.markWhole m
  | none => g

theorem judge_keep {b : Bounds} (hb : item.bounds? width height = some b)
    (hshown : ¬ (item.isOpaque && c.coverage.covers b.visual) = true) :
    c.judge width height item =
      { c with
        coverage := markFor b c.coverage
        survivors := ⟨item, b.visual⟩ :: c.survivors } := by
  unfold judge markFor Coverage.markWhole
  simp only [hb, hshown]
  cases b.marking <;> rfl

theorem sameGrid_markFor (b : Bounds) (g : Coverage) : g.SameGrid (markFor b g) := by
  rw [markFor]
  cases b.marking with
  | none => exact ⟨g.cells, rfl, rfl⟩
  | some m => exact Coverage.sameGrid_markWhole g m

theorem isMarked_markFor {g : Coverage} (hg : g.WellFormed) (b : Bounds) (col row : Int32) :
    (markFor b g).isMarked col row = true ↔ g.isMarked col row = true ∨
      g.HasCell col row ∧ ∃ m, b.marking = some m ∧ g.Encloses m col row := by
  rw [markFor]
  cases b.marking with
  | none => simp
  | some m => simpa using Coverage.isMarked_markWhole hg

section Judging

variable (fits : Coverage.cellCount width height block < 2147483648)
  (h : Follows width height block later c)
include fits h

theorem follows_keep {b : Bounds} (hb : item.bounds? width height = some b)
    (hshown : ¬ (item.isOpaque = true ∧ Hidden width height block c.survivors b.visual)) :
    Follows width height block (item :: later)
      { c with
        coverage := markFor b c.coverage
        survivors := ⟨item, b.visual⟩ :: c.survivors } where
  keeps := .shown h.keeps hb hshown
  sameGrid := h.sameGrid.trans (sameGrid_markFor b c.coverage)
  marked col row := by
    have hg := h.sameGrid.wellFormed (Coverage.wellFormed_new fits)
    rw [isMarked_markFor hg, h.marked, h.sameGrid.hasCell_iff, fills_cons_iff hb]
    simp only [h.sameGrid.encloses_iff]
    rw [← and_or_left, or_comm]

theorem follows_judge (item : Item) :
    Follows width height block (item :: later) (c.judge width height item) := by
  cases hb : item.bounds? width height with
  | none =>
    simp only [judge, hb]
    exact ⟨.offScreen h.keeps hb, h.sameGrid, h.marked⟩
  | some b =>
    have hcov := covers_iff_hidden fits h hb
    by_cases hhid : item.isOpaque = true ∧ Hidden width height block c.survivors b.visual
    · simp only [judge, hb, hhid.1, hcov.2 hhid.2, Bool.and_self, if_true]
      exact ⟨.hidden h.keeps hb hhid.1 hhid.2, h.sameGrid, h.marked⟩
    · rw [judge_keep hb (by rwa [Bool.and_eq_true, hcov])]
      exact follows_keep fits h hb hhid

end Judging

end Culling

end PatternScript
