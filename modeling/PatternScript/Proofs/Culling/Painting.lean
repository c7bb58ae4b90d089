import PatternScript.Proofs.CanvasPixels
import PatternScript.Raster.Rendering

/-!
# What painted items leave

Painting items one after the other on a cleared canvas shows, at each pixel, the color of
the last mark with a point there, or else the background. An item is honest when its bounds
tell the truth about its marks: nothing of it is seen outside the first box, and every pixel
of the second one is painted.
-/
namespace PatternScript

variable {width height x y : Int32} {color background : Color}

namespace Mark

variable {marks : List Mark}

def Paint (width height x y : Int32) (marks : List Mark) : Prop :=
  ∃ m ∈ marks, (x, y) ∈ m.points width height

def shown (width height : Int32) (background : Color) (marks : List Mark) (x y : Int32) : Color :=
  (topColor width height x y marks).getD background

theorem topColor_append (below above : List Mark) :
    topColor width height x y (below ++ above) =
      (topColor width height x y above).or (topColor width height x y below) := by
  induction below with
  | nil => simp [topColor]
  | cons m below ih => rw [List.cons_append, topColor, ih, topColor, Option.or_assoc]

theorem topColor_eq_none_iff :
    topColor width height x y marks = none ↔ ¬ Paint width height x y marks := by
  rw [Paint]
  induction marks with
  | nil => simp [topColor]
  | cons m marks ih =>
    simp only [topColor, Option.or_eq_none_iff, ih, ite_eq_right_iff, reduceCtorEq, imp_false,
      List.mem_cons, exists_eq_or_imp, not_or]
    exact And.comm

end Mark

namespace Canvas

variable {c : Canvas}

/-- The canvas cleared to the background, with all items painted on it as a whole, in the
order of the list. -/
def paintAll (c : Canvas) (background : Color) (items : List Item) : Canvas :=
  items.foldl
    (fun drawn item => drawn.drawAll (item.marks c.width c.height (.ofSize c.width c.height)))
    (c.clear background)

theorem sameSize_clear (c : Canvas) (background : Color) : c.SameSize (c.clear background) :=
  sameSize_fillRows c 0 0 c.width c.height background

theorem pixel?_clear (hc : c.WellFormed) (hon : c.On x y) :
    (c.clear background).pixel? x y = some background := by
  have hin : (Mark.boxOn c.width c.height 0 0 c.width c.height).contains x y = true := by
    have h := Rect.contains_ofSize.1 hon
    have hw := Words.bounds c.width
    have hh := Words.bounds c.height
    simp only [Rect.contains_iff, Mark.boxOn, Words.toInt_max, Words.toInt_min,
      Words.toInt_saturatingAdd, Int32.toInt_zero]
    omega
  rw [clear, pixel?_fillRows hc hon, if_pos hin]

theorem pixel?_drawAll_clear (hc : c.WellFormed) (hon : c.On x y) (marks : List Mark) :
    ((c.clear background).drawAll marks).pixel? x y =
      some (Mark.shown c.width c.height background marks x y) := by
  have same := sameSize_clear c background
  rw [pixel?_drawAll (same.wellFormed hc) (same.on_iff.2 hon), pixel?_clear hc hon,
    same.width_eq, same.height_eq, Mark.shown]
  cases Mark.topColor c.width c.height x y marks <;> rfl

theorem drawAll_clear_eq_iff (hc : c.WellFormed) (marks marks' : List Mark) :
    (c.clear background).drawAll marks = (c.clear background).drawAll marks' ↔
      ∀ x y, c.On x y → Mark.shown c.width c.height background marks x y =
        Mark.shown c.width c.height background marks' x y := by
  have same := sameSize_clear c background
  constructor
  · intro heq x y hon
    rw [← Option.some.injEq, ← pixel?_drawAll_clear hc hon, heq, pixel?_drawAll_clear hc hon]
  · intro h
    have same₁ := same.trans (sameSize_drawAll _ marks)
    have same₂ := same.trans (sameSize_drawAll _ marks')
    refine ext_of_pixels (same₂.wellFormed hc) (same₁.wellFormed hc)
      (same₁.width_eq.trans same₂.width_eq.symm) (same₁.height_eq.trans same₂.height_eq.symm) ?_
    intro x y hon
    have hon' := same₂.on_iff.1 hon
    rw [pixel?_drawAll_clear hc hon', pixel?_drawAll_clear hc hon', h x y hon']

theorem drawAll_append (c : Canvas) (below above : List Mark) :
    c.drawAll (below ++ above) = (c.drawAll below).drawAll above :=
  List.foldl_append

end Canvas

namespace Item

def allMarks (width height : Int32) (items : List Item) : List Mark :=
  items.flatMap fun item => item.marks width height (.ofSize width height)

theorem topColor_allMarks_cons (item : Item) (later : List Item) :
    Mark.topColor width height x y (allMarks width height (item :: later)) =
      (Mark.topColor width height x y (allMarks width height later)).or
        (Mark.topColor width height x y (item.marks width height (.ofSize width height))) := by
  rw [allMarks, List.flatMap_cons, Mark.topColor_append]
  rfl

theorem paintAll_eq (c : Canvas) (background : Color) (items : List Item) :
    c.paintAll background items =
      (c.clear background).drawAll (allMarks c.width c.height items) :=
  List.foldl_flatMap.symm

/-- The bounds of the item on a surface tell the truth about its marks. -/
structure Honest (width height : Int32) (item : Item) : Prop where
  unseen : item.bounds? width height = none → ∀ x y,
    (Rect.ofSize width height).contains x y = true →
      ¬ Mark.Paint width height x y (item.marks width height (.ofSize width height))
  sameEffect : ∀ b, item.bounds? width height = some b → ∀ c : Canvas, c.WellFormed →
    c.width = width → c.height = height →
      c.drawAll (item.marks width height b.visual) =
        c.drawAll (item.marks width height (.ofSize width height))
  within : ∀ b, item.bounds? width height = some b → ∀ x y,
    (Rect.ofSize width height).contains x y = true →
      Mark.Paint width height x y (item.marks width height b.visual) →
        b.visual.contains x y = true
  covers : ∀ b m, item.bounds? width height = some b → b.marking = some m → ∀ x y,
    (Rect.ofSize width height).contains x y = true → m.contains x y = true →
      Mark.Paint width height x y (item.marks width height b.visual)

theorem honest_of_fills {item : Item} (marking : Option Rect)
    (hb : item.bounds? width height = some ⟨.ofSize width height, marking⟩)
    (hfills : ((Rect.ofSize width height).points.all fun p =>
      (item.marks width height (.ofSize width height)).any fun m =>
        (m.points width height).contains p) = true) :
    item.Honest width height where
  unseen hnone := by simp [hb] at hnone
  sameEffect b hb' c _ _ _ := by
    rw [hb, Option.some.injEq] at hb'
    subst hb'
    rfl
  within b hb' x y hon _ := by
    rw [hb, Option.some.injEq] at hb'
    subst hb'
    exact hon
  covers b m hb' _ x y hon _ := by
    rw [hb, Option.some.injEq] at hb'
    subst hb'
    rw [List.all_eq_true] at hfills
    obtain ⟨mark, hmark, hpoint⟩ := List.any_eq_true.1 (hfills (x, y) (Rect.mem_points.2 hon))
    exact ⟨mark, hmark, List.contains_iff_mem.1 hpoint⟩

end Item

namespace Survivor

def allMarks (width height : Int32) (kept : List Survivor) : List Mark :=
  kept.flatMap fun s => s.item.marks width height s.visual

theorem topColor_allMarks_cons (s : Survivor) (later : List Survivor) :
    Mark.topColor width height x y (allMarks width height (s :: later)) =
      (Mark.topColor width height x y (allMarks width height later)).or
        (Mark.topColor width height x y (s.item.marks width height s.visual)) := by
  rw [allMarks, List.flatMap_cons, Mark.topColor_append]
  rfl

end Survivor

end PatternScript
