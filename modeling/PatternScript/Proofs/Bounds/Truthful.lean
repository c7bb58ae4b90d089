import PatternScript.Proofs.Bounds.Filled
import PatternScript.Proofs.Bounds.Outlines

/-!
# Truthful bounds

The bounds of an item tell the truth about what it paints on a surface: nothing if there are
none, nothing outside the first box, and every pixel of the second. They do so for each shape
and each map, as long as the item is moderate; positions so far away that doubles skip whole
pixels break both.
-/
namespace PatternScript

open Number

namespace Item

variable {item : Item} {b : Frame} {width height x y : Int32} {p : ℚ × ℚ}

def Paints (item : Item) (width height x y : Int32) : Prop :=
  Mark.Paint width height x y (item.marks width height (.ofSize width height))

/-- What the bounds of an item say of the pixels of a surface is true. -/
structure Truthful (item : Item) (width height : Int32) : Prop where
  unseen : item.bounds? width height = none → ∀ x y,
    (Rect.ofSize width height).contains x y = true → ¬ item.Paints width height x y
  seen : ∀ b, item.bounds? width height = some b → ∀ x y,
    (Rect.ofSize width height).contains x y = true → item.Paints width height x y →
      b.visual.contains x y = true
  covered : ∀ b r, item.bounds? width height = some b → b.marking = some r → ∀ x y,
    (Rect.ofSize width height).contains x y = true → r.contains x y = true →
      item.Paints width height x y

section Boxes

variable {e : ExactBox} {slack : Int32}

theorem bounds?_eq (hbox : item.visualBox? = some (e, slack)) (he : e.isFinite = true) :
    item.bounds? width height = ((e.outerRect slack).clip? width height).map fun visual =>
      ⟨visual, if item.isOpaque then item.markingBox?.map ExactBox.innerRect else none⟩ := by
  simp only [bounds?, hbox, he, Option.bind_eq_bind, Option.bind_some, Bool.not_true,
    Bool.false_eq_true, if_false, Option.pure_def]
  exact Option.map_eq_bind.symm

theorem marking_of_bounds {b : Bounds} (h : item.bounds? width height = some b) :
    b.marking = if item.isOpaque then item.markingBox?.map ExactBox.innerRect else none := by
  cases hbox : item.visualBox? with
  | none =>
    rw [bounds?, hbox] at h
    cases h
  | some box =>
    obtain ⟨e, slack⟩ := box
    cases he : e.isFinite with
    | false =>
      simp only [bounds?, hbox, he, Option.bind_eq_bind, Option.bind_some, Bool.not_false,
        if_true] at h
      cases h
    | true =>
      rw [bounds?_eq hbox he, Option.map_eq_some_iff] at h
      obtain ⟨visual, -, rfl⟩ := h
      rfl

theorem truthful_of_boxes
    (hseen : ∀ x y, (Rect.ofSize width height).contains x y = true → item.Paints width height x y →
      ∃ e slack, item.visualBox? = some (e, slack) ∧ e.isFinite = true ∧
        (e.outerRect slack).contains x y = true)
    (hcovered : item.isOpaque = true → ∀ e, item.markingBox? = some e → ∀ x y,
      (Rect.ofSize width height).contains x y = true → e.innerRect.contains x y = true →
        item.Paints width height x y) : item.Truthful width height where
  unseen hnone x y hon hpaint := by
    obtain ⟨e, slack, hbox, he, hin⟩ := hseen x y hon hpaint
    rw [bounds?_eq hbox he, Option.map_eq_none_iff] at hnone
    have hout := Rect.clip?_eq_none_iff.1 hnone x y hin
    rw [hon] at hout
    cases hout
  seen b hb x y hon hpaint := by
    obtain ⟨e, slack, hbox, he, hin⟩ := hseen x y hon hpaint
    rw [bounds?_eq hbox he, Option.map_eq_some_iff] at hb
    obtain ⟨visual, hvisual, rfl⟩ := hb
    exact (Rect.contains_clip hvisual).2 ⟨hin, hon⟩
  covered b r hb hr x y hon hin := by
    rw [marking_of_bounds hb] at hr
    split_ifs at hr with hsolid
    obtain ⟨e, he, rfl⟩ := Option.map_eq_some_iff.1 hr
    exact hcovered hsolid e he x y hon hin

end Boxes

section Shapes

def FillsFrame (item : Item) : Prop :=
  item.shape = .pixel ∨ item.shape = .fillPixel ∨ item.shape = .fillRect ∨ item.shape = .stamp

theorem visualBox?_of_fillsFrame (hshape : item.FillsFrame) (hb : item.frame? = some b) :
    item.visualBox? = some (.ofPoints (item.corners b), 0) := by
  rcases hshape with hshape | hshape | hshape | hshape <;>
    rw [visualBox?, hshape] <;> dsimp only <;> rw [hb, Option.map_some]

theorem markingBox?_of_fillsFrame (hshape : item.FillsFrame) {e : ExactBox}
    (he : item.markingBox? = some e) : ∃ b, item.frame? = some b ∧
      e = if item.matrix.isAxisAligned then .ofPoints (item.corners b)
        else item.markingSquare b := by
  rcases hshape with hshape | hshape | hshape | hshape <;>
  · simp only [markingBox?, hshape, Option.map_eq_some_iff] at he
    obtain ⟨b, hb, rfl⟩ := he
    exact ⟨b, hb, rfl⟩

theorem Moderate.exists_frame_of_paints (h : item.Moderate) (hshape : item.FillsFrame)
    (hon : (Rect.ofSize width height).contains x y = true) (hpaint : item.Paints width height x y) :
    ∃ b, item.frame? = some b ∧
      ((ExactBox.ofPoints (item.corners b)).outerRect 0).contains x y = true := by
  have inside {b : Frame} (hb : item.frame? = some b) {marks : List Mark}
      (hkeeps : item.KeepsTo b width height marks)
      (hpaint : Mark.Paint width height x y marks) :
      ((ExactBox.ofPoints (item.corners b)).outerRect 0).contains x y = true := by
    obtain ⟨p, hland, hin⟩ := hkeeps x y hon hpaint
    exact h.contains_outerRect (h.fits_frame hb) hin hland hon
  rw [Paints, marks] at hpaint
  rcases hshape with hshape | hshape | hshape | hshape <;> rw [hshape] at hpaint <;>
    dsimp only at hpaint
  · exact ⟨_, frame?_pixel (.inl hshape),
      h.contains_of_paint_pixelMarks (frame?_pixel (.inl hshape)) hon hpaint⟩
  · exact ⟨_, frame?_pixel (.inr hshape),
      h.contains_of_paint_pixelMarks (frame?_pixel (.inr hshape)) hon hpaint⟩
  · obtain ⟨b, hb⟩ := frame?_of_paint_fillRectMarks hshape hpaint
    exact ⟨b, hb, inside hb (h.keepsTo_and_fills_fillRectMarks hshape hb).1 hpaint⟩
  · cases hstamp : item.stamp with
    | none =>
      rw [stampMarks, hstamp] at hpaint
      obtain ⟨m, hm, -⟩ := hpaint
      cases hm
    | some pattern =>
      obtain ⟨b, hb⟩ := h.frame?_of_paint_stampMarks hshape hstamp hon hpaint
      exact ⟨b, hb, inside hb (h.keepsTo_stampMarks hshape hstamp hb) hpaint⟩

theorem Moderate.fills_marks (h : item.Moderate) (hshape : item.FillsFrame)
    (hsolid : item.isOpaque = true) (hb : item.frame? = some b) :
    item.Fills b width height (item.marks width height (.ofSize width height)) := by
  rw [marks]
  rcases hshape with hshape | hshape | hshape | hshape <;> rw [hshape] <;> dsimp only
  · obtain rfl := Option.some.inj (hb.symm.trans (frame?_pixel (.inl hshape)))
    exact h.fills_pixelMarks hb
  · obtain rfl := Option.some.inj (hb.symm.trans (frame?_pixel (.inr hshape)))
    exact h.fills_pixelMarks hb
  · exact (h.keepsTo_and_fills_fillRectMarks hshape hb).2
  · obtain ⟨hsides, -⟩ := frame?_eq_some hb
    simp only [sides?, hshape, Option.map_eq_some_iff] at hsides
    obtain ⟨pattern, hstamp, -⟩ := hsides
    exact h.fills_stampMarks hshape hstamp hsolid hb

theorem Moderate.paints_of_frame (h : item.Moderate) (hshape : item.FillsFrame)
    (hsolid : item.isOpaque = true) {e : ExactBox} (he : item.markingBox? = some e)
    (hon : (Rect.ofSize width height).contains x y = true)
    (hin : e.innerRect.contains x y = true) : item.Paints width height x y := by
  obtain ⟨b, hb, rfl⟩ := markingBox?_of_fillsFrame hshape he
  obtain ⟨-, -, hland⟩ := h.lands_logicalCenter x y
  refine h.fills_marks hshape hsolid hb x y hon ?_
  split_ifs at hin with haxis
  · exact h.inFrame_of_isAxisAligned (h.fits_frame hb) haxis hland hon hin
  · exact h.inFrame_of_square (h.fits_frame hb) hland hon hin

theorem Moderate.exists_visualBox_of_paints (h : item.Moderate)
    (hturns : item.shape = .circle → TurnsOnCircle)
    (hon : (Rect.ofSize width height).contains x y = true) (hpaint : item.Paints width height x y) :
    ∃ e slack, item.visualBox? = some (e, slack) ∧ e.isFinite = true ∧
      (e.outerRect slack).contains x y = true := by
  have filled (hshape : item.FillsFrame) : ∃ e slack, item.visualBox? = some (e, slack) ∧
      e.isFinite = true ∧ (e.outerRect slack).contains x y = true := by
    obtain ⟨b, hb, hin⟩ := h.exists_frame_of_paints hshape hon hpaint
    exact ⟨_, _, visualBox?_of_fillsFrame hshape hb,
      (h.encloses_corners (h.fits_frame hb)).isFinite, hin⟩
  cases hshape : item.shape with
  | pixel => exact filled (.inl hshape)
  | fillPixel => exact filled (.inr (.inl hshape))
  | fillRect => exact filled (.inr (.inr (.inl hshape)))
  | stamp => exact filled (.inr (.inr (.inr hshape)))
  | line =>
    refine ⟨.ofPoints item.ends, 1, ?_, h.encloses_and_beside_ends.1.isFinite,
      h.contains_of_paint_line hshape hon hpaint⟩
    rw [visualBox?, hshape]
    rfl
  | rect =>
    rw [Paints, marks, hshape] at hpaint
    cases hb : item.frame? with
    | none =>
      simp only [rectMarks, hb] at hpaint
      obtain ⟨m, hm, -⟩ := hpaint
      cases hm
    | some b =>
      refine ⟨.ofPoints (item.corners b), 1, ?_, (h.encloses_corners (h.fits_frame hb)).isFinite,
        h.contains_of_paint_rectMarks hb hon hpaint⟩
      simp only [visualBox?, hshape, hb, Option.map_some]
  | circle =>
    rw [Paints, marks, hshape] at hpaint
    by_cases hpos : item.coordinate "RADIUS" ≤ 0
    · simp only [circleMarks, if_pos hpos] at hpaint
      obtain ⟨m, hm, -⟩ := hpaint
      cases hm
    · refine ⟨item.circleBox, 1, ?_, h.isAround_circleBox.isFinite,
        h.contains_of_paint_circleMarks (hturns hshape) hpos hon hpaint⟩
      simp only [visualBox?, hshape, if_neg hpos, if_true]
      rfl
  | fillCircle =>
    rw [Paints, marks, hshape] at hpaint
    by_cases hpos : item.coordinate "RADIUS" ≤ 0
    · simp only [fillCircleMarks, if_pos hpos] at hpaint
      obtain ⟨m, hm, -⟩ := hpaint
      cases hm
    · refine ⟨item.circleBox, 0, ?_, h.isAround_circleBox.isFinite,
        h.contains_of_paint_fillCircleMarks hpos hpaint⟩
      simp only [visualBox?, hshape, if_neg hpos, reduceCtorEq, if_false]
      rfl

theorem Moderate.paints_of_markingBox (h : item.Moderate) (hsolid : item.isOpaque = true)
    {e : ExactBox} (he : item.markingBox? = some e)
    (hon : (Rect.ofSize width height).contains x y = true)
    (hin : e.innerRect.contains x y = true) : item.Paints width height x y := by
  have filled (hshape : item.FillsFrame) : item.Paints width height x y :=
    h.paints_of_frame hshape hsolid he hon hin
  cases hshape : item.shape with
  | pixel => exact filled (.inl hshape)
  | fillPixel => exact filled (.inr (.inl hshape))
  | fillRect => exact filled (.inr (.inr (.inl hshape)))
  | stamp => exact filled (.inr (.inr (.inr hshape)))
  | fillCircle =>
    simp only [markingBox?, hshape] at he
    split_ifs at he with hpos
    obtain rfl := Option.some.inj he
    rw [Paints, marks, hshape]
    exact h.paint_fillCircleMarks_of_contains hpos hon hin
  | line | rect | circle =>
    simp only [markingBox?, hshape] at he
    cases he

/-- The bounds of a moderate item tell the truth about it on every surface. -/
theorem truthful_of_moderate (width height : Int32) (h : item.Moderate)
    (hturns : item.shape = .circle → TurnsOnCircle) : item.Truthful width height :=
  truthful_of_boxes (fun _ _ hon hpaint => h.exists_visualBox_of_paints hturns hon hpaint)
    fun hsolid _ he _ _ hon hin => h.paints_of_markingBox hsolid he hon hin

def turnedStamp : Item :=
  let matrix : Affine := ⟨0.5, 0.5, -0.5, 0.5, 1, 1⟩
  { shape := .stamp, line := 1, matrix, inverse := matrix.invert?.getD .identity, scale := 2.0
    params := (NameMap.empty.set "X" 3).set "Y" 1, stamp := some ⟨"PAIR", 2, 1, #[1, 1]⟩
    isOpaque := true }

theorem moderate_turnedStamp : turnedStamp.Moderate where
  inverse := rfl
  regular := by
    have hneg : (-0.5 : Float).isFinite = true ∧ value (-0.5) = -1 / 2 := by
      rw [isFinite_neg, value_neg, value_half]
      exact ⟨isFinite_half, by norm_num⟩
    have hhalf : |(1 / 2 : ℚ)| ≤ 2 := by norm_num
    refine ⟨isFinite_half, isFinite_half, hneg.1, isFinite_half, isFinite_one, isFinite_one,
      value_half ▸ hhalf, value_half ▸ hhalf, hneg.2 ▸ by norm_num, value_half ▸ hhalf, ?_,
      value_one ▸ by norm_num, value_one ▸ by norm_num⟩
    simp only [Affine.exactDet, turnedStamp, value_half, hneg.2]
    norm_num
  isFinite_scale := isFinite_two
  one_le_scale := by
    rw [turnedStamp, value_two]
    norm_num
  scale_le := by
    rw [turnedStamp, value_two]
    norm_num
  reach key := by
    have hthree : Int32.toInt 3 = 3 := rfl
    simp only [param, turnedStamp, NameMap.get?_set, NameMap.get?_empty, value_two]
    split_ifs <;> norm_num [hthree, Int32.toInt_one, Int32.toInt_zero]
  stamp p hp := by
    obtain rfl := Option.some.inj hp
    simp only [turnedStamp, value_two]
    norm_num
    decide +kernel

theorem truthful_turnedStamp :
    (turnedStamp.Moderate ∧ (turnedStamp.shape = .circle → TurnsOnCircle)) ∧
      (∃ b r, turnedStamp.bounds? 8 8 = some b ∧ b.marking = some r) ∧
      turnedStamp.Truthful 8 8 := by
  have hturns : turnedStamp.shape = .circle → TurnsOnCircle := fun h => by cases h
  have hboxes : ((turnedStamp.bounds? 8 8).bind Bounds.marking).isSome = true := by decide +kernel
  obtain ⟨r, hr⟩ := Option.isSome_iff_exists.1 hboxes
  obtain ⟨b, hb, hmarking⟩ := Option.bind_eq_some_iff.1 hr
  exact ⟨⟨moderate_turnedStamp, hturns⟩, ⟨b, r, hb, hmarking⟩,
    truthful_of_moderate 8 8 moderate_turnedStamp hturns⟩

/-- A line that ends at the origin and begins far away, moved to the left of the surface. -/
def farLine : Item :=
  let matrix : Affine := .shift (-200) 0
  { shape := .line, line := 1, matrix, inverse := matrix.invert?.getD .identity, scale := 2147483647
    params := NameMap.empty.set "X1" (-2147483648) }

/-- A disc so far away that its square is rounded over a pixel which its test leaves out. -/
def farDisc : Item :=
  { shape := .fillCircle, line := 1, inverse := Affine.identity.invert?.getD .identity
    scale := 5142469
    params := ((NameMap.empty.set "X" 1347607876).set "Y" 1347607876).set "RADIUS" 1905805335 }

/-- The far line has no bounds and is painted, since the length of what is kept of it swallows
the move; the far disc is said to cover a pixel that it leaves. -/
theorem far_items_are_not_truthful :
    (farLine.matrix.invert? = some farLine.inverse ∧ (1 : Float) ≤ farLine.scale ∧
      farLine.bounds? 3 1 = none ∧ farLine.Paints 3 1 0 0 ∧ ¬ farLine.Truthful 3 1) ∧
    farDisc.matrix.invert? = some farDisc.inverse ∧ (1 : Float) ≤ farDisc.scale ∧
      ¬ farDisc.Paints 1 1 0 0 ∧ ¬ farDisc.Truthful 1 1 := by
  have hunseen : farLine.bounds? 3 1 = none := by decide +kernel
  have hpaint : farLine.Paints 3 1 0 0 := by
    unfold Paints Mark.Paint
    decide +kernel
  have hleft : ¬ farDisc.Paints 1 1 0 0 := by
    unfold Paints Mark.Paint
    decide +kernel
  have hcovers : (((farDisc.bounds? 1 1).bind Bounds.marking).any fun r => r.contains 0 0) =
      true := by decide +kernel
  refine ⟨⟨rfl, by decide +kernel, hunseen, hpaint, fun h => ?_⟩, rfl, by decide +kernel, hleft,
    fun h => ?_⟩
  · exact h.unseen hunseen 0 0 (by decide) hpaint
  · obtain ⟨r, hr, hin⟩ := (Option.any_eq_true _ _).1 hcovers
    obtain ⟨b, hb, hmarking⟩ := Option.bind_eq_some_iff.1 hr
    exact hleft (h.covered b r hb hmarking 0 0 (by decide) hin)

end Shapes

end Item

end PatternScript
