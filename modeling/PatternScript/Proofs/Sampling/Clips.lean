import PatternScript.Proofs.CanvasWrites
import PatternScript.Proofs.Sampling.WholeBoxes

/-!
# Filled shapes and their clips

A clip on the surface is a window on a filled shape: through it one sees the pixels that
painting for the whole surface would leave there, and nothing else is touched. Sampling judges
each pixel by itself; a box that is painted at once is cut to the clip, with no step on the way
that leaves its words.
-/
namespace PatternScript

variable {width height x y : Int32} {clip : Rect}

namespace Mark

/-- What is painted for a clip is its part of what is painted for the whole surface. -/
def Windowed (width height : Int32) (paint : Rect → List Mark) : Prop :=
  ∀ clip, clip.Inside width height → ∀ x y, topColor width height x y (paint clip) =
    if clip.contains x y = true then topColor width height x y (paint (.ofSize width height))
    else none

theorem windowed_of_picture {paint : Rect → List Mark} (picture : Int32 → Int32 → Option Color)
    (h : ∀ clip, clip.Inside width height → ∀ x y, topColor width height x y (paint clip) =
      if clip.contains x y = true then picture x y else none) : Windowed width height paint := by
  intro clip hclip x y
  rw [h clip hclip]
  split_ifs with hin
  · rw [h _ (Rect.inside_ofSize width height), if_pos (hclip x y hin)]
  · rfl

theorem windowed_nil : Windowed width height fun _ => [] :=
  windowed_of_picture (fun _ _ => none) fun _ _ _ _ => (ite_self none).symm

end Mark

namespace Canvas

variable {c : Canvas} {marks : List Mark}

theorem pixel?_drawAll_of_topColor_eq_none (hc : c.WellFormed)
    (h : Mark.topColor c.width c.height x y marks = none) :
    (c.drawAll marks).pixel? x y = c.pixel? x y := by
  by_cases hon : c.On x y
  · rw [pixel?_drawAll hc hon, h, Option.none_or]
  · rw [pixel?_of_not_on hon, pixel?_of_not_on (mt (sameSize_drawAll c marks).on_iff.1 hon)]

theorem pixel?_drawAll_of_part (hc : c.WellFormed) {part : Prop} [Decidable part]
    {shown : Option Color} (hon : part → c.On x y)
    (h : Mark.topColor c.width c.height x y marks = if part then shown else none) :
    (c.drawAll marks).pixel? x y = if part then shown.or (c.pixel? x y) else c.pixel? x y := by
  split_ifs with hpart
  · rw [pixel?_drawAll hc (hon hpart), h, if_pos hpart]
  · exact pixel?_drawAll_of_topColor_eq_none hc (h.trans (if_neg hpart))

end Canvas

namespace Item

open Number

variable {item : Item} {tx ty s : Int}

section Windows

theorem windowed_sample (item : Item) (shade : Point → Option Color) :
    Mark.Windowed width height fun clip => item.sample clip shade :=
  Mark.windowed_of_picture (fun x y => shade (item.logicalCenter x y)) fun _ _ _ _ =>
    topColor_sample

theorem topColor_boxMarks {x₀ x₁ y₀ y₁ : Int} {k : Color} (hclip : clip.Inside width height) :
    Mark.topColor width height x y (boxMarks clip x₀ x₁ y₀ y₁ k) =
      if clip.contains x y = true ∧ (x₀ ≤ x.toInt ∧ x.toInt < x₁) ∧ y₀ ≤ y.toInt ∧ y.toInt < y₁
      then some k else none := by
  split_ifs with hin
  · exact Mark.topColor_eq_some ((paint_boxMarks_iff_of_inside hclip).2 hin)
      fun m hm _ => color_of_mem_boxMarks m hm
  · exact Mark.topColor_eq_none_iff.2 (mt (paint_boxMarks_iff_of_inside hclip).1 hin)

theorem windowed_boxMarks (x₀ x₁ y₀ y₁ : Int) (k : Color) :
    Mark.Windowed width height fun clip => boxMarks clip x₀ x₁ y₀ y₁ k := by
  refine Mark.windowed_of_picture (fun x y =>
    if (x₀ ≤ x.toInt ∧ x.toInt < x₁) ∧ y₀ ≤ y.toInt ∧ y.toInt < y₁ then some k else none)
    fun clip hclip x y => ?_
  rw [topColor_boxMarks hclip, ite_and]

theorem windowed_fillRectMarks (item : Item) : Mark.Windowed width height item.fillRectMarks := by
  unfold fillRectMarks
  split_ifs
  · exact Mark.windowed_nil
  · by_cases hwhole : item.fill = none ∧ ∃ tx ty s, item.Moved tx ty s
    · obtain ⟨hfill, tx, ty, s, hmoved⟩ := hwhole
      simp only [hmoved.wholeBox?_eq hfill, Option.getD_some]
      exact windowed_boxMarks _ _ _ _ _
    · have hnone (clip : Rect) : item.wholeBox? clip = none :=
        Option.eq_none_iff_forall_ne_some.2 fun marks h => hwhole (moved_of_wholeBox? h)
      simp only [hnone, Option.getD_none, sampledRect]
      exact windowed_sample item _

theorem windowed_fillCircleMarks (item : Item) :
    Mark.Windowed width height item.fillCircleMarks := by
  unfold fillCircleMarks
  dsimp only
  split_ifs
  · exact Mark.windowed_nil
  · exact windowed_sample item _

theorem windowed_marks (hshape : item.shape = .fillRect ∨ item.shape = .fillCircle) :
    Mark.Windowed width height (item.marks width height) := by
  rcases hshape with hshape | hshape
  · rw [show item.marks width height = item.fillRectMarks by funext clip; rw [marks, hshape]]
    exact windowed_fillRectMarks item
  · rw [show item.marks width height = item.fillCircleMarks by funext clip; rw [marks, hshape]]
    exact windowed_fillCircleMarks item

/-- A filled rectangle or circle paints in its clip what it would paint there without one, and
leaves everything else alone, whether it is sampled or painted at once. -/
theorem filled_shapes_keep_to_their_clip (item : Item)
    (hshape : item.shape = .fillRect ∨ item.shape = .fillCircle)
    (hclip : clip.Inside width height) :
    (∀ x y, Mark.topColor width height x y (item.marks width height clip) =
      if clip.contains x y = true then
        Mark.topColor width height x y (item.marks width height (.ofSize width height))
      else none) ∧
    ∀ c : Canvas, c.WellFormed → c.width = width → c.height = height → ∀ x y,
      (c.drawAll (item.marks width height clip)).pixel? x y =
        if clip.contains x y = true then
          (c.drawAll (item.marks width height (.ofSize width height))).pixel? x y
        else c.pixel? x y := by
  have hwindow := windowed_marks hshape clip hclip
  refine ⟨hwindow, fun c hc hwidth hheight x y => ?_⟩
  subst hwidth hheight
  rw [Canvas.pixel?_drawAll_of_part hc (hclip x y) (hwindow x y)]
  split_ifs with hin
  · rw [Canvas.pixel?_drawAll hc (hclip x y hin)]
  · rfl

theorem filled_shapes_keep_to_their_clip_of_disc :
    let disc : Item :=
      { shape := .fillCircle, line := 1, fill := some ⟨"P", 2, 1, #[0, 1]⟩
        params := ((NameMap.empty.set "X" 2).set "Y" 1).set "RADIUS" 2 }
    let square : Item :=
      { shape := .fillRect, line := 1
        params := ((NameMap.empty.set "X" 1).set "WIDTH" 3).set "HEIGHT" 2 }
    let clip : Rect := ⟨2, 0, 4, 2⟩
    clip.Inside 4 2 ∧ ∀ item ∈ [disc, square],
      ((Canvas.blank 4 2).drawAll (item.marks 4 2 (.ofSize 4 2))).pixel? 1 1 = some .black ∧
      ((Canvas.blank 4 2).drawAll (item.marks 4 2 clip)).pixel? 1 1 = some .white ∧
      ((Canvas.blank 4 2).drawAll (item.marks 4 2 clip)).pixel? 3 1 = some .black := by
  intro disc square clip
  have hclip : clip.Inside 4 2 := Rect.inside_of_bounds (by decide) (by decide)
  have hc : (Canvas.blank 4 2).WellFormed := Canvas.wellFormed_blank (by decide)
  have seen (item : Item) (hshape : item.shape = .fillRect ∨ item.shape = .fillCircle) :=
    (filled_shapes_keep_to_their_clip item hshape hclip).2 _ hc rfl rfl
  refine ⟨hclip, List.forall_mem_cons.2 ⟨⟨?_, ?_, ?_⟩, List.forall_mem_singleton.2 ⟨?_, ?_, ?_⟩⟩⟩
  · decide +kernel
  · exact (seen disc (.inr rfl) 1 1).trans (by decide +kernel)
  · exact (seen disc (.inr rfl) 3 1).trans (by decide +kernel)
  · decide +kernel
  · exact (seen square (.inl rfl) 1 1).trans (by decide +kernel)
  · exact (seen square (.inl rfl) 3 1).trans (by decide +kernel)

end Windows

section Exactness

theorem marks_fillRect_of_moved (h : item.Moved tx ty s) (hshape : item.shape = .fillRect)
    (hfill : item.fill = none) (hwidth : 0 < (item.param "WIDTH").toInt)
    (hheight : 0 < (item.param "HEIGHT").toInt) (clip : Rect) :
    item.marks width height clip = boxMarks clip ((item.param "X").toInt * s + tx)
      (((item.param "X").toInt + (item.param "WIDTH").toInt) * s + tx)
      ((item.param "Y").toInt * s + ty)
      (((item.param "Y").toInt + (item.param "HEIGHT").toInt) * s + ty) item.color := by
  have hroom : ¬ (item.param "WIDTH" ≤ 0 || item.param "HEIGHT" ≤ 0) = true := by
    simp only [Bool.or_eq_true, decide_eq_true_eq, Words.le_iff, Int32.toInt_zero]
    omega
  rw [marks, hshape]
  dsimp only
  rw [fillRectMarks, if_neg hroom, h.wholeBox?_eq hfill, Option.getD_some]

/-- A plain rectangle that is moved by whole pixels, after it was scaled by a whole number, is
painted at once: no step on the way to its edges leaves 64 bits, no word of its box loses a
bit, and it covers what the integers say, however large they are. -/
theorem whole_boxes_are_exact (item : Item) (hshape : item.shape = .fillRect)
    (hfill : item.fill = none) (hmoved : item.Moved tx ty s)
    (hwidth : 0 < (item.param "WIDTH").toInt) (hheight : 0 < (item.param "HEIGHT").toInt)
    (hclip : clip.Inside width height) :
    let scale := Rounding.toZero.toWord64 item.scale
    let left := (item.param "X").toInt * s + tx
    let right := ((item.param "X").toInt + (item.param "WIDTH").toInt) * s + tx
    let top := (item.param "Y").toInt * s + ty
    let bottom := ((item.param "Y").toInt + (item.param "HEIGHT").toInt) * s + ty
    (item.wholeOffset? = some (tx, ty) ∧
      span? (item.param "X") (item.param "WIDTH") scale tx = some (left, right) ∧
      span? (item.param "Y") (item.param "HEIGHT") scale ty = some (top, bottom) ∧
      item.wholeBox? clip = some (item.marks width height clip)) ∧
    (∀ m ∈ item.marks width height clip, ∃ x y w h, m = .box x y w h item.color ∧
      (x.toInt = max left clip.minX.toInt ∧ x.toInt + w.toInt = min right clip.maxX.toInt) ∧
      y.toInt = max top clip.minY.toInt ∧ y.toInt + h.toInt = min bottom clip.maxY.toInt) ∧
    (∀ x y, Mark.topColor width height x y (item.marks width height clip) =
      if clip.contains x y = true ∧ (left ≤ x.toInt ∧ x.toInt < right) ∧
        top ≤ y.toInt ∧ y.toInt < bottom then some item.color else none) ∧
    ∀ c : Canvas, c.WellFormed → c.width = width → c.height = height → ∀ x y,
      (c.drawAll (item.marks width height clip)).pixel? x y =
        if clip.contains x y = true ∧ (left ≤ x.toInt ∧ x.toInt < right) ∧
          top ≤ y.toInt ∧ y.toInt < bottom then some item.color else c.pixel? x y := by
  intro scale left right top bottom
  have hmarks : item.marks width height clip = boxMarks clip left right top bottom item.color :=
    marks_fillRect_of_moved hmoved hshape hfill hwidth hheight clip
  have hscale : scale = s := hmoved.toWord64_scale
  have hcolor (x y : Int32) : Mark.topColor width height x y (item.marks width height clip) = _ :=
    hmarks ▸ topColor_boxMarks hclip
  refine ⟨⟨hmoved.wholeOffset?_eq, ?_, ?_, ?_⟩, ?_, hcolor, ?_⟩
  · rw [hscale, span?_eq _ _ hmoved.scale_le hmoved.tx_le]
  · rw [hscale, span?_eq _ _ hmoved.scale_le hmoved.ty_le]
  · rw [hmoved.wholeBox?_eq hfill, hmarks]
  · intro m hm
    rw [hmarks] at hm
    exact exists_of_mem_boxMarks hclip hm
  · intro c hc hwidth' hheight' x y
    subst hwidth' hheight'
    rw [Canvas.pixel?_drawAll_of_part hc (fun h => hclip x y h.1) (hcolor x y)]
    rfl

theorem whole_boxes_are_exact_of_extremes :
    let item : Item :=
      { shape := .fillRect, line := 1, scale := Number.ofInt32 2147483640
        matrix := .shift (Number.ofInt32 2147483647) (Number.ofInt32 (-2147483647))
        params := (((NameMap.empty.set "X" (-2147483648)).set "Y" (-1)).set "WIDTH"
          2147483647).set "HEIGHT" 2147483647 }
    let clip : Rect := ⟨3, 1, 9, 4⟩
    item.Moved 2147483647 (-2147483647) 2147483640 ∧ clip.Inside 10 5 ∧
      ((Canvas.blank 10 5).drawAll (item.marks 10 5 clip)).pixel? 2 1 = some .white ∧
      ((Canvas.blank 10 5).drawAll (item.marks 10 5 clip)).pixel? 3 1 = some .black ∧
      ((Canvas.blank 10 5).drawAll (item.marks 10 5 clip)).pixel? 6 3 = some .black ∧
      ((Canvas.blank 10 5).drawAll (item.marks 10 5 clip)).pixel? 7 3 = some .white := by
  intro item clip
  have hmoved : item.Moved 2147483647 (-2147483647) 2147483640 :=
    ⟨by decide +kernel, isFinite_ofInt32 _, isFinite_ofInt32 _, isFinite_ofInt32 _,
      value_ofInt32 _, value_ofInt32 _, value_ofInt32 _, by decide, by decide, by decide⟩
  have hclip : clip.Inside 10 5 := Rect.inside_of_bounds (by decide) (by decide)
  have hc : (Canvas.blank 10 5).WellFormed := Canvas.wellFormed_blank (by decide)
  have hpixel := (whole_boxes_are_exact item rfl rfl hmoved (by decide) (by decide)
    hclip).2.2.2 _ hc rfl rfl
  exact ⟨hmoved, hclip, (hpixel 2 1).trans (by decide), (hpixel 3 1).trans (by decide),
    (hpixel 6 3).trans (by decide), (hpixel 7 3).trans (by decide)⟩

end Exactness

end Item

end PatternScript
