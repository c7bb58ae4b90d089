import PatternScript.Proofs.Bounds.Truthful
import PatternScript.Proofs.Culling.Exactness
import PatternScript.Proofs.Sampling.Clips

/-!
# Culling moderate items

An item whose paint lies in a clip paints the same for the clip as for the whole surface: samples
show through it, and what is painted at once does not heed it. So bounds that tell the truth make
an item honest, and culling changes no pixel of what moderate items leave.
-/
namespace PatternScript

variable {width height x y : Int32} {clip : Rect}

theorem Mark.Windowed.topColor_eq {paint : Rect → List Mark} (h : Windowed width height paint)
    (hclip : clip.Inside width height)
    (hseen : Paint width height x y (paint (.ofSize width height)) → clip.contains x y = true) :
    topColor width height x y (paint clip) =
      topColor width height x y (paint (.ofSize width height)) := by
  rw [h clip hclip]
  split_ifs with hin
  · rfl
  · exact (topColor_eq_none_iff.2 (mt hseen hin)).symm

namespace Item

variable {item : Item} {b : Bounds}

theorem isEmpty_sample_eq (hclip : clip.Inside width height) {shade : Point → Option Color}
    (hseen : ∀ x y, Mark.Paint width height x y (item.sample (.ofSize width height) shade) →
      clip.contains x y = true) :
    (item.sample clip shade).isEmpty = (item.sample (.ofSize width height) shade).isEmpty := by
  rw [Bool.eq_iff_iff, List.isEmpty_iff, List.isEmpty_iff, List.eq_nil_iff_forall_not_mem,
    List.eq_nil_iff_forall_not_mem]
  constructor
  · intro hnone m hm
    obtain ⟨x, y, -, k, hk, rfl⟩ := mem_sample.1 hm
    have hin := hseen x y ⟨_, hm, List.mem_singleton_self _⟩
    exact hnone _ (mem_sample.2 ⟨x, y, hin, k, hk, rfl⟩)
  · intro hnone m hm
    obtain ⟨x, y, hin, k, hk, rfl⟩ := mem_sample.1 hm
    exact hnone _ (mem_sample.2 ⟨x, y, hclip x y hin, k, hk, rfl⟩)

theorem topColor_sample_or_eq (hclip : clip.Inside width height) {shade : Point → Option Color}
    {fallback : List Mark} (hseen : ∀ x y, (Rect.ofSize width height).contains x y = true →
      Mark.Paint width height x y (if (item.sample (.ofSize width height) shade).isEmpty
        then fallback else item.sample (.ofSize width height) shade) → clip.contains x y = true) :
    Mark.topColor width height x y (if (item.sample clip shade).isEmpty
        then fallback else item.sample clip shade) =
      Mark.topColor width height x y (if (item.sample (.ofSize width height) shade).isEmpty
        then fallback else item.sample (.ofSize width height) shade) := by
  have hsampled (x y : Int32)
      (hpaint : Mark.Paint width height x y (item.sample (.ofSize width height) shade)) :
      clip.contains x y = true := by
    refine hseen x y (paint_sample_iff.1 hpaint).1 ?_
    obtain ⟨m, hm, -⟩ := id hpaint
    rwa [if_neg (by simpa using List.ne_nil_of_mem hm)]
  rw [isEmpty_sample_eq hclip hsampled]
  split_ifs
  · rfl
  · exact (windowed_sample item shade).topColor_eq hclip (hsampled x y)

theorem topColor_stampMarks_eq (hclip : clip.Inside width height)
    (hseen : Mark.Paint width height x y (item.stampMarks (.ofSize width height)) →
      clip.contains x y = true) :
    Mark.topColor width height x y (item.stampMarks clip) =
      Mark.topColor width height x y (item.stampMarks (.ofSize width height)) := by
  unfold stampMarks at hseen ⊢
  cases hstamp : item.stamp with
  | none => rfl
  | some p =>
    rw [hstamp] at hseen
    dsimp only at hseen ⊢
    cases hwhole : item.wholeStamp? p with
    | some marks => rfl
    | none =>
      simp only [hwhole, Option.getD_none, sampledStamp] at hseen ⊢
      exact (windowed_sample item _).topColor_eq hclip hseen

/-- If all that an item paints lies in a clip, it paints the same for the clip. -/
theorem topColor_marks_eq (hclip : clip.Inside width height)
    (hseen : ∀ x y, (Rect.ofSize width height).contains x y = true →
      item.Paints width height x y → clip.contains x y = true)
    (hon : (Rect.ofSize width height).contains x y = true) :
    Mark.topColor width height x y (item.marks width height clip) =
      Mark.topColor width height x y (item.marks width height (.ofSize width height)) := by
  unfold Paints at hseen
  cases hshape : item.shape with
  | fillRect =>
    exact (windowed_marks (.inl hshape)).topColor_eq hclip (hseen x y hon)
  | fillCircle =>
    exact (windowed_marks (.inr hshape)).topColor_eq hclip (hseen x y hon)
  | line | rect | circle => simp only [marks, hshape]
  | pixel | fillPixel =>
    simp only [marks, hshape, pixelMarks] at hseen ⊢
    exact topColor_sample_or_eq hclip hseen
  | stamp =>
    simp only [marks, hshape] at hseen ⊢
    exact topColor_stampMarks_eq hclip (hseen x y hon)

theorem inside_visual (hb : item.bounds? width height = some b) :
    b.visual.Inside width height := by
  obtain ⟨r, hr⟩ := visual_of_bounds hb
  exact fun x y hin => ((Rect.contains_clip hr).1 hin).2

theorem Truthful.honest (h : item.Truthful width height) : item.Honest width height := by
  have same {b : Bounds} (hb : item.bounds? width height = some b) {x y : Int32}
      (hon : (Rect.ofSize width height).contains x y = true) :
      Mark.topColor width height x y (item.marks width height b.visual) =
        Mark.topColor width height x y (item.marks width height (.ofSize width height)) :=
    topColor_marks_eq (inside_visual hb) (h.seen b hb) hon
  have paints_iff {b : Bounds} (hb : item.bounds? width height = some b) {x y : Int32}
      (hon : (Rect.ofSize width height).contains x y = true) :
      Mark.Paint width height x y (item.marks width height b.visual) ↔
        item.Paints width height x y := by
    rw [Paints, ← not_iff_not, ← Mark.topColor_eq_none_iff, same hb hon, Mark.topColor_eq_none_iff]
  refine ⟨h.unseen, fun b hb c hc hwidth hheight => ?_, fun b hb x y hon hpaint => ?_,
    fun b m hb hm x y hon hin => ?_⟩
  · subst hwidth hheight
    exact Canvas.drawAll_eq_of_topColor hc fun x y hon => same hb hon
  · exact h.seen b hb x y hon ((paints_iff hb hon).1 hpaint)
  · exact (paints_iff hb hon).2 (h.covered b m hb hm x y hon hin)

theorem Moderate.honest (width height : Int32) (h : item.Moderate)
    (hturns : item.shape = .circle → Number.TurnsOnCircle) : item.Honest width height :=
  (truthful_of_boxes (fun _ _ hon hpaint => h.exists_visualBox_of_paints hturns hon hpaint)
    fun hsolid _ he _ _ hon hin => h.paints_of_markingBox hsolid he hon hin).honest

end Item

namespace Rendering

variable {ctx : RenderContext} {c : Canvas} {signal : Signal}

/-- Culling moderate items changes no pixel, on whatever canvas and with whatever cells. -/
theorem canvas_eq_paintAll_of_moderate (options : RenderSettings) (items : List Item)
    (hc : c.WellFormed) (quiet : ctx.Quiet signal) (moderate : ∀ item ∈ items, item.Moderate)
    (hturns : ∀ item ∈ items, item.shape = .circle → Number.TurnsOnCircle) :
    (run ctx options items c signal).completed = true ∧
      (run ctx options items c signal).canvas = c.paintAll options.background items := by
  have hcompleted : (run ctx options items c signal).completed = true := completed_run quiet
  obtain ⟨kept, hkept, hcanvas⟩ := canvas_run hc hcompleted
  have honest (item : Item) (hitem : item ∈ items) : item.Honest c.width c.height :=
    (moderate item hitem).honest _ _ (hturns item hitem)
  exact ⟨hcompleted, hcanvas.trans (hkept.drawAll_eq_of_honest hc honest options.background)⟩

example : (run {} { block := 2 } [Item.turnedStamp, Item.turnedStamp] (.blank 8 8) {}).canvas =
    (Canvas.blank 8 8).paintAll .white [Item.turnedStamp, Item.turnedStamp] :=
  (canvas_eq_paintAll_of_moderate _ _ (Canvas.wellFormed_blank (by decide))
    (.inr ⟨rfl, fun _ => rfl, rfl⟩) (by simp [Item.moderate_turnedStamp])
    (by simp [Item.turnedStamp])).2

end Rendering

end PatternScript
