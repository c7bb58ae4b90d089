import PatternScript.Proofs.Culling.Stopping
import PatternScript.Run.Session
import PatternScript.Script.Reading

/-!
# When culling changes no pixel

A rendering that was not stopped leaves what is kept, painted in order. For honest items
that is what painting all of them leaves, since wherever a dropped item would be seen the
items kept behind it cover it together. Without honesty it is so exactly when the kept
items show at each pixel what all items do, and a circle far enough from its origin, whose
positions are rounded, shows that this can fail.
-/
namespace PatternScript

variable {c : Canvas} {x y block : Int32} {background : Color}

namespace Keeps

variable {items : List Item} {kept : List Survivor}

theorem topColor_eq_of_sameEffect (hc : c.WellFormed) (hon : c.On x y) {marks marks' : List Mark}
    (same : ∀ c' : Canvas, c'.WellFormed → c'.width = c.width → c'.height = c.height →
      c'.drawAll marks = c'.drawAll marks') :
    Mark.topColor c.width c.height x y marks = Mark.topColor c.width c.height x y marks' := by
  have hshown (k : Color) : Mark.shown c.width c.height k marks x y =
      Mark.shown c.width c.height k marks' x y := by
    have size := c.sameSize_clear k
    exact (Canvas.drawAll_clear_eq_iff hc marks marks').1
      (same _ (size.wellFormed hc) size.width_eq size.height_eq) x y hon
  have hblack := hshown .black
  have hwhite := hshown .white
  unfold Mark.shown at hblack hwhite
  generalize Mark.topColor c.width c.height x y marks = top at *
  generalize Mark.topColor c.width c.height x y marks' = top' at *
  -- A pixel that only one of the two gives a color tells the two backgrounds apart.
  rcases top with _ | k <;> rcases top' with _ | k'
  · rfl
  · rw [Option.getD_none, Option.getD_some] at hblack hwhite
    cases hblack.trans hwhite.symm
  · rw [Option.getD_none, Option.getD_some] at hblack hwhite
    cases hblack.symm.trans hwhite
  · exact congrArg some hblack

theorem paint_of_hidden (hon : c.On x y)
    (fits : Coverage.cellCount c.width c.height block < 2147483648)
    (h : Keeps c.width c.height block items kept)
    (honest : ∀ item ∈ items, item.Honest c.width c.height) {r : Rect}
    (hhid : Hidden c.width c.height block kept r) (hr : r.contains x y = true) :
    Mark.Paint c.width c.height x y (Survivor.allMarks c.width c.height kept) := by
  obtain ⟨col, row, hin⟩ := Coverage.exists_cell (Coverage.wellFormed_new fits)
    (Coverage.contains_clamped.2 hon)
  obtain ⟨s, hs, b, m, hb, hm, hencloses⟩ := hhid col row x y hin hr
  obtain ⟨hmem, b', hb', hvisual⟩ := h.mem hs
  rw [hb, Option.some.injEq] at hb'
  subst hb'
  obtain ⟨mark, hmark, hpoint⟩ :=
    (honest s.item hmem).covers b m hb hm x y hon (hencloses x y hin)
  rw [hvisual] at hmark
  exact ⟨mark, List.mem_flatMap.2 ⟨s, hs, hmark⟩, hpoint⟩

theorem topColor_eq_of_honest (hc : c.WellFormed) (hon : c.On x y)
    (fits : Coverage.cellCount c.width c.height block < 2147483648)
    (h : Keeps c.width c.height block items kept)
    (honest : ∀ item ∈ items, item.Honest c.width c.height) :
    Mark.topColor c.width c.height x y (Survivor.allMarks c.width c.height kept) =
      Mark.topColor c.width c.height x y (Item.allMarks c.width c.height items) := by
  induction h with
  | nil => rfl
  | offScreen h hb ih =>
    have hitem := honest _ List.mem_cons_self
    have hlater := ih fun item hitem => honest item (List.mem_cons_of_mem _ hitem)
    rw [Item.topColor_allMarks_cons, hlater,
      Mark.topColor_eq_none_iff.2 (hitem.unseen hb x y hon), Option.or_none]
  | @hidden item later kept b h hb _ hhid ih =>
    have hitem := honest item List.mem_cons_self
    have hrest : ∀ item ∈ later, item.Honest c.width c.height :=
      fun item hitem => honest item (List.mem_cons_of_mem _ hitem)
    rw [Item.topColor_allMarks_cons, ← ih hrest]
    by_cases hpaint : Mark.Paint c.width c.height x y (item.marks c.width c.height b.visual)
    · -- The item would be seen here, so its cell is filled by a survivor, which paints it.
      have hover := paint_of_hidden hon fits h hrest hhid (hitem.within b hb x y hon hpaint)
      cases htop : Mark.topColor c.width c.height x y (Survivor.allMarks c.width c.height kept) with
      | none => exact absurd hover (Mark.topColor_eq_none_iff.1 htop)
      | some k => rfl
    · rw [← topColor_eq_of_sameEffect hc hon (hitem.sameEffect b hb),
        Mark.topColor_eq_none_iff.2 hpaint, Option.or_none]
  | @shown item later kept b h hb _ ih =>
    have hitem := honest item List.mem_cons_self
    have hlater := ih fun item hitem => honest item (List.mem_cons_of_mem _ hitem)
    rw [Item.topColor_allMarks_cons, Survivor.topColor_allMarks_cons, hlater,
      topColor_eq_of_sameEffect hc hon (hitem.sameEffect b hb)]

theorem drawAll_eq_of_honest (hc : c.WellFormed) (h : Keeps c.width c.height block items kept)
    (honest : ∀ item ∈ items, item.Honest c.width c.height) (background : Color) :
    (c.clear background).drawAll (Survivor.allMarks c.width c.height kept) =
      c.paintAll background items := by
  rw [Item.paintAll_eq, Canvas.drawAll_clear_eq_iff hc]
  intro x y hon
  rw [Mark.shown, h.topColor_eq_of_honest hc hon hc.cells_fit honest, Mark.shown]

end Keeps

/-- Whether nothing asks the renderer to stop: it does not listen, or the signal is down and
neither the host nor a watched pixel raises it. -/
def RenderContext.Quiet (ctx : RenderContext) (s : Signal) : Prop :=
  ctx.attached = false ∨ s.raised = false ∧ (∀ n, ctx.host.atPoll n = false) ∧ ctx.watch = none

namespace Rendering

/-- A white circle of which the pixel at the origin is said to be covered for certain,
although rounding leaves it unpainted. -/
def farCircle : String :=
  "PIXEL X=0 Y=0\nCOLOR NAME=WHITE\nSCALE FACTOR=5142469\n" ++
    "FILL_CIRCLE X=1347607876 Y=1347607876 RADIUS=1905805335\n"

def listOf (source : String) (width height : Int32) : List Item :=
  match Script.compile source with
  | .ok script => (Session.generate { script, width, height }).items
  | .error _ => []

section Runs

variable {ctx : RenderContext} {options : RenderSettings} {items : List Item} {c : Canvas}
  {signal : Signal}

theorem completed_run (h : ctx.Quiet signal) :
    (run ctx options items c signal).completed = true := by
  rw [completed_iff]
  intro i _
  rw [observes]
  rcases h with hattached | ⟨hdown, hhost, hwatch⟩
  · rw [hattached, Bool.false_and]
  · simp [raisedBy, hdown, hhost, hwatch]

theorem canvas_run (hc : c.WellFormed) (h : (run ctx options items c signal).completed = true) :
    ∃ kept, Keeps c.width c.height options.block items kept ∧
      (run ctx options items c signal).canvas =
        (c.clear options.background).drawAll (Survivor.allMarks c.width c.height kept) :=
  ⟨survivors options items c, keeps_survivors hc, (run_of_completed h).1⟩

variable (options items)

/-- Culling honest items changes no pixel. -/
theorem canvas_eq_paintAll_of_honest (hc : c.WellFormed) (quiet : ctx.Quiet signal)
    (honest : ∀ item ∈ items, item.Honest c.width c.height) :
    (run ctx options items c signal).completed = true ∧
      (run ctx options items c signal).canvas = c.paintAll options.background items := by
  have hcompleted : (run ctx options items c signal).completed = true := completed_run quiet
  obtain ⟨kept, hkept, hcanvas⟩ := canvas_run hc hcompleted
  exact ⟨hcompleted, hcanvas.trans (hkept.drawAll_eq_of_honest hc honest options.background)⟩

theorem canvas_eq_paintAll_of_two_rects :
    let rect : Item :=
      { shape := .fillRect, line := 1, params := (NameMap.empty.set "WIDTH" 2).set "HEIGHT" 2 }
    (∀ item ∈ [rect, { rect with color := .white }], item.Honest 2 2) ∧
      (run {} { block := 1 } [rect, { rect with color := .white }] (.blank 2 2) {}).canvas =
        (Canvas.blank 2 2).paintAll .white [rect, { rect with color := .white }] := by
  intro rect
  have honest : ∀ item ∈ [rect, { rect with color := .white }], item.Honest 2 2 := by
    intro item hitem
    rcases List.mem_cons.1 hitem with rfl | hitem
    · exact Item.honest_of_fills (some (.ofSize 2 2)) (by decide +kernel) (by decide +kernel)
    · cases List.mem_singleton.1 hitem
      exact Item.honest_of_fills (some (.ofSize 2 2)) (by decide +kernel) (by decide +kernel)
  exact ⟨honest, (canvas_eq_paintAll_of_honest _ _ (Canvas.wellFormed_blank (by decide))
    (Or.inr ⟨rfl, fun _ => rfl, rfl⟩) honest).2⟩

/-- A rendering shows at each pixel what is kept of the items, so culling changes no pixel
exactly when that is what all items show there. -/
theorem canvas_eq_paintAll_iff (hc : c.WellFormed) (quiet : ctx.Quiet signal) :
    ∃ kept,
      (∀ kept', Keeps c.width c.height options.block items kept' ↔ kept' = kept) ∧
      (∀ x y, c.On x y → (run ctx options items c signal).canvas.pixel? x y =
        some (Mark.shown c.width c.height options.background
          (Survivor.allMarks c.width c.height kept) x y)) ∧
      ((run ctx options items c signal).canvas = c.paintAll options.background items ↔
        ∀ x y, c.On x y →
          Mark.shown c.width c.height options.background
              (Survivor.allMarks c.width c.height kept) x y =
            Mark.shown c.width c.height options.background
              (Item.allMarks c.width c.height items) x y) := by
  have hcompleted : (run ctx options items c signal).completed = true := completed_run quiet
  obtain ⟨kept, hkept, hcanvas⟩ := canvas_run hc hcompleted
  refine ⟨kept, ?_, ?_, ?_⟩
  · intro kept'
    constructor
    · intro h
      exact h.unique hkept
    · intro h
      subst h
      exact hkept
  · intro x y hon
    rw [hcanvas, Canvas.pixel?_drawAll_clear hc hon]
  · rw [hcanvas, Item.paintAll_eq, Canvas.drawAll_clear_eq_iff hc]

theorem canvas_eq_paintAll_iff_of_far_circle :
    (Canvas.blank 1 1).WellFormed ∧ ({} : RenderContext).Quiet {} ∧
      ∃ kept, Keeps 1 1 1 (listOf farCircle 1 1) kept ∧
        ((run {} { block := 1 } (listOf farCircle 1 1) (.blank 1 1) {}).canvas =
            (Canvas.blank 1 1).paintAll .white (listOf farCircle 1 1) ↔
          ∀ x y, (Canvas.blank 1 1).On x y →
            Mark.shown 1 1 .white (Survivor.allMarks 1 1 kept) x y =
              Mark.shown 1 1 .white (Item.allMarks 1 1 (listOf farCircle 1 1)) x y) := by
  have hc : (Canvas.blank 1 1).WellFormed := Canvas.wellFormed_blank (by decide)
  have quiet : ({} : RenderContext).Quiet {} := Or.inr ⟨rfl, fun _ => rfl, rfl⟩
  obtain ⟨kept, hkept, -, hiff⟩ := canvas_eq_paintAll_iff { block := 1 }
    (listOf farCircle 1 1) hc quiet
  exact ⟨hc, quiet, kept, (hkept kept).2 rfl, hiff⟩

/-- The pixel under the far circle is dropped, and the circle leaves it white. -/
theorem far_circle_hides_a_pixel_it_leaves :
    (Script.compile farCircle).toOption.isSome = true ∧
      (run {} { block := 1 } (listOf farCircle 1 1) (.blank 1 1) {}).canvas ≠
        (Canvas.blank 1 1).paintAll .white (listOf farCircle 1 1) := by
  refine ⟨by decide +kernel, ?_⟩
  have hrun : (run {} { block := 1 } (listOf farCircle 1 1) (.blank 1 1) {}).canvas.pixels =
    #[.white] := by decide +kernel
  have hall : ((Canvas.blank 1 1).paintAll .white (listOf farCircle 1 1)).pixels =
    #[.black] := by decide +kernel
  intro heq
  rw [heq, hall] at hrun
  cases hrun

end Runs

end Rendering

end PatternScript
