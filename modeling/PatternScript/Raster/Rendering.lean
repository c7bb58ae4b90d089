import PatternScript.Raster.Canvas
import PatternScript.Raster.Coverage
import PatternScript.Raster.Painting
import PatternScript.Run.Signal

/-!
# Rendering a display list

The surface is cleared; then the items are judged from the last to the first, so that the
coverage only holds what is painted later; then those that were kept are painted from the
first to the last. The signal, when the renderer listens to it, is polled before each
item in both passes.
-/
namespace PatternScript

structure RenderSettings where
  block : Int32 := Coverage.defaultBlock
  background : Color := .white

structure RenderCounts where
  total : Nat := 0
  rendered : Nat := 0
  offScreen : Nat := 0
  occluded : Nat := 0
  interrupted : Bool := false
  deriving DecidableEq

/-- What is around a rendering: a host, whether its signal is heeded, and a watched pixel
that raises the signal when it gets its color. -/
structure RenderContext where
  host : Host := .quiet
  attached : Bool := true
  watch : Option Watch := none

namespace RenderContext

def poll (ctx : RenderContext) (s : Signal) : Signal :=
  if ctx.attached then s.poll ctx.host else s

def stops (ctx : RenderContext) (s : Signal) : Bool := ctx.attached && s.raised

def afterMarks (ctx : RenderContext) (width height : Int32) (marks : List Mark) (s : Signal) :
    Signal :=
  s.raiseIf (ctx.watch.any fun w => marks.any (w.sees width height))

end RenderContext

structure Survivor where
  item : Item
  visual : Rect

structure Culling where
  coverage : Coverage
  offScreen : Nat := 0
  occluded : Nat := 0
  /-- In the order of painting. -/
  survivors : List Survivor := []
  signal : Signal
  stopped : Bool := false

namespace Culling

def judge (width height : Int32) (item : Item) (c : Culling) : Culling :=
  match item.bounds? width height with
  | none => { c with offScreen := c.offScreen + 1 }
  | some b =>
    if item.isOpaque && c.coverage.covers b.visual then { c with occluded := c.occluded + 1 }
    else
      let coverage := match b.marking.bind c.coverage.wholeCells? with
        | some r => c.coverage.mark r
        | none => c.coverage
      { c with coverage, survivors := ⟨item, b.visual⟩ :: c.survivors }

def judgeAll (ctx : RenderContext) (width height : Int32) : List Item → Culling → Culling
  | [], c => c
  | item :: earlier, c =>
    let c := { c with signal := ctx.poll c.signal }
    if ctx.stops c.signal then { c with stopped := true }
    else judgeAll ctx width height earlier (c.judge width height item)

end Culling

structure Rendering where
  canvas : Canvas
  coverage : Coverage
  stats : RenderCounts
  signal : Signal

namespace Rendering

def paint (ctx : RenderContext) : List Survivor → Rendering → Rendering
  | [], r => r
  | s :: later, r =>
    let r := { r with signal := ctx.poll r.signal }
    if ctx.stops r.signal then { r with stats := { r.stats with interrupted := true } }
    else
      let w := r.canvas.width
      let h := r.canvas.height
      let marks := s.item.marks w h s.visual
      paint ctx later {
        canvas := r.canvas.drawAll marks
        coverage := r.coverage
        stats := { r.stats with rendered := r.stats.rendered + 1 }
        signal := ctx.afterMarks w h marks r.signal }

def run (ctx : RenderContext) (options : RenderSettings) (items : List Item) (canvas : Canvas)
    (signal : Signal) : Rendering :=
  let w := canvas.width
  let h := canvas.height
  let ground := Mark.box 0 0 w h options.background
  let culled := Culling.judgeAll ctx w h items.reverse {
    coverage := .new w h options.block
    signal := ctx.afterMarks w h [ground] signal }
  let cleared : Rendering := {
    canvas := canvas.draw ground
    coverage := culled.coverage
    stats := {
      total := items.length
      offScreen := culled.offScreen
      occluded := culled.occluded
      interrupted := culled.stopped }
    signal := culled.signal }
  if culled.stopped then cleared else cleared.paint ctx culled.survivors

def completed (r : Rendering) : Bool := !r.stats.interrupted

end Rendering

end PatternScript
