import PatternScript.Raster.Rect

/-!
# Coverage

A coarse grid over a surface. A marked cell is one whose pixels will all be painted over
by opaque items, so that what is painted there earlier cannot be seen.
-/
namespace PatternScript

structure Coverage where
  width : Int32
  height : Int32
  block : Int32
  columns : Int32
  rows : Int32
  cells : Array Bool

namespace Coverage

def defaultBlock : Int32 := 16

def cellsAlong (block length : Int32) : Int32 :=
  Int32.ofInt ((length.toInt + block.toInt - 1).tdiv block.toInt)

def new (width height block : Int32) : Coverage :=
  let block := max block 1
  let width := max width 0
  let height := max height 0
  let columns := cellsAlong block width
  let rows := cellsAlong block height
  ⟨width, height, block, columns, rows, Array.replicate (columns * rows).toNatClampNeg false⟩

def reset (g : Coverage) : Coverage :=
  { g with cells := Array.replicate g.cells.size false }

def index (g : Coverage) (col row : Int32) : Nat := (row * g.columns + col).toNatClampNeg

def isMarked (g : Coverage) (col row : Int32) : Bool :=
  col ≥ 0 && row ≥ 0 && col < g.columns && row < g.rows && g.cells.getD (g.index col row) false

def markedCount (g : Coverage) : Nat := g.cells.countP id

def cellsOf? (g : Coverage) (r : Rect) : Option Rect :=
  match r.clip? g.width g.height with
  | none => none
  | some c => some {
      minX := c.minX / g.block
      minY := c.minY / g.block
      maxX := min ((c.maxX - 1) / g.block) (g.columns - 1) + 1
      maxY := min ((c.maxY - 1) / g.block) (g.rows - 1) + 1 }

def mark (g : Coverage) (r : Rect) : Coverage :=
  match g.cellsOf? r with
  | none => g
  | some cells =>
    { g with
      cells := cells.points.foldl (fun a p => a.setIfInBounds (g.index p.1 p.2) true) g.cells }

/-- Whether every cell that the rectangle meets is marked; an empty one meets none and is
not covered. -/
def covers (g : Coverage) (r : Rect) : Bool :=
  match g.cellsOf? r with
  | none => false
  | some cells => cells.points.all fun p => g.cells.getD (g.index p.1 p.2) false

def snapUp (g : Coverage) (limit v : Int32) : Int32 :=
  if v ≤ 0 then 0
  else
    let block := g.block.toInt
    Int32.ofInt (min ((v.toInt + block - 1).tdiv block * block) limit.toInt)

/-- The greatest cell border at or before `v`; from the border of the surface on, that. -/
def snapDown (g : Coverage) (limit v : Int32) : Int32 :=
  if v ≥ limit then limit
  else
    let block := g.block.toInt
    Int32.ofInt ((max v 0).toInt.tdiv block * block)

/-- The cells that lie in the rectangle completely, as a rectangle of pixels. Cells that
the border of the surface cuts count by their part on it. -/
def wholeCells? (g : Coverage) (r : Rect) : Option Rect :=
  let s : Rect := {
    minX := g.snapUp g.width r.minX
    minY := g.snapUp g.height r.minY
    maxX := g.snapDown g.width r.maxX
    maxY := g.snapDown g.height r.maxY }
  if s.minX < s.maxX && s.minY < s.maxY then some s else none

end Coverage

end PatternScript
