import PatternScript.Picture.Item
import PatternScript.Raster.Rect

/-!
# The bounds of an item

Two boxes on the screen: `visual` holds every pixel that the item may touch, and
`marking` only pixels that it covers for certain. Only opaque items have the second.
-/
namespace PatternScript

structure ExactBox where
  minX : Float
  minY : Float
  maxX : Float
  maxY : Float

namespace ExactBox

def ofPoints (ps : List Point) : ExactBox :=
  ps.foldl
    (fun e p => ⟨Number.least e.minX p.x, Number.least e.minY p.y,
      Number.greatest e.maxX p.x, Number.greatest e.maxY p.y⟩)
    ⟨Number.infinity, Number.infinity, -Number.infinity, -Number.infinity⟩

def around (center : Point) (half : Float) : ExactBox :=
  ⟨center.x - half, center.y - half, center.x + half, center.y + half⟩

/-- The pixels whose centers may lie inside, with the far edges widened by `slack`. -/
def outerRect (e : ExactBox) (slack : Int32) : Rect where
  minX := Rounding.down.toInt32 e.minX
  minY := Rounding.down.toInt32 e.minY
  maxX := saturatingAdd (Rounding.up.toInt32 e.maxX) slack
  maxY := saturatingAdd (Rounding.up.toInt32 e.maxY) slack

def innerRect (e : ExactBox) : Rect where
  minX := Rounding.up.toInt32 e.minX
  minY := Rounding.up.toInt32 e.minY
  maxX := Rounding.down.toInt32 e.maxX
  maxY := Rounding.down.toInt32 e.maxY

def isFinite (e : ExactBox) : Bool :=
  e.minX.isFinite && e.maxX.isFinite && e.minY.isFinite && e.maxY.isFinite

end ExactBox

structure Bounds where
  visual : Rect
  /-- May leave the surface and may be empty. -/
  marking : Option Rect
  deriving DecidableEq

structure Frame where
  x : Float
  y : Float
  width : Float
  height : Float

namespace Item

def frame? (item : Item) : Option Frame :=
  let sides : Option (Float × Float) := match item.shape with
    | .pixel | .fillPixel => some (1, 1)
    | .rect | .fillRect => some (item.coordinate "WIDTH", item.coordinate "HEIGHT")
    | .stamp => item.stamp.map fun p => (Float.ofNat p.width, Float.ofNat p.height)
    | .line | .circle | .fillCircle => none
  match sides with
  | some (w, h) =>
    if w > 0 && h > 0 then some ⟨item.coordinate "X", item.coordinate "Y", w, h⟩ else none
  | none => none

def corners (item : Item) (b : Frame) : List Point :=
  [item.toScreen ⟨b.x, b.y⟩, item.toScreen ⟨b.x + b.width, b.y⟩,
    item.toScreen ⟨b.x + b.width, b.y + b.height⟩, item.toScreen ⟨b.x, b.y + b.height⟩]

def center (item : Item) : Point := item.toScreen ⟨item.coordinate "X", item.coordinate "Y"⟩

/-- Where the item may be seen, and by how much outlines pass its far edges. -/
def visualBox? (item : Item) : Option (ExactBox × Int32) :=
  match item.shape with
  | .line =>
    let a := item.toScreen ⟨item.coordinate "X1", item.coordinate "Y1"⟩
    let b := item.toScreen ⟨item.coordinate "X2", item.coordinate "Y2"⟩
    some (.ofPoints [a, b], 1)
  | .circle | .fillCircle =>
    let radius := item.coordinate "RADIUS"
    if radius ≤ 0 then none
    else
      let reach := Number.greatest (radius * item.scale * item.matrix.stretch.2) 1
      some (.around item.center reach, if item.shape = .circle then 1 else 0)
  | .rect => item.frame?.map fun b => (.ofPoints (item.corners b), 1)
  | .pixel | .fillPixel | .fillRect | .stamp =>
    item.frame?.map fun b => (.ofPoints (item.corners b), 0)

/-- What the item covers for certain: a box that stays one, or else a square inside the
circle inside the shape. -/
def markingBox? (item : Item) : Option ExactBox :=
  let stretch := item.matrix.stretch.1
  match item.shape with
  | .fillCircle =>
    let radius := item.coordinate "RADIUS"
    if radius ≤ 0 then none
    else some (.around item.center (radius * item.scale * stretch / Number.sqrtTwo))
  | .pixel | .fillPixel | .fillRect | .stamp =>
    item.frame?.map fun b =>
      if item.matrix.isAxisAligned then .ofPoints (item.corners b)
      else
        let center := item.toScreen ⟨b.x + b.width / 2.0, b.y + b.height / 2.0⟩
        let radius := Number.least b.width b.height * item.scale * stretch / 2.0
        .around center (radius / Number.sqrtTwo)
  | .line | .rect | .circle => none

def bounds? (item : Item) (width height : Int32) : Option Bounds := do
  let (extent, slack) ← item.visualBox?
  if !extent.isFinite then none
  let visual ← (extent.outerRect slack).clip? width height
  let marking := if item.isOpaque then item.markingBox?.map ExactBox.innerRect else none
  return ⟨visual, marking⟩

end Item

end PatternScript
