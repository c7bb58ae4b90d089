import PatternScript.Raster.Bounds
import PatternScript.Raster.Mark
import PatternScript.Raster.Segment
import PatternScript.Text.Basic

/-!
# Painting an item

Filled shapes are sampled: the center of each pixel of the clip is taken back to its
logical position and judged there, so turning and scaling leave no holes. Outlines are
lines between rounded screen positions. Boxes and stamps that stay on whole pixels are
painted at once.
-/
namespace PatternScript.Item

def logicalCenter (item : Item) (x y : Int32) : Point :=
  item.toLogical ⟨Number.ofInt32 x + 0.5, Number.ofInt32 y + 0.5⟩

def sample (item : Item) (clip : Rect) (shade : Point → Option Color) : List Mark :=
  clip.points.filterMap fun (x, y) => (shade (item.logicalCenter x y)).map (.pixel x y)

def isWord (v : Float) : Bool := Number.isWhole v && v.abs ≤ 2147483647.0

def wholeOffset? (item : Item) : Option (Int × Int) :=
  let m := item.matrix
  if m.isShift && isWord m.tx && isWord m.ty && isWord item.scale then
    some (Rounding.toZero.toWord64 m.tx, Rounding.toZero.toWord64 m.ty)
  else none

def word64? (n : Int) : Option Int :=
  if -9223372036854775808 ≤ n ∧ n ≤ 9223372036854775807 then some n else none

/-- Where `length` logical units from `position` on begin and end on the screen, unless a
step of the calculation leaves 64 bits. -/
def span? (position length : Int32) (scale offset : Int) : Option (Int × Int) := do
  let scaled ← word64? (position.toInt * scale)
  let start ← word64? (scaled + offset)
  let size ← word64? (length.toInt * scale)
  return (start, ← word64? (start + size))

/-- A pixel of which no center was met is still shown where its own center falls. -/
def pixelMarks (item : Item) (clip : Rect) : List Mark :=
  let x := item.coordinate "X"
  let y := item.coordinate "Y"
  let marks := item.sample clip fun p =>
    if p.x ≥ x && p.x < x + 1.0 && p.y ≥ y && p.y < y + 1.0 then some item.color else none
  if marks.isEmpty then
    let s := item.toScreen ⟨x + 0.5, y + 0.5⟩
    [.pixel (Rounding.down.toInt32 s.x) (Rounding.down.toInt32 s.y) item.color]
  else marks

def wholeBox? (item : Item) (clip : Rect) : Option (List Mark) := do
  if item.fill.isSome then none
  let (tx, ty) ← item.wholeOffset?
  let scale := Rounding.toZero.toWord64 item.scale
  let (x₀, x₁) ← span? (item.param "X") (item.param "WIDTH") scale tx
  let (y₀, y₁) ← span? (item.param "Y") (item.param "HEIGHT") scale ty
  let x₀ := max x₀ clip.minX.toInt
  let x₁ := min x₁ clip.maxX.toInt
  let y₀ := max y₀ clip.minY.toInt
  let y₁ := min y₁ clip.maxY.toInt
  if x₀ < x₁ ∧ y₀ < y₁ then
    return [.box (Int32.ofInt x₀) (Int32.ofInt y₀) (Int32.ofInt (x₁ - x₀))
      (Int32.ofInt (y₁ - y₀)) item.color]
  else return []

def sampledRect (item : Item) (clip : Rect) : List Mark :=
  let x := item.coordinate "X"
  let y := item.coordinate "Y"
  let w := item.coordinate "WIDTH"
  let h := item.coordinate "HEIGHT"
  item.sample clip fun p =>
    if p.x ≥ x && p.x < x + w && p.y ≥ y && p.y < y + h then some (item.colorAt p) else none

def fillRectMarks (item : Item) (clip : Rect) : List Mark :=
  if item.param "WIDTH" ≤ 0 || item.param "HEIGHT" ≤ 0 then []
  else (item.wholeBox? clip).getD (item.sampledRect clip)

def lineMarks (width height : Int32) (a b : Point) (color : Color) : List Mark :=
  let s : Segment := ⟨a, b⟩
  (s.pixelsOn width height).map fun p => .pixel p.1 p.2 color

def roundPoint (p : Point) : Point := ⟨Rounding.nearest.float p.x, Rounding.nearest.float p.y⟩

def pathMarks (item : Item) (width height : Int32) : List Point → List Mark
  | a :: b :: rest =>
    lineMarks width height a b item.color ++ pathMarks item width height (b :: rest)
  | _ => []

def rectMarks (item : Item) (width height : Int32) : List Mark :=
  match item.frame? with
  | none => []
  | some b =>
    let corners := (item.corners b).map roundPoint
    item.pathMarks width height (corners ++ corners.take 1)

def wholeStamp? (item : Item) (pattern : Pattern) : Option (List Mark) := do
  if !(item.scale == 1.0) then none
  let (tx, ty) ← item.wholeOffset?
  let x ← Text.int32? ((item.param "X").toInt + tx)
  let y ← Text.int32? ((item.param "Y").toInt + ty)
  return [.bitmap x y pattern.cells pattern.width pattern.height item.color]

def sampledStamp (item : Item) (pattern : Pattern) (clip : Rect) : List Mark :=
  let x := item.coordinate "X"
  let y := item.coordinate "Y"
  item.sample clip fun p =>
    let col := Rounding.down.toWord64 (p.x - x)
    let row := Rounding.down.toWord64 (p.y - y)
    if 0 ≤ col && 0 ≤ row && col < pattern.width && row < pattern.height &&
        pattern.isSetAt col.toNat row.toNat then some item.color
    else none

def stampMarks (item : Item) (clip : Rect) : List Mark :=
  match item.stamp with
  | none => []
  | some p => (item.wholeStamp? p).getD (item.sampledStamp p clip)

def fillCircleMarks (item : Item) (clip : Rect) : List Mark :=
  let r := item.coordinate "RADIUS"
  let x := item.coordinate "X"
  let y := item.coordinate "Y"
  if r ≤ 0 then []
  else item.sample clip fun p =>
    let dx := p.x - x
    let dy := p.y - y
    if dx * dx + dy * dy ≤ r * r then some (item.colorAt p) else none

def circleSides (item : Item) : Nat :=
  let radius := item.coordinate "RADIUS" * item.scale * item.matrix.stretch.2
  let wanted := Rounding.up.toWord64 (radius * Number.tau / 4.0)
  (max 20 (min 180 wanted)).toNat

def circleVertex (item : Item) (sides i : Nat) : Point :=
  let angle := Number.tau * Float.ofNat i / Float.ofNat sides
  let r := item.coordinate "RADIUS"
  roundPoint (item.toScreen
    ⟨item.coordinate "X" + r * angle.cos, item.coordinate "Y" + r * angle.sin⟩)

def circleMarks (item : Item) (width height : Int32) : List Mark :=
  if item.coordinate "RADIUS" ≤ 0 then []
  else
    let sides := item.circleSides
    let vertices := (List.range sides).map (item.circleVertex sides)
    item.pathMarks width height (vertices ++ vertices.take 1)

/-- The marks that paint the item on a surface; only the filled shapes heed the clip. -/
def marks (item : Item) (width height : Int32) (clip : Rect) : List Mark :=
  match item.shape with
  | .pixel | .fillPixel => item.pixelMarks clip
  | .line =>
    lineMarks width height
      (roundPoint (item.toScreen ⟨item.coordinate "X1", item.coordinate "Y1"⟩))
      (roundPoint (item.toScreen ⟨item.coordinate "X2", item.coordinate "Y2"⟩)) item.color
  | .rect => item.rectMarks width height
  | .fillRect => item.fillRectMarks clip
  | .circle => item.circleMarks width height
  | .fillCircle => item.fillCircleMarks clip
  | .stamp => item.stampMarks clip

end PatternScript.Item
