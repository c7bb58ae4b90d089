import PatternScript.Raster.Mark

/-!
# Canvases

A canvas holds one color for each pixel, row by row. Its index arithmetic is that of
words of 32 bits, so it is exact as long as the number of pixels is below `2 ^ 31`.
Writes outside the canvas have no effect.
-/
namespace PatternScript

structure Canvas where
  width : Int32
  height : Int32
  pixels : Array Color

namespace Canvas

def blank (width height : Int32) : Canvas :=
  let w := max width 0
  let h := max height 0
  ⟨w, h, Array.replicate (w * h).toNatClampNeg .white⟩

def index? (c : Canvas) (x y : Int32) : Option Nat :=
  if x < 0 || y < 0 || x ≥ c.width || y ≥ c.height then none
  else some (y * c.width + x).toNatClampNeg

def pixel? (c : Canvas) (x y : Int32) : Option Color :=
  (c.index? x y).bind fun i => c.pixels[i]?

def set (c : Canvas) (x y : Int32) (color : Color) : Canvas :=
  match c.index? x y with
  | some i => { c with pixels := c.pixels.setIfInBounds i color }
  | none => c

def setAll (c : Canvas) (points : List (Int32 × Int32)) (color : Color) : Canvas :=
  points.foldl (fun c p => c.set p.1 p.2 color) c

def fillFrom (pixels : Array Color) (color : Color) (start : Nat) : Nat → Array Color
  | 0 => pixels
  | count + 1 => fillFrom (pixels.setIfInBounds start color) color (start + 1) count

def fillRows (c : Canvas) (x y width height : Int32) (color : Color) : Canvas :=
  let box := Mark.boxOn c.width c.height x y width height
  if box.isEmpty then c
  else
    let count := (box.maxX - box.minX).toNatClampNeg
    { c with
      pixels := (wordsBetween box.minY box.maxY).foldl
        (fun pixels row =>
          fillFrom pixels color (row * c.width + box.minX).toNatClampNeg count) c.pixels }

def fillPixels (c : Canvas) (x y width height : Int32) (color : Color) : Canvas :=
  c.setAll (Mark.boxOn c.width c.height x y width height).points color

def blit (c : Canvas) (x y : Int32) (cells : Array UInt8) (width height : Nat)
    (color : Color) : Canvas :=
  c.setAll (Mark.bitmapPoints x y cells width height) color

def clear (c : Canvas) (color : Color) : Canvas := c.fillRows 0 0 c.width c.height color

def draw (c : Canvas) : Mark → Canvas
  | .pixel x y color => c.set x y color
  | .box x y width height color => c.fillRows x y width height color
  | .bitmap x y cells width height color => c.blit x y cells width height color

def drawAll (c : Canvas) (marks : List Mark) : Canvas := marks.foldl draw c

def count (c : Canvas) (color : Color) : Nat := c.pixels.countP (· == color)

def rowsFrom (c : Canvas) (start : Nat) : Nat → List (List Color)
  | 0 => []
  | left + 1 =>
    let stop := start + c.width.toNatClampNeg
    (c.pixels.extract start stop).toList :: rowsFrom c stop left

def rows (c : Canvas) : List (List Color) :=
  if c.width ≤ 0 then [] else c.rowsFrom 0 c.height.toNatClampNeg

def text (c : Canvas) : String :=
  String.ofList (c.rows.flatMap fun row =>
    row.map (fun p => if p = .black then '#' else '.') ++ ['\n'])

end Canvas

end PatternScript
