import PatternScript.Picture.Color
import PatternScript.Raster.Rect

/-!
# Marks

Painting is a list of marks, each of which gives one color to some pixels: a single
pixel, a box, or the set cells of a bitmap. What falls outside the surface is lost.
-/
namespace PatternScript

inductive Mark
  | pixel (x y : Int32) (color : Color)
  | box (x y width height : Int32) (color : Color)
  | bitmap (x y : Int32) (cells : Array UInt8) (width height : Nat) (color : Color)

namespace Mark

def color : Mark → Color
  | pixel _ _ c | box _ _ _ _ c | bitmap _ _ _ _ _ c => c

def boxOn (surfaceWidth surfaceHeight x y width height : Int32) : Rect where
  minX := max x 0
  minY := max y 0
  maxX := min (saturatingAdd x width) surfaceWidth
  maxY := min (saturatingAdd y height) surfaceHeight

def bitmapPoints (x y : Int32) (cells : Array UInt8) (width height : Nat) :
    List (Int32 × Int32) :=
  (List.range height).flatMap fun row => (List.range width).filterMap fun col =>
    if cells[row * width + col]? = some 1 then
      some (saturatingAdd x (Int32.ofNat col), saturatingAdd y (Int32.ofNat row))
    else none

/-- The points to which the mark gives its color, in order; some may be off the surface. -/
def points (surfaceWidth surfaceHeight : Int32) : Mark → List (Int32 × Int32)
  | pixel x y _ => [(x, y)]
  | box x y w h _ => (boxOn surfaceWidth surfaceHeight x y w h).points
  | bitmap x y cells w h _ => bitmapPoints x y cells w h

end Mark

structure Watch where
  x : Int32
  y : Int32
  color : Color

def Watch.sees (w : Watch) (surfaceWidth surfaceHeight : Int32) (m : Mark) : Bool :=
  m.color == w.color && match m with
    | .pixel x y _ => x == w.x && y == w.y
    | .box x y width height _ =>
      (Mark.boxOn surfaceWidth surfaceHeight x y width height).contains w.x w.y
    | .bitmap x y cells width height _ =>
      (Mark.bitmapPoints x y cells width height).contains (w.x, w.y)

end PatternScript
