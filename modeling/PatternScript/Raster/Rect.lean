import PatternScript.Number.Binary

/-!
# Rectangles of pixels

A rectangle holds the pixels from its least corner up to but not including its greatest
one; a rectangle whose corners are out of order is empty.
-/
namespace PatternScript

structure Rect where
  minX : Int32
  minY : Int32
  maxX : Int32
  maxY : Int32
  deriving DecidableEq, Inhabited

namespace Rect

def isEmpty (r : Rect) : Bool := r.minX ≥ r.maxX || r.minY ≥ r.maxY

def width (r : Rect) : Int32 := max (saturatingSub r.maxX r.minX) 0

def height (r : Rect) : Int32 := max (saturatingSub r.maxY r.minY) 0

def ofSize (width height : Int32) : Rect := ⟨0, 0, width, height⟩

def clip? (r : Rect) (width height : Int32) : Option Rect :=
  let c : Rect := ⟨max r.minX 0, max r.minY 0, min r.maxX width, min r.maxY height⟩
  if c.isEmpty then none else some c

def points (r : Rect) : List (Int32 × Int32) :=
  (wordsBetween r.minY r.maxY).flatMap fun y => (wordsBetween r.minX r.maxX).map fun x => (x, y)

def contains (r : Rect) (x y : Int32) : Bool :=
  r.minX ≤ x && x < r.maxX && r.minY ≤ y && y < r.maxY

end Rect

end PatternScript
