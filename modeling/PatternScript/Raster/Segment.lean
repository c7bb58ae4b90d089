import PatternScript.Plane.Affine

/-!
# Straight lines of pixels

A segment is first cut to a window one pixel wider than the surface, so that far ends
cost nothing, and then walked pixel by pixel: each step goes on along the longer side,
and along the shorter one when the error allows.
-/
namespace PatternScript

structure Window where
  minX : Float
  minY : Float
  maxX : Float
  maxY : Float

/-- The surface with a margin of one pixel. -/
def Window.ofSize (width height : Int32) : Window :=
  ⟨-1, -1, Number.ofInt32 width, Number.ofInt32 height⟩

structure Segment where
  start : Point
  stop : Point

namespace Segment

/-- Narrows the part of the segment that is kept, from `t₀` to `t₁` of its length, to the
side of one edge of the window. -/
def cutEdge? (kept : Float × Float) (edge : Float × Float) : Option (Float × Float) :=
  let (t₀, t₁) := kept
  let (p, q) := edge
  if p == 0.0 then (if q < 0.0 then none else some kept)
  else
    let r := q / p
    if p < 0.0 then
      if r > t₁ then none else some (Number.greatest t₀ r, t₁)
    else
      if r < t₀ then none else some (t₀, Number.least t₁ r)

def clip? (s : Segment) (w : Window) : Option Segment := do
  let a := s.start
  let b := s.stop
  if !(a.x.isFinite && a.y.isFinite && b.x.isFinite && b.y.isFinite) then none
  let dx := b.x - a.x
  let dy := b.y - a.y
  let edges := [(-dx, a.x - w.minX), (dx, w.maxX - a.x), (-dy, a.y - w.minY), (dy, w.maxY - a.y)]
  let (t₀, t₁) ← edges.foldlM cutEdge? (0.0, 1.0)
  return ⟨⟨a.x + t₀ * dx, a.y + t₀ * dy⟩, ⟨a.x + t₁ * dx, a.y + t₁ * dy⟩⟩

structure Walk where
  x : Int
  y : Int
  error : Int

namespace Walk

/-- One step towards `(x₁, y₁)`, with `dx` the width and `dy` minus the height of the whole. -/
def step (dx dy sx sy : Int) (w : Walk) : Walk :=
  let twice := 2 * w.error
  let w₁ : Walk := if twice ≥ dy then ⟨w.x + sx, w.y, w.error + dy⟩ else w
  if twice ≤ dx then ⟨w₁.x, w₁.y + sy, w₁.error + dx⟩ else w₁

def pixels (x₁ y₁ dx dy sx sy : Int) (w : Walk) : Nat → List (Int × Int)
  | 0 => []
  | fuel + 1 =>
    (w.x, w.y) :: if w.x = x₁ ∧ w.y = y₁ then []
      else pixels x₁ y₁ dx dy sx sy (w.step dx dy sx sy) fuel

end Walk

def pixels (x₀ y₀ x₁ y₁ : Int) : List (Int × Int) :=
  let dx := (x₁ - x₀).natAbs
  let dy := (y₁ - y₀).natAbs
  let sx : Int := if x₀ < x₁ then 1 else -1
  let sy : Int := if y₀ < y₁ then 1 else -1
  Walk.pixels x₁ y₁ dx (-dy) sx sy ⟨x₀, y₀, dx - dy⟩ (dx + dy + 1)

def pixelsOn (s : Segment) (width height : Int32) : List (Int32 × Int32) :=
  match s.clip? (.ofSize width height) with
  | none => []
  | some c =>
    let near := Rounding.nearest.toWord64
    (pixels (near c.start.x) (near c.start.y) (near c.stop.x) (near c.stop.y)).map fun p =>
      (Int32.ofInt p.1, Int32.ofInt p.2)

end Segment

end PatternScript
