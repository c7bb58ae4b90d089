import PatternScript.Number.Binary

/-!
# Affine maps of the plane

A map sends `(x, y)` to `(xx·x + xy·y + tx, yx·x + yy·y + ty)`. Every formula keeps its
order of operations, since doubles are rounded after each.
-/
namespace PatternScript

structure Point where
  x : Float
  y : Float

structure Affine where
  xx : Float
  yx : Float
  xy : Float
  yy : Float
  tx : Float
  ty : Float

namespace Affine

/-- Maps whose determinant is nearer to zero than this are not inverted. -/
def singularBelow : Float := 1e-9

def identity : Affine := ⟨1, 0, 0, 1, 0, 0⟩

instance : Inhabited Affine := ⟨identity⟩

def shift (dx dy : Float) : Affine := ⟨1, 0, 0, 1, dx, dy⟩

/-- A turn by so many degrees, clockwise where `y` points down. -/
def rotation (degrees : Float) : Affine :=
  let angle := Number.radians degrees
  let s := angle.sin
  let c := angle.cos
  ⟨c, s, -s, c, 0, 0⟩

/-- First `b`, then `a`. -/
def mul (a b : Affine) : Affine where
  xx := a.xx * b.xx + a.xy * b.yx
  yx := a.yx * b.xx + a.yy * b.yx
  xy := a.xx * b.xy + a.xy * b.yy
  yy := a.yx * b.xy + a.yy * b.yy
  tx := a.xx * b.tx + a.xy * b.ty + a.tx
  ty := a.yx * b.tx + a.yy * b.ty + a.ty

def det (m : Affine) : Float := m.xx * m.yy - m.yx * m.xy

def invert? (m : Affine) : Option Affine :=
  let d := m.det
  if d.abs < singularBelow then none
  else
    let k := 1.0 / d
    some {
      xx := m.yy * k
      yx := -m.yx * k
      xy := -m.xy * k
      yy := m.xx * k
      tx := (m.xy * m.ty - m.yy * m.tx) * k
      ty := (m.yx * m.tx - m.xx * m.ty) * k }

def apply (m : Affine) (p : Point) : Point :=
  ⟨m.xx * p.x + m.xy * p.y + m.tx, m.yx * p.x + m.yy * p.y + m.ty⟩

def applyLinear (m : Affine) (p : Point) : Point :=
  ⟨m.xx * p.x + m.xy * p.y, m.yx * p.x + m.yy * p.y⟩

/-- From logical to screen position: the scale first, then the map. -/
def toScreen (m : Affine) (scale : Float) (p : Point) : Point :=
  m.apply ⟨p.x * scale, p.y * scale⟩

def toLogical (inverse : Affine) (scale : Float) (p : Point) : Point :=
  let q := inverse.apply p
  ⟨q.x / scale, q.y / scale⟩

def tolerance : Float := 1e-9

def isShift (m : Affine) : Bool :=
  (m.xx - 1.0).abs < tolerance && m.yx.abs < tolerance && m.xy.abs < tolerance &&
  (m.yy - 1.0).abs < tolerance

def isAxisAligned (m : Affine) : Bool :=
  (m.yx.abs < tolerance && m.xy.abs < tolerance) || (m.xx.abs < tolerance && m.yy.abs < tolerance)

/-- The least and the greatest factor by which the map stretches a direction. -/
def stretch (m : Affine) : Float × Float :=
  let p := m.xx * m.xx + m.yx * m.yx + m.xy * m.xy + m.yy * m.yy
  let q := m.det.abs
  let d := (Number.greatest (p * p - 4.0 * q * q) 0.0).sqrt
  ((Number.greatest ((p - d) / 2.0) 0.0).sqrt, ((p + d) / 2.0).sqrt)

end Affine

end PatternScript
