import PatternScript.Picture.Color
import PatternScript.Picture.Pattern
import PatternScript.Plane.Affine

/-!
# Display items

One drawing operation with every parameter resolved, and with the pen as it was when
the operation was met.
-/
namespace PatternScript

structure Item where
  shape : Shape
  line : Nat
  params : NameMap Int32 := .empty
  name : Option String := none
  matrix : Affine := .identity
  inverse : Affine := .identity
  scale : Float := 1
  color : Color := .black
  /-- The pattern that fills the shape; none fills it with its color. -/
  fill : Option Pattern := none
  stamp : Option Pattern := none
  isOpaque : Bool := shape.isOpaque

namespace Item

def param (item : Item) (key : String) : Int32 := (item.params.get? key).getD 0

def coordinate (item : Item) (key : String) : Float := Number.ofInt32 (item.param key)

def toScreen (item : Item) (p : Point) : Point := item.matrix.toScreen item.scale p

def toLogical (item : Item) (p : Point) : Point := item.inverse.toLogical item.scale p

/-- The color of a filled shape at a logical position: clear cells of a pattern show the
inverse color, so a filled shape leaves no gap. -/
def colorAt (item : Item) (p : Point) : Color :=
  match item.fill with
  | none => item.color
  | some pattern => if pattern.isSetTiled p.x p.y then item.color else item.color.inverse

end Item

end PatternScript
