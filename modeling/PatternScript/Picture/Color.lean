import PatternScript.Text.UpperCase

/-!
# Colors and drawing commands
-/
namespace PatternScript

inductive Color
  | black
  | white
  deriving DecidableEq, Repr, Inhabited

namespace Color

def name : Color → String
  | black => "BLACK"
  | white => "WHITE"

def ofName? (name : String) : Option Color :=
  let upper := String.ofList (Text.upper name.toList)
  if upper = "BLACK" then some black
  else if upper = "WHITE" then some white
  else none

def inverse : Color → Color
  | black => white
  | white => black

@[simp] theorem inverse_inverse (c : Color) : c.inverse.inverse = c := by cases c <;> rfl

end Color

inductive Shape
  | pixel
  | fillPixel
  | line
  | rect
  | fillRect
  | circle
  | fillCircle
  | stamp
  deriving DecidableEq, Repr

namespace Shape

def all : List Shape :=
  [pixel, fillPixel, line, rect, fillRect, circle, fillCircle, stamp]

def name : Shape → String
  | pixel => "PIXEL"
  | fillPixel => "FILL_PIXEL"
  | line => "LINE"
  | rect => "RECT"
  | fillRect => "FILL_RECT"
  | circle => "CIRCLE"
  | fillCircle => "FILL_CIRCLE"
  | stamp => "DRAW"

def ofName? (name : String) : Option Shape := all.find? (·.name = name)

def params : Shape → List String
  | pixel | fillPixel | stamp => ["X", "Y"]
  | line => ["X1", "Y1", "X2", "Y2"]
  | rect | fillRect => ["X", "Y", "WIDTH", "HEIGHT"]
  | circle | fillCircle => ["X", "Y", "RADIUS"]

/-- Whether the shape alone settles that it covers its place; for a stamp its pattern does. -/
def isOpaque : Shape → Bool
  | pixel | fillPixel | fillRect | fillCircle => true
  | line | rect | circle | stamp => false

end Shape

end PatternScript
