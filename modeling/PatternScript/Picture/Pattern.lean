import PatternScript.NameMap
import PatternScript.Number.Binary
import PatternScript.Text.UpperCase

/-!
# Patterns and the pattern table

A pattern is a small bitmap with a name. Tiling repeats it over the whole plane. The
table holds each pattern under its name in upper case and never replaces one.
-/
namespace PatternScript

structure Pattern where
  name : String
  width : Nat
  height : Nat
  /-- Row by row; a cell is set when it is one. -/
  cells : Array UInt8
  deriving DecidableEq

namespace Pattern

def tableLimit : Nat := 16

def cellLimit : Nat := 64 * 1024

def advisedSide : Nat := 20

def keyOf (name : String) : String := String.ofList (Text.upper name.toList)

def key (p : Pattern) : String := keyOf p.name

def isSetAt (p : Pattern) (x y : Nat) : Bool := p.cells[y * p.width + x]? == some 1

/-- The cell at a position of the tiled plane; negative positions repeat it like positive ones. -/
def isSetTiled (p : Pattern) (x y : Float) : Bool :=
  let col := Rounding.down.toWord64 x % p.width
  let row := Rounding.down.toWord64 y % p.height
  if p.width = 0 ∨ p.height = 0 then false else p.isSetAt col.toNat row.toNat

def isOpaque (p : Pattern) : Bool := !p.cells.isEmpty && p.cells.all (· == 1)

end Pattern

abbrev PatternTable := NameMap Pattern

namespace PatternTable

def find? (t : PatternTable) (name : String) : Option Pattern := t.get? (Pattern.keyOf name)

def add? (t : PatternTable) (p : Pattern) : Option PatternTable :=
  if t.contains p.key then none else some (t.set p.key p)

end PatternTable

end PatternScript
