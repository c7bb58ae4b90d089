/-!
# Doubles and whole numbers

A double is taken apart into sign, mantissa and exponent, so that rounding to a whole
number is a shift of a natural number. Conversions to words stop at the ends of the
range, and what is not a number becomes zero.
-/
namespace PatternScript

/-- What a double stands for; a finite one is `mantissa · 2 ^ exponent` with its sign. -/
inductive Binary
  | finite (negative : Bool) (mantissa : Nat) (exponent : Int)
  | infinite (negative : Bool)
  | nan
  deriving DecidableEq

namespace Binary

def ofFloat (x : Float) : Binary :=
  let bits := x.toBits
  let negative := bits >>> 63 == 1
  let field := (bits >>> 52 &&& 0x7FF).toNat
  let fraction := (bits &&& 0xFFFFFFFFFFFFF).toNat
  if field = 0x7FF then (if fraction = 0 then infinite negative else nan)
  else if field = 0 then finite negative fraction (-1074)
  else finite negative (fraction + 1 <<< 52) (field - 1075)

def whole (m : Nat) (e : Int) : Nat :=
  if 0 ≤ e then m <<< e.toNat else m >>> (-e).toNat

def isWhole (m : Nat) (e : Int) : Bool :=
  0 ≤ e || (m >>> (-e).toNat) <<< (-e).toNat == m

def nearest (m : Nat) (e : Int) : Nat :=
  if 0 ≤ e then m <<< e.toNat else ((m >>> ((-e).toNat - 1)) + 1) >>> 1

end Binary

/-- The directions of rounding to a whole number; `nearest` moves a half away from zero. -/
inductive Rounding
  | down
  | up
  | toZero
  | nearest
  deriving DecidableEq

namespace Rounding

def magnitude (r : Rounding) (negative : Bool) (m : Nat) (e : Int) : Nat :=
  let outward := Binary.whole m e + (if Binary.isWhole m e then 0 else 1)
  match r with
  | down => if negative then outward else Binary.whole m e
  | up => if negative then Binary.whole m e else outward
  | toZero => Binary.whole m e
  | nearest => Binary.nearest m e

def integer (r : Rounding) (negative : Bool) (m : Nat) (e : Int) : Int :=
  if negative then -(r.magnitude negative m e : Int) else r.magnitude negative m e

def within (r : Rounding) (lo hi : Int) (x : Float) : Int :=
  match Binary.ofFloat x with
  | .finite negative m e => max lo (min hi (r.integer negative m e))
  | .infinite negative => if negative then lo else hi
  | .nan => 0

def toInt32 (r : Rounding) (x : Float) : Int32 :=
  Int32.ofInt (r.within (-2147483648) 2147483647 x)

def toWord64 (r : Rounding) (x : Float) : Int :=
  r.within (-9223372036854775808) 9223372036854775807 x

def float (r : Rounding) (x : Float) : Float :=
  match Binary.ofFloat x with
  | .finite negative m e =>
    let whole := Float.ofNat (r.magnitude negative m e)
    if negative then -whole else whole
  | .infinite _ | .nan => x

end Rounding

namespace Number

def isWhole (x : Float) : Bool :=
  match Binary.ofFloat x with
  | .finite _ m e => Binary.isWhole m e
  | .infinite _ | .nan => false

def ofInt32 (n : Int32) : Float := Float.ofInt n.toInt

/-- The lesser of two doubles, or the one that is a number. -/
def least (a b : Float) : Float :=
  if a.isNaN then b else if b.isNaN then a else if b < a then b else a

def greatest (a b : Float) : Float :=
  if a.isNaN then b else if b.isNaN then a else if a < b then b else a

def infinity : Float := 1.0 / 0.0

def pi : Float := 3.14159265358979323846264338327950288

def tau : Float := 6.28318530717958647692528676655900577

def sqrtTwo : Float := 1.41421356237309504880168872420969808

/-- Degrees are measured by one multiplication with the double nearest to a degree. -/
def radians (degrees : Float) : Float := degrees * (pi / 180.0)

end Number

def saturatingAdd (a b : Int32) : Int32 := Int32.ofIntClamp (a.toInt + b.toInt)

def saturatingSub (a b : Int32) : Int32 := Int32.ofIntClamp (a.toInt - b.toInt)

def wordsBetween (lo hi : Int32) : List Int32 :=
  (List.range (hi.toInt - lo.toInt).toNat).map fun k => lo + Int32.ofNat k

end PatternScript
