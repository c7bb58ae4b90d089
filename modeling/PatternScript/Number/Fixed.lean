import PatternScript.Number.Binary
import PatternScript.Text.Basic

/-!
# Fixed places

A double written with a given number of places after the point, rounded from its exact
value; a half goes to the even neighbour.
-/
namespace PatternScript.Number

def roundDiv (num den : Nat) : Nat :=
  let q := num / den
  let r := num % den
  if 2 * r < den then q
  else if den < 2 * r then q + 1
  else if q % 2 = 0 then q else q + 1

def unitsOf (places m : Nat) (e : Int) : Nat :=
  let n := m * Nat.pow 10 places
  if 0 ≤ e then n <<< e.toNat else roundDiv n (1 <<< (-e).toNat)

def placed (places units : Nat) : List Char :=
  let digits := Text.padLeft (places + 1) '0' (Nat.toDigits 10 units)
  let before := digits.length - places
  if places = 0 then digits else digits.take before ++ '.' :: digits.drop before

/-- The written form; a minus sign stands before every negative double, zero too. -/
def fixed (places : Nat) (x : Float) : String :=
  match Binary.ofFloat x with
  | .finite negative m e =>
    (if negative then "-" else "") ++ String.ofList (placed places (unitsOf places m e))
  | .infinite negative => if negative then "-inf" else "inf"
  | .nan => "NaN"

end PatternScript.Number
