import PatternScript.Json.Text

/-!
# Numbers in JSON

A number without point and exponent is an integer as long as it fits 64 bits. Any other
is a double: its digits, as far as they fit 64 bits, times or divided by a power of ten.
A number beyond the range of doubles is refused.
-/
namespace PatternScript.Json

inductive Number
  | natural (n : Nat)
  /-- Stands for `-n`. -/
  | negative (n : Nat)
  | double (x : Float)

namespace Number

def wordLimit : Nat := 1 <<< 64

def digitValue (c : Char) : Nat := c.toNat - '0'.toNat

/-- Gathers digits for as long as they fit, and gives back the others. -/
def gather (n : Nat) : List Char → Nat × List Char
  | [] => (n, [])
  | d :: rest =>
    let next := n * 10 + digitValue d
    if next < wordLimit then gather next rest else (n, d :: rest)

/-- `x · 10 ^ e` in doubles, one or more operations of at most 308 powers each; nothing when
it is beyond their range. -/
def timesPower (x : Float) (e : Int) : Option Float :=
  if -308 ≤ e ∧ e ≤ 308 then
    let power := OfScientific.ofScientific 1 false e.natAbs
    if 0 ≤ e then (if (x * power).isInf then none else some (x * power)) else some (x / power)
  else if x == 0.0 then some x
  else if 0 ≤ e then none
  else timesPower (x / 1e308) (e + 308)
termination_by e.natAbs
decreasing_by omega

def signed (positive : Bool) (x : Float) : Float := if positive then x else -x

def ofParts (positive : Bool) (digits : Nat) (e : Int) : Except Fault Number :=
  match timesPower (Float.ofNat digits) e with
  | some x => .ok (.double (signed positive x))
  | none => .error .malformed

def isExponentMark (c : Char) : Bool := c == 'e' || c == 'E'

def readExponent (positive : Bool) (digits : Nat) (e : Int) (cs : List Char) :
    Except Fault (Number × List Char) := do
  let (up, cs) := match cs with
    | '+' :: rest => (true, rest)
    | '-' :: rest => (false, rest)
    | _ => (true, cs)
  let written := cs.takeWhile Char.isDigit
  let rest := cs.dropWhile Char.isDigit
  if written = [] then throw (if cs = [] then .truncated else .malformed)
  let size := Nat.ofDigitChars 10 written 0
  if 2147483647 < size then
    if digits ≠ 0 ∧ up then throw .malformed
    return (.double (signed positive 0.0), rest)
  return (← ofParts positive digits (if up then e + size else e - size), rest)

def readTail (positive : Bool) (digits : Nat) (e : Int) (cs : List Char) :
    Except Fault (Number × List Char) :=
  match cs with
  | c :: rest =>
    if isExponentMark c then readExponent positive digits e rest
    else return (← ofParts positive digits e, cs)
  | [] => return (← ofParts positive digits e, [])

def readFraction (positive : Bool) (digits : Nat) (e : Int) (cs : List Char) :
    Except Fault (Number × List Char) := do
  let written := cs.takeWhile Char.isDigit
  let rest := cs.dropWhile Char.isDigit
  if written = [] then throw (if cs = [] then .truncated else .malformed)
  let (digits, left) := gather digits written
  readTail positive digits (e - (written.length - left.length : Nat)) rest

def integer (positive : Bool) (n : Nat) : Number :=
  if positive then natural n
  else if 0 < n ∧ n ≤ 1 <<< 63 then negative n
  else double (-Float.ofNat n)

def read (positive : Bool) (cs : List Char) : Except Fault (Number × List Char) := do
  let written := cs.takeWhile Char.isDigit
  let rest := cs.dropWhile Char.isDigit
  if written = [] then throw (if cs = [] then .truncated else .malformed)
  if written.head? = some '0' ∧ 1 < written.length then throw .malformed
  let (n, left) := gather 0 written
  match rest with
  | '.' :: after => readFraction positive n left.length after
  | c :: after =>
    if isExponentMark c then readExponent positive n left.length after
    else if left = [] then return (integer positive n, rest)
    else return (← ofParts positive n left.length, rest)
  | [] =>
    if left = [] then return (integer positive n, [])
    else return (← ofParts positive n left.length, [])

def skipDigits (cs : List Char) : Except Fault (List Char) :=
  if (cs.takeWhile Char.isDigit).isEmpty then .error .malformed
  else .ok (cs.dropWhile Char.isDigit)

def skipExponent (cs : List Char) : Except Fault (List Char) :=
  match cs with
  | c :: rest =>
    if isExponentMark c then
      match rest with
      | s :: after => skipDigits (if s = '+' ∨ s = '-' then after else rest)
      | [] => .error .malformed
    else .ok cs
  | [] => .ok []

def skip (cs : List Char) : Except Fault (List Char) := do
  let rest ← skipDigits cs
  if cs.head? = some '0' ∧ 1 < (cs.takeWhile Char.isDigit).length then throw .malformed
  match rest with
  | '.' :: after => skipExponent (← skipDigits after)
  | _ => skipExponent rest

theorem rest_eq_of_ofParts {positive : Bool} {digits : Nat} {e : Int} {cs : List Char}
    {found : Number × List Char}
    (h : (do return (← ofParts positive digits e, cs)) = Except.ok found) : found.2 = cs := by
  obtain ⟨n, _, hn⟩ := bind_eq_ok.1 h
  cases hn; rfl

theorem length_readExponent_le {positive : Bool} {digits : Nat} {e : Int} {cs : List Char}
    {found : Number × List Char} (h : readExponent positive digits e cs = .ok found) :
    found.2.length ≤ cs.length := by
  have hd := fun l : List Char => (List.dropWhile_sublist (l := l) Char.isDigit).length_le
  unfold readExponent at h
  split at h
  rename_i up tail ht
  have hl : tail.length ≤ cs.length := by
    split at ht <;> cases ht <;> simp
  simp only [] at h
  split at h
  · cases h
  · split at h
    · split at h
      · cases h
      · cases h; exact Nat.le_trans (hd tail) hl
    · rw [rest_eq_of_ofParts h]; exact Nat.le_trans (hd tail) hl

theorem length_readTail_le {positive : Bool} {digits : Nat} {e : Int} {cs : List Char}
    {found : Number × List Char} (h : readTail positive digits e cs = .ok found) :
    found.2.length ≤ cs.length := by
  unfold readTail at h
  split at h
  · split at h
    · exact Nat.le_succ_of_le (length_readExponent_le h)
    · exact Nat.le_of_eq (congrArg List.length (rest_eq_of_ofParts h))
  · exact Nat.le_of_eq (congrArg List.length (rest_eq_of_ofParts h))

theorem length_readFraction_le {positive : Bool} {digits : Nat} {e : Int} {cs : List Char}
    {found : Number × List Char} (h : readFraction positive digits e cs = .ok found) :
    found.2.length ≤ cs.length := by
  unfold readFraction at h
  simp only [] at h
  split at h
  · cases h
  · exact Nat.le_trans (length_readTail_le h) (List.dropWhile_sublist _).length_le

theorem length_dropWhile_lt {p : Char → Bool} {cs : List Char} (h : cs.takeWhile p ≠ []) :
    (cs.dropWhile p).length < cs.length := by
  have := congrArg List.length (List.takeWhile_append_dropWhile (p := p) (l := cs))
  have := List.length_pos_iff.2 h
  simp only [List.length_append] at *
  omega

theorem length_read_lt {positive : Bool} {cs : List Char} {found : Number × List Char}
    (h : read positive cs = .ok found) : found.2.length < cs.length := by
  unfold read at h
  simp only [] at h
  split at h
  · cases h
  rename_i hw
  have hd := length_dropWhile_lt hw
  split at h
  · cases h
  split at h
  · rename_i heq
    rw [heq, List.length_cons] at hd
    exact Nat.lt_of_le_of_lt (length_readFraction_le h) (by omega)
  · rename_i heq
    split at h
    · rw [heq, List.length_cons] at hd
      exact Nat.lt_of_le_of_lt (length_readExponent_le h) (by omega)
    · split at h
      · cases h; exact hd
      · rw [rest_eq_of_ofParts h]; exact hd
  · rename_i heq
    split at h
    · cases h; exact Nat.zero_lt_of_lt hd
    · rw [rest_eq_of_ofParts h]; exact Nat.zero_lt_of_lt hd

theorem length_skipDigits_lt {cs rest : List Char} (h : skipDigits cs = .ok rest) :
    rest.length < cs.length := by
  unfold skipDigits at h
  split at h
  · cases h
  · rename_i hw; cases h; exact length_dropWhile_lt (by simpa using hw)

theorem length_skipExponent_le {cs rest : List Char} (h : skipExponent cs = .ok rest) :
    rest.length ≤ cs.length := by
  unfold skipExponent at h
  split at h
  · split at h
    · split at h
      · have := length_skipDigits_lt h
        split at this <;> simp only [List.length_cons] at * <;> omega
      · cases h
    · cases h; exact Nat.le_refl _
  · cases h; exact Nat.le_refl _

theorem length_skip_lt {cs rest : List Char} (h : skip cs = .ok rest) :
    rest.length < cs.length := by
  unfold skip at h
  obtain ⟨mid, hm, h⟩ := bind_eq_ok.1 h
  have hd := length_skipDigits_lt hm
  simp only [] at h
  split at h
  · cases h
  split at h
  · obtain ⟨last, hl, h⟩ := bind_eq_ok.1 h
    have h₂ := length_skipDigits_lt hl
    have h₃ := length_skipExponent_le h
    simp only [List.length_cons] at hd
    omega
  · exact Nat.lt_of_le_of_lt (length_skipExponent_le h) hd

end Number

end PatternScript.Json
