import PatternScript.Script.Word

/-!
# Texts as bytes

A text stands in memory as its bytes in UTF-8. It is walked through by positions of bytes,
which are machine words, and cut where a character starts. Here every operation that can go
wrong is checked: a look-up past the end, a cut inside a character, bytes that are no text,
a sum or a difference that is no word. Where a check fails there is no result.
-/
namespace PatternScript.Bytes

/-- A reader that may also break off for want of a result. -/
abbrev Checked (α : Type) := ExceptT ParseCause Option α

def check {α : Type} (result : Option α) : Checked α := ExceptT.lift result

def ofText (cs : List Char) : List UInt8 := cs.flatMap String.utf8EncodeChar

def toText? (bytes : List UInt8) : Option (List Char) :=
  bytes.toByteArray.utf8Decode?.map Array.toList

/-- The character by which a byte is known; for the ASCII characters it is the one it encodes. -/
def charOf (b : UInt8) : Char := Char.ofNat b.toNat

def add? (top a b : Nat) : Option { n : Nat // n = a + b } :=
  if a + b ≤ top then some ⟨a + b, rfl⟩ else none

theorem lt_of_eq_add_one_of_le {pos start stop : Nat} (hstart : start = pos + 1)
    (hstop : start ≤ stop) : pos < stop := by
  omega

def dropTo? : List Char → Nat → Option (List Char)
  | cs, 0 => some cs
  | [], _ + 1 => none
  | c :: rest, pos + 1 =>
    if c.utf8Size ≤ pos + 1 then dropTo? rest (pos + 1 - c.utf8Size) else none

def takeTo? : List Char → Nat → Option (List Char)
  | _, 0 => some []
  | [], _ + 1 => none
  | c :: rest, pos + 1 =>
    if c.utf8Size ≤ pos + 1 then (takeTo? rest (pos + 1 - c.utf8Size)).map (c :: ·) else none

def slice? (text : List Char) (start stop : Nat) : Option (List Char) :=
  if start ≤ stop then (dropTo? text start).bind (takeTo? · (stop - start)) else none

def find? (p : Char → Bool) : List Char → Option Nat
  | [] => none
  | c :: rest => if p c then some 0 else (find? p rest).map (c.utf8Size + ·)

def skip? (top : Nat) (p : Char → Bool) (src : List UInt8) (start pos : Nat) (h : start ≤ pos) :
    Option { stop : Nat // start ≤ stop } :=
  if _hpos : pos < src.length then do
    let b ← src[pos]?
    if p (charOf b) then do
      let ⟨next, _⟩ ← add? top pos 1
      skip? top p src start next (by omega)
    else return ⟨pos, h⟩
  else return ⟨pos, h⟩
termination_by src.length - pos

def splitKeyword? (line : List Char) : Option (List Char × List Char) :=
  match find? Text.isAsciiBlank line with
  | some stop => do
    let keyword ← takeTo? line stop
    let rest ← dropTo? line stop
    return (Text.upper keyword, Text.trim rest)
  | none => some (Text.upper line, [])

end PatternScript.Bytes
