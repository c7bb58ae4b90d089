import PatternScript.Refusal

/-!
# Texts in JSON

What can be wrong with a JSON text, and the reading of quoted texts. Every step gives
back what follows it, and that is shorter than before, so that reading ends.
-/
namespace PatternScript.Json

inductive Fault
  | malformed
  | mismatch
  | truncated
  deriving DecidableEq, Repr

abbrev Shorter (cs : List Char) := { rest : List Char // rest.length < cs.length }

abbrev NoLonger (cs : List Char) := { rest : List Char // rest.length ≤ cs.length }

theorem length_le_self (cs : List Char) : cs.length ≤ cs.length := Nat.le_refl _

def NoLonger.whole (cs : List Char) : NoLonger cs := ⟨cs, length_le_self cs⟩

abbrev Step (α : Type) (cs : List Char) := α × Shorter cs

def isSpace (c : Char) : Bool := c == ' ' || c == '\n' || c == '\t' || c == '\r'

def skipSpace (cs : List Char) : List Char := cs.dropWhile isSpace

theorem length_skipSpace_le (cs : List Char) : (skipSpace cs).length ≤ cs.length :=
  (List.dropWhile_sublist _).length_le

theorem length_lt_of_skipSpace {cs rest : List Char} {c : Char} (h : skipSpace cs = c :: rest) :
    rest.length < cs.length := by
  have := length_skipSpace_le cs
  rw [h, List.length_cons] at this
  omega

def hexDigit? (c : Char) : Option Nat :=
  if c.isDigit then some (c.toNat - '0'.toNat)
  else if 'a' ≤ c ∧ c ≤ 'f' then some (c.toNat - 'a'.toNat + 10)
  else if 'A' ≤ c ∧ c ≤ 'F' then some (c.toNat - 'A'.toNat + 10)
  else none

/-- Four hexadecimal digits; a text of fewer than four bytes is too short for them. -/
def readHex (cs : List Char) : Except Fault (Step Nat cs) :=
  match cs with
  | a :: b :: c :: d :: rest =>
    match hexDigit? a, hexDigit? b, hexDigit? c, hexDigit? d with
    | some w, some x, some y, some z =>
      .ok (((w * 16 + x) * 16 + y) * 16 + z, ⟨rest, by simp only [List.length_cons]; omega⟩)
    | _, _, _, _ => .error .malformed
  | short => .error (if (String.ofList short).utf8ByteSize < 4 then .truncated else .malformed)

def readPartner (cs : List Char) : Except Fault (Step Nat cs) :=
  match cs with
  | [] => .error .truncated
  | '\\' :: [] => .error .truncated
  | '\\' :: 'u' :: rest => do
    let (n, after) ← readHex rest
    return (n, ⟨after.1, by have := after.2; simp only [List.length_cons]; omega⟩)
  | _ => .error .malformed

/-- The character whose number follows `\u`. When halves of pairs are not `paired`, each
half counts as a character of its own. -/
def readNumbered (paired : Bool) (cs : List Char) : Except Fault (Step Char cs) := do
  let (high, rest) ← readHex cs
  if !paired || high < 0xD800 || 0xDFFF < high then return (Char.ofNat high, rest)
  else if 0xDC00 ≤ high then throw .malformed
  else
    let (low, after) ← readPartner rest.1
    if low < 0xDC00 || 0xDFFF < low then throw .malformed
    else
      return (Char.ofNat ((high - 0xD800) * 0x400 + (low - 0xDC00) + 0x10000),
        ⟨after.1, Nat.lt_trans after.2 rest.2⟩)

def escaped? : Char → Option Char
  | '"' => some '"'
  | '\\' => some '\\'
  | '/' => some '/'
  | 'b' => some '\x08'
  | 'f' => some '\x0c'
  | 'n' => some '\n'
  | 'r' => some '\r'
  | 't' => some '\t'
  | _ => none

def readChar (paired : Bool) (cs : List Char) : Except Fault (Step (Option Char) cs) :=
  match cs with
  | [] => .error .truncated
  | '"' :: rest => .ok (none, ⟨rest, by simp⟩)
  | '\\' :: [] => .error .truncated
  | '\\' :: 'u' :: rest => do
    let (c, after) ← readNumbered paired rest
    return (some c, ⟨after.1, by have := after.2; simp only [List.length_cons]; omega⟩)
  | '\\' :: c :: rest =>
    match escaped? c with
    | some e => .ok (some e, ⟨rest, by simp only [List.length_cons]; omega⟩)
    | none => .error .malformed
  | c :: rest => if c.toNat < 0x20 then .error .malformed else .ok (some c, ⟨rest, by simp⟩)

def readText (paired : Bool) (read : List Char) (cs : List Char) :
    Except Fault (Step String cs) := do
  let (c?, ⟨rest, shorter⟩) ← readChar paired cs
  match c? with
  | none => return (String.ofList read.reverse, ⟨rest, shorter⟩)
  | some c =>
    let (text, after) ← readText paired (c :: read) rest
    return (text, ⟨after.1, Nat.lt_trans after.2 shorter⟩)
termination_by cs.length

def readLetters : List Char → List Char → Except Fault (List Char)
  | [], cs => .ok cs
  | _ :: _, [] => .error .truncated
  | w :: word, c :: rest => if c = w then readLetters word rest else .error .malformed

theorem length_readLetters_le {word cs rest : List Char} (h : readLetters word cs = .ok rest) :
    rest.length ≤ cs.length := by
  fun_induction readLetters word cs with
  | case1 => simp_all
  | case2 => simp at h
  | case3 w word rest ih => have := ih h; simp only [List.length_cons]; omega
  | case4 => simp at h

end PatternScript.Json
