import PatternScript.NameMap
import PatternScript.Script.Word

/-!
# Argument lists

`KEY=VALUE` pairs separated by ASCII blanks, which may also stand around the equals
sign. Keys are kept in upper case and may occur once. A value in quotes is a text in
which a backslash protects a quote or another backslash and otherwise stands for itself.
-/
namespace PatternScript

abbrev Arguments := NameMap Token

namespace Arguments

open Text (isAsciiBlank length_dropWhile_le)

def skipBlanks (cs : List Char) : List Char := cs.dropWhile isAsciiBlank

theorem length_skipBlanks_le (cs : List Char) : (skipBlanks cs).length ≤ cs.length :=
  length_dropWhile_le _ cs

/-- The text up to the closing quote and what follows it; `read` holds, last first, what
was read already. -/
def readQuoted (read : List Char) : List Char → Option (List Char × List Char)
  | [] => none
  | c :: rest =>
    if c = '"' then some (read.reverse, rest)
    else if c = '\\' then
      match rest with
      | [] => none
      | d :: tail =>
        if d = '"' ∨ d = '\\' then readQuoted (d :: read) tail
        else readQuoted (c :: read) (d :: tail)
    else readQuoted (c :: read) rest

theorem length_of_readQuoted {read cs text rest : List Char}
    (h : readQuoted read cs = some (text, rest)) : rest.length < cs.length := by
  fun_induction readQuoted read cs with
  | case1 => simp at h
  | case2 => simp_all
  | case3 => simp at h
  | case4 read tail d hq hb ih => have := ih h; simp only [List.length_cons]; omega
  | case5 read tail d hq hb ih => have := ih h; simp only [List.length_cons] at *; omega
  | case6 read c rest hq hb ih => have := ih h; simp only [List.length_cons]; omega

def readValue (key : String) (cs : List Char) :
    Except ParseCause (Token × { rest : List Char // rest.length ≤ cs.length }) :=
  match h : skipBlanks cs with
  | [] => .error (.argument (.missingValue key))
  | '"' :: body =>
    match hq : readQuoted [] body with
    | none => .error (.argument (.unterminatedText key))
    | some (text, rest) =>
      if rest.head?.all isAsciiBlank then
        .ok (.text (String.ofList text), ⟨rest, by
          have h₁ := length_skipBlanks_le cs
          have h₂ := length_of_readQuoted hq
          rw [h, List.length_cons] at h₁
          omega⟩)
      else .error (.argument (.textNotSeparated key))
  | value => do
    let token ← Token.ofWord (value.takeWhile (!isAsciiBlank ·))
    return (token, ⟨value.dropWhile (!isAsciiBlank ·), by
      have h₁ := length_skipBlanks_le cs
      have h₂ := length_dropWhile_le (!isAsciiBlank ·) value
      rw [h] at h₁
      omega⟩)

def readArgument (cs : List Char) :
    Except ParseCause ((String × Token) × { rest : List Char // rest.length < cs.length }) :=
  let inKey := fun c => c != '=' && !isAsciiBlank c
  let key := String.ofList (Text.upper (cs.takeWhile inKey))
  if cs.takeWhile inKey = [] then .error (.argument (.emptyKey (String.ofList cs)))
  else match h : skipBlanks (cs.dropWhile inKey) with
    | '=' :: after => do
      let (token, rest) ← readValue key after
      return ((key, token), ⟨rest.1, by
        have h₁ := length_skipBlanks_le (cs.dropWhile inKey)
        have h₂ := length_dropWhile_le inKey cs
        have h₃ := rest.2
        rw [h, List.length_cons] at h₁
        omega⟩)
    | _ => .error (.argument (.missingEquals key))

def readInto (read : Arguments) (cs : List Char) : Except ParseCause Arguments :=
  match _h : skipBlanks cs with
  | [] => .ok read
  | c :: rest => do
    let ((key, token), ⟨after, _⟩) ← readArgument (c :: rest)
    if read.contains key then .error (.argument (.duplicateKey key))
    else readInto (read.set key token) after
termination_by cs.length
decreasing_by
  have h₁ := length_skipBlanks_le cs
  rw [_h] at h₁
  omega

def parse (cs : List Char) : Except ParseCause Arguments := readInto .empty cs

end Arguments

end PatternScript
