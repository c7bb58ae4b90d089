import PatternScript.Bytes.Text
import PatternScript.Script.Arguments
import PatternScript.Script.Declaration

/-!
# Argument lists by their bytes
-/
namespace PatternScript.Bytes.Arguments

def readQuoted? (top : Nat) (key : String) (src : List UInt8) (start : Nat) (read : List UInt8)
    (pos : Nat) (h : start ≤ pos) : Checked (List UInt8 × { stop : Nat // start ≤ stop }) :=
  match _hpos : src[pos]? with
  | none => throw (.argument (.unterminatedText key))
  | some b =>
    if charOf b = '"' then do
      let ⟨next, _⟩ ← check (add? top pos 1)
      return (read, ⟨next, by omega⟩)
    else if charOf b = '\\' then do
      let ⟨after, _⟩ ← check (add? top pos 1)
      match src[after]? with
      | none => throw (.argument (.unterminatedText key))
      | some c =>
        if charOf c = '"' ∨ charOf c = '\\' then do
          let ⟨next, _⟩ ← check (add? top pos 2)
          readQuoted? top key src start (read ++ [c]) next (by omega)
        else do
          let ⟨next, _⟩ ← check (add? top pos 1)
          readQuoted? top key src start (read ++ [b]) next (by omega)
    else do
      let ⟨next, _⟩ ← check (add? top pos 1)
      readQuoted? top key src start (read ++ [b]) next (by omega)
termination_by src.length - pos
decreasing_by all_goals have := (List.getElem?_eq_some_iff.1 _hpos).1; omega

def isSeparated? (src : List UInt8) (stop : Nat) : Option Bool :=
  if stop < src.length then src[stop]?.map fun b => Text.isAsciiBlank (charOf b) else some true

def readValue? (top : Nat) (key : String) (text : List Char) (pos : Nat) :
    Checked (Token × { stop : Nat // pos ≤ stop }) := do
  let src := ofText text
  let ⟨start, hstart⟩ ← check (skip? top Text.isAsciiBlank src pos pos (Nat.le_refl pos))
  if src.length ≤ start then throw (.argument (.missingValue key))
  else
    let b ← check src[start]?
    if charOf b = '"' then
      let ⟨body, _⟩ ← check (add? top start 1)
      let (read, ⟨stop, hstop⟩) ← readQuoted? top key src pos [] body (by omega)
      let separated ← check (isSeparated? src stop)
      if !separated then throw (.argument (.textNotSeparated key))
      else
        let value ← check (toText? read)
        return (.text (String.ofList value), ⟨stop, hstop⟩)
    else
      let ⟨stop, _⟩ ← check (skip? top (!Text.isAsciiBlank ·) src start start (Nat.le_refl start))
      let word ← check (slice? text start stop)
      let token ← ExceptT.mk (some (Token.ofWord word))
      return (token, ⟨stop, by omega⟩)

def readArgument? (top : Nat) (text : List Char) (pos : Nat) :
    Checked ((String × Token) × { stop : Nat // pos < stop }) := do
  let src := ofText text
  let inKey := fun c => c != '=' && !Text.isAsciiBlank c
  let ⟨stop, _⟩ ← check (skip? top inKey src pos pos (Nat.le_refl pos))
  let word ← check (slice? text pos stop)
  let key := String.ofList (Text.upper word)
  if Text.upper word = [] then
    let near ← check (dropTo? text pos)
    throw (.argument (.emptyKey (String.ofList near)))
  else
    let ⟨mark, _⟩ ← check (skip? top Text.isAsciiBlank src stop stop (Nat.le_refl stop))
    if src.length ≤ mark then throw (.argument (.missingEquals key))
    else
      let b ← check src[mark]?
      if charOf b ≠ '=' then throw (.argument (.missingEquals key))
      else
        let ⟨after, _⟩ ← check (add? top mark 1)
        let (token, ⟨next, _⟩) ← readValue? top key text after
        return ((key, token), ⟨next, by omega⟩)

def readInto? (top : Nat) (text : List Char) (read : Arguments) (pos : Nat) :
    Checked Arguments := do
  let ⟨start, _⟩ ← check (skip? top Text.isAsciiBlank (ofText text) pos pos (Nat.le_refl pos))
  if _hstart : (ofText text).length ≤ start then return read
  else
    let ((key, token), ⟨next, _⟩) ← readArgument? top text start
    if read.contains key then throw (.argument (.duplicateKey key))
    else readInto? top text (read.set key token) next
termination_by (ofText text).length - pos

def parse? (top : Nat) (cs : List Char) : Checked Arguments := readInto? top cs .empty 0

def parseDeclared? (top : Nat) (declared : List String) (cs : List Char) : Checked Arguments := do
  let args ← parse? top cs
  ExceptT.mk (some (Token.checkAllDeclared declared args.values))
  return args

end PatternScript.Bytes.Arguments
