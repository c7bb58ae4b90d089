import PatternScript.Bytes.Text
import PatternScript.Script.Declaration

/-!
# Expressions and conditions by their bytes
-/
namespace PatternScript.Bytes

open PatternScript.Expression (isNameChar operator?)

namespace Expression

abbrev Scanned (pos : Nat) := Token × { stop : Nat // pos < stop }

def scanNumber? (top : Nat) (text : List Char) (start pos : Nat) (h : start < pos) :
    Checked (Scanned start) := do
  let ⟨stop, hstop⟩ ← check (skip? top Char.isDigit (ofText text) pos pos (Nat.le_refl pos))
  let word ← check (slice? text start stop)
  let token ← ExceptT.mk (some (Token.ofDigits word))
  return (token, ⟨stop, Nat.lt_of_lt_of_le h hstop⟩)

def scanVariable? (top : Nat) (negated : Bool) (text : List Char) (pos : Nat) :
    Checked (Scanned pos) := do
  let ⟨start, hstart⟩ ← check (add? top pos 1)
  let ⟨stop, hstop⟩ ← check (skip? top isNameChar (ofText text) start start (Nat.le_refl start))
  let name ← check (slice? text start stop)
  let ref ← ExceptT.mk (some (VarRef.ofName name negated ('$' :: name)))
  return (.var ref, ⟨stop, lt_of_eq_add_one_of_le hstart hstop⟩)

def symbol? (top : Nat) (token : Token) (pos width : Nat) (h : 0 < width) :
    Checked (Scanned pos) := do
  let ⟨stop, _⟩ ← check (add? top pos width)
  return (token, ⟨stop, by omega⟩)

def scanComparison? (top : Nat) (c next : Char) (pos : Nat) : Checked (Scanned pos) :=
  match c, next with
  | '=', '=' => symbol? top (.compare .eq) pos 2 (by decide)
  | '!', '=' => symbol? top (.compare .ne) pos 2 (by decide)
  | '<', '=' => symbol? top (.compare .le) pos 2 (by decide)
  | '>', '=' => symbol? top (.compare .ge) pos 2 (by decide)
  | '<', _ => symbol? top (.compare .lt) pos 1 (by decide)
  | '>', _ => symbol? top (.compare .gt) pos 1 (by decide)
  | '=', _ => throw (.arithmetic .condition .bareEquals)
  | _, _ => throw (.arithmetic .condition .bareBang)

def scanToken? (top : Nat) (phrase : Phrase) (wantsOperand : Bool) (text : List Char)
    (pos : Nat) : Checked (Scanned pos) := do
  let src := ofText text
  let b ← check src[pos]?
  let ⟨after, _⟩ ← check (add? top pos 1)
  let c := charOf b
  let next := charOf (src[after]?.getD 0)
  let minus := c == '-' && wantsOperand
  if c.isDigit then scanNumber? top text pos after (by omega)
  else if c = '$' then scanVariable? top false text pos
  else if minus && next.isDigit then scanNumber? top text pos after (by omega)
  else if minus && next == '$' then
    let (token, ⟨stop, _⟩) ← scanVariable? top true text after
    return (token, ⟨stop, by omega⟩)
  else match operator? c with
    | some o => symbol? top (.op o) pos 1 (by decide)
    | none =>
      if phrase = .condition ∧ (c = '=' ∨ c = '!' ∨ c = '<' ∨ c = '>') then
        scanComparison? top c next pos
      else
        let rest ← check (dropTo? text pos)
        throw (.arithmetic phrase (.strayCharacter (rest.head?.getD '?')))

def scanFrom? (top : Nat) (phrase : Phrase) (wantsOperand : Bool) (text : List Char)
    (pos : Nat) : Checked (List Token) := do
  let ⟨start, _⟩ ← check (skip? top Text.isAsciiBlank (ofText text) pos pos (Nat.le_refl pos))
  if _hstart : (ofText text).length ≤ start then return []
  else
    let (token, ⟨stop, _⟩) ← scanToken? top phrase wantsOperand text start
    let tokens ← scanFrom? top phrase token.isOperator text stop
    return token :: tokens
termination_by (ofText text).length - pos

def scan? (top : Nat) (phrase : Phrase) (cs : List Char) : Checked (List Token) :=
  scanFrom? top phrase true cs 0

def parse? (top : Nat) (cs : List Char) : Checked (List Token) := do
  let tokens ← scan? top .expression cs
  if tokens ≠ [] then ExceptT.mk (some (PatternScript.Expression.check .expression tokens))
  return tokens

def parseDeclared? (top : Nat) (declared : List String) (cs : List Char) :
    Checked (List Token) := do
  let tokens ← parse? top cs
  ExceptT.mk (some (Token.checkAllDeclared declared tokens))
  return tokens

end Expression

namespace Condition

def before? {α : Type} (index : Nat) (xs : List α) : Option (List α) :=
  if index ≤ xs.length then some (xs.take index) else none

def from? {α : Type} (index : Nat) (xs : List α) : Option (List α) :=
  if index ≤ xs.length then some (xs.drop index) else none

def comparisonsFrom (index : Nat) : List Token → List Nat
  | [] => []
  | t :: rest =>
    if t.isComparison then index :: comparisonsFrom (index + 1) rest
    else comparisonsFrom (index + 1) rest

def parse? (top : Nat) (cs : List Char) : Checked (List Token) := do
  let tokens ← Expression.scan? top .condition cs
  if tokens = [] then throw .emptyCondition
  else match comparisonsFrom 0 tokens with
    | [] => throw .noComparison
    | [index] =>
      let lhs ← check (before? index tokens)
      let ⟨next, _⟩ ← check (add? top index 1)
      let rhs ← check (from? next tokens)
      if lhs = [] ∨ rhs = [] then throw .oneSided
      else
        ExceptT.mk (some (PatternScript.Expression.check .condition lhs))
        ExceptT.mk (some (PatternScript.Expression.check .condition rhs))
        return tokens
    | _ => throw .manyComparisons

end Condition

end PatternScript.Bytes
