import PatternScript.Script.Word

/-!
# Expressions and conditions

Both are scanned into flat lists of tokens. An expression alternates operands and
arithmetic operators; a condition is two expressions around one comparison. A minus
sign belongs to the operand that directly follows it wherever an operand may stand.
-/
namespace PatternScript

namespace Expression

open Text (isAsciiBlank length_dropWhile_le)

def isNameChar (c : Char) : Bool := c.isAlphanum || c == '_'

abbrev Scanned (cs : List Char) := Token × { rest : List Char // rest.length ≤ cs.length }

def scanNumber (before cs : List Char) : Except ParseCause (Scanned cs) := do
  let token ← Token.ofDigits (before ++ cs.takeWhile Char.isDigit)
  return (token, ⟨cs.dropWhile Char.isDigit, length_dropWhile_le _ cs⟩)

def scanVariable (negated : Bool) (cs : List Char) : Except ParseCause (Scanned cs) := do
  let name := cs.takeWhile isNameChar
  let ref ← VarRef.ofName name negated ('$' :: name)
  return (.var ref, ⟨cs.dropWhile isNameChar, length_dropWhile_le _ cs⟩)

def scanComparison (c : Char) (cs : List Char) : Except ArithmeticFault (Scanned cs) :=
  let long (r : Comparison) : Scanned cs := (.compare r, ⟨cs.drop 1, (List.drop_sublist 1 cs).length_le⟩)
  let short (r : Comparison) : Scanned cs := (.compare r, ⟨cs, Nat.le_refl _⟩)
  let followed := cs.head?.any (· == '=')
  match c with
  | '<' => .ok (if followed then long .le else short .lt)
  | '>' => .ok (if followed then long .ge else short .gt)
  | '=' => if followed then .ok (long .eq) else .error .bareEquals
  | '!' => if followed then .ok (long .ne) else .error .bareBang
  | _ => .error (.strayCharacter c)

theorem scanComparison_of_stray {c : Char} {cs : List Char}
    (hc : ¬ (c = '=' ∨ c = '!' ∨ c = '<' ∨ c = '>')) :
    scanComparison c cs = .error (.strayCharacter c) := by
  unfold scanComparison
  dsimp only
  split <;> first | rfl | exact absurd (by decide) hc

def operator? : Char → Option Arithmetic
  | '+' => some .add
  | '-' => some .sub
  | '*' => some .mul
  | '/' => some .div
  | '%' => some .mod
  | _ => none

def scanToken (phrase : Phrase) (wantsOperand : Bool) (c : Char) (cs : List Char) :
    Except ParseCause (Scanned cs) :=
  let minus := c == '-' && wantsOperand
  if c.isDigit then do
    let (token, rest) ← scanNumber [c] cs
    return (token, rest)
  else if c = '$' then scanVariable false cs
  else if minus && cs.head?.any Char.isDigit then scanNumber [c] cs
  else if minus && cs.head?.any (· == '$') then do
    let (token, rest) ← scanVariable true (cs.drop 1)
    return (token, ⟨rest.1, Nat.le_trans rest.2 (List.drop_sublist 1 cs).length_le⟩)
  else match operator? c with
    | some o => .ok (.op o, ⟨cs, Nat.le_refl _⟩)
    | none =>
      if phrase = .condition then
        (scanComparison c cs).mapError (.arithmetic phrase)
      else .error (.arithmetic phrase (.strayCharacter c))

/-- All tokens of `cs`, of which the first stands where an operand may stand or not. -/
def scanFrom (phrase : Phrase) (wantsOperand : Bool) (cs : List Char) :
    Except ParseCause (List Token) :=
  match _h : cs.dropWhile isAsciiBlank with
  | [] => .ok []
  | c :: rest => do
    let (token, ⟨after, _⟩) ← scanToken phrase wantsOperand c rest
    let tokens ← scanFrom phrase token.isOperator after
    return token :: tokens
termination_by cs.length
decreasing_by
  have h₁ := length_dropWhile_le isAsciiBlank cs
  rw [_h, List.length_cons] at h₁
  omega

def scan (phrase : Phrase) (cs : List Char) : Except ParseCause (List Token) :=
  scanFrom phrase true cs

/-- Checks that operands and operators alternate and that an operand comes last. -/
def checkAlternation (wantsOperand : Bool) : List Token → Except ArithmeticFault Unit
  | [] => if wantsOperand then .error .endsWithOperator else .ok ()
  | t :: rest =>
    match wantsOperand, t with
    | true, .int _ | true, .var _ => checkAlternation false rest
    | false, .op _ => checkAlternation true rest
    | true, .op _ | true, .compare _ => .error (.operandExpected t)
    | _, _ => .error (.operatorExpected t)

def check (phrase : Phrase) (tokens : List Token) : Except ParseCause Unit :=
  (checkAlternation true tokens).mapError (.arithmetic phrase)

def parse (cs : List Char) : Except ParseCause (List Token) := do
  let tokens ← scan .expression cs
  if tokens ≠ [] then check .expression tokens
  return tokens

end Expression

namespace Condition

def split (tokens : List Token) : List Token × List Token :=
  (tokens.takeWhile (!·.isComparison), (tokens.dropWhile (!·.isComparison)).drop 1)

def parse (cs : List Char) : Except ParseCause (List Token) := do
  let tokens ← Expression.scan .condition cs
  if tokens = [] then throw .emptyCondition
  match tokens.countP (·.isComparison) with
  | 0 => throw .noComparison
  | 1 =>
    let (lhs, rhs) := split tokens
    if lhs = [] ∨ rhs = [] then throw .oneSided
    Expression.check .condition lhs
    Expression.check .condition rhs
    return tokens
  | _ => throw .manyComparisons

end Condition

end PatternScript
