import PatternScript.Script.Command
import PatternScript.Script.Expression

/-!
# Variables and the headers of blocks

Readers for the commands with a form of their own: `VAR`, `LET`, `REPEAT` and `IF`.
Each gets the trimmed text after the keyword and the variables declared on earlier
lines; a variable may be used only when it is one of these or the host provides it.
-/
namespace PatternScript

namespace Token

def checkDeclared (declared : List String) : Token → Except ParseCause Unit
  | var v =>
    if isEnvironmentName v.name || declared.contains v.name then .ok ()
    else .error (.undefined v.name)
  | int _ | text _ | op _ | compare _ => .ok ()

def checkAllDeclared (declared : List String) (ts : List Token) : Except ParseCause Unit :=
  ts.forM (checkDeclared declared)

end Token

def Arguments.parseDeclared (declared : List String) (cs : List Char) :
    Except ParseCause Arguments := do
  let args ← Arguments.parse cs
  Token.checkAllDeclared declared args.values
  return args

def Expression.parseDeclared (declared : List String) (cs : List Char) :
    Except ParseCause (List Token) := do
  let tokens ← Expression.parse cs
  Token.checkAllDeclared declared tokens
  return tokens

namespace Declaration

def fullName (bare : List Char) : String := String.ofList ('$' :: Text.upper bare)

/-- The name that a `VAR` introduces and its initial value. The initial value may be
faulty although the name is accepted; it cannot use the name itself. -/
def readVar (declared : List String) (args : List Char) :
    Except ParseCause (String × Except ParseCause (List Token)) := do
  let '$' :: rest := args | throw .varWithoutDollar
  let (bare, init?) := match Text.cut? '=' rest with
    | some (before, after) => (Text.trim before, some (Text.trim after))
    | none => (Text.trim rest, none)
  if bare.any Text.isAsciiBlank then throw .varForm
  if !isIdentifier bare then throw (.variableName (String.ofList ('$' :: bare)))
  let name := fullName bare
  if isEnvironmentName name then throw (.declareEnvironment name)
  if declared.contains name then throw (.redeclared name)
  return (name, match init? with
    | none => .ok []
    | some [] => .error .initialValueMissing
    | some init => Expression.parseDeclared declared init)

theorem readVar_of_noDollar (declared : List String) {args : List Char}
    (h : ∀ rest, args ≠ '$' :: rest) : readVar declared args = .error .varWithoutDollar := by
  unfold readVar
  split
  next rest => exact absurd rfl (h rest)
  next => rfl

def readLet (declared : List String) (args : List Char) : Except ParseCause Action := do
  let some (before, after) := Text.cut? '=' args | throw .letWithoutEquals
  let target := Text.trim before
  let value := Text.trim after
  let '$' :: bare := target | throw .letWithoutDollar
  if !isIdentifier bare then throw (.variableName (String.ofList target))
  let name := fullName bare
  if isEnvironmentName name then throw (.assignEnvironment name)
  if !declared.contains name then throw (.assignUndeclared name)
  if value = [] then throw .assignedValueMissing
  return .assign name (← Expression.parseDeclared declared value)

theorem readLet_of_noDollar (declared : List String) {args before after : List Char}
    (hcut : Text.cut? '=' args = some (before, after))
    (h : ∀ bare, Text.trim before ≠ '$' :: bare) :
    readLet declared args = .error .letWithoutDollar := by
  unfold readLet
  rw [hcut]
  dsimp only
  split
  next bare hbare => exact absurd hbare (h bare)
  next => rfl

def readCount (declared : List String) (args : List Char) : Except ParseCause Token := do
  if !Text.sameAscii (args.take 5) "COUNT".toList then throw .countMissing
  let '=' :: rest := Text.trimStart (args.drop 5) | throw .countMissing
  let word :: trailing := Text.words rest | throw .countEmpty
  let extra := match trailing with
    | [w] => if Text.sameAscii w "TIMES".toList then [] else [w]
    | ws => ws
  if extra ≠ [] then throw (.afterCount (" ".intercalate (extra.map String.ofList)))
  let count ← Token.ofWord word
  if !count.isOperand then throw (.countKind (String.ofList word))
  count.checkDeclared declared
  return count

theorem readCount_of_noEquals (declared : List String) {args : List Char}
    (h : ∀ rest, Text.trimStart (args.drop 5) ≠ '=' :: rest) :
    readCount declared args = .error .countMissing := by
  unfold readCount
  cases Text.sameAscii (args.take 5) "COUNT".toList with
  | false => rfl
  | true =>
    rw [Bool.not_true, if_neg Bool.false_ne_true]
    dsimp only
    split
    next rest hrest => exact absurd hrest (h rest)
    next => rfl

def readCondition (declared : List String) (args : List Char) :
    Except ParseCause (List Token) := do
  let header := Text.trimEnd args
  let before := header.take (header.length - 4)
  let after := header.drop (header.length - 4)
  if !(Text.sameAscii after "THEN".toList && before.getLast?.all Text.isAsciiBlank) then
    throw .thenMissing
  let tokens ← Condition.parse before
  Token.checkAllDeclared declared tokens
  return tokens

end Declaration

end PatternScript
