import PatternScript.Bytes.Arguments
import PatternScript.Bytes.Expression
import PatternScript.Script.Reading

/-!
# Scripts by their bytes

The reader of scripts, with each line cut, scanned and numbered by checked operations.
-/
namespace PatternScript.Bytes

def word? (top : Nat) (n : Int32) : Option Nat :=
  if n < 0 ∨ top < n.toNatClampNeg then none else some n.toNatClampNeg

/-- A product of words, or the greatest word if the product is none. -/
def productOrTop (top a b : Nat) : Nat := min top (a * b)

def subtract? (a b : UInt8) : Option UInt8 := if b ≤ a then some (a - b) else none

namespace Declaration

open PatternScript.Declaration (fullName)

def readVar? (top : Nat) (declared : List String) (args : List Char) :
    Checked (String × Except ParseCause (List Token)) := do
  let '$' :: rest := args | throw .varWithoutDollar
  let (bare, init?) := match Text.cut? '=' rest with
    | some (before, after) => (Text.trim before, some (Text.trim after))
    | none => (Text.trim rest, none)
  if bare.any Text.isAsciiBlank then throw .varForm
  if !isIdentifier bare then throw (.variableName (String.ofList ('$' :: bare)))
  let name := fullName bare
  if isEnvironmentName name then throw (.declareEnvironment name)
  if declared.contains name then throw (.redeclared name)
  match init? with
  | none => return (name, .ok [])
  | some [] => return (name, .error .initialValueMissing)
  | some init =>
    let read ← check (Expression.parseDeclared? top declared init).run
    return (name, read)

theorem readVar?_of_noDollar (top : Nat) (declared : List String) {args : List Char}
    (h : ∀ rest, args ≠ '$' :: rest) :
    readVar? top declared args = throw .varWithoutDollar := by
  unfold readVar?
  split
  next rest => exact absurd rfl (h rest)
  next => rfl

def readLet? (top : Nat) (declared : List String) (args : List Char) : Checked Action := do
  let some (before, after) := Text.cut? '=' args | throw .letWithoutEquals
  let target := Text.trim before
  let value := Text.trim after
  let '$' :: bare := target | throw .letWithoutDollar
  if !isIdentifier bare then throw (.variableName (String.ofList target))
  let name := fullName bare
  if isEnvironmentName name then throw (.assignEnvironment name)
  if !declared.contains name then throw (.assignUndeclared name)
  if value = [] then throw .assignedValueMissing
  let tokens ← Expression.parseDeclared? top declared value
  return .assign name tokens

theorem readLet?_of_noDollar (top : Nat) (declared : List String) {args before after : List Char}
    (hcut : Text.cut? '=' args = some (before, after))
    (h : ∀ bare, Text.trim before ≠ '$' :: bare) :
    readLet? top declared args = throw .letWithoutDollar := by
  unfold readLet?
  rw [hcut]
  dsimp only
  split
  next bare hbare => exact absurd hbare (h bare)
  next => rfl

def afterPrefix? (keyword : String) (args : List Char) : Option (Option (List Char)) :=
  match takeTo? args keyword.length with
  | some start =>
    if Text.sameAscii start keyword.toList then (dropTo? args keyword.length).map some
    else some none
  | none => some none

def readCount? (declared : List String) (args : List Char) : Checked Token := do
  let some rest ← check (afterPrefix? "COUNT" args) | throw .countMissing
  let '=' :: rest := Text.trimStart rest | throw .countMissing
  let word :: trailing := Text.words rest | throw .countEmpty
  let extra := match trailing with
    | [w] => if Text.sameAscii w "TIMES".toList then [] else [w]
    | ws => ws
  if extra ≠ [] then throw (.afterCount (" ".intercalate (extra.map String.ofList)))
  let count ← ExceptT.mk (some (Token.ofWord word))
  if !count.isOperand then throw (.countKind (String.ofList word))
  ExceptT.mk (some (count.checkDeclared declared))
  return count

theorem readCount?_of_noEquals (declared : List String) {args rest : List Char}
    (hcount : afterPrefix? "COUNT" args = some (some rest))
    (h : ∀ after, Text.trimStart rest ≠ '=' :: after) :
    readCount? declared args = throw .countMissing := by
  unfold readCount?
  rw [hcount]
  change (match Text.trimStart rest with | '=' :: _ => _ | _ => _) = _
  split
  next after hafter => exact absurd hafter (h after)
  next => rfl

def beforeThen? (header : List Char) : Option (Option (List Char)) :=
  let size := (ofText header).length
  if size < 4 then some none
  else match dropTo? header (size - 4) with
    | none => some none
    | some after =>
      if Text.sameAscii after "THEN".toList then do
        let before ← takeTo? header (size - 4)
        return if before.getLast?.all Text.isAsciiBlank then some before else none
      else some none

def readCondition? (top : Nat) (declared : List String) (args : List Char) :
    Checked (List Token) := do
  let some before ← check (beforeThen? (Text.trimEnd args)) | throw .thenMissing
  let tokens ← Condition.parse? top before
  ExceptT.mk (some (Token.checkAllDeclared declared tokens))
  return tokens

end Declaration

namespace Definition

open PatternScript.Definition (Fields text size contentFault? sizeRemarks dataRemarks)

def afterKeyword? (args : List Char) : Option (Option (List Char)) := do
  let rest ← Declaration.afterPrefix? "PATTERN" args
  return rest.bind fun rest => if rest.head?.all Text.isAsciiBlank then some rest else none

def readFields? (top : Nat) (args : List Char) : Checked Fields := do
  let some rest ← check (afterKeyword? args) | throw .defineWithoutPattern
  let args ← Arguments.parse? top rest
  let name ← ExceptT.mk (some (text args "NAME"))
  if name.isEmpty then throw (.patternTextMissing "NAME")
  let width ← ExceptT.mk (some (size args "WIDTH"))
  let height ← ExceptT.mk (some (size args "HEIGHT"))
  let data ← ExceptT.mk (some (text args "DATA"))
  return ⟨name, width, height, data.toList⟩

def cells? (data : List Char) (count : Nat) : Option (Array UInt8) := do
  let digits ← (ofText data).mapM fun b => subtract? b '0'.toUInt8
  return (digits.take count ++ List.replicate (count - digits.length) 0).toArray

def read? (top : Nat) (table : PatternTable) (args : List Char) :
    Option (List ParseRemark × Except ParseCause PatternTable) := do
  match ← (readFields? top args).run with
  | .error cause => return ([], .error cause)
  | .ok f =>
    if f.width ≤ 0 || f.height ≤ 0 then return ([], .error .patternNotPositive)
    else
      let w ← word? top f.width
      let h ← word? top f.height
      let count := productOrTop top w h
      if Pattern.cellLimit < count then return ([], .error (.patternTooLarge f.name w h))
      else match contentFault? table f with
        | some cause => return (sizeRemarks f, .error cause)
        | none =>
          let cells ← cells? f.data count
          return (sizeRemarks f ++ dataRemarks f,
            .ok ((table.add? ⟨f.name, w, h, cells⟩).getD table))

end Definition

namespace Reading

open PatternScript (Reading)

def openLoopAs (r : Reading) (line : Nat) (read : Except ParseCause Token) : Reading :=
  let (r, count) := match read with
    | .ok count => (r, count)
    | .error cause => (r.refuse line cause, .int 0)
  { r with blocks := .loop line count #[] :: r.blocks }

def openChoiceAs (r : Reading) (line : Nat) (read : Except ParseCause (List Token)) : Reading :=
  let (r, condition) := match read with
    | .ok condition => (r, condition)
    | .error cause => (r.refuse line cause, [])
  { r with blocks := .choice line condition #[] none :: r.blocks }

def declareAs (r : Reading) (line : Nat)
    (read : Except ParseCause (String × Except ParseCause (List Token))) : Reading :=
  r.orRefuse line read fun (name, init) =>
    let r := { r with declared := r.declared ++ [name] }
    r.orRefuse line init fun tokens => r.push (.act line (.declare name tokens))

def defineAs (r : Reading) (line : Nat)
    (read : List ParseRemark × Except ParseCause PatternTable) : Reading :=
  let r := r.warn line read.1
  r.orRefuse line read.2 fun patterns => { r with patterns }

def pushAs {α : Type} (r : Reading) (line : Nat) (make : α → Action)
    (read : Except ParseCause α) : Reading :=
  r.orRefuse line read fun a => r.push (.act line (make a))

def readCommand? (top : Nat) (r : Reading) (line : Nat) (keyword : String) (args : List Char) :
    Option Reading :=
  let withArguments make :=
    (Arguments.parseDeclared? top r.declared args).run.map (pushAs r line make)
  match keyword with
  | "DEFINE" => (Definition.read? top r.patterns args).map (defineAs r line)
  | "REPEAT" => (Declaration.readCount? r.declared args).run.map (openLoopAs r line)
  | "IF" => (Declaration.readCondition? top r.declared args).run.map (openChoiceAs r line)
  | "ELSE" => some ((r.ignoring line keyword args).turnToElse line)
  | "ENDIF" => some ((r.ignoring line keyword args).close line .choice)
  | "ENDREPEAT" => some ((r.ignoring line keyword args).close line .loop)
  | "VAR" => (Declaration.readVar? top r.declared args).run.map (declareAs r line)
  | "LET" => (Declaration.readLet? top r.declared args).run.map (pushAs r line id)
  | "COLOR" => withArguments .color
  | "FILL" => withArguments .fill
  | "TRANSLATE" => withArguments .translate
  | "ROTATE" => withArguments .rotate
  | "SCALE" => withArguments .scale
  | "RESET_TRANSFORMS" =>
    some ((r.ignoring line keyword args).push (.act line .resetTransforms))
  | _ =>
    match Shape.ofName? keyword with
    | some shape => withArguments (.draw shape)
    | none => some (r.refuse line (.unknownCommand keyword))

def readLine? (top : Nat) (r : Reading) (line : Nat) (text : List Char) : Option Reading :=
  match Text.trim text with
  | [] => some r
  | '#' :: _ => some r
  | trimmed => do
    let (keyword, args) ← splitKeyword? trimmed
    readCommand? top r line (String.ofList keyword) args

def readLines? (top : Nat) (r : Reading) (passed : Nat) : List (List Char) → Option Reading
  | [] => some r
  | text :: rest => do
    let ⟨line, _⟩ ← add? top passed 1
    let r ← readLine? top r line text
    readLines? top r line rest

end Reading

def compile? (top : Nat) (source : String) : Option (Except (List ParseError) Script) :=
  (Reading.readLines? top {} 0 (Text.lines source.toList)).map fun r => r.finish.result

end PatternScript.Bytes
