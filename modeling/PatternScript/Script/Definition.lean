import PatternScript.Script.Command

/-!
# Pattern definitions

`DEFINE PATTERN` adds a pattern to the table. Its cells are the digits of `DATA`, filled
up with clear cells or cut to the size of the pattern.
-/
namespace PatternScript

inductive ParseRemark
  | ignoredArguments (keyword args : String)
  | largePattern (name : String) (width height : Nat)
  | paddedData (name : String) (found wanted : Nat)
  | truncatedData (name : String) (found wanted : Nat)
  deriving DecidableEq

def ParseRemark.message : ParseRemark → String
  | ignoredArguments keyword args =>
    s!"ignoring unexpected arguments after {keyword}: '{args}'"
  | largePattern name width height =>
    s!"pattern '{name}' is {width}x{height}, larger than the recommended " ++
      s!"{Pattern.advisedSide}x{Pattern.advisedSide}"
  | paddedData name found wanted =>
    s!"DATA for pattern '{name}' has {found} cells, padding to {wanted} with 0"
  | truncatedData name found wanted =>
    s!"DATA for pattern '{name}' has {found} cells, truncating to {wanted}"

structure ParseWarning where
  line : Nat
  remark : ParseRemark
  deriving DecidableEq

def ParseWarning.text (w : ParseWarning) : String := s!"Line {w.line}: {w.remark.message}"

namespace Definition

structure Fields where
  name : String
  width : Int32
  height : Int32
  data : List Char

def size (args : Arguments) (key : String) : Except ParseCause Int32 :=
  match args.get? key with
  | some (.int n) => .ok n
  | _ => .error (.patternSizeMissing key)

def text (args : Arguments) (key : String) : Except ParseCause String :=
  match args.get? key with
  | some (.text s) => .ok s
  | _ => .error (.patternTextMissing key)

def afterKeyword? (args : List Char) : Option (List Char) :=
  let rest := args.drop 7
  if Text.sameAscii (args.take 7) "PATTERN".toList && rest.head?.all Text.isAsciiBlank then
    some rest
  else none

def readFields (args : List Char) : Except ParseCause Fields := do
  let some rest := afterKeyword? args | throw .defineWithoutPattern
  let args ← Arguments.parse rest
  let name ← text args "NAME"
  if name.isEmpty then throw (.patternTextMissing "NAME")
  let width ← size args "WIDTH"
  let height ← size args "HEIGHT"
  let data ← text args "DATA"
  return ⟨name, width, height, data.toList⟩

def sizeFault? (f : Fields) : Option ParseCause :=
  if f.width ≤ 0 || f.height ≤ 0 then some .patternNotPositive
  else
    let w := f.width.toNatClampNeg
    let h := f.height.toNatClampNeg
    if Pattern.cellLimit < w * h then some (.patternTooLarge f.name w h) else none

def contentFault? (table : PatternTable) (f : Fields) : Option ParseCause :=
  if !f.data.all (fun c => c == '0' || c == '1') then some .patternData
  else if (table.find? f.name).isSome then some (.patternTaken f.name)
  else if Pattern.tableLimit ≤ table.size then some (.patternsFull Pattern.tableLimit)
  else none

def cells (data : List Char) (count : Nat) : Array UInt8 :=
  let digits := (data.take count).map fun c => if c == '1' then (1 : UInt8) else 0
  (digits ++ List.replicate (count - digits.length) 0).toArray

def pattern (f : Fields) : Pattern :=
  let w := f.width.toNatClampNeg
  let h := f.height.toNatClampNeg
  ⟨f.name, w, h, cells f.data (w * h)⟩

def sizeRemarks (f : Fields) : List ParseRemark :=
  let w := f.width.toNatClampNeg
  let h := f.height.toNatClampNeg
  if Pattern.advisedSide < w || Pattern.advisedSide < h then [.largePattern f.name w h] else []

def dataRemarks (f : Fields) : List ParseRemark :=
  let found := f.data.length
  let wanted := f.width.toNatClampNeg * f.height.toNatClampNeg
  if found < wanted then [.paddedData f.name found wanted]
  else if wanted < found then [.truncatedData f.name found wanted]
  else []

/-- What is odd about a definition, and the table after it or why it is refused. -/
def read (table : PatternTable) (args : List Char) :
    List ParseRemark × Except ParseCause PatternTable :=
  match readFields args with
  | .error cause => ([], .error cause)
  | .ok f =>
    match sizeFault? f with
    | some cause => ([], .error cause)
    | none =>
      match contentFault? table f with
      | some cause => (sizeRemarks f, .error cause)
      | none => (sizeRemarks f ++ dataRemarks f, .ok ((table.add? (pattern f)).getD table))

end Definition

end PatternScript
