import PatternScript.Script.Declaration
import PatternScript.Script.Definition

/-!
# Reading a script

A script is read line by line. Open blocks form a stack, and a finished block becomes
one command of the block around it. Every fault is recorded and none stops the reading:
a refused line leaves the commands, patterns and declarations as they were, except that
a faulty `REPEAT` or `IF` still opens its block and a faulty initial value still
declares its variable.
-/
namespace PatternScript

inductive PendingBlock
  | loop (line : Nat) (count : Token) (body : Array Command)
  /-- `no` is there once `ELSE` was met. -/
  | choice (line : Nat) (condition : List Token) (yes : Array Command)
      (no : Option (Array Command))

namespace PendingBlock

def line : PendingBlock → Nat
  | loop line .. | choice line .. => line

def kind : PendingBlock → BlockKind
  | loop .. => .loop
  | choice .. => .choice

def push (c : Command) : PendingBlock → PendingBlock
  | loop line count body => loop line count (body.push c)
  | choice line condition yes none => choice line condition (yes.push c) none
  | choice line condition yes (some no) => choice line condition yes (some (no.push c))

def close : PendingBlock → Command
  | loop line count body => .loop line count body.toList
  | choice line condition yes no => .choice line condition yes.toList (no.getD #[]).toList

end PendingBlock

structure Reading where
  commands : Array Command := #[]
  /-- The innermost block comes first. -/
  blocks : List PendingBlock := []
  patterns : PatternTable := .empty
  declared : List String := []
  errors : Array ParseError := #[]
  warnings : Array ParseWarning := #[]

namespace Reading

def push (r : Reading) (c : Command) : Reading :=
  match r.blocks with
  | [] => { r with commands := r.commands.push c }
  | b :: outer => { r with blocks := b.push c :: outer }

def refuse (r : Reading) (line : Nat) (cause : ParseCause) : Reading :=
  { r with errors := r.errors.push ⟨line, cause⟩ }

def warn (r : Reading) (line : Nat) (remarks : List ParseRemark) : Reading :=
  { r with warnings := r.warnings ++ remarks.map (ParseWarning.mk line) }

def orRefuse {α : Type} (r : Reading) (line : Nat) (read : Except ParseCause α)
    (go : α → Reading) : Reading :=
  match read with
  | .ok a => go a
  | .error cause => r.refuse line cause

def openLoop (r : Reading) (line : Nat) (args : List Char) : Reading :=
  let (r, count) := match Declaration.readCount r.declared args with
    | .ok count => (r, count)
    | .error cause => (r.refuse line cause, .int 0)
  { r with blocks := .loop line count #[] :: r.blocks }

def openChoice (r : Reading) (line : Nat) (args : List Char) : Reading :=
  let (r, condition) := match Declaration.readCondition r.declared args with
    | .ok condition => (r, condition)
    | .error cause => (r.refuse line cause, [])
  { r with blocks := .choice line condition #[] none :: r.blocks }

def turnToElse (r : Reading) (line : Nat) : Reading :=
  match r.blocks with
  | .choice start condition yes none :: outer =>
    { r with blocks := .choice start condition yes (some #[]) :: outer }
  | .choice start _ _ (some _) :: _ => r.refuse line (.elseTwice start)
  | .loop start _ _ :: _ => r.refuse line (.elseInside .loop start)
  | [] => r.refuse line .elseAlone

def close (r : Reading) (line : Nat) (expected : BlockKind) : Reading :=
  match r.blocks with
  | b :: outer =>
    if b.kind = expected then { r with blocks := outer }.push b.close
    else r.refuse line (.endInside expected b.kind b.line)
  | [] => r.refuse line (.endAlone expected)

def declare (r : Reading) (line : Nat) (args : List Char) : Reading :=
  r.orRefuse line (Declaration.readVar r.declared args) fun (name, init) =>
    let r := { r with declared := r.declared ++ [name] }
    r.orRefuse line init fun tokens => r.push (.act line (.declare name tokens))

def define (r : Reading) (line : Nat) (args : List Char) : Reading :=
  let (remarks, table) := Definition.read r.patterns args
  let r := r.warn line remarks
  r.orRefuse line table fun patterns => { r with patterns }

def pushWith (r : Reading) (line : Nat) (args : List Char) (make : Arguments → Action) : Reading :=
  r.orRefuse line (Arguments.parseDeclared r.declared args) fun a =>
    r.push (.act line (make a))

def ignoring (r : Reading) (line : Nat) (keyword : String) (args : List Char) : Reading :=
  if args.isEmpty then r else r.warn line [.ignoredArguments keyword (String.ofList args)]

/-- Reads one line, of which the keyword is in upper case and the rest is trimmed. -/
def readCommand (r : Reading) (line : Nat) (keyword : String) (args : List Char) : Reading :=
  match keyword with
  | "DEFINE" => r.define line args
  | "REPEAT" => r.openLoop line args
  | "IF" => r.openChoice line args
  | "ELSE" => (r.ignoring line keyword args).turnToElse line
  | "ENDIF" => (r.ignoring line keyword args).close line .choice
  | "ENDREPEAT" => (r.ignoring line keyword args).close line .loop
  | "VAR" => r.declare line args
  | "LET" => r.orRefuse line (Declaration.readLet r.declared args) fun a => r.push (.act line a)
  | "COLOR" => r.pushWith line args .color
  | "FILL" => r.pushWith line args .fill
  | "TRANSLATE" => r.pushWith line args .translate
  | "ROTATE" => r.pushWith line args .rotate
  | "SCALE" => r.pushWith line args .scale
  | "RESET_TRANSFORMS" => (r.ignoring line keyword args).push (.act line .resetTransforms)
  | _ =>
    match Shape.ofName? keyword with
    | some shape => r.pushWith line args (.draw shape)
    | none => r.refuse line (.unknownCommand keyword)

def readLine (r : Reading) (line : Nat) (text : List Char) : Reading :=
  match Text.trim text with
  | [] => r
  | '#' :: _ => r
  | trimmed =>
    let (keyword, args) := splitKeyword trimmed
    r.readCommand line (String.ofList keyword) args

def readLines (r : Reading) : Nat → List (List Char) → Reading
  | _, [] => r
  | line, text :: rest => (r.readLine line text).readLines (line + 1) rest

/-- Records the blocks that were never closed, the innermost first. -/
def finish (r : Reading) : Reading :=
  { r with
    blocks := []
    errors := r.errors ++ r.blocks.map fun b => ParseError.mk b.line (.unclosed b.kind b.line) }

def ofSource (source : String) : Reading :=
  (readLines {} 1 (Text.lines source.toList)).finish

def script (r : Reading) : Script := ⟨r.commands.toList, r.patterns, r.declared⟩

def result (r : Reading) : Except (List ParseError) Script :=
  if r.errors.isEmpty then .ok r.script else .error r.errors.toList

def remarks (r : Reading) : List String := r.warnings.toList.map ParseWarning.text

end Reading

def Script.compile (source : String) : Except (List ParseError) Script :=
  (Reading.ofSource source).result

end PatternScript
