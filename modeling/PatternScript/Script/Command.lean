import PatternScript.Picture.Color
import PatternScript.Picture.Pattern
import PatternScript.Script.Arguments

/-!
# Commands

A script is a tree of commands: actions, and the two kinds of block that hold further
commands. Each command knows its line. A summary is the command's header in the form
of the language, with every token in its written form.
-/
namespace PatternScript

inductive Action
  /-- `VAR`; without an expression the variable starts at zero. -/
  | declare (name : String) (init : List Token)
  | assign (name : String) (value : List Token)
  | color (args : Arguments)
  | fill (args : Arguments)
  | resetTransforms
  | translate (args : Arguments)
  | rotate (args : Arguments)
  | scale (args : Arguments)
  | draw (shape : Shape) (args : Arguments)

inductive Command
  | act (line : Nat) (action : Action)
  | loop (line : Nat) (count : Token) (body : List Command)
  | choice (line : Nat) (condition : List Token) (yes no : List Command)

namespace Action

def keyword : Action → String
  | declare .. => "VAR"
  | assign .. => "LET"
  | color _ => "COLOR"
  | fill _ => "FILL"
  | resetTransforms => "RESET_TRANSFORMS"
  | translate _ => "TRANSLATE"
  | rotate _ => "ROTATE"
  | scale _ => "SCALE"
  | draw shape _ => shape.name

def args? : Action → Option Arguments
  | color args | fill args | translate args | rotate args | scale args | draw _ args => some args
  | declare .. | assign .. | resetTransforms => none

def summary : Action → String
  | declare name [] => s!"VAR {name}"
  | declare name init => s!"VAR {name} = {Token.writtenAll init}"
  | assign name value => s!"LET {name} = {Token.writtenAll value}"
  | a => " ".intercalate (a.keyword :: (a.args?.getD .empty).entries.map fun (k, v) =>
      s!"{k}={v.written}")

end Action

namespace Command

def line : Command → Nat
  | act line _ | loop line .. | choice line .. => line

def keyword : Command → String
  | act _ a => a.keyword
  | loop .. => BlockKind.loop.keyword
  | choice .. => BlockKind.choice.keyword

def summary : Command → String
  | act _ a => a.summary
  | loop _ count _ => s!"REPEAT COUNT={count.written} TIMES"
  | choice _ condition _ _ => s!"IF {Token.writtenAll condition} THEN"

end Command

structure Script where
  commands : List Command := []
  patterns : PatternTable := .empty
  declared : List String := []

end PatternScript
