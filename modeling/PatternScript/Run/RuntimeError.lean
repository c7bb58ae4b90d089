import PatternScript.Script.Token

/-!
# What can go wrong while a script runs

No fault stops a run: the value at fault becomes zero, or the command has no effect, and
the fault is recorded with the line of the command.
-/
namespace PatternScript

inductive RuntimeCode
  | unresolved
  | divisionByZero
  | moduloByZero
  | indexOutsideLoop
  | malformed
  | undeclared
  | color
  | pattern
  | negativeCount
  deriving DecidableEq, Repr

def RuntimeCode.label : RuntimeCode → String
  | unresolved => "R001"
  | divisionByZero => "R002"
  | moduloByZero => "R003"
  | indexOutsideLoop => "R004"
  | malformed => "R005"
  | undeclared => "R006"
  | color => "R007"
  | pattern => "R008"
  | negativeCount => "R009"

inductive RuntimeCause
  | undefined (name : String)
  | divisionByZero
  | moduloByZero
  | indexOutsideLoop
  | emptyExpression
  | malformedNear (found : Token)
  | endsWithOperator
  | comparisonCount (count : Nat)
  | notInteger (found : Token)
  | assignUndeclared (name : String)
  | notColor (found : Token)
  | fillUnknown (name : String)
  | fillNotName (found : Token)
  | stampUnknown (name : String)
  | negativeCount (count : Int32)
  deriving DecidableEq

namespace RuntimeCause

def code : RuntimeCause → RuntimeCode
  | undefined _ => .unresolved
  | divisionByZero => .divisionByZero
  | moduloByZero => .moduloByZero
  | indexOutsideLoop => .indexOutsideLoop
  | emptyExpression | malformedNear _ | endsWithOperator | comparisonCount _ | notInteger _ =>
    .malformed
  | assignUndeclared _ => .undeclared
  | notColor _ => .color
  | fillUnknown _ | fillNotName _ | stampUnknown _ => .pattern
  | negativeCount _ => .negativeCount

def message : RuntimeCause → String
  | undefined name => s!"Undefined variable: {name}"
  | divisionByZero => "Division by zero."
  | moduloByZero => "Modulo by zero."
  | indexOutsideLoop => "$INDEX used outside of a REPEAT loop."
  | emptyExpression => "Empty expression."
  | malformedNear found => s!"Malformed expression near '{found.written}'."
  | endsWithOperator => "Expression cannot end with an operator."
  | comparisonCount count =>
    s!"Condition must contain exactly one comparison operator, found {count}."
  | notInteger found => s!"Expected an integer, found {found.written}."
  | assignUndeclared name => s!"Cannot assign to undeclared variable: {name}"
  | notColor found =>
    s!"Invalid color {found.written}, expected BLACK or WHITE. Using BLACK."
  | fillUnknown name => s!"FILL: unknown pattern '{name}', using SOLID."
  | fillNotName found => s!"FILL: invalid pattern {found.written}, using SOLID."
  | stampUnknown name => s!"DRAW: unknown pattern '{name}', skipped."
  | negativeCount count => s!"REPEAT COUNT must be non-negative, got {count.toInt}."

end RuntimeCause

structure RuntimeError where
  line : Nat
  cause : RuntimeCause
  deriving DecidableEq

namespace RuntimeError

def code (e : RuntimeError) : RuntimeCode := e.cause.code

def message (e : RuntimeError) : String := e.cause.message

def text (e : RuntimeError) : String := s!"Runtime Error Line {e.line}: {e.message}"

end RuntimeError

end PatternScript
