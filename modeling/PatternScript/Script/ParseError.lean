import PatternScript.Script.Token

/-!
# What can be wrong with a script

Each rejected line has one cause. The category of a cause and its wording are
functions of the cause, so nothing else in the library speaks of either.
-/
namespace PatternScript

inductive ParseCode
  | unknownCommand
  | malformedArguments
  | missingArgument
  | integerLiteral
  | undeclared
  | redeclared
  | environment
  | variableName
  | expression
  | condition
  | terminator
  | openBlock
  | pattern
  deriving DecidableEq, Repr

def ParseCode.label : ParseCode → String
  | unknownCommand => "P001"
  | malformedArguments => "P002"
  | missingArgument => "P003"
  | integerLiteral => "P004"
  | undeclared => "P005"
  | redeclared => "P006"
  | environment => "P007"
  | variableName => "P008"
  | expression => "P009"
  | condition => "P010"
  | terminator => "P011"
  | openBlock => "P012"
  | pattern => "P013"

inductive BlockKind
  | loop
  | choice
  deriving DecidableEq, Repr

def BlockKind.keyword : BlockKind → String
  | loop => "REPEAT"
  | choice => "IF"

/-- Where arithmetic stands: on its own, or as a side of a condition. -/
inductive Phrase
  | expression
  | condition
  deriving DecidableEq, Repr

def Phrase.code : Phrase → ParseCode
  | expression => .expression
  | condition => .condition

inductive ArgumentFault
  | emptyKey (near : String)
  | missingEquals (key : String)
  | missingValue (key : String)
  | unterminatedText (key : String)
  | textNotSeparated (key : String)
  | duplicateKey (key : String)
  deriving DecidableEq

def ArgumentFault.message : ArgumentFault → String
  | emptyKey near => s!"Empty parameter name near '{near}'."
  | missingEquals key => s!"Missing '=' after parameter name '{key}'."
  | missingValue key => s!"Missing value for parameter '{key}'."
  | unterminatedText key => s!"Unterminated string literal for parameter '{key}'."
  | textNotSeparated key => s!"Expected whitespace after quoted value of '{key}'."
  | duplicateKey key => s!"Duplicate parameter '{key}'."

inductive ArithmeticFault
  | strayCharacter (c : Char)
  | bareEquals
  | bareBang
  | operandExpected (found : Token)
  | operatorExpected (found : Token)
  | endsWithOperator
  deriving DecidableEq

def ArithmeticFault.message : ArithmeticFault → String
  | strayCharacter c => s!"Invalid character in expression: '{c}'"
  | bareEquals => "Use '==' for comparison, found bare '='."
  | bareBang => "Use '!=' for comparison, found bare '!'."
  | operandExpected found => s!"Expected number or variable, found '{found.written}'."
  | operatorExpected found => s!"Expected operator (+ - * / %), found '{found.written}'."
  | endsWithOperator => "Expression cannot end with an operator."

inductive ParseCause
  | unknownCommand (name : String)
  | defineWithoutPattern
  | argument (fault : ArgumentFault)
  | varForm
  | letWithoutEquals
  | afterCount (rest : String)
  | countMissing
  | countEmpty
  | countKind (found : String)
  | patternTextMissing (key : String)
  | patternSizeMissing (key : String)
  | integerRange (literal : String)
  | undefined (name : String)
  | assignUndeclared (name : String)
  | redeclared (name : String)
  | declareEnvironment (name : String)
  | assignEnvironment (name : String)
  | variableName (written : String)
  | varWithoutDollar
  | letWithoutDollar
  | initialValueMissing
  | assignedValueMissing
  | arithmetic (phrase : Phrase) (fault : ArithmeticFault)
  | emptyCondition
  | noComparison
  | manyComparisons
  | oneSided
  | thenMissing
  | elseAlone
  | elseTwice (start : Nat)
  | elseInside (kind : BlockKind) (start : Nat)
  | endAlone (expected : BlockKind)
  | endInside (expected found : BlockKind) (start : Nat)
  | unclosed (kind : BlockKind) (start : Nat)
  | patternNotPositive
  | patternTooLarge (name : String) (width height : Nat)
  | patternData
  | patternTaken (name : String)
  | patternsFull (limit : Nat)
  deriving DecidableEq

namespace ParseCause

def code : ParseCause → ParseCode
  | unknownCommand _ | defineWithoutPattern => .unknownCommand
  | argument _ | varForm | letWithoutEquals | afterCount _ => .malformedArguments
  | countMissing | countEmpty | countKind _ | patternTextMissing _ | patternSizeMissing _ =>
    .missingArgument
  | integerRange _ => .integerLiteral
  | undefined _ | assignUndeclared _ => .undeclared
  | redeclared _ => .redeclared
  | declareEnvironment _ | assignEnvironment _ => .environment
  | variableName _ | varWithoutDollar | letWithoutDollar => .variableName
  | initialValueMissing | assignedValueMissing => .expression
  | arithmetic phrase _ => phrase.code
  | emptyCondition | noComparison | manyComparisons | oneSided | thenMissing => .condition
  | elseAlone | elseTwice _ | elseInside .. | endAlone _ | endInside .. => .terminator
  | unclosed .. => .openBlock
  | patternNotPositive | patternTooLarge .. | patternData | patternTaken _ | patternsFull _ =>
    .pattern

def message : ParseCause → String
  | unknownCommand name => s!"Unknown command: {name}"
  | defineWithoutPattern => "DEFINE command must be followed by 'PATTERN'."
  | argument fault => fault.message
  | varForm => "Invalid VAR syntax. Use 'VAR $name' or 'VAR $name = expression'."
  | letWithoutEquals => "LET statement requires '=' for assignment."
  | afterCount rest => s!"Unexpected characters after COUNT value in REPEAT command: '{rest}'"
  | countMissing => "REPEAT requires COUNT= parameter."
  | countEmpty => "Missing value for REPEAT COUNT."
  | countKind found =>
    s!"REPEAT COUNT value must be an integer or a variable ($var). Got: {found}"
  | patternTextMissing key => s!"DEFINE PATTERN requires {key}=\"...\" parameter."
  | patternSizeMissing key => s!"DEFINE PATTERN requires {key}=... parameter."
  | integerRange literal => s!"Integer literal out of range: {literal}"
  | undefined name => s!"Undefined variable: {name}"
  | assignUndeclared name => s!"Cannot assign to undeclared variable: {name}"
  | redeclared name => s!"Variable '{name}' already declared."
  | declareEnvironment name =>
    s!"Cannot declare variable with the same name as an environment variable: {name}"
  | assignEnvironment name => s!"Cannot assign to environment variable: {name}"
  | variableName written => s!"Invalid variable name: '{written}'"
  | varWithoutDollar => "VAR requires a variable name starting with '$'."
  | letWithoutDollar => "LET target variable must start with '$'."
  | initialValueMissing => "Missing expression after '=' in VAR declaration."
  | assignedValueMissing => "LET statement requires an expression after '='."
  | arithmetic _ fault => fault.message
  | emptyCondition => "Empty condition."
  | noComparison => "Condition requires a comparison operator (==, !=, <, >, <=, >=)."
  | manyComparisons => "Condition may contain only one comparison operator."
  | oneSided => "Comparison requires an expression on both sides."
  | thenMissing => "IF requires THEN after the condition."
  | elseAlone => "Unexpected ELSE without matching IF."
  | elseTwice start => s!"Duplicate ELSE for IF block started on line {start}."
  | elseInside kind start =>
    s!"ELSE found inside {kind.keyword} block started on line {start}; " ++
      s!"expected END{kind.keyword} first."
  | endAlone expected =>
    s!"Unexpected END{expected.keyword} without matching {expected.keyword}."
  | endInside expected found start =>
    s!"END{expected.keyword} found but {found.keyword} block started on line {start} is still open."
  | unclosed kind start =>
    s!"Unclosed {kind.keyword} block started on line {start}. Expected END{kind.keyword}."
  | patternNotPositive => "Pattern WIDTH and HEIGHT must be positive."
  | patternTooLarge name width height => s!"Pattern '{name}' is too large ({width}x{height})."
  | patternData => "DATA string must contain only '0' or '1'."
  | patternTaken name => s!"Pattern '{name}' already defined."
  | patternsFull limit => s!"Too many patterns defined (maximum {limit})."

end ParseCause

/-- A rejected line, or a block that was never closed, told by its header's line. -/
structure ParseError where
  line : Nat
  cause : ParseCause
  deriving DecidableEq

namespace ParseError

def code (e : ParseError) : ParseCode := e.cause.code

def message (e : ParseError) : String := e.cause.message

def text (e : ParseError) : String := s!"Line {e.line}: {e.message}"

end ParseError

end PatternScript
