import PatternScript.Text.Basic

/-!
# Tokens

The words of the script language: integers, variable references, texts, arithmetic
operators and comparisons. The same tokens stand in argument lists, expressions and
conditions. `Token.text` writes a token so that it reads back as itself.
-/
namespace PatternScript

inductive Arithmetic
  | add
  | sub
  | mul
  | div
  | mod
  deriving DecidableEq, Repr

namespace Arithmetic

def symbol : Arithmetic → String
  | add => "+"
  | sub => "-"
  | mul => "*"
  | div => "/"
  | mod => "%"

/-- Products, quotients and remainders bind tighter than sums and differences. -/
def bindsTight : Arithmetic → Bool
  | mul | div | mod => true
  | add | sub => false

end Arithmetic

inductive Comparison
  | eq
  | ne
  | lt
  | le
  | gt
  | ge
  deriving DecidableEq, Repr

namespace Comparison

def symbol : Comparison → String
  | eq => "=="
  | ne => "!="
  | lt => "<"
  | le => "<="
  | gt => ">"
  | ge => ">="

def holds (a b : Int32) : Comparison → Bool
  | eq => a == b
  | ne => a != b
  | lt => a < b
  | le => a ≤ b
  | gt => a > b
  | ge => a ≥ b

end Comparison

def environmentNames : List String :=
  ["$WIDTH", "$HEIGHT", "$HOUR", "$MINUTE", "$SECOND", "$COUNTER", "$INDEX"]

def indexName : String := "$INDEX"

def isEnvironmentName (name : String) : Bool := environmentNames.contains name

def isIdentifier : List Char → Bool
  | [] => false
  | c :: rest => c.isAlpha && rest.all (fun d => d.isAlphanum || d == '_')

/-- A variable with its dollar sign, in upper case; `negated` when a minus sign stands before it. -/
structure VarRef where
  name : String
  negated : Bool := false
  deriving DecidableEq, Repr

inductive Token
  | int (value : Int32)
  | var (ref : VarRef)
  | text (value : String)
  | op (op : Arithmetic)
  | compare (rel : Comparison)
  deriving DecidableEq

namespace Token

/-- Holds of a text that reads back as itself when it stands without quotes. -/
def isBareWord : List Char → Bool
  | [] => false
  | c :: rest =>
    c != '$' && c != '-' && !c.isDigit &&
    (c :: rest).all (fun d => !(Text.isBlank d || d == '"' || d == '\\' || d == '='))

def escape : List Char → List Char
  | [] => []
  | c :: rest => if c == '"' || c == '\\' then '\\' :: c :: escape rest else c :: escape rest

def chars : Token → List Char
  | int n => (toString n.toInt).toList
  | var v => if v.negated then '-' :: v.name.toList else v.name.toList
  | text s => if isBareWord s.toList then s.toList else '"' :: escape s.toList ++ ['"']
  | op o => o.symbol.toList
  | compare r => r.symbol.toList

def written (t : Token) : String := String.ofList t.chars

def isOperand : Token → Bool
  | int _ | var _ => true
  | text _ | op _ | compare _ => false

def isOperator : Token → Bool
  | op _ | compare _ => true
  | int _ | var _ | text _ => false

def isComparison : Token → Bool
  | compare _ => true
  | int _ | var _ | text _ | op _ => false

def text? : Token → Option String
  | text s => some s
  | int _ | var _ | op _ | compare _ => none

def writtenAll (ts : List Token) : String := " ".intercalate (ts.map written)

end Token

end PatternScript
