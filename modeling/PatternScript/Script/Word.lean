import PatternScript.Script.ParseError
import PatternScript.Text.Basic
import PatternScript.Text.UpperCase

/-!
# Single words

The first word of a line names its command. A word standing as a value is a variable
when it starts with a dollar sign, an integer when it is made of digits, and otherwise
a text; a minus sign may stand before the first two.
-/
namespace PatternScript

def splitKeyword (line : List Char) : List Char × List Char :=
  (Text.upper (line.takeWhile (!Text.isAsciiBlank ·)),
    Text.trim (line.dropWhile (!Text.isAsciiBlank ·)))

def VarRef.ofName (name : List Char) (negated : Bool) (written : List Char) :
    Except ParseCause VarRef :=
  if isIdentifier name then .ok ⟨String.ofList ('$' :: Text.upper name), negated⟩
  else .error (.variableName (String.ofList written))

def Token.ofDigits (written : List Char) : Except ParseCause Token :=
  match Text.readInt32? written with
  | some n => .ok (.int n)
  | none => .error (.integerRange (String.ofList written))

def Token.ofWord (word : List Char) : Except ParseCause Token :=
  match word with
  | '$' :: name => .var <$> VarRef.ofName name false word
  | '-' :: '$' :: name => .var <$> VarRef.ofName name true word
  | '-' :: digits =>
    if Text.isDigits digits then ofDigits word else .ok (.text (String.ofList word))
  | _ => if Text.isDigits word then ofDigits word else .ok (.text (String.ofList word))

end PatternScript
