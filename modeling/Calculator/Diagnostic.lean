import Calculator.Cursor
import Calculator.Diagnostics
import Calculator.Token

/-!
# What is reported about a source

A diagnostic is one thing that is wrong with a source: an error of the scan, a token that the
grammar does not allow where it stands, or an operator that its operands' types do not allow. It
has a text and, if it is tied to one, a place.
-/

namespace Calculator

/-- The ways in which a token can be wrong where it stands. -/
inductive SyntaxFault where
  /-- An operand is due. -/
  | expectedExpression
  /-- An operator or a closing parenthesis is due. -/
  | expectedClosing
  /-- An operator or the end is due. -/
  | expectedEnd
  /-- The expression nests too deeply to be read on. -/
  | tooDeep
  /-- The number is out of range. -/
  | invalidNumber (digits : String)
  deriving DecidableEq

/-- Whether the reader loses its place in the source, so that what it finds wrong with further
tokens would tell nothing. -/
def SyntaxFault.losesPlace : SyntaxFault → Bool
  | invalidNumber _ => false
  | _ => true

/-- What is wrong with the token. -/
def SyntaxFault.text : SyntaxFault → String
  | expectedExpression => "Expected expression"
  | expectedClosing => "Expected ')' after expression"
  | expectedEnd => "Expected end of input"
  | tooDeep => "Expression is nested too deeply"
  | invalidNumber digits => "Number literal '" ++ digits ++ "' is not a valid int"

/-- One thing that is wrong with a source. -/
inductive Diagnostic where
  /-- The source cannot be divided into tokens there. -/
  | lexical (error : ScanError)
  /-- The token is not allowed where it stands. -/
  | syntactic (token : Token) (fault : SyntaxFault)
  /-- The operator is not defined for an operand of the type. -/
  | undefinedUnary (operator : String) (operand : Ty)
  /-- The operator is not defined for operands of the types. -/
  | undefinedBinary (operator : String) (left right : Ty)
  deriving DecidableEq

namespace Diagnostic

/-- How a report names the token that it is about. -/
def place (t : Token) : String :=
  if t.kind = .endOfInput then "end of input" else "'" ++ t.text ++ "'"

/-- Where in the source the fault is. -/
def position? : Diagnostic → Option Position
  | lexical error => error.position?
  | syntactic token _ => some token.start
  | undefinedUnary _ _ => none
  | undefinedBinary _ _ _ => none

/-- What is wrong, wherever it is. -/
def text : Diagnostic → String
  | lexical error => error.text
  | syntactic token fault => "Error at " ++ place token ++ ": " ++ fault.text
  | undefinedUnary operator operand =>
    "Unary operator '" ++ operator ++ "' is not defined for type " ++ operand.name
  | undefinedBinary operator left right =>
    "Binary operator '" ++ operator ++ "' is not defined for type " ++ left.name ++ " and " ++
      right.name

/-- The message of a diagnostic. -/
def message (d : Diagnostic) : String := Position.label d.position? d.text

end Diagnostic

end Calculator
