import Calculator.Token

/-!
# Parse trees

A parse tree is an expression as it was written: tokens for its literals and operators, without the
parentheses, which the shape of the tree stands for. A part of the source that could not be read as
an expression is an `error` node.
-/

namespace Calculator

/-- An expression as it was written. -/
inductive ParseTree where
  | literal (token : Token)
  | unary (operator : Token) (operand : ParseTree)
  | binary (left : ParseTree) (operator : Token) (right : ParseTree)
  | error
  deriving DecidableEq

/-- The sorts of nodes of a parse tree. -/
inductive ParseTree.Kind where
  | literal
  | unary
  | binary
  | error
  deriving DecidableEq

namespace ParseTree

/-- The description of a sort of nodes. -/
def Kind.describe : Kind → String
  | literal => "literal expression"
  | unary => "unary expression"
  | binary => "binary expression"
  | error => "error expression"

/-- The sort of the root. -/
def kind : ParseTree → Kind
  | literal _ => .literal
  | unary _ _ => .unary
  | binary _ _ _ => .binary
  | error => .error

/-- The written form of a tree: every operator with its operands in parentheses. -/
def render : ParseTree → String
  | literal token => token.text
  | unary operator operand => "(" ++ operator.text ++ operand.render ++ ")"
  | binary left operator right =>
    "(" ++ left.render ++ " " ++ operator.text ++ " " ++ right.render ++ ")"
  | error => "Error"

end ParseTree

end Calculator
