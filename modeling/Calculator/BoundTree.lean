import Calculator.Operation

/-!
# Bound trees

A bound tree is an expression whose operators have been resolved to operations. It is evaluated
bottom up, the left operand before the right one and both before the operation, and the first
failure is the result. `BoundTree.eval` runs also on trees whose operands are not integers; such an
operand is then the failure.
-/

namespace Calculator

/-- An expression of values and operations. -/
inductive BoundTree where
  | literal (value : Value)
  | unary (op : UnaryOp) (operand : BoundTree)
  | binary (op : BinaryOp) (left right : BoundTree)
  deriving DecidableEq

namespace BoundTree

/-- The type of a tree: that of its leftmost literal, since an operation keeps the type of its
first operand. -/
def ty : BoundTree → Ty
  | literal value => value.ty
  | unary _ operand => operand.ty
  | binary _ left _ => left.ty

/-- The written form of a tree: each operation in parentheses, its name before its operands. -/
def render : BoundTree → String
  | literal value => value.render
  | unary op operand => "(" ++ op.name ++ " " ++ operand.render ++ ")"
  | binary op left right =>
    "(" ++ op.name ++ " " ++ left.render ++ " " ++ right.render ++ ")"

/-- What an operation makes of the outcome of an operand: an integer, or the failure of the
operand, which can lie in its not being an integer. -/
def operand (operation : Operation) : Except EvalError Value → Except EvalError Int32
  | .ok (.int n) => .ok n
  | .ok (.boolean _) => .error (.invalidOperand operation .boolean)
  | .error e => .error e

/-- The value of a tree, or its first failure. -/
def eval : BoundTree → Except EvalError Value
  | literal value => .ok value
  | unary op x =>
    match operand (.unary op) x.eval with
    | .ok a => (op.apply a).map .int
    | .error e => .error e
  | binary op x y =>
    match operand (.binary op) x.eval with
    | .ok a =>
      match operand (.binary op) y.eval with
      | .ok b => (op.apply a b).map .int
      | .error e => .error e
    | .error e => .error e

end BoundTree

end Calculator
