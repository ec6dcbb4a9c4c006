import Calculator.Value

/-!
# Operations on integers

The operations that an operator of an expression can stand for, and what they do with 32-bit
integers: the exact result when it is in range, and an error otherwise. Division drops the fraction
of its quotient and refuses a zero divisor. `UnaryOp.apply_eq_ok_iff` and `BinaryOp.apply_eq_ok_iff`
say when an operation has a result, and that the result is exact.
-/

namespace Calculator

/-- The operations on one integer. -/
inductive UnaryOp where
  | identity
  | negation
  deriving DecidableEq

/-- The operations on two integers. -/
inductive BinaryOp where
  | addition
  | subtraction
  | multiplication
  | division
  deriving DecidableEq

/-- An operation, on one integer or on two. -/
inductive Operation where
  | unary (op : UnaryOp)
  | binary (op : BinaryOp)
  deriving DecidableEq

/-- The name of an operation on one integer. -/
def UnaryOp.name : UnaryOp → String
  | .identity => "Identity"
  | .negation => "Negation"

/-- The name of an operation on two integers. -/
def BinaryOp.name : BinaryOp → String
  | .addition => "Addition"
  | .subtraction => "Subtraction"
  | .multiplication => "Multiplication"
  | .division => "Division"

/-- The name of an operation. -/
def Operation.name : Operation → String
  | .unary op => op.name
  | .binary op => op.name

/-- The ways in which an evaluation fails. -/
inductive EvalError where
  /-- A divisor was zero. -/
  | divisionByZero
  /-- The exact result of the operation is out of range. -/
  | overflow (operation : Operation)
  /-- An operand of the operation is not an integer but of the type `found`. -/
  | invalidOperand (operation : Operation) (found : Ty)
  deriving DecidableEq

/-- The text of an evaluation error. -/
def EvalError.message : EvalError → String
  | .divisionByZero => "Division by zero"
  | .overflow operation => "Integer overflow in " ++ operation.name
  | .invalidOperand operation found =>
    "Invalid operand for " ++ operation.name ++ ": expected " ++ Ty.int.name ++ ", got " ++
      found.name

/-- The exact result of an operation on one integer. -/
def UnaryOp.exact : UnaryOp → Int → Int
  | .identity, a => a
  | .negation, a => -a

/-- The exact result of an operation on two integers; a quotient is cut off toward zero. -/
def BinaryOp.exact : BinaryOp → Int → Int → Int
  | .addition, a, b => a + b
  | .subtraction, a, b => a - b
  | .multiplication, a, b => a * b
  | .division, a, b => a.tdiv b

/-- The result of an operation if it is in range. -/
def Operation.fit (operation : Operation) (n : Int) : Except EvalError Int32 :=
  match fit? n with
  | some v => .ok v
  | none => .error (.overflow operation)

/-- An operation on one 32-bit integer. -/
def UnaryOp.apply (op : UnaryOp) (a : Int32) : Except EvalError Int32 :=
  (Operation.unary op).fit (op.exact a.toInt)

/-- An operation on two 32-bit integers. A zero divisor is noticed before the range. -/
def BinaryOp.apply (op : BinaryOp) (a b : Int32) : Except EvalError Int32 :=
  if op = .division ∧ b = 0 then .error .divisionByZero
  else (Operation.binary op).fit (op.exact a.toInt b.toInt)

/-- A result is let through exactly when it is in range, and unchanged. -/
theorem Operation.fit_eq_ok_iff {operation : Operation} {n : Int} {v : Int32} :
    operation.fit n = .ok v ↔ v.toInt = n := by
  rw [← fit?_eq_some_iff, Operation.fit]
  split <;> simp [*]

/-- A result is refused exactly when it is out of range, and as an overflow of the operation. -/
theorem Operation.fit_eq_error_iff {operation : Operation} {n : Int} {e : EvalError} :
    operation.fit n = .error e ↔ ¬ InRange n ∧ e = .overflow operation := by
  rw [← fit?_eq_none_iff, Operation.fit]
  split <;> simp [*, eq_comm]

/-- An operation on one integer yields its exact result. -/
theorem UnaryOp.apply_eq_ok_iff {op : UnaryOp} {a v : Int32} :
    op.apply a = .ok v ↔ v.toInt = op.exact a.toInt := Operation.fit_eq_ok_iff

/-- An operation on two integers yields its exact result, unless it divides by zero. -/
theorem BinaryOp.apply_eq_ok_iff {op : BinaryOp} {a b v : Int32} :
    op.apply a b = .ok v ↔
      ¬ (op = .division ∧ b = 0) ∧ v.toInt = op.exact a.toInt b.toInt := by
  unfold BinaryOp.apply
  split <;> simp [*, Operation.fit_eq_ok_iff]

end Calculator
