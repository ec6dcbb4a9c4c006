import Calculator.BoundTree
import Calculator.Diagnostic
import Calculator.ParseTree

/-!
# Binding

Binding gives each operator of a parse tree the operation that it stands for, which depends on the
types of its operands. Where there is none, the operator is reported, and its first operand stands
in for the whole, so that binding goes on and every operator is looked at. Only a part of the source
that could not be read stops it.
-/

namespace Calculator

/-- The operation that an operator stands for in front of an operand of a type. -/
def UnaryOp.resolve? : TokenKind → Ty → Option UnaryOp
  | .plus, .int => some .identity
  | .minus, .int => some .negation
  | _, _ => none

/-- The operation that an operator stands for between operands of two types. -/
def BinaryOp.resolve? : TokenKind → Ty → Ty → Option BinaryOp
  | .plus, .int, .int => some .addition
  | .minus, .int, .int => some .subtraction
  | .times, .int, .int => some .multiplication
  | .divide, .int, .int => some .division
  | _, _, _ => none

/-- The way in which binding fails. -/
inductive BindError where
  /-- A node of a sort that cannot be bound. -/
  | unexpectedSyntax (kind : ParseTree.Kind)
  deriving DecidableEq

/-- The message of a failure to bind. -/
def BindError.message : BindError → String
  | unexpectedSyntax kind => "Unexpected syntax: " ++ kind.describe

/-- The type of a literal. -/
def TokenKind.literalTy : TokenKind → Ty
  | .trueWord => .boolean
  | .falseWord => .boolean
  | _ => .int

/-- The value of a literal: that of its token, if it is of the literal's type, and otherwise the
stand-in of that type. -/
def Token.literalValue (t : Token) : Value :=
  match t.value with
  | some v => if v.ty = t.kind.literalTy then v else t.kind.literalTy.default
  | none => t.kind.literalTy.default

/-- The value of a literal is of the literal's type. -/
theorem Token.ty_literalValue (t : Token) : t.literalValue.ty = t.kind.literalTy := by
  unfold Token.literalValue
  split
  · split
    · assumption
    · exact Ty.ty_default _
  · exact Ty.ty_default _

/-- Binds a tree, with what has been reported before, and reports what is wrong with its operators,
those of the left operand before those of the right one and both before the operator itself. -/
def ParseTree.bind :
    ParseTree → Diagnostics Diagnostic → Except BindError BoundTree × Diagnostics Diagnostic
  | literal token, d => (.ok (.literal token.literalValue), d)
  | unary operator x, d =>
    match x.bind d with
    | (.error e, d) => (.error e, d)
    | (.ok operand, d) =>
      match UnaryOp.resolve? operator.kind operand.ty with
      | some op => (.ok (.unary op operand), d)
      | none => (.ok operand, d.report (.undefinedUnary operator.text operand.ty))
  | binary x operator y, d =>
    match x.bind d with
    | (.error e, d) => (.error e, d)
    | (.ok left, d) =>
      match y.bind d with
      | (.error e, d) => (.error e, d)
      | (.ok right, d) =>
        match BinaryOp.resolve? operator.kind left.ty right.ty with
        | some op => (.ok (.binary op left right), d)
        | none => (.ok left, d.report (.undefinedBinary operator.text left.ty right.ty))
  | error, d => (.error (.unexpectedSyntax .error), d)

end Calculator
