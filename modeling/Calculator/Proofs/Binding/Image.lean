import Calculator.BoundTree.Binding

/-!
# What binding makes of a tree

Without a part that could not be read, binding never fails. What it yields and what it reports
depend on the tree alone: `ParseTree.image` and `ParseTree.offences` say so without a log of reports
to carry along, and `ParseTree.bind_eq` ties them to `ParseTree.bind`.

The type of an operand is that of its first literal (`ParseTree.firstTy`), whatever operators have
been dropped in front of it, since a dropped operator leaves its first operand in its place.
-/

namespace Calculator

namespace Diagnostics

variable {α : Type}

/-- Reporting nothing leaves a log as it is. -/
@[simp] theorem reportAll_nil (d : Diagnostics α) : d.reportAll [] = d := rfl

/-- Reporting two lists in turn is reporting them joined. -/
theorem reportAll_append (d : Diagnostics α) (l l' : List α) :
    d.reportAll (l ++ l') = (d.reportAll l).reportAll l' := List.foldl_append

/-- One report is a list of one. -/
theorem report_eq_reportAll (d : Diagnostics α) (r : α) : d.report r = d.reportAll [r] := rfl

end Diagnostics

namespace ParseTree

/-- Every part of the tree could be read. -/
def ErrorFree : ParseTree → Prop
  | literal _ => True
  | unary _ x => x.ErrorFree
  | binary x _ y => x.ErrorFree ∧ y.ErrorFree
  | error => False

/-- Whether every part of the tree could be read is decided node by node. -/
instance decidableErrorFree : (t : ParseTree) → Decidable t.ErrorFree
  | literal _ => .isTrue trivial
  | unary _ x => x.decidableErrorFree
  | binary x _ y => @instDecidableAnd _ _ x.decidableErrorFree y.decidableErrorFree
  | error => .isFalse not_false

/-- The type of the first literal, which is that of the whole. -/
def firstTy : ParseTree → Ty
  | literal token => token.kind.literalTy
  | unary _ x => x.firstTy
  | binary x _ _ => x.firstTy
  | error => .int

/-- The bound tree of a tree: each operator becomes its operation, or its first operand if it has
none. -/
def image : ParseTree → BoundTree
  | literal token => .literal token.literalValue
  | unary operator x =>
    match UnaryOp.resolve? operator.kind x.firstTy with
    | some op => .unary op x.image
    | none => x.image
  | binary x operator y =>
    match BinaryOp.resolve? operator.kind x.firstTy y.firstTy with
    | some op => .binary op x.image y.image
    | none => x.image
  | error => .literal Ty.int.default

/-- What is wrong with the operators of a tree: those of the operands come before their own, those
of the left operand first. -/
def offences : ParseTree → List Diagnostic
  | literal _ => []
  | unary operator x =>
    x.offences ++
      if UnaryOp.resolve? operator.kind x.firstTy = none then
        [.undefinedUnary operator.text x.firstTy]
      else []
  | binary x operator y =>
    x.offences ++ y.offences ++
      if BinaryOp.resolve? operator.kind x.firstTy y.firstTy = none then
        [.undefinedBinary operator.text x.firstTy y.firstTy]
      else []
  | error => []

/-- The bound tree has the type of the first literal, with or without the operators on the way to
it. -/
@[simp] theorem ty_image (t : ParseTree) : t.image.ty = t.firstTy := by
  induction t with
  | literal token => exact token.ty_literalValue
  | unary operator x ih =>
    rw [image, firstTy]
    split
    · exact ih
    · exact ih
  | binary x operator y ihx _ =>
    rw [image, firstTy]
    split
    · exact ihx
    · exact ihx
  | error => rfl

/-- Binding a tree that could be read yields its image and reports its offences, whatever was
reported before. -/
theorem bind_eq (t : ParseTree) (h : t.ErrorFree) (d : Diagnostics Diagnostic) :
    t.bind d = (.ok t.image, d.reportAll t.offences) := by
  induction t generalizing d with
  | literal token => rfl
  | unary operator x ih =>
    rw [bind, ih h d]
    dsimp only
    rw [ty_image, image, offences, Diagnostics.reportAll_append]
    cases hop : UnaryOp.resolve? operator.kind x.firstTy with
    | some op => simp
    | none => simp [Diagnostics.report_eq_reportAll]
  | binary x operator y ihx ihy =>
    rw [bind, ihx h.1 d]
    dsimp only
    rw [ihy h.2]
    dsimp only
    rw [ty_image, ty_image, image, offences, Diagnostics.reportAll_append,
      Diagnostics.reportAll_append]
    cases hop : BinaryOp.resolve? operator.kind x.firstTy y.firstTy with
    | some op => simp
    | none => simp [Diagnostics.report_eq_reportAll]
  | error => exact h.elim

/-- Binding yields a tree only if every part could be read. -/
theorem errorFree_of_bind {t : ParseTree} {b : BoundTree} {d d' : Diagnostics Diagnostic}
    (h : t.bind d = (.ok b, d')) : t.ErrorFree := by
  induction t generalizing b d d' with
  | literal token => exact trivial
  | unary operator x ih =>
    rw [bind] at h
    split at h
    · cases h
    · next operand d₁ hx => exact ih hx
  | binary x operator y ihx ihy =>
    rw [bind] at h
    split at h
    · cases h
    · next left d₁ hx =>
      split at h
      · cases h
      · next right d₂ hy => exact ⟨ihx hx, ihy hy⟩
  | error => cases h

end ParseTree

end Calculator
