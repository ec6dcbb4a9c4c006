import Calculator.Proofs.Binding.Image

/-!
# Types of bound trees

In a bound tree that binding yields, every operand is an integer (`ParseTree.wellTyped_image`), also
if operators had to be dropped. The evaluation of such a tree ends with a value of its type or with
an arithmetic failure, and never with an operand that is no integer
(`BoundTree.WellTyped.eval`). So whatever binding yields is safe to evaluate, with or without
reports (`ParseTree.typeSafe_of_bind`).
-/

namespace Calculator

/-- An operator has an operation only on an integer. -/
theorem UnaryOp.ty_of_resolve? {kind : TokenKind} {ty : Ty} {op : UnaryOp}
    (h : UnaryOp.resolve? kind ty = some op) : ty = .int := by
  unfold UnaryOp.resolve? at h
  split at h
  · rfl
  · rfl
  · cases h

/-- An operator has an operation only on two integers. -/
theorem BinaryOp.ty_of_resolve? {kind : TokenKind} {left right : Ty} {op : BinaryOp}
    (h : BinaryOp.resolve? kind left right = some op) : left = .int ∧ right = .int := by
  unfold BinaryOp.resolve? at h
  split at h
  · exact ⟨rfl, rfl⟩
  · exact ⟨rfl, rfl⟩
  · exact ⟨rfl, rfl⟩
  · exact ⟨rfl, rfl⟩
  · cases h

/-- A failure of the arithmetic: a zero divisor or a result that is out of range. -/
def EvalError.IsArithmetic (e : EvalError) : Prop :=
  e = .divisionByZero ∨ ∃ operation, e = .overflow operation

/-- An operation on one integer fails only by its arithmetic. -/
theorem UnaryOp.isArithmetic_of_apply {op : UnaryOp} {a : Int32} {e : EvalError}
    (h : op.apply a = .error e) : e.IsArithmetic :=
  .inr ⟨_, (Operation.fit_eq_error_iff.1 h).2⟩

/-- An operation on two integers fails only by its arithmetic. -/
theorem BinaryOp.isArithmetic_of_apply {op : BinaryOp} {a b : Int32} {e : EvalError}
    (h : op.apply a b = .error e) : e.IsArithmetic := by
  unfold BinaryOp.apply at h
  split at h
  · exact .inl (Except.error.inj h).symm
  · exact .inr ⟨_, (Operation.fit_eq_error_iff.1 h).2⟩

namespace BoundTree

variable {x y : BoundTree} {e : EvalError}

/-- The failure of its operand is that of the operation. -/
theorem eval_unary_of_error {op : UnaryOp} (h : x.eval = .error e) :
    (unary op x).eval = .error e := by
  simp only [eval, h, operand]

/-- An operation is applied to the integer that its operand evaluates to. -/
theorem eval_unary_of_int {op : UnaryOp} {a : Int32} (h : x.eval = .ok (.int a)) :
    (unary op x).eval = (op.apply a).map .int := by
  simp only [eval, h, operand]

/-- The failure of its left operand is that of the operation. -/
theorem eval_binary_of_left_error {op : BinaryOp} (h : x.eval = .error e) :
    (binary op x y).eval = .error e := by
  simp only [eval, h, operand]

/-- Behind an integer the failure of its right operand is that of the operation. -/
theorem eval_binary_of_right_error {op : BinaryOp} {a : Int32} (hx : x.eval = .ok (.int a))
    (hy : y.eval = .error e) : (binary op x y).eval = .error e := by
  simp only [eval, hx, hy, operand]

/-- An operation is applied to the integers that its operands evaluate to. -/
theorem eval_binary_of_int {op : BinaryOp} {a b : Int32} (hx : x.eval = .ok (.int a))
    (hy : y.eval = .ok (.int b)) : (binary op x y).eval = (op.apply a b).map .int := by
  simp only [eval, hx, hy, operand]

/-- Every operand in the tree is an integer. -/
def WellTyped : BoundTree → Prop
  | literal _ => True
  | unary _ x => x.WellTyped ∧ x.ty = .int
  | binary _ x y => (x.WellTyped ∧ x.ty = .int) ∧ y.WellTyped ∧ y.ty = .int

/-- The evaluation of a tree ends with a value of the tree's type or with an arithmetic failure. -/
def EvalsInType (b : BoundTree) : Prop :=
  (∃ v, b.eval = .ok v ∧ v.ty = b.ty) ∨ ∃ e, b.eval = .error e ∧ e.IsArithmetic

/-- A tree of integer type that evaluates in its type evaluates to an integer or to an arithmetic
failure. -/
theorem EvalsInType.int (h : x.EvalsInType) (hty : x.ty = .int) :
    (∃ n, x.eval = .ok (.int n)) ∨ ∃ e, x.eval = .error e ∧ e.IsArithmetic := by
  rcases h with ⟨v, hv, hvty⟩ | hfail
  · rw [hty] at hvty
    cases v with
    | int n => exact .inl ⟨n, hv⟩
    | boolean b => cases hvty
  · exact .inr hfail

/-- A tree of integer type that evaluates as an operation does, which fails only by its arithmetic,
evaluates in its type. -/
theorem evalsInType_of_map {r : Except EvalError Int32} (heval : x.eval = r.map .int)
    (hty : x.ty = .int) (harith : ∀ e, r = .error e → e.IsArithmetic) : x.EvalsInType := by
  cases r with
  | ok n =>
    have hv : x.eval = .ok (.int n) := heval
    exact .inl ⟨.int n, hv, hty.symm⟩
  | error e =>
    have he : x.eval = .error e := heval
    exact .inr ⟨e, he, harith e rfl⟩

/-- The evaluation of a well-typed tree ends with a value of its type or with an arithmetic
failure. -/
theorem WellTyped.eval {b : BoundTree} (h : b.WellTyped) : b.EvalsInType := by
  induction b with
  | literal v => exact .inl ⟨v, rfl, rfl⟩
  | unary op x ih =>
    obtain ⟨hx, hty⟩ := h
    rcases (ih hx).int hty with ⟨a, ha⟩ | ⟨e, he, harith⟩
    · exact evalsInType_of_map (eval_unary_of_int ha) hty
        fun e he => UnaryOp.isArithmetic_of_apply he
    · exact .inr ⟨e, eval_unary_of_error he, harith⟩
  | binary op x y ihx ihy =>
    obtain ⟨⟨hx, htyx⟩, hy, htyy⟩ := h
    -- The operands are evaluated from the left, and the first failure is the outcome.
    rcases (ihx hx).int htyx with ⟨a, ha⟩ | ⟨e, he, harith⟩
    · rcases (ihy hy).int htyy with ⟨b, hb⟩ | ⟨e, he, harith⟩
      · exact evalsInType_of_map (eval_binary_of_int ha hb) htyx
          fun e he => BinaryOp.isArithmetic_of_apply he
      · exact .inr ⟨e, eval_binary_of_right_error ha he, harith⟩
    · exact .inr ⟨e, eval_binary_of_left_error he, harith⟩

end BoundTree

/-- The bound tree that binding yields is well typed, with or without offences. -/
theorem ParseTree.wellTyped_image (t : ParseTree) : t.image.WellTyped := by
  induction t with
  | literal token => exact trivial
  | unary operator x ih =>
    rw [image]
    split
    · next op hop => exact ⟨ih, by rw [ty_image, UnaryOp.ty_of_resolve? hop]⟩
    · exact ih
  | binary x operator y ihx ihy =>
    rw [image]
    split
    · next op hop =>
      obtain ⟨hx, hy⟩ := BinaryOp.ty_of_resolve? hop
      exact ⟨⟨ihx, by rw [ty_image, hx]⟩, ihy, by rw [ty_image, hy]⟩
    · exact ihx
  | error => exact trivial

/-- A tree that evaluates in its type never meets an operand that is no integer, and its values are
of its type. -/
theorem BoundTree.EvalsInType.safe {b : BoundTree} (h : b.EvalsInType) :
    (∀ operation ty, b.eval ≠ .error (.invalidOperand operation ty)) ∧
      ∀ v, b.eval = .ok v → v.ty = b.ty := by
  rcases h with ⟨v, hv, hty⟩ | ⟨e, he, harith⟩
  · rw [hv]
    refine ⟨fun operation ty => nofun, fun w hw => ?_⟩
    rwa [← Except.ok.inj hw]
  · rw [he]
    refine ⟨fun operation ty hinvalid => ?_, fun w => nofun⟩
    rw [Except.error.inj hinvalid] at harith
    rcases harith with hzero | ⟨operation', hoverflow⟩
    · cases hzero
    · cases hoverflow

/-- Whatever tokens a tree has and whatever was reported before, in the bound tree that binding
yields every operand is an integer, so that its evaluation never meets one that is not, and ends
with a value of the tree's type if it has one. -/
theorem ParseTree.typeSafe_of_bind {t : ParseTree} {b : BoundTree} {d d' : Diagnostics Diagnostic}
    (h : t.bind d = (.ok b, d')) :
    b.WellTyped ∧ (∀ operation ty, b.eval ≠ .error (.invalidOperand operation ty)) ∧
      ∀ v, b.eval = .ok v → v.ty = b.ty := by
  -- The reports play no part: the bound tree is the image of the tree.
  have himage : b = t.image := by
    rw [t.bind_eq (errorFree_of_bind h) d] at h
    exact (Except.ok.inj (congrArg Prod.fst h)).symm
  have htyped : b.WellTyped := himage ▸ t.wellTyped_image
  exact ⟨htyped, htyped.eval.safe⟩

/-- In `-(0 + 7) ? true`, with values that do not match their words and behind an earlier report,
the operator `?` is reported and dropped, and the sum and its sign stay. -/
theorem ParseTree.typeSafe_mismatched :
    let token kind text value : Token := ⟨kind, text, value, .start⟩
    let t : ParseTree :=
      .binary
        (.unary (token .minus "-" none)
          (.binary (.literal (token .number "0" (some (.boolean true)))) (token .plus "+" none)
            (.literal (token .number "7" (some (.int 7))))))
        (token .identifier "?" none)
        (.literal (token .trueWord "true" (some (.int 5))))
    let b : BoundTree :=
      .unary .negation (.binary .addition (.literal (.int 0)) (.literal (.int 7)))
    let earlier : Diagnostics Diagnostic := Diagnostics.empty.report (.undefinedUnary "-" .boolean)
    t.bind earlier = (.ok b, earlier.report (.undefinedBinary "?" .int .boolean)) ∧
      b.WellTyped ∧ (∀ operation ty, b.eval ≠ .error (.invalidOperand operation ty)) ∧
        ∀ v, b.eval = .ok v → v.ty = b.ty := by
  intro token t b earlier
  have hbind : t.bind earlier = (.ok b, earlier.report (.undefinedBinary "?" .int .boolean)) := rfl
  exact ⟨hbind, typeSafe_of_bind hbind⟩

end Calculator
