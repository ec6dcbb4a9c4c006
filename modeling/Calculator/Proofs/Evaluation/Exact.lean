import Calculator.Proofs.Evaluation.Stages

/-!
# Outcomes as exact arithmetic

The meaning of an expression of integers is arithmetic without bounds: each part of its tree has an
exact value (`ParseTree.exact`), and the first part whose value is out of range, or whose divisor is
zero, is what is wrong with it (`ParseTree.firstFault?`). The parts are taken in the order in which
an evaluation comes to them: those of the left operand, those of the right one, the operator.

`ParseTree.Proper.computes` says that the image of a tree of integers computes with 32 bits what
this meaning says, and `evaluate_of_read` carries it over to the outcome of a source. Booleans have
no operations, so that a source with a boolean is either that boolean alone or has something wrong
with an operator.
-/

namespace Calculator

namespace ParseTree

/-- The exact value of an expression of integers. A quotient is cut off toward zero. -/
def exact : ParseTree → ℤ
  | literal token => token.written
  | unary operator x => if operator.kind = .minus then -x.exact else x.exact
  | binary x operator y =>
    match operator.kind with
    | .plus => x.exact + y.exact
    | .minus => x.exact - y.exact
    | .times => x.exact * y.exact
    | .divide => x.exact.tdiv y.exact
    | _ => 0
  | error => 0

/-- The parts of a tree in the order of their evaluation, the last of which is the tree itself. -/
def parts : ParseTree → List ParseTree
  | literal token => [literal token]
  | unary operator x => x.parts ++ [unary operator x]
  | binary x operator y => x.parts ++ y.parts ++ [binary x operator y]
  | error => [error]

/-- The operator at the root divides by zero. -/
def DividesByZero : ParseTree → Prop
  | binary _ operator y => operator.kind = .divide ∧ y.exact = 0
  | _ => False

/-- Whether an operator divides by zero is decided by its divisor. -/
instance decidableDividesByZero : (t : ParseTree) → Decidable t.DividesByZero
  | literal _ => .isFalse not_false
  | unary _ _ => .isFalse not_false
  | binary _ operator y => inferInstanceAs (Decidable (operator.kind = .divide ∧ y.exact = 0))
  | error => .isFalse not_false

/-- The operation on integers that the operator at the root stands for. -/
def operation? : ParseTree → Option Operation
  | unary operator _ =>
    match operator.kind with
    | .plus => some (.unary .identity)
    | .minus => some (.unary .negation)
    | _ => none
  | binary _ operator _ =>
    match operator.kind with
    | .plus => some (.binary .addition)
    | .minus => some (.binary .subtraction)
    | .times => some (.binary .multiplication)
    | .divide => some (.binary .division)
    | _ => none
  | _ => none

/-- What is wrong with the operation at the root: a zero divisor, or else a result that is out of
range. -/
def fault? (t : ParseTree) : Option EvalError :=
  if t.DividesByZero then some .divisionByZero
  else if InRange t.exact then none
  else t.operation?.map .overflow

/-- What is wrong with the first part of a tree with which something is wrong. -/
def firstFault? (t : ParseTree) : Option EvalError := t.parts.findSome? fault?

/-- A literal of the tree is a boolean. -/
def HasBoolean : ParseTree → Prop
  | literal token => token.kind = .trueWord ∨ token.kind = .falseWord
  | unary _ x => x.HasBoolean
  | binary x _ y => x.HasBoolean ∨ y.HasBoolean
  | error => False

/-- Whether a tree has a boolean is decided literal by literal. -/
instance decidableHasBoolean : (t : ParseTree) → Decidable t.HasBoolean
  | literal token => inferInstanceAs (Decidable (token.kind = .trueWord ∨ token.kind = .falseWord))
  | unary _ x => x.decidableHasBoolean
  | binary x _ y => @instDecidableOr _ _ x.decidableHasBoolean y.decidableHasBoolean
  | error => .isFalse not_false

/-- Nothing is wrong with any part of a tree: its value is in range, and it does not divide by
zero. -/
def AllInRange (t : ParseTree) : Prop :=
  ∀ part ∈ t.parts, InRange part.exact ∧ ¬ part.DividesByZero

/-- Whether all parts are in range is decided part by part. -/
instance (t : ParseTree) : Decidable t.AllInRange :=
  inferInstanceAs (Decidable (∀ part ∈ t.parts, InRange part.exact ∧ ¬ part.DividesByZero))

/-! ## Operators and their operations -/

/-- A sign stands for an operation whose exact result is that of the sign. -/
theorem exists_unaryOp {operator : Token} (x : ParseTree)
    (h : operator.kind = .plus ∨ operator.kind = .minus) :
    ∃ op, UnaryOp.resolve? operator.kind .int = some op ∧
      (unary operator x).operation? = some (.unary op) ∧
      (unary operator x).exact = op.exact x.exact := by
  rcases h with hk | hk
  · exact ⟨.identity, by simp [UnaryOp.resolve?, operation?, exact, UnaryOp.exact, hk]⟩
  · exact ⟨.negation, by simp [UnaryOp.resolve?, operation?, exact, UnaryOp.exact, hk]⟩

/-- An operator of a chain stands for an operation whose exact result is that of the operator. -/
theorem exists_binaryOp {operator : Token} (x y : ParseTree)
    (h : (operator.kind = .plus ∨ operator.kind = .minus) ∨
      operator.kind = .times ∨ operator.kind = .divide) :
    ∃ op, BinaryOp.resolve? operator.kind .int .int = some op ∧
      (binary x operator y).operation? = some (.binary op) ∧
      (binary x operator y).exact = op.exact x.exact y.exact ∧
      ((binary x operator y).DividesByZero ↔ op = .division ∧ y.exact = 0) := by
  rcases h with (hk | hk) | hk | hk
  · exact ⟨.addition,
      by simp [BinaryOp.resolve?, operation?, exact, BinaryOp.exact, DividesByZero, hk]⟩
  · exact ⟨.subtraction,
      by simp [BinaryOp.resolve?, operation?, exact, BinaryOp.exact, DividesByZero, hk]⟩
  · exact ⟨.multiplication,
      by simp [BinaryOp.resolve?, operation?, exact, BinaryOp.exact, DividesByZero, hk]⟩
  · exact ⟨.division,
      by simp [BinaryOp.resolve?, operation?, exact, BinaryOp.exact, DividesByZero, hk]⟩

/-! ## The first part with which something is wrong -/

/-- A sign is looked at after its operand. -/
theorem firstFault?_unary (operator : Token) (x : ParseTree) :
    (unary operator x).firstFault? = x.firstFault?.or (unary operator x).fault? := by
  rw [firstFault?, parts, List.findSome?_append, ← firstFault?, List.findSome?_singleton]

/-- An operator of a chain is looked at after both of its operands, of which the left one is looked
at first. -/
theorem firstFault?_binary (x : ParseTree) (operator : Token) (y : ParseTree) :
    (binary x operator y).firstFault? =
      (x.firstFault?.or y.firstFault?).or (binary x operator y).fault? := by
  rw [firstFault?, parts, List.findSome?_append, List.findSome?_append, ← firstFault?,
    ← firstFault?, List.findSome?_singleton]

/-- With a proper operator nothing is wrong exactly when its result is in range and it does not
divide by zero. -/
theorem fault?_eq_none_iff {t : ParseTree} (h : t.operation? ≠ none) :
    t.fault? = none ↔ InRange t.exact ∧ ¬ t.DividesByZero := by
  unfold fault?
  split
  · next hz => simp [hz]
  · next hz =>
    split
    · next hr => simp [hz, hr]
    · next hr => simp [hr, h]

/-- A literal of a proper tree that is no boolean is a number, with the value that it denotes. -/
theorem exists_int_of_literal {token : Token} (h : (literal token).Proper)
    (hb : ¬ (literal token).HasBoolean) :
    token.kind = .number ∧ ∃ n : Int32, token.value = some (.int n) ∧ n.toInt = token.written := by
  obtain ⟨v, hvalue, hv⟩ := h
  cases hv with
  | number kind written => exact ⟨kind, _, hvalue, written⟩
  | trueWord kind => exact absurd (.inl kind) hb
  | falseWord kind => exact absurd (.inr kind) hb

/-- The exact value of a literal for a number is that of a 32-bit integer. -/
theorem inRange_exact_literal {token : Token} (h : (literal token).Proper)
    (hb : ¬ (literal token).HasBoolean) : InRange (literal token).exact := by
  obtain ⟨-, n, -, hn⟩ := exists_int_of_literal h hb
  rw [exact, ← hn]
  exact inRange_toInt n

/-- Nothing is wrong with a tree of integers exactly when all of its parts are in range and none
divides by zero. -/
theorem firstFault?_eq_none_iff {t : ParseTree} (h : t.Proper) (hb : ¬ t.HasBoolean) :
    t.firstFault? = none ↔ t.AllInRange := by
  induction t with
  | literal token =>
    have hrange := inRange_exact_literal h hb
    simp [firstFault?, AllInRange, parts, fault?, DividesByZero, hrange]
  | unary operator x ih =>
    obtain ⟨op, -, hop, -⟩ := exists_unaryOp x h.1
    have hfault := fault?_eq_none_iff (t := unary operator x) (by simp [hop])
    rw [firstFault?_unary, Option.or_eq_none_iff, ih h.2 hb, hfault, AllInRange, AllInRange, parts,
      List.forall_mem_append, List.forall_mem_singleton]
  | binary x operator y ihx ihy =>
    obtain ⟨op, -, hop, -⟩ := exists_binaryOp x y h.1
    have hfault := fault?_eq_none_iff (t := binary x operator y) (by simp [hop])
    have hbx : ¬ x.HasBoolean := fun hx => hb (.inl hx)
    have hby : ¬ y.HasBoolean := fun hy => hb (.inr hy)
    rw [firstFault?_binary, Option.or_eq_none_iff, Option.or_eq_none_iff, ihx h.2.1 hbx,
      ihy h.2.2 hby, hfault, AllInRange, AllInRange, AllInRange, parts, List.forall_mem_append,
      List.forall_mem_append, List.forall_mem_singleton]
  | error => exact h.elim

/-! ## The image of a tree of integers -/

/-- An outcome is the one that exact arithmetic gives to the tree: what is first wrong with it, or
else its exact value. -/
structure Computes (t : ParseTree) (r : Except EvalError Value) : Prop where
  fault : ∀ e, t.firstFault? = some e → r = .error e
  value : t.firstFault? = none → ∃ n : Int32, n.toInt = t.exact ∧ r = .ok (.int n)

/-- What is first wrong with an operand is wrong with the whole. -/
theorem computes_of_firstFault? {t : ParseTree} {e : EvalError} (h : t.firstFault? = some e) :
    t.Computes (.error e) where
  fault := fun e' he' => by
    rw [h, Option.some_inj] at he'
    rw [he']
  value := fun hnone => by
    rw [h] at hnone
    cases hnone

/-- With nothing wrong in front of it, an operation that does not divide by zero computes its exact
result if that is in range. -/
theorem computes_fit {t : ParseTree} {operation : Operation}
    (hop : t.operation? = some operation) (hz : ¬ t.DividesByZero)
    (hfirst : t.firstFault? = t.fault?) :
    t.Computes ((operation.fit t.exact).map .int) := by
  have hfault : t.fault? = if InRange t.exact then none else some (.overflow operation) := by
    rw [fault?, if_neg hz, hop, Option.map_some]
  cases hfit : operation.fit t.exact with
  | ok n =>
    have hn : n.toInt = t.exact := Operation.fit_eq_ok_iff.1 hfit
    have hnone : t.firstFault? = none := by
      rw [hfirst, hfault, if_pos (hn ▸ inRange_toInt n)]
    refine ⟨fun e he => ?_, fun _ => ⟨n, hn, rfl⟩⟩
    rw [hnone] at he
    cases he
  | error e =>
    obtain ⟨hrange, rfl⟩ := Operation.fit_eq_error_iff.1 hfit
    exact computes_of_firstFault? (by rw [hfirst, hfault, if_neg hrange])

/-- A sign in front of an operand that computes what it means computes what it means. -/
theorem computes_unary {operator : Token} {x : ParseTree} {op : UnaryOp} {b : BoundTree}
    (hx : x.Computes b.eval) (hop : (unary operator x).operation? = some (.unary op))
    (hexact : (unary operator x).exact = op.exact x.exact) :
    (unary operator x).Computes (BoundTree.unary op b).eval := by
  have hfirst := firstFault?_unary operator x
  cases hf : x.firstFault? with
  | some e =>
    rw [BoundTree.eval_unary_of_error (hx.fault e hf)]
    exact computes_of_firstFault? (by rw [hfirst, hf, Option.some_or])
  | none =>
    obtain ⟨n, hn, hb⟩ := hx.value hf
    have happly : op.apply n = (Operation.unary op).fit (unary operator x).exact := by
      rw [UnaryOp.apply, hexact, hn]
    rw [BoundTree.eval_unary_of_int hb, happly]
    exact computes_fit hop not_false (by rw [hfirst, hf, Option.none_or])

/-- An operator between operands that compute what they mean computes what it means. -/
theorem computes_binary {x y : ParseTree} {operator : Token} {op : BinaryOp} {b c : BoundTree}
    (hx : x.Computes b.eval) (hy : y.Computes c.eval)
    (hop : (binary x operator y).operation? = some (.binary op))
    (hexact : (binary x operator y).exact = op.exact x.exact y.exact)
    (hzero : (binary x operator y).DividesByZero ↔ op = .division ∧ y.exact = 0) :
    (binary x operator y).Computes (BoundTree.binary op b c).eval := by
  have hfirst := firstFault?_binary x operator y
  cases hfx : x.firstFault? with
  | some e =>
    rw [BoundTree.eval_binary_of_left_error (hx.fault e hfx)]
    exact computes_of_firstFault? (by rw [hfirst, hfx, Option.some_or, Option.some_or])
  | none =>
    obtain ⟨m, hm, hb⟩ := hx.value hfx
    cases hfy : y.firstFault? with
    | some e =>
      rw [BoundTree.eval_binary_of_right_error hb (hy.fault e hfy)]
      exact computes_of_firstFault? (by rw [hfirst, hfx, hfy, Option.none_or, Option.some_or])
    | none =>
      obtain ⟨n, hn, hc⟩ := hy.value hfy
      have hown : (binary x operator y).firstFault? = (binary x operator y).fault? := by
        rw [hfirst, hfx, hfy, Option.none_or, Option.none_or]
      have hn0 : n = 0 ↔ y.exact = 0 := by
        rw [← hn, ← Int32.toInt_inj]
        rfl
      rw [BoundTree.eval_binary_of_int hb hc]
      -- A zero divisor is noticed before the range, in the meaning as in the computation.
      by_cases hz : (binary x operator y).DividesByZero
      · have hdiv : op = .division ∧ n = 0 := by rw [hn0]; exact hzero.1 hz
        have happly : op.apply m n = .error .divisionByZero := if_pos hdiv
        rw [happly]
        exact computes_of_firstFault? (by rw [hown, fault?, if_pos hz])
      · have hdiv : ¬ (op = .division ∧ n = 0) := by rw [hn0]; exact fun h => hz (hzero.2 h)
        have happly : op.apply m n = (Operation.binary op).fit (binary x operator y).exact := by
          rw [BinaryOp.apply, if_neg hdiv, hexact, hm, hn]
        rw [happly]
        exact computes_fit hop hz hown

/-- A literal for a value evaluates to it. -/
theorem eval_image_literal {token : Token} {v : Value} (hv : token.value = some v)
    (h : token.Denotes v) : (literal token).image.eval = .ok v := by
  have hvalue : token.literalValue = v := by
    cases h with
    | number kind _ => simp [Token.literalValue, hv, kind, TokenKind.literalTy, Value.ty]
    | trueWord kind => simp [Token.literalValue, hv, kind, TokenKind.literalTy, Value.ty]
    | falseWord kind => simp [Token.literalValue, hv, kind, TokenKind.literalTy, Value.ty]
  rw [image, BoundTree.eval, hvalue]

/-- A proper tree without booleans is of integer type. -/
theorem firstTy_eq_int {t : ParseTree} (h : t.Proper) (hb : ¬ t.HasBoolean) :
    t.firstTy = .int := by
  induction t with
  | literal token =>
    obtain ⟨kind, -⟩ := exists_int_of_literal h hb
    simp [firstTy, kind, TokenKind.literalTy]
  | unary operator x ih => exact ih h.2 hb
  | binary x operator y ihx _ => exact ihx h.2.1 fun hx => hb (.inl hx)
  | error => exact h.elim

/-- The image of a proper tree without booleans computes what the tree means, and binding reports
nothing. -/
theorem Proper.computes {t : ParseTree} (h : t.Proper) (hb : ¬ t.HasBoolean) :
    t.offences = [] ∧ t.Computes t.image.eval := by
  induction t with
  | literal token =>
    refine ⟨rfl, ?_⟩
    have hnone : (literal token).firstFault? = none := by
      rw [firstFault?_eq_none_iff h hb]
      intro part hpart
      rw [parts, List.mem_singleton] at hpart
      subst hpart
      exact ⟨inRange_exact_literal h hb, not_false⟩
    obtain ⟨kind, n, hvalue, hn⟩ := exists_int_of_literal h hb
    refine ⟨fun e he => ?_, fun _ => ⟨n, hn, eval_image_literal hvalue (.number kind hn)⟩⟩
    rw [hnone] at he
    cases he
  | unary operator x ih =>
    obtain ⟨hoffences, hx⟩ := ih h.2 hb
    obtain ⟨op, hresolve, hop, hexact⟩ := exists_unaryOp x h.1
    -- The operand is of integer type, so that the sign has its operation.
    have hty : x.firstTy = .int := firstTy_eq_int h.2 hb
    have himage : (unary operator x).image = .unary op x.image := by
      simp only [image, hty, hresolve]
    rw [himage]
    refine ⟨?_, computes_unary hx hop hexact⟩
    simp [offences, hoffences, hty, hresolve]
  | binary x operator y ihx ihy =>
    have hbx : ¬ x.HasBoolean := fun hx => hb (.inl hx)
    have hby : ¬ y.HasBoolean := fun hy => hb (.inr hy)
    obtain ⟨hoffencesx, hx⟩ := ihx h.2.1 hbx
    obtain ⟨hoffencesy, hy⟩ := ihy h.2.2 hby
    obtain ⟨op, hresolve, hop, hexact, hzero⟩ := exists_binaryOp x y h.1
    have htyx : x.firstTy = .int := firstTy_eq_int h.2.1 hbx
    have htyy : y.firstTy = .int := firstTy_eq_int h.2.2 hby
    have himage : (binary x operator y).image = .binary op x.image y.image := by
      simp only [image, htyx, htyy, hresolve]
    rw [himage]
    refine ⟨?_, computes_binary hx hy hop hexact hzero⟩
    simp [offences, hoffencesx, hoffencesy, htyx, htyy, hresolve]
  | error => exact h.elim

/-! ## Trees with booleans -/

/-- A lone boolean is not of integer type. -/
theorem firstTy_ne_int_of_literal {t : ParseTree} (hb : t.HasBoolean)
    (h : ∃ token, t = literal token) : t.firstTy ≠ .int := by
  obtain ⟨token, rfl⟩ := h
  rcases hb with hk | hk
  · simp [firstTy, hk, TokenKind.literalTy]
  · simp [firstTy, hk, TokenKind.literalTy]

/-- A tree with a boolean whose operators all have operations is that boolean alone. -/
theorem eq_literal_of_offences_eq_nil {t : ParseTree} (hb : t.HasBoolean) (h : t.offences = []) :
    ∃ token, t = literal token := by
  -- An operator over a boolean operand would have no operation, so that there is no operator.
  induction t with
  | literal token => exact ⟨token, rfl⟩
  | unary operator x ih =>
    rw [offences, List.append_eq_nil_iff] at h
    obtain ⟨hx, hop⟩ := h
    have hbx : x.HasBoolean := hb
    have hne := firstTy_ne_int_of_literal hbx (ih hbx hx)
    cases hr : UnaryOp.resolve? operator.kind x.firstTy with
    | none => simp [hr] at hop
    | some op => exact absurd (UnaryOp.ty_of_resolve? hr) hne
  | binary x operator y ihx ihy =>
    rw [offences, List.append_eq_nil_iff, List.append_eq_nil_iff] at h
    obtain ⟨⟨hx, hy⟩, hop⟩ := h
    cases hr : BinaryOp.resolve? operator.kind x.firstTy y.firstTy with
    | none => simp [hr] at hop
    | some op =>
      obtain ⟨htyx, htyy⟩ := BinaryOp.ty_of_resolve? hr
      rcases hb with hbx | hby
      · exact absurd htyx (firstTy_ne_int_of_literal hbx (ihx hbx hx))
      · exact absurd htyy (firstTy_ne_int_of_literal hby (ihy hby hy))
  | error => exact hb.elim

end ParseTree

/-! ## Outcomes -/

variable {source : String}

/-- Without offences a source that is read without a report has the value of the image of its
tree. -/
theorem evaluate_of_image_ok (h : (Reading.ofString source).parse.2.diagnostics.toList = [])
    (hnil : (Reading.ofString source).parse.1.offences = []) {v : Value}
    (hv : (Reading.ofString source).parse.1.image.eval = .ok v) :
    evaluate source = .ok ⟨.empty, some v⟩ := by
  have hc := compile_of_read h
  rw [hnil, Diagnostics.reportAll_nil] at hc
  generalize (Reading.ofString source).parse.1 = t at hc hv
  exact evaluate_of_eval_ok hc (by rw [Compilation.eval_of_bound rfl rfl, hv, Except.map])

/-- Without offences a source that is read without a report fails as the image of its tree does. -/
theorem evaluate_of_image_error (h : (Reading.ofString source).parse.2.diagnostics.toList = [])
    (hnil : (Reading.ofString source).parse.1.offences = []) {e : EvalError}
    (he : (Reading.ofString source).parse.1.image.eval = .error e) :
    evaluate source = .error (.evaluation e) := by
  have hc := compile_of_read h
  rw [hnil, Diagnostics.reportAll_nil] at hc
  generalize (Reading.ofString source).parse.1 = t at hc he
  exact evaluate_of_eval_error hc (by rw [Compilation.eval_of_bound rfl rfl, he, Except.map])

/-- A lone literal is its own outcome. -/
theorem evaluate_of_literal {token : Token}
    (h : (Reading.ofString source).parse.2.diagnostics.toList = [])
    (ht : (Reading.ofString source).parse.1 = .literal token) {v : Value}
    (hv : token.Denotes v) : evaluate source = .ok ⟨.empty, some v⟩ := by
  have hproper := Reading.proper_parse ((Reading.failed_parse_eq_false_iff source).2 h)
  rw [ht] at hproper
  obtain ⟨w, hw, hdenotes⟩ := hproper
  rw [hv.unique hdenotes]
  have hnil : (Reading.ofString source).parse.1.offences = [] := by rw [ht, ParseTree.offences]
  exact evaluate_of_image_ok h hnil (by rw [ht, ParseTree.eval_image_literal hw hdenotes])

/-- The outcome of a source without booleans is what exact arithmetic makes of its tree. -/
theorem evaluate_of_not_hasBoolean
    (h : (Reading.ofString source).parse.2.diagnostics.toList = [])
    (hb : ¬ (Reading.ofString source).parse.1.HasBoolean) :
    (∀ e, (Reading.ofString source).parse.1.firstFault? = some e →
        evaluate source = .error (.evaluation e)) ∧
      ((Reading.ofString source).parse.1.firstFault? = none →
        ∃ n : Int32, n.toInt = (Reading.ofString source).parse.1.exact ∧
          evaluate source = .ok ⟨.empty, some (.int n)⟩) := by
  have hf := (Reading.failed_parse_eq_false_iff source).2 h
  obtain ⟨hnil, hcomputes⟩ := (Reading.proper_parse hf).computes hb
  constructor
  · intro e he
    exact evaluate_of_image_error h hnil (hcomputes.fault e he)
  · intro hnone
    obtain ⟨n, hn, hvalue⟩ := hcomputes.value hnone
    exact ⟨n, hn, evaluate_of_image_ok h hnil hvalue⟩

/-- A source with a boolean and an operator has offences and no value. -/
theorem evaluate_of_hasBoolean
    (h : (Reading.ofString source).parse.2.diagnostics.toList = [])
    (hb : (Reading.ofString source).parse.1.HasBoolean)
    (hne : ∀ token, (Reading.ofString source).parse.1 ≠ .literal token) :
    ∃ d, evaluate source = .ok ⟨d, none⟩ ∧ d.toList ≠ [] := by
  have hc := compile_of_read h
  generalize (Reading.ofString source).parse.1 = t at hb hne hc
  have hreported : (Diagnostics.empty.reportAll t.offences).toList ≠ [] := by
    rw [Diagnostics.toList_reportAll]
    intro hnil
    obtain ⟨token, ht⟩ := ParseTree.eq_literal_of_offences_eq_nil hb hnil
    exact hne token ht
  exact ⟨_, evaluate_of_eval_ok hc (Compilation.eval_of_reported hreported), hreported⟩

/-- The outcome of a source that is read without a report, whose tree is `t`. A lone boolean is its
own outcome. Without booleans the outcome is the exact value of `t`, if all of its parts are in
range and none divides by zero, and otherwise what is wrong with the first of them. An operator
together with a boolean is reported, and there is no value. -/
theorem evaluate_of_read (source : String)
    (h : (Reading.ofString source).parse.2.diagnostics.toList = []) :
    let t := (Reading.ofString source).parse.1
    (∀ token, t = .literal token →
        (token.kind = .trueWord → evaluate source = .ok ⟨.empty, some (.boolean true)⟩) ∧
        (token.kind = .falseWord → evaluate source = .ok ⟨.empty, some (.boolean false)⟩)) ∧
      (¬ t.HasBoolean →
        (t.AllInRange →
          ∃ n : Int32, n.toInt = t.exact ∧ evaluate source = .ok ⟨.empty, some (.int n)⟩) ∧
        (¬ t.AllInRange →
          ∃ e, t.firstFault? = some e ∧ evaluate source = .error (.evaluation e))) ∧
      (t.HasBoolean → (∀ token, t ≠ .literal token) →
        ∃ d, evaluate source = .ok ⟨d, none⟩ ∧ d.toList ≠ []) := by
  have hproper := Reading.proper_parse ((Reading.failed_parse_eq_false_iff source).2 h)
  refine ⟨fun token ht => ⟨fun hk => ?_, fun hk => ?_⟩, fun hb => ?_, evaluate_of_hasBoolean h⟩
  · exact evaluate_of_literal h ht (.trueWord hk)
  · exact evaluate_of_literal h ht (.falseWord hk)
  · obtain ⟨hfault, hvalue⟩ := evaluate_of_not_hasBoolean h hb
    have hiff := ParseTree.firstFault?_eq_none_iff hproper hb
    refine ⟨fun hrange => hvalue (hiff.2 hrange), fun hrange => ?_⟩
    obtain ⟨e, he⟩ := Option.ne_none_iff_exists'.1 fun hnone => hrange (hiff.1 hnone)
    exact ⟨e, he, hfault e he⟩

/-- A sum has its exact value, the first of two failures is the outcome, and a boolean operand keeps
an expression from being evaluated at all. -/
theorem evaluate_three_sources :
    (∃ n : Int32, n.toInt = -5 ∧ evaluate "1 + 2 * -3" = .ok ⟨.empty, some (.int n)⟩) ∧
      evaluate "-2147483648 / -1 + 1 / 0" =
        .error (.evaluation (.overflow (.binary .division))) ∧
      ∃ d, evaluate "1 / 0 + true" = .ok ⟨d, none⟩ ∧ d.toList ≠ [] := by
  refine ⟨?_, ?_, ?_⟩
  · obtain ⟨-, hint, -⟩ := evaluate_of_read "1 + 2 * -3" (by decide +kernel)
    obtain ⟨n, hn, heval⟩ := (hint (by decide +kernel)).1 (by decide +kernel)
    have hexact : (Reading.ofString "1 + 2 * -3").parse.1.exact = -5 := by decide +kernel
    exact ⟨n, hn.trans hexact, heval⟩
  · obtain ⟨-, hint, -⟩ := evaluate_of_read "-2147483648 / -1 + 1 / 0" (by decide +kernel)
    obtain ⟨e, he, heval⟩ := (hint (by decide +kernel)).2 (by decide +kernel)
    have hfirst : (Reading.ofString "-2147483648 / -1 + 1 / 0").parse.1.firstFault? =
        some (.overflow (.binary .division)) := by decide +kernel
    rw [heval, Option.some_inj.1 (he.symm.trans hfirst)]
  · obtain ⟨-, -, hboolean⟩ := evaluate_of_read "1 / 0 + true" (by decide +kernel)
    have hne : (Reading.ofString "1 / 0 + true").parse.1.kind ≠ .literal := by decide +kernel
    refine hboolean (by decide +kernel) fun token ht => hne ?_
    rw [ht, ParseTree.kind]

end Calculator
