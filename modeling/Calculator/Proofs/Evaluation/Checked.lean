import Mathlib.Data.Int.Notation
import Calculator.Proofs.Binding.Typing

/-!
# Evaluation as exact arithmetic with checks

Over integers without bounds a bound tree has an exact value, unless an operand of it is a boolean
or a divisor is zero (`BoundTree.exactValue?`). This is so for all trees, also for those that no
binding yields. An evaluation with 32-bit integers comes to the same value as long as every part of
the tree passes its checks: its operands are integers, its divisor is not zero, and its result is in
range (`BoundTree.Passes`).

Otherwise the outcome is the first check that fails, in the order in which an evaluation makes them
(`BoundTree.checks`): what belongs to the left operand, that it is an integer, the same for the
right operand, the divisor, the range of the result. `BoundTree.eval_checked` puts this together.
-/

namespace Calculator

/-- A value in exact arithmetic. -/
inductive ExactValue where
  /-- An integer, of any size. -/
  | int (n : ℤ)
  | boolean (b : Bool)
  deriving DecidableEq

/-- A value as one in exact arithmetic. -/
def Value.exact : Value → ExactValue
  | int n => .int n.toInt
  | boolean b => .boolean b

/-- Values are equal if they are so in exact arithmetic. -/
theorem Value.exact_inj {v w : Value} : v.exact = w.exact ↔ v = w := by
  cases v <;> cases w <;> simp [Value.exact, Int32.toInt_inj]

namespace BoundTree

/-! ## Exact values -/

/-- The exact value of a tree: operations have one on integers only, and a division only if the
divisor is not zero. Its quotient is cut off toward zero. -/
def exactValue? : BoundTree → Option ExactValue
  | literal v => some v.exact
  | unary op x =>
    match x.exactValue? with
    | some (.int m) =>
      match op with
      | .identity => some (.int m)
      | .negation => some (.int (-m))
    | _ => none
  | binary op x y =>
    match x.exactValue?, y.exactValue? with
    | some (.int m), some (.int n) =>
      match op with
      | .addition => some (.int (m + n))
      | .subtraction => some (.int (m - n))
      | .multiplication => some (.int (m * n))
      | .division => if n = 0 then none else some (.int (m.tdiv n))
    | _, _ => none

variable {t x y : BoundTree}

/-- On an integer an operation has its exact result. -/
theorem exactValue?_unary {op : UnaryOp} {m : ℤ} (hx : x.exactValue? = some (.int m)) :
    (unary op x).exactValue? = some (.int (op.exact m)) := by
  simp only [exactValue?, hx]
  cases op <;> rfl

/-- On two integers an operation that does not divide by zero has its exact result. -/
theorem exactValue?_binary {op : BinaryOp} {m n : ℤ} (hx : x.exactValue? = some (.int m))
    (hy : y.exactValue? = some (.int n)) (hzero : ¬ (op = .division ∧ n = 0)) :
    (binary op x y).exactValue? = some (.int (op.exact m n)) := by
  simp only [exactValue?, hx, hy]
  cases op with
  | division => exact if_neg fun hn => hzero ⟨rfl, hn⟩
  | _ => rfl

/-- The parts of a tree, the last of which is the tree itself. -/
def subtrees : BoundTree → List BoundTree
  | literal v => [literal v]
  | unary op x => x.subtrees ++ [unary op x]
  | binary op x y => x.subtrees ++ y.subtrees ++ [binary op x y]

/-- The operands of the operation at the root. -/
def operands : BoundTree → List BoundTree
  | literal _ => []
  | unary _ x => [x]
  | binary _ x y => [x, y]

/-- The operation at the root. -/
def operation? : BoundTree → Option Operation
  | literal _ => none
  | unary op _ => some (.unary op)
  | binary op _ _ => some (.binary op)

/-- Nothing is wrong at the root of a tree. -/
structure Passes (t : BoundTree) : Prop where
  /-- It has an exact value. -/
  exact : ∃ q, t.exactValue? = some q
  /-- Its operands are integers. -/
  operands : ∀ x ∈ t.operands, ∃ n, x.exactValue? = some (.int n)
  /-- Its divisor is not zero. -/
  divisor : ∀ x y, t = binary .division x y → y.exactValue? ≠ some (.int 0)
  /-- Its result is in range. -/
  range : ∀ n, t.exactValue? = some (.int n) → InRange n

/-! ## Checks in their order -/

/-- What is checked in an evaluation. -/
inductive Check where
  /-- The operand of the operation is an integer. -/
  | operand (operation : Operation) (x : BoundTree)
  /-- The divisor of the operation, if it is a division, is not zero. -/
  | divisor (op : BinaryOp) (y : BoundTree)
  /-- The result of the operation is in range. -/
  | result (operation : Operation) (t : BoundTree)

/-- How a check fails, if it does. -/
def Check.failure? : Check → Option EvalError
  | operand operation x =>
    match x.exactValue? with
    | some (.boolean _) => some (.invalidOperand operation .boolean)
    | _ => none
  | divisor op y =>
    if op = .division ∧ y.exactValue? = some (.int 0) then some .divisionByZero else none
  | result operation t =>
    match t.exactValue? with
    | some (.int n) => if InRange n then none else some (.overflow operation)
    | _ => none

/-- The checks of an evaluation in their order. An operand is evaluated before it is checked, and
the left one is checked before the right one is evaluated. -/
def checks : BoundTree → List Check
  | literal _ => []
  | unary op x => x.checks ++ [.operand (.unary op) x] ++ [.result (.unary op) (unary op x)]
  | binary op x y =>
    x.checks ++ [.operand (.binary op) x] ++ y.checks ++ [.operand (.binary op) y] ++
      [.divisor op y] ++ [.result (.binary op) (binary op x y)]

/-- The failure of the first check that fails. -/
def firstFailure? (t : BoundTree) : Option EvalError := t.checks.findSome? Check.failure?

/-- The first failure of an operand, which is evaluated and then checked for its operation. -/
def operandFailure? (operation : Operation) (x : BoundTree) : Option EvalError :=
  x.firstFailure?.or (Check.operand operation x).failure?

/-- An operation on one operand fails with the operand, or else with its result. -/
theorem firstFailure?_unary (op : UnaryOp) (x : BoundTree) :
    (unary op x).firstFailure? =
      (x.operandFailure? (.unary op)).or (Check.result (.unary op) (unary op x)).failure? := by
  simp only [firstFailure?, checks, operandFailure?, List.findSome?_append,
    List.findSome?_singleton]

/-- An operation on two operands fails with the left one, or else with the right one, or else with
its divisor, or else with its result. -/
theorem firstFailure?_binary (op : BinaryOp) (x y : BoundTree) :
    (binary op x y).firstFailure? =
      (x.operandFailure? (.binary op)).or ((y.operandFailure? (.binary op)).or
        ((Check.divisor op y).failure?.or
          (Check.result (.binary op) (binary op x y)).failure?)) := by
  simp only [firstFailure?, checks, operandFailure?, List.findSome?_append,
    List.findSome?_singleton, Option.or_assoc]

/-! ## The evaluator makes these checks -/

/-- The outcome is the failure if there is one, and otherwise something of which `P` holds. -/
def Yields {α : Type} (failure? : Option EvalError) (P : α → Prop) (r : Except EvalError α) :
    Prop :=
  match failure? with
  | some e => r = .error e
  | none => ∃ a, r = .ok a ∧ P a

/-- Of two computations in turn the failure of the first one counts, or else that of the second. -/
theorem Yields.bind {α β : Type} {f g : Option EvalError} {P : α → Prop} {Q : β → Prop}
    {r : Except EvalError α} {k : α → Except EvalError β} (hr : Yields f P r)
    (hk : ∀ a, P a → Yields g Q (k a)) : Yields (f.or g) Q (r.bind k) := by
  cases f with
  | some e =>
    have he : r = .error e := hr
    rw [he]
    rfl
  | none =>
    obtain ⟨a, ha, hP⟩ := hr
    rw [ha]
    exact hk a hP

/-- A value that is passed on has what is asked of it afterwards. -/
theorem Yields.map {α β : Type} {f : Option EvalError} {P : α → Prop} {Q : β → Prop}
    {r : Except EvalError α} {g : α → β} (hr : Yields f P r) (hg : ∀ a, P a → Q (g a)) :
    Yields f Q (r.map g) := by
  cases f with
  | some e =>
    have he : r = .error e := hr
    rw [he]
    rfl
  | none =>
    obtain ⟨a, ha, hP⟩ := hr
    rw [ha]
    exact ⟨g a, rfl, hg a hP⟩

/-- The outcome is a failure exactly if there is that failure. -/
theorem Yields.eq_error_iff {α : Type} {f : Option EvalError} {P : α → Prop}
    {r : Except EvalError α} {e : EvalError} (h : Yields f P r) : r = .error e ↔ f = some e := by
  cases f with
  | some e' =>
    have he : r = .error e' := h
    rw [he, Except.error.injEq, Option.some_inj]
  | none =>
    obtain ⟨a, ha, -⟩ := h
    simp [ha]

/-- The outcome is a value exactly if there is no failure and the value is the one of which `P`
holds. -/
theorem Yields.eq_ok_iff {α : Type} {f : Option EvalError} {P : α → Prop}
    {r : Except EvalError α} {a : α} (h : Yields f P r) (hP : ∀ b, P b → (b = a ↔ P a)) :
    r = .ok a ↔ f = none ∧ P a := by
  cases f with
  | some e =>
    have he : r = .error e := h
    simp [he]
  | none =>
    obtain ⟨b, hb, hPb⟩ := h
    rw [hb, Except.ok.injEq, hP b hPb, eq_self, true_and]

/-- A tree that evaluates as its checks say is an operand as its checks say. -/
theorem Yields.operand {operation : Operation}
    (h : Yields x.firstFailure? (fun v : Value => x.exactValue? = some v.exact) x.eval) :
    Yields (x.operandFailure? operation) (fun n : Int32 => x.exactValue? = some (.int n.toInt))
      (BoundTree.operand operation x.eval) := by
  unfold operandFailure?
  cases hf : x.firstFailure? with
  | some e =>
    rw [hf] at h
    have he : x.eval = .error e := h
    rw [he]
    rfl
  | none =>
    rw [hf] at h
    obtain ⟨v, hv, hexact⟩ := h
    rw [hv, Option.none_or, Check.failure?, hexact]
    cases v with
    | int n => exact ⟨n, rfl, rfl⟩
    | boolean b => rfl

/-- An exact result is let through if it is in range. -/
theorem yields_fit {operation : Operation} {n : ℤ} (h : t.exactValue? = some (.int n)) :
    Yields (Check.result operation t).failure?
      (fun v : Int32 => t.exactValue? = some (.int v.toInt)) (operation.fit n) := by
  rw [Check.failure?, h]
  dsimp only
  cases hfit : operation.fit n with
  | ok v =>
    have hv : v.toInt = n := Operation.fit_eq_ok_iff.1 hfit
    rw [if_pos (hv ▸ inRange_toInt v)]
    exact ⟨v, rfl, congrArg (some <| ExactValue.int ·) hv.symm⟩
  | error e =>
    obtain ⟨hrange, rfl⟩ := Operation.fit_eq_error_iff.1 hfit
    rw [if_neg hrange]
    rfl

/-- An operation on two integers fails if it divides by zero, or else with its result. -/
theorem yields_apply {op : BinaryOp} {a b : Int32} (hx : x.exactValue? = some (.int a.toInt))
    (hy : y.exactValue? = some (.int b.toInt)) :
    Yields ((Check.divisor op y).failure?.or (Check.result (.binary op) (binary op x y)).failure?)
      (fun v : Int32 => (binary op x y).exactValue? = some (.int v.toInt)) (op.apply a b) := by
  have hb : (op = .division ∧ y.exactValue? = some (.int 0)) ↔ op = .division ∧ b = 0 := by
    rw [hy, Option.some_inj, ExactValue.int.injEq, ← Int32.toInt_inj]
    rfl
  rw [Check.failure?, BinaryOp.apply]
  by_cases hzero : op = .division ∧ b = 0
  · rw [if_pos hzero, if_pos (hb.2 hzero)]
    rfl
  · rw [if_neg hzero, if_neg (mt hb.1 hzero), Option.none_or]
    have hzero' : ¬ (op = .division ∧ b.toInt = 0) := fun h => hzero ⟨h.1, Int32.toInt_inj.1 h.2⟩
    exact yields_fit (exactValue?_binary hx hy hzero')

/-- An operation on one operand is applied once the operand is known to be an integer. -/
theorem eval_unary (op : UnaryOp) (x : BoundTree) :
    (unary op x).eval =
      (BoundTree.operand (.unary op) x.eval).bind fun a => (op.apply a).map .int := by
  rw [eval]
  cases BoundTree.operand (.unary op) x.eval <;> rfl

/-- An operation on two operands is applied once they are known to be integers, the left one
first. -/
theorem eval_binary (op : BinaryOp) (x y : BoundTree) :
    (binary op x y).eval = (BoundTree.operand (.binary op) x.eval).bind fun a =>
      (BoundTree.operand (.binary op) y.eval).bind fun b => (op.apply a b).map .int := by
  rw [eval]
  cases BoundTree.operand (.binary op) x.eval with
  | error e => rfl
  | ok a => cases BoundTree.operand (.binary op) y.eval <;> rfl

/-- The evaluation of a tree fails as the first of its checks that fails, and otherwise yields the
exact value of the tree. -/
theorem yields_eval (t : BoundTree) :
    Yields t.firstFailure? (fun v : Value => t.exactValue? = some v.exact) t.eval := by
  induction t with
  | literal v => exact ⟨v, rfl, rfl⟩
  | unary op x ih =>
    rw [firstFailure?_unary, eval_unary]
    exact ih.operand.bind fun a ha => (yields_fit (exactValue?_unary ha)).map fun n hn => hn
  | binary op x y ihx ihy =>
    rw [firstFailure?_binary, eval_binary]
    -- The right operand is evaluated only once the left one is known to be an integer.
    refine ihx.operand.bind fun a ha => ihy.operand.bind fun b hb => ?_
    exact (yields_apply ha hb).map fun n hn => hn

/-! ## When no check fails -/

/-- Nothing is wrong with a literal. -/
theorem passes_literal (v : Value) : (literal v).Passes where
  exact := ⟨v.exact, rfl⟩
  operands := nofun
  divisor := nofun
  range := by
    intro n hn
    cases v with
    | int m =>
      cases hn
      exact inRange_toInt m
    | boolean b => cases hn

/-- Nothing is wrong with an operation on an integer if its exact result is in range. -/
theorem passes_unary_iff {op : UnaryOp} :
    (unary op x).Passes ↔ ∃ m, x.exactValue? = some (.int m) ∧ InRange (op.exact m) := by
  constructor
  · intro h
    obtain ⟨m, hm⟩ := h.operands x List.mem_cons_self
    exact ⟨m, hm, h.range _ (exactValue?_unary hm)⟩
  · rintro ⟨m, hm, hrange⟩
    have hexact : (unary op x).exactValue? = some (.int (op.exact m)) := exactValue?_unary hm
    refine ⟨⟨_, hexact⟩, ?_, nofun, ?_⟩
    · simpa [operands] using ⟨m, hm⟩
    · intro n hn
      rw [hexact] at hn
      cases hn
      exact hrange

/-- Nothing is wrong with an operation on two integers if it does not divide by zero and its exact
result is in range. -/
theorem passes_binary_iff {op : BinaryOp} :
    (binary op x y).Passes ↔ ∃ m n, x.exactValue? = some (.int m) ∧ y.exactValue? = some (.int n) ∧
      ¬ (op = .division ∧ n = 0) ∧ InRange (op.exact m n) := by
  constructor
  · intro h
    obtain ⟨m, hm⟩ := h.operands x List.mem_cons_self
    obtain ⟨n, hn⟩ := h.operands y (List.mem_cons_of_mem _ List.mem_cons_self)
    have hzero : ¬ (op = .division ∧ n = 0) := by
      rintro ⟨rfl, rfl⟩
      exact h.divisor x y rfl hn
    exact ⟨m, n, hm, hn, hzero, h.range _ (exactValue?_binary hm hn hzero)⟩
  · rintro ⟨m, n, hm, hn, hzero, hrange⟩
    have hexact := exactValue?_binary hm hn hzero
    refine ⟨⟨_, hexact⟩, ?_, ?_, ?_⟩
    · simpa [operands] using ⟨⟨m, hm⟩, n, hn⟩
    · rintro x' y' ⟨⟩ hy
      rw [hn] at hy
      cases hy
      exact hzero ⟨rfl, rfl⟩
    · intro k hk
      rw [hexact] at hk
      cases hk
      exact hrange

/-- Every tree is a part of itself. -/
theorem mem_subtrees_self (t : BoundTree) : t ∈ t.subtrees := by
  cases t <;> simp [subtrees]

/-- An operand with nothing wrong in it fails no check exactly if it is an integer. -/
theorem operandFailure?_eq_none_iff {operation : Operation}
    (h : x.firstFailure? = none ↔ ∀ s ∈ x.subtrees, s.Passes) :
    x.operandFailure? operation = none ↔
      (∀ s ∈ x.subtrees, s.Passes) ∧ ∃ n, x.exactValue? = some (.int n) := by
  rw [operandFailure?, Option.or_eq_none_iff, h]
  refine and_congr_right fun hall => ?_
  obtain ⟨q, hq⟩ := (hall x x.mem_subtrees_self).exact
  rw [Check.failure?, hq]
  cases q <;> simp

/-- The exact result of an operation fails no check exactly if it is in range. -/
theorem failure?_result_eq_none_iff (operation : Operation) {n : ℤ}
    (h : t.exactValue? = some (.int n)) :
    (Check.result operation t).failure? = none ↔ InRange n := by
  rw [Check.failure?, h]
  simp

/-- A divisor fails no check exactly if it does not divide as zero. -/
theorem failure?_divisor_eq_none_iff {op : BinaryOp} {n : ℤ} (h : y.exactValue? = some (.int n)) :
    (Check.divisor op y).failure? = none ↔ ¬ (op = .division ∧ n = 0) := by
  simp [Check.failure?, h]

/-- No check of a tree fails exactly if nothing is wrong with any part of it. -/
theorem firstFailure?_eq_none_iff (t : BoundTree) :
    t.firstFailure? = none ↔ ∀ s ∈ t.subtrees, s.Passes := by
  induction t with
  | literal v =>
    rw [subtrees, List.forall_mem_singleton]
    exact iff_of_true rfl (passes_literal v)
  | unary op x ih =>
    rw [firstFailure?_unary, Option.or_eq_none_iff, operandFailure?_eq_none_iff ih, subtrees,
      List.forall_mem_append, List.forall_mem_singleton, passes_unary_iff, and_assoc,
      ← exists_and_right]
    refine and_congr_right fun _ => exists_congr fun m => and_congr_right fun hm => ?_
    exact failure?_result_eq_none_iff _ (exactValue?_unary hm)
  | binary op x y ihx ihy =>
    rw [firstFailure?_binary, Option.or_eq_none_iff, Option.or_eq_none_iff, Option.or_eq_none_iff,
      operandFailure?_eq_none_iff ihx, operandFailure?_eq_none_iff ihy, subtrees,
      List.forall_mem_append, List.forall_mem_append, List.forall_mem_singleton, passes_binary_iff]
    -- The last two checks speak about exact values, which there are once the operands are integers.
    constructor
    · rintro ⟨⟨hallx, m, hm⟩, ⟨hally, n, hn⟩, hdivisor, hresult⟩
      have hzero := (failure?_divisor_eq_none_iff hn).1 hdivisor
      have hrange := (failure?_result_eq_none_iff _ (exactValue?_binary hm hn hzero)).1 hresult
      exact ⟨⟨hallx, hally⟩, m, n, hm, hn, hzero, hrange⟩
    · rintro ⟨⟨hallx, hally⟩, m, n, hm, hn, hzero, hrange⟩
      have hdivisor := (failure?_divisor_eq_none_iff hn).2 hzero
      have hresult := failure?_result_eq_none_iff (.binary op) (exactValue?_binary hm hn hzero)
      exact ⟨⟨hallx, m, hm⟩, ⟨hally, n, hn⟩, hdivisor, hresult.2 hrange⟩

/-! ## Operands that are booleans -/

/-- Only a literal has a boolean for its exact value. -/
theorem eq_literal_of_exactValue? {b : Bool} (h : x.exactValue? = some (.boolean b)) :
    x = literal (.boolean b) := by
  cases x with
  | literal v =>
    cases v with
    | int n => cases h
    | boolean c =>
      cases h
      rfl
  | unary op x =>
    rw [exactValue?] at h
    split at h
    · cases op <;> cases h
    · cases h
  | binary op x y =>
    rw [exactValue?] at h
    split at h
    · cases op with
      | division =>
        dsimp only at h
        split at h <;> cases h
      | _ => cases h
    · cases h

/-- A check that fails by an operand that is no integer is about a boolean literal. -/
theorem Check.eq_operand_of_failure? {c : Check} {operation : Operation} {ty : Ty}
    (h : c.failure? = some (.invalidOperand operation ty)) :
    ty = .boolean ∧ ∃ b, c = .operand operation (literal (.boolean b)) := by
  cases c with
  | operand operation' x =>
    rw [failure?] at h
    split at h
    · next b hb =>
      cases h
      exact ⟨rfl, b, by rw [eq_literal_of_exactValue? hb]⟩
    · cases h
  | divisor op y =>
    rw [failure?] at h
    split at h <;> cases h
  | result operation' t =>
    rw [failure?] at h
    split at h
    · split at h <;> cases h
    · cases h

/-- What is checked for an operation is an operand of that operation in a part of the tree. -/
theorem exists_subtree_of_mem_checks {operation : Operation}
    (h : .operand operation x ∈ t.checks) :
    ∃ s ∈ t.subtrees, s.operation? = some operation ∧ x ∈ s.operands := by
  induction t with
  | literal v => cases h
  | unary op y ih =>
    simp only [checks, List.mem_append, List.mem_singleton, reduceCtorEq, or_false] at h
    rcases h with hy | hroot
    · obtain ⟨s, hs, hx⟩ := ih hy
      exact ⟨s, List.mem_append_left _ hs, hx⟩
    · cases hroot
      exact ⟨_, mem_subtrees_self _, rfl, List.mem_cons_self⟩
  | binary op y z ihy ihz =>
    simp only [checks, List.mem_append, List.mem_singleton, reduceCtorEq, or_false] at h
    rcases h with ((hy | hroot) | hz) | hroot
    · obtain ⟨s, hs, hx⟩ := ihy hy
      exact ⟨s, List.mem_append_left _ (List.mem_append_left _ hs), hx⟩
    · cases hroot
      exact ⟨_, mem_subtrees_self _, rfl, List.mem_cons_self⟩
    · obtain ⟨s, hs, hx⟩ := ihz hz
      exact ⟨s, List.mem_append_left _ (List.mem_append_right _ hs), hx⟩
    · cases hroot
      exact ⟨_, mem_subtrees_self _, rfl, List.mem_cons_of_mem _ List.mem_cons_self⟩

/-! ## The outcome of an evaluation -/

/-- Any tree, well typed or not, evaluates to a value exactly if nothing is wrong with any part of
it, and then to its exact value. Otherwise the outcome is the first failure. An operand is found not
to be an integer only if it is a boolean literal. -/
theorem eval_checked (t : BoundTree) :
    (∀ v, t.eval = .ok v ↔ (∀ s ∈ t.subtrees, s.Passes) ∧ t.exactValue? = some v.exact) ∧
      (∀ e, t.eval = .error e ↔ t.firstFailure? = some e) ∧
      ∀ operation ty, t.eval = .error (.invalidOperand operation ty) →
        ty = .boolean ∧ ∃ s ∈ t.subtrees, s.operation? = some operation ∧
          ∃ b, literal (.boolean b) ∈ s.operands := by
  have hyields := t.yields_eval
  refine ⟨fun v => ?_, fun e => hyields.eq_error_iff, fun operation ty h => ?_⟩
  · rw [← firstFailure?_eq_none_iff]
    refine hyields.eq_ok_iff fun w hw => ?_
    rw [hw, Option.some_inj, Value.exact_inj]
  · -- The failure is that of a check, which is about an operand and so about a part of the tree.
    obtain ⟨c, hc, hfailure⟩ := List.exists_of_findSome?_eq_some (hyields.eq_error_iff.1 h)
    obtain ⟨hty, b, rfl⟩ := Check.eq_operand_of_failure? hfailure
    obtain ⟨s, hs, hoperation, hmem⟩ := exists_subtree_of_mem_checks hc
    exact ⟨hty, s, hs, hoperation, b, hmem⟩

/-- The left operand is checked before the right one is evaluated. -/
example : (binary .division (literal (.boolean true))
    (binary .division (literal (.int 1)) (literal (.int 0)))).eval =
      .error (.invalidOperand (.binary .division) .boolean) := rfl

end BoundTree

end Calculator
