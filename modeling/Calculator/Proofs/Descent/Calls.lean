import Calculator.Proofs.Descent.Notes
import Calculator.Proofs.Grammar.Rules
import Calculator.Proofs.Reading.Run

/-!
# The calls of a descent

With so many levels left as the counter is below the limit, a call of a procedure returns with what
the rule of the grammar comes to on that level (`Descent.calls`). The counter shows the same as at
the call then.

The proof is by induction on the number of levels left. A chain, a sign or a parenthesis raises the
counter before it calls a procedure again, so that the calls inside have less levels left, or none
are made (`Descent.nest_cases`). Without raising it the procedures call one another only from
`expression` towards `primary`. A place that is lost is nothing special in this: every fault is
reported, or not, by `Descent.fault`, and the descent goes on from there.
-/

namespace Calculator

open Grammar

/-- The rules of the level inside one with so many levels left. -/
def Rules.inside : ℕ → Option Rules
  | 0 => none
  | levels + 1 => some (within levels)

/-- The rules of a level are made from those of the level inside it, if there is one. -/
theorem Rules.within_eq_around (levels : ℕ) : within levels = around (inside levels) := by
  cases levels with
  | zero => rfl
  | succ levels => rfl

/-- The rule that reads what a procedure reads with so many levels left. -/
def Procedure.rule (levels : ℕ) : Procedure → Rule
  | expression | term => (Rules.within levels).term
  | factor => (Rules.within levels).factor
  | unary => (Rules.within levels).unary
  | primary => Grammar.primary (Rules.inside levels)

/-- The rule that reads on in a chain with so many levels left. -/
def Chain.tail (levels : ℕ) : Chain → ParseTree → Rule
  | sum => (Rules.within levels).termTail
  | product => (Rules.within levels).factorTail

namespace Chain

/-- The procedure that reads such a chain. -/
def procedure : Chain → Procedure
  | sum => .term
  | product => .factor

/-- The rule that reads such a chain with so many levels left. -/
def rule (levels : ℕ) (c : Chain) : Rule := fun r =>
  c.tail levels (c.operand.rule levels r).1 (c.operand.rule levels r).2

variable {c : Chain} {levels : ℕ} {left : ParseTree} {r : Reading}

/-- Without an operator a chain is at its end. -/
theorem tail_of_not_operator (h : c.isOperator r.current = false) :
    c.tail levels left r = (left, r) := by
  cases c with
  | sum => rw [tail, Rules.within_eq_around]; exact termTail_of_not_operator h
  | product => rw [tail, Rules.within_eq_around]; exact factorTail_of_not_operator h

/-- At the innermost level an operator is too deep. -/
theorem tail_zero_of_operator (h : c.isOperator r.current = true) :
    c.tail 0 left r = (left, r.advance.faultHere .tooDeep) := by
  cases c with
  | sum => exact termTail_none_of_operator h
  | product => exact factorTail_none_of_operator h

/-- Behind an operator a chain goes on with an operand of the level inside. -/
theorem tail_succ_of_operator (h : c.isOperator r.current = true) :
    c.tail (levels + 1) left r =
      c.tail levels (.binary left r.current (c.operand.rule levels r.advance).1)
        (c.operand.rule levels r.advance).2 := by
  cases c with
  | sum => exact termTail_of_operator h
  | product => exact factorTail_of_operator h

/-- The operators of a chain are operators. -/
theorem fits_of_isOperator {t : Token} (h : c.isOperator t = true) :
    Use.operator.fits t.kind = true := by
  cases c with
  | sum => rcases isTermOperator_iff.1 h with hk | hk <;> rw [hk] <;> rfl
  | product => rcases isFactorOperator_iff.1 h with hk | hk <;> rw [hk] <;> rfl

end Chain

/-- With so many levels left no more calls of `unary` are nested in a call of the procedure. -/
def Procedure.unaries (levels : ℕ) : Procedure → ℕ
  | primary => levels
  | _ => levels + 1

namespace Descent

variable {d : Descent} {unaries levels : ℕ} {x : ParseTree × Reading}

/-- A part of a descent is for the reading what a rule has come to, and leaves the counter as it
was. -/
structure Reads (unaries : ℕ) (d : Descent) (x : ParseTree × Reading) (d' : Descent) : Prop where
  reading : d'.reading = x.2
  depth : d'.depth = d.depth
  leads : d.Leads unaries d'

/-- The outcome of a part of a descent is what a rule has come to. -/
def Yields (unaries : ℕ) (d : Descent) (outcome : Option (ParseTree × Descent))
    (x : ParseTree × Reading) : Prop :=
  ∃ d', outcome = some (x.1, d') ∧ d.Reads unaries x d'

/-- A call returns with what a rule comes to if it comes to that between. -/
theorem exists_call {p : Procedure} (hdepth : d.depth ≤ nestingLimit)
    (h : (d.enter p).Yields unaries ((d.enter p).body p) x) :
    ∃ d', d.call p = some (x.1, d') ∧ d.Reads (unaries + if p = .unary then 1 else 0) x d' ∧
      d.entry p ∈ d'.moments := by
  obtain ⟨d', hbody, hreads⟩ := h
  obtain ⟨hleads, hentry⟩ := hreads.leads.call hdepth hreads.depth
  refine ⟨d'.leave, ?_, ⟨hreads.reading, hreads.depth, hleads⟩, hentry⟩
  rw [Descent.call, hbody]
  rfl

/-- Calls of a procedure return with what its rule comes to, leave the counter as it was, and are
noted. At most so many calls of `unary` are nested in one of them. -/
def Calls (levels unaries : ℕ) (p : Procedure) : Prop :=
  ∀ d : Descent, d.depth + levels = nestingLimit →
    ∃ d', d.call p = some ((p.rule levels d.reading).1, d') ∧
      d.Reads unaries (p.rule levels d.reading) d' ∧ d.entry p ∈ d'.moments

/-- A call returns with what its rule comes to. -/
theorem Calls.yields {p : Procedure} (hcalls : Calls levels unaries p)
    (h : d.depth + levels = nestingLimit) :
    d.Yields unaries (d.call p) (p.rule levels d.reading) := by
  obtain ⟨d', hcall, hreads, -⟩ := hcalls d h
  exact ⟨d', hcall, hreads⟩

/-- Behind a token that leads further in, what is too deep is reported at the innermost level, and
at any other one a call of the level inside returns. -/
theorem nest_cases {p : Procedure} (h : d.depth + levels = nestingLimit)
    (hinner : ∀ m, levels = m + 1 → Calls m levels p) :
    (levels = 0 ∧ ∃ d', d.nest = (false, d') ∧ d'.reading = d.reading.faultHere .tooDeep ∧
        d.Leads levels d') ∨
      ∃ m d₁ d', levels = m + 1 ∧ d.nest = (true, d₁) ∧
        d₁.call p = some ((p.rule m d.reading).1, d') ∧ d'.reading = (p.rule m d.reading).2 ∧
        d'.depth = d.depth + 1 ∧ d.Leads levels d' := by
  have hnest : d.Leads levels (d.count (d.depth + 1)) := d.leads_count (by omega)
  cases levels with
  | zero =>
    exact .inl ⟨rfl, _, nest_of_eq (by omega), reading_fault _ _ _, hnest.trans (leads_fault _ _ _)⟩
  | succ m =>
    have hdepth : d.depth + 1 + m = nestingLimit := by omega
    obtain ⟨d', hcall, hreads⟩ := (hinner m rfl).yields (d := d.count (d.depth + 1)) hdepth
    exact .inr ⟨m, _, d', rfl, nest_of_lt (by omega), hcall, hreads.reading, hreads.depth,
      hnest.trans hreads.leads⟩

/-! ## Operands -/

/-- A number is read as by its rule. -/
theorem yields_number (unaries : ℕ) (hk : d.current.kind = .number) :
    d.Yields unaries d.number (Grammar.number d.reading) := by
  obtain ⟨d₁, hadvance, hreading, hprevious, hdepth, hleads⟩ :=
    d.exists_use unaries (u := .literal) (by rw [hk]; rfl)
  rw [Descent.number, hadvance]
  unfold Grammar.number
  dsimp only [Option.bind_eq_bind, Option.bind_some]
  rw [hprevious, current_reading, ← hreading]
  refine ⟨_, rfl, ?_⟩
  split
  · exact ⟨d₁.reading_fault _ _, by rw [depth_fault, hdepth],
      hleads.trans (d₁.leads_fault _ _)⟩
  · exact ⟨rfl, hdepth, hleads⟩

/-- A boolean is read as a literal. -/
theorem yields_boolean (unaries : ℕ) (hk : Use.literal.fits d.current.kind = true) :
    d.Yields unaries d.boolean (.literal d.reading.current, d.reading.advance) := by
  obtain ⟨d₁, hadvance, hreading, hprevious, hdepth, hleads⟩ := d.exists_use unaries hk
  rw [boolean, hadvance]
  refine ⟨d₁, ?_, hreading, hdepth, hleads⟩
  change some (ParseTree.literal d₁.previous, d₁) = _
  rw [hprevious]
  rfl

/-- At the end of the source an operand is missing. -/
theorem yields_recover_of_atEnd (unaries : ℕ) (hk : d.current.kind = .endOfInput) :
    d.Yields unaries d.recover (.error, d.reading.faultHere .expectedExpression) := by
  refine ⟨d.faultHere .expectedExpression, ?_, d.reading_fault _ _, d.depth_fault _ _,
    d.leads_fault _ _⟩
  rw [recover, if_pos (by rw [current_faultHere, hk])]
  rfl

/-- Any other token that starts no operand is passed over. -/
theorem yields_recover (unaries : ℕ) (hk : Use.recovery.fits d.current.kind = true) :
    d.Yields unaries d.recover
      (.error, (d.reading.faultHere .expectedExpression).advance) := by
  have hend : (d.faultHere .expectedExpression).current.kind ≠ .endOfInput := by
    rw [current_faultHere]
    exact Use.kind_ne_of_fits hk
  obtain ⟨d₁, hadvance, hreading, -, hdepth, hleads⟩ :=
    (d.faultHere .expectedExpression).exists_use unaries (u := .recovery)
      (by rwa [current_faultHere])
  refine ⟨d₁, ?_, ?_, hdepth.trans (d.depth_fault _ _), (d.leads_fault _ _).trans hleads⟩
  · rw [recover, if_neg hend, hadvance]
    rfl
  · rw [hreading]
    exact congrArg Reading.advance (d.reading_fault _ _)

/-- The closing parenthesis that is due is read, if it is there. -/
theorem exists_close (unaries : ℕ) (d : Descent) :
    ∃ d', d.close = some d' ∧ d'.reading = d.reading.close ∧ d'.depth = d.depth ∧
      d.Leads unaries d' := by
  unfold close Reading.close
  rw [current_reading]
  split
  · next hk =>
    obtain ⟨d₁, hadvance, hreading, -, hdepth, hleads⟩ :=
      d.exists_use unaries (u := .parenthesis) (by rw [hk]; rfl)
    exact ⟨d₁, hadvance, hreading, hdepth, hleads⟩
  · exact ⟨_, rfl, d.reading_fault _ _, d.depth_fault _ _, d.leads_fault _ _⟩

/-- An expression in parentheses is read as by its rule. -/
theorem yields_primary_of_leftParen (h : d.depth + levels = nestingLimit)
    (hk : d.current.kind = .leftParen)
    (hinner : ∀ m, levels = m + 1 → Calls m levels .expression) :
    d.Yields levels d.primary (parenthesized (Rules.inside levels) d.reading) := by
  obtain ⟨d₁, hadvance, hreading, -, hdepth, hleads⟩ :=
    d.exists_use levels (u := .parenthesis) (by rw [hk]; rfl)
  have hback : ∀ {d' : Descent}, d'.Leads levels (d'.count d₁.depth) :=
    leads_count _ (by omega)
  rw [primary, hk]
  dsimp only
  rw [hadvance]
  dsimp only [Option.bind_eq_bind, Option.bind_some]
  rcases nest_cases (d := d₁) (by rw [hdepth, h]) hinner with
    ⟨rfl, d₂, hnest, hreading₂, hleads₂⟩ |
      ⟨m, d₂, d₃, rfl, hnest, hcall, hreading₃, -, hleads₃⟩
  · rw [hnest]
    refine ⟨d₂.count d₁.depth, rfl, ?_, hdepth, hleads.trans (hleads₂.trans hback)⟩
    change d₂.reading = d.reading.advance.faultHere .tooDeep
    rw [hreading₂, hreading]
  · obtain ⟨d₄, hclose, hreading₄, hdepth₄, hleads₄⟩ := exists_close (m + 1) (d₃.count d₁.depth)
    rw [hreading] at hcall hreading₃
    rw [hnest]
    dsimp only
    rw [hcall]
    dsimp only [Option.bind_some]
    rw [hclose]
    refine ⟨d₄, rfl, ?_, hdepth₄.trans hdepth, hleads.trans (hleads₃.trans (hback.trans hleads₄))⟩
    rw [hreading₄]
    exact congrArg Reading.close hreading₃

/-- An operand without a sign is read as by its rule. -/
theorem yields_primary (h : d.depth + levels = nestingLimit)
    (hinner : ∀ m, levels = m + 1 → Calls m levels .expression) :
    d.Yields levels d.primary (Grammar.primary (Rules.inside levels) d.reading) := by
  unfold Grammar.primary
  rw [current_reading]
  cases hk : d.current.kind with
  | number =>
    rw [primary, hk]
    exact yields_number levels hk
  | trueWord =>
    rw [primary, hk]
    exact yields_boolean levels (by rw [hk]; rfl)
  | falseWord =>
    rw [primary, hk]
    exact yields_boolean levels (by rw [hk]; rfl)
  | leftParen => exact yields_primary_of_leftParen h hk hinner
  | endOfInput =>
    rw [primary, hk]
    exact yields_recover_of_atEnd levels hk
  | nothing | rightParen | plus | minus | times | divide | identifier =>
    rw [primary, hk]
    exact yields_recover levels (by rw [hk]; rfl)

/-- A number that is in range with the minus in front of it is read as one literal with it. -/
theorem yields_unary_of_literal (unaries : ℕ) {token : Token}
    (hsign : isTermOperator d.current = true)
    (hliteral : signedLiteral? d.reading.current d.reading.advance.current = some token) :
    d.Yields unaries d.unary (.literal token, d.reading.advance.advance) := by
  obtain ⟨d₁, hadvance, hreading, hprevious, hdepth, hleads⟩ :=
    d.exists_use unaries (Chain.fits_of_isOperator (c := .sum) hsign)
  have hliteral₁ : signedLiteral? d.current d₁.current = some token := by
    rwa [← current_reading d₁, hreading]
  have hkind := kind_of_signedLiteral? hliteral₁
  obtain ⟨d₂, hadvance₂, hreading₂, -, hdepth₂, hleads₂⟩ :=
    d₁.exists_use unaries (u := .literal) (by rw [hkind]; rfl)
  rw [unary, if_pos hsign, hadvance]
  dsimp only [Option.bind_eq_bind, Option.bind_some]
  rw [hprevious, hliteral₁]
  dsimp only
  rw [hadvance₂]
  refine ⟨d₂, rfl, ?_, hdepth₂.trans hdepth, hleads.trans hleads₂⟩
  rw [hreading₂, hreading]

/-- Any other sign is read as by its rule. -/
theorem yields_unary_of_sign (h : d.depth + levels = nestingLimit)
    (hsign : isTermOperator d.current = true)
    (hliteral : signedLiteral? d.reading.current d.reading.advance.current = none)
    (hinner : ∀ m, levels = m + 1 → Calls m levels .unary) :
    d.Yields levels d.unary (Grammar.unary (Rules.inside levels) d.reading) := by
  obtain ⟨d₁, hadvance, hreading, hprevious, hdepth, hleads⟩ :=
    d.exists_use levels (Chain.fits_of_isOperator (c := .sum) hsign)
  have hback : ∀ {d' : Descent}, d'.Leads levels (d'.count d₁.depth) :=
    leads_count _ (by omega)
  have hliteral₁ : signedLiteral? d.current d₁.current = none := by
    rwa [← current_reading d₁, hreading]
  rw [unary, if_pos hsign, hadvance]
  dsimp only [Option.bind_eq_bind, Option.bind_some]
  rw [hprevious, hliteral₁]
  dsimp only
  rcases nest_cases (d := d₁) (by rw [hdepth, h]) hinner with
    ⟨rfl, d₂, hnest, hreading₂, hleads₂⟩ |
      ⟨m, d₂, d₃, rfl, hnest, hcall, hreading₃, -, hleads₃⟩
  · rw [hnest, Rules.inside, unary_none_of_sign hsign hliteral]
    refine ⟨d₂.count d₁.depth, rfl, ?_, hdepth, hleads.trans (hleads₂.trans hback)⟩
    change d₂.reading = d.reading.advance.faultHere .tooDeep
    rw [hreading₂, hreading]
  · rw [hreading] at hcall hreading₃
    rw [hnest, Rules.inside, unary_of_sign hsign hliteral]
    dsimp only
    rw [hcall]
    exact ⟨d₃.count d₁.depth, rfl, hreading₃, hdepth, hleads.trans (hleads₃.trans hback)⟩

/-- An operand is read as by its rule. -/
theorem yields_unary (h : d.depth + levels = nestingLimit) (hprimary : Calls levels levels .primary)
    (hinner : ∀ m, levels = m + 1 → Calls m levels .unary) :
    d.Yields levels d.unary (Grammar.unary (Rules.inside levels) d.reading) := by
  cases hsign : isTermOperator d.current with
  | false =>
    rw [unary, if_neg (by simp [hsign]), unary_of_not_sign hsign]
    exact hprimary.yields h
  | true =>
    cases hliteral : signedLiteral? d.reading.current d.reading.advance.current with
    | some token =>
      rw [unary_of_literal hsign hliteral]
      exact yields_unary_of_literal levels hsign hliteral
    | none => exact yields_unary_of_sign h hsign hliteral hinner

/-- A call of `primary` returns if the calls of the level inside do. -/
theorem calls_primary (hinner : ∀ m, levels = m + 1 → Calls m levels .expression) :
    Calls levels levels .primary := by
  intro d h
  refine exists_call (x := Procedure.primary.rule levels d.reading) (by omega) ?_
  rw [body]
  exact yields_primary (d := d.enter .primary) h hinner

/-- A call of `unary` returns if the calls of the level inside do. -/
theorem calls_unary (hprimary : Calls levels levels .primary)
    (hinner : ∀ m, levels = m + 1 → Calls m levels .unary) :
    Calls levels (levels + 1) .unary := by
  intro d h
  refine exists_call (x := Procedure.unary.rule levels d.reading) (by omega) ?_
  rw [body, Procedure.rule, Rules.within_eq_around]
  exact yields_unary (d := d.enter .unary) h hprimary hinner

/-! ## Chains -/

/-- A chain is read on as by its rule. -/
theorem exists_chainTail {c : Chain} (hoperand : ∀ m < levels, Calls m (m + 1) c.operand)
    (h : d.depth + levels = nestingLimit) (left : ParseTree) :
    ∃ d', d.chainTail c left = some ((c.tail levels left d.reading).1, d') ∧
      d'.reading = (c.tail levels left d.reading).2 ∧ d.Leads levels d' := by
  induction levels using Nat.strongRecOn generalizing d left with
  | ind levels ih =>
  rw [chainTail]
  cases hop : c.isOperator d.current with
  | false =>
    rw [if_neg (by simp), Chain.tail_of_not_operator hop]
    exact ⟨d, rfl, rfl, leads_refl _ d⟩
  | true =>
    obtain ⟨d₁, hadvance, hreading, hprevious, hdepth, hleads⟩ :=
      d.exists_use levels (Chain.fits_of_isOperator hop)
    rw [if_pos rfl, hadvance]
    dsimp only [Option.bind_eq_bind, Option.bind_some]
    rw [hprevious]
    rcases nest_cases (d := d₁) (by rw [hdepth, h]) fun m hm => hm ▸ hoperand m (by omega) with
      ⟨rfl, d₂, hnest, hreading₂, hleads₂⟩ |
        ⟨m, d₂, d₃, rfl, hnest, hcall, hreading₃, hdepth₃, hleads₃⟩
    · rw [hnest, Chain.tail_zero_of_operator hop, ← hreading]
      exact ⟨d₂, rfl, hreading₂, hleads.trans hleads₂⟩
    · rw [hnest, Chain.tail_succ_of_operator hop, current_reading, ← hreading, ← hreading₃]
      dsimp only
      rw [hcall]
      -- The rest of the chain has one level less.
      obtain ⟨d₄, htail, hreading₄, hleads₄⟩ := ih m (Nat.lt_succ_self m)
        (fun k hk => hoperand k (Nat.lt_succ_of_lt hk)) (d := d₃) (by omega)
        (.binary left d.current (c.operand.rule m d₁.reading).1)
      exact ⟨d₄, htail, hreading₄,
        hleads.trans (hleads₃.trans (hleads₄.mono (Nat.le_succ m)))⟩

/-- A chain is read as by its rule. -/
theorem yields_chain {c : Chain} (hfirst : Calls levels (levels + 1) c.operand)
    (hoperand : ∀ m < levels, Calls m (m + 1) c.operand) (h : d.depth + levels = nestingLimit) :
    d.Yields (levels + 1) (d.chain c) (c.rule levels d.reading) := by
  obtain ⟨d₁, hcall, hreads⟩ := hfirst.yields h
  obtain ⟨d₂, htail, hreading, hleads⟩ := exists_chainTail hoperand (by rw [hreads.depth, h])
    (c.operand.rule levels d.reading).1
  rw [hreads.reading] at htail hreading
  rw [chain, hcall]
  dsimp only [Option.bind_eq_bind, Option.bind_some]
  rw [htail]
  exact ⟨d₂.count d.depth, rfl, hreading, rfl,
    hreads.leads.trans ((hleads.mono (Nat.le_succ _)).trans (d₂.leads_count (by omega)))⟩

/-- A call that reads a chain returns if the calls for its operands do. -/
theorem calls_chain (c : Chain) (hfirst : Calls levels (levels + 1) c.operand)
    (hoperand : ∀ m < levels, Calls m (m + 1) c.operand) :
    Calls levels (levels + 1) c.procedure := by
  intro d h
  have hbody := yields_chain (d := d.enter c.procedure) hfirst hoperand h
  cases c with
  | sum =>
    refine exists_call (x := Chain.sum.rule levels d.reading) (by omega) ?_
    rw [Chain.procedure, body]
    exact hbody
  | product =>
    refine exists_call (x := Chain.product.rule levels d.reading) (by omega) ?_
    rw [Chain.procedure, body]
    exact hbody

/-- A call of `expression` returns if the call of `term` does. -/
theorem calls_expression (hterm : Calls levels (levels + 1) .term) :
    Calls levels (levels + 1) .expression := by
  intro d h
  refine exists_call (x := Procedure.expression.rule levels d.reading) (by omega) ?_
  rw [body]
  exact hterm.yields (d := d.enter .expression) h

/-! ## All procedures -/

/-- Calls of every procedure return with what its rule comes to. -/
theorem calls (levels : ℕ) (p : Procedure) : Calls levels (p.unaries levels) p := by
  induction levels using Nat.strongRecOn generalizing p with
  | ind levels ih =>
  have hoperand : ∀ (c : Chain), ∀ m < levels, Calls m (m + 1) c.operand := fun c m hm => by
    cases c with
    | sum => exact ih m hm .factor
    | product => exact ih m hm .unary
  -- On the same level the procedures call one another in this order.
  have hprimary : Calls levels levels .primary :=
    calls_primary fun m hm => hm ▸ ih m (by omega) .expression
  have hunary : Calls levels (levels + 1) .unary :=
    calls_unary hprimary fun m hm => hm ▸ ih m (by omega) .unary
  have hfactor : Calls levels (levels + 1) .factor := calls_chain .product hunary (hoperand _)
  have hterm : Calls levels (levels + 1) .term := calls_chain .sum hfactor (hoperand _)
  cases p with
  | expression => exact calls_expression hterm
  | term => exact hterm
  | factor => exact hfactor
  | unary => exact hunary
  | primary => exact hprimary

end Descent

end Calculator
