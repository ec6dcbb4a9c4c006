import Calculator.Proofs.Grammar.Acceptance

/-!
# Expressions that nest too deeply

In front of the tokens of a derivation that goes deeper than there are levels left, the rules report
that the expression nests too deeply, and nothing else (`Reading.parse_of_tooDeep`).

The proof is by induction on the derivation. Up to the first place that is too deep the rules read
what the grammar derives, so that nothing was reported; from there on the place is lost, and every
step keeps it so without a further report (`Reading.Leads.gaveUp`).
-/

namespace Calculator

open Grammar

namespace Reading

variable {r r' : Reading}

/-- The place is lost, the only report is that the expression nests too deeply, and everything ahead
can be read. -/
structure GaveUp (r : Reading) : Prop where
  /-- No further fault is reported. -/
  lost : r.lost = true
  /-- The expression nests too deeply, and nothing else was wrong. -/
  reported : ∃ token, r.diagnostics.toList = [.syntactic token .tooDeep]
  /-- No error of the scan is ahead. -/
  ahead : ∀ x ∈ r.stream.ahead, ∃ t, x = .ok t

/-- If nothing was wrong before, the first report is that the expression nests too deeply. -/
theorem Faces.gaveUp {ts : List Token} (h : r.Faces ts) : (r.faultHere .tooDeep).GaveUp := by
  have hfault : r.faultHere .tooDeep =
      { r with
        diagnostics := r.diagnostics.report (.syntactic r.current .tooDeep)
        failed := true
        lost := true } := if_neg (by simp [h.lost])
  rw [hfault]
  refine ⟨rfl, ⟨r.current, ?_⟩, fun x hx => ?_⟩
  · rw [Diagnostics.toList_report, h.reported, List.nil_append]
  · have hahead : x ∈ ts.tail.map .ok := h.ahead ▸ hx
    obtain ⟨t, -, rfl⟩ := List.mem_map.1 hahead
    exact ⟨t, rfl⟩

/-- Bringing the next token into view reports nothing if everything ahead can be read. -/
theorem GaveUp.advance (h : r.GaveUp) : r.advance.GaveUp := by
  obtain ⟨⟨ahead, ending⟩, current, diagnostics, failed, lost⟩ := r
  cases ahead with
  | nil => exact ⟨h.lost, h.reported, nofun⟩
  | cons x ahead =>
    obtain ⟨t, rfl⟩ := h.ahead x List.mem_cons_self
    exact ⟨h.lost, h.reported, fun y hy => h.ahead y (List.mem_cons_of_mem _ hy)⟩

/-- A reading that gave up does so for good. -/
theorem Step.gaveUp (h : Step r r') (hr : r.GaveUp) : r'.GaveUp := by
  cases h with
  | advance _ => exact hr.advance
  | fault token f => rwa [fault_of_lost hr.lost]

/-- Steps keep it that a reading gave up. -/
theorem Leads.gaveUp (h : r.Leads r') (hr : r.GaveUp) : r'.GaveUp := by
  induction h with
  | refl => exact hr
  | tail _ hstep ih => exact hstep.gaveUp ih

end Reading

/-- The rule that reads a symbol of the grammar. -/
def Symbol.rule : Symbol → Rules → Rule
  | .primary => Rules.unary
  | .unary => Rules.unary
  | .factor => Rules.factor
  | .term => Rules.term

/-- In front of the tokens of the derivation, with whatever tokens behind them, the rules give up if
the derivation goes deeper than there are levels. -/
def Derivation.IsGivenUp {s : Symbol} (p : Derivation s) : Prop :=
  ∀ levels r rest, levels < p.deepest → r.Faces (p.tokens ++ rest) →
    (s.rule (Rules.within levels) r).2.GaveUp

namespace Derivation

/-! ## Operands -/

/-- An expression in parentheses is given up if there is no level left for it, or with what is
inside. -/
theorem isGivenUp_parens {opening closing : Token} {inside : Derivation .term}
    (isOpening : opening.kind = .leftParen) (isClosing : closing.kind = .rightParen)
    (hinside : inside.IsGivenUp) :
    (parens opening inside closing isOpening isClosing).IsGivenUp := by
  intro levels r rest hdeep hr
  simp only [tokens, List.cons_append, List.append_assoc, List.nil_append] at hr
  have hcurrent : r.current = opening := hr.current_cons
  have hadv : r.advance.Faces (inside.tokens ++ closing :: rest) := hr.advance
  have hsign : isTermOperator r.current = false := by simp [isTermOperator, hcurrent, isOpening]
  have hunary : ∀ inner, Grammar.unary inner r = parenthesized inner r := fun inner => by
    rw [unary_of_not_sign hsign]
    simp [primary, hcurrent, isOpening]
  cases levels with
  | zero =>
    have hnone : (Rules.within 0).unary r = (.error, r.advance.faultHere .tooDeep) := hunary none
    rw [Symbol.rule, hnone]
    exact hadv.gaveUp
  | succ m =>
    have hsome : (Rules.within (m + 1)).unary r =
        parenthesized (some (Rules.within m)) r := hunary _
    rw [Symbol.rule, hsome, parenthesized_some]
    have hterm := hinside m r.advance (closing :: rest) (by simpa [deepest] using hdeep) hadv
    exact (Reading.leads_close _).gaveUp hterm

/-- A sign is given up if there is no level left for its operand, or with its operand. -/
theorem isGivenUp_signed {sign : Token} {x : Derivation .unary}
    (isSign : sign.kind = .plus ∨ sign.kind = .minus) (hx : x.IsGivenUp) :
    (signed sign isSign x).IsGivenUp := by
  intro levels r rest hdeep hr
  have hcurrent : r.current = sign := hr.current_cons
  have hadv : r.advance.Faces (x.tokens ++ rest) := hr.advance
  have hsign : isTermOperator r.current = true := isTermOperator_iff.2 (hcurrent ▸ isSign)
  have hlit : signedLiteral? r.current r.advance.current = none :=
    signedLiteral?_eq_none_of_faces hadv _
  cases levels with
  | zero =>
    have hnone : (Rules.within 0).unary r =
        (.unary r.current .error, r.advance.faultHere .tooDeep) := unary_none_of_sign hsign hlit
    rw [Symbol.rule, hnone]
    exact hadv.gaveUp
  | succ m =>
    have hsome : (Rules.within (m + 1)).unary r =
        (.unary r.current ((Rules.within m).unary r.advance).1,
          ((Rules.within m).unary r.advance).2) := unary_of_sign hsign hlit
    rw [Symbol.rule, hsome]
    exact hx m r.advance rest (by simpa [deepest] using hdeep) hadv

/-! ## Chains -/

/-- A factor is given up with its first operand. -/
theorem isGivenUp_ofUnary {x : Derivation .unary} (hx : x.IsGivenUp) : (ofUnary x).IsGivenUp := by
  intro levels r rest hdeep hr
  exact ((Rules.leads_within levels).factorTail _ _).gaveUp (hx levels r rest hdeep hr)

/-- A term is given up with its first factor. -/
theorem isGivenUp_ofFactor {x : Derivation .factor} (hx : x.IsGivenUp) :
    (ofFactor x).IsGivenUp := by
  intro levels r rest hdeep hr
  exact ((Rules.leads_within levels).termTail _ _).gaveUp (hx levels r rest hdeep hr)

/-- Behind an operator a chain is given up if there is no level left for its next operand, or with
that operand. The rule `tail` reads on in the chain, and `operand` reads its operands. -/
theorem gaveUp_of_operator (operand : Rules → Rule) (tail : Rules → ParseTree → Rule)
    {levels : ℕ} {r : Reading} {left : ParseTree} {ts : List Token} (hr : r.advance.Faces ts)
    (hnone : tail (Rules.within 0) left r = (left, r.advance.faultHere .tooDeep))
    (hsome : ∀ m, tail (Rules.within (m + 1)) left r =
      tail (Rules.within m) (.binary left r.current (operand (Rules.within m) r.advance).1)
        (operand (Rules.within m) r.advance).2)
    (hleads : ∀ m left' r', Reading.Leads r' (tail (Rules.within m) left' r').2)
    (hoperand : ∀ m, levels = m + 1 → (operand (Rules.within m) r.advance).2.GaveUp) :
    (tail (Rules.within levels) left r).2.GaveUp := by
  cases levels with
  | zero =>
    rw [hnone]
    exact hr.gaveUp
  | succ m =>
    rw [hsome]
    exact (hleads m _ _).gaveUp (hoperand m rfl)

/-- A factor is given up with what stands in front of its last operator, or behind it. -/
theorem isGivenUp_product {left : Derivation .factor} {operator : Token}
    {right : Derivation .unary} (isOperator : operator.kind = .times ∨ operator.kind = .divide)
    (hleft : left.IsGivenUp) (hright : right.IsGivenUp) :
    (product left operator isOperator right).IsGivenUp := by
  intro levels r rest hdeep hr
  simp only [deepest] at hdeep
  simp only [tokens, List.append_assoc, List.cons_append] at hr
  by_cases hlevels : levels < left.deepest
  · exact hleft levels r (operator :: (right.tokens ++ rest)) hlevels hr
  obtain ⟨r₁, heq, hr₁⟩ := left.isRead levels r _ (by omega) hr
  have hop : isFactorOperator r₁.current = true :=
    isFactorOperator_iff.2 (hr₁.current_cons ▸ isOperator)
  have hoperators := left.operators_le_deepest
  rw [Symbol.rule, heq]
  exact gaveUp_of_operator Rules.unary Rules.factorTail hr₁.advance
    (factorTail_none_of_operator hop) (fun m => factorTail_of_operator hop)
    (fun m => (Rules.leads_within m).factorTail)
    fun m hm => hright m r₁.advance rest (by omega) hr₁.advance

/-- A term is given up with what stands in front of its last operator, or behind it. -/
theorem isGivenUp_sum {left : Derivation .term} {operator : Token} {right : Derivation .factor}
    (isOperator : operator.kind = .plus ∨ operator.kind = .minus) (hleft : left.IsGivenUp)
    (hright : right.IsGivenUp) : (sum left operator isOperator right).IsGivenUp := by
  intro levels r rest hdeep hr
  simp only [deepest] at hdeep
  simp only [tokens, List.append_assoc, List.cons_append] at hr
  by_cases hlevels : levels < left.deepest
  · exact hleft levels r (operator :: (right.tokens ++ rest)) hlevels hr
  have hop' : isTermOperator operator = true := isTermOperator_iff.2 isOperator
  obtain ⟨r₁, heq, hr₁⟩ := left.isRead levels r _ (by omega) (noFactorOperator_cons hop' _) hr
  have hop : isTermOperator r₁.current = true := hr₁.current_cons ▸ hop'
  have hoperators := left.operators_le_deepest
  rw [Symbol.rule, heq]
  exact gaveUp_of_operator Rules.factor Rules.termTail hr₁.advance (termTail_none_of_operator hop)
    (fun m => termTail_of_operator hop) (fun m => (Rules.leads_within m).termTail)
    fun m hm => hright m r₁.advance rest (by omega) hr₁.advance

/-- The rules give up every derivation that goes deeper than there are levels. -/
theorem isGivenUp {s : Symbol} (p : Derivation s) : p.IsGivenUp := by
  -- A literal has no level inside it, so that there is nothing to give up.
  induction p with
  | number token kind inRange => exact fun levels r rest hdeep => absurd hdeep (Nat.not_lt_zero _)
  | boolean token kind => exact fun levels r rest hdeep => absurd hdeep (Nat.not_lt_zero _)
  | parens opening inside closing isOpening isClosing ih =>
    exact isGivenUp_parens isOpening isClosing ih
  | ofPrimary x ih => exact ih
  | least sign digits isMinus kind value =>
    exact fun levels r rest hdeep => absurd hdeep (Nat.not_lt_zero _)
  | signed sign isSign x ih => exact isGivenUp_signed isSign ih
  | ofUnary x ih => exact isGivenUp_ofUnary ih
  | product left operator isOperator right ihLeft ihRight =>
    exact isGivenUp_product isOperator ihLeft ihRight
  | ofFactor x ih => exact isGivenUp_ofFactor ih
  | sum left operator isOperator right ihLeft ihRight =>
    exact isGivenUp_sum isOperator ihLeft ihRight

end Derivation

/-- A source whose tokens the grammar derives only beyond the nesting limit is read with the one
report that it nests too deeply. -/
theorem Reading.parse_of_tooDeep {source : String} {p : Derivation .term}
    (herrors : (TokenStream.ofString source).errors = [])
    (htokens : p.tokens = (TokenStream.ofString source).tokens)
    (hdeep : nestingLimit < p.deepest) :
    ∃ token, (ofString source).parse.2.diagnostics.toList = [.syntactic token .tooDeep] := by
  have hfaces : (ofString source).advance.Faces (p.tokens ++ []) := by
    rw [List.append_nil, htokens]
    exact faces_advance_ofString herrors
  have hterm : (ofString source).readTerm.2.GaveUp := p.isGivenUp nestingLimit _ [] hdeep hfaces
  rw [parse_eq]
  exact ((leads_finish _).gaveUp hterm).reported

end Calculator
