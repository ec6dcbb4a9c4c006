import Calculator.ParseTree.Grammar
import Calculator.Proofs.Grammar.Derivation
import Calculator.Proofs.Scan.Tokens

/-!
# What each rule does

Equations for the rules of the grammar, one for each way in which a rule goes on, so that nothing
else unfolds them. The only rule with a condition on values is that for a minus sign in front of a
number: `Grammar.signedLiteral?_eq_some_iff` says that the number is out of range by one.
-/

namespace Calculator

/-- A number has no value exactly when it is out of range. -/
theorem Token.Scanned.value_eq_none_iff {t : Token} (h : t.Scanned) (hk : t.kind = .number) :
    t.value = none ↔ greatestNumber < Decimal.value t.text.toList := by
  rw [h.number hk, Option.map_eq_none_iff, fit?_eq_none_iff, InRange, greatestNumber]
  omega

namespace Grammar

/-- The operators of a term are plus and minus. -/
theorem isTermOperator_iff {t : Token} :
    isTermOperator t = true ↔ t.kind = .plus ∨ t.kind = .minus := by
  simp [isTermOperator]

/-- The operators of a factor are times and divide. -/
theorem isFactorOperator_iff {t : Token} :
    isFactorOperator t = true ↔ t.kind = .times ∨ t.kind = .divide := by
  simp [isFactorOperator]

/-- An operator of a term is not an operator of a factor. -/
theorem isFactorOperator_of_isTermOperator {t : Token} (h : isTermOperator t = true) :
    isFactorOperator t = false := by
  rw [← Bool.not_eq_true, isFactorOperator_iff]
  rcases isTermOperator_iff.1 h with hk | hk
  · simp [hk]
  · simp [hk]

/-! ## A minus sign in front of a number -/

/-- A minus sign makes one literal of exactly the number that is out of range by one. -/
theorem signedLiteral?_eq_some_iff {sign digits token : Token}
    (hd : digits.kind = .number → digits.Scanned) :
    signedLiteral? sign digits = some token ↔
      sign.kind = .minus ∧ digits.kind = .number ∧
        Decimal.value digits.text.toList = greatestNumber + 1 ∧
          token = leastLiteral sign digits := by
  unfold signedLiteral?
  by_cases hk : sign.kind = .minus ∧ digits.kind = .number
  · obtain ⟨hs, hn⟩ := hk
    have hnone := (hd hn).value_eq_none_iff hn
    unfold greatestNumber at hnone ⊢
    constructor
    · intro h
      split at h
      · next hv =>
        obtain ⟨n, hfit, rfl⟩ := Option.map_eq_some_iff.1 h
        have hgt := hnone.1 hv.2.2
        have hn' := fit?_eq_some_iff.1 hfit
        have hrange := inRange_toInt n
        rw [hn', InRange] at hrange
        have heq : Decimal.value digits.text.toList = 2147483647 + 1 := by omega
        refine ⟨hs, hn, heq, ?_⟩
        have hleast : fit? (-((2147483647 + 1 : ℕ) : Int)) = some (-2147483648) := by decide
        rw [heq, hleast] at hfit
        rw [← Option.some_inj.1 hfit, leastLiteral]
      · cases h
    · rintro ⟨-, -, heq, rfl⟩
      have hv : digits.value = none := hnone.2 (by omega)
      rw [if_pos ⟨hs, hn, hv⟩, heq]
      rfl
  · rw [if_neg fun h => hk ⟨h.1, h.2.1⟩]
    constructor
    · exact nofun
    · rintro ⟨hs, hn, -⟩
      exact absurd ⟨hs, hn⟩ hk

/-- A sign in front of anything but a number out of range makes no literal. -/
theorem signedLiteral?_eq_none {sign digits : Token}
    (hd : digits.kind = .number → digits.Scanned)
    (h : digits.kind = .number → Decimal.value digits.text.toList ≤ greatestNumber) :
    signedLiteral? sign digits = none := by
  rw [Option.eq_none_iff_forall_ne_some]
  intro token htoken
  obtain ⟨-, hn, heq, -⟩ := (signedLiteral?_eq_some_iff hd).1 htoken
  have := h hn
  omega

/-! ## Operands -/

variable {inner : Option Rules} {g : Rules} {left : ParseTree} {r : Reading}

/-- A number in range is a literal. -/
theorem number_of_isSome (h : r.current.value.isNone = false) :
    number r = (.literal r.current, r.advance) := by
  simp [number, h]

/-- Without a sign an operand is read as one without a sign. -/
theorem unary_of_not_sign (h : isTermOperator r.current = false) :
    unary inner r = primary inner r := by
  simp [unary, h]

/-- A sign that makes a literal is read together with its number. -/
theorem unary_of_literal {token : Token} (h : isTermOperator r.current = true)
    (ht : signedLiteral? r.current r.advance.current = some token) :
    unary inner r = (.literal token, r.advance.advance) := by
  simp [unary, h, signed, ht]

/-- Any other sign is read in front of its operand. -/
theorem unary_of_sign (h : isTermOperator r.current = true)
    (ht : signedLiteral? r.current r.advance.current = none) :
    unary (some g) r =
      (.unary r.current (g.unary r.advance).1, (g.unary r.advance).2) := by
  simp [unary, h, signed, ht]

/-- At the innermost level a sign is too deep. -/
theorem unary_none_of_sign (h : isTermOperator r.current = true)
    (ht : signedLiteral? r.current r.advance.current = none) :
    unary none r = (.unary r.current .error, r.advance.faultHere .tooDeep) := by
  simp [unary, h, signed, ht]

/-- A parenthesis is read around an expression. -/
theorem parenthesized_some :
    parenthesized (some g) r =
      ((g.term r.advance).1, (g.term r.advance).2.close) := rfl

/-! ## Chains -/

/-- Without an operator a factor is at its end. -/
theorem factorTail_of_not_operator (h : isFactorOperator r.current = false) :
    factorTail inner left r = (left, r) := by
  simp [factorTail, h]

/-- Behind an operator a factor goes on with an operand. -/
theorem factorTail_of_operator (h : isFactorOperator r.current = true) :
    factorTail (some g) left r =
      g.factorTail (.binary left r.current (g.unary r.advance).1) (g.unary r.advance).2 := by
  simp [factorTail, h]

/-- At the innermost level an operator of a factor is too deep. -/
theorem factorTail_none_of_operator (h : isFactorOperator r.current = true) :
    factorTail none left r = (left, r.advance.faultHere .tooDeep) := by
  simp [factorTail, h]

/-- Without an operator a term is at its end. -/
theorem termTail_of_not_operator (h : isTermOperator r.current = false) :
    termTail inner left r = (left, r) := by
  simp [termTail, h]

/-- Behind an operator a term goes on with a factor. -/
theorem termTail_of_operator (h : isTermOperator r.current = true) :
    termTail (some g) left r =
      g.termTail (.binary left r.current (g.factor r.advance).1) (g.factor r.advance).2 := by
  simp [termTail, h]

/-- At the innermost level an operator of a term is too deep. -/
theorem termTail_none_of_operator (h : isTermOperator r.current = true) :
    termTail none left r = (left, r.advance.faultHere .tooDeep) := by
  simp [termTail, h]

end Grammar

namespace Rules

/-- The rules of a level are made from those of the level inside it, if there is one. -/
theorem exists_within_eq_around (levels : ℕ) : ∃ inner, within levels = around inner := by
  cases levels with
  | zero => exact ⟨none, rfl⟩
  | succ levels => exact ⟨some (within levels), rfl⟩

/-- An operand behind which the source ends is a term. -/
theorem term_of_unary_atEnd {levels : ℕ} {r r' : Reading} {x : ParseTree}
    (h : (within levels).unary r = (x, r')) (hend : r'.current.kind = .endOfInput) :
    (within levels).term r = (x, r') := by
  obtain ⟨inner, heq⟩ := exists_within_eq_around levels
  -- Neither chain goes on.
  have hfactor : (within levels).factor r = (x, r') := by
    rw [factor, h, heq]
    exact Grammar.factorTail_of_not_operator (by simp [Grammar.isFactorOperator, hend])
  rw [term, hfactor, heq]
  exact Grammar.termTail_of_not_operator (by simp [Grammar.isTermOperator, hend])

end Rules

end Calculator
