import Mathlib.Data.Nat.Notation
import Calculator.Proofs.Grammar.Rules
import Calculator.Proofs.Reading.Places

/-!
# The rules do not look at places

If a rule is applied to a reading without places, its outcome is the one that it has with them, with
the places taken away (`Rules.placeless_within`). As for any property of the rules, it is shown of
each rule of a level from the rules of the level inside it. So a source is read into the same tree
with the same reports whatever the places of its tokens (`Reading.parse_unplaced`).
-/

namespace Calculator

/-- What a rule comes to, without the places. -/
def Rule.unplaced (x : ParseTree × Reading) : ParseTree × Reading := (x.1.unplaced, x.2.unplaced)

/-- No rule of a level looks at places. -/
structure Rules.Placeless (g : Rules) : Prop where
  /-- Reading an operand comes to the same without places. -/
  unary : ∀ r : Reading, g.unary r.unplaced = Rule.unplaced (g.unary r)
  /-- Reading on in a factor comes to the same without places. -/
  factorTail : ∀ (left : ParseTree) (r : Reading),
    g.factorTail left.unplaced r.unplaced = Rule.unplaced (g.factorTail left r)
  /-- Reading on in a term comes to the same without places. -/
  termTail : ∀ (left : ParseTree) (r : Reading),
    g.termTail left.unplaced r.unplaced = Rule.unplaced (g.termTail left r)

namespace Rules.Placeless

variable {g : Rules} (hg : g.Placeless)
include hg

/-- Reading a factor comes to the same without places. -/
theorem factor (r : Reading) : g.factor r.unplaced = Rule.unplaced (g.factor r) := by
  rw [Rules.factor, hg.unary]
  exact hg.factorTail _ _

/-- Reading a term comes to the same without places. -/
theorem term (r : Reading) : g.term r.unplaced = Rule.unplaced (g.term r) := by
  rw [Rules.term, hg.factor]
  exact hg.termTail _ _

end Rules.Placeless

namespace Grammar

variable (r : Reading)

/-- A sign and a number make the same literal anywhere, which is where the sign is. -/
theorem signedLiteral?_placed (sign digits : Token) :
    signedLiteral? (sign.placed .start) (digits.placed .start) =
      (signedLiteral? sign digits).map fun token => token.placed .start := by
  by_cases h : sign.kind = .minus ∧ digits.kind = .number ∧ digits.value = none
  · have hplaced : signedLiteral? (sign.placed .start) (digits.placed .start) =
        (fit? (-(Decimal.value digits.text.toList))).map fun n =>
          ⟨.number, "-" ++ digits.text, some (.int n), .start⟩ := if_pos h
    rw [hplaced, signedLiteral?, if_pos h, Option.map_map]
    rfl
  · have hplaced : signedLiteral? (sign.placed .start) (digits.placed .start) = none := if_neg h
    rw [hplaced, signedLiteral?, if_neg h, Option.map_none]

/-- Reading a number comes to the same without places. -/
theorem number_unplaced : number r.unplaced = Rule.unplaced (number r) := by
  have hvalue : r.unplaced.current.value = r.current.value := rfl
  have hfault := r.advance.fault_unplaced r.current (.invalidNumber r.current.text)
  unfold number
  dsimp only
  rw [hvalue, Reading.advance_unplaced]
  split
  · exact congrArg (Prod.mk _) hfault
  · rfl

variable {inner : Option Rules} (hinner : ∀ g ∈ inner, g.Placeless)
include hinner

/-- Reading an expression in parentheses comes to the same without places. -/
theorem parenthesized_unplaced :
    parenthesized inner r.unplaced = Rule.unplaced (parenthesized inner r) := by
  cases inner with
  | none =>
    unfold parenthesized
    dsimp only
    rw [Reading.advance_unplaced, Reading.faultHere_unplaced]
    rfl
  | some g =>
    rw [parenthesized_some, parenthesized_some, Reading.advance_unplaced, (hinner g rfl).term,
      Rule.unplaced, Rule.unplaced, Reading.close_unplaced]

/-- Reading an operand without a sign comes to the same without places. -/
theorem primary_unplaced : primary inner r.unplaced = Rule.unplaced (primary inner r) := by
  have hkind : r.unplaced.current.kind = r.current.kind := rfl
  have hfault := r.faultHere_unplaced .expectedExpression
  unfold primary
  rw [hkind]
  split
  · exact number_unplaced r
  · exact congrArg (Prod.mk _) r.advance_unplaced
  · exact congrArg (Prod.mk _) r.advance_unplaced
  · exact parenthesized_unplaced r hinner
  · exact congrArg (Prod.mk _) hfault
  · rw [hfault, Reading.advance_unplaced]
    rfl

/-- Reading an operand comes to the same without places. -/
theorem unary_unplaced : unary inner r.unplaced = Rule.unplaced (unary inner r) := by
  by_cases hsign : isTermOperator r.current = true
  · have hsign' : isTermOperator r.unplaced.current = true := hsign
    have hlit : signedLiteral? r.unplaced.current r.unplaced.advance.current =
        (signedLiteral? r.current r.advance.current).map fun token => token.placed .start := by
      rw [Reading.advance_unplaced]
      exact signedLiteral?_placed _ _
    cases ht : signedLiteral? r.current r.advance.current with
    | some token =>
      rw [ht, Option.map_some] at hlit
      rw [unary_of_literal hsign ht, unary_of_literal hsign' hlit, Reading.advance_unplaced,
        Reading.advance_unplaced]
      rfl
    | none =>
      rw [ht, Option.map_none] at hlit
      cases inner with
      | none =>
        rw [unary_none_of_sign hsign ht, unary_none_of_sign hsign' hlit, Reading.advance_unplaced,
          Reading.faultHere_unplaced]
        rfl
      | some g =>
        rw [unary_of_sign hsign ht, unary_of_sign hsign' hlit, Reading.advance_unplaced,
          (hinner g rfl).unary]
        rfl
  · rw [Bool.not_eq_true] at hsign
    have hsign' : isTermOperator r.unplaced.current = false := hsign
    rw [unary_of_not_sign hsign, unary_of_not_sign hsign']
    exact primary_unplaced r hinner

/-- Reading on in a factor comes to the same without places. -/
theorem factorTail_unplaced (left : ParseTree) :
    factorTail inner left.unplaced r.unplaced = Rule.unplaced (factorTail inner left r) := by
  by_cases hop : isFactorOperator r.current = true
  · have hop' : isFactorOperator r.unplaced.current = true := hop
    cases inner with
    | none =>
      rw [factorTail_none_of_operator hop, factorTail_none_of_operator hop',
        Reading.advance_unplaced, Reading.faultHere_unplaced]
      rfl
    | some g =>
      rw [factorTail_of_operator hop, factorTail_of_operator hop', Reading.advance_unplaced,
        (hinner g rfl).unary]
      exact (hinner g rfl).factorTail (.binary left r.current (g.unary r.advance).1) _
  · rw [Bool.not_eq_true] at hop
    have hop' : isFactorOperator r.unplaced.current = false := hop
    rw [factorTail_of_not_operator hop, factorTail_of_not_operator hop']
    rfl

/-- Reading on in a term comes to the same without places. -/
theorem termTail_unplaced (left : ParseTree) :
    termTail inner left.unplaced r.unplaced = Rule.unplaced (termTail inner left r) := by
  by_cases hop : isTermOperator r.current = true
  · have hop' : isTermOperator r.unplaced.current = true := hop
    cases inner with
    | none =>
      rw [termTail_none_of_operator hop, termTail_none_of_operator hop',
        Reading.advance_unplaced, Reading.faultHere_unplaced]
      rfl
    | some g =>
      rw [termTail_of_operator hop, termTail_of_operator hop', Reading.advance_unplaced,
        (hinner g rfl).factor]
      exact (hinner g rfl).termTail (.binary left r.current (g.factor r.advance).1) _
  · rw [Bool.not_eq_true] at hop
    have hop' : isTermOperator r.unplaced.current = false := hop
    rw [termTail_of_not_operator hop, termTail_of_not_operator hop']
    rfl

end Grammar

namespace Rules

/-- If no rule of the level inside looks at places, neither does any rule of the level around
it. -/
theorem placeless_around {inner : Option Rules} (hinner : ∀ g ∈ inner, g.Placeless) :
    (around inner).Placeless where
  unary := fun r => Grammar.unary_unplaced r hinner
  factorTail := fun left r => Grammar.factorTail_unplaced r hinner left
  termTail := fun left r => Grammar.termTail_unplaced r hinner left

/-- No rule of any level looks at places. -/
theorem placeless_within (levels : ℕ) : (within levels).Placeless :=
  within_of_around (fun _ => placeless_around) levels

end Rules

/-- Reading an expression comes to the same without places. -/
theorem Reading.parse_unplaced (r : Reading) : r.unplaced.parse = Rule.unplaced r.parse := by
  have hterm := (Rules.placeless_within nestingLimit).term r.advance
  unfold parse
  rw [advance_unplaced, hterm]
  generalize (Rules.within nestingLimit).term r.advance = x
  exact congrArg (Prod.mk _) x.2.finish_unplaced

end Calculator
