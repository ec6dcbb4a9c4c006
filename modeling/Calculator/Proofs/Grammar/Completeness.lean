import Calculator.Proofs.Grammar.Rules
import Calculator.Proofs.Reading.Ahead

/-!
# What the grammar derives is read

In front of the tokens of a derivation that goes no deeper than there are levels left, the rules
pass over these tokens and build the tree of the derivation (`Derivation.isRead`).

The proof is by induction on the derivation. A chain is derived from the left but read from the
right of each operator on, so what is shown of a chain is that reading it comes down to reading on
behind it: with one level less for each of its operators.
-/

namespace Calculator

open Grammar

/-- The first of the tokens is not an operator of a factor. -/
def NoFactorOperator (ts : List Token) : Prop := ∀ t ∈ ts.head?, isFactorOperator t = false

/-- No operator of a factor comes at the end of the source. -/
theorem noFactorOperator_nil : NoFactorOperator [] := by
  simp [NoFactorOperator]

/-- An operator of a term ends the factor in front of it. -/
theorem noFactorOperator_cons {t : Token} (h : isTermOperator t = true) (ts : List Token) :
    NoFactorOperator (t :: ts) := by
  intro t' ht'
  rw [← Option.some_inj.1 ht']
  exact isFactorOperator_of_isTermOperator h

/-- What follows in a reading is not an operator of a factor. -/
theorem NoFactorOperator.current {ts : List Token} (h : NoFactorOperator ts) {r : Reading}
    (hr : r.Faces ts) : isFactorOperator r.current = false := by
  cases ts with
  | nil => simp [isFactorOperator, hr.kind_nil]
  | cons t ts =>
    rw [hr.current_cons]
    exact h t rfl

/-- The rules read the derivation wherever its tokens come first, with whatever tokens behind them.
An operand is read as a whole. A chain is read up to what follows it, which for a term must not
belong to its last factor. -/
def Derivation.IsRead : {s : Symbol} → Derivation s → Prop
  | .primary, p => ∀ levels r rest, p.deepest ≤ levels → r.Faces (p.tokens ++ rest) →
      ∃ r', (Rules.within levels).unary r = (p.tree, r') ∧ r'.Faces rest
  | .unary, p => ∀ levels r rest, p.deepest ≤ levels → r.Faces (p.tokens ++ rest) →
      ∃ r', (Rules.within levels).unary r = (p.tree, r') ∧ r'.Faces rest
  | .factor, p => ∀ levels r rest, p.deepest ≤ levels → r.Faces (p.tokens ++ rest) →
      ∃ r', (Rules.within levels).factor r =
        (Rules.within (levels - p.operators)).factorTail p.tree r' ∧ r'.Faces rest
  | .term, p => ∀ levels r rest, p.deepest ≤ levels → NoFactorOperator rest →
      r.Faces (p.tokens ++ rest) →
      ∃ r', (Rules.within levels).term r =
        (Rules.within (levels - p.operators)).termTail p.tree r' ∧ r'.Faces rest

/-- A factor is read as a whole if no operator of a factor follows. -/
theorem Derivation.IsRead.factor {p : Derivation .factor} (hp : p.IsRead) {levels : ℕ}
    {r : Reading} {rest : List Token} (hdeep : p.deepest ≤ levels) (hrest : NoFactorOperator rest)
    (hr : r.Faces (p.tokens ++ rest)) :
    ∃ r', (Rules.within levels).factor r = (p.tree, r') ∧ r'.Faces rest := by
  obtain ⟨r', heq, hr'⟩ := hp levels r rest hdeep hr
  obtain ⟨inner, hinner⟩ := Rules.exists_within_eq_around (levels - p.operators)
  refine ⟨r', ?_, hr'⟩
  rw [heq, hinner]
  exact factorTail_of_not_operator (hrest.current hr')

/-- A term is read as a whole if no operator follows. -/
theorem Derivation.IsRead.term {p : Derivation .term} (hp : p.IsRead) {levels : ℕ}
    {r : Reading} {rest : List Token} (hdeep : p.deepest ≤ levels)
    (hfactor : NoFactorOperator rest) (hterm : ∀ t ∈ rest.head?, isTermOperator t = false)
    (hr : r.Faces (p.tokens ++ rest)) :
    ∃ r', (Rules.within levels).term r = (p.tree, r') ∧ r'.Faces rest := by
  obtain ⟨r', heq, hr'⟩ := hp levels r rest hdeep hfactor hr
  obtain ⟨inner, hinner⟩ := Rules.exists_within_eq_around (levels - p.operators)
  have hcurrent : isTermOperator r'.current = false := by
    cases rest with
    | nil => simp [isTermOperator, hr'.kind_nil]
    | cons t ts =>
      rw [hr'.current_cons]
      exact hterm t rfl
  refine ⟨r', ?_, hr'⟩
  rw [heq, hinner]
  exact termTail_of_not_operator hcurrent

namespace Derivation

/-! ## Operands -/

/-- A number in range is read. -/
theorem isRead_number {token : Token} (kind : token.kind = .number)
    (inRange : Decimal.value token.text.toList ≤ greatestNumber) :
    (number token kind inRange).IsRead := by
  intro levels r rest _ hr
  obtain ⟨inner, hinner⟩ := Rules.exists_within_eq_around levels
  have hcurrent : r.current = token := hr.current_cons
  have hscan : token.Scanned := hr.scanned _ List.mem_cons_self
  -- The scan gives a number that is in range its value, so that it is not reported.
  have hsome : r.current.value.isNone = false := by
    rw [hcurrent, Option.isNone_eq_false_iff, Option.isSome_iff_ne_none]
    intro hnone
    have hgt := (hscan.value_eq_none_iff kind).1 hnone
    omega
  refine ⟨r.advance, ?_, hr.advance⟩
  have hsign : isTermOperator r.current = false := by simp [isTermOperator, hcurrent, kind]
  have hprimary : primary inner r = Grammar.number r := by simp [primary, hcurrent, kind]
  calc (Rules.within levels).unary r = primary inner r := by
        rw [hinner]
        exact unary_of_not_sign hsign
    _ = (.literal token, r.advance) := by rw [hprimary, number_of_isSome hsome, hcurrent]

/-- A boolean is read. -/
theorem isRead_boolean {token : Token} (kind : token.kind = .trueWord ∨ token.kind = .falseWord) :
    (boolean token kind).IsRead := by
  intro levels r rest _ hr
  obtain ⟨inner, hinner⟩ := Rules.exists_within_eq_around levels
  have hcurrent : r.current = token := hr.current_cons
  refine ⟨r.advance, ?_, hr.advance⟩
  have hsign : isTermOperator r.current = false := by
    rcases kind with hk | hk <;> simp [isTermOperator, hcurrent, hk]
  calc (Rules.within levels).unary r = primary inner r := by
        rw [hinner]
        exact unary_of_not_sign hsign
    _ = (.literal token, r.advance) := by
        rcases kind with hk | hk <;> simp [primary, hcurrent, hk]

/-- An expression in parentheses is read. -/
theorem isRead_parens {opening closing : Token} {inside : Derivation .term}
    (isOpening : opening.kind = .leftParen) (isClosing : closing.kind = .rightParen)
    (hinside : inside.IsRead) : (parens opening inside closing isOpening isClosing).IsRead := by
  intro levels r rest hdeep hr
  simp only [tokens, List.cons_append, List.append_assoc, List.nil_append] at hr
  have hcurrent : r.current = opening := hr.current_cons
  have hadv : r.advance.Faces (inside.tokens ++ closing :: rest) := hr.advance
  -- The parenthesis takes one of the levels.
  obtain ⟨m, rfl⟩ : ∃ m, levels = m + 1 := Nat.exists_eq_add_one.2 (by
    simp only [deepest] at hdeep
    omega)
  have hm : inside.deepest ≤ m := by simpa [deepest] using hdeep
  -- What follows inside is the closing parenthesis, which belongs to no chain.
  obtain ⟨r', hterm, hr'⟩ := hinside.term hm (fun t ht => by
      rw [← Option.some_inj.1 ht]
      simp [isFactorOperator, isClosing])
    (fun t ht => by
      rw [← Option.some_inj.1 ht]
      simp [isTermOperator, isClosing]) hadv
  have hclose : r'.close = r'.advance := if_pos (by rw [hr'.current_cons, isClosing])
  refine ⟨r'.advance, ?_, hr'.advance⟩
  have hsign : isTermOperator r.current = false := by simp [isTermOperator, hcurrent, isOpening]
  calc (Rules.within (m + 1)).unary r = primary (some (Rules.within m)) r :=
        unary_of_not_sign hsign
    _ = parenthesized (some (Rules.within m)) r := by simp [primary, hcurrent, isOpening]
    _ = (inside.tree, r'.advance) := by rw [parenthesized_some, hterm, hclose]

/-- A minus sign is read together with the number that is out of range by one. -/
theorem isRead_least {sign digits : Token} (isMinus : sign.kind = .minus)
    (kind : digits.kind = .number)
    (value : Decimal.value digits.text.toList = greatestNumber + 1) :
    (least sign digits isMinus kind value).IsRead := by
  intro levels r rest _ hr
  obtain ⟨inner, hinner⟩ := Rules.exists_within_eq_around levels
  have hcurrent : r.current = sign := hr.current_cons
  have hnext : r.advance.current = digits := hr.advance.current_cons
  have hscan : digits.Scanned := hr.advance.scanned _ List.mem_cons_self
  refine ⟨r.advance.advance, ?_, hr.advance.advance⟩
  have hsign : isTermOperator r.current = true := by simp [isTermOperator, hcurrent, isMinus]
  have hlit : signedLiteral? r.current r.advance.current = some (leastLiteral sign digits) := by
    rw [hcurrent, hnext, signedLiteral?_eq_some_iff fun _ => hscan]
    exact ⟨isMinus, kind, value, rfl⟩
  rw [hinner]
  exact unary_of_literal hsign hlit

/-- If an operand begins with a number then that is in range, so that it stays a literal of its own
behind a sign. -/
theorem signedLiteral?_eq_none_of_faces {x : Derivation .unary} {r : Reading} {rest : List Token}
    (h : r.Faces (x.tokens ++ rest)) (sign : Token) : signedLiteral? sign r.current = none := by
  obtain ⟨t, ts, hts, ht⟩ := x.exists_tokens_unary
  rw [hts] at h
  rw [h.current_cons]
  exact signedLiteral?_eq_none (fun _ => h.scanned t List.mem_cons_self) ht

/-- A sign is read with the operand behind it. -/
theorem isRead_signed {sign : Token} {x : Derivation .unary}
    (isSign : sign.kind = .plus ∨ sign.kind = .minus) (hx : x.IsRead) :
    (signed sign isSign x).IsRead := by
  intro levels r rest hdeep hr
  have hcurrent : r.current = sign := hr.current_cons
  -- The sign takes one of the levels.
  obtain ⟨m, rfl⟩ : ∃ m, levels = m + 1 := Nat.exists_eq_add_one.2 (by
    simp only [deepest] at hdeep
    omega)
  have hm : x.deepest ≤ m := by simpa [deepest] using hdeep
  have hadv : r.advance.Faces (x.tokens ++ rest) := hr.advance
  obtain ⟨r', hunary, hr'⟩ := hx m r.advance rest hm hadv
  refine ⟨r', ?_, hr'⟩
  have hsign : isTermOperator r.current = true := isTermOperator_iff.2 (hcurrent ▸ isSign)
  have hlit : signedLiteral? r.current r.advance.current = none :=
    signedLiteral?_eq_none_of_faces hadv _
  calc (Rules.within (m + 1)).unary r
      = (.unary r.current ((Rules.within m).unary r.advance).1,
          ((Rules.within m).unary r.advance).2) := unary_of_sign hsign hlit
    _ = (.unary sign x.tree, r') := by rw [hunary, hcurrent]

/-! ## Chains -/

/-- A chain of one operand is read up to what follows it. -/
theorem isRead_ofUnary {x : Derivation .unary} (hx : x.IsRead) : (ofUnary x).IsRead := by
  intro levels r rest hdeep hr
  obtain ⟨r', hunary, hr'⟩ := hx levels r rest hdeep hr
  refine ⟨r', ?_, hr'⟩
  calc (Rules.within levels).factor r
      = (Rules.within levels).factorTail ((Rules.within levels).unary r).1
          ((Rules.within levels).unary r).2 := rfl
    _ = (Rules.within levels).factorTail x.tree r' := by rw [hunary]

/-- A chain of one factor is read up to what follows it. -/
theorem isRead_ofFactor {x : Derivation .factor} (hx : x.IsRead) : (ofFactor x).IsRead := by
  intro levels r rest hdeep hrest hr
  obtain ⟨r', hfactor, hr'⟩ := hx.factor hdeep hrest hr
  refine ⟨r', ?_, hr'⟩
  calc (Rules.within levels).term r
      = (Rules.within levels).termTail ((Rules.within levels).factor r).1
          ((Rules.within levels).factor r).2 := rfl
    _ = (Rules.within levels).termTail x.tree r' := by rw [hfactor]

/-- A chain that has been read up to an operator is read on over the operand behind it, which takes
one more of the levels that the chain has left. The rule `chain` reads the chain, `tail` reads on in
it, and `operand` reads its operands. -/
theorem reads_on (chain operand : Rules → Rule) (tail : Rules → ParseTree → Rule)
    {levels k m : ℕ} {r r₁ r₂ : Reading} {left right : ParseTree}
    (hleft : chain (Rules.within levels) r = tail (Rules.within (levels - k)) left r₁)
    (hm : levels - k = m + 1)
    (hoperator : tail (Rules.within (m + 1)) left r₁ =
      tail (Rules.within m) (.binary left r₁.current (operand (Rules.within m) r₁.advance).1)
        (operand (Rules.within m) r₁.advance).2)
    (hright : operand (Rules.within m) r₁.advance = (right, r₂)) :
    chain (Rules.within levels) r =
      tail (Rules.within (levels - (k + 1))) (.binary left r₁.current right) r₂ := by
  have hlevels : levels - (k + 1) = m := by omega
  calc chain (Rules.within levels) r
      = tail (Rules.within (m + 1)) left r₁ := by rw [hleft, hm]
    _ = tail (Rules.within (levels - (k + 1))) (.binary left r₁.current right) r₂ := by
        rw [hoperator, hright, hlevels]

/-- A factor is read on over one more operator and operand. -/
theorem isRead_product {left : Derivation .factor} {operator : Token} {right : Derivation .unary}
    (isOperator : operator.kind = .times ∨ operator.kind = .divide) (hleft : left.IsRead)
    (hright : right.IsRead) : (product left operator isOperator right).IsRead := by
  intro levels r rest hdeep hr
  simp only [deepest] at hdeep
  simp only [tokens, List.append_assoc, List.cons_append] at hr
  obtain ⟨r₁, heq, hr₁⟩ := hleft levels r (operator :: (right.tokens ++ rest)) (by omega) hr
  have hcurrent : r₁.current = operator := hr₁.current_cons
  have hop : isFactorOperator r₁.current = true := isFactorOperator_iff.2 (hcurrent ▸ isOperator)
  -- The bound on the depth of the right operand leaves a level for it.
  obtain ⟨m, hm⟩ : ∃ m, levels - left.operators = m + 1 := Nat.exists_eq_add_one.2 (by omega)
  obtain ⟨r₂, hunary, hr₂⟩ := hright m r₁.advance rest (by omega) hr₁.advance
  have hchain := reads_on Rules.factor Rules.unary Rules.factorTail heq hm
    (factorTail_of_operator hop) hunary
  rw [hcurrent] at hchain
  exact ⟨r₂, hchain, hr₂⟩

/-- A term is read on over one more operator and factor. -/
theorem isRead_sum {left : Derivation .term} {operator : Token} {right : Derivation .factor}
    (isOperator : operator.kind = .plus ∨ operator.kind = .minus) (hleft : left.IsRead)
    (hright : right.IsRead) : (sum left operator isOperator right).IsRead := by
  intro levels r rest hdeep hrest hr
  simp only [deepest] at hdeep
  simp only [tokens, List.append_assoc, List.cons_append] at hr
  have hop' : isTermOperator operator = true := isTermOperator_iff.2 isOperator
  obtain ⟨r₁, heq, hr₁⟩ := hleft levels r _ (by omega) (noFactorOperator_cons hop' _) hr
  have hcurrent : r₁.current = operator := hr₁.current_cons
  have hop : isTermOperator r₁.current = true := hcurrent ▸ hop'
  obtain ⟨m, hm⟩ : ∃ m, levels - left.operators = m + 1 := Nat.exists_eq_add_one.2 (by omega)
  have hdeepRight : right.deepest ≤ m := by omega
  obtain ⟨r₂, hfactor, hr₂⟩ := hright.factor hdeepRight hrest hr₁.advance
  have hchain := reads_on Rules.term Rules.factor Rules.termTail heq hm
    (termTail_of_operator hop) hfactor
  rw [hcurrent] at hchain
  exact ⟨r₂, hchain, hr₂⟩

/-- The rules read every derivation. -/
theorem isRead {s : Symbol} (p : Derivation s) : p.IsRead := by
  -- One case for each way to derive a symbol; the levels are fixed only when a rule is applied.
  induction p with
  | number token kind inRange => exact isRead_number kind inRange
  | boolean token kind => exact isRead_boolean kind
  | parens opening inside closing isOpening isClosing ih =>
    exact isRead_parens isOpening isClosing ih
  | ofPrimary x ih => exact ih
  | least sign digits isMinus kind value => exact isRead_least isMinus kind value
  | signed sign isSign x ih => exact isRead_signed isSign ih
  | ofUnary x ih => exact isRead_ofUnary ih
  | product left operator isOperator right ihLeft ihRight =>
    exact isRead_product isOperator ihLeft ihRight
  | ofFactor x ih => exact isRead_ofFactor ih
  | sum left operator isOperator right ihLeft ihRight =>
    exact isRead_sum isOperator ihLeft ihRight

end Derivation

end Calculator
