import Mathlib.Data.Int.Notation
import Calculator.Proofs.Grammar.Acceptance

/-!
# What the trees of accepted sources are made of

The tree of a derivation has no part that could not be read. Its literals have the values that their
texts denote, also the literal that a minus sign and a number make up together, and its operators
are those of the grammar (`ParseTree.Proper`). Since the scan makes every token as its text says,
this holds of the tree of every source that is read without a failure (`Reading.proper_parse`).
-/

namespace Calculator

/-- The integer that the text of a literal denotes: that of its digits, with a minus sign in front
of them if there is one. -/
def Token.written (t : Token) : ℤ :=
  match t.text.toList with
  | '-' :: digits => -(Decimal.value digits : ℤ)
  | digits => Decimal.value digits

/-- The token is a literal for the value. -/
inductive Token.Denotes (t : Token) : Value → Prop where
  | number (kind : t.kind = .number) {n : Int32} (value : n.toInt = t.written) : t.Denotes (.int n)
  | trueWord (kind : t.kind = .trueWord) : t.Denotes (.boolean true)
  | falseWord (kind : t.kind = .falseWord) : t.Denotes (.boolean false)

/-- Every literal of the tree has the value that it denotes, every operator stands where the grammar
allows it, and every part could be read. -/
def ParseTree.Proper : ParseTree → Prop
  | literal token => ∃ v, token.value = some v ∧ token.Denotes v
  | unary operator x => (operator.kind = .plus ∨ operator.kind = .minus) ∧ x.Proper
  | binary x operator y =>
    ((operator.kind = .plus ∨ operator.kind = .minus) ∨
      operator.kind = .times ∨ operator.kind = .divide) ∧ x.Proper ∧ y.Proper
  | error => False

namespace Token

/-- A literal denotes one value only. -/
theorem Denotes.unique {t : Token} {v w : Value} (hv : t.Denotes v) (hw : t.Denotes w) :
    v = w := by
  cases hv with
  | number kind value =>
    cases hw with
    | number _ value' => rw [Int32.toInt_inj.1 (value.trans value'.symm)]
    | trueWord kind' => simp [kind] at kind'
    | falseWord kind' => simp [kind] at kind'
  | trueWord kind =>
    cases hw with
    | number kind' _ => simp [kind] at kind'
    | trueWord _ => rfl
    | falseWord kind' => simp [kind] at kind'
  | falseWord kind =>
    cases hw with
    | number kind' _ => simp [kind] at kind'
    | trueWord kind' => simp [kind] at kind'
    | falseWord _ => rfl

/-- A text of digits denotes their number. -/
theorem written_of_digits {t : Token} (h : ∀ c ∈ t.text.toList, c.isDigit = true) :
    t.written = Decimal.value t.text.toList := by
  unfold written
  split
  · next digits htext =>
    -- The minus sign is no digit.
    have hminus : '-'.isDigit = true := h '-' (by rw [htext]; exact List.mem_cons_self)
    exact absurd hminus (by decide)
  · rfl

/-- A minus sign in front of the digits of a literal negates it. -/
theorem written_leastLiteral (sign digits : Token) :
    (leastLiteral sign digits).written = -(Decimal.value digits.text.toList : ℤ) := by
  have htext : (leastLiteral sign digits).text.toList = '-' :: digits.text.toList := by
    simp [leastLiteral]
  simp only [written, htext]

/-- A number in range that the scan made is a literal for its value. -/
theorem Scanned.exists_denotes_number {t : Token} (h : t.Scanned) (hk : t.kind = .number)
    (hle : Decimal.value t.text.toList ≤ greatestNumber) :
    ∃ v, t.value = some v ∧ t.Denotes v := by
  have hvalue : t.value = (fit? (Decimal.value t.text.toList)).map .int := h.number hk
  have hrange : InRange (Decimal.value t.text.toList) := by
    unfold greatestNumber at hle
    constructor <;> omega
  cases hfit : fit? (Decimal.value t.text.toList) with
  | none => exact absurd hrange (fit?_eq_none_iff.1 hfit)
  | some n =>
    refine ⟨.int n, by rw [hvalue, hfit, Option.map_some], .number hk ?_⟩
    rw [written_of_digits (h.digits hk), fit?_eq_some_iff.1 hfit]

/-- A boolean word that the scan made is a literal for its value. -/
theorem Scanned.exists_denotes_boolean {t : Token} (h : t.Scanned)
    (hk : t.kind = .trueWord ∨ t.kind = .falseWord) : ∃ v, t.value = some v ∧ t.Denotes v := by
  rcases hk with ht | hf
  · exact ⟨_, h.trueWord ht, .trueWord ht⟩
  · exact ⟨_, h.falseWord hf, .falseWord hf⟩

end Token

/-- The tree of a derivation of tokens that the scan made is proper. -/
theorem Derivation.proper_tree {s : Symbol} (p : Derivation s) (h : ∀ t ∈ p.tokens, t.Scanned) :
    p.tree.Proper := by
  induction p with
  | number token kind inRange =>
    have hscan : token.Scanned := h token List.mem_cons_self
    exact hscan.exists_denotes_number kind inRange
  | boolean token kind =>
    have hscan : token.Scanned := h token List.mem_cons_self
    exact hscan.exists_denotes_boolean kind
  | parens opening inside closing _ _ ih =>
    exact ih fun t ht => h t (by simp [tokens, ht])
  | ofPrimary x ih => exact ih h
  | least sign digits _ _ value =>
    refine ⟨.int (-2147483648), rfl, .number rfl ?_⟩
    rw [Token.written_leastLiteral, value]
    decide
  | signed sign isSign x ih => exact ⟨isSign, ih fun t ht => h t (List.mem_cons_of_mem _ ht)⟩
  | ofUnary x ih => exact ih h
  | product left operator isOperator right ihLeft ihRight =>
    have hleft := ihLeft fun t ht => h t (by simp [tokens, ht])
    have hright := ihRight fun t ht => h t (by simp [tokens, ht])
    exact ⟨.inr isOperator, hleft, hright⟩
  | ofFactor x ih => exact ih h
  | sum left operator isOperator right ihLeft ihRight =>
    have hleft := ihLeft fun t ht => h t (by simp [tokens, ht])
    have hright := ihRight fun t ht => h t (by simp [tokens, ht])
    exact ⟨.inl isOperator, hleft, hright⟩

/-- A source that is read without a failure has a proper tree. -/
theorem Reading.proper_parse {source : String} (hf : (ofString source).parse.2.failed = false) :
    (ofString source).parse.1.Proper := by
  obtain ⟨p, hp, htree⟩ := exists_derives_of_parse hf
  rw [htree]
  refine p.proper_tree fun t ht => ?_
  rw [hp.tokens] at ht
  exact (TokenStream.proper_ofString source).scanned t (TokenStream.mem_tokens.1 ht)

end Calculator
