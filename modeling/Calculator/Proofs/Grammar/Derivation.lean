import Mathlib.Data.Nat.Notation
import Calculator.ParseTree

/-!
# Derivations of the grammar

    term    := factor (('+' | '-') factor)*
    factor  := unary (('*' | '/') unary)*
    unary   := ('+' | '-') unary | primary
    primary := number | 'true' | 'false' | '(' term ')'

A derivation shows how a symbol of the grammar produces a list of tokens. A number has to be at most
the greatest integer, except that one more is allowed behind a minus sign, with which it then makes
up one literal. A chain of operators is derived from the left, so that what stands in front of its
last operator is a chain again.

Every part of a derivation has a nesting level. The whole has level 0, a chain gives its own level
`d` to its first operand and `d + k` to the operand behind its `k`-th operator, and a sign or a
parenthesis of level `d` gives `d + 1` to what it stands around. `Derivation.deepest` is the
greatest of these levels.
-/

namespace Calculator

/-- The symbols of the grammar. An expression is a term. -/
inductive Symbol where
  | primary
  | unary
  | factor
  | term
  deriving DecidableEq

/-- The greatest integer, up to which a number can stand alone. -/
def greatestNumber : ℕ := 2147483647

/-- The derivations of the grammar, by the symbol that they start from. -/
inductive Derivation : Symbol → Type where
  /-- A number in range. -/
  | number (token : Token) (kind : token.kind = .number)
      (inRange : Decimal.value token.text.toList ≤ greatestNumber) : Derivation .primary
  /-- One of the words `true` and `false`. -/
  | boolean (token : Token) (kind : token.kind = .trueWord ∨ token.kind = .falseWord) :
      Derivation .primary
  /-- An expression in parentheses. -/
  | parens (opening : Token) (inside : Derivation .term) (closing : Token)
      (isOpening : opening.kind = .leftParen) (isClosing : closing.kind = .rightParen) :
      Derivation .primary
  /-- An operand without a sign. -/
  | ofPrimary (x : Derivation .primary) : Derivation .unary
  /-- A minus sign with the number behind it that is out of range by one. -/
  | least (sign digits : Token) (isMinus : sign.kind = .minus) (kind : digits.kind = .number)
      (value : Decimal.value digits.text.toList = greatestNumber + 1) : Derivation .unary
  /-- A sign and its operand. -/
  | signed (sign : Token) (isSign : sign.kind = .plus ∨ sign.kind = .minus)
      (x : Derivation .unary) : Derivation .unary
  /-- The first operand of a factor. -/
  | ofUnary (x : Derivation .unary) : Derivation .factor
  /-- A factor that goes on with an operator and an operand. -/
  | product (left : Derivation .factor) (operator : Token)
      (isOperator : operator.kind = .times ∨ operator.kind = .divide)
      (right : Derivation .unary) : Derivation .factor
  /-- The first factor of a term. -/
  | ofFactor (x : Derivation .factor) : Derivation .term
  /-- A term that goes on with an operator and a factor. -/
  | sum (left : Derivation .term) (operator : Token)
      (isOperator : operator.kind = .plus ∨ operator.kind = .minus)
      (right : Derivation .factor) : Derivation .term

/-- The literal that a minus sign makes of the number that is out of range by one. -/
def leastLiteral (sign digits : Token) : Token :=
  ⟨.number, "-" ++ digits.text, some (.int (-2147483648)), sign.start⟩

namespace Derivation

variable {s : Symbol}

/-- The tokens that a derivation produces. -/
def tokens : {s : Symbol} → Derivation s → List Token
  | _, number token _ _ => [token]
  | _, boolean token _ => [token]
  | _, parens opening inside closing _ _ => opening :: (inside.tokens ++ [closing])
  | _, ofPrimary x => x.tokens
  | _, least sign digits _ _ _ => [sign, digits]
  | _, signed sign _ x => sign :: x.tokens
  | _, ofUnary x => x.tokens
  | _, product left operator _ right => left.tokens ++ operator :: right.tokens
  | _, ofFactor x => x.tokens
  | _, sum left operator _ right => left.tokens ++ operator :: right.tokens

/-- The tree of a derivation: parentheses leave no node, and chains associate to the left. -/
def tree : {s : Symbol} → Derivation s → ParseTree
  | _, number token _ _ => .literal token
  | _, boolean token _ => .literal token
  | _, parens _ inside _ _ _ => inside.tree
  | _, ofPrimary x => x.tree
  | _, least sign digits _ _ _ => .literal (leastLiteral sign digits)
  | _, signed sign _ x => .unary sign x.tree
  | _, ofUnary x => x.tree
  | _, product left operator _ right => .binary left.tree operator right.tree
  | _, ofFactor x => x.tree
  | _, sum left operator _ right => .binary left.tree operator right.tree

/-- The number of operators in the outermost chain of a factor or a term. -/
def operators : {s : Symbol} → Derivation s → ℕ
  | _, product left _ _ _ => left.operators + 1
  | _, sum left _ _ _ => left.operators + 1
  | _, _ => 0

/-- An operand without a sign is no chain. -/
@[simp] theorem operators_primary (p : Derivation .primary) : p.operators = 0 := by
  cases p <;> rfl

/-- An operand is no chain. -/
@[simp] theorem operators_unary (p : Derivation .unary) : p.operators = 0 := by
  cases p <;> rfl

/-- The greatest level of a part of a derivation that has level 0 itself. -/
def deepest : {s : Symbol} → Derivation s → ℕ
  | _, number _ _ _ => 0
  | _, boolean _ _ => 0
  | _, parens _ inside _ _ _ => inside.deepest + 1
  | _, ofPrimary x => x.deepest
  | _, least _ _ _ _ _ => 0
  | _, signed _ _ x => x.deepest + 1
  | _, ofUnary x => x.deepest
  | _, product left _ _ right => max left.deepest (left.operators + 1 + right.deepest)
  | _, ofFactor x => x.deepest
  | _, sum left _ _ right => max left.deepest (left.operators + 1 + right.deepest)

/-- The operand behind the last operator of a chain lies at least as deep as the chain is long. -/
theorem operators_le_deepest (p : Derivation s) : p.operators ≤ p.deepest := by
  cases p with
  | product left _ _ right =>
    simp only [operators, deepest]
    omega
  | sum left _ _ right =>
    simp only [operators, deepest]
    omega
  | _ => exact Nat.zero_le _

/-- Every level takes a token: a derivation has more tokens than levels below its own. -/
theorem deepest_lt_length_tokens (p : Derivation s) : p.deepest < p.tokens.length := by
  induction p with
  | number _ _ _ => exact Nat.one_pos
  | boolean _ _ => exact Nat.one_pos
  | parens _ inside _ _ _ ih =>
    simp only [deepest, tokens, List.length_cons, List.length_append]
    omega
  | ofPrimary _ ih => exact ih
  | least _ _ _ _ _ => exact Nat.two_pos
  | signed _ _ x ih =>
    simp only [deepest, tokens, List.length_cons]
    omega
  | ofUnary _ ih => exact ih
  | product left _ _ right ihLeft ihRight =>
    have hoperators := left.operators_le_deepest
    simp only [deepest, tokens, List.length_cons, List.length_append]
    omega
  | ofFactor _ ih => exact ih
  | sum left _ _ right ihLeft ihRight =>
    have hoperators := left.operators_le_deepest
    simp only [deepest, tokens, List.length_cons, List.length_append]
    omega

/-- The first token of an operand without a sign is a number in range, a boolean or an opening
parenthesis. -/
theorem exists_tokens_primary (p : Derivation .primary) : ∃ t ts, p.tokens = t :: ts ∧
    (t.kind = .number ∧ Decimal.value t.text.toList ≤ greatestNumber ∨ t.kind = .trueWord ∨
      t.kind = .falseWord ∨ t.kind = .leftParen) := by
  cases p with
  | number token kind inRange => exact ⟨token, [], rfl, .inl ⟨kind, inRange⟩⟩
  | boolean token kind =>
    rcases kind with ht | hf
    · exact ⟨token, [], rfl, .inr (.inl ht)⟩
    · exact ⟨token, [], rfl, .inr (.inr (.inl hf))⟩
  | parens opening inside closing isOpening _ =>
    exact ⟨opening, _, rfl, .inr (.inr (.inr isOpening))⟩

/-- If the first token of an operand is a number then it is in range. -/
theorem exists_tokens_unary (p : Derivation .unary) : ∃ t ts, p.tokens = t :: ts ∧
    (t.kind = .number → Decimal.value t.text.toList ≤ greatestNumber) := by
  cases p with
  | ofPrimary x =>
    obtain ⟨t, ts, hts, ⟨-, hle⟩ | ht | hf | hl⟩ := x.exists_tokens_primary
    · exact ⟨t, ts, hts, fun _ => hle⟩
    · exact ⟨t, ts, hts, fun hn => by simp [ht] at hn⟩
    · exact ⟨t, ts, hts, fun hn => by simp [hf] at hn⟩
    · exact ⟨t, ts, hts, fun hn => by simp [hl] at hn⟩
  | least sign _ isMinus _ _ => exact ⟨sign, _, rfl, fun hn => by simp [isMinus] at hn⟩
  | signed sign isSign x =>
    refine ⟨sign, _, rfl, fun hn => ?_⟩
    rcases isSign with hp | hm
    · simp [hp] at hn
    · simp [hm] at hn

end Derivation

end Calculator
