import Mathlib.Order.Bounds.Defs
import Mathlib.Tactic.Ring
import Calculator.Proofs.Grammar.Height
import Calculator.Proofs.Scan.Fragments

/-!
# The tallest tree

The bound on the height of a tree by its levels is attained: the greatest height over all sources
that are read without a report is 65793 (`Reading.isGreatest_height_parse`).

Every level of a tallest tree is used twice. An operator of a chain adds a node over the whole chain
in front of it, whose first operand still has all levels of the chain. So an operand gets higher by
twice the number of levels if it is the first one of a factor with an operator for each level, and
this factor is the first one of such a term; and in parentheses that is an operand with one level
more (`tallest`). Only the last level is left to a sign.
-/

namespace Calculator

/-- The number one, as a token. -/
def Token.one : Token := ⟨.number, "1", some (.int 1), .start⟩

/-- The operator of the chains that are factors. -/
def Token.times : Token := ⟨.times, "*", none, .start⟩

/-- The operator of the chains that are terms, and the sign of an operand. -/
def Token.plus : Token := ⟨.plus, "+", none, .start⟩

/-- The text with a number of operators behind it, each in front of a one. -/
def chained (operator : Token) (text : List Char) : ℕ → List Char
  | 0 => text
  | k + 1 => chained operator text k ++ ' ' :: (operator.text.toList ++ [' ', '1'])

/-- An operand with `n` levels inside it whose tree is as high as they allow. -/
def tallest : ℕ → List Char
  | 0 => ['1']
  | 1 => ['+', '1']
  | n + 2 => '(' :: (chained .plus (chained .times (tallest (n + 1)) (n + 1)) (n + 1) ++ [')'])

/-- The token of the number one has the value that its text determines. -/
theorem Token.isLexed_one : Token.one.IsLexed := by
  have hdigit : ∀ c ∈ ['1'], Character.isDigit c = true := List.forall_mem_singleton.2 rfl
  exact Lexeme.number (List.cons_ne_nil '1' []) hdigit rfl

/-- The token of a product has no value. -/
theorem Token.isLexed_times : Token.times.IsLexed := Lexeme.times

/-- The token of a sum or a sign has no value. -/
theorem Token.isLexed_plus : Token.plus.IsLexed := Lexeme.plus

/-- One is in range. -/
theorem Token.value_one_le : Decimal.value Token.one.text.toList ≤ greatestNumber := by decide

namespace Derivation

variable {s : Symbol} {text : List Char} {p : Position} {levels height : ℕ}

/-- The derivation is one of the text at the position `p`, with no more than a number of levels, and
its tree has the height. -/
structure Reaches (text : List Char) (p : Position) (levels height : ℕ) (d : Derivation s) :
    Prop where
  /-- The text is scanned into the tokens of the derivation. -/
  scans : ScansAs text p d.tokens
  /-- No level is above the bound. -/
  deepest : d.deepest ≤ levels
  /-- The tree has the height. -/
  height : d.tree.height = height

/-! ## Chains of ones -/

/-- The operand that the number one makes up. -/
def one (p : Position) : Derivation .unary :=
  .ofPrimary (.number (Token.one.placed p) rfl Token.value_one_le)

/-- The function makes a chain longer by an operator and a one, at the two positions. -/
structure Lengthens (operator : Token)
    (longer : Derivation s → Position → Position → Derivation s) : Prop where
  /-- The operator and the one come last. -/
  tokens : ∀ d p q, (longer d p q).tokens = d.tokens ++ [operator.placed p, Token.one.placed q]
  /-- The one lies as deep as the chain is then long. -/
  deepest : ∀ d p q, (longer d p q).deepest = max d.deepest (d.operators + 1)
  /-- There is one operator more. -/
  operators : ∀ d p q, (longer d p q).operators = d.operators + 1
  /-- The operator is a node over the whole chain. -/
  height : ∀ d p q, (longer d p q).tree.height = d.tree.height + 1

/-- A factor gets longer by a product. -/
theorem lengthens_product :
    Lengthens .times fun d p q => product d (Token.times.placed p) (.inl rfl) (one q) where
  tokens _ _ _ := rfl
  deepest _ _ _ := rfl
  operators _ _ _ := rfl
  height d _ _ := congrArg (· + 1) (Nat.max_zero d.tree.height)

/-- A term gets longer by a sum. -/
theorem lengthens_sum :
    Lengthens .plus fun d p q => sum d (Token.plus.placed p) (.inl rfl) (ofUnary (one q)) where
  tokens _ _ _ := rfl
  deepest _ _ _ := rfl
  operators _ _ _ := rfl
  height d _ _ := congrArg (· + 1) (Nat.max_zero d.tree.height)

/-- A chain can have an operator for each level, and gets higher by one with each of them. -/
theorem Reaches.exists_chained {operator : Token} (hop : operator.IsLexed)
    {longer : Derivation s → Position → Position → Derivation s}
    (hlonger : Lengthens operator longer) {first : Derivation s}
    (hfirst : first.Reaches text p levels height) (hnone : first.operators = 0) {k : ℕ}
    (hk : k ≤ levels) :
    ∃ d : Derivation s, d.Reaches (chained operator text k) p levels (height + k) ∧
      d.operators = k := by
  -- The length is carried along, since it says how deep the next one lies.
  induction k with
  | zero => exact ⟨first, hfirst, hnone⟩
  | succ k ih =>
    obtain ⟨d, hd, hcount⟩ := ih (by omega)
    let place := (p.advance (chained operator text k)).after ' '
    let last := (place.advance operator.text.toList).after ' '
    refine ⟨longer d place last, ⟨?_, ?_, ?_⟩, ?_⟩
    · rw [hlonger.tokens]
      exact hd.scans.operator hop (ScansAs.single Token.isLexed_one)
    · rw [hlonger.deepest, hcount]
      exact Nat.max_le.2 ⟨hd.deepest, hk⟩
    · rw [hlonger.height, hd.height, Nat.add_assoc]
    · rw [hlonger.operators, hcount]

/-- An operand at the front of a factor and a term that use all levels gets higher by twice their
number. -/
theorem Reaches.exists_term {x : Derivation .unary} (hx : x.Reaches text p levels height) :
    ∃ d : Derivation .term, d.Reaches (chained .plus (chained .times text levels) levels) p levels
      (height + 2 * levels) := by
  have hfirst : (ofUnary x).Reaches text p levels height := ⟨hx.scans, hx.deepest, hx.height⟩
  obtain ⟨f, hf, -⟩ :=
    hfirst.exists_chained Token.isLexed_times lengthens_product rfl (Nat.le_refl levels)
  have hfactor : (ofFactor f).Reaches (chained .times text levels) p levels (height + levels) :=
    ⟨hf.scans, hf.deepest, hf.height⟩
  obtain ⟨d, hd, -⟩ :=
    hfactor.exists_chained Token.isLexed_plus lengthens_sum rfl (Nat.le_refl levels)
  rw [Nat.add_assoc, ← Nat.two_mul] at hd
  exact ⟨d, hd⟩

/-! ## Operands -/

/-- The parentheses around a term take a level. -/
theorem Reaches.exists_parens {d : Derivation .term}
    (hd : d.Reaches text (p.after '(') levels height) :
    ∃ x : Derivation .unary, x.Reaches ('(' :: (text ++ [')'])) p (levels + 1) height := by
  let opening : Token := .punctuation .leftParen '(' p
  let closing : Token := .punctuation .rightParen ')' ((p.after '(').advance text)
  exact ⟨.ofPrimary (.parens opening d closing rfl rfl), hd.scans.parens,
    Nat.succ_le_succ hd.deepest, hd.height⟩

/-- An operand can have the greatest height that its levels allow. -/
theorem exists_reaches_tallest (n : ℕ) (p : Position) :
    ∃ x : Derivation .unary, x.Reaches (tallest n) p n (operandHeight n) := by
  induction n using tallest.induct generalizing p with
  | case1 => exact ⟨one p, ScansAs.single Token.isLexed_one, Nat.le_refl _, rfl⟩
  | case2 =>
    let x : Derivation .unary := .signed (Token.plus.placed p) (.inl rfl) (one (p.after '+'))
    have halone : ∀ c, ¬ Extends Token.plus.text.toList c :=
      Token.isLexed_plus.not_extends_of_sign (.inl rfl)
    exact ⟨x, (ScansAs.single Token.isLexed_one).token_alone Token.isLexed_plus halone,
      Nat.le_refl _, rfl⟩
  | case3 n ih =>
    obtain ⟨x, hx⟩ := ih (p.after '(')
    obtain ⟨d, hd⟩ := hx.exists_term
    -- Inside the parentheses there are two levels at least, so that the chains add most.
    have hheight : operandHeight (n + 2) = operandHeight (n + 1) + 2 * (n + 1) := by
      rw [operandHeight]
      omega
    rw [hheight]
    exact hd.exists_parens

/-- With three levels an operand has its two chains in each of two parentheses, and a sign. -/
example : String.ofList (tallest 3) = "((+1 * 1 + 1) * 1 * 1 + 1 + 1)" := by decide +kernel

/-- The greatest height of an operand in closed form. -/
theorem operandHeight_succ (n : ℕ) : operandHeight (n + 1) = n * (n + 1) + 1 := by
  induction n with
  | zero => rfl
  | succ n ih =>
    rw [operandHeight, ih, Nat.max_eq_right (by omega)]
    ring

/-- The greatest height of a term with `n` levels is about the square of their number. -/
theorem operandHeight_add (n : ℕ) (h : 0 < n) :
    operandHeight n + 2 * n = n * (n + 1) + 1 := by
  obtain ⟨m, rfl⟩ := Nat.exists_eq_add_one.2 h
  rw [operandHeight_succ]
  ring

end Derivation

namespace Reading

/-- The greatest height of a tree over all sources that are read without a report. -/
theorem isGreatest_height_parse :
    IsGreatest {height | ∃ source : String, (ofString source).parse.2.diagnostics.toList = [] ∧
      (ofString source).parse.1.height = height} (256 * 257 + 1) := by
  have hbound : Derivation.operandHeight nestingLimit + 2 * nestingLimit = 256 * 257 + 1 :=
    Derivation.operandHeight_add nestingLimit (by decide)
  constructor
  · -- The text is never looked at: its derivation stands for it.
    obtain ⟨x, hx⟩ := Derivation.exists_reaches_tallest nestingLimit .start
    obtain ⟨d, hd⟩ := hx.exists_term
    rw [hbound] at hd
    let text := chained .plus (chained .times (tallest nestingLimit) nestingLimit) nestingLimit
    have hscans : ScansAs (String.ofList text).toList .start d.tokens := by
      rw [String.toList_ofList]
      exact hd.scans
    obtain ⟨herrors, htokens⟩ := hscans.errors_tokens
    obtain ⟨hparse, hread⟩ := parse_of_derives ⟨herrors, htokens.symm, hd.deepest⟩
    refine ⟨String.ofList text, (failed_parse_eq_false_iff _).1 hread, ?_⟩
    rw [hparse, hd.height]
  · rintro _ ⟨source, hread, rfl⟩
    obtain ⟨d, hd, hparse⟩ := exists_derives_of_parse ((failed_parse_eq_false_iff source).2 hread)
    rw [hparse, ← hbound]
    exact d.height_tree_le hd.deepest

end Reading

end Calculator
