import Calculator.Proofs.Evaluation.Placeless
import Calculator.Proofs.Grammar.Moving
import Calculator.Proofs.Scan.Fragments

/-!
# Sources put together

Two sources of integer type, each in parentheses, with an operator between them are a source again:
its bound tree is the operation over the bound trees of the two, and its outcome is the operation
applied to their outcomes (`compile_enclosed`). The newline in front of each closing parenthesis
ends the line comment with which a source can end. The parentheses and the operator take one level
for the first source and two for the second one, which these must not have used.

Each of the two is scanned for itself (`ScansAs.exists_newline`), and its tokens, which are now at
other places, are derived as they were before (`Derivation.exists_isMoved`).
-/

namespace Calculator

/-! ## The text and its tokens -/

/-- The character that an operation is written with. -/
def BinaryOp.symbol : BinaryOp → Char
  | .addition => '+'
  | .subtraction => '-'
  | .multiplication => '*'
  | .division => '/'

/-- The kind of the token that an operation is written with. -/
def BinaryOp.kind : BinaryOp → TokenKind
  | .addition => .plus
  | .subtraction => .minus
  | .multiplication => .times
  | .division => .divide

/-- The two sources, each in parentheses and with a newline behind it, with an operator between
them. -/
def enclosed (a : String) (op : BinaryOp) (b : String) : String :=
  "(" ++ a ++ "\n)" ++ String.singleton op.symbol ++ "(" ++ b ++ "\n)"

namespace BinaryOp

/-- An operation is written with a lexeme. -/
theorem lexeme_symbol (op : BinaryOp) : Lexeme [op.symbol] op.kind none := by
  cases op with
  | addition => exact .plus
  | subtraction => exact .minus
  | multiplication => exact .times
  | division => exact .divide

/-- An opening parenthesis is not read together with an operator. -/
theorem not_extends_symbol (op : BinaryOp) : ¬ Extends [op.symbol] '(' := fun h =>
  absurd (h.of_not_isWordPart (by decide)).2 (by decide)

/-- An operation is written with an operator of the grammar. -/
theorem kind_cases (op : BinaryOp) :
    (op.kind = .plus ∨ op.kind = .minus) ∨ op.kind = .times ∨ op.kind = .divide := by
  cases op <;> simp [kind]

/-- The operator stands for the operation between integers. -/
theorem resolve?_kind (op : BinaryOp) : BinaryOp.resolve? op.kind .int .int = some op := by
  cases op <;> rfl

end BinaryOp

variable {a b : String} {d e : Derivation .term}

/-- A source without errors, in parentheses and with a newline behind it, is scanned into the tokens
of an operand, whatever is behind it: that of the source, one level further in. -/
theorem exists_operand (herrors : (TokenStream.ofString a).errors = [])
    (htokens : d.tokens = (TokenStream.ofString a).tokens) (p : Position) :
    ∃ x : Derivation .primary, x.deepest = d.deepest + 1 ∧ x.tree.unplaced = d.tree.unplaced ∧
      ∀ rest us, ScansAs rest (p.advance ('(' :: (a.toList ++ ['\n', ')']))) us →
        ScansAs ('(' :: (a.toList ++ '\n' :: ')' :: rest)) p (x.tokens ++ us) := by
  obtain ⟨ts, hts, hscans⟩ := ScansAs.exists_newline herrors (p.after '(')
  rw [← htokens] at hts
  obtain ⟨d', hd'⟩ := d.exists_isMoved hts
  let opening : Token := .punctuation .leftParen '(' p
  let place : Position := (p.after '(').advance (a.toList ++ ['\n'])
  let closing : Token := .punctuation .rightParen ')' place
  refine ⟨.parens opening d' closing rfl rfl, ?_, hd'.unplaced, fun rest us hrest => ?_⟩
  · simp only [Derivation.deepest, hd'.deepest]
  · have hbehind : p.advance ('(' :: (a.toList ++ ['\n', ')'])) = place.after ')' := by
      simp [place, Position.advance_append]
    rw [hbehind] at hrest
    have hends : Ends (')' :: rest) := fun c hc => .inr (Option.some_inj.1 hc).symm
    have hclosing := ScansAs.parenthesis .rightParen (by decide) hrest
    have hall := ScansAs.parenthesis .leftParen (by decide) (hscans.append hclosing hends)
    simpa [Derivation.tokens, hd'.tokens, opening, closing] using hall

/-- Between two operands an operator is scanned by itself. -/
theorem ScansAs.symbol {rest : List Char} {p : Position} {us : List Token} (op : BinaryOp)
    (h : ScansAs ('(' :: rest) (p.after op.symbol) us) :
    ScansAs (op.symbol :: '(' :: rest) p (.punctuation op.kind op.symbol p :: us) := by
  have htext : (Token.punctuation op.kind op.symbol p).text.toList = [op.symbol] :=
    String.toList_singleton op.symbol
  have hlexed : (Token.punctuation op.kind op.symbol p).IsLexed := by
    rw [Token.IsLexed, htext]
    exact op.lexeme_symbol
  have hnext : ∀ rest', Ends rest' → ∀ c ∈ (('(' :: rest) ++ rest').head?,
      ¬ Extends (Token.punctuation op.kind op.symbol p).text.toList c := by
    intro rest' _ c hc
    rw [← Option.some_inj.1 hc, htext]
    exact op.not_extends_symbol
  have htoken := ScansAs.token hlexed hnext (by rwa [htext])
  rwa [htext] at htoken

/-- An operator between two operands makes a term, which takes one level more for the second
operand. -/
theorem exists_term (op : BinaryOp) {operator : Token} (hop : operator.kind = op.kind)
    (x y : Derivation .primary) :
    ∃ e : Derivation .term, e.tokens = x.tokens ++ operator :: y.tokens ∧
      e.deepest = max x.deepest (1 + y.deepest) ∧ e.tree = .binary x.tree operator y.tree := by
  let left : Derivation .factor := .ofUnary (.ofPrimary x)
  let right : Derivation .factor := .ofUnary (.ofPrimary y)
  have hkind := op.kind_cases
  rw [← hop] at hkind
  rcases hkind with hterm | hfactor
  · refine ⟨.sum (.ofFactor left) operator hterm right, rfl, ?_, rfl⟩
    simp [Derivation.deepest, Derivation.operators, left, right]
  · refine ⟨.ofFactor (.product left operator hfactor (.ofPrimary y)), rfl, ?_, rfl⟩
    simp [Derivation.deepest, Derivation.operators, left]

/-- Two sources that are derived with levels to spare are derived when they are put together, with
the operator over their trees. -/
theorem exists_derives_enclosed (op : BinaryOp) (hd : d.Derives a) (hdeep : d.deepest ≤ 255)
    (he : e.Derives b) (hdeep' : e.deepest ≤ 254) :
    ∃ (t : Derivation .term) (operator : Token), t.Derives (enclosed a op b) ∧
      operator.kind = op.kind ∧
      t.tree.unplaced = (ParseTree.binary d.tree operator e.tree).unplaced := by
  let p := Position.start.advance ('(' :: (a.toList ++ ['\n', ')']))
  obtain ⟨x, hx, hxtree, hxscans⟩ := exists_operand hd.errors hd.tokens .start
  obtain ⟨y, hy, hytree, hyscans⟩ := exists_operand he.errors he.tokens (p.after op.symbol)
  let operator : Token := .punctuation op.kind op.symbol p
  obtain ⟨t, htokens, htdeep, httree⟩ := exists_term op (rfl : operator.kind = op.kind) x y
  have hsource : (enclosed a op b).toList =
      '(' :: (a.toList ++ '\n' :: ')' :: op.symbol :: '(' :: (b.toList ++ '\n' :: ')' :: [])) := by
    simp [enclosed]
  have hscans := hxscans _ _ (ScansAs.symbol op (hyscans [] [] .nil))
  rw [← hsource, List.append_nil, ← htokens] at hscans
  obtain ⟨herrors, hall⟩ := hscans.errors_tokens
  refine ⟨t, operator, ⟨herrors, hall.symm, ?_⟩, rfl, ?_⟩
  · rw [htdeep, hx, hy, nestingLimit]
    omega
  · rw [httree, ParseTree.unplaced, ParseTree.unplaced, hxtree, hytree]

/-! ## The outcome -/

/-- Over integers without bounds the operation makes `q` of `m` and `n`: their sum, difference or
product, or the quotient, cut off toward zero, by an `n` that is not zero. -/
inductive BinaryOp.Makes : BinaryOp → ℤ → ℤ → ℤ → Prop
  | addition (m n : ℤ) : Makes .addition m n (m + n)
  | subtraction (m n : ℤ) : Makes .subtraction m n (m - n)
  | multiplication (m n : ℤ) : Makes .multiplication m n (m * n)
  | division (m n : ℤ) (nonzero : n ≠ 0) : Makes .division m n (m.tdiv n)

/-- Unless it divides by zero, an operation makes its exact result of two integers. -/
theorem BinaryOp.makes_exact {op : BinaryOp} {m n : ℤ} (h : ¬ (op = .division ∧ n = 0)) :
    op.Makes m n (op.exact m n) := by
  cases op with
  | addition => exact .addition m n
  | subtraction => exact .subtraction m n
  | multiplication => exact .multiplication m n
  | division => exact .division m n fun hn => h ⟨rfl, hn⟩

/-- The outcome of an operation between two operands with the outcomes `a` and `b`: the failure of
the first operand, else that of the second one, else a division by zero, else the exact result if it
is in range, and else an overflow of the operation. -/
inductive BinaryOp.Combines (op : BinaryOp) : Except EvalError (Option Value) →
    Except EvalError (Option Value) → Except EvalError (Option Value) → Prop where
  | left (e : EvalError) (b : Except EvalError (Option Value)) : op.Combines (.error e) b (.error e)
  | right (m : Int32) (e : EvalError) : op.Combines (.ok (some (.int m))) (.error e) (.error e)
  | zero (m : Int32) (isDivision : op = .division) :
      op.Combines (.ok (some (.int m))) (.ok (some (.int 0))) (.error .divisionByZero)
  | exact (m n r : Int32) (isExact : op.Makes m.toInt n.toInt r.toInt) :
      op.Combines (.ok (some (.int m))) (.ok (some (.int n))) (.ok (some (.int r)))
  | overflow (m n : Int32) (q : ℤ) (isExact : op.Makes m.toInt n.toInt q)
      (outOfRange : ¬ InRange q) :
      op.Combines (.ok (some (.int m))) (.ok (some (.int n))) (.error (.overflow (.binary op)))

/-- An operation over two well-typed trees of integers combines their outcomes. -/
theorem BoundTree.combines_eval {x y : BoundTree} (op : BinaryOp) (hx : x.WellTyped)
    (htx : x.ty = .int) (hy : y.WellTyped) (hty : y.ty = .int) :
    op.Combines (x.eval.map some) (y.eval.map some) ((binary op x y).eval.map some) := by
  rcases hx.eval.int htx with ⟨m, hm⟩ | ⟨e, he, -⟩
  · rcases hy.eval.int hty with ⟨n, hn⟩ | ⟨e, he, -⟩
    · rw [eval_binary_of_int hm hn, hm, hn]
      by_cases hz : op = .division ∧ n = 0
      · have happly : op.apply m n = .error .divisionByZero := if_pos hz
        rw [happly, hz.2]
        exact .zero m hz.1
      · have happly : op.apply m n =
            (Operation.binary op).fit (op.exact m.toInt n.toInt) := if_neg hz
        have hmakes : op.Makes m.toInt n.toInt (op.exact m.toInt n.toInt) :=
          BinaryOp.makes_exact fun h => hz ⟨h.1, Int32.toInt_inj.1 h.2⟩
        rw [happly]
        cases hfit : (Operation.binary op).fit (op.exact m.toInt n.toInt) with
        | ok r => exact .exact m n r (by rwa [Operation.fit_eq_ok_iff.1 hfit])
        | error e =>
          obtain ⟨hrange, rfl⟩ := Operation.fit_eq_error_iff.1 hfit
          exact .overflow m n _ hmakes hrange
    · rw [eval_binary_of_right_error hm he, hm, he]
      exact .right m e
  · rw [eval_binary_of_left_error he, he]
    exact .left e _

/-- The source is compiled without a report to the bound tree `x` of integer type, and no part of
its derivation has a level above `levels`. -/
structure Compilation.IsOperand (source : String) (c : Compilation) (x : BoundTree) (levels : ℕ) :
    Prop where
  compiled : compile source = .ok c
  unreported : c.diagnostics.toList = []
  bound : c.bound = some x
  ty : x.ty = .int
  derived : ∃ d : Derivation .term, d.Derives source ∧ d.deepest ≤ levels

namespace Compilation

variable {c : Compilation} {x : BoundTree} {levels : ℕ}

/-- The bound tree of an operand is the image of its tree, which has no offences. -/
theorem IsOperand.image_eq (h : c.IsOperand a x levels) (hd : d.Derives a) :
    d.tree.image = x ∧ d.tree.offences = [] := by
  obtain ⟨htree, hread⟩ := Reading.parse_of_derives hd
  have hcompile := compile_of_read ((Reading.failed_parse_eq_false_iff a).1 hread)
  rw [htree] at hcompile
  obtain rfl := Except.ok.inj (h.compiled.symm.trans hcompile)
  exact ⟨Option.some_inj.1 h.bound, by simpa using h.unreported⟩

/-- The outcome of an operand is that of its bound tree. -/
theorem IsOperand.eval_eq (h : c.IsOperand a x levels) : c.eval = x.eval.map some :=
  eval_of_bound h.bound h.unreported

/-- A short source without a report and of integer type is an operand: it has fewer levels than
tokens. -/
theorem exists_isOperand {source : String}
    (hread : (Reading.ofString source).parse.2.diagnostics.toList = [])
    (hoffences : (Reading.ofString source).parse.1.offences = [])
    (hty : (Reading.ofString source).parse.1.firstTy = .int)
    (hshort : (TokenStream.ofString source).tokens.length ≤ levels) :
    ∃ c : Compilation, c.IsOperand source (Reading.ofString source).parse.1.image levels := by
  obtain ⟨d, hd, -⟩ :=
    Reading.exists_derives_of_parse ((Reading.failed_parse_eq_false_iff source).2 hread)
  have hdeep := d.deepest_lt_length_tokens
  rw [hd.tokens] at hdeep
  refine ⟨_, compile_of_read hread, ?_, rfl, ?_, d, hd, by omega⟩
  · rw [hoffences]
    rfl
  · rw [ParseTree.ty_image, hty]

end Compilation

/-- Two sources without a report, of integer type and with levels to spare, are put together without
a report. The bound tree is the operation over their bound trees, and the outcome is what the
operation makes of their outcomes. -/
theorem compile_enclosed (op : BinaryOp) {ca cb : Compilation} {x y : BoundTree}
    (ha : ca.IsOperand a x 255) (hb : cb.IsOperand b y 254) :
    ∃ c, compile (enclosed a op b) = .ok c ∧ c.diagnostics.toList = [] ∧
      c.bound = some (.binary op x y) ∧ op.Combines ca.eval cb.eval c.eval := by
  obtain ⟨d, hd, hdeep⟩ := ha.derived
  obtain ⟨e, he, hdeep'⟩ := hb.derived
  obtain ⟨rfl, hoffences⟩ := ha.image_eq hd
  obtain ⟨rfl, hoffences'⟩ := hb.image_eq he
  have htya := ha.ty
  have htyb := hb.ty
  rw [ParseTree.ty_image] at htya htyb
  obtain ⟨t, operator, ht, hkind, htree⟩ := exists_derives_enclosed op hd hdeep he hdeep'
  obtain ⟨himage, hnone⟩ := ParseTree.image_eq_and_offences_eq htree
  -- Between integers the operator has its operation.
  rw [ParseTree.image, hkind, htya, htyb, op.resolve?_kind] at himage
  rw [ParseTree.offences, hkind, htya, htyb, op.resolve?_kind, hoffences, hoffences'] at hnone
  obtain ⟨hparse, hread⟩ := Reading.parse_of_derives ht
  have hcompile := compile_of_read ((Reading.failed_parse_eq_false_iff _).1 hread)
  rw [hparse, himage, hnone] at hcompile
  refine ⟨_, hcompile, rfl, rfl, ?_⟩
  rw [ha.eval_eq, hb.eval_eq, Compilation.eval_of_bound rfl rfl]
  exact BoundTree.combines_eval op d.tree.wellTyped_image ha.ty e.tree.wellTyped_image hb.ty

/-- A source that ends with a line comment is divided by one with a comment in it. -/
theorem compile_enclosed_comments :
    let a := "1 + 2 // three"
    let b := "4 /* four */ - 4"
    enclosed a .division b = "(1 + 2 // three\n)/(4 /* four */ - 4\n)" ∧
      ∃ (ca cb : Compilation) (x y : BoundTree), ca.IsOperand a x 255 ∧ cb.IsOperand b y 254 ∧
        ∃ c, compile (enclosed a .division b) = .ok c ∧ c.diagnostics.toList = [] ∧
          c.bound = some (.binary .division x y) ∧
          BinaryOp.division.Combines ca.eval cb.eval c.eval := by
  intro a b
  obtain ⟨ca, ha⟩ : ∃ c : Compilation, c.IsOperand a (Reading.ofString a).parse.1.image 255 :=
    Compilation.exists_isOperand (by decide +kernel) (by decide +kernel) (by decide +kernel)
      (by decide +kernel)
  obtain ⟨cb, hb⟩ : ∃ c : Compilation, c.IsOperand b (Reading.ofString b).parse.1.image 254 :=
    Compilation.exists_isOperand (by decide +kernel) (by decide +kernel) (by decide +kernel)
      (by decide +kernel)
  exact ⟨by decide +kernel, ca, cb, _, _, ha, hb, compile_enclosed .division ha hb⟩

end Calculator
