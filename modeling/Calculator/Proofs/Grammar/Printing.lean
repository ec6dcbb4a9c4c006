import Calculator.Proofs.Grammar.TooDeep
import Calculator.Proofs.Scan.Fragments

/-!
# Reading a printed tree

The written form of the tree of an accepted source is read back into the same tree, but for the
places of its tokens, as long as it does not nest too deeply (`Reading.parse_render`). It has
parentheses that the source need not have had, each of which takes a level: the level that the
written form needs is `ParseTree.cost`.

The proof turns each derivation into one of the written form of its tree, by induction
(`Derivation.exists_printed`). The written form of an operand stands in front of a space, of a
closing parenthesis or of the end, which are no part of any token (`Ends`), so that it is scanned
into its tokens whatever comes behind it (`ScansAs`).
-/

namespace Calculator

namespace ParseTree

/-- The levels that the written form takes: one for the parentheses around an operator, and one more
for the operand behind it. -/
def cost : ParseTree → ℕ
  | literal _ => 0
  | unary _ x => 2 + x.cost
  | binary x _ y => max (1 + x.cost) (2 + y.cost)
  | error => 0

/-- The derivation is one of the written form of the tree, which starts at the position `p`. -/
structure IsPrinted (tree : ParseTree) (p : Position) (q : Derivation .unary) : Prop where
  /-- The written form is scanned into the tokens of the derivation. -/
  scans : ScansAs tree.render.toList p q.tokens
  /-- The tree of the derivation is the tree, at another place. -/
  unplaced : q.tree.unplaced = tree.unplaced
  /-- The derivation takes the levels of the written form. -/
  deepest : q.deepest = tree.cost

variable {tree : ParseTree} {p : Position}

/-- A literal that a minus sign and a number make up together. -/
theorem exists_isPrinted_least {sign digits : Token} (hsign : sign.IsLexed)
    (hdigits : digits.IsLexed) (isMinus : sign.kind = .minus) (kind : digits.kind = .number)
    (value : Decimal.value digits.text.toList = greatestNumber + 1) :
    ∃ q, (literal (leastLiteral sign digits)).IsPrinted p q := by
  have htext : sign.text.toList = ['-'] := hsign.eq_minus isMinus
  have hrender : (literal (leastLiteral sign digits)).render.toList =
      sign.text.toList ++ digits.text.toList := by
    simp [render, leastLiteral, htext]
  let place := p.advance sign.text.toList
  refine ⟨.least (sign.placed p) (digits.placed place) isMinus kind value, ?_, rfl, rfl⟩
  rw [hrender]
  exact (ScansAs.single hdigits).token_alone hsign (hsign.not_extends_of_sign (.inr isMinus))

/-- If the written form is a text in parentheses, a derivation of that text is enough. -/
theorem exists_isPrinted_parens {text : List Char} (inside : Derivation .term)
    (hrender : tree.render.toList = '(' :: (text ++ [')']))
    (hscans : ScansAs text (p.after '(') inside.tokens)
    (htree : inside.tree.unplaced = tree.unplaced) (hdeep : inside.deepest + 1 = tree.cost) :
    ∃ q, tree.IsPrinted p q := by
  let opening : Token := .punctuation .leftParen '(' p
  let closing : Token := .punctuation .rightParen ')' ((p.after '(').advance text)
  refine ⟨.ofPrimary (.parens opening inside closing rfl rfl), ?_, htree, hdeep⟩
  rw [hrender]
  exact hscans.parens

/-- A sign in front of a tree that is printed. -/
theorem exists_isPrinted_unary {operator : Token} (hop : operator.IsLexed)
    (isSign : operator.kind = .plus ∨ operator.kind = .minus)
    (htree : ∀ p, ∃ q, tree.IsPrinted p q) : ∃ q, (unary operator tree).IsPrinted p q := by
  obtain ⟨q, hq⟩ := htree ((p.after '(').advance operator.text.toList)
  let sign := operator.placed (p.after '(')
  let inside : Derivation .term := .ofFactor (.ofUnary (.signed sign isSign q))
  have hrender : (unary operator tree).render.toList =
      '(' :: ((operator.text.toList ++ tree.render.toList) ++ [')']) := by
    simp [render]
  refine exists_isPrinted_parens inside hrender ?_ ?_ ?_
  · exact hq.scans.token_alone hop (hop.not_extends_of_sign isSign)
  · simp [Derivation.tree, unplaced, hq.unplaced, inside, sign, Token.placed]
  · simp only [inside, Derivation.deepest, cost, hq.deepest]
    omega

/-- An operator between two trees that are printed. -/
theorem exists_isPrinted_binary {operator : Token} {left right : ParseTree}
    (hop : operator.IsLexed)
    (isOperator : (operator.kind = .plus ∨ operator.kind = .minus) ∨
      operator.kind = .times ∨ operator.kind = .divide)
    (hleft : ∀ p, ∃ q, left.IsPrinted p q) (hright : ∀ p, ∃ q, right.IsPrinted p q) :
    ∃ q, (binary left operator right).IsPrinted p q := by
  obtain ⟨x, hx⟩ := hleft (p.after '(')
  let place := ((p.after '(').advance left.render.toList).after ' '
  obtain ⟨y, hy⟩ := hright ((place.advance operator.text.toList).after ' ')
  have hrender : (binary left operator right).render.toList =
      '(' :: ((left.render.toList ++ ' ' :: (operator.text.toList ++ ' ' :: right.render.toList)) ++
        [')']) := by
    simp [render]
  have hscans := hx.scans.operator hop hy.scans
  have htree : ParseTree.unplaced (.binary x.tree (operator.placed place) y.tree) =
      (binary left operator right).unplaced := by
    simp [unplaced, hx.unplaced, hy.unplaced, Token.placed]
  have hdeep : max x.deepest (1 + y.deepest) + 1 = (binary left operator right).cost := by
    simp only [cost, hx.deepest, hy.deepest]
    omega
  rcases isOperator with hterm | hfactor
  · let inside := Derivation.sum (.ofFactor (.ofUnary x)) (operator.placed place) hterm (.ofUnary y)
    exact exists_isPrinted_parens inside hrender hscans htree hdeep
  · let inside := Derivation.product (.ofUnary x) (operator.placed place) hfactor y
    exact exists_isPrinted_parens (.ofFactor inside) hrender hscans htree hdeep

end ParseTree

/-- The tree of every derivation is printed as a text that the grammar derives. -/
theorem Derivation.exists_printed {s : Symbol} (d : Derivation s)
    (h : ∀ t ∈ d.tokens, t.IsLexed) (p : Position) : ∃ q, d.tree.IsPrinted p q := by
  induction d generalizing p with
  | number token kind inRange =>
    have hscans := ScansAs.single (p := p) (h token List.mem_cons_self)
    exact ⟨.ofPrimary (.number (token.placed p) kind inRange), hscans, rfl, rfl⟩
  | boolean token kind =>
    have hscans := ScansAs.single (p := p) (h token List.mem_cons_self)
    exact ⟨.ofPrimary (.boolean (token.placed p) kind), hscans, rfl, rfl⟩
  | parens _ inside _ _ _ ih => exact ih (fun t ht => h t (by simp [tokens, ht])) p
  | ofPrimary x ih => exact ih h p
  | least sign digits isMinus kind value =>
    have hsign : sign.IsLexed := h sign List.mem_cons_self
    have hdigits : digits.IsLexed := h digits (by simp [tokens])
    exact ParseTree.exists_isPrinted_least hsign hdigits isMinus kind value
  | signed sign isSign x ih =>
    have hsign : sign.IsLexed := h sign List.mem_cons_self
    exact ParseTree.exists_isPrinted_unary hsign isSign
      (ih fun t ht => h t (List.mem_cons_of_mem _ ht))
  | ofUnary x ih => exact ih h p
  | product left operator isOperator right ihLeft ihRight =>
    exact ParseTree.exists_isPrinted_binary (h operator (by simp [tokens])) (.inr isOperator)
      (ihLeft fun t ht => h t (by simp [tokens, ht]))
      (ihRight fun t ht => h t (by simp [tokens, ht]))
  | ofFactor x ih => exact ih h p
  | sum left operator isOperator right ihLeft ihRight =>
    exact ParseTree.exists_isPrinted_binary (h operator (by simp [tokens])) (.inl isOperator)
      (ihLeft fun t ht => h t (by simp [tokens, ht]))
      (ihRight fun t ht => h t (by simp [tokens, ht]))

namespace Reading

/-- The written form of the tree of an accepted source is read without a report, into the same tree
but for the places of its tokens, if it takes no more levels than there are. Otherwise the one
report is that it nests too deeply. -/
theorem parse_render {source : String} (h : (ofString source).parse.2.diagnostics.toList = []) :
    let tree := (ofString source).parse.1
    let again := (ofString tree.render).parse
    (tree.cost ≤ nestingLimit →
      again.2.diagnostics.toList = [] ∧ again.1.unplaced = tree.unplaced) ∧
    (nestingLimit < tree.cost →
      ∃ token fault, again.2.diagnostics.toList = [.syntactic token fault] ∧
        fault.text = "Expression is nested too deeply") := by
  intro tree again
  have hf : (ofString source).parse.2.failed = false := (failed_parse_eq_false_iff source).2 h
  obtain ⟨d, hd, htree⟩ := exists_derives_of_parse hf
  have hlexed : ∀ t ∈ d.tokens, t.IsLexed := fun t ht =>
    TokenStream.isLexed_of_mem_tokens (hd.tokens ▸ ht)
  obtain ⟨q, hq⟩ := d.exists_printed hlexed .start
  rw [← htree] at hq
  obtain ⟨herrors, htokens⟩ := hq.scans.errors_tokens
  -- The derivation of the operand is one of the whole written form.
  let p : Derivation .term := .ofFactor (.ofUnary q)
  have hdeepest : p.deepest = tree.cost := hq.deepest
  constructor
  · intro hcost
    have hp : p.Derives tree.render := ⟨herrors, htokens.symm, hdeepest ▸ hcost⟩
    obtain ⟨hagain, hfailed⟩ := parse_of_derives hp
    refine ⟨(failed_parse_eq_false_iff _).1 hfailed, ?_⟩
    calc again.1.unplaced = q.tree.unplaced := congrArg ParseTree.unplaced hagain
      _ = tree.unplaced := hq.unplaced
  · intro hcost
    obtain ⟨token, htoken⟩ := parse_of_tooDeep (p := p) herrors htokens.symm (hdeepest ▸ hcost)
    exact ⟨token, .tooDeep, htoken, rfl⟩

/-- The tree of a quotient with signs and leading zeros is printed with few parentheses, and that of
129 signs with too many. -/
theorem parse_render_two_sources :
    (let source := "-(1 + 02) * --2147483648 / 3"
      let tree := (ofString source).parse.1
      let again := (ofString tree.render).parse
      (ofString source).parse.2.diagnostics.toList = [] ∧ tree.cost ≤ nestingLimit ∧
        again.2.diagnostics.toList = [] ∧ again.1.unplaced = tree.unplaced) ∧
    (let source := String.ofList (List.replicate 129 '-' ++ ['1'])
      let tree := (ofString source).parse.1
      let again := (ofString tree.render).parse
      (ofString source).parse.2.diagnostics.toList = [] ∧ nestingLimit < tree.cost ∧
        ∃ token fault, again.2.diagnostics.toList = [.syntactic token fault] ∧
          fault.text = "Expression is nested too deeply") := by
  constructor
  · intro source
    have h : (ofString source).parse.2.diagnostics.toList = [] := by decide +kernel
    have hcost : (ofString source).parse.1.cost ≤ nestingLimit := by decide +kernel
    have hread := parse_render h
    exact ⟨h, hcost, hread.1 hcost⟩
  · intro source
    have h : (ofString source).parse.2.diagnostics.toList = [] := by decide +kernel
    have hcost : nestingLimit < (ofString source).parse.1.cost := by decide +kernel
    have hread := parse_render h
    exact ⟨h, hcost, hread.2 hcost⟩

end Reading

end Calculator
