import Calculator.Proofs.Binding.Nodes
import Calculator.Proofs.Evaluation.Exact
import Calculator.Proofs.Scan.Fragments
import Calculator.Proofs.Scan.Spelling

/-!
# The shape of bound trees

Without a report, binding keeps the shape of a tree: each literal becomes the value that it is
written as, and each operator the operation of its row in the table (`ParseTree.Mirrors`). An
operator that is reported is dropped, and its first operand, bound in its turn, is left in its place
(`ParseTree.pruned`); nothing else changes.

Every report costs the tree a node at least (`ParseTree.size_pruned_add_length_offences_le`), so
that the number of nodes tells whether there was one. `Reading.bind_shape` says this of the trees of
sources, together with when there is no report: if the tree is a lone literal, or has no boolean.
-/

namespace Calculator

/-! ## Rows of the tables -/

/-- The operators of one operand, each with the type for which it is defined and its operation. -/
def UnaryOp.rows : List (TokenKind × Ty × UnaryOp) :=
  [(.plus, .int, .identity), (.minus, .int, .negation)]

/-- The operators of two operands, each with the types for which it is defined and its operation. -/
def BinaryOp.rows : List (TokenKind × Ty × Ty × BinaryOp) :=
  [(.plus, .int, .int, .addition), (.minus, .int, .int, .subtraction),
    (.times, .int, .int, .multiplication), (.divide, .int, .int, .division)]

/-- An operator in front of an operand stands for the operation of its row. -/
theorem UnaryOp.mem_rows_iff {kind : TokenKind} {ty : Ty} {op : UnaryOp} :
    (kind, ty, op) ∈ UnaryOp.rows ↔ UnaryOp.resolve? kind ty = some op := by
  constructor
  · intro h
    simp only [rows, List.mem_cons, Prod.mk.injEq, List.not_mem_nil, or_false] at h
    rcases h with ⟨rfl, rfl, rfl⟩ | ⟨rfl, rfl, rfl⟩ <;> rfl
  · intro h
    unfold UnaryOp.resolve? at h
    split at h <;> cases h <;> decide

/-- An operator between two operands stands for the operation of its row. -/
theorem BinaryOp.mem_rows_iff {kind : TokenKind} {left right : Ty} {op : BinaryOp} :
    (kind, left, right, op) ∈ BinaryOp.rows ↔ BinaryOp.resolve? kind left right = some op := by
  constructor
  · intro h
    simp only [rows, List.mem_cons, Prod.mk.injEq, List.not_mem_nil, or_false] at h
    rcases h with ⟨rfl, rfl, rfl, rfl⟩ | ⟨rfl, rfl, rfl, rfl⟩ | ⟨rfl, rfl, rfl, rfl⟩ |
      ⟨rfl, rfl, rfl, rfl⟩ <;> rfl
  · intro h
    unfold BinaryOp.resolve? at h
    split at h <;> cases h <;> decide

/-- The number of nodes of a bound tree. -/
def BoundTree.size : BoundTree → ℕ
  | literal _ => 1
  | unary _ x => x.size + 1
  | binary _ x y => x.size + y.size + 1

namespace ParseTree

variable {x y : ParseTree} {operator : Token}

/-! ## Trees of the same shape -/

/-- The bound tree has the shape of the tree, with the values for which its literals are written and
the operations of the rows of its operators, for the types of their operands. -/
inductive Mirrors : ParseTree → BoundTree → Prop where
  | literal {token : Token} {v : Value} (spells : Spells token.text.toList v) :
      Mirrors (literal token) (.literal v)
  | unary {operator : Token} {x : ParseTree} {op : UnaryOp} {b : BoundTree}
      (row : (operator.kind, b.ty, op) ∈ UnaryOp.rows) (operand : Mirrors x b) :
      Mirrors (unary operator x) (.unary op b)
  | binary {operator : Token} {x y : ParseTree} {op : BinaryOp} {b c : BoundTree}
      (row : (operator.kind, b.ty, c.ty, op) ∈ BinaryOp.rows) (left : Mirrors x b)
      (right : Mirrors y c) : Mirrors (binary x operator y) (.binary op b c)

/-- The number of nodes of a tree. -/
def size : ParseTree → ℕ
  | literal _ => 1
  | unary _ x => x.size + 1
  | binary x _ y => x.size + y.size + 1
  | error => 1

/-- A bound tree of the same shape has as many nodes. -/
theorem Mirrors.size_eq {t : ParseTree} {b : BoundTree} (h : t.Mirrors b) : b.size = t.size := by
  induction h with
  | literal _ => rfl
  | unary _ _ ih => rw [BoundTree.size, ih, size]
  | binary _ _ _ ihLeft ihRight => rw [BoundTree.size, ihLeft, ihRight, size]

/-- There is one bound tree of the same shape at most. -/
theorem Mirrors.unique {t : ParseTree} {b b' : BoundTree} (h : t.Mirrors b) (h' : t.Mirrors b') :
    b = b' := by
  induction h generalizing b' with
  | literal spells =>
    cases h' with
    | literal spells' => rw [spells.unique spells']
  | unary row _ ih =>
    cases h' with
    | unary row' operand' =>
      obtain rfl := ih operand'
      rw [UnaryOp.mem_rows_iff] at row row'
      rw [Option.some_inj.1 (row.symm.trans row')]
  | binary row _ _ ihLeft ihRight =>
    cases h' with
    | binary row' left' right' =>
      obtain rfl := ihLeft left'
      obtain rfl := ihRight right'
      rw [BinaryOp.mem_rows_iff] at row row'
      rw [Option.some_inj.1 (row.symm.trans row')]

/-- A bound tree of the same shape is the only one. -/
theorem Mirrors.mirrors_iff {t : ParseTree} {b c : BoundTree} (h : t.Mirrors b) :
    t.Mirrors c ↔ c = b :=
  ⟨fun h' => h'.unique h, fun heq => heq ▸ h⟩

/-! ## Dropping operators -/

/-- There is something to complain about the operator at the root: its table has no row for it and
the types of its operands. -/
def Offends (t : ParseTree) : Prop := t.complaint? ≠ none

/-- Whether an operator offends is decided by its table. -/
instance (t : ParseTree) : Decidable t.Offends :=
  inferInstanceAs (Decidable (t.complaint? ≠ none))

/-- A sign offends exactly if it has no operation. -/
theorem offends_unary_iff :
    (unary operator x).Offends ↔ UnaryOp.resolve? operator.kind x.firstTy = none := by
  rw [UnaryOp.resolve?_eq_none_iff, Offends, complaint?]
  split <;> simp [*]

/-- An operator of a chain offends exactly if it has no operation. -/
theorem offends_binary_iff : (binary x operator y).Offends ↔
    BinaryOp.resolve? operator.kind x.firstTy y.firstTy = none := by
  rw [BinaryOp.resolve?_eq_none_iff, Offends, complaint?]
  split <;> simp [*]

/-- The tree without its offending operators, in the place of each of which there is its one operand
or its left operand, from which the offending operators have been dropped as well. -/
def pruned : ParseTree → ParseTree
  | literal token => literal token
  | unary operator x =>
    if (unary operator x).Offends then x.pruned else unary operator x.pruned
  | binary x operator y =>
    if (binary x operator y).Offends then x.pruned else binary x.pruned operator y.pruned
  | error => error

/-- Without offences nothing is dropped. -/
theorem pruned_eq_self {t : ParseTree} (h : t.offences = []) : t.pruned = t := by
  induction t with
  | literal token => rfl
  | unary operator x ih =>
    rw [offences, List.append_eq_nil_iff] at h
    obtain ⟨hx, hop⟩ := h
    have hkept : ¬ (unary operator x).Offends := fun hoffends => by
      simp [offends_unary_iff.1 hoffends] at hop
    rw [pruned, if_neg hkept, ih hx]
  | binary x operator y ihx ihy =>
    rw [offences, List.append_eq_nil_iff, List.append_eq_nil_iff] at h
    obtain ⟨⟨hx, hy⟩, hop⟩ := h
    have hkept : ¬ (binary x operator y).Offends := fun hoffends => by
      simp [offends_binary_iff.1 hoffends] at hop
    rw [pruned, if_neg hkept, ihx hx, ihy hy]
  | error => rfl

/-- Every offence costs a node at least. With an operator of a chain its whole right operand goes,
which has at least as many nodes as offences. -/
theorem size_pruned_add_length_offences_le (t : ParseTree) :
    t.pruned.size + t.offences.length ≤ t.size := by
  induction t with
  | literal token => exact Nat.le_refl _
  | unary operator x ih =>
    rw [pruned, offences, List.length_append, size]
    by_cases hoffends : (unary operator x).Offends
    · rw [if_pos hoffends, if_pos (offends_unary_iff.1 hoffends), List.length_singleton]
      omega
    · rw [if_neg hoffends, if_neg (mt offends_unary_iff.2 hoffends), List.length_nil, size]
      omega
  | binary x operator y ihx ihy =>
    rw [pruned, offences, List.length_append, List.length_append, size]
    by_cases hoffends : (binary x operator y).Offends
    · -- What is dropped pays for the offences in it, and the node of the operator for its own.
      rw [if_pos hoffends, if_pos (offends_binary_iff.1 hoffends), List.length_singleton]
      omega
    · rw [if_neg hoffends, if_neg (mt offends_binary_iff.2 hoffends), List.length_nil, size]
      omega
  | error => exact Nat.le_refl _

/-- The number of nodes stays exactly if there are no offences. -/
theorem size_pruned_eq_iff (t : ParseTree) : t.pruned.size = t.size ↔ t.offences = [] := by
  constructor
  · intro h
    have hle := t.size_pruned_add_length_offences_le
    exact List.eq_nil_of_length_eq_zero (by omega)
  · intro h
    rw [pruned_eq_self h]

/-! ## The image of a tree -/

/-- Every literal of the tree is written as its value, and every part could be read. -/
def Spelled : ParseTree → Prop
  | literal token => Spells token.text.toList token.literalValue
  | unary _ x => x.Spelled
  | binary x _ y => x.Spelled ∧ y.Spelled
  | error => False

/-- The image of a tree has the shape of the tree without its offending operators. -/
theorem Spelled.mirrors_image {t : ParseTree} (h : t.Spelled) : t.pruned.Mirrors t.image := by
  induction t with
  | literal token => exact .literal h
  | unary operator x ih =>
    rw [pruned, image]
    cases hop : UnaryOp.resolve? operator.kind x.firstTy with
    | some op =>
      rw [if_neg (by simp [offends_unary_iff, hop])]
      exact .unary (by simpa [UnaryOp.mem_rows_iff] using hop) (ih h)
    | none =>
      rw [if_pos (offends_unary_iff.2 hop)]
      exact ih h
  | binary x operator y ihx ihy =>
    rw [pruned, image]
    cases hop : BinaryOp.resolve? operator.kind x.firstTy y.firstTy with
    | some op =>
      rw [if_neg (by simp [offends_binary_iff, hop])]
      exact .binary (by simpa [BinaryOp.mem_rows_iff] using hop) (ihx h.1) (ihy h.2)
    | none =>
      rw [if_pos (offends_binary_iff.2 hop)]
      exact ihx h.1
  | error => exact h.elim

/-- A tree has no offences exactly if it is a lone literal or has no boolean. -/
theorem offences_eq_nil_iff {t : ParseTree} (h : t.Proper) :
    t.offences = [] ↔ (∃ token, t = literal token) ∨ ¬ t.HasBoolean := by
  constructor
  · intro hnil
    by_cases hb : t.HasBoolean
    · exact .inl (eq_literal_of_offences_eq_nil hb hnil)
    · exact .inr hb
  · rintro (⟨token, rfl⟩ | hb)
    · rfl
    · exact (h.computes hb).1

end ParseTree

/-! ## Trees of sources -/

/-- A text that is a token with a value has a value of the type of its kind. -/
theorem Lexeme.ty_eq {x : List Char} {kind : TokenKind} {v : Value}
    (h : Lexeme x kind (some v)) : v.ty = kind.literalTy := by
  cases h <;> rfl

/-- A token with a value is a literal for that value, and is written as it. -/
theorem Token.IsLexed.spells_literalValue {t : Token} {v : Value} (h : t.IsLexed)
    (hv : t.value = some v) : Spells t.text.toList t.literalValue := by
  unfold IsLexed at h
  rw [hv] at h
  have hvalue : t.literalValue = v := by
    rw [literalValue, hv]
    exact if_pos h.ty_eq
  rw [hvalue]
  exact h.spells

/-- The literals of a derivation are written as their values. -/
theorem Derivation.spelled_tree {s : Symbol} (p : Derivation s) (hproper : p.tree.Proper)
    (h : ∀ t ∈ p.tokens, t.IsLexed) : p.tree.Spelled := by
  induction p with
  | number token kind inRange =>
    obtain ⟨v, hv, -⟩ := hproper
    exact (h token List.mem_cons_self).spells_literalValue hv
  | boolean token kind =>
    obtain ⟨v, hv, -⟩ := hproper
    exact (h token List.mem_cons_self).spells_literalValue hv
  | parens opening inside closing _ _ ih =>
    exact ih hproper fun t ht => h t (by simp [tokens, ht])
  | ofPrimary x ih => exact ih hproper h
  | least sign digits _ kind value =>
    have hdigits : Lexeme digits.text.toList digits.kind digits.value := h digits (by simp [tokens])
    rw [kind] at hdigits
    have htext : (leastLiteral sign digits).text.toList = '-' :: digits.text.toList := by
      simp [leastLiteral]
    -- This literal is no token of the source: its text is that of a sign and of digits.
    have hleast : (leastLiteral sign digits).literalValue = .int (-2147483648) := rfl
    rw [tree, ParseTree.Spelled, htext, hleast]
    refine .negative hdigits.digits_ne_nil hdigits.isDigit_of_mem ?_
    rw [value]
    decide
  | signed sign _ x ih => exact ih hproper.2 fun t ht => h t (List.mem_cons_of_mem _ ht)
  | ofUnary x ih => exact ih hproper h
  | product left operator _ right ihLeft ihRight =>
    have hleft := ihLeft hproper.2.1 fun t ht => h t (by simp [tokens, ht])
    have hright := ihRight hproper.2.2 fun t ht => h t (by simp [tokens, ht])
    exact ⟨hleft, hright⟩
  | ofFactor x ih => exact ih hproper h
  | sum left operator _ right ihLeft ihRight =>
    have hleft := ihLeft hproper.2.1 fun t ht => h t (by simp [tokens, ht])
    have hright := ihRight hproper.2.2 fun t ht => h t (by simp [tokens, ht])
    exact ⟨hleft, hright⟩

namespace Reading

/-- The literals of a source that is read without a failure are written as their values. -/
theorem spelled_parse {source : String} (hf : (ofString source).parse.2.failed = false) :
    (ofString source).parse.1.Spelled := by
  have hproper := proper_parse hf
  obtain ⟨p, hp, htree⟩ := exists_derives_of_parse hf
  rw [htree] at hproper ⊢
  exact p.spelled_tree hproper fun t ht => TokenStream.isLexed_of_mem_tokens (hp.tokens ▸ ht)

/-- The tree of a source that is read without a report is bound without one exactly if it is a lone
literal or has no boolean. The bound tree has as many nodes as the tree exactly if there is no
report, and then it is the one that has the shape of the tree, with the values of the literals and
the operations of the operators. In any case it is the one that has the shape of the tree without
its offending operators. -/
theorem bind_shape {source : String} (h : (ofString source).parse.2.diagnostics.toList = []) :
    let t := (ofString source).parse.1
    ∃ b d, t.bind .empty = (.ok b, d) ∧
      (d.toList = [] ↔ (∃ token, t = .literal token) ∨ ¬ t.HasBoolean) ∧
      (b.size = t.size ↔ d.toList = []) ∧
      (d.toList = [] → ∀ c, t.Mirrors c ↔ c = b) ∧
      ∀ c, t.pruned.Mirrors c ↔ c = b := by
  have hf := (failed_parse_eq_false_iff source).2 h
  have hproper := proper_parse hf
  have hmirrors := (spelled_parse hf).mirrors_image
  intro t
  refine ⟨t.image, _, t.bind_eq hproper.errorFree .empty, ?_⟩
  rw [Diagnostics.toList_reportAll, Diagnostics.toList_empty, List.nil_append]
  refine ⟨ParseTree.offences_eq_nil_iff hproper, ?_, fun hnil c => ?_, fun c =>
    hmirrors.mirrors_iff⟩
  · rw [hmirrors.size_eq, t.size_pruned_eq_iff]
  · rw [ParseTree.pruned_eq_self hnil] at hmirrors
    exact hmirrors.mirrors_iff

/-- In a product with a quotient by a boolean in it, the division is dropped and the rest stays. -/
theorem bind_shape_quotient :
    let source := "-(1 + 02) * (3 - 4 / true)"
    let t := (ofString source).parse.1
    (ofString source).parse.2.diagnostics.toList = [] ∧
      t.pruned.render = "((-(1 + 02)) * (3 - 4))" ∧
      ∃ b d, t.bind .empty = (.ok b, d) ∧
        (d.toList = [] ↔ (∃ token, t = .literal token) ∨ ¬ t.HasBoolean) ∧
        (b.size = t.size ↔ d.toList = []) ∧
        (d.toList = [] → ∀ c, t.Mirrors c ↔ c = b) ∧
        ∀ c, t.pruned.Mirrors c ↔ c = b := by
  intro source t
  have h : (ofString source).parse.2.diagnostics.toList = [] := by decide +kernel
  exact ⟨h, by decide +kernel, bind_shape h⟩

end Reading

end Calculator
