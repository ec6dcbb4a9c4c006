import Calculator.Proofs.Grammar.Acceptance

/-!
# The height of the trees that are read

The nesting level counts the operators in front of an operand of a chain, but the tree has a node
over the operand for every operator behind it. So the nesting limit does not bound the height of the
tree by itself: 256 signs in front of the first operand of a sum make a tree of height 257
(`Reading.nestingLimit_lt_height_parse`).

The height is the greatest number of operators that apply to a literal (`Derivation.loads`), and
stays within the limit exactly when no literal has more (`Reading.height_parse_le_iff`). In terms of
the levels it is at most quadratic (`Derivation.height_tree_le`), which keeps it within the limit
for sources that use up to 15 of them.
-/

namespace Calculator

/-- The number of operators on the longest path from the root to a literal. -/
def ParseTree.height : ParseTree → ℕ
  | literal _ => 0
  | unary _ x => x.height + 1
  | binary x _ y => max x.height y.height + 1
  | error => 0

namespace Derivation

variable {s : Symbol}

/-- For each literal of a derivation, from left to right, the number of operators that apply to it.
A sign applies to its operand, and an operator of a chain to the operand directly behind it and to
all operands in front of it. -/
def loads : {s : Symbol} → Derivation s → List ℕ
  | _, number _ _ _ => [0]
  | _, boolean _ _ => [0]
  | _, parens _ inside _ _ _ => inside.loads
  | _, ofPrimary x => x.loads
  | _, least _ _ _ _ _ => [0]
  | _, signed _ _ x => x.loads.map (· + 1)
  | _, ofUnary x => x.loads
  | _, product left _ _ right => (left.loads ++ right.loads).map (· + 1)
  | _, ofFactor x => x.loads
  | _, sum left _ _ right => (left.loads ++ right.loads).map (· + 1)

/-- A derivation has a literal. -/
theorem loads_ne_nil (p : Derivation s) : p.loads ≠ [] := by
  induction p with
  | number _ _ _ => simp [loads]
  | boolean _ _ => simp [loads]
  | parens _ _ _ _ _ ih => exact ih
  | ofPrimary _ ih => exact ih
  | least _ _ _ _ _ => simp [loads]
  | signed _ _ _ ih => simpa [loads] using ih
  | ofUnary _ ih => exact ih
  | product _ _ _ _ ihLeft _ => simp [loads, ihLeft]
  | ofFactor _ ih => exact ih
  | sum _ _ _ _ ihLeft _ => simp [loads, ihLeft]

/-- One more than each of some numbers stays within a bound exactly when that is positive and they
stay below it. -/
theorem forall_mem_map_succ_le_iff {l : List ℕ} (hl : l ≠ []) (n : ℕ) :
    (∀ k ∈ l.map (· + 1), k ≤ n) ↔ 0 < n ∧ ∀ k ∈ l, k ≤ n - 1 := by
  obtain ⟨a, l', rfl⟩ := List.exists_cons_of_ne_nil hl
  constructor
  · intro h
    have ha : a + 1 ≤ n := h _ (List.mem_map_of_mem List.mem_cons_self)
    refine ⟨by omega, fun k hk => ?_⟩
    have hk' : k + 1 ≤ n := h _ (List.mem_map_of_mem hk)
    omega
  · rintro ⟨hn, h⟩ k hk
    obtain ⟨j, hj, rfl⟩ := List.mem_map.1 hk
    have hj' := h j hj
    omega

/-- The height of a node over two trees stays within a bound exactly when the loads of both, with
the operator of the node, do. -/
theorem height_binary_le_iff {left right : List ℕ} {x y : ParseTree} (operator : Token)
    (hne : left ≠ []) (hx : ∀ n, x.height ≤ n ↔ ∀ k ∈ left, k ≤ n)
    (hy : ∀ n, y.height ≤ n ↔ ∀ k ∈ right, k ≤ n) (n : ℕ) :
    (ParseTree.binary x operator y).height ≤ n ↔ ∀ k ∈ (left ++ right).map (· + 1), k ≤ n := by
  rw [forall_mem_map_succ_le_iff (by simp [hne]), List.forall_mem_append, ← hx, ← hy,
    ParseTree.height]
  omega

/-- The height of the tree of a derivation is the greatest of its loads. -/
theorem height_tree_le_iff (p : Derivation s) (n : ℕ) :
    p.tree.height ≤ n ↔ ∀ k ∈ p.loads, k ≤ n := by
  induction p generalizing n with
  | number _ _ _ => simp [tree, loads, ParseTree.height]
  | boolean _ _ => simp [tree, loads, ParseTree.height]
  | parens _ _ _ _ _ ih => exact ih n
  | ofPrimary _ ih => exact ih n
  | least _ _ _ _ _ => simp [tree, loads, ParseTree.height]
  | signed _ _ x ih =>
    rw [loads, forall_mem_map_succ_le_iff x.loads_ne_nil, ← ih, tree, ParseTree.height]
    omega
  | ofUnary _ ih => exact ih n
  | product left operator _ right ihLeft ihRight =>
    exact height_binary_le_iff operator left.loads_ne_nil ihLeft ihRight n
  | ofFactor _ ih => exact ih n
  | sum left operator _ right ihLeft ihRight =>
    exact height_binary_le_iff operator left.loads_ne_nil ihLeft ihRight n

/-! ## Levels and height -/

/-- The greatest height of an operand with `n` levels inside it. A sign and a parenthesis each leave
one level less, but inside the parenthesis two chains can use all of the levels that are left. -/
def operandHeight : ℕ → ℕ
  | 0 => 0
  | n + 1 => operandHeight n + max 1 (2 * n)

/-- More levels allow no less height. -/
theorem operandHeight_mono {m n : ℕ} (h : m ≤ n) : operandHeight m ≤ operandHeight n := by
  induction h with
  | refl => exact Nat.le_refl _
  | step _ ih =>
    rw [operandHeight]
    omega

/-- The greatest height of the first operand of a chain with `n` levels inside it: a term starts
with a factor, which can have an operator for each level. -/
def firstHeight : Symbol → ℕ → ℕ
  | .term, n => operandHeight n + n
  | _, n => operandHeight n

/-- The height of the tree of a derivation is at most that of the first operand, with one node more
for each operator of the chain. -/
theorem height_tree_le_firstHeight (p : Derivation s) {n : ℕ} (h : p.deepest ≤ n) :
    p.tree.height ≤ firstHeight s n + p.operators := by
  induction p generalizing n with
  | number _ _ _ => exact Nat.zero_le _
  | boolean _ _ => exact Nat.zero_le _
  | parens _ inside _ _ _ ih =>
    -- Inside there is a term with its two chains, and one level less.
    simp only [deepest] at h
    obtain ⟨m, rfl⟩ : ∃ m, n = m + 1 := Nat.exists_eq_add_one.2 (by omega)
    have hinside := ih (n := m) (by omega)
    have hoperators := inside.operators_le_deepest
    simp only [tree, firstHeight, operandHeight] at hinside ⊢
    omega
  | ofPrimary x ih =>
    have hx := ih h
    rwa [operators_primary] at hx
  | least _ _ _ _ _ => exact Nat.zero_le _
  | signed _ _ x ih =>
    simp only [deepest] at h
    obtain ⟨m, rfl⟩ : ∃ m, n = m + 1 := Nat.exists_eq_add_one.2 (by omega)
    have hx := ih (n := m) (by omega)
    simp only [operators_unary, tree, ParseTree.height, firstHeight, operandHeight] at hx ⊢
    omega
  | ofUnary x ih =>
    have hx := ih h
    rwa [operators_unary] at hx
  | product left operator _ right ihLeft ihRight =>
    -- The right operand has fewer levels than the first one, so that it is no higher.
    simp only [deepest] at h
    have hleft := ihLeft (n := n) (by omega)
    have hright := ihRight (n := n - (left.operators + 1)) (by omega)
    have hmono : operandHeight (n - (left.operators + 1)) ≤ operandHeight n :=
      operandHeight_mono (by omega)
    simp only [operators_unary, tree, ParseTree.height, firstHeight, operators] at hleft hright ⊢
    omega
  | ofFactor x ih =>
    simp only [deepest] at h
    have hx := ih h
    have hoperators := x.operators_le_deepest
    simp only [tree, firstHeight] at hx ⊢
    omega
  | sum left operator _ right ihLeft ihRight =>
    -- As for a product, except that the right operand is a chain of its own.
    simp only [deepest] at h
    have hleft := ihLeft (n := n) (by omega)
    have hright := ihRight (n := n - (left.operators + 1)) (by omega)
    have hmono : operandHeight (n - (left.operators + 1)) ≤ operandHeight n :=
      operandHeight_mono (by omega)
    have hoperators := right.operators_le_deepest
    simp only [tree, ParseTree.height, firstHeight, operators] at hleft hright ⊢
    omega

/-- With `n` levels a tree is at most as high as an operand with that many levels at the front of a
factor and a term that use all of them. -/
theorem height_tree_le (p : Derivation .term) {n : ℕ} (h : p.deepest ≤ n) :
    p.tree.height ≤ operandHeight n + 2 * n := by
  have hfirst := p.height_tree_le_firstHeight h
  have hoperators := p.operators_le_deepest
  simp only [firstHeight] at hfirst
  omega

end Derivation

namespace Reading

/-- A source that is read without a report has a derivation. The height of its tree is within the
nesting limit exactly when no more operators than that apply to any of its literals, and in
particular if the source uses at most 15 levels. -/
theorem height_parse_le_iff (source : String)
    (h : (ofString source).parse.2.diagnostics.toList = []) :
    (∃ p : Derivation .term, p.Derives source) ∧
      ∀ p : Derivation .term, p.Derives source →
        ((ofString source).parse.1.height ≤ nestingLimit ↔ ∀ n ∈ p.loads, n ≤ nestingLimit) ∧
          (p.deepest ≤ 15 → (ofString source).parse.1.height ≤ nestingLimit) := by
  have hf : (ofString source).parse.2.failed = false := (failed_parse_eq_false_iff source).2 h
  constructor
  · obtain ⟨p, hp, -⟩ := exists_derives_of_parse hf
    exact ⟨p, hp⟩
  · intro p hp
    rw [(parse_of_derives hp).1]
    refine ⟨p.height_tree_le_iff nestingLimit, fun hdeep => ?_⟩
    have hle := p.height_tree_le hdeep
    have hbound : Derivation.operandHeight 15 + 2 * 15 ≤ nestingLimit := by decide
    omega

/-- A product of a negated sum is read without a report, so that this holds of its tree. -/
theorem height_parse_product :
    let source := "-(1 + 2) * 3"
    (ofString source).parse.2.diagnostics.toList = [] ∧
      (∃ p : Derivation .term, p.Derives source) ∧
        ∀ p : Derivation .term, p.Derives source →
          ((ofString source).parse.1.height ≤ nestingLimit ↔ ∀ n ∈ p.loads, n ≤ nestingLimit) ∧
            (p.deepest ≤ 15 → (ofString source).parse.1.height ≤ nestingLimit) := by
  have h : (ofString "-(1 + 2) * 3").parse.2.diagnostics.toList = [] := by decide +kernel
  exact ⟨h, height_parse_le_iff _ h⟩

/-- A sum behind 256 signs is read without a report into a tree that is higher than the nesting
limit. -/
theorem nestingLimit_lt_height_parse :
    let source := String.ofList (List.replicate 256 '-' ++ ['1', '+', '1'])
    (ofString source).parse.2.diagnostics.toList = [] ∧
      nestingLimit < (ofString source).parse.1.height := by
  decide +kernel

end Reading

end Calculator
