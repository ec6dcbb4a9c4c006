import Calculator.BoundTree
import Calculator.Proofs.Scan.Spelling

/-!
# Reading bound trees back

The written form of a bound tree determines the tree (`BoundTree.render_inj`). The texts of values
and the names of operations are words without a space or a parenthesis in them, and each of them
ends at such a character. So a tree that is written in front of a space, of a closing parenthesis or
of nothing can be told from what is behind it (`BoundTree.render_append_inj`), and the operands of
an operation can be told from each other.
-/

namespace Calculator

/-! ## Words -/

/-- The characters that separate the words of the written form of a tree. -/
def separators : List Char := [' ', '(', ')']

/-- No separator stands in the text. -/
def IsUndivided (cs : List Char) : Prop := ∀ c ∈ cs, c ∉ separators

/-- Where the text starts a word ends: at a separator, or because there is nothing more. -/
def EndsWord (cs : List Char) : Prop := ∀ c ∈ cs.head?, c ∈ separators

/-- Whether a text has a separator in it is decided character by character. -/
instance decidableIsUndivided (cs : List Char) : Decidable (IsUndivided cs) :=
  List.decidableBAll (· ∉ separators) cs

/-- A separator ends a word, whatever is behind it. -/
theorem endsWord_cons {c : Char} (h : c ∈ separators) (cs : List Char) : EndsWord (c :: cs) := by
  intro d hd
  rwa [← Option.some_inj.1 hd]

/-- A text starts with one word at most that ends there. -/
theorem IsUndivided.append_inj {w v s t : List Char} (hw : IsUndivided w) (hv : IsUndivided v)
    (hs : EndsWord s) (ht : EndsWord t) (h : w ++ s = v ++ t) : w = v ∧ s = t := by
  induction w generalizing v with
  | nil =>
    cases v with
    | nil => exact ⟨rfl, h⟩
    | cons d v =>
      have hd : d ∈ separators := hs d (by rw [← List.nil_append s, h]; rfl)
      exact absurd hd (hv d List.mem_cons_self)
  | cons c w ih =>
    cases v with
    | nil =>
      have hc : c ∈ separators := ht c (by rw [← List.nil_append t, ← h]; rfl)
      exact absurd hc (hw c List.mem_cons_self)
    | cons d v =>
      obtain ⟨rfl, htail⟩ := List.cons.inj h
      obtain ⟨rfl, hst⟩ := ih (fun e he => hw e (List.mem_cons_of_mem _ he))
        (fun e he => hv e (List.mem_cons_of_mem _ he)) htail
      exact ⟨rfl, hst⟩

/-- A digit is no separator. -/
theorem not_mem_separators_of_isDigit {c : Char} (h : Character.isDigit c = true) :
    c ∉ separators := by
  intro hc
  simp only [separators, List.mem_cons, List.not_mem_nil, or_false] at hc
  rcases hc with rfl | rfl | rfl <;> cases h

/-- A text that is a way to write a value is a word. -/
theorem Spells.isUndivided {x : List Char} {v : Value} (h : Spells x v) : IsUndivided x := by
  cases h with
  | digits _ isDigit _ => exact fun c hc => not_mem_separators_of_isDigit (isDigit c hc)
  | negative _ isDigit _ =>
    refine List.forall_mem_cons.2 ⟨by decide, fun c hc => ?_⟩
    exact not_mem_separators_of_isDigit (isDigit c hc)
  | trueWord => decide
  | falseWord => decide

/-- A text that is a way to write a value is not empty. -/
theorem Spells.ne_nil {x : List Char} {v : Value} (h : Spells x v) : x ≠ [] := by
  cases h with
  | digits nonempty _ _ => exact nonempty
  | negative _ _ _ | trueWord | falseWord => exact List.cons_ne_nil _ _

/-- The name of an operation is a word. -/
theorem Operation.isUndivided_name (operation : Operation) :
    IsUndivided operation.name.toList := by
  rcases operation with op | op <;> cases op <;> decide

/-- Operations, on one integer or on two, have different names. -/
theorem Operation.name_inj {a b : Operation} : a.name = b.name ↔ a = b := by
  rcases a with a | a <;> rcases b with b | b <;> cases a <;> cases b <;> decide

namespace BoundTree

/-! ## Trees -/

variable {x y : BoundTree} {s t : List Char}

/-- An operation on one operand is written as its name and the operand. -/
theorem toList_render_unary (op : UnaryOp) (x : BoundTree) :
    (unary op x).render.toList =
      '(' :: ((Operation.unary op).name.toList ++ ' ' :: (x.render.toList ++ [')'])) := by
  simp [render, Operation.name]

/-- An operation on two operands is written as its name and the operands in turn. -/
theorem toList_render_binary (op : BinaryOp) (x y : BoundTree) :
    (binary op x y).render.toList =
      '(' :: ((Operation.binary op).name.toList ++
        ' ' :: (x.render.toList ++ ' ' :: (y.render.toList ++ [')']))) := by
  simp [render, Operation.name]

/-- The text of a value does not start like that of an operation. -/
theorem render_literal_append_ne (v : Value) : (literal v).render.toList ++ s ≠ '(' :: t := by
  intro h
  obtain ⟨c, cs, hv⟩ := List.exists_cons_of_ne_nil v.spells_render.ne_nil
  have hc : c ∉ separators := v.spells_render.isUndivided c (hv ▸ List.mem_cons_self)
  rw [render, hv] at h
  obtain ⟨rfl, -⟩ := List.cons.inj h
  exact hc (by decide)

/-- Two operations whose texts, with what is behind them, are the same have the same name, and what
is behind the name is the same. -/
theorem operation_append_inj {a b : Operation}
    (h : '(' :: (a.name.toList ++ ' ' :: s) = '(' :: (b.name.toList ++ ' ' :: t)) :
    a = b ∧ s = t := by
  have hspace : ∀ cs, EndsWord (' ' :: cs) := endsWord_cons (by decide)
  obtain ⟨hname, hrest⟩ := a.isUndivided_name.append_inj b.isUndivided_name (hspace s) (hspace t)
    (List.cons.inj h).2
  exact ⟨Operation.name_inj.1 (String.toList_inj.1 hname), (List.cons.inj hrest).2⟩

/-- A tree that is written where its last word ends is told from what is behind it. -/
theorem render_append_inj (hs : EndsWord s) (ht : EndsWord t)
    (h : x.render.toList ++ s = y.render.toList ++ t) : x = y ∧ s = t := by
  have hspace : ∀ cs, EndsWord (' ' :: cs) := endsWord_cons (by decide)
  have hclosing : ∀ cs, EndsWord (')' :: cs) := endsWord_cons (by decide)
  -- What is behind the trees stays free: behind a left operand it is the right one with its end.
  induction x generalizing y s t with
  | literal v =>
    cases y with
    | literal w =>
      obtain ⟨htext, hst⟩ :=
        v.spells_render.isUndivided.append_inj w.spells_render.isUndivided hs ht h
      exact ⟨congrArg literal (v.spells_render.unique (htext ▸ w.spells_render)), hst⟩
    | unary op y =>
      rw [toList_render_unary, List.cons_append] at h
      exact absurd h (render_literal_append_ne v)
    | binary op y y' =>
      rw [toList_render_binary, List.cons_append] at h
      exact absurd h (render_literal_append_ne v)
  | unary op x ih =>
    rw [toList_render_unary] at h
    cases y with
    | literal w => exact absurd h.symm (render_literal_append_ne w)
    | unary op' y =>
      rw [toList_render_unary] at h
      simp only [List.cons_append, List.append_assoc] at h
      obtain ⟨hop, hx⟩ := operation_append_inj h
      obtain ⟨rfl, hst⟩ := ih (hclosing s) (hclosing t) hx
      exact ⟨by rw [Operation.unary.inj hop], (List.cons.inj hst).2⟩
    | binary op' y y' =>
      rw [toList_render_binary] at h
      simp only [List.cons_append, List.append_assoc] at h
      exact absurd (operation_append_inj h).1 nofun
  | binary op x x' ih ih' =>
    rw [toList_render_binary] at h
    cases y with
    | literal w => exact absurd h.symm (render_literal_append_ne w)
    | unary op' y =>
      rw [toList_render_unary] at h
      simp only [List.cons_append, List.append_assoc] at h
      exact absurd (operation_append_inj h).1 nofun
    | binary op' y y' =>
      rw [toList_render_binary] at h
      simp only [List.cons_append, List.append_assoc] at h
      obtain ⟨hop, hx⟩ := operation_append_inj h
      -- The left operand ends at the space, and the right one at the parenthesis.
      obtain ⟨rfl, hx'⟩ := ih (hspace _) (hspace _) hx
      obtain ⟨rfl, hst⟩ := ih' (hclosing s) (hclosing t) (List.cons.inj hx').2
      exact ⟨by rw [Operation.binary.inj hop], (List.cons.inj hst).2⟩

/-- The written form of a tree determines the tree, whatever its shape, its values and its types. -/
theorem render_inj : x.render = y.render ↔ x = y := by
  refine ⟨fun h => ?_, congrArg render⟩
  have hend : EndsWord [] := nofun
  have htext : x.render.toList ++ [] = y.render.toList ++ [] := by rw [h]
  exact (render_append_inj hend hend htext).1

end BoundTree

end Calculator
