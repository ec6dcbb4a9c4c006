import Calculator.Proofs.Binding.Image

/-!
# Reports of binding, node by node

The nodes of a tree are listed in post-order, each with its address, which is the way down to it
from the root (`ParseTree.nodes`). Whether the operator of a node is defined for its operands, and
what is said if it is not, can be told from the node alone (`ParseTree.complaint?`): only the tables
of the operators and the first literal of each operand matter. Binding complains about just the
nodes for which there is something to complain about, in the order of the list
(`ParseTree.messages_bind`).

Addresses are there to say what stands to the left of what (`LeftOf`).
-/

namespace Calculator

/-! ## Tables of the operators -/

/-- The operators of one operand, each with the type for which it is defined. -/
def UnaryOp.table : List (TokenKind × Ty) := [(.plus, .int), (.minus, .int)]

/-- The operators of two operands, each with the types for which it is defined. -/
def BinaryOp.table : List (TokenKind × Ty × Ty) :=
  [(.plus, .int, .int), (.minus, .int, .int), (.times, .int, .int), (.divide, .int, .int)]

/-- An operator of one operand lacks an operation exactly on the types that are not in its table. -/
theorem UnaryOp.resolve?_eq_none_iff {kind : TokenKind} {ty : Ty} :
    UnaryOp.resolve? kind ty = none ↔ (kind, ty) ∉ UnaryOp.table := by
  cases kind <;> cases ty <;> decide

/-- An operator of two operands lacks an operation exactly on the types that are not in its
table. -/
theorem BinaryOp.resolve?_eq_none_iff {kind : TokenKind} {left right : Ty} :
    BinaryOp.resolve? kind left right = none ↔ (kind, left, right) ∉ BinaryOp.table := by
  cases kind <;> cases left <;> cases right <;> decide

namespace ParseTree

/-! ## Addresses -/

/-- The ways down from a node to the node of an operand. -/
inductive Branch where
  /-- To the one operand. -/
  | operand
  /-- To the left one of two operands. -/
  | left
  /-- To the right one of two operands. -/
  | right
  deriving DecidableEq

/-- Two addresses part at some node, `p` into its left operand and `q` into its right one, so that
the whole subtree at `p` stands to the left of the whole subtree at `q`. -/
def LeftOf (p q : List Branch) : Prop :=
  ∃ common p' q', p = common ++ .left :: p' ∧ q = common ++ .right :: q'

variable {b c : Branch} {p q : List Branch}

/-- Nothing stands to the left of a subtree that it belongs to. -/
@[simp] theorem not_leftOf_nil : ¬ LeftOf p [] := by
  rintro ⟨common, p', q', -, h⟩
  exact List.append_ne_nil_of_right_ne_nil _ (List.cons_ne_nil _ _) h.symm

/-- A subtree does not stand to the left of what belongs to it. -/
@[simp] theorem not_nil_leftOf : ¬ LeftOf [] q := by
  rintro ⟨common, p', q', h, -⟩
  exact List.append_ne_nil_of_right_ne_nil _ (List.cons_ne_nil _ _) h.symm

/-- Two addresses part at the root, or else behind the same first branch. -/
@[simp] theorem leftOf_cons_cons :
    LeftOf (b :: p) (c :: q) ↔ b = .left ∧ c = .right ∨ b = c ∧ LeftOf p q := by
  constructor
  · rintro ⟨common, p', q', hp, hq⟩
    cases common with
    | nil => exact .inl ⟨(List.cons.inj hp).1, (List.cons.inj hq).1⟩
    | cons a common =>
      obtain ⟨rfl, rfl⟩ := List.cons.inj hp
      obtain ⟨rfl, rfl⟩ := List.cons.inj hq
      exact .inr ⟨rfl, common, p', q', rfl, rfl⟩
  · rintro (⟨rfl, rfl⟩ | ⟨rfl, common, p', q', rfl, rfl⟩)
    · exact ⟨[], p, q, rfl, rfl⟩
    · exact ⟨b :: common, p', q', rfl, rfl⟩

/-- Which of two subtrees stands to the left is decided branch by branch. -/
instance decidableLeftOf : (p q : List Branch) → Decidable (LeftOf p q)
  | [], _ => .isFalse not_nil_leftOf
  | _ :: _, [] => .isFalse not_leftOf_nil
  | _ :: p, _ :: q =>
    have := decidableLeftOf p q
    decidable_of_iff _ leftOf_cons_cons.symm

/-! ## Nodes -/

/-- A node of a tree: the way to it from the root, and the subtree that it is the root of. -/
structure Node where
  /-- The branches on the way to it. -/
  address : List Branch
  /-- The subtree. -/
  tree : ParseTree

/-- A node of an operand as a node of the whole, to which the branch leads down. -/
def Node.below (branch : Branch) (n : Node) : Node := { n with address := branch :: n.address }

/-- A node keeps its subtree in the whole. -/
@[simp] theorem Node.tree_below (branch : Branch) (n : Node) : (n.below branch).tree = n.tree := rfl

/-- The address of a node in the whole starts with the branch down to the operand. -/
@[simp] theorem Node.address_below (branch : Branch) (n : Node) :
    (n.below branch).address = branch :: n.address := rfl

/-- The nodes of a tree in post-order: those of its operands come before its root, and those of its
left operand before those of its right one. -/
def nodes : ParseTree → List Node
  | literal token => [⟨[], literal token⟩]
  | unary operator x => x.nodes.map (.below .operand) ++ [⟨[], unary operator x⟩]
  | binary x operator y =>
    x.nodes.map (.below .left) ++ y.nodes.map (.below .right) ++ [⟨[], binary x operator y⟩]
  | error => [⟨[], error⟩]

/-- All nodes of a tree with one operand are those of the operand and the root. -/
theorem forall_mem_nodes_unary {P : Node → Prop} {operator : Token} {x : ParseTree} :
    (∀ n ∈ (unary operator x).nodes, P n) ↔
      (∀ n ∈ x.nodes, P (n.below .operand)) ∧ P ⟨[], unary operator x⟩ := by
  rw [nodes, List.forall_mem_append, List.forall_mem_map, List.forall_mem_singleton]

/-- All nodes of a tree with two operands are those of both and the root. -/
theorem forall_mem_nodes_binary {P : Node → Prop} {operator : Token} {x y : ParseTree} :
    (∀ n ∈ (binary x operator y).nodes, P n) ↔
      ((∀ n ∈ x.nodes, P (n.below .left)) ∧ ∀ n ∈ y.nodes, P (n.below .right)) ∧
        P ⟨[], binary x operator y⟩ := by
  rw [nodes, List.forall_mem_append, List.forall_mem_append, List.forall_mem_map,
    List.forall_mem_map, List.forall_mem_singleton]

/-- Every part of a tree could be read exactly if none of its nodes is an error. -/
theorem errorFree_iff {t : ParseTree} : t.ErrorFree ↔ ∀ n ∈ t.nodes, n.tree ≠ .error := by
  induction t with
  | literal token => simp [ErrorFree, nodes]
  | unary operator x ih =>
    rw [ErrorFree, ih, forall_mem_nodes_unary]
    exact ⟨fun h => ⟨h, nofun⟩, fun h => h.1⟩
  | binary x operator y ihx ihy =>
    rw [ErrorFree, ihx, ihy, forall_mem_nodes_binary]
    exact ⟨fun h => ⟨h, nofun⟩, fun h => h.1⟩
  | error => simp [ErrorFree, nodes]

/-- A part of a tree could not be read exactly if one of its nodes is an error. -/
theorem not_errorFree_iff {t : ParseTree} : ¬ t.ErrorFree ↔ ∃ n ∈ t.nodes, n.tree = .error := by
  simp [errorFree_iff]

/-! ## What is said about a node -/

/-- What is said about the root of a tree: that its operator is not defined for the types of its
operands, which are those of their first literals, if the table has no row for them. -/
def complaint? : ParseTree → Option String
  | unary operator x =>
    if (operator.kind, x.firstTy) ∈ UnaryOp.table then none
    else some ("Unary operator '" ++ operator.text ++ "' is not defined for type " ++
      x.firstTy.name)
  | binary x operator y =>
    if (operator.kind, x.firstTy, y.firstTy) ∈ BinaryOp.table then none
    else some ("Binary operator '" ++ operator.text ++ "' is not defined for type " ++
      x.firstTy.name ++ " and " ++ y.firstTy.name)
  | _ => none

/-- What is said about some nodes of a tree, in their order. -/
def complaints (ns : List Node) : List String := ns.filterMap fun n => n.tree.complaint?

/-- About two lists of nodes the same is said as about each. -/
@[simp] theorem complaints_append (ns ms : List Node) :
    complaints (ns ++ ms) = complaints ns ++ complaints ms := List.filterMap_append

/-- About the nodes of an operand the same is said whether they are seen in it or in the whole. -/
@[simp] theorem complaints_map_below (branch : Branch) (ns : List Node) :
    complaints (ns.map (.below branch)) = complaints ns := by
  simp only [complaints, List.filterMap_map, Function.comp_def, Node.tree_below]

/-- About the root of a tree one thing is said at most. -/
theorem complaints_singleton (n : Node) : complaints [n] = n.tree.complaint?.toList := by
  unfold complaints
  cases h : n.tree.complaint? <;> simp [h]

/-- The messages of the offences of a tree are what is said about its nodes. -/
theorem map_message_offences (t : ParseTree) :
    t.offences.map Diagnostic.message = complaints t.nodes := by
  induction t with
  | literal token => rfl
  | unary operator x ih =>
    rw [offences, nodes, List.map_append, complaints_append, complaints_map_below,
      complaints_singleton, ih, complaint?]
    congr 1
    by_cases h : (operator.kind, x.firstTy) ∈ UnaryOp.table
    · rw [if_neg (mt UnaryOp.resolve?_eq_none_iff.1 (not_not_intro h)), if_pos h]
      rfl
    · rw [if_pos (UnaryOp.resolve?_eq_none_iff.2 h), if_neg h]
      rfl
  | binary x operator y ihx ihy =>
    rw [offences, nodes, List.map_append, List.map_append, complaints_append, complaints_append,
      complaints_map_below, complaints_map_below, complaints_singleton, ihx, ihy, complaint?]
    congr 1
    by_cases h : (operator.kind, x.firstTy, y.firstTy) ∈ BinaryOp.table
    · rw [if_neg (mt BinaryOp.resolve?_eq_none_iff.1 (not_not_intro h)), if_pos h]
      rfl
    · rw [if_pos (BinaryOp.resolve?_eq_none_iff.2 h), if_neg h]
      rfl
  | error => rfl

/-- Binding a tree that could be read does not fail, and its messages are what is said about the
nodes of the tree in post-order: one for each node whose operator is not defined for the types of
its operands, and none for the others. -/
theorem messages_bind (t : ParseTree) (h : t.ErrorFree) :
    ∃ b d, t.bind .empty = (.ok b, d) ∧ d.toList.map Diagnostic.message = complaints t.nodes := by
  refine ⟨t.image, _, t.bind_eq h .empty, ?_⟩
  rw [Diagnostics.toList_reportAll, Diagnostics.toList_empty, List.nil_append, map_message_offences]

/-- In `-((true * 1) - (2 / false))`, with values that do not match their words, every operator is
complained about, the left factor before the right one and the outermost sign last. -/
theorem messages_bind_nested :
    let token kind text value : Token := ⟨kind, text, value, .start⟩
    let t : ParseTree :=
      .unary (token .minus "-" none)
        (.binary
          (.binary (.literal (token .trueWord "true" (some (.int 5)))) (token .times "*" none)
            (.literal (token .number "1" (some (.boolean true)))))
          (token .minus "-" none)
          (.binary (.literal (token .number "2" none)) (token .divide "/" none)
            (.literal (token .falseWord "false" none))))
    t.ErrorFree ∧
      ∃ b d, t.bind .empty = (.ok b, d) ∧
        d.toList.map Diagnostic.message =
          ["Binary operator '*' is not defined for type boolean and int",
            "Binary operator '/' is not defined for type int and boolean",
            "Binary operator '-' is not defined for type boolean and int",
            "Unary operator '-' is not defined for type boolean"] := by
  intro token t
  have hfree : t.ErrorFree := by decide
  obtain ⟨b, d, hbind, hmessages⟩ := messages_bind t hfree
  exact ⟨hfree, b, d, hbind, hmessages.trans rfl⟩

end ParseTree

end Calculator
