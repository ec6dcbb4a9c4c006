import Mathlib.Data.List.Induction
import Calculator.Proofs.Binding.Nodes

/-!
# Binding one tree after another

One log of reports can serve for several trees, bound one after another (`ParseTree.logAfter`). No
tree notices: what it yields is what it yields alone, and what is reported about it goes behind what
was there before (`ParseTree.bind_eq_alone`).

This holds also of a tree with a part that could not be read. Its binding breaks off at the first
such part, and the log has then got just what is said about the nodes to the left of it
(`ParseTree.BreaksOff`). The main statement, `ParseTree.bind_logAfter`, puts this together for the
last of any number of trees.
-/

namespace Calculator.ParseTree

/-! ## The first part that could not be read -/

/-- The first error of a tree is at the address: there is one, and none to the left of it. -/
structure IsFirstError (t : ParseTree) (address : List Branch) : Prop where
  /-- There is an error at the address. -/
  mem : ⟨address, .error⟩ ∈ t.nodes
  /-- No error is to the left of it. -/
  not_leftOf : ∀ n ∈ t.nodes, n.tree = .error → ¬ LeftOf n.address address

/-- The nodes of a tree whose whole subtrees stand to the left of what is at an address. -/
def nodesLeftOf (t : ParseTree) (address : List Branch) : List Node :=
  t.nodes.filter fun n => LeftOf n.address address

variable {t x y : ParseTree} {operator : Token} {address : List Branch} {rs : List Diagnostic}

/-- The first error of the one operand is that of the whole. -/
theorem IsFirstError.operand (h : x.IsFirstError address) :
    (unary operator x).IsFirstError (.operand :: address) := by
  constructor
  · exact List.mem_append_left _ (List.mem_map.2 ⟨_, h.mem, rfl⟩)
  · rw [forall_mem_nodes_unary]
    refine ⟨fun n hn herror => ?_, fun herror => by cases herror⟩
    simpa using h.not_leftOf n hn herror

/-- The first error of the left operand is that of the whole. -/
theorem IsFirstError.left (h : x.IsFirstError address) :
    (binary x operator y).IsFirstError (.left :: address) := by
  constructor
  · exact List.mem_append_left _ (List.mem_append_left _ (List.mem_map.2 ⟨_, h.mem, rfl⟩))
  · rw [forall_mem_nodes_binary]
    refine ⟨⟨fun n hn herror => ?_, fun n _ _ => ?_⟩, fun herror => by cases herror⟩
    · simpa using h.not_leftOf n hn herror
    · simp

/-- Behind a left operand that could be read, the first error of the right one is that of the
whole. -/
theorem IsFirstError.right (hx : x.ErrorFree) (h : y.IsFirstError address) :
    (binary x operator y).IsFirstError (.right :: address) := by
  constructor
  · exact List.mem_append_left _ (List.mem_append_right _ (List.mem_map.2 ⟨_, h.mem, rfl⟩))
  · rw [forall_mem_nodes_binary]
    refine ⟨⟨fun n hn herror => ?_, fun n hn herror => ?_⟩, fun herror => by cases herror⟩
    · exact absurd herror (errorFree_iff.1 hx n hn)
    · simpa using h.not_leftOf n hn herror

/-- What stands to the left of something in the one operand belongs to the operand. -/
theorem nodesLeftOf_operand :
    (unary operator x).nodesLeftOf (.operand :: address) =
      (x.nodesLeftOf address).map (.below .operand) := by
  simp [nodesLeftOf, nodes, List.filter_map, Function.comp_def]

/-- What stands to the left of something in the left operand belongs to it. -/
theorem nodesLeftOf_left :
    (binary x operator y).nodesLeftOf (.left :: address) =
      (x.nodesLeftOf address).map (.below .left) := by
  simp [nodesLeftOf, nodes, List.filter_map, Function.comp_def]

/-- To the left of something in the right operand stands all of the left one. -/
theorem nodesLeftOf_right :
    (binary x operator y).nodesLeftOf (.right :: address) =
      x.nodes.map (.below .left) ++ (y.nodesLeftOf address).map (.below .right) := by
  have hleft : (x.nodes.map (Node.below .left)).filter
      (fun n => LeftOf n.address (.right :: address)) = x.nodes.map (Node.below .left) :=
    List.filter_eq_self.2 (by simp)
  rw [nodesLeftOf, nodes, List.filter_append, List.filter_append, hleft]
  simp [nodesLeftOf, List.filter_map, Function.comp_def]

/-! ## Binding that breaks off -/

/-- Binding the tree breaks off at its first error, which is at the address, and has then reported
`rs`: what is said about the nodes to the left of the error. -/
structure BreaksOff (t : ParseTree) (address : List Branch) (rs : List Diagnostic) : Prop where
  /-- The first error is at the address. -/
  first : t.IsFirstError address
  /-- The messages are about the nodes to the left of it. -/
  messages : rs.map Diagnostic.message = complaints (t.nodesLeftOf address)
  /-- Whatever was reported before, binding fails and adds the reports. -/
  bind : ∀ d, t.bind d = (.error (.unexpectedSyntax .error), d.reportAll rs)

/-- An error breaks off at once. -/
theorem breaksOff_error : error.BreaksOff [] [] where
  first := ⟨List.mem_singleton_self _, fun _ _ _ => not_leftOf_nil⟩
  messages := by simp [nodesLeftOf, nodes, complaints]
  bind := fun _ => rfl

/-- With its one operand the whole breaks off. -/
theorem BreaksOff.operand (h : x.BreaksOff address rs) :
    (unary operator x).BreaksOff (.operand :: address) rs where
  first := h.first.operand
  messages := by rw [nodesLeftOf_operand, complaints_map_below, h.messages]
  bind d := by rw [ParseTree.bind, h.bind]

/-- With its left operand the whole breaks off. -/
theorem BreaksOff.left (h : x.BreaksOff address rs) :
    (binary x operator y).BreaksOff (.left :: address) rs where
  first := h.first.left
  messages := by rw [nodesLeftOf_left, complaints_map_below, h.messages]
  bind d := by rw [ParseTree.bind, h.bind]

/-- Behind a left operand that could be read, the whole breaks off with its right operand, and the
offences of the left one have been reported. -/
theorem BreaksOff.right (hx : x.ErrorFree) (h : y.BreaksOff address rs) :
    (binary x operator y).BreaksOff (.right :: address) (x.offences ++ rs) where
  first := h.first.right hx
  messages := by
    rw [nodesLeftOf_right, complaints_append, complaints_map_below, complaints_map_below,
      List.map_append, map_message_offences, h.messages]
  bind d := by
    rw [ParseTree.bind, bind_eq x hx d]
    dsimp only
    rw [h.bind, Diagnostics.reportAll_append]

/-- Binding a tree with a part that could not be read breaks off. -/
theorem exists_breaksOff (t : ParseTree) (h : ¬ t.ErrorFree) :
    ∃ address rs, t.BreaksOff address rs := by
  induction t with
  | literal token => exact absurd trivial h
  | unary operator x ih =>
    obtain ⟨address, rs, hx⟩ := ih h
    exact ⟨_, _, hx.operand⟩
  | binary x operator y ihx ihy =>
    -- The left operand is bound first.
    by_cases hx : x.ErrorFree
    · obtain ⟨address, rs, hy⟩ := ihy fun hy => h ⟨hx, hy⟩
      exact ⟨_, _, hy.right hx⟩
    · obtain ⟨address, rs, hx⟩ := ihx hx
      exact ⟨_, _, hx.left⟩
  | error => exact ⟨_, _, breaksOff_error⟩

/-! ## Trees in turn -/

/-- What binding a tree yields does not depend on what was reported before, and neither does what it
reports, which goes behind that. -/
theorem bind_eq_alone (t : ParseTree) (d : Diagnostics Diagnostic) :
    t.bind d = ((t.bind .empty).1, d.reportAll (t.bind .empty).2.toList) := by
  by_cases h : t.ErrorFree
  · rw [bind_eq t h d, bind_eq t h .empty, Diagnostics.toList_reportAll, Diagnostics.toList_empty,
      List.nil_append]
  · obtain ⟨address, rs, hoff⟩ := t.exists_breaksOff h
    rw [hoff.bind d, hoff.bind .empty, Diagnostics.toList_reportAll, Diagnostics.toList_empty,
      List.nil_append]

/-- Binding fails exactly on a tree with an error, and as one that came upon it. -/
theorem bind_fst_eq_error_iff (t : ParseTree) (d : Diagnostics Diagnostic) {e : BindError} :
    (t.bind d).1 = .error e ↔ e = .unexpectedSyntax .error ∧ ¬ t.ErrorFree := by
  by_cases h : t.ErrorFree
  · simp [bind_eq t h d, h]
  · obtain ⟨address, rs, hoff⟩ := t.exists_breaksOff h
    simp [hoff.bind d, h, eq_comm]

/-- The log after some trees have been bound one after another, beginning without reports. -/
def logAfter (ts : List ParseTree) : Diagnostics Diagnostic :=
  ts.foldl (fun d t => (t.bind d).2) .empty

/-- The log after one more tree is that after binding it with the log of the others. -/
theorem logAfter_append_singleton (ts : List ParseTree) (t : ParseTree) :
    logAfter (ts ++ [t]) = (t.bind (logAfter ts)).2 := by
  simp [logAfter]

/-- The log after some trees has the reports that each tree gets alone. -/
theorem toList_logAfter (ts : List ParseTree) :
    (logAfter ts).toList = ts.flatMap fun t => (t.bind .empty).2.toList := by
  induction ts using List.reverseRecOn with
  | nil => rfl
  | append_singleton ts t ih =>
    rw [logAfter_append_singleton, bind_eq_alone, Diagnostics.toList_reportAll, ih,
      List.flatMap_append, List.flatMap_singleton]

/-- A tree that is bound behind others yields what it yields alone, which is a failure exactly if it
has an error, and adds to the log just the reports that it gets alone. If it fails, these are about
the nodes to the left of its first error. Something has been reported exactly if one of the trees
gets a report alone. -/
theorem bind_logAfter (ts : List ParseTree) (t : ParseTree) :
    (t.bind (logAfter ts)).1 = (t.bind .empty).1 ∧
      (∀ e, (t.bind (logAfter ts)).1 = .error e ↔
        e = .unexpectedSyntax .error ∧ ∃ n ∈ t.nodes, n.tree = .error) ∧
      (t.bind (logAfter ts)).2.toList = (logAfter ts).toList ++ (t.bind .empty).2.toList ∧
      ((∃ n ∈ t.nodes, n.tree = .error) →
        ∃ address, t.IsFirstError address ∧
          (t.bind .empty).2.toList.map Diagnostic.message = complaints (t.nodesLeftOf address)) ∧
      ((t.bind (logAfter ts)).2.isEmpty = false ↔
        ∃ u ∈ ts ++ [t], (u.bind .empty).2.toList ≠ []) := by
  rw [← not_errorFree_iff]
  refine ⟨by rw [bind_eq_alone], fun e => bind_fst_eq_error_iff t _, ?_, fun h => ?_, ?_⟩
  · rw [bind_eq_alone, Diagnostics.toList_reportAll]
  · obtain ⟨address, rs, hoff⟩ := t.exists_breaksOff h
    refine ⟨address, hoff.first, ?_⟩
    rw [hoff.bind, Diagnostics.toList_reportAll, Diagnostics.toList_empty, List.nil_append,
      hoff.messages]
  · rw [← logAfter_append_singleton, ← Bool.not_eq_true, Diagnostics.isEmpty_iff, toList_logAfter,
      List.flatMap_eq_nil_iff]
    simp only [not_forall, exists_prop, ne_eq]

/-- Behind `-true`, binding `+true + (? * -false)`, in which `?` could not be read, reports the sign
in front of `?`, but neither the sign behind it nor the operators that it belongs to. -/
theorem bind_logAfter_unread :
    let token kind text value : Token := ⟨kind, text, value, .start⟩
    let yes : ParseTree := .literal (token .trueWord "true" (some (.boolean true)))
    let no : ParseTree := .literal (token .falseWord "false" (some (.boolean false)))
    let before : ParseTree := .unary (token .minus "-" none) yes
    let t : ParseTree :=
      .binary (.unary (token .plus "+" none) yes) (token .plus "+" none)
        (.binary .error (token .times "*" none) (.unary (token .minus "-" none) no))
    (∃ n ∈ t.nodes, n.tree = .error) ∧
      (t.bind (logAfter [before])).1 = .error (.unexpectedSyntax .error) ∧
      (t.bind (logAfter [before])).2.toList.map Diagnostic.message =
        ["Unary operator '-' is not defined for type boolean",
          "Unary operator '+' is not defined for type boolean"] ∧
      ∃ address, t.IsFirstError address ∧
        (t.bind .empty).2.toList.map Diagnostic.message = complaints (t.nodesLeftOf address) := by
  intro token yes no before t
  have hunread : ∃ n ∈ t.nodes, n.tree = .error := not_errorFree_iff.1 (by decide)
  obtain ⟨-, herror, hlog, hleft, -⟩ := bind_logAfter [before] t
  refine ⟨hunread, (herror _).2 ⟨rfl, hunread⟩, ?_, hleft hunread⟩
  rw [hlog]
  rfl

end Calculator.ParseTree
