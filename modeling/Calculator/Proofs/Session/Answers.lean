import Calculator.Session
import Calculator.Proofs.Evaluation.Stages

/-!
# Answers to expressions

A session has its own way through the stages of an evaluation, since it shows trees on the way. It
answers with what `evaluate` yields all the same: `Session.Answers` says which answer an outcome
calls for, and `Session.answers_evaluate` that it is the one given. A session is never silent about
an expression without a value, because at every stage that such an expression can come to there is a
report or a failure (`exists_compile_stopsAt`).
-/

namespace Calculator

/-! ## Replies made of lines -/

namespace Reply

/-- Messages are written to the channel for errors, each on a line, and nothing to the output. -/
theorem join_errorLine {α : Type} (message : α → String) (rs : List α) :
    join (rs.map fun r => errorLine (message r)) =
      ⟨"", String.join (rs.map fun r => message r ++ "\n")⟩ := by
  induction rs with
  | nil => rfl
  | cons r rs ih =>
    have hcons : join ((r :: rs).map fun r => errorLine (message r)) =
        errorLine (message r) ++ join (rs.map fun r => errorLine (message r)) := rfl
    rw [hcons, ih, List.map_cons, String.join_cons]
    rfl

/-- Behind a reply without errors, another one adds to the output, and its errors are those of
both. -/
theorem mk_append (out out' err : String) :
    (⟨out, ""⟩ : Reply) ++ ⟨out', err⟩ = ⟨out ++ out', err⟩ := by
  ext1 <;> simp

end Reply

/-- A line is not empty, since it has its end. -/
theorem append_newline_ne_empty (text : String) : text ++ "\n" ≠ "" := by
  intro h
  simpa using congrArg String.length h

/-! ## The trees of a source -/

/-- The bound tree of a source, which it has unless something was reported while it was read. -/
def boundTree? (source : String) : Option BoundTree :=
  if (Reading.ofString source).parse.2.diagnostics.toList = [] then
    ((Reading.ofString source).parse.1.bind .empty).1.toOption
  else none

/-- The bound tree of a source is that of what it is compiled to. -/
theorem bound_eq_boundTree? {source : String} {c : Compilation} (hc : compile source = .ok c) :
    c.bound = boundTree? source := by
  unfold boundTree?
  split
  · next hread =>
    rw [compile_of_read hread, Except.ok.injEq] at hc
    rw [← hc, ParseTree.bind_eq _ (Reading.errorFree_parse hread)]
    rfl
  · next hread =>
    rw [compile_of_reported hread, Except.ok.injEq] at hc
    rw [← hc]

/-- The parse tree of what a source is compiled to is the tree of its reading. -/
theorem tree_eq_parse {source : String} {c : Compilation} (hc : compile source = .ok c) :
    c.tree = (Reading.ofString source).parse.1 := by
  obtain ⟨c', stage, hc', htree, -⟩ := exists_compile_stopsAt source
  rw [hc, Except.ok.injEq] at hc'
  rwa [hc']

namespace Session

variable {s : Session} {source : String} {c : Compilation}

/-- The lines with the trees of a source, as far as they are shown and the source has them. -/
def treeLines (s : Session) (source : String) : String :=
  (if s.showTree then (Reading.ofString source).parse.1.render ++ "\n" else "") ++
    match boundTree? source with
    | some bound => if s.showBoundTree then bound.render ++ "\n" else ""
    | none => ""

/-- The trees of what a source is compiled to are written as these lines, to the output. -/
theorem trees_eq (hc : compile source = .ok c) : s.trees c = ⟨s.treeLines source, ""⟩ := by
  unfold trees treeLines
  rw [bound_eq_boundTree? hc, tree_eq_parse hc]
  cases s.showTree <;> cases boundTree? source <;> cases s.showBoundTree <;> rfl

/-! ## The answer to an outcome -/

/-- The answer to a source that an outcome calls for: whether there is a value, and what is written.
The lines with the trees go to the output in any case. -/
inductive Answers (s : Session) (source : String) : Except Failure Outcome → Bool × Reply → Prop
  /-- A value goes to the output. Nothing was reported. -/
  | value (v : Value) {d : Diagnostics Diagnostic} (hd : d.toList = []) :
    Answers s source (.ok ⟨d, some v⟩) (true, ⟨s.treeLines source ++ (v.render ++ "\n"), ""⟩)
  /-- Without a value there are reports, and they go to the channel for errors, each on a line. -/
  | reported {d : Diagnostics Diagnostic} (hd : d.toList ≠ []) :
    Answers s source (.ok ⟨d, none⟩)
      (false, ⟨s.treeLines source, String.join (d.toList.map fun r => r.message ++ "\n")⟩)
  /-- A failure goes to the channel for errors. -/
  | failure (e : Failure) :
    Answers s source (.error e) (false, ⟨s.treeLines source, "Error: " ++ e.message ++ "\n"⟩)

/-- With reports there is no value, and the answer is the reports. -/
theorem answers_of_reported (hc : compile source = .ok c) (hd : c.diagnostics.toList ≠ []) :
    s.Answers source (evaluate source) (s.answer source) := by
  have hanswer : s.answer source = (false, ⟨s.treeLines source,
      String.join (c.diagnostics.toList.map fun r => r.message ++ "\n")⟩) := by
    unfold answer
    simp only [hc]
    rw [if_pos (Compilation.failed_iff.2 hd), trees_eq hc,
      Reply.join_errorLine Diagnostic.message, Reply.mk_append, String.append_empty]
  rw [hanswer, evaluate_of_eval_ok hc (Compilation.eval_of_reported hd)]
  exact .reported hd

/-- Without reports the answer is the value of the bound tree, or else its failure. -/
theorem answers_of_bound {b : BoundTree} (hc : compile source = .ok c) (hb : c.bound = some b)
    (hd : c.diagnostics.toList = []) : s.Answers source (evaluate source) (s.answer source) := by
  have hfailed : ¬ c.failed = true := fun h => Compilation.failed_iff.1 h hd
  cases hv : b.eval with
  | ok v =>
    have heval : c.eval = .ok (some v) := by rw [Compilation.eval_of_bound hb hd, hv]; rfl
    have hanswer : s.answer source = (true, ⟨s.treeLines source ++ (v.render ++ "\n"), ""⟩) := by
      unfold answer
      simp only [hc, heval]
      rw [if_neg hfailed, trees_eq hc, Reply.line, Reply.mk_append]
    rw [hanswer, evaluate_of_eval_ok hc heval]
    exact .value v hd
  | error e =>
    have heval : c.eval = .error e := by rw [Compilation.eval_of_bound hb hd, hv]; rfl
    have hanswer :
        s.answer source = (false, ⟨s.treeLines source, "Error: " ++ e.message ++ "\n"⟩) := by
      unfold answer
      simp only [hc, heval]
      rw [if_neg hfailed, trees_eq hc, Reply.failure, Reply.errorLine, Reply.mk_append,
        String.append_empty]
    rw [hanswer, evaluate_of_eval_error hc heval]
    exact .failure (.evaluation e)

/-- An answer says that there is a value exactly for an outcome that has one. -/
theorem Answers.fst_eq_true_iff {r : Except Failure Outcome} {a : Bool × Reply}
    (h : s.Answers source r a) : a.1 = true ↔ ∃ o v, r = .ok o ∧ o.value = some v := by
  cases h with
  | value v hd => exact ⟨fun _ => ⟨_, v, rfl, rfl⟩, fun _ => rfl⟩
  | reported hd =>
    refine ⟨nofun, ?_⟩
    rintro ⟨o, v, ⟨⟩, hv⟩
    cases hv
  | failure e =>
    refine ⟨nofun, ?_⟩
    rintro ⟨o, v, ho, -⟩
    cases ho

/-- An answer says that there is no value exactly if it writes to the channel for errors. -/
theorem Answers.fst_eq_false_iff {r : Except Failure Outcome} {a : Bool × Reply}
    (h : s.Answers source r a) : a.1 = false ↔ a.2.err ≠ "" := by
  cases h with
  | value v hd => exact ⟨nofun, fun h => absurd rfl h⟩
  | @reported d hd =>
    refine ⟨fun _ => ?_, fun _ => rfl⟩
    obtain ⟨r, rs, hrs⟩ := List.exists_cons_of_ne_nil hd
    rw [hrs, List.map_cons, String.join_cons]
    exact fun h => append_newline_ne_empty _ (String.append_eq_empty_iff.1 h).1
  | failure e => exact ⟨fun _ => append_newline_ne_empty _, fun _ => rfl⟩

/-- Every source is answered with what it evaluates to: with its value, or with its reports, of
which there is one at least, or with its failure. The answer says that there is a value exactly if
there is one, and otherwise something is written to the channel for errors. -/
theorem answers_evaluate (s : Session) (source : String) :
    s.Answers source (evaluate source) (s.answer source) ∧
      ((s.answer source).1 = true ↔ ∃ o v, evaluate source = .ok o ∧ o.value = some v) ∧
      ((s.answer source).1 = false ↔ (s.answer source).2.err ≠ "") := by
  have h : s.Answers source (evaluate source) (s.answer source) := by
    obtain ⟨c, stage, hc, -, hstage⟩ := exists_compile_stopsAt source
    cases stage with
    | reading => exact answers_of_reported hc (hstage.diagnostics ▸ hstage.reported)
    | binding => exact answers_of_reported hc hstage.reported
    | evaluation =>
      obtain ⟨b, hb, -⟩ := hstage.bound
      exact answers_of_bound hc hb hstage.unreported
  exact ⟨h, h.fst_eq_true_iff, h.fst_eq_false_iff⟩

example : (⟨true, true, false⟩ : Session).answer "1 + -true" =
    (false, ⟨"(1 + (-true))\n1\n", "Unary operator '-' is not defined for type boolean\n" ++
      "Binary operator '+' is not defined for type int and boolean\n"⟩) := by decide +kernel

end Session

end Calculator
