import Mathlib.Logic.ExistsUnique
import Calculator.Evaluation
import Calculator.Proofs.Binding.Typing
import Calculator.Proofs.Grammar.Trees

/-!
# The stages of an evaluation

A source goes through reading, binding and evaluation, and it comes to its outcome at exactly one of
these stages (`compile_stopsAt`). If something was reported while it was read, it is not bound; if
something was reported while it was bound, it is not evaluated; otherwise its value is of the type
of the bound tree, unless the arithmetic fails.

Binding itself cannot fail, because a source that is read without a report has a proper tree, and
such a tree has no part that could not be read. Nor can an operand turn out not to be an integer,
because the bound tree is well typed.
-/

namespace Calculator

/-- In a proper tree every part could be read. -/
theorem ParseTree.Proper.errorFree {t : ParseTree} (h : t.Proper) : t.ErrorFree := by
  induction t with
  | literal _ => exact trivial
  | unary _ _ ih => exact ih h.2
  | binary _ _ _ ihx ihy => exact ⟨ihx h.2.1, ihy h.2.2⟩
  | error => exact h.elim

/-- In the tree of a source that is read without a report every part could be read. -/
theorem Reading.errorFree_parse {source : String}
    (h : (ofString source).parse.2.diagnostics.toList = []) :
    (ofString source).parse.1.ErrorFree :=
  (proper_parse ((failed_parse_eq_false_iff source).2 h)).errorFree

/-! ## What each stage hands on -/

/-- A source with reports of its reading is not bound. -/
theorem compile_of_reported {source : String}
    (h : (Reading.ofString source).parse.2.diagnostics.toList ≠ []) :
    compile source =
      .ok ⟨(Reading.ofString source).parse.1, none,
        (Reading.ofString source).parse.2.diagnostics⟩ := by
  have hf : (Reading.ofString source).parse.2.failed = true := by
    rwa [(Reading.consistent_parse_ofString source).failed_iff]
  unfold compile
  generalize (Reading.ofString source).parse = x at hf ⊢
  exact if_pos hf

/-- A source that is read without a report is bound, to the image of its tree, and what is reported
are the offences of the tree. -/
theorem compile_of_read {source : String}
    (h : (Reading.ofString source).parse.2.diagnostics.toList = []) :
    compile source =
      .ok ⟨(Reading.ofString source).parse.1, some (Reading.ofString source).parse.1.image,
        Diagnostics.empty.reportAll (Reading.ofString source).parse.1.offences⟩ := by
  have hf := (Reading.failed_parse_eq_false_iff source).2 h
  have hbind := ParseTree.bind_eq _ (Reading.errorFree_parse h) .empty
  unfold compile
  generalize (Reading.ofString source).parse = x at hf hbind ⊢
  simp only [hf, hbind, Bool.false_eq_true, if_false]

namespace Compilation

/-- A compilation has failed exactly if something was reported. -/
theorem failed_iff {c : Compilation} : c.failed = true ↔ c.diagnostics.toList ≠ [] := by
  rw [failed, Bool.not_eq_true', Bool.eq_false_iff, ne_eq, Diagnostics.isEmpty_iff]

/-- With a report nothing is evaluated. -/
theorem eval_of_reported {c : Compilation} (h : c.diagnostics.toList ≠ []) :
    c.eval = .ok none := by
  unfold eval
  split
  · exact if_pos (failed_iff.2 h)
  · rfl

/-- Without a report the outcome is that of the bound tree. -/
theorem eval_of_bound {c : Compilation} {b : BoundTree} (hb : c.bound = some b)
    (h : c.diagnostics.toList = []) : c.eval = b.eval.map some := by
  rw [eval, hb]
  exact if_neg fun hfailed => failed_iff.1 hfailed h

end Compilation

/-! ## Where a source comes to its outcome -/

/-- The stages at which a source can come to its outcome. -/
inductive Stage where
  | reading
  | binding
  | evaluation
  deriving DecidableEq

/-- Something was reported while the source was read: it has not been bound, nothing else is
reported, and it has no value. -/
structure Compilation.Unread (source : String) (c : Compilation) : Prop where
  /-- Something was reported while the source was read. -/
  reported : (Reading.ofString source).parse.2.diagnostics.toList ≠ []
  bound : c.bound = none
  diagnostics : c.diagnostics = (Reading.ofString source).parse.2.diagnostics
  eval : c.eval = .ok none

/-- Nothing was reported while the source was read, but something while it was bound: there is a
bound tree, but no value. -/
structure Compilation.Unbound (source : String) (c : Compilation) : Prop where
  /-- Nothing was reported while the source was read. -/
  read : (Reading.ofString source).parse.2.diagnostics.toList = []
  errorFree : c.tree.ErrorFree
  /-- The bound tree and the reports are what binding yields from nothing reported before. -/
  bound : ∃ b, c.bound = some b ∧ c.tree.bind .empty = (.ok b, c.diagnostics)
  reported : c.diagnostics.toList ≠ []
  eval : c.eval = .ok none

/-- Nothing was reported: the bound tree has a value of its type, or its arithmetic fails. -/
structure Compilation.Clean (c : Compilation) : Prop where
  unreported : c.diagnostics.toList = []
  bound : ∃ b, c.bound = some b ∧
    ((∃ v, c.eval = .ok (some v) ∧ v.ty = b.ty) ∨
      c.eval = .error .divisionByZero ∨ ∃ operation, c.eval = .error (.overflow operation))

/-- What a source is compiled to comes to its outcome at the stage. -/
def Compilation.StopsAt (source : String) (c : Compilation) : Stage → Prop
  | .reading => c.Unread source
  | .binding => c.Unbound source
  | .evaluation => c.Clean

namespace Compilation

variable {source : String} {c : Compilation}

/-- A source comes to its outcome at one stage only. -/
theorem StopsAt.unique {s s' : Stage} (h : c.StopsAt source s) (h' : c.StopsAt source s') :
    s = s' := by
  -- The first two stages differ in the reports of the reading, and the last one in having none.
  have hreading : c.StopsAt source .reading → c.diagnostics.toList ≠ [] := fun hr =>
    hr.diagnostics ▸ hr.reported
  cases s <;> cases s'
  case reading.reading | binding.binding | evaluation.evaluation => rfl
  case reading.binding => exact absurd h'.read h.reported
  case binding.reading => exact absurd h.read h'.reported
  case reading.evaluation => exact absurd h'.unreported (hreading h)
  case evaluation.reading => exact absurd h.unreported (hreading h')
  case binding.evaluation => exact absurd h'.unreported h.reported
  case evaluation.binding => exact absurd h.unreported h'.reported

/-- A source with reports of its reading comes to its outcome there. -/
theorem unread_of_reported (hread : (Reading.ofString source).parse.2.diagnostics.toList ≠ [])
    (hbound : c.bound = none)
    (hdiagnostics : c.diagnostics = (Reading.ofString source).parse.2.diagnostics) :
    c.Unread source where
  reported := hread
  bound := hbound
  diagnostics := hdiagnostics
  eval := eval_of_reported (by rwa [hdiagnostics])

/-- A tree with offences comes to its outcome when it is bound. -/
theorem unbound_of_offences (hread : (Reading.ofString source).parse.2.diagnostics.toList = [])
    (hfree : c.tree.ErrorFree) (hoffences : c.tree.offences ≠ [])
    (hbound : c.bound = some c.tree.image)
    (hdiagnostics : c.diagnostics = Diagnostics.empty.reportAll c.tree.offences) :
    c.Unbound source := by
  have hreported : c.diagnostics.toList ≠ [] := by
    rw [hdiagnostics, Diagnostics.toList_reportAll]
    exact hoffences
  refine ⟨hread, hfree, ⟨_, hbound, ?_⟩, hreported, eval_of_reported hreported⟩
  rw [hdiagnostics]
  exact c.tree.bind_eq hfree .empty

/-- A well-typed tree comes to its outcome when it is evaluated, if nothing was reported. -/
theorem clean_of_bound {b : BoundTree} (hb : c.bound = some b) (htyped : b.WellTyped)
    (h : c.diagnostics.toList = []) : c.Clean := by
  refine ⟨h, b, hb, ?_⟩
  rw [eval_of_bound hb h]
  rcases htyped.eval with ⟨v, hv, hty⟩ | ⟨e, he, rfl | ⟨operation, rfl⟩⟩
  · exact .inl ⟨v, by rw [hv]; rfl, hty⟩
  · exact .inr (.inl (by rw [he]; rfl))
  · exact .inr (.inr ⟨operation, by rw [he]; rfl⟩)

end Compilation

/-- Every source is compiled and comes to its outcome at one of the stages. -/
theorem exists_compile_stopsAt (source : String) :
    ∃ c stage, compile source = .ok c ∧ c.tree = (Reading.ofString source).parse.1 ∧
      c.StopsAt source stage := by
  -- The stage depends on the reports of the reading, and then on the offences of its tree.
  by_cases hread : (Reading.ofString source).parse.2.diagnostics.toList = []
  · have hcompile := compile_of_read hread
    have hfree := Reading.errorFree_parse hread
    generalize (Reading.ofString source).parse.1 = t at hcompile hfree ⊢
    by_cases hoffences : t.offences = []
    · refine ⟨_, .evaluation, hcompile, rfl, ?_⟩
      exact Compilation.clean_of_bound rfl t.wellTyped_image (by simp [hoffences])
    · refine ⟨_, .binding, hcompile, rfl, ?_⟩
      exact Compilation.unbound_of_offences hread hfree hoffences rfl rfl
  · have hcompile := compile_of_reported hread
    generalize hc : Compilation.mk _ _ _ = c at hcompile
    have hunread : c.Unread source := by
      apply Compilation.unread_of_reported hread
      · rw [← hc]
      · rw [← hc]
    refine ⟨c, .reading, hcompile, ?_, hunread⟩
    rw [← hc]

/-- The outcome of a source that is compiled and evaluated. -/
theorem evaluate_of_eval_ok {source : String} {c : Compilation} {value : Option Value}
    (hc : compile source = .ok c) (hv : c.eval = .ok value) :
    evaluate source = .ok ⟨c.diagnostics, value⟩ := by
  unfold evaluate
  simp only [hc, hv]

/-- The failure of a source that is compiled, but not evaluated. -/
theorem evaluate_of_eval_error {source : String} {c : Compilation} {e : EvalError}
    (hc : compile source = .ok c) (he : c.eval = .error e) :
    evaluate source = .error (.evaluation e) := by
  unfold evaluate
  simp only [hc, he]

/-- Every source is compiled, and comes to its outcome at exactly one of the stages. So its outcome
is never a failure to bind it nor an operand that is no integer, and if there is no value something
was reported. -/
theorem compile_stopsAt (source : String) :
    (∃ c, compile source = .ok c ∧ c.tree = (Reading.ofString source).parse.1 ∧
      ∃! stage, c.StopsAt source stage) ∧
      (∀ e, evaluate source ≠ .error (.binding e)) ∧
      (∀ operation ty, evaluate source ≠ .error (.evaluation (.invalidOperand operation ty))) ∧
      ∀ outcome, evaluate source = .ok outcome → outcome.value = none →
        outcome.diagnostics.toList ≠ [] := by
  obtain ⟨c, stage, hc, htree, hstage⟩ := exists_compile_stopsAt source
  refine ⟨⟨c, hc, htree, stage, hstage, fun s hs => hs.unique hstage⟩, ?_⟩
  cases stage with
  | reading =>
    rw [evaluate_of_eval_ok hc hstage.eval]
    refine ⟨nofun, nofun, ?_⟩
    rintro outcome ⟨⟩ -
    exact hstage.diagnostics ▸ hstage.reported
  | binding =>
    rw [evaluate_of_eval_ok hc hstage.eval]
    refine ⟨nofun, nofun, ?_⟩
    rintro outcome ⟨⟩ -
    exact hstage.reported
  | evaluation =>
    obtain ⟨b, -, ⟨v, hv, -⟩ | hv | ⟨operation, hv⟩⟩ := hstage.bound
    · rw [evaluate_of_eval_ok hc hv]
      refine ⟨nofun, nofun, ?_⟩
      rintro outcome ⟨⟩ hnone
      cases hnone
    · rw [evaluate_of_eval_error hc hv]
      exact ⟨nofun, nofun, nofun⟩
    · rw [evaluate_of_eval_error hc hv]
      exact ⟨nofun, nofun, nofun⟩

end Calculator
