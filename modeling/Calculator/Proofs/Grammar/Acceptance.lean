import Calculator.Proofs.Grammar.Completeness
import Calculator.Proofs.Grammar.Soundness

/-!
# Which sources are accepted

A source is accepted exactly when it can be read into tokens throughout and the grammar derives
these tokens without going deeper than the nesting limit; its tree is then that of the derivation
(`Reading.parse_accepts_iff`).

If nothing failed, the reading has come to the end of the source and so has passed over the whole
stream, which therefore has no errors; the rest is the soundness of the rules. The converse is their
completeness.
-/

namespace Calculator

/-- The grammar derives the tokens of a source, all of which can be read, and no part of the
derivation has a level above the nesting limit. -/
structure Derivation.Derives (p : Derivation .term) (source : String) : Prop where
  /-- The scan of the whole source yields no error. -/
  errors : (TokenStream.ofString source).errors = []
  /-- The derivation produces the tokens of the source. -/
  tokens : p.tokens = (TokenStream.ofString source).tokens
  /-- No level is above the limit. -/
  deepest : p.deepest ≤ nestingLimit

namespace Reading

/-- Before the first token the end of the source is not in view. -/
theorem kind_current_ofString (source : String) :
    (ofString source).current.kind ≠ .endOfInput := by
  change TokenKind.nothing ≠ .endOfInput
  decide

/-- The term behind the first token that comes into view. -/
def readTerm (r : Reading) : ParseTree × Reading := (Rules.within nestingLimit).term r.advance

/-- An expression is a term behind which the end of the source is required. -/
theorem parse_eq (r : Reading) : r.parse = (r.readTerm.1, r.readTerm.2.finish) := by
  unfold parse readTerm
  generalize (Rules.within nestingLimit).term r.advance = x
  rfl

/-- Reading a term leads on, in front of the end of the source. -/
theorem leads_readTerm {r : Reading} (h : r.current.kind ≠ .endOfInput) :
    r.Leads r.readTerm.2 := by
  unfold readTerm
  exact (leads_advance h).trans ((Rules.leads_within nestingLimit).term r.advance)

/-- Reading an expression leads on, in front of the end of the source. -/
theorem leads_parse {r : Reading} (h : r.current.kind ≠ .endOfInput) : r.Leads r.parse.2 := by
  rw [parse_eq]
  dsimp only
  exact (leads_readTerm h).trans (leads_finish _)

/-- The reading of a source keeps its marks in agreement with its reports. -/
theorem consistent_parse_ofString (source : String) : (ofString source).parse.2.Consistent :=
  (leads_parse (kind_current_ofString source)).consistent (consistent_start _)

/-- A reading of a source has not failed exactly when it has reported nothing. -/
theorem failed_parse_eq_false_iff (source : String) :
    (ofString source).parse.2.failed = false ↔
      (ofString source).parse.2.diagnostics.toList = [] := by
  rw [Bool.eq_false_iff, ne_eq, (consistent_parse_ofString source).failed_iff, not_not]

/-- A reading that requires the end of the source fails in front of anything else. -/
theorem atEnd_of_finish {r : Reading} (hr : r.Consistent) (hf : r.finish.failed = false) :
    r.atEnd = true := by
  by_contra hend
  have hfault : (r.faultHere .expectedEnd).failed = true := hr.failed_fault _ _
  rw [finish, if_neg hend, hfault] at hf
  cases hf

/-- A source that is read without a failure has been passed over as a whole, and can be read into
tokens throughout. -/
theorem errors_eq_nil_of_parse {source : String} (hf : (ofString source).parse.2.failed = false) :
    (TokenStream.ofString source).errors = [] ∧ (ofString source).readTerm.2.atEnd = true := by
  rw [parse_eq] at hf
  have hleads := leads_readTerm (kind_current_ofString source)
  have hend := atEnd_of_finish (hleads.consistent (consistent_start _)) hf
  have hfollows := hleads.follows (TokenStream.proper_ofString source) (follows_start _)
  obtain ⟨passed, hpassed, hok⟩ := hfollows.passed
  refine ⟨?_, hend⟩
  -- Nothing is ahead of the end, so that all of the stream has been passed over.
  rw [hfollows.atEnd (by simpa [atEnd] using hend), List.append_nil] at hpassed
  have hall := hok ((leads_finish _).not_failed hf)
  rw [TokenStream.errors, List.filterMap_eq_nil_iff]
  intro x hx
  obtain ⟨t, rfl⟩ := hall x (hpassed ▸ hx)
  rfl

/-- A source that is read without a failure is derived by the grammar, with its tree. -/
theorem exists_derives_of_parse {source : String}
    (hf : (ofString source).parse.2.failed = false) :
    ∃ p : Derivation .term, p.Derives source ∧ (ofString source).parse.1 = p.tree := by
  obtain ⟨herrors, hend⟩ := errors_eq_nil_of_parse hf
  have hfaces : (ofString source).advance.Faces (TokenStream.ofString source).tokens :=
    faces_advance_ofString herrors
  rw [parse_eq] at hf ⊢
  have hterm : (ofString source).readTerm.2.failed = false := (leads_finish _).not_failed hf
  unfold readTerm at hend hterm ⊢
  obtain ⟨p, rest, htokens, htree, hdeep, hrest⟩ :=
    (Rules.sound_within nestingLimit).reads_term _ _ hfaces hterm
  -- With the end in view no token is left.
  have hnil : rest = [] := by
    cases rest with
    | nil => rfl
    | cons t ts =>
      have hkind := (hrest.scanned t List.mem_cons_self).kind_ne
      rw [← hrest.current_cons] at hkind
      exact absurd (by simpa [atEnd] using hend) hkind
  rw [hnil, List.append_nil] at htokens
  exact ⟨p, ⟨herrors, htokens.symm, hdeep⟩, htree.symm⟩

/-- A source that the grammar derives is read without a failure, into the tree of the
derivation. -/
theorem parse_of_derives {source : String} {p : Derivation .term} (hp : p.Derives source) :
    (ofString source).parse.1 = p.tree ∧ (ofString source).parse.2.failed = false := by
  have hfaces : (ofString source).advance.Faces (p.tokens ++ []) := by
    rw [List.append_nil, hp.tokens]
    exact faces_advance_ofString hp.errors
  obtain ⟨r, hterm, hr⟩ := p.isRead.term hp.deepest noFactorOperator_nil (by simp) hfaces
  have hfinish : r.finish = r := if_pos (by simp [atEnd, hr.kind_nil])
  rw [parse_eq, readTerm, hterm, hfinish]
  exact ⟨rfl, hr.failed⟩

/-- The reading of a source succeeds exactly when the grammar derives the source within the nesting
limit, and its tree is that of any such derivation. -/
theorem parse_accepts_iff (source : String) :
    ((ofString source).parse.2.failed = false ↔ ∃ p : Derivation .term, p.Derives source) ∧
      ∀ p : Derivation .term, p.Derives source → (ofString source).parse.1 = p.tree := by
  refine ⟨⟨fun hf => ?_, ?_⟩, fun p hp => (parse_of_derives hp).1⟩
  · obtain ⟨p, hp, -⟩ := exists_derives_of_parse hf
    exact ⟨p, hp⟩
  · rintro ⟨p, hp⟩
    exact (parse_of_derives hp).2

end Reading

end Calculator
