import Calculator.Proofs.Grammar.Acceptance
import Calculator.Proofs.Reading.Reports

/-!
# Expressions read one after the other

A source can be read on behind an expression, with a further expression from where the one before
ended. The reports of all these readings together keep their discipline, and each reading adds to
those of the readings before it (`Reading.parseTimes_disciplined`).

Behind a reading that ended at the end of the source nothing is left. Every reading from then on
misses an expression there, which is reported once and only if the place was not lost before.
-/

namespace Calculator

/-- With the end of the source in view an expression is due and missing. -/
theorem Rules.term_of_atEnd {r : Reading} (h : r.current.kind = .endOfInput) (levels : ℕ) :
    (within levels).term r = (.error, r.faultHere .expectedExpression) := by
  obtain ⟨inner, heq⟩ := exists_within_eq_around levels
  have hsign : Grammar.isTermOperator r.current = false := by simp [Grammar.isTermOperator, h]
  have hunary : (within levels).unary r = (.error, r.faultHere .expectedExpression) := by
    rw [heq]
    change Grammar.unary inner r = _
    rw [Grammar.unary_of_not_sign hsign]
    simp [Grammar.primary, h]
  -- The fault leaves the end in view.
  exact term_of_unary_atEnd hunary (by rwa [Reading.faultHere, Reading.current_fault])

namespace Reading

variable {s : TokenStream} {r : Reading}

/-! ## One more expression -/

/-- With its first token in view, reading an expression leads on. -/
theorem leads_rest (r : Reading) : r.advance.Leads r.readTerm.2.finish :=
  ((Rules.leads_within nestingLimit).term r.advance).trans (leads_finish _)

/-- Reading an expression keeps the discipline of the reports, also at the end of the source. -/
theorem Disciplined.parse (hs : s.Proper) (h : r.Disciplined s) : r.parse.2.Disciplined s := by
  rw [parse_eq]
  exact (leads_rest r).disciplined hs (h.advance hs)

/-- Reading an expression only adds to the reports. -/
theorem prefix_reports_parse (r : Reading) :
    r.diagnostics.toList <+: r.parse.2.diagnostics.toList := by
  have hadvance : r.diagnostics.toList <+: r.advance.diagnostics.toList := by
    rw [reports_advance]
    exact List.prefix_append _ _
  rw [parse_eq]
  exact hadvance.trans (leads_rest r).prefix_reports

/-- The outcome `x` of a reading behind the end of the source, the token `ending`, with the reports
of `r` in front of it: there is no expression, and that is all that can be reported. -/
structure MissesAt (ending : Token) (r : Reading) (x : ParseTree × Reading) : Prop where
  /-- The token is the end of the source. -/
  kind : ending.kind = .endOfInput
  /-- There is no expression. -/
  tree : x.1 = .error
  /-- Unless the place is lost, it is reported that an expression is missing. -/
  reports : x.2.diagnostics.toList = r.diagnostics.toList ∨
    r.losses = [] ∧ x.2.diagnostics.toList =
      r.diagnostics.toList ++ [.syntactic ending .expectedExpression]
  /-- This is what the report says. -/
  message : (Diagnostic.syntactic ending .expectedExpression).message =
    ending.start.render ++ " " ++ "Error at end of input: Expected expression"

/-- At the end of a source the report that an expression is missing names the end. -/
theorem message_expectedExpression {ending : Token} (h : ending.kind = .endOfInput) :
    (Diagnostic.syntactic ending .expectedExpression).message =
      ending.start.render ++ " " ++ "Error at end of input: Expected expression" := by
  have hplace : Diagnostic.place ending = "end of input" := if_pos h
  have htext : "Error at " ++ "end of input" ++ ": " ++ "Expected expression" =
      "Error at end of input: Expected expression" := by decide +kernel
  calc (Diagnostic.syntactic ending .expectedExpression).message
      = ending.start.render ++ " " ++
          ("Error at " ++ Diagnostic.place ending ++ ": " ++ "Expected expression") := rfl
    _ = ending.start.render ++ " " ++ "Error at end of input: Expected expression" := by
        rw [hplace, htext]

/-- Where nothing is ahead the end of the source comes into view, and an expression is missing
there. -/
theorem parse_of_ahead_eq_nil (hnil : r.stream.ahead = [])
    (hend : r.stream.ending.kind = .endOfInput) :
    r.parse = (.error, r.advance.faultHere .expectedExpression) := by
  have hcurrent : r.advance.current = r.stream.ending := by
    have h : r.advance.current = (TokenStream.nextOf r.stream.ending r.stream.ahead).2.1 := rfl
    rw [h, hnil]
    rfl
  have hkind : r.advance.current.kind = .endOfInput := hcurrent ▸ hend
  rw [parse_eq, readTerm, Rules.term_of_atEnd hkind]
  have hfinish : (r.advance.faultHere .expectedExpression).atEnd = true := by
    simp [faultHere, atEnd, hkind]
  rw [finish, if_pos hfinish]

/-- Behind the end of the source a reading reports at most that an expression is missing, and loses
its place with it; the end remains all that is ahead. -/
theorem Disciplined.parse_of_ended (hs : s.Proper) (h : r.Disciplined s)
    (hnil : r.stream.ahead = []) :
    MissesAt s.ending r r.parse ∧ r.parse.2.lost = true ∧ r.parse.2.stream.ahead = [] := by
  have hend : r.stream.ending.kind = .endOfInput := h.ending ▸ hs.ending
  have hparse := parse_of_ahead_eq_nil hnil hend
  obtain ⟨⟨ahead, ending⟩, current, diagnostics, failed, lost⟩ := r
  obtain rfl : ahead = [] := hnil
  obtain rfl : ending = s.ending := h.ending
  rw [hparse]
  have hmessage := message_expectedExpression hs.ending
  cases lost with
  | true => exact ⟨⟨hs.ending, rfl, .inl rfl, hmessage⟩, rfl, rfl⟩
  | false =>
    have hnone := h.losses_eq_nil rfl
    exact ⟨⟨hs.ending, rfl, .inr ⟨hnone, Diagnostics.toList_report _ _⟩, hmessage⟩, rfl, rfl⟩

/-! ## Expressions in turn -/

/-- The first of several expressions is read first, and the others from where it ended. -/
theorem parseTimes_succ (times : ℕ) (r : Reading) :
    r.parseTimes (times + 1) = r.parse :: r.parse.2.parseTimes times := by
  rw [parseTimes]

/-- Reading expressions in turn keeps the discipline of the reports. -/
theorem Disciplined.parseTimes (hs : s.Proper) (h : r.Disciplined s) (times : ℕ) :
    ∀ x ∈ r.parseTimes times, x.2.Disciplined s := by
  induction times generalizing r with
  | zero => exact fun x hx => absurd hx List.not_mem_nil
  | succ times ih =>
    rw [parseTimes_succ, List.forall_mem_cons]
    exact ⟨h.parse hs, ih (h.parse hs)⟩

/-- Reading expressions in turn only adds to the reports. -/
theorem prefix_reports_parseTimes (times : ℕ) (r : Reading) :
    ∀ x ∈ r.parseTimes times, r.diagnostics.toList <+: x.2.diagnostics.toList := by
  induction times generalizing r with
  | zero => exact fun x hx => absurd hx List.not_mem_nil
  | succ times ih =>
    rw [parseTimes_succ, List.forall_mem_cons]
    exact ⟨r.prefix_reports_parse, fun x hx => r.prefix_reports_parse.trans (ih _ x hx)⟩

/-- Behind the end of the source all readings together report at most once that an expression is
missing. -/
theorem Disciplined.parseTimes_of_ended (hs : s.Proper) (h : r.Disciplined s)
    (hnil : r.stream.ahead = []) (times : ℕ) :
    ∀ x ∈ r.parseTimes times, MissesAt s.ending r x := by
  induction times generalizing r with
  | zero => exact fun x hx => absurd hx List.not_mem_nil
  | succ times ih =>
    obtain ⟨hfirst, hlost, hnil'⟩ := h.parse_of_ended hs hnil
    have hparse := h.parse hs
    rw [parseTimes_succ, List.forall_mem_cons]
    refine ⟨hfirst, fun x hx => ?_⟩
    generalize r.parse = first at hfirst hlost hnil' hparse hx
    have hagain := ih hparse hnil' x hx
    refine ⟨hs.ending, hagain.tree, ?_, hagain.message⟩
    rcases hagain.reports with hsame | ⟨hnone, -⟩
    · rw [hsame]
      exact hfirst.reports
    · -- The first reading has lost the place.
      exact absurd hnone (hparse.lost_iff.1 hlost)

/-- The reports of expressions read in turn from a source are disciplined after each of them, each
reading only adds to the reports, and behind one that ended at the end of the source every reading
yields no expression, and all of them together at most the report that it is missing. -/
theorem parseTimes_disciplined (source : String) (times : ℕ) :
    (∀ x ∈ (ofString source).parseTimes times,
        x.2.Disciplined (TokenStream.ofString source)) ∧
      ((ofString source).parseTimes times).Pairwise fun x y =>
        x.2.diagnostics.toList <+: y.2.diagnostics.toList ∧
          (x.2.atEnd = true → MissesAt (TokenStream.ofString source).ending x.2 y) := by
  have hs : (TokenStream.ofString source).Proper := TokenStream.proper_ofString source
  have hstart : (ofString source).Disciplined (TokenStream.ofString source) := disciplined_start _
  generalize TokenStream.ofString source = s at hs hstart
  refine ⟨hstart.parseTimes hs times, ?_⟩
  generalize ofString source = r at hstart
  induction times generalizing r with
  | zero => exact .nil
  | succ times ih =>
    have hparse : r.parse.2.Disciplined s := hstart.parse hs
    rw [parseTimes_succ, List.pairwise_cons]
    refine ⟨fun y hy => ⟨r.parse.2.prefix_reports_parseTimes times y hy, fun hend => ?_⟩,
      ih _ hparse⟩
    have hnil : r.parse.2.stream.ahead = [] := hparse.atEnd (by simpa [atEnd] using hend)
    exact hparse.parseTimes_of_ended hs hnil times y hy

/-- A source with errors of the scan and a number out of range is read to its end at once, and a
second reading misses an expression there. -/
theorem parseTimes_disciplined_two_readings :
    let source := "(1 # + 9999999999) #"
    let r := (ofString source).parse.2
    r.Disciplined (TokenStream.ofString source) ∧ r.atEnd = true ∧
      MissesAt (TokenStream.ofString source).ending r r.parse := by
  intro source r
  have hend : r.atEnd = true := by decide +kernel
  obtain ⟨hall, hpairwise⟩ := parseTimes_disciplined source 2
  rw [parseTimes_succ, parseTimes_succ] at hall hpairwise
  have hsecond := (List.pairwise_cons.1 hpairwise).1 r.parse List.mem_cons_self
  exact ⟨hall _ List.mem_cons_self, hend, hsecond.2 hend⟩

end Reading

end Calculator
