import Calculator.Proofs.Descent.Balance
import Calculator.Proofs.Scan.Scanner

/-!
# How far a descent scans

To read an expression takes so many scans as lead from its first token to the one behind it, and
each use that is made of a token, be it only to pass over it, takes one of them
(`Descent.parse_progresses`). Behind the end of the source nothing is due, so that no scan is made
there, in whatever place the end comes into view. What nothing is reported of has been scanned up to
the end.
-/

namespace Calculator.Descent

variable {d d' : Descent} {uses : List (Use × Token)} {results : List (Except ScanError Token)}

/-- In reading an expression the scans had the results, and the uses were made of tokens. -/
structure Progresses (d d' : Descent) (uses : List (Use × Token))
    (results : List (Except ScanError Token)) : Prop where
  uses_eq : d'.uses = d.uses ++ uses
  scans_eq : d'.scans = d.scans ++ results
  /-- The results are the first of those up to the end of the source. -/
  results_prefix : results <+: (TokenStream.ofCursor d.cursor).results 0
  /-- Behind the end of the source no scan is made. -/
  not_isEnd : ∀ r ∈ results.dropLast, Cursor.isEnd r = false
  /-- Each use takes one of the tokens scanned, and the one behind them is in view. -/
  tokens_eq : results.filterMap Except.toOption = uses.map Prod.snd ++ [d'.current]
  /-- The use is one that can be made of the token. -/
  fits : ∀ u ∈ uses, u.1.fits u.2.kind = true

/-- In front of the last of the results up to the end of a source there is no end. -/
theorem isEnd_eq_false_of_mem_dropLast {c : Cursor}
    (h : results <+: (TokenStream.ofCursor c).results 0) :
    ∀ r ∈ results.dropLast, Cursor.isEnd r = false := by
  intro r hr
  refine TokenStream.isEnd_eq_false_of_mem_ahead (c := c) ?_
  rcases List.prefix_concat_iff.1 h with heq | hprefix
  · rwa [heq, List.dropLast_concat] at hr
  · exact hprefix.subset (List.dropLast_subset _ hr)

/-- Reading an expression ends, with results of scans that are up to the end of the source together
with those still due. -/
theorem exists_progress (h : d.depth = 0) :
    ∃ d' uses results, d.parse = some (d.reading.parse.1, d') ∧
      d'.reading = d.reading.parse.2 ∧ d'.depth = 0 ∧ d.Progresses d' uses results ∧
      d.future = results ++ d'.due := by
  obtain ⟨d₁, d', hparse, hreading, hdepth, hscans, hleads⟩ := exists_parse h
  obtain ⟨first, hfirst, hfuture, htokens⟩ := hscans.scans
  obtain ⟨uses, others, hconsumes⟩ := hleads.consumes
  have hall : d.future = (first ++ others) ++ d'.due := by
    rw [hfuture, hconsumes.due_eq, List.append_assoc]
  have hprefix : first ++ others <+: (TokenStream.ofCursor d.cursor).results 0 := ⟨_, hall.symm⟩
  refine ⟨d', uses, first ++ others, hparse, hreading, hdepth, ⟨?_, ?_, hprefix,
    isEnd_eq_false_of_mem_dropLast hprefix, ?_, hconsumes.fits⟩, hall⟩
  · rw [hconsumes.uses_eq, hscans.uses]
  · rw [hconsumes.scans_eq, hfirst, List.append_assoc]
  · rw [List.filterMap_append, htokens, List.singleton_append, hconsumes.tokens_eq]

/-- A source that is read without a report has been read to its end. -/
theorem kind_current_of_parse {source : String}
    (h : (Reading.ofString source).parse.2.diagnostics.toList = []) :
    (Reading.ofString source).parse.2.current.kind = .endOfInput := by
  have hfailed := (Reading.failed_parse_eq_false_iff source).2 h
  have hend := (Reading.errors_eq_nil_of_parse hfailed).2
  rw [Reading.parse_eq, Reading.finish, if_pos hend]
  simpa [Reading.atEnd] using hend

/-- Reading an expression ends, whatever is ahead and whatever has been wrong. Each operator,
parenthesis and literal in it, and each token that is passed over in it, takes a token of its own,
and behind the end of the source no scan is made. So the first expression of a source takes as many
scans as there are up to the end of the source at most, which are no more than one for each
character and one for the end, and exactly as many if nothing is reported. -/
theorem parse_progresses :
    (∀ d : Descent, d.depth = 0 → ∃ d' uses results, d.parse = some (d.reading.parse.1, d') ∧
      d'.reading = d.reading.parse.2 ∧ d'.depth = 0 ∧ d.Progresses d' uses results) ∧
    ∀ source : String, ∃ d, (ofString source).parse = some ((Reading.ofString source).parse.1, d) ∧
      d.reading = (Reading.ofString source).parse.2 ∧
      d.scans.length ≤ ((TokenStream.ofString source).results 0).length ∧
      ((TokenStream.ofString source).results 0).length ≤ source.length + 1 ∧
      (d.diagnostics.toList = [] → d.scans = (TokenStream.ofString source).results 0) := by
  refine ⟨fun d h => ?_, fun source => ?_⟩
  · obtain ⟨d', uses, results, hparse, hreading, hdepth, hprogress, -⟩ := exists_progress h
    exact ⟨d', uses, results, hparse, hreading, hdepth, hprogress⟩
  · obtain ⟨d, uses, results, hparse, hreading, -, hprogress, hfuture⟩ :=
      exists_progress (d := ofString source) rfl
    have hscans : d.scans = results := hprogress.scans_eq
    refine ⟨d, hparse, hreading, ?_, ?_, fun hreports => ?_⟩
    · rw [hscans]
      exact hprogress.results_prefix.length_le
    · rw [TokenStream.results, List.length_append, List.length_replicate]
      exact Nat.succ_le_succ (TokenStream.length_ahead_le (.ofString source))
    · have hreading' : d.reading = (Reading.ofString source).parse.2 := hreading
      have hkind : d.reading.current.kind = .endOfInput := by
        rw [hreading']
        exact kind_current_of_parse (hreading' ▸ hreports)
      rw [due_of_atEnd hkind, List.append_nil] at hfuture
      rw [hscans, ← hfuture]
      rfl

/-- In `(1 + ) #` the parenthesis is passed over where an operand is missing, and none is left for
the one that is due at the end. In `(1 + 2)` nothing is wrong: its five tokens and the end are
scanned. -/
theorem parse_progresses_two_sources :
    let wrong := ofString "(1 + ) #"
    let right := ofString "(1 + 2)"
    (wrong.depth = 0 ∧ ∃ d uses results, wrong.parse = some (wrong.reading.parse.1, d) ∧
      d.failed = true ∧ wrong.Progresses d uses results) ∧
    ∃ d, right.parse = some (right.reading.parse.1, d) ∧ d.diagnostics.toList = [] ∧
      d.scans.length = 6 := by
  intro wrong right
  obtain ⟨d, uses, results, hparse, hreading, -, hprogress⟩ := parse_progresses.1 wrong rfl
  have hfailed : wrong.reading.parse.2.failed = true := by decide +kernel
  obtain ⟨d', hparse', hreading', -, -, hscans⟩ := parse_progresses.2 "(1 + 2)"
  have hreports : (Reading.ofString "(1 + 2)").parse.2.diagnostics.toList = [] := by decide +kernel
  have hlength : ((TokenStream.ofString "(1 + 2)").results 0).length = 6 := by decide +kernel
  have hreports' : d'.diagnostics.toList = [] :=
    (congrArg (fun r => r.diagnostics.toList) hreading').trans hreports
  exact ⟨⟨rfl, d, uses, results, hparse, (congrArg Reading.failed hreading).trans hfailed,
    hprogress⟩, d', hparse', hreports', by rw [hscans hreports', hlength]⟩

end Calculator.Descent
