import Mathlib.Data.Nat.Notation
import Calculator.ParseTree.Descent
import Calculator.Proofs.Scan.Tokens

/-!
# The scans of a descent

Scanning up to the next token ends, since each error in front of it takes up a part of the source.
For the reading it is the next token of the stream that comes into view (`Descent.exists_advance`).

The results of the scans are those of scanning up to the end of the source, one after the other
(`Descent.future`). With the end in view there are none left, though a scan there would give the end
again, so it is what is due (`Descent.due`) that the results are taken from: everything up to the
end as long as the end is not in view, and nothing from then on.
-/

namespace Calculator

namespace TokenStream

variable {c : Cursor}

/-- At the end of a source scanning up to the end takes one scan. -/
theorem results_ofCursor_of_isEnd (h : Cursor.isEnd c.scan.1 = true) :
    (ofCursor c).results 0 = [c.scan.1] := by
  rw [ofCursor_of_isEnd h, (Cursor.scan_of_isEnd h).1]
  rfl

/-- In front of the end of a source one scan is made, and then those from behind its result. -/
theorem results_ofCursor_of_not_isEnd (h : Cursor.isEnd c.scan.1 = false) :
    (ofCursor c).results 0 = c.scan.1 :: (ofCursor c.scan.2).results 0 := by
  rw [ofCursor_of_not_isEnd h]
  rfl

/-- Behind the end of a source is the end of it again. -/
theorem ofCursor_scan_of_isEnd (h : Cursor.isEnd c.scan.1 = true) :
    ofCursor c.scan.2 = ⟨[], .endOfInput c.scan.2.pos⟩ := by
  have hscan := Cursor.scan_of_atEnd (Cursor.scan_of_isEnd h).2
  rw [ofCursor_of_isEnd (by rw [hscan]; rfl), hscan]

end TokenStream

namespace Reading

variable {r : Reading} {s : TokenStream} {t : Token} {e : ScanError}

/-- A token that comes next comes into view. -/
theorem advance_of_ok (h : r.stream = s.cons (.ok t)) :
    r.advance = { r with stream := s, current := t } := by
  obtain ⟨stream, current, diagnostics, failed, lost⟩ := r
  subst h
  simp [advance, TokenStream.next, TokenStream.nextOf, TokenStream.cons, Diagnostics.reportAll]

/-- An error that comes next is reported in front of those behind it. -/
theorem advance_of_error (h : r.stream = s.cons (.error e)) (he : e ≠ .unexpectedEnd) :
    r.advance =
      advance { r with
        stream := s
        diagnostics := r.diagnostics.report (.lexical e)
        failed := true } := by
  obtain ⟨stream, current, diagnostics, failed, lost⟩ := r
  subst h
  simp [advance, TokenStream.next, TokenStream.nextOf, TokenStream.cons, Diagnostics.reportAll]

/-- Where nothing is ahead the end comes into view. -/
theorem advance_of_nil (h : r.stream = ⟨[], t⟩) : r.advance = { r with current := t } := by
  obtain ⟨stream, current, diagnostics, failed, lost⟩ := r
  subst h
  simp [advance, TokenStream.next, TokenStream.nextOf, Diagnostics.reportAll]

end Reading

namespace Descent

variable {d d' : Descent} {t : Token} {e : ScanError}

/-- The results of the scans from the cursor to the end of the source. -/
def future (d : Descent) : List (Except ScanError Token) :=
  (TokenStream.ofCursor d.cursor).results 0

/-- The results of the scans that can still be made: with the end of the source in view, none. -/
def due (d : Descent) : List (Except ScanError Token) :=
  if d.current.kind = .endOfInput then [] else d.future

/-- With the end of the source in view nothing is due. -/
theorem due_of_atEnd (h : d.current.kind = .endOfInput) : d.due = [] := if_pos h

/-- With any other token in view everything up to the end is due. -/
theorem due_of_not_atEnd (h : d.current.kind ≠ .endOfInput) : d.due = d.future := if_neg h

/-- From the one state to the other the next token was scanned, and nothing else was done. -/
structure Scans (d d' : Descent) : Prop where
  /-- For the reading the next token comes into view. -/
  reading : d'.reading = d.reading.advance
  depth : d'.depth = d.depth
  active : d'.active = d.active
  moments : d'.moments = d.moments
  uses : d'.uses = d.uses
  /-- The results were the first of those up to the end, and one of them is a token, which is in
  view. -/
  scans : ∃ results, d'.scans = d.scans ++ results ∧ d.future = results ++ d'.due ∧
    results.filterMap Except.toOption = [d'.current]

/-- Behind the end of the source nothing is due. -/
theorem scans_of_isEnd (h : d.cursor.scan.1 = .ok t) (hend : t.kind = .endOfInput) :
    d.Scans { d.scanned with current := t } := by
  have hisEnd : Cursor.isEnd d.cursor.scan.1 = true := by
    rw [h]
    simpa [Cursor.isEnd] using hend
  have ht : t = .endOfInput d.cursor.scan.2.pos :=
    Except.ok.inj (h.symm.trans (Cursor.scan_of_isEnd hisEnd).1)
  refine ⟨?_, rfl, rfl, rfl, rfl, [.ok t], by rw [← h]; rfl, ?_, rfl⟩
  · have hstream := TokenStream.ofCursor_of_isEnd hisEnd
    rw [← ht] at hstream
    have hbehind := TokenStream.ofCursor_scan_of_isEnd hisEnd
    rw [← ht, ← hstream] at hbehind
    rw [Reading.advance_of_nil (r := d.reading) hstream]
    simp only [reading, scanned, hbehind]
  · rw [future, TokenStream.results_ofCursor_of_isEnd hisEnd, h, due_of_atEnd hend]
    rfl

/-- Behind any other token what is up to the end is still due. -/
theorem scans_of_not_isEnd (h : d.cursor.scan.1 = .ok t) (hend : t.kind ≠ .endOfInput) :
    d.Scans { d.scanned with current := t } := by
  have hisEnd : Cursor.isEnd d.cursor.scan.1 = false := by
    rw [h]
    simpa [Cursor.isEnd] using hend
  refine ⟨?_, rfl, rfl, rfl, rfl, [.ok t], by rw [← h]; rfl, ?_, rfl⟩
  · have hstream := TokenStream.ofCursor_of_not_isEnd hisEnd
    rw [h] at hstream
    rw [Reading.advance_of_ok (r := d.reading) hstream]
    rfl
  · rw [future, TokenStream.results_ofCursor_of_not_isEnd hisEnd, h, due_of_not_atEnd hend]
    rfl

/-- What is scanned behind an error is scanned in front of it with the error. -/
theorem Scans.of_error (h : d.cursor.scan.1 = .error e) (he : e ≠ .unexpectedEnd)
    (hd : (d.scanned.scanFault e).Scans d') : d.Scans d' := by
  have hisEnd : Cursor.isEnd d.cursor.scan.1 = false := by
    rw [h]
    rfl
  obtain ⟨results, hscans, hfuture, htokens⟩ := hd.scans
  refine ⟨?_, hd.depth, hd.active, hd.moments, hd.uses, .error e :: results, ?_, ?_, htokens⟩
  · have hstream := TokenStream.ofCursor_of_not_isEnd hisEnd
    rw [h] at hstream
    rw [hd.reading, Reading.advance_of_error (r := d.reading) hstream he]
    rfl
  · rw [hscans, ← h]
    exact List.append_assoc _ _ _
  · rw [future, TokenStream.results_ofCursor_of_not_isEnd hisEnd, h, List.cons_append, ← hfuture]
    rfl

/-- Scanning up to the next token ends. -/
theorem exists_scan (d : Descent) :
    ∃ d', d.scan = some d' ∧ d.Scans d' ∧ d'.previous = d.previous := by
  -- The induction is on what is left of the source, since each error takes up a part of it.
  generalize hc : d.cursor = c
  induction c using TokenStream.ofCursor.induct generalizing d with
  | case1 c hend =>
    have hscan : d.cursor.scan.1 = .ok (.endOfInput c.scan.2.pos) := by
      rw [hc]
      exact (Cursor.scan_of_isEnd hend).1
    exact ⟨_, scan_of_ok hscan, scans_of_isEnd hscan rfl, rfl⟩
  | case2 c hend ih =>
    have hfst := Cursor.scan_fst_of_not_isEnd (Bool.eq_false_iff.2 hend)
    rw [← hc] at hfst ih
    rcases hfst with ⟨t, ht, hscanned⟩ | ⟨e, he, hne⟩
    · exact ⟨_, scan_of_ok ht, scans_of_not_isEnd ht hscanned.kind_ne, rfl⟩
    · obtain ⟨d', hd', hscans, hprevious⟩ := ih (d.scanned.scanFault e) rfl
      rw [scan_of_error he hne]
      exact ⟨d', hd', .of_error he hne hscans, hprevious⟩

/-- The next token always comes into view. -/
theorem exists_advance (d : Descent) :
    ∃ d', d.advance = some d' ∧ d.Scans d' ∧ d'.previous = d.current := by
  obtain ⟨d', hd', hscans, hprevious⟩ := exists_scan { d with previous := d.current }
  exact ⟨d', hd', ⟨hscans.reading, hscans.depth, hscans.active, hscans.moments, hscans.uses,
    hscans.scans⟩, hprevious⟩

end Descent

end Calculator
