import Calculator.Proofs.Scan.Scanner

/-!
# Counters of 32 bits

Lines, columns and open comments are counted without a bound. In a source of fewer than 2³¹ - 1
characters counters of 32 bits hold them wherever a scanner stands (`Scanner.Reads.counters_fit`).

A line or a column is at most the number of characters in front of it and one more. The number of
open comments grows by one at most with each character of a comment. So a block comment is skipped
in the same way if they are counted with 32 bits (`Scanner.skipBlockComment?_eq_some`).
-/

namespace Calculator

/-- Counters of 32 bits hold the line and the column. -/
structure Position.Fits (p : Position) : Prop where
  line : InRange p.line
  column : InRange p.column

/-- In a text of fewer than 2³¹ - 1 characters counters of 32 bits hold every line and column. -/
theorem Position.fits_advance_start {cs : List Char} (h : cs.length < 2147483647) :
    (start.advance cs).Fits := by
  have hsum := line_add_column_le cs
  have hline : 1 ≤ (start.advance cs).line := by
    rw [line_advance]
    exact Nat.le_add_right _ _
  have hcolumn : 1 ≤ (start.advance cs).column := by
    rw [column_advance_start]
    exact Nat.le_add_left _ _
  constructor <;> constructor <;> omega

namespace Scanner

/-- Consumes the rest of a block comment as `skipBlockComment` does, but counts the open comments
with 32 bits. There is no outcome if their number does not fit. -/
def skipBlockComment? (depth : Int32) (s : Scanner) :
    Option (Except ScanError Unit × Scanner) :=
  match _ : s.consume with
  | (.ok c, s) =>
    match fit? (depth.toInt + (s.delimiter c).1) with
    | none => none
    | some depth =>
      if depth.toInt ≤ 0 then some (.ok (), (s.delimiter c).2)
      else skipBlockComment? depth (s.delimiter c).2
  | (.error _, s) => some (.error (.unterminatedComment s.startPos), s)
termination_by s.size
decreasing_by exact Nat.lt_of_le_of_lt (size_delimiter_le _ _) (size_consume_lt ‹_›)

variable {s : Scanner}

/-- Behind a character one comment more is open at most, or one less. -/
theorem change_delimiter (s : Scanner) (c : Char) :
    -1 ≤ (s.delimiter c).1 ∧ (s.delimiter c).1 ≤ 1 := by
  unfold delimiter
  split
  · split <;> simp
  · split
    · split <;> simp
    · simp

/-- Where no more comments can be opened than 32 bits count, a block comment is skipped in the same
way with such a counter. -/
theorem skipBlockComment?_eq_some {depth : Int32} (hopen : 0 < depth.toInt)
    (h : depth.toInt + s.size ≤ 2147483647) :
    s.skipBlockComment? depth = some (s.skipBlockComment depth.toInt) := by
  fun_induction skipBlockComment? depth s with
  | case1 depth s c s' hs hfit =>
    obtain ⟨hleast, hmost⟩ := s'.change_delimiter c
    have hconsume := size_consume_lt hs
    exact absurd ⟨by omega, by omega⟩ (fit?_eq_none_iff.1 hfit)
  | case2 depth s c s' hs depth' hfit hclosed =>
    rw [skipBlockComment_of_consume_ok hs, ← fit?_eq_some_iff.1 hfit, if_pos hclosed]
  | case3 depth s c s' hs depth' hfit hopen' ih =>
    have hdepth := fit?_eq_some_iff.1 hfit
    -- What was consumed makes up for the comment that can have been opened.
    obtain ⟨-, hmost⟩ := s'.change_delimiter c
    have hconsume := size_consume_lt hs
    have hdelimiter := s'.size_delimiter_le c
    rw [skipBlockComment_of_consume_ok hs, ← hdepth, if_neg hopen']
    exact ih (Int.not_le.1 hopen') (by omega)
  | case4 depth s e s' hs => rw [skipBlockComment_of_consume_error hs]

/-- Wherever a scanner stands in a source of fewer than 2³¹ - 1 characters, counters of 32 bits hold
its lines and columns, and do to skip a block comment. -/
theorem Reads.counters_fit {source : String} {front piece rest : List Char}
    (h : s.Reads source front piece rest) (hlength : source.length < 2147483647) :
    s.startPos.Fits ∧ s.currentPos.Fits ∧ s.skipBlockComment? 1 = some (s.skipBlockComment 1) := by
  have htext : source.length = front.length + piece.length + rest.length := by
    rw [← String.length_toList, h.text, List.length_append, List.length_append]
  have hsize : s.size = rest.length := by
    rw [← h.buffer, size, h.peek2, List.length_append]
    rfl
  refine ⟨?_, ?_, skipBlockComment?_eq_some (by decide) ?_⟩
  · rw [h.startPos]
    exact Position.fits_advance_start (by omega)
  · rw [h.currentPos]
    exact Position.fits_advance_start (by rw [List.length_append]; omega)
  · have hone : (1 : Int32).toInt = 1 := rfl
    omega

end Scanner

end Calculator
