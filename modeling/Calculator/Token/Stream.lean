import Calculator.Token.Scan

/-!
# Token streams

What a source is to its reader: the results of its scans up to the end, tokens and errors alike,
and the end of the source, which can be read any number of times. `TokenStream.next` passes over
the errors in front of a token and hands them out with it.
-/

namespace Calculator

/-- The results of the scans of a source. -/
structure TokenStream where
  /-- The results in front of the end of the source. -/
  ahead : List (Except ScanError Token)
  /-- The end of the source. -/
  ending : Token

namespace TokenStream

/-- The stream with one more result in front. -/
def cons (r : Except ScanError Token) (s : TokenStream) : TokenStream := ⟨r :: s.ahead, s.ending⟩

/-- The results of the scans from a place in a source. -/
def ofCursor (c : Cursor) : TokenStream :=
  if _ : Cursor.isEnd c.scan.1 then ⟨[], .endOfInput c.scan.2.pos⟩
  else (ofCursor c.scan.2).cons c.scan.1
termination_by c.rest.length
decreasing_by exact Cursor.length_scan_lt (by simp_all)

/-- At the end of a source nothing is ahead. -/
theorem ofCursor_of_isEnd {c : Cursor} (h : Cursor.isEnd c.scan.1 = true) :
    ofCursor c = ⟨[], .endOfInput c.scan.2.pos⟩ := by
  rw [ofCursor, dif_pos h]

/-- In front of the end of a source the next result comes first. -/
theorem ofCursor_of_not_isEnd {c : Cursor} (h : Cursor.isEnd c.scan.1 = false) :
    ofCursor c = (ofCursor c.scan.2).cons c.scan.1 := by
  rw [ofCursor, dif_neg (by simp [h])]

/-- The results in front of the end of a source are not its end. -/
theorem isEnd_eq_false_of_mem_ahead {c : Cursor} {r : Except ScanError Token}
    (hr : r ∈ (ofCursor c).ahead) : Cursor.isEnd r = false := by
  fun_induction ofCursor c with
  | case1 => simp at hr
  | case2 c h ih =>
    rcases List.mem_cons.1 hr with rfl | hr
    · simpa using h
    · exact ih hr

/-- A source ends with an end token. -/
theorem exists_ending_ofCursor (c : Cursor) : ∃ p, (ofCursor c).ending = .endOfInput p := by
  fun_induction ofCursor c with
  | case1 => exact ⟨_, rfl⟩
  | case2 _ _ ih => exact ih

/-- The results of the scans of a source. -/
def ofString (source : String) : TokenStream := ofCursor (.ofString source)

/-- The results up to the first token, with the stream behind it: the errors in front of the token,
and the token. An error that says that the source has ended counts as its end. -/
def nextOf (ending : Token) :
    List (Except ScanError Token) → List ScanError × Token × List (Except ScanError Token)
  | [] => ([], ending, [])
  | .ok t :: rest => ([], t, rest)
  | .error .unexpectedEnd :: rest => ([], .endOfInput .start, rest)
  | .error e :: rest =>
    let (errors, t, rest) := nextOf ending rest
    (e :: errors, t, rest)

/-- The errors in front of the next token, the token, and the stream behind it. -/
def next (s : TokenStream) : List ScanError × Token × TokenStream :=
  let (errors, t, ahead) := nextOf s.ending s.ahead
  (errors, t, ⟨ahead, s.ending⟩)

/-- The results of scanning until the end has been read `times + 1` times. -/
def results (s : TokenStream) (times : Nat) : List (Except ScanError Token) :=
  s.ahead ++ List.replicate (times + 1) (.ok s.ending)

end TokenStream

end Calculator
