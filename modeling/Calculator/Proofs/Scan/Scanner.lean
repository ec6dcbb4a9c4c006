import Mathlib.Data.List.Induction
import Calculator.Proofs.Scan.Buffer
import Calculator.Proofs.Scan.Tiling
import Calculator.Proofs.Scan.Tokens

/-!
# The scans of a scanner

A scan of a scanner yields what the scan from a cursor yields that stands at the same place, and
leaves the scanner where that leaves the cursor (`Scanner.Stands.scan`). As in the scan from a
cursor, the source is divided into the gap that it starts with and what is behind it. A scan passes
over the gap piece by piece, and the pass behind it has the result.

So the forms in which a scanner keeps its place agree after any number of scans, every scan gets
further up to the end of the source, and none of them fails (`Scanner.scans_sound`).
-/

namespace Calculator

/-! ## Lines and columns -/

namespace Position

/-- Behind a text there are as many more lines as it has newlines. -/
theorem line_advance (p : Position) (cs : List Char) :
    (p.advance cs).line = p.line + cs.count '\n' := by
  induction cs generalizing p with
  | nil => rfl
  | cons c cs ih =>
    rw [advance_cons, ih, after]
    by_cases hc : c = '\n'
    · rw [if_pos hc, hc, List.count_cons_self, Nat.add_right_comm, Nat.add_assoc]
    · rw [if_neg hc, List.count_cons_of_ne hc]

/-- The column behind a text is counted from its last newline. -/
theorem column_advance_start (cs : List Char) :
    (start.advance cs).column = (cs.reverse.takeWhile (· ≠ '\n')).length + 1 := by
  induction cs using List.reverseRecOn with
  | nil => rfl
  | append_singleton cs c ih =>
    rw [advance_append, List.reverse_append]
    change ((start.advance cs).after c).column = ((c :: cs.reverse).takeWhile _).length + 1
    unfold after
    by_cases hc : c = '\n'
    · rw [if_pos hc, List.takeWhile_cons_of_neg (by simpa using hc)]
      rfl
    · rw [if_neg hc, List.takeWhile_cons_of_pos (by simpa using hc), List.length_cons, ← ih]

/-- Line and column behind a text sum up to its length at most, counted from the start. -/
theorem line_add_column_le (cs : List Char) :
    (start.advance cs).line + (start.advance cs).column ≤ cs.length + 2 := by
  induction cs using List.reverseRecOn with
  | nil => exact Nat.le_refl _
  | append_singleton cs c ih =>
    have hcolumn : 1 ≤ (start.advance cs).column := by
      rw [column_advance_start]
      exact Nat.le_add_left _ _
    have hafter := line_add_column_after_le (start.advance cs) c hcolumn
    rw [advance_append, List.length_append, List.length_singleton]
    change ((start.advance cs).after c).line + ((start.advance cs).after c).column ≤ _
    omega

end Position

/-- What is read at a cursor in front of a character depends on the class of that. -/
theorem Cursor.token_cons (c : Char) (cs : List Char) (p : Position) :
    token ⟨c :: cs, p⟩ =
      if Character.isDigit c then
        (.ok (.number ((c :: cs).takeWhile Character.isDigit) p),
          dropWhile Character.isDigit ⟨c :: cs, p⟩)
      else if Character.isLetter c then
        (.ok (.word ((c :: cs).takeWhile Character.isWordPart) p),
          dropWhile Character.isWordPart ⟨c :: cs, p⟩)
      else
        match TokenKind.ofPunctuation? c with
        | some kind => (.ok (.punctuation kind c p), ⟨cs, p.after c⟩)
        | none => (.error (.unexpectedCharacter p c), ⟨cs, p.after c⟩) := rfl

namespace Scanner

variable {source : String} {front piece rest body : List Char} {s : Scanner} {c : Char}

/-! ## A pass through the loop -/

/-- The scanner stands in the source where the cursor does. -/
inductive Stands (source : String) : Cursor → Scanner → Prop where
  | mk {front piece rest : List Char} {s : Scanner} (reads : s.Reads source front piece rest) :
    Stands source ⟨rest, Position.start.advance (front ++ piece)⟩ s

/-- Before the first character a scanner and a cursor stand at the same place. -/
theorem stands_ofString (source : String) :
    (ofString source).Stands source (Cursor.ofString source) :=
  .mk (reads_ofString source)

/-- A scanner stands where a cursor does that was at the start of the token and has moved over what
was consumed of it. -/
theorem Reads.stands (h : s.Reads source front piece rest) :
    s.Stands source ⟨rest, (Position.start.advance front).advance piece⟩ := by
  rw [← Position.advance_append]
  exact .mk h

/-- Behind the first character of a token, a pass reads what is read at a cursor in front of it. -/
theorem Reads.passFrom (h : s.Reads source front [c] rest) (hbare : Layout.IsBare (c :: rest)) :
    ∃ s', s.passFrom c =
        some (.done (Cursor.token ⟨c :: rest, Position.start.advance front⟩).1, s') ∧
      s'.Stands source (Cursor.token ⟨c :: rest, Position.start.advance front⟩).2 := by
  -- A punctuation character, which is neither a digit nor a letter, is the whole of its token.
  have hpunctuation : ∀ {kind : TokenKind} {s' : Scanner}, s'.Reads source front [c] rest →
      TokenKind.ofPunctuation? c = some kind →
      (s'.token? kind).map (fun t => (Pass.done (.ok t), s')) =
        some (.done (Cursor.token ⟨c :: rest, Position.start.advance front⟩).1, s') ∧
      s'.Stands source (Cursor.token ⟨c :: rest, Position.start.advance front⟩).2 := by
    intro kind s' h' hkind
    have hmem : c ∈ ['(', ')', '+', '-', '*', '/'] := by
      by_contra hmem
      rw [Cursor.ofPunctuation?_eq_none hmem] at hkind
      cases hkind
    have hclasses : Character.isDigit c = false ∧ Character.isLetter c = false := by
      simp only [List.mem_cons, List.not_mem_nil, or_false] at hmem
      rcases hmem with rfl | rfl | rfl | rfl | rfl | rfl <;> decide
    rw [Cursor.token_punctuation hclasses.1 hclasses.2 hkind, h'.token?]
    exact ⟨rfl, h'.stands⟩
  unfold Scanner.passFrom
  split
  · next hslash =>
    subst hslash
    -- Otherwise a comment would start here, which is layout.
    have hline : ∀ ds, rest ≠ '/' :: ds := by
      rintro ds rfl
      exact hbare
    have hblock : ∀ ds, rest ≠ '*' :: ds := by
      rintro ds rfl
      exact hbare
    obtain ⟨s₁, hexpect₁, h₁⟩ := h.expect_ne hline
    obtain ⟨s₂, hexpect₂, h₂⟩ := h₁.expect_ne hblock
    unfold Scanner.passSlash
    simp only [hexpect₁, hexpect₂]
    exact ⟨s₂, hpunctuation h₂ rfl⟩
  · split
    · next kind hkind => exact ⟨s, hpunctuation h hkind⟩
    · next hkind =>
      rw [Cursor.token_cons, hkind]
      split
      · next hdigit =>
        rw [h.number? hdigit]
        exact ⟨_, rfl, (h.run hdigit).stands⟩
      · split
        · next hletter =>
          have hpart : Character.isWordPart c = true := by
            rw [Character.isWordPart, hletter, Bool.true_or]
          rw [h.word? hpart]
          exact ⟨_, rfl, (h.run hpart).stands⟩
        · rw [h.startPos]
          exact ⟨s, rfl, h.stands⟩

namespace Reads

/-- At the end of the source a pass finds it. -/
theorem pass_nil (h : s.Reads source front piece []) :
    ∃ s' : Scanner, s'.Reads source (front ++ piece) [] [] ∧
      s.pass =
        some (.done (.ok (.endOfInput (Position.start.advance (front ++ piece)))), s') := by
  have hskip := h.skipBlanks_of_head nofun
  refine ⟨_, hskip, ?_⟩
  unfold Scanner.pass
  dsimp only
  rw [if_pos (hskip.atEnd_iff.2 rfl), hskip.token?]
  rfl

/-- In front of a character that is no blank a pass consumes it as the first one of a token. -/
theorem pass_cons (h : s.Reads source front piece (c :: rest))
    (hblank : Character.isBlank c = false) :
    ∃ s' : Scanner, s'.Reads source (front ++ piece) [c] rest ∧ s.pass = s'.passFrom c := by
  have hskip := h.skipBlanks_of_head fun d hd => by
    rwa [← Option.some_inj.1 hd]
  obtain ⟨s', hconsume, h'⟩ := hskip.consume
  refine ⟨s', h', ?_⟩
  have hend : ¬ s.skipBlanks.atEnd = true := fun hend =>
    List.cons_ne_nil _ _ (hskip.atEnd_iff.1 hend)
  unfold Scanner.pass
  dsimp only
  rw [if_neg hend, hconsume]

/-- Behind two slashes a pass skips the line. -/
theorem pass_slashes (h : s.Reads source front piece ('/' :: '/' :: rest)) :
    ∃ s' : Scanner, s'.Reads source (front ++ piece) ['/', '/'] rest ∧
      s.pass = some (.again, s'.skipLine) := by
  obtain ⟨s₁, h₁, hpass⟩ := h.pass_cons (by decide)
  obtain ⟨s₂, hexpect, h₂⟩ := h₁.expect
  refine ⟨s₂, h₂, ?_⟩
  rw [hpass, Scanner.passFrom, if_pos rfl, Scanner.passSlash, hexpect]

/-- Behind a slash and a star a pass skips the block comment. -/
theorem pass_opening (h : s.Reads source front piece ('/' :: '*' :: rest)) :
    ∃ s' : Scanner, s'.Reads source (front ++ piece) ['/', '*'] rest ∧
      s.pass = some (.ofComment (s'.skipBlockComment 1).1, (s'.skipBlockComment 1).2) := by
  obtain ⟨s₁, h₁, hpass⟩ := h.pass_cons (by decide)
  obtain ⟨s₂, hline, h₂⟩ := h₁.expect_ne (c := '/') nofun
  obtain ⟨s₃, hblock, h₃⟩ := h₂.expect
  refine ⟨s₃, h₃, ?_⟩
  rw [hpass, Scanner.passFrom, if_pos rfl, Scanner.passSlash, hline]
  dsimp only
  rw [hblock]

end Reads

/-! ## A scan -/

namespace Stands

/-- A scan goes on behind a piece of layout. -/
theorem scan_piece {x : List Char} {p : Position} (hx : Layout.Piece x)
    (h : s.Stands source ⟨x ++ rest, p⟩) :
    ∃ s' : Scanner, s.scan = s'.scan ∧ s'.Stands source ⟨rest, p.advance x⟩ := by
  obtain @⟨front, piece, _, _, hreads⟩ := h
  cases hx with
  | @blank c isBlank =>
    obtain ⟨s₁, hpeek, s₂, hconsume, h₂⟩ := hreads.peek_consume
    have hskip : s.skipWhile Character.isBlank = s₂.skipWhile Character.isBlank := by
      rw [skipWhile_of_peek_ok hpeek, if_pos isBlank, hconsume]
    -- A pass starts with skipping all the blanks, so it is the same one behind the first of them.
    have hpass : s.pass = s₂.pass := by
      unfold Scanner.pass Scanner.skipBlanks
      rw [hskip]
    have hstands : s₂.Stands source ⟨rest, Position.start.advance (front ++ (piece ++ [c]))⟩ :=
      .mk h₂
    rw [← List.append_assoc, Position.advance_append] at hstands
    exact ⟨s₂, scan_congr hpass, hstands⟩
  | @line body noNewline =>
    -- The newline belongs to the comment, not to what is behind it.
    have hreads' : s.Reads source front piece ('/' :: '/' :: (body ++ '\n' :: rest)) := by
      simpa using hreads
    obtain ⟨s', h', hpass⟩ := hreads'.pass_slashes
    exact ⟨_, scan_of_again hpass, (h'.skipLine noNewline).stands⟩
  | @block body closes =>
    obtain ⟨s', h', hpass⟩ := hreads.pass_opening
    obtain ⟨s'', hskip, h''⟩ := h'.skipBlockComment Nat.one_pos closes
    have hskip' : s'.skipBlockComment 1 = (.ok (), s'') := hskip
    rw [hskip'] at hpass
    exact ⟨s'', scan_of_again hpass, h''.stands⟩

/-- A scan goes on behind a gap. -/
theorem scan_gap {gap : List Char} {p : Position} (hgap : Layout.IsGap gap)
    (h : s.Stands source ⟨gap ++ rest, p⟩) :
    ∃ s' : Scanner, s.scan = s'.scan ∧ s'.Stands source ⟨rest, p.advance gap⟩ := by
  induction hgap generalizing s p with
  | nil => exact ⟨s, rfl, h⟩
  | append isPiece _ ih =>
    rw [List.append_assoc] at h
    obtain ⟨s₁, hscan₁, h₁⟩ := h.scan_piece isPiece
    obtain ⟨s₂, hscan₂, h₂⟩ := ih h₁
    rw [← Position.advance_append] at h₂
    exact ⟨s₂, hscan₁.trans hscan₂, h₂⟩

/-- Where no layout starts a scan reads what is read at the cursor. -/
theorem scan_bare {p : Position} (hbare : Layout.IsBare rest) (h : s.Stands source ⟨rest, p⟩) :
    ∃ s' : Scanner, s.scan = some ((Cursor.token ⟨rest, p⟩).1, s') ∧
      s'.Stands source (Cursor.token ⟨rest, p⟩).2 := by
  obtain ⟨hreads⟩ := h
  cases rest with
  | nil =>
    obtain ⟨s', h', hpass⟩ := hreads.pass_nil
    exact ⟨s', scan_of_done hpass, h'.stands⟩
  | cons c cs =>
    obtain ⟨s₁, h₁, hpass⟩ := hreads.pass_cons hbare.isBlank_eq_false
    obtain ⟨s₂, hfrom, h₂⟩ := h₁.passFrom hbare
    exact ⟨s₂, scan_of_done (hpass.trans hfrom), h₂⟩

/-- Behind a line comment without a newline a scan finds the end of the source. -/
theorem scan_openLine {p : Position} (hbody : '\n' ∉ body)
    (h : s.Stands source ⟨'/' :: '/' :: body, p⟩) :
    ∃ s' : Scanner, s.scan = some (.ok (.endOfInput (p.advance ('/' :: '/' :: body))), s') ∧
      s'.Stands source ⟨[], p.advance ('/' :: '/' :: body)⟩ := by
  obtain ⟨hreads⟩ := h
  obtain ⟨s₁, h₁, hpass₁⟩ := hreads.pass_slashes
  obtain ⟨s₂, h₂, hpass₂⟩ := (h₁.skipLine_open hbody).pass_nil
  have hstands := h₂.stands
  rw [Position.advance_nil, Position.advance_append] at hstands
  rw [Position.advance_append] at hpass₂
  exact ⟨s₂, (scan_of_again hpass₁).trans (scan_of_done hpass₂), hstands⟩

/-- A block comment that is never closed is an error, behind which the source has ended. -/
theorem scan_unterminated {p : Position} (hbody : Mark.NeverCloses 1 (Mark.ofText body))
    (h : s.Stands source ⟨'/' :: '*' :: body, p⟩) :
    ∃ s' : Scanner, s.scan = some (.error (.unterminatedComment p), s') ∧
      s'.Stands source ⟨[], p.advance ('/' :: '*' :: body)⟩ := by
  obtain ⟨hreads⟩ := h
  obtain ⟨s₁, h₁, hpass⟩ := hreads.pass_opening
  obtain ⟨s₂, hskip, h₂⟩ := h₁.skipBlockComment_open Nat.one_pos hbody
  have hskip' : s₁.skipBlockComment 1 = _ := hskip
  rw [hskip'] at hpass
  exact ⟨s₂, scan_of_done hpass, h₂.stands⟩

/-- A scan yields what the scan from a cursor at the same place yields, and both are then at the
same place again. -/
theorem scan {c : Cursor} (h : s.Stands source c) :
    ∃ s' : Scanner, s.scan = some (c.scan.1, s') ∧ s'.Stands source c.scan.2 := by
  obtain ⟨cs, p⟩ := c
  obtain ⟨gap, rest, rfl, hgap, hstops⟩ := Layout.exists_gap cs
  obtain ⟨s₁, hscan, h₁⟩ := h.scan_gap hgap
  rw [hscan]
  cases hstops with
  | bare isBare =>
    rw [Cursor.scan_gap hgap isBare]
    exact h₁.scan_bare isBare
  | openLine noNewline =>
    rw [Cursor.scan_lastGap (.openLine hgap noNewline), Position.advance_append]
    exact h₁.scan_openLine noNewline
  | unterminated never =>
    rw [Cursor.scan_unterminated hgap never, Position.advance_append]
    exact h₁.scan_unterminated never

end Stands

/-! ## The place of a scanner -/

/-- The scanner stands in the source behind `passed`, and the forms in which it keeps this place
agree. -/
structure Sound (source passed : String) (s : Scanner) : Prop where
  input : s.input = source
  /-- One character at most was looked at. -/
  peek2 : s.peek2 = none
  /-- That character and what the iterator yields are what was not consumed. -/
  text : source = passed ++ String.ofList (s.peek1.toList ++ s.chars)
  /-- The offset is that of the first byte that was not consumed. -/
  currentIndex : s.currentIndex = passed.rawEndPos
  start_le : s.startIndex ≤ s.currentIndex
  current_le : s.currentIndex ≤ source.rawEndPos
  /-- The token starts at the boundary of a character. -/
  isValid_start : s.startIndex.IsValid source
  /-- What was consumed ends at the boundary of a character. -/
  isValid_current : s.currentIndex.IsValid source
  /-- Lines are counted from one by the newlines consumed. -/
  line : s.currentPos.line = passed.toList.count '\n' + 1
  /-- Columns are counted from one by the characters consumed behind the last newline. -/
  column : s.currentPos.column = (passed.toList.reverse.takeWhile (· ≠ '\n')).length + 1
  line_add_column_le : s.currentPos.line + s.currentPos.column ≤ passed.length + 2

/-- A scanner stands behind what lies in front of its token and what was consumed of that. -/
theorem Reads.sound (h : s.Reads source front piece rest) :
    s.Sound source (String.ofList (front ++ piece)) := by
  have htext : source = String.ofList (front ++ piece) ++ String.ofList rest := by
    rw [← String.ofList_append, ← h.text, String.ofList_toList]
  have hstart : source =
      String.ofList front ++ (String.ofList piece ++ String.ofList rest) := by
    rw [htext, String.ofList_append, String.append_assoc]
  refine ⟨h.input, h.peek2, ?_, h.currentIndex, ?_, ?_, ?_, ?_, ?_, ?_, ?_⟩
  · rw [h.buffer]
    exact htext
  · rw [h.startIndex, h.currentIndex, String.ofList_append]
    exact rawEndPos_le_append _ _
  · rw [h.currentIndex, htext]
    exact rawEndPos_le_append _ _
  · rw [h.startIndex]
    exact String.Pos.Raw.isValid_iff_exists_append.2 ⟨_, _, hstart, rfl⟩
  · rw [h.currentIndex]
    exact String.Pos.Raw.isValid_iff_exists_append.2 ⟨_, _, htext, rfl⟩
  · rw [h.currentPos, Position.line_advance, String.toList_ofList, Nat.add_comm]
    rfl
  · rw [h.currentPos, Position.column_advance_start, String.toList_ofList]
  · rw [h.currentPos, String.length_ofList]
    exact Position.line_add_column_le _

namespace Stands

variable {d : Cursor} {s' : Scanner} {k : Cursor}

/-- The place of a scanner is one in the source. -/
theorem exists_sound (h : s.Stands source k) : ∃ passed, s.Sound source passed := by
  obtain ⟨hreads⟩ := h
  exact ⟨_, hreads.sound⟩

/-- With less left of the source a scanner stands further on in its bytes. -/
theorem currentIndex_lt (h : s.Stands source k) (h' : s'.Stands source d)
    (hlt : d.rest.length < k.rest.length) : s.currentIndex < s'.currentIndex := by
  obtain @⟨front, piece, rest, _, hreads⟩ := h
  obtain @⟨front', piece', rest', _, hreads'⟩ := h'
  have hlength := congrArg List.length (hreads.text.symm.trans hreads'.text)
  simp only [List.length_append] at hlength hlt
  -- What was consumed at the first place is the front part of what was consumed at the second.
  have hprefix : front ++ piece <+: front' ++ piece' :=
    List.prefix_of_prefix_length_le ⟨rest, hreads.text.symm⟩ ⟨rest', hreads'.text.symm⟩
      (by simp only [List.length_append]; omega)
  obtain ⟨more, hmore⟩ := hprefix
  have hne : String.ofList more ≠ "" := by
    rw [Ne, String.ofList_eq_empty_iff]
    rintro rfl
    have := congrArg List.length hmore
    simp only [List.length_append, List.length_nil] at this
    omega
  have hpos : 0 < (String.ofList more).utf8ByteSize :=
    Nat.pos_of_ne_zero (mt String.utf8ByteSize_eq_zero_iff.1 hne)
  have hsize : (String.ofList (front ++ piece ++ more)).utf8ByteSize =
      (String.ofList (front ++ piece)).utf8ByteSize + (String.ofList more).utf8ByteSize := by
    rw [String.ofList_append, String.utf8ByteSize_append]
  rw [hreads.currentIndex, hreads'.currentIndex, ← hmore, String.Pos.Raw.lt_iff]
  change _ < (String.ofList (front ++ piece ++ more)).utf8ByteSize
  rw [hsize]
  exact Nat.lt_add_of_pos_right hpos

/-- A scan that does not find the end of the source gets further on, and one that does stands at the
end of the source. -/
theorem scan_progress (h : s.Stands source k) :
    ∃ (r : Except ScanError Token) (s' : Scanner), s.scan = some (r, s') ∧
      r ≠ .error .unexpectedEnd ∧
      (r = .ok (.endOfInput s'.currentPos) ∧ s'.currentIndex = source.rawEndPos ∨
        s.currentIndex < s'.currentIndex) := by
  obtain ⟨s', hscan, h'⟩ := h.scan
  cases hend : Cursor.isEnd k.scan.1 with
  | true =>
    obtain ⟨hresult, hrest⟩ := Cursor.scan_of_isEnd hend
    rw [hresult] at hscan
    generalize k.scan.2 = d at hscan hrest h'
    obtain ⟨hreads⟩ := h'
    refine ⟨_, s', hscan, nofun, .inl ⟨by rw [hreads.currentPos], ?_⟩⟩
    rw [hreads.currentIndex]
    have htext := hreads.text
    simp only at hrest
    rw [hrest, List.append_nil] at htext
    rw [← htext, String.ofList_toList]
  | false =>
    refine ⟨_, s', hscan, ?_, .inr (h.currentIndex_lt h' (Cursor.length_scan_lt hend))⟩
    rcases Cursor.scan_fst_of_not_isEnd hend with ⟨t, ht, -⟩ | ⟨e, he, hne⟩
    · rw [ht]
      exact nofun
    · rw [he]
      exact fun heq => hne (Except.error.inj heq)

/-- Scans one after the other yield what the scans from a cursor yield. -/
theorem scans (times : ℕ) (h : s.Stands source k) :
    ∃ (s' : Scanner) (d : Cursor), s.scans times = some (k.scans times, s') ∧
      s'.Stands source d := by
  induction times generalizing s k with
  | zero => exact ⟨s, k, rfl, h⟩
  | succ times ih =>
    obtain ⟨s₁, hscan, h₁⟩ := h.scan
    obtain ⟨s₂, d, hscans, h₂⟩ := ih h₁
    refine ⟨s₂, d, ?_, h₂⟩
    rw [Scanner.scans, hscan]
    dsimp only
    rw [hscans]
    rfl

end Stands

end Scanner

/-- Every result in front of the end of a source takes up a character of it at least. -/
theorem TokenStream.length_ahead_le (c : Cursor) : (ofCursor c).ahead.length ≤ c.rest.length := by
  fun_induction ofCursor c with
  | case1 => exact Nat.zero_le _
  | case2 c h ih => exact Nat.lt_of_le_of_lt ih (Cursor.length_scan_lt (by simpa using h))

/-- After any number of scans of a source the forms in which the scanner keeps its place agree, and
the results are those of the scans from a cursor. The next scan has a result again, which is not
that the source has ended unexpectedly; it finds the end of the source and stands there, or else it
gets further on in the bytes of the source. So the end is found behind as many results as the source
has characters at most, and from there on it is found again and again. -/
theorem Scanner.scans_sound (source : String) :
    (∀ times, ∃ rs s, (ofString source).scans times = some (rs, s) ∧
      rs = (Cursor.ofString source).scans times ∧ (∃ passed, s.Sound source passed) ∧
      ∃ (r : Except ScanError Token) (s' : Scanner), s.scan = some (r, s') ∧
        r ≠ .error .unexpectedEnd ∧
        (r = .ok (.endOfInput s'.currentPos) ∧ s'.currentIndex = source.rawEndPos ∨
          s.currentIndex < s'.currentIndex)) ∧
    ∃ rs : List (Except ScanError Token), rs.length ≤ source.length ∧
      (∀ r ∈ rs, Cursor.isEnd r = false) ∧
      ∀ times, ∃ s, (ofString source).scans (rs.length + times) =
        some (rs ++ List.replicate times
          (.ok (.endOfInput (Position.start.advance source.toList))), s) := by
  have hstart := stands_ofString source
  constructor
  · intro times
    obtain ⟨s, d, hscans, h⟩ := hstart.scans times
    exact ⟨_, s, hscans, rfl, h.exists_sound, h.scan_progress⟩
  · obtain ⟨rs, hrs⟩ := Tiles.exists_tiles source.toList .start
    have hstream : TokenStream.ofCursor (Cursor.ofString source) =
        ⟨rs, .endOfInput (Position.start.advance source.toList)⟩ := hrs.ofCursor_eq
    refine ⟨rs, ?_, fun r hr => ?_, fun times => ?_⟩
    · have hle := TokenStream.length_ahead_le (Cursor.ofString source)
      rwa [hstream] at hle
    · exact TokenStream.isEnd_eq_false_of_mem_ahead (c := Cursor.ofString source) (by rwa [hstream])
    · obtain ⟨s, d, hscans, -⟩ := hstart.scans (rs.length + times)
      have hresults := Cursor.scans_eq (Cursor.ofString source) times
      rw [hstream] at hresults
      exact ⟨s, by rw [hscans, hresults]⟩

end Calculator
