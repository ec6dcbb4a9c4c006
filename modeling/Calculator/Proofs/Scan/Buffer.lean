import Mathlib.Data.List.TakeWhile
import Calculator.Proofs.Scan.Layout
import Calculator.Token.Scanner

/-!
# What a scanner has in front of it

The forms in which a scanner keeps its place agree with each other (`Scanner.Reads`). The source is
divided into what lies in front of the token, what was consumed of the token, and the rest, which is
the buffer and behind it what the iterator yields. The offsets and positions are those of the ends
of the first two.

Every operation of a scanner consumes a text from the front of the rest and keeps this up: single
characters, runs of characters of a class, lines, and block comments, which are followed mark by
mark. And what was consumed of a token can be sliced out of the source.
-/

namespace Calculator

/-- By how much a mark changes the number of comments that are open. -/
def Mark.change : Mark → ℤ
  | opening => 1
  | closing => -1
  | other => 0

/-- With a comment open in front of it, a mark changes the number of comments that are open. -/
theorem Mark.add_change (m : Mark) {k : ℕ} (hk : 0 < k) :
    (k : ℤ) + m.change = (m.openBehind k : ℕ) := by
  cases m with
  | opening => rfl
  | closing =>
    rw [change, openBehind]
    omega
  | other => exact Int.add_zero _

namespace Scanner

/-- The scanner stands in the source behind `front` and `piece` and in front of `rest`, and the
token starts behind `front`. -/
structure Reads (source : String) (front piece rest : List Char) (s : Scanner) : Prop where
  /-- The source is made up of the three. -/
  text : source.toList = front ++ piece ++ rest
  input : s.input = source
  /-- What was looked at comes in front of what the iterator yields. -/
  buffer : s.peek1.toList ++ s.chars = rest
  /-- One character at most was looked at. -/
  peek2 : s.peek2 = none
  startIndex : s.startIndex = (String.ofList front).rawEndPos
  currentIndex : s.currentIndex = (String.ofList (front ++ piece)).rawEndPos
  startPos : s.startPos = Position.start.advance front
  currentPos : s.currentPos = Position.start.advance (front ++ piece)

/-- The end of a text moves on by the bytes of a character behind it. -/
theorem rawEndPos_concat (cs : List Char) (c : Char) :
    (String.ofList (cs ++ [c])).rawEndPos = (String.ofList cs).rawEndPos + c := by
  have hsize : (String.ofList (cs ++ [c])).utf8ByteSize =
      (String.ofList cs).utf8ByteSize + c.utf8Size := by
    rw [String.ofList_append, String.utf8ByteSize_append, ← String.singleton_eq_ofList,
      String.utf8ByteSize_singleton]
  exact String.Pos.Raw.ext hsize

/-- The end of a text is not behind that of the text with another one behind it. -/
theorem rawEndPos_le_append (front behind : String) :
    front.rawEndPos ≤ (front ++ behind).rawEndPos := by
  rw [String.Pos.Raw.le_iff]
  change front.utf8ByteSize ≤ (front ++ behind).utf8ByteSize
  rw [String.utf8ByteSize_append]
  exact Nat.le_add_right _ _

/-- A text in the middle of a source is sliced out of it. -/
theorem slice?_append {source front piece rest : String} (h : source = front ++ piece ++ rest) :
    slice? source front.rawEndPos (front ++ piece).rawEndPos = some piece := by
  have hfirst : front.rawEndPos.IsValid source :=
    String.Pos.Raw.isValid_iff_exists_append.2
      ⟨front, piece ++ rest, by rw [h, String.append_assoc], rfl⟩
  have hlast : (front ++ piece).rawEndPos.IsValid source :=
    String.Pos.Raw.isValid_iff_exists_append.2 ⟨front ++ piece, rest, h, rfl⟩
  obtain ⟨_, hcopy⟩ := String.copy_slice_eq_iff_splits.2 ⟨front, rest,
    (⟨by rw [h, String.append_assoc], rfl⟩ : (source.pos _ hfirst).Splits front (piece ++ rest)),
    (⟨h, rfl⟩ : (source.pos _ hlast).Splits (front ++ piece) rest)⟩
  unfold slice?
  rw [dif_pos ⟨hfirst, hlast, rawEndPos_le_append front piece⟩, hcopy]

variable {source : String} {front piece rest body : List Char} {s : Scanner} {c : Char}
  {p : Char → Bool}

/-- Before the first character nothing was consumed. -/
theorem reads_ofString (source : String) : (ofString source).Reads source [] [] source.toList where
  text := rfl
  input := rfl
  buffer := rfl
  peek2 := rfl
  startIndex := rfl
  currentIndex := rfl
  startPos := rfl
  currentPos := rfl

namespace Reads

/-! ## Single characters -/

/-- Whether a character comes from the buffer or from the iterator, the scanner moves behind it. -/
theorem moved (h : s.Reads source front piece (c :: rest)) {chars : List Char}
    (hchars : chars = rest) :
    ({ s with chars := chars, peek1 := none, peek2 := none }.moved c).Reads source front
      (piece ++ [c]) rest where
  text := by rw [h.text, List.append_assoc, List.append_assoc, List.append_assoc]; rfl
  input := h.input
  buffer := hchars
  peek2 := rfl
  startIndex := h.startIndex
  currentIndex := by
    change s.currentIndex + c = _
    rw [h.currentIndex, ← List.append_assoc, rawEndPos_concat]
  startPos := h.startPos
  currentPos := by
    change s.currentPos.after c = _
    rw [h.currentPos, ← List.append_assoc, Position.advance_append _ (front ++ piece)]
    rfl

/-- In front of a character it is consumed. -/
theorem consume (h : s.Reads source front piece (c :: rest)) :
    ∃ s', s.consume = (.ok c, s') ∧ s'.Reads source front (piece ++ [c]) rest := by
  have hbuffer := h.buffer
  have hpeek2 := h.peek2
  obtain ⟨input, chars, peek1, peek2, _, _, _, _⟩ := s
  subst hpeek2
  cases peek1 with
  | some d =>
    obtain ⟨rfl, hchars⟩ := List.cons.inj hbuffer
    exact ⟨_, rfl, h.moved hchars⟩
  | none =>
    cases chars with
    | nil => cases hbuffer
    | cons d ds =>
      obtain ⟨rfl, hchars⟩ := List.cons.inj hbuffer
      exact ⟨_, rfl, h.moved hchars⟩

/-- At the end of the source nothing is consumed. -/
theorem consume_nil (h : s.Reads source front piece []) :
    s.consume = (.error .unexpectedEnd, s) := by
  obtain ⟨hpeek1, hchars⟩ := List.append_eq_nil_iff.1 h.buffer
  rw [Option.toList_eq_nil_iff] at hpeek1
  unfold Scanner.consume
  rw [hpeek1, hchars]

/-- In front of a character it is seen, and nothing is consumed. -/
theorem peek (h : s.Reads source front piece (c :: rest)) :
    ∃ s', s.peek = (.ok c, s') ∧ s'.Reads source front piece (c :: rest) := by
  have hbuffer := h.buffer
  unfold Scanner.peek
  split
  · next d _ hpeek1 =>
    rw [hpeek1] at hbuffer
    obtain ⟨rfl, -⟩ := List.cons.inj hbuffer
    exact ⟨s, rfl, h⟩
  · next d ds hpeek1 hchars =>
    rw [hpeek1, hchars] at hbuffer
    obtain ⟨rfl, -⟩ := List.cons.inj hbuffer
    exact ⟨_, rfl, { h with buffer := hbuffer }⟩
  · next hpeek1 hchars =>
    rw [hpeek1, hchars] at hbuffer
    cases hbuffer

/-- At the end of the source nothing is seen. -/
theorem peek_nil (h : s.Reads source front piece []) :
    s.peek = (.error .unexpectedEnd, s) := by
  obtain ⟨hpeek1, hchars⟩ := List.append_eq_nil_iff.1 h.buffer
  rw [Option.toList_eq_nil_iff] at hpeek1
  unfold Scanner.peek
  rw [hpeek1, hchars]

/-- A character that is seen can be consumed. -/
theorem peek_consume (h : s.Reads source front piece (c :: rest)) :
    ∃ s', s.peek = (.ok c, s') ∧ ∃ s'', s'.consume = (.ok c, s'') ∧
      s''.Reads source front (piece ++ [c]) rest := by
  obtain ⟨s', hpeek, h'⟩ := h.peek
  exact ⟨s', hpeek, h'.consume⟩

/-- The expected character is consumed. -/
theorem expect (h : s.Reads source front piece (c :: rest)) :
    ∃ s', s.expect c = (true, s') ∧ s'.Reads source front (piece ++ [c]) rest := by
  obtain ⟨s', hpeek, s'', hconsume, h''⟩ := h.peek_consume
  refine ⟨s'', ?_, h''⟩
  unfold Scanner.expect
  simp only [hpeek, hconsume, if_true]

/-- Any other character is not consumed. -/
theorem expect_ne (h : s.Reads source front piece rest) (hc : ∀ ds, rest ≠ c :: ds) :
    ∃ s', s.expect c = (false, s') ∧ s'.Reads source front piece rest := by
  unfold Scanner.expect
  cases rest with
  | nil => exact ⟨s, by simp only [h.peek_nil], h⟩
  | cons d ds =>
    obtain ⟨s', hpeek, h'⟩ := h.peek
    have hd : d ≠ c := fun hd => hc ds (by rw [hd])
    exact ⟨s', by simp only [hpeek, if_neg hd], h'⟩

/-! ## Runs of characters -/

/-- Skipping the characters of a class consumes all that come first. -/
theorem skipWhile (h : s.Reads source front piece rest) :
    (s.skipWhile p).Reads source front (piece ++ rest.takeWhile p) (rest.dropWhile p) := by
  induction rest generalizing s piece with
  | nil =>
    rw [skipWhile_of_peek_error h.peek_nil]
    simpa using h
  | cons c cs ih =>
    by_cases hc : p c = true
    · obtain ⟨s', hpeek, s'', hconsume, h''⟩ := h.peek_consume
      have hrun := ih h''
      rw [skipWhile_of_peek_ok hpeek, if_pos hc, hconsume, List.takeWhile_cons_of_pos hc,
        List.dropWhile_cons_of_pos hc]
      rwa [List.append_assoc] at hrun
    · obtain ⟨s', hpeek, h'⟩ := h.peek
      rw [skipWhile_of_peek_ok hpeek, if_neg hc, List.takeWhile_cons_of_neg hc,
        List.dropWhile_cons_of_neg hc, List.append_nil]
      exact h'

/-- Skipping a line consumes it with its newline. -/
theorem skipLine (h : s.Reads source front piece (body ++ '\n' :: rest)) (hbody : '\n' ∉ body) :
    s.skipLine.Reads source front (piece ++ (body ++ ['\n'])) rest := by
  induction body generalizing s piece with
  | nil =>
    obtain ⟨s', hpeek, s'', hconsume, h''⟩ := h.peek_consume
    rwa [skipLine_of_peek_ok hpeek, if_pos rfl, hconsume]
  | cons c cs ih =>
    rw [List.mem_cons, not_or] at hbody
    obtain ⟨s', hpeek, s'', hconsume, h''⟩ := h.peek_consume
    have hline := ih h'' hbody.2
    rw [skipLine_of_peek_ok hpeek, if_neg (Ne.symm hbody.1), hconsume]
    rwa [List.append_assoc] at hline

/-- Skipping a line without a newline consumes everything. -/
theorem skipLine_open (h : s.Reads source front piece rest) (hrest : '\n' ∉ rest) :
    s.skipLine.Reads source front (piece ++ rest) [] := by
  induction rest generalizing s piece with
  | nil =>
    rw [skipLine_of_peek_error h.peek_nil]
    simpa using h
  | cons c cs ih =>
    rw [List.mem_cons, not_or] at hrest
    obtain ⟨s', hpeek, s'', hconsume, h''⟩ := h.peek_consume
    have hline := ih h'' hrest.2
    rw [skipLine_of_peek_ok hpeek, if_neg (Ne.symm hrest.1), hconsume]
    rwa [List.append_assoc] at hline

/-! ## Block comments -/

/-- A star behind a slash opens a comment. -/
theorem delimiter_opening (h : s.Reads source front piece ('*' :: rest)) :
    ∃ s', s.delimiter '/' = (1, s') ∧ s'.Reads source front (piece ++ ['*']) rest := by
  obtain ⟨s', hexpect, h'⟩ := h.expect
  refine ⟨s', ?_, h'⟩
  unfold Scanner.delimiter
  rw [if_pos rfl, hexpect]

/-- A slash behind a star closes a comment. -/
theorem delimiter_closing (h : s.Reads source front piece ('/' :: rest)) :
    ∃ s', s.delimiter '*' = (-1, s') ∧ s'.Reads source front (piece ++ ['/']) rest := by
  obtain ⟨s', hexpect, h'⟩ := h.expect
  refine ⟨s', ?_, h'⟩
  unfold Scanner.delimiter
  rw [if_neg (by decide), if_pos rfl, hexpect]

/-- A character that starts no delimiter neither opens nor closes a comment. -/
theorem delimiter_other (h : s.Reads source front piece rest)
    (hopening : ∀ ds, c = '/' → rest ≠ '*' :: ds) (hclosing : ∀ ds, c = '*' → rest ≠ '/' :: ds) :
    ∃ s', s.delimiter c = (0, s') ∧ s'.Reads source front piece rest := by
  unfold Scanner.delimiter
  split
  · next hc =>
    obtain ⟨s', hexpect, h'⟩ := h.expect_ne fun ds => hopening ds hc
    exact ⟨s', by rw [hexpect], h'⟩
  · split
    · next hc =>
      obtain ⟨s', hexpect, h'⟩ := h.expect_ne fun ds => hclosing ds hc
      exact ⟨s', by rw [hexpect], h'⟩
    · exact ⟨s, rfl, h⟩

/-- The first mark of a text is consumed with the first of its characters, unless what is behind the
text could make a delimiter of its last character. -/
theorem delimiter {m : Mark} {ms : List Mark} (h : s.Reads source front piece (body ++ rest))
    (hbody : Mark.ofText body = m :: ms) (hlast : ms = [] → m = .other → rest = []) :
    ∃ c s₁ s₂ x body', body = x ++ body' ∧ Mark.ofText body' = ms ∧ s.consume = (.ok c, s₁) ∧
      s₁.delimiter c = (m.change, s₂) ∧
      s₂.Reads source front (piece ++ x) (body' ++ rest) := by
  fun_cases Mark.ofText body with
  | case1 cs =>
    obtain ⟨rfl, rfl⟩ := List.cons.inj hbody
    obtain ⟨s₁, hconsume, h₁⟩ := h.consume
    obtain ⟨s₂, hdelimiter, h₂⟩ := h₁.delimiter_opening
    rw [List.append_assoc] at h₂
    exact ⟨_, s₁, s₂, ['/', '*'], cs, rfl, rfl, hconsume, hdelimiter, h₂⟩
  | case2 cs =>
    obtain ⟨rfl, rfl⟩ := List.cons.inj hbody
    obtain ⟨s₁, hconsume, h₁⟩ := h.consume
    obtain ⟨s₂, hdelimiter, h₂⟩ := h₁.delimiter_closing
    rw [List.append_assoc] at h₂
    exact ⟨_, s₁, s₂, ['*', '/'], cs, rfl, rfl, hconsume, hdelimiter, h₂⟩
  | case3 c cs hopening hclosing =>
    rw [Mark.ofText_cons (fun ds hc => hopening ds hc) (fun ds hc => hclosing ds hc)] at hbody
    obtain ⟨rfl, rfl⟩ := List.cons.inj hbody
    -- If the text ends here, so does the source.
    have hnext : ∀ d : Char, (∀ ds, cs ≠ d :: ds) → ∀ ds, cs ++ rest ≠ d :: ds := by
      intro d hd ds heq
      cases cs with
      | nil => cases (hlast rfl rfl).symm.trans heq
      | cons e es => exact hd es (by rw [(List.cons.inj heq).1])
    obtain ⟨s₁, hconsume, h₁⟩ := h.consume
    obtain ⟨s₂, hdelimiter, h₂⟩ := h₁.delimiter_other
      (fun ds hc => hnext '*' (fun ds => hopening ds hc) ds)
      (fun ds hc => hnext '/' (fun ds => hclosing ds hc) ds)
    exact ⟨c, s₁, s₂, [c], cs, rfl, rfl, hconsume, hdelimiter, h₂⟩
  | case4 => cases hbody

/-- Skipping a block comment goes on behind the first mark if a comment is open there. -/
theorem skipBlockComment_mark {m : Mark} {ms : List Mark} {k : ℕ} (hk : 0 < k)
    (h : s.Reads source front piece (body ++ rest)) (hbody : Mark.ofText body = m :: ms)
    (hlast : ms = [] → m = .other → rest = []) :
    ∃ s' x body', body = x ++ body' ∧ Mark.ofText body' = ms ∧
      s'.Reads source front (piece ++ x) (body' ++ rest) ∧
      s.skipBlockComment k =
        if m.openBehind k = 0 then (.ok (), s') else s'.skipBlockComment (m.openBehind k : ℕ) := by
  obtain ⟨c, s₁, s₂, x, body', hx, hms, hconsume, hdelimiter, h₂⟩ := h.delimiter hbody hlast
  have hchange : (k : ℤ) + m.change = (m.openBehind k : ℕ) := m.add_change hk
  refine ⟨s₂, x, body', hx, hms, h₂, ?_⟩
  rw [skipBlockComment_of_consume_ok hconsume, hdelimiter, hchange]
  simp

/-- Skipping a block comment consumes it with the delimiter that closes the last comment in it. -/
theorem skipBlockComment {k : ℕ} (hk : 0 < k) (h : s.Reads source front piece (body ++ rest))
    (hbody : Mark.Closes k (Mark.ofText body)) :
    ∃ s', s.skipBlockComment k = (.ok (), s') ∧ s'.Reads source front (piece ++ body) rest := by
  -- The induction is on the marks and not on the characters, since a delimiter is consumed whole.
  generalize hms : Mark.ofText body = ms at hbody
  induction ms generalizing k piece body s with
  | nil =>
    -- A comment that is open is not closed by nothing.
    have := hbody.balanced
    simp at this
    omega
  | cons m ms ih =>
    have hbehind := (Mark.closes_cons_iff hk).1 hbody
    -- The last mark closes a comment. So it is no single character, which what is behind the
    -- comment could make a delimiter of.
    have hlast : ms = [] → m = .other → rest = [] := by
      rintro rfl rfl
      have := hbehind.balanced
      simp [Mark.openBehind] at this
      omega
    obtain ⟨s', x, body', rfl, hms', h', hskip⟩ := h.skipBlockComment_mark hk hms hlast
    rw [hskip]
    split
    · next hzero =>
      rw [hzero] at hbehind
      rw [Mark.closes_zero_iff.1 hbehind, Mark.ofText_eq_nil_iff] at hms'
      subst hms'
      rw [List.append_nil]
      exact ⟨s', rfl, h'⟩
    · next hopen =>
      obtain ⟨s'', hskip', h''⟩ := ih (Nat.pos_of_ne_zero hopen) h' hms' hbehind
      rw [List.append_assoc] at h''
      exact ⟨s'', hskip', h''⟩

/-- Skipping a block comment that is never closed consumes everything, and is an error at the start
of the comment. -/
theorem skipBlockComment_open {k : ℕ} (hk : 0 < k) (h : s.Reads source front piece rest)
    (hrest : Mark.NeverCloses k (Mark.ofText rest)) :
    ∃ s', s.skipBlockComment k =
        (.error (.unterminatedComment (Position.start.advance front)), s') ∧
      s'.Reads source front (piece ++ rest) [] := by
  generalize hms : Mark.ofText rest = ms at hrest
  induction ms generalizing k piece rest s with
  | nil =>
    obtain rfl := Mark.ofText_eq_nil_iff.1 hms
    refine ⟨s, ?_, by rwa [List.append_nil]⟩
    rw [skipBlockComment_of_consume_error h.consume_nil, h.startPos]
  | cons m ms ih =>
    have hbehind := (Mark.neverCloses_cons_iff hk).1 hrest
    have hopen : 0 < m.openBehind k := by
      have := hbehind [] List.nil_prefix
      simpa [Mark.LeaveOpen] using this
    -- Behind the text the source ends, so that nothing can make a delimiter of its last character.
    have h₀ : s.Reads source front piece (rest ++ []) := by rwa [List.append_nil]
    obtain ⟨s', x, body', rfl, hms', h', hskip⟩ := h₀.skipBlockComment_mark hk hms fun _ _ => rfl
    rw [List.append_nil] at h'
    rw [hskip, if_neg (Nat.ne_of_gt hopen)]
    obtain ⟨s'', hskip', h''⟩ := ih hopen h' hms' hbehind
    rw [List.append_assoc] at h''
    exact ⟨s'', hskip', h''⟩

/-! ## Tokens -/

/-- What was consumed of the token is sliced out of the source. -/
theorem slice? (h : s.Reads source front piece rest) :
    Scanner.slice? s.input s.startIndex s.currentIndex = some (String.ofList piece) := by
  have hsource : source = String.ofList front ++ String.ofList piece ++ String.ofList rest := by
    rw [← String.ofList_append, ← String.ofList_append, ← h.text, String.ofList_toList]
  rw [h.input, h.startIndex, h.currentIndex, String.ofList_append]
  exact slice?_append hsource

/-- The token of a kind without a value has the text that was consumed of it. -/
theorem token? (h : s.Reads source front piece rest) (kind : TokenKind) :
    s.token? kind =
      some ⟨kind, String.ofList piece, none, Position.start.advance front⟩ := by
  rw [Scanner.token?, h.slice?, h.startPos]
  rfl

/-- No bytes are left of the source exactly if no character is. -/
theorem atEnd_iff (h : s.Reads source front piece rest) : s.atEnd = true ↔ rest = [] := by
  have hsize : source.utf8ByteSize =
      (String.ofList (front ++ piece)).utf8ByteSize + (String.ofList rest).utf8ByteSize := by
    rw [← String.utf8ByteSize_append, ← String.ofList_append, ← h.text, String.ofList_toList]
  have hzero : (String.ofList rest).utf8ByteSize = 0 ↔ rest = [] := by
    rw [String.utf8ByteSize_eq_zero_iff, String.ofList_eq_empty_iff]
  unfold Scanner.atEnd
  rw [decide_eq_true_iff, h.input, h.currentIndex, String.Pos.Raw.le_iff, ← hzero]
  change source.utf8ByteSize ≤ (String.ofList (front ++ piece)).utf8ByteSize ↔ _
  omega

/-- Behind the blanks a token starts. -/
theorem skipBlanks (h : s.Reads source front piece rest) :
    s.skipBlanks.Reads source (front ++ piece ++ rest.takeWhile Character.isBlank) []
      (rest.dropWhile Character.isBlank) := by
  have hrun : (s.skipWhile Character.isBlank).Reads source front _ _ := h.skipWhile
  have hfront : front ++ (piece ++ rest.takeWhile Character.isBlank) =
      front ++ piece ++ rest.takeWhile Character.isBlank := (List.append_assoc _ _ _).symm
  have hindex := hrun.currentIndex
  have hpos := hrun.currentPos
  rw [hfront] at hindex hpos
  exact { hrun with
    text := by rw [List.append_nil, ← hfront, hrun.text]
    startIndex := hindex
    currentIndex := by rwa [List.append_nil]
    startPos := hpos
    currentPos := by rwa [List.append_nil] }

/-- Where no blank comes first a token starts right there. -/
theorem skipBlanks_of_head (h : s.Reads source front piece rest)
    (hrest : ∀ c ∈ rest.head?, Character.isBlank c = false) :
    s.skipBlanks.Reads source (front ++ piece) [] rest := by
  have hskip := h.skipBlanks
  cases rest with
  | nil => simpa using hskip
  | cons c cs =>
    have hblank : ¬ Character.isBlank c = true := by simp [hrest c rfl]
    rwa [List.takeWhile_cons_of_neg hblank, List.dropWhile_cons_of_neg hblank,
      List.append_nil] at hskip

/-- A run of a class is read with its first character, which was consumed before. -/
theorem run (h : s.Reads source front [c] rest) (hc : p c = true) :
    (s.skipWhile p).Reads source front ((c :: rest).takeWhile p) ((c :: rest).dropWhile p) := by
  rw [List.takeWhile_cons_of_pos hc, List.dropWhile_cons_of_pos hc]
  exact h.skipWhile

/-- Behind the first digit a number is read. -/
theorem number? (h : s.Reads source front [c] rest) (hc : Character.isDigit c = true) :
    s.number? = some (.number ((c :: rest).takeWhile Character.isDigit)
      (Position.start.advance front), s.skipWhile Character.isDigit) := by
  have hrun := h.run hc
  unfold Scanner.number?
  dsimp only
  rw [hrun.slice?, hrun.startPos, Option.map_some, String.toList_ofList]

/-- Behind the first letter a word is read. -/
theorem word? (h : s.Reads source front [c] rest) (hc : Character.isWordPart c = true) :
    s.word? = some (.word ((c :: rest).takeWhile Character.isWordPart)
      (Position.start.advance front), s.skipWhile Character.isWordPart) := by
  have hrun := h.run hc
  unfold Scanner.word?
  dsimp only
  rw [hrun.slice?, hrun.startPos, Option.map_some, String.toList_ofList]

end Reads

end Scanner

end Calculator
