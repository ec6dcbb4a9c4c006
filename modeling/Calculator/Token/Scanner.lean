import Calculator.Token.Scan

/-!
# Scanning with a buffer

A cursor is what is left of a source. A scanner keeps its place in a source in several forms at
once: an iterator over the characters, with a buffer in front of it for characters that were looked
at, offsets in the bytes of the source, and positions. The texts of tokens are sliced out of the
source at the offsets, which is only possible at the boundaries of characters: where it is not, an
operation has no result at all.

Every operation either leaves the number of characters that were not consumed as it is or lowers it
(`Scanner.size`), and so the loops end.
-/

namespace Calculator

/-- A place in a source, and the start of the token that is read there. -/
structure Scanner where
  /-- The source. -/
  input : String
  /-- What the iterator over the source has not yielded. -/
  chars : List Char
  /-- The character that was yielded, but not consumed. -/
  peek1 : Option Char
  /-- The character behind it, if that was yielded as well. -/
  peek2 : Option Char
  /-- Where the token starts in the bytes of the source. -/
  startIndex : String.Pos.Raw
  /-- Where the characters that were not consumed start in the bytes of the source. -/
  currentIndex : String.Pos.Raw
  /-- Where the token starts. -/
  startPos : Position
  /-- Where the characters that were not consumed start. -/
  currentPos : Position

namespace Scanner

/-- At the start of a source. -/
def ofString (source : String) : Scanner :=
  ⟨source, source.toList, none, none, 0, 0, .start, .start⟩

/-- The number of characters that were not consumed. -/
def size (s : Scanner) : Nat :=
  s.peek1.toList.length + s.peek2.toList.length + s.chars.length

/-! ## Single characters -/

/-- Moves behind a character. -/
def moved (s : Scanner) (c : Char) : Scanner :=
  { s with currentIndex := s.currentIndex + c, currentPos := s.currentPos.after c }

/-- Consumes the next character, which comes from the buffer if there is one in it. -/
def consume (s : Scanner) : Except ScanError Char × Scanner :=
  match s.peek1, s.chars with
  | some c, _ => (.ok c, { s with peek1 := s.peek2, peek2 := none }.moved c)
  | none, c :: cs => (.ok c, { s with chars := cs }.moved c)
  | none, [] => (.error .unexpectedEnd, s)

/-- Looks at the next character, which stays in the buffer. -/
def peek (s : Scanner) : Except ScanError Char × Scanner :=
  match s.peek1, s.chars with
  | some c, _ => (.ok c, s)
  | none, c :: cs => (.ok c, { s with chars := cs, peek1 := some c })
  | none, [] => (.error .unexpectedEnd, s)

/-- Consumes the next character if it is the one expected. -/
def expect (s : Scanner) (expected : Char) : Bool × Scanner :=
  match s.peek with
  | (.ok c, s) =>
    if c = expected then
      match s.consume with
      | (.ok _, s) => (true, s)
      | (.error _, s) => (false, s)
    else (false, s)
  | (.error _, s) => (false, s)

/-- Whether there is nothing left in the bytes of the source. -/
def atEnd (s : Scanner) : Bool := s.input.rawEndPos ≤ s.currentIndex

/-- A character is consumed once. -/
theorem size_consume_lt {s s' : Scanner} {c : Char} (h : s.consume = (.ok c, s')) :
    s'.size < s.size := by
  obtain ⟨input, chars, peek1, peek2, _, _, _, _⟩ := s
  cases peek1 with
  | some d =>
    cases h
    simp [size, moved]
  | none =>
    cases chars with
    | nil => cases h
    | cons d ds =>
      cases h
      simp [size, moved]

/-- Consuming leaves no more than there was. -/
theorem size_consume_le (s : Scanner) : s.consume.2.size ≤ s.size := by
  rcases hs : s.consume with ⟨_ | c, s'⟩
  · unfold consume at hs
    split at hs <;> cases hs
    exact Nat.le_refl _
  · exact Nat.le_of_lt (size_consume_lt hs)

/-- Looking at a character leaves it there. -/
theorem size_peek (s : Scanner) : s.peek.2.size = s.size := by
  obtain ⟨input, chars, peek1, peek2, _, _, _, _⟩ := s
  cases peek1 with
  | some d => rfl
  | none =>
    cases chars with
    | nil => rfl
    | cons d ds =>
      simp [size, peek]
      omega

/-- A character that was looked at is there to be consumed. -/
theorem size_consume_peek_lt {s s' : Scanner} {c : Char} (h : s.peek = (.ok c, s')) :
    s'.consume.2.size < s.size := by
  have hsize : s'.size = s.size := by
    have := s.size_peek
    rwa [h] at this
  obtain ⟨s'', hs''⟩ : ∃ s'', s'.consume = (.ok c, s'') := by
    obtain ⟨input, chars, peek1, peek2, _, _, _, _⟩ := s
    cases peek1 with
    | some d =>
      cases h
      exact ⟨_, rfl⟩
    | none =>
      cases chars with
      | nil => cases h
      | cons d ds =>
        cases h
        exact ⟨_, rfl⟩
  rw [hs'', ← hsize]
  exact size_consume_lt hs''

/-- Expecting a character leaves no more than there was. -/
theorem size_expect_le (s : Scanner) (expected : Char) : (s.expect expected).2.size ≤ s.size := by
  have hpeek := s.size_peek
  unfold expect
  split
  · next c s' hs =>
    rw [hs] at hpeek
    have hconsume := s'.size_consume_le
    split
    · split
      · next hs' => rw [hs'] at hconsume; exact hpeek ▸ hconsume
      · next hs' => rw [hs'] at hconsume; exact hpeek ▸ hconsume
    · exact Nat.le_of_eq hpeek
  · next hs =>
    rw [hs] at hpeek
    exact Nat.le_of_eq hpeek

/-! ## Runs of characters -/

/-- Consumes characters as long as they are of a class. -/
def skipWhile (p : Char → Bool) (s : Scanner) : Scanner :=
  match _ : s.peek with
  | (.ok c, s) => if p c then skipWhile p s.consume.2 else s
  | (.error _, s) => s
termination_by s.size
decreasing_by exact size_consume_peek_lt ‹_›

/-- Consumes the rest of a line, with the newline. -/
def skipLine (s : Scanner) : Scanner :=
  match _ : s.peek with
  | (.ok c, s) => if c = '\n' then s.consume.2 else skipLine s.consume.2
  | (.error _, s) => s
termination_by s.size
decreasing_by exact size_consume_peek_lt ‹_›

/-- By how much the number of open comments changes behind a character that was consumed in a
comment. What is left of a delimiter is consumed with it. -/
def delimiter (s : Scanner) (c : Char) : Int × Scanner :=
  if c = '/' then
    match s.expect '*' with
    | (true, s) => (1, s)
    | (false, s) => (0, s)
  else if c = '*' then
    match s.expect '/' with
    | (true, s) => (-1, s)
    | (false, s) => (0, s)
  else (0, s)

/-- What is left of a delimiter is no more than there was. -/
theorem size_delimiter_le (s : Scanner) (c : Char) : (s.delimiter c).2.size ≤ s.size := by
  have hexpect := s.size_expect_le
  unfold delimiter
  split
  · have := hexpect '*'
    split <;> simp_all
  · split
    · have := hexpect '/'
      split <;> simp_all
    · exact Nat.le_refl _

/-- Consumes the rest of a block comment in which so many comments are open. -/
def skipBlockComment (depth : Int) (s : Scanner) : Except ScanError Unit × Scanner :=
  match _ : s.consume with
  | (.ok c, s) =>
    if depth + (s.delimiter c).1 ≤ 0 then (.ok (), (s.delimiter c).2)
    else skipBlockComment (depth + (s.delimiter c).1) (s.delimiter c).2
  | (.error _, s) => (.error (.unterminatedComment s.startPos), s)
termination_by s.size
decreasing_by exact Nat.lt_of_le_of_lt (size_delimiter_le _ _) (size_consume_lt ‹_›)

section

variable {s s' : Scanner} {c : Char} {e : ScanError} {p : Char → Bool} {depth : Int}

/-- In front of a character of the class the run goes on behind it. -/
theorem skipWhile_of_peek_ok (h : s.peek = (.ok c, s')) :
    s.skipWhile p = if p c then s'.consume.2.skipWhile p else s' := by
  rw [skipWhile]
  split <;> simp_all

/-- At the end of the source the run ends. -/
theorem skipWhile_of_peek_error (h : s.peek = (.error e, s')) : s.skipWhile p = s' := by
  rw [skipWhile]
  split <;> simp_all

/-- The line goes on behind any character but a newline. -/
theorem skipLine_of_peek_ok (h : s.peek = (.ok c, s')) :
    s.skipLine = if c = '\n' then s'.consume.2 else s'.consume.2.skipLine := by
  rw [skipLine]
  split <;> simp_all

/-- At the end of the source the line ends. -/
theorem skipLine_of_peek_error (h : s.peek = (.error e, s')) : s.skipLine = s' := by
  rw [skipLine]
  split <;> simp_all

/-- Behind a character a block comment goes on if a comment is open there. -/
theorem skipBlockComment_of_consume_ok (h : s.consume = (.ok c, s')) :
    s.skipBlockComment depth =
      if depth + (s'.delimiter c).1 ≤ 0 then (.ok (), (s'.delimiter c).2)
      else (s'.delimiter c).2.skipBlockComment (depth + (s'.delimiter c).1) := by
  rw [skipBlockComment]
  split <;> simp_all

/-- At the end of the source a block comment is unterminated. -/
theorem skipBlockComment_of_consume_error (h : s.consume = (.error e, s')) :
    s.skipBlockComment depth = (.error (.unterminatedComment s'.startPos), s') := by
  rw [skipBlockComment]
  split <;> simp_all

/-- Skipping a run leaves no more than there was. -/
theorem size_skipWhile_le (p : Char → Bool) (s : Scanner) : (s.skipWhile p).size ≤ s.size := by
  fun_induction skipWhile p s with
  | case1 s c s' hs hp ih => exact Nat.le_trans ih (Nat.le_of_lt (size_consume_peek_lt hs))
  | case2 s c s' hs | case3 s e s' hs =>
    have := s.size_peek
    rw [hs] at this
    exact Nat.le_of_eq this

/-- Skipping a line leaves no more than there was. -/
theorem size_skipLine_le (s : Scanner) : s.skipLine.size ≤ s.size := by
  fun_induction skipLine s with
  | case1 s s' hs => exact Nat.le_of_lt (size_consume_peek_lt hs)
  | case2 s c s' hs _ ih => exact Nat.le_trans ih (Nat.le_of_lt (size_consume_peek_lt hs))
  | case3 s e s' hs =>
    have := s.size_peek
    rw [hs] at this
    exact Nat.le_of_eq this

/-- Skipping a block comment leaves no more than there was. -/
theorem size_skipBlockComment_le (depth : Int) (s : Scanner) :
    (s.skipBlockComment depth).2.size ≤ s.size := by
  fun_induction skipBlockComment depth s with
  | case1 depth s c s' hs _ =>
    exact Nat.le_trans (s'.size_delimiter_le c) (Nat.le_of_lt (size_consume_lt hs))
  | case2 depth s c s' hs _ ih =>
    have hdelimiter := s'.size_delimiter_le c
    exact Nat.le_trans ih (Nat.le_trans hdelimiter (Nat.le_of_lt (size_consume_lt hs)))
  | case3 depth s e s' hs =>
    have := s.size_consume_le
    rwa [hs] at this

end

/-! ## Tokens -/

/-- The text between two places in the bytes of a source, if they are boundaries of characters in
this order. -/
def slice? (input : String) (first last : String.Pos.Raw) : Option String :=
  if h : first.IsValid input ∧ last.IsValid input ∧ first ≤ last then
    some (input.slice (input.pos first h.1) (input.pos last h.2.1) h.2.2).copy
  else none

/-- The token of a kind that has no value. -/
def token? (s : Scanner) (kind : TokenKind) : Option Token :=
  (slice? s.input s.startIndex s.currentIndex).map fun text => ⟨kind, text, none, s.startPos⟩

/-- The token of a number, of which the first digit was consumed, and the place behind it. -/
def number? (s : Scanner) : Option (Token × Scanner) :=
  let s := s.skipWhile Character.isDigit
  (slice? s.input s.startIndex s.currentIndex).map fun text =>
    (.number text.toList s.startPos, s)

/-- The token of a word, of which the first letter was consumed, and the place behind it. -/
def word? (s : Scanner) : Option (Token × Scanner) :=
  let s := s.skipWhile Character.isWordPart
  (slice? s.input s.startIndex s.currentIndex).map fun text =>
    (.word text.toList s.startPos, s)

/-! ## Scanning -/

/-- What a pass through the loop of a scan comes to. -/
inductive Pass where
  /-- The scan has a result. -/
  | done (result : Except ScanError Token)
  /-- A comment was skipped, and the scan goes on. -/
  | again

/-- Behind a block comment the scan goes on, unless there was something wrong with the comment. -/
def Pass.ofComment : Except ScanError Unit → Pass
  | .ok () => again
  | .error e => done (.error e)

/-- Reads on behind a slash: a comment, or else the slash is a token. -/
def passSlash (s : Scanner) : Option (Pass × Scanner) :=
  match s.expect '/' with
  | (true, s) => some (.again, s.skipLine)
  | (false, s) =>
    match s.expect '*' with
    | (true, s) => some (.ofComment (s.skipBlockComment 1).1, (s.skipBlockComment 1).2)
    | (false, s) => (s.token? .divide).map fun t => (.done (.ok t), s)

/-- Reads on behind the first character of a token or a comment. -/
def passFrom (s : Scanner) (c : Char) : Option (Pass × Scanner) :=
  if c = '/' then s.passSlash
  else
    match TokenKind.ofPunctuation? c with
    | some kind => (s.token? kind).map fun t => (.done (.ok t), s)
    | none =>
      if Character.isDigit c then s.number?.map fun (t, s) => (.done (.ok t), s)
      else if Character.isLetter c then s.word?.map fun (t, s) => (.done (.ok t), s)
      else some (.done (.error (.unexpectedCharacter s.startPos c)), s)

/-- Skips blanks. A token starts behind them. -/
def skipBlanks (s : Scanner) : Scanner :=
  let s := s.skipWhile Character.isBlank
  { s with startIndex := s.currentIndex, startPos := s.currentPos }

/-- Passes through the loop of a scan once. -/
def pass (s : Scanner) : Option (Pass × Scanner) :=
  let s := s.skipBlanks
  if s.atEnd then (s.token? .endOfInput).map fun t => (.done (.ok t), s)
  else
    match s.consume with
    | (.error e, s) => some (.done (.error e), s)
    | (.ok c, s) => s.passFrom c

/-- Behind a slash the scan goes on with no more than there was. -/
theorem size_passSlash_le {s s' : Scanner} (h : s.passSlash = some (.again, s')) :
    s'.size ≤ s.size := by
  unfold passSlash at h
  have hline := s.size_expect_le '/'
  split at h
  · next s₁ hs =>
    cases h
    rw [hs] at hline
    exact Nat.le_trans s₁.size_skipLine_le hline
  · next s₁ hs =>
    rw [hs] at hline
    have hblock := s₁.size_expect_le '*'
    split at h
    · next s₂ hs₂ =>
      rw [hs₂] at hblock
      have hcomment := s₂.size_skipBlockComment_le 1
      obtain rfl : (s₂.skipBlockComment 1).2 = s' := by simp_all
      exact Nat.le_trans hcomment (Nat.le_trans hblock hline)
    · simp at h

/-- Only behind a slash the scan goes on. -/
theorem passFrom_eq_passSlash {s s' : Scanner} {c : Char} (h : s.passFrom c = some (.again, s')) :
    s.passSlash = some (.again, s') := by
  unfold passFrom at h
  split at h
  · exact h
  · split at h
    · simp at h
    · split at h
      · simp at h
      · split at h <;> simp at h

/-- Each further pass has less in front of it. -/
theorem size_pass_lt {s s' : Scanner} (h : s.pass = some (.again, s')) : s'.size < s.size := by
  have hblanks : s.skipBlanks.size ≤ s.size := s.size_skipWhile_le Character.isBlank
  unfold pass at h
  dsimp only at h
  split at h
  · simp at h
  · split at h
    · simp at h
    · next c s₁ hs =>
      have hslash := size_passSlash_le (passFrom_eq_passSlash h)
      exact Nat.lt_of_le_of_lt hslash (Nat.lt_of_lt_of_le (size_consume_lt hs) hblanks)

/-- Reads the next token and the layout in front of it. -/
def scan (s : Scanner) : Option (Except ScanError Token × Scanner) :=
  match _ : s.pass with
  | none => none
  | some (.done r, s) => some (r, s)
  | some (.again, s) => s.scan
termination_by s.size
decreasing_by exact size_pass_lt ‹_›

/-- The results of as many scans one after the other, and the place behind them. -/
def scans : Nat → Scanner → Option (List (Except ScanError Token) × Scanner)
  | 0, s => some ([], s)
  | times + 1, s =>
    match s.scan with
    | none => none
    | some (r, s) => (scans times s).map fun (rs, s) => (r :: rs, s)

/-- A scan has the result of a pass that has one. -/
theorem scan_of_done {s s' : Scanner} {r : Except ScanError Token}
    (h : s.pass = some (.done r, s')) : s.scan = some (r, s') := by
  rw [scan]
  split <;> simp_all

/-- What a scan yields is decided by its first pass. -/
theorem scan_congr {s s' : Scanner} (h : s.pass = s'.pass) : s.scan = s'.scan := by
  rw [scan, scan]
  split <;> split <;> simp_all

/-- A scan goes on behind a comment. -/
theorem scan_of_again {s s' : Scanner} (h : s.pass = some (.again, s')) : s.scan = s'.scan := by
  rw [scan]
  split <;> simp_all

end Scanner

end Calculator
