import Calculator.Layout
import Calculator.Token

/-!
# Scanning

`Cursor.scan` reads the next token of a source, or the error that stands in its place, and moves the
cursor behind it. Behind the end of the source every scan finds the end again
(`Cursor.scan_of_atEnd`), and every scan that does not find the end leaves less to read
(`Cursor.length_scan_lt`).
-/

namespace Calculator

namespace Cursor

/-- Reads a token that starts right here: the end of the source, the longest number or word, or a
punctuation character. Any other character is an error, and is read as well. -/
def token (c : Cursor) : Except ScanError Token × Cursor :=
  if c.atEnd then (.ok (.endOfInput c.pos), c)
  else
    match c.next with
    | .error e => (.error e, c)
    | .ok (ch, d) =>
      if Character.isDigit ch then
        (.ok (.number (c.takeWhile Character.isDigit) c.pos), c.dropWhile Character.isDigit)
      else if Character.isLetter ch then
        (.ok (.word (c.takeWhile Character.isWordPart) c.pos), c.dropWhile Character.isWordPart)
      else
        match TokenKind.ofPunctuation? ch with
        | some kind => (.ok (.punctuation kind ch c.pos), d)
        | none => (.error (.unexpectedCharacter c.pos ch), d)

/-- Reads the next token and the layout in front of it. -/
def scan (c : Cursor) : Except ScanError Token × Cursor :=
  match c.skipLayout with
  | (some start, d) => (.error (.unterminatedComment start), d)
  | (none, d) => d.token

/-- Whether a result of a scan is the end of the source. -/
def isEnd : Except ScanError Token → Bool
  | .ok t => t.kind == .endOfInput
  | .error _ => false

/-- Behind the end of the source there is only the end again. -/
theorem scan_of_atEnd {c : Cursor} (h : c.rest = []) :
    c.scan = (.ok (.endOfInput c.pos), c) := by
  obtain ⟨rest, pos⟩ := c
  cases h
  simp [scan, skipLayout, Layout.skip, Layout.unclosed?, token, atEnd]

/-- No punctuation character is the end of the source. -/
theorem ofPunctuation?_ne_endOfInput (ch : Char) :
    TokenKind.ofPunctuation? ch ≠ some .endOfInput := by
  unfold TokenKind.ofPunctuation?
  split <;> decide

/-- No word is the end of the source. -/
theorem kind_word_ne_endOfInput (letters : List Char) (p : Position) :
    (Token.word letters p).kind ≠ .endOfInput := by
  unfold Token.word
  dsimp only
  split
  · exact nofun
  · split <;> exact nofun

/-- Only at the end of the source is the end read. -/
theorem token_of_isEnd {c : Cursor} (h : isEnd c.token.1 = true) :
    c.token = (.ok (.endOfInput c.pos), c) ∧ c.rest = [] := by
  unfold token at h ⊢
  split
  · next hc => exact ⟨rfl, by simpa [atEnd] using hc⟩
  · next hc =>
    rw [if_neg hc] at h
    split at h
    · cases h
    · next ch d hn =>
      split at h
      · simp [isEnd, Token.number] at h
      · split at h
        · exact absurd (beq_iff_eq.1 h) (kind_word_ne_endOfInput _ _)
        · split at h
          · next kind hk =>
            exact absurd (beq_iff_eq.1 h ▸ hk) (ofPunctuation?_ne_endOfInput ch)
          · cases h

/-- A scan that finds the end stops there, and the token says where that is. -/
theorem scan_of_isEnd {c : Cursor} (h : isEnd c.scan.1 = true) :
    c.scan.1 = .ok (.endOfInput c.scan.2.pos) ∧ c.scan.2.rest = [] := by
  unfold scan at h ⊢
  split
  · next hs => simp [hs, isEnd] at h
  · next d hs =>
    rw [hs] at h
    obtain ⟨ht, hd⟩ := token_of_isEnd h
    rw [ht]
    exact ⟨rfl, hd⟩

/-- A run of characters that starts with a member of its class is dropped whole. -/
theorem length_dropWhile_lt {c : Cursor} {p : Char → Bool} {ch : Char} {d : Cursor}
    (h : c.next = .ok (ch, d)) (hp : p ch = true) :
    (c.dropWhile p).rest.length < c.rest.length := by
  have hc : c.rest = ch :: d.rest := (reaches_of_next h).1
  have hd : (c.dropWhile p).rest = d.rest.dropWhile p := by
    simp [dropWhile, hc, hp]
  rw [hd, hc, List.length_cons, Nat.lt_succ_iff]
  exact (List.dropWhile_sublist p).length_le

/-- Reading a token from a place that is not the end leaves less to read. -/
theorem length_token_lt {c : Cursor} (h : c.rest ≠ []) :
    c.token.2.rest.length < c.rest.length := by
  have hend : c.atEnd = false := by simpa [atEnd] using h
  obtain ⟨ch, d, hn⟩ : ∃ ch d, c.next = .ok (ch, d) := by
    cases hr : c.rest with
    | nil => exact absurd hr h
    | cons ch rest => exact ⟨ch, _, by rw [next, hr]⟩
  have hd : d.rest.length < c.rest.length := by
    rw [(reaches_of_next hn).length_eq]
    simp
  simp only [token, hend, hn, Bool.false_eq_true, if_false]
  split
  · next hp => exact length_dropWhile_lt hn hp
  · split
    · next hp => exact length_dropWhile_lt hn (by simp [Character.isWordPart, hp])
    · split <;> exact hd

end Cursor

/-- The source ends where a comment is left open. -/
theorem Layout.rest_skip_of_unclosed {layout : Layout} {cs : List Char} {p start : Position}
    (h : (layout.skip cs p).1 = some start) : (layout.skip cs p).2.rest = [] := by
  fun_induction layout.skip cs p with
  | case1 => rfl
  | case5 => simp at h
  | case2 | case3 | case4 | case6 | case7 | case8 | case9 | case10 | case11 =>
    rename_i ih
    exact ih h

namespace Cursor

/-- Every scan from a place that is not the end, unless it finds the end, leaves less to read. -/
theorem length_scan_lt {c : Cursor} (h : isEnd c.scan.1 = false) :
    c.scan.2.rest.length < c.rest.length := by
  obtain ⟨gap, hgap⟩ := c.reaches_skipLayout
  have hle := hgap.length_eq
  have hne : c.rest ≠ [] := fun hc => by simp [scan_of_atEnd hc, isEnd, Token.endOfInput] at h
  unfold scan at h ⊢
  split
  · next start d hs =>
    have hrest : c.skipLayout.2.rest = [] := Layout.rest_skip_of_unclosed (congrArg Prod.fst hs)
    have hd : d.rest = [] := by rwa [hs] at hrest
    simpa [hd] using List.length_pos_iff.2 hne
  · next d hs =>
    rw [hs] at h hle
    have hd : d.rest ≠ [] := fun hd => by
      simp [token, atEnd, hd, isEnd, Token.endOfInput] at h
    have := length_token_lt hd
    simp only at hle
    omega

end Cursor

end Calculator
