import Calculator.Proofs.Scan.Lexemes
import Calculator.Token.Stream

/-!
# The scans tile the source

The results of the scans of a source divide it into pieces with gaps between them, and nothing is
left over (`Tiles`). A piece is the text of a token that goes on as far as possible, a single
character that starts nothing, or a block comment that is never closed, which is the last piece.
Every result carries the position of the first character of its piece.

A text can be tiled in one way only, and the scans find it: `Tiles.ofCursor_eq` goes from a tiling
to the scans, by induction on the tiling, and `Tiles.exists_tiles` finds a tiling from the front of
the text on. Scans behind the end of the source find the end again, however many there are
(`Cursor.scans_eq`).
-/

namespace Calculator

/-- The results of as many scans one after the other. -/
def Cursor.scans : ℕ → Cursor → List (Except ScanError Token)
  | 0, _ => []
  | times + 1, c => c.scan.1 :: scans times c.scan.2

/-- The text `cs`, which starts at the position `p`, consists of a gap, the piece of a result, a
gap, the piece of a result and so on, and at last a gap. -/
inductive Tiles : List Char → Position → List (Except ScanError Token) → Prop where
  /-- A gap up to the end of the source. -/
  | ending {gap : List Char} {p : Position} (isLastGap : Layout.IsLastGap gap) : Tiles gap p []
  /-- A lexeme that goes on as far as possible is the piece of its token. -/
  | token {gap x rest : List Char} {p : Position} {kind : TokenKind} {value : Option Value}
      {rs : List (Except ScanError Token)} (isGap : Layout.IsGap gap)
      (lexeme : Lexeme x kind value) (maximal : ∀ c ∈ rest.head?, ¬ Extends x c)
      (tail : Tiles rest (p.advance (gap ++ x)) rs) :
      Tiles (gap ++ (x ++ rest)) p (.ok ⟨kind, String.ofList x, value, p.advance gap⟩ :: rs)
  /-- A character that starts nothing is the piece of an error. -/
  | foreign {gap rest : List Char} {c : Char} {p : Position} {rs : List (Except ScanError Token)}
      (isGap : Layout.IsGap gap) (isForeign : IsForeign c)
      (tail : Tiles rest (p.advance (gap ++ [c])) rs) :
      Tiles (gap ++ c :: rest) p (.error (.unexpectedCharacter (p.advance gap) c) :: rs)
  /-- A block comment that is never closed is the piece of an error, and goes on to the end of the
  source. -/
  | unterminated {gap body : List Char} {p : Position} (isGap : Layout.IsGap gap)
      (never : Mark.NeverCloses 1 (Mark.ofText body)) :
      Tiles (gap ++ '/' :: '*' :: body) p [.error (.unterminatedComment (p.advance gap))]

/-! ## One scan -/

namespace Cursor

variable {gap rest x : List Char} {p : Position} {c : Char}

/-- A scan in front of a gap and something that is no layout reads the token behind the gap. -/
theorem scan_gap (hgap : Layout.IsGap gap) (hrest : Layout.IsBare rest) :
    scan ⟨gap ++ rest, p⟩ = token ⟨rest, p.advance gap⟩ := by
  have hskip : skipLayout ⟨gap ++ rest, p⟩ = (none, ⟨rest, p.advance gap⟩) :=
    (Layout.skip_gap hgap).trans (Layout.skip_bare hrest)
  rw [scan, hskip]

/-- A scan reads the lexeme behind a gap as its token. -/
theorem scan_lexeme {kind : TokenKind} {value : Option Value} (hgap : Layout.IsGap gap)
    (hx : Lexeme x kind value) (hrest : ∀ c ∈ rest.head?, ¬ Extends x c) :
    scan ⟨gap ++ (x ++ rest), p⟩ =
      (.ok ⟨kind, String.ofList x, value, p.advance gap⟩, ⟨rest, p.advance (gap ++ x)⟩) := by
  rw [scan_gap hgap (hx.isLexeme.isBare hrest), hx.token hrest, Position.advance_append]

/-- A scan reads a character that starts nothing as an error. -/
theorem scan_foreign (hgap : Layout.IsGap gap) (hc : IsForeign c) :
    scan ⟨gap ++ c :: rest, p⟩ =
      (.error (.unexpectedCharacter (p.advance gap) c), ⟨rest, p.advance (gap ++ [c])⟩) := by
  rw [scan_gap hgap hc.isBare, token_foreign hc, Position.advance_append]
  rfl

/-- A scan reads a block comment that is never closed as an error. -/
theorem scan_unterminated {body : List Char} (hgap : Layout.IsGap gap)
    (hbody : Mark.NeverCloses 1 (Mark.ofText body)) :
    scan ⟨gap ++ '/' :: '*' :: body, p⟩ =
      (.error (.unterminatedComment (p.advance gap)),
        ⟨[], p.advance (gap ++ '/' :: '*' :: body)⟩) := by
  have hskip := Layout.skip_unterminated (p := p) hgap hbody
  rw [scan, skipLayout, hskip]

/-- A scan in front of the last gap finds the end of the source. -/
theorem scan_lastGap (hgap : Layout.IsLastGap gap) :
    scan ⟨gap, p⟩ = (.ok (.endOfInput (p.advance gap)), ⟨[], p.advance gap⟩) := by
  have hskip := Layout.skip_lastGap (p := p) hgap
  rw [scan, skipLayout, hskip]
  rfl

/-! ## All scans -/

/-- Scans behind the end of the source find the end again. -/
theorem scans_of_atEnd (times : ℕ) {c : Cursor} (h : c.rest = []) :
    c.scans times = List.replicate times (.ok (.endOfInput c.pos)) := by
  induction times with
  | zero => rfl
  | succ times ih => rw [scans, scan_of_atEnd h, ih, List.replicate_succ]

/-- The scans of a source yield what is ahead in its stream, and then its end again and again. -/
theorem scans_eq (c : Cursor) (times : ℕ) :
    c.scans ((TokenStream.ofCursor c).ahead.length + times) =
      (TokenStream.ofCursor c).ahead ++
        List.replicate times (.ok (TokenStream.ofCursor c).ending) := by
  fun_induction TokenStream.ofCursor c with
  | case1 c h =>
    obtain ⟨hend, hrest⟩ := scan_of_isEnd h
    rw [List.length_nil, Nat.zero_add, List.nil_append]
    cases times with
    | zero => rfl
    | succ times => rw [scans, hend, scans_of_atEnd times hrest, List.replicate_succ]
  | case2 c h ih =>
    rw [TokenStream.cons, List.length_cons, Nat.succ_add_eq_add_succ, Nat.add_succ, scans, ih]
    rfl

end Cursor

/-- The result of a scan that is not the end of the source comes first in the stream. -/
theorem TokenStream.ofCursor_of_scan {c d : Cursor} {r : Except ScanError Token}
    (h : c.scan = (r, d)) (hr : Cursor.isEnd r = false) : ofCursor c = (ofCursor d).cons r := by
  have hend : Cursor.isEnd c.scan.1 = false := by rwa [h]
  rw [ofCursor_of_not_isEnd hend, h]

/-- In front of the last gap nothing is ahead. -/
theorem TokenStream.ofCursor_lastGap {gap : List Char} {p : Position}
    (h : Layout.IsLastGap gap) : ofCursor ⟨gap, p⟩ = ⟨[], .endOfInput (p.advance gap)⟩ := by
  have hscan := Cursor.scan_lastGap (p := p) h
  have hend : Cursor.isEnd (Cursor.scan ⟨gap, p⟩).1 = true := by
    rw [hscan]
    rfl
  rw [ofCursor_of_isEnd hend, hscan]

/-! ## The tiling of a text -/

namespace Tiles

variable {cs : List Char} {p : Position} {rs : List (Except ScanError Token)}

/-- The token of a piece has the kind and the value that its text determines. -/
theorem lexeme_of_mem {t : Token} (h : Tiles cs p rs) (ht : .ok t ∈ rs) :
    Lexeme t.text.toList t.kind t.value := by
  induction h with
  | ending _ => cases ht
  | token _ lexeme _ _ ih =>
    rcases List.mem_cons.1 ht with heq | ht
    · obtain rfl := Except.ok.inj heq
      rwa [String.toList_ofList]
    · exact ih ht
  | foreign _ _ _ ih =>
    rcases List.mem_cons.1 ht with heq | ht
    · cases heq
    · exact ih ht
  | unterminated _ _ => simp at ht

/-- What a text is tiled by as a character that starts nothing starts nothing. -/
theorem isForeign_of_mem {q : Position} {c : Char} (h : Tiles cs p rs)
    (hc : .error (.unexpectedCharacter q c) ∈ rs) : IsForeign c := by
  induction h with
  | ending _ => cases hc
  | token _ _ _ _ ih =>
    rcases List.mem_cons.1 hc with heq | hc
    · cases heq
    · exact ih hc
  | foreign _ isForeign _ ih =>
    rcases List.mem_cons.1 hc with heq | hc
    · cases heq
      exact isForeign
    · exact ih hc
  | unterminated _ _ => simp at hc

/-- Layout in front of a text belongs to its first gap. -/
theorem append_piece {piece : List Char} (hpiece : Layout.Piece piece)
    (h : Tiles cs (p.advance piece) rs) : Tiles (piece ++ cs) p rs := by
  generalize hq : p.advance piece = q at h
  cases h with
  | ending isLastGap => exact .ending (isLastGap.append_piece hpiece)
  | token isGap lexeme maximal tail =>
    subst hq
    rw [← Position.advance_append] at tail ⊢
    rw [← List.append_assoc] at tail ⊢
    exact .token (.append hpiece isGap) lexeme maximal tail
  | foreign isGap isForeign tail =>
    subst hq
    rw [← Position.advance_append] at tail ⊢
    rw [← List.append_assoc] at tail ⊢
    exact .foreign (.append hpiece isGap) isForeign tail
  | unterminated isGap never =>
    subst hq
    rw [← Position.advance_append, ← List.append_assoc]
    exact .unterminated (.append hpiece isGap) never

/-- A gap in front of a text belongs to its first gap. -/
theorem append_gap {gap : List Char} (hgap : Layout.IsGap gap) (h : Tiles cs (p.advance gap) rs) :
    Tiles (gap ++ cs) p rs := by
  induction hgap generalizing p with
  | nil => exact h
  | append isPiece _ ih =>
    rw [Position.advance_append] at h
    rw [List.append_assoc]
    exact (ih h).append_piece isPiece

/-- A tiling of a text is what its scans yield. -/
theorem ofCursor_eq (h : Tiles cs p rs) :
    TokenStream.ofCursor ⟨cs, p⟩ = ⟨rs, .endOfInput (p.advance cs)⟩ := by
  induction h with
  | ending isLastGap => exact TokenStream.ofCursor_lastGap isLastGap
  | token isGap lexeme maximal _ ih =>
    rw [TokenStream.ofCursor_of_scan (Cursor.scan_lexeme isGap lexeme maximal)
      (lexeme.isEnd_token _ _), ih, ← Position.advance_append, List.append_assoc]
    rfl
  | @foreign gap rest c p rs isGap isForeign _ ih =>
    have hcs : gap ++ c :: rest = gap ++ [c] ++ rest := by simp
    rw [TokenStream.ofCursor_of_scan (Cursor.scan_foreign isGap isForeign) rfl, ih,
      ← Position.advance_append, hcs]
    rfl
  | unterminated isGap never =>
    rw [TokenStream.ofCursor_of_scan (Cursor.scan_unterminated isGap never) rfl,
      TokenStream.ofCursor_lastGap (.closed .nil)]
    rfl

/-- Every text can be tiled. -/
theorem exists_tiles (cs : List Char) (p : Position) : ∃ rs, Tiles cs p rs := by
  -- Behind each piece fewer characters are left.
  induction hn : cs.length using Nat.strongRecOn generalizing cs p with
  | ind n ih =>
    subst hn
    obtain ⟨gap, rest, rfl, hgap, hstops⟩ := Layout.exists_gap cs
    cases hstops with
    | bare isBare =>
      by_cases hnil : rest = []
      · subst hnil
        exact ⟨[], .ending (.closed (by simpa using hgap))⟩
      rcases exists_lexeme isBare hnil with ⟨x, rest, rfl, hx, hmax⟩ | ⟨c, rest, rfl, hc⟩
      · obtain ⟨kind, value, hlexeme⟩ := hx.exists_lexeme
        have hpos : 0 < x.length := List.length_pos_iff.2 hx.ne_nil
        obtain ⟨rs, hrs⟩ := ih rest.length (by simp; omega) rest (p.advance (gap ++ x)) rfl
        exact ⟨_, .token hgap hlexeme hmax hrs⟩
      · obtain ⟨rs, hrs⟩ := ih rest.length (by simp; omega) rest (p.advance (gap ++ [c])) rfl
        exact ⟨_, .foreign hgap hc hrs⟩
    | openLine noNewline => exact ⟨[], .ending (.openLine hgap noNewline)⟩
    | unterminated never => exact ⟨_, .unterminated hgap never⟩

end Tiles

end Calculator
