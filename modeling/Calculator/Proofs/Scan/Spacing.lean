import Calculator.Proofs.Scan.Tiling

/-!
# Scanning spaced words

Lexemes with layout around them are scanned as the tokens of these lexemes, whatever the layout
(`Cursor.scans_spaced`). There has to be some between any two of them, and what stands behind a
slash must not begin with a slash, which would make a comment of both (`Spaced`).

The proof tiles the text: layout begins with a blank or a slash (`Layout.IsLastGap.head`), which no
lexeme but a slash takes for its own.
-/

namespace Calculator

/-- The layout `first` and then lexemes, each with the layout behind it, such that no lexeme touches
another one or is part of a comment. -/
structure Spaced (first : List Char) (words : List (List Char × List Char)) : Prop where
  /-- The words are texts of tokens. -/
  lexeme : ∀ w ∈ words, IsLexeme w.1
  /-- Between them there is layout. -/
  gap : ∀ gap ∈ (first :: words.map Prod.snd).dropLast, Layout.IsGap gap
  /-- At the end a line comment needs no newline. -/
  lastGap : ∀ gap ∈ (first :: words.map Prod.snd).getLast?, Layout.IsLastGap gap
  /-- Only at the end there can be none. -/
  apart : ∀ w ∈ words.dropLast, w.2 ≠ []
  /-- No slash stands directly behind a slash. -/
  slash : ∀ w ∈ words, w.1 = ['/'] → w.2.head? ≠ some '/'

/-- The layout `first` and then the words, each with the layout behind it, as one text. -/
def spacedText (first : List Char) (words : List (List Char × List Char)) : List Char :=
  first ++ words.flatMap fun w => w.1 ++ w.2

/-! ## What layout begins with -/

/-- A piece of layout begins with a blank or a slash. -/
theorem Layout.Piece.head {piece : List Char} (h : Piece piece) :
    ∃ c cs, piece = c :: cs ∧ (Character.isBlank c = true ∨ c = '/') := by
  cases h with
  | blank isBlank => exact ⟨_, _, rfl, .inl isBlank⟩
  | line _ => exact ⟨_, _, rfl, .inr rfl⟩
  | block _ => exact ⟨_, _, rfl, .inr rfl⟩

/-- Layout begins with a blank or a slash. -/
theorem Layout.IsLastGap.head {gap : List Char} (h : IsLastGap gap) {c : Char}
    (hc : c ∈ gap.head?) : Character.isBlank c = true ∨ c = '/' := by
  have hgap : ∀ {gap}, IsGap gap → c ∈ gap.head? → Character.isBlank c = true ∨ c = '/' := by
    intro gap h hc
    cases h with
    | nil => cases hc
    | append isPiece _ =>
      obtain ⟨d, cs, rfl, hd⟩ := isPiece.head
      rwa [← Option.some_inj.1 hc]
  cases h with
  | closed isGap => exact hgap isGap hc
  | @openLine gap body isGap _ =>
    cases gap with
    | nil => exact .inr (Option.some_inj.1 hc).symm
    | cons d ds => exact hgap isGap hc

/-- Only a slash behind a slash is layout and would be read together with the lexeme. -/
theorem Extends.eq_slash {x : List Char} {c : Char} (h : Extends x c)
    (hc : Character.isBlank c = true ∨ c = '/') : x = ['/'] ∧ c = '/' := by
  have hpart : Character.isWordPart c = false := by
    rcases hc with hblank | rfl
    · exact Character.isWordPart_eq_false_of_isBlank hblank
    · decide
  obtain ⟨hx, rfl | rfl⟩ := h.of_not_isWordPart hpart
  · exact ⟨hx, rfl⟩
  · exact absurd hc (by decide)

/-! ## Spaced words are tiled -/

namespace Spaced

variable {first x gap : List Char} {words : List (List Char × List Char)}

/-- Without words there is only the last gap. -/
theorem isLastGap (h : Spaced first []) : Layout.IsLastGap first := h.lastGap first rfl

/-- In front of a word there is a gap. -/
theorem isGap (h : Spaced first ((x, gap) :: words)) : Layout.IsGap first :=
  h.gap first (by simp)

/-- Behind a word there are spaced words. -/
theorem tail (h : Spaced first ((x, gap) :: words)) : Spaced gap words where
  lexeme := fun w hw => h.lexeme w (List.mem_cons_of_mem _ hw)
  gap := fun g hg => h.gap g (by simp [hg])
  lastGap := fun g hg => h.lastGap g (by simpa using hg)
  apart := fun w hw => h.apart w (by
    cases words with
    | nil => cases hw
    | cons v vs => simp [hw])
  slash := fun w hw => h.slash w (List.mem_cons_of_mem _ hw)

/-- Spaced words begin with layout, which begins in front of the first of them if there is one. -/
theorem isLastGap_first (h : Spaced first words) : Layout.IsLastGap first := by
  cases words with
  | nil => exact h.isLastGap
  | cons w ws => exact .closed h.isGap

/-- A word is not read together with the first character behind it. -/
theorem not_extends (h : Spaced first ((x, gap) :: words)) :
    ∀ c ∈ (spacedText gap words).head?, ¬ Extends x c := by
  intro c hc hext
  -- Layout comes next, since only behind the last word there can be none.
  have hgap : c ∈ gap.head? := by
    cases gap with
    | cons d ds => exact hc
    | nil =>
      cases words with
      | nil => exact hc
      | cons w ws => exact absurd rfl (h.apart (x, []) (by simp))
  obtain ⟨rfl, rfl⟩ := hext.eq_slash (h.tail.isLastGap_first.head hgap)
  exact h.slash _ List.mem_cons_self rfl hgap

/-- Spaced words are tiled by their tokens. -/
theorem exists_tiles (h : Spaced first words) (p : Position) :
    ∃ tokens : List Token, Tiles (spacedText first words) p (tokens.map .ok) ∧
      tokens.map (fun t => t.text.toList) = words.map Prod.fst := by
  induction words generalizing first p with
  | nil =>
    refine ⟨[], ?_, rfl⟩
    rw [spacedText, List.flatMap_nil, List.append_nil]
    exact .ending h.isLastGap
  | cons w words ih =>
    obtain ⟨x, gap⟩ := w
    obtain ⟨kind, value, hx⟩ := (h.lexeme (x, gap) List.mem_cons_self).exists_lexeme
    obtain ⟨tokens, htiles, htexts⟩ := ih h.tail (p.advance (first ++ x))
    have htext : spacedText first ((x, gap) :: words) =
        first ++ (x ++ spacedText gap words) := by
      simp [spacedText]
    refine ⟨⟨kind, String.ofList x, value, p.advance first⟩ :: tokens, ?_, ?_⟩
    · rw [htext]
      exact .token h.isGap hx h.not_extends htiles
    · rw [List.map_cons, htexts, String.toList_ofList, List.map_cons]

end Spaced

/-- The scans of spaced words yield the tokens of the words, with the kinds and values that their
texts determine, and then the end of the source, however many scans there are. -/
theorem Cursor.scans_spaced {first : List Char} {words : List (List Char × List Char)}
    (h : Spaced first words) :
    ∃ tokens : List Token,
      (∀ times, (ofString (String.ofList (spacedText first words))).scans (words.length + times) =
        tokens.map .ok ++ List.replicate times
          (.ok (.endOfInput (Position.start.advance (spacedText first words))))) ∧
      tokens.map (fun t => t.text.toList) = words.map Prod.fst ∧
      ∀ t ∈ tokens, ∀ kind value,
        Lexeme t.text.toList kind value ↔ t.kind = kind ∧ t.value = value := by
  obtain ⟨tokens, htiles, htexts⟩ := h.exists_tiles .start
  refine ⟨tokens, fun times => ?_, htexts, fun t ht kind value => ?_⟩
  · have hstream := htiles.ofCursor_eq
    have hlength : tokens.length = words.length := by
      rw [← List.length_map (fun t : Token => t.text.toList), htexts, List.length_map]
    have hscans := scans_eq ⟨spacedText first words, .start⟩ times
    rw [hstream, List.length_map, hlength] at hscans
    rw [ofString, String.toList_ofList]
    exact hscans
  · have ht' := htiles.lexeme_of_mem (List.mem_map_of_mem ht)
    constructor
    · intro hlexeme
      exact ht'.unique hlexeme
    · rintro ⟨rfl, rfl⟩
      exact ht'

/-- Around the words of `007 / true` there can be a blank, a comment inside a comment, a line
comment behind a blank, and a line comment that ends with the source. -/
theorem Cursor.scans_spaced_comments :
    let first := [' ']
    let words := [(['0', '0', '7'], ['/', '*', '/', '*', '*', '/', '*', '/']),
      (['/'], [' ', '/', '/', '*', '\n']), (['t', 'r', 'u', 'e'], ['/', '/', ' '])]
    Spaced first words ∧ ∃ tokens : List Token,
      (∀ times, (ofString (String.ofList (spacedText first words))).scans (words.length + times) =
        tokens.map .ok ++ List.replicate times
          (.ok (.endOfInput (Position.start.advance (spacedText first words))))) ∧
      tokens.map (fun t => t.text.toList) = words.map Prod.fst ∧
      ∀ t ∈ tokens, ∀ kind value,
        Lexeme t.text.toList kind value ↔ t.kind = kind ∧ t.value = value := by
  intro first words
  have hblank : Layout.IsGap [' '] := Layout.Piece.isGap (.blank (by decide))
  have hnested : Layout.IsGap ['/', '*', '/', '*', '*', '/', '*', '/'] :=
    Layout.Piece.isGap (.block (by
      simp [Mark.ofText, Mark.closes_cons_iff, Mark.openBehind, Mark.closes_zero_iff]))
  have hline : Layout.IsGap ([' '] ++ '/' :: '/' :: (['*'] ++ ['\n'])) :=
    .append (.blank (by decide)) (Layout.Piece.isGap (.line (by decide)))
  have hlast : Layout.IsLastGap ([] ++ '/' :: '/' :: [' ']) := .openLine .nil (by decide)
  have hspaced : Spaced first words := by
    refine ⟨?_, ?_, ?_, by simp [words], by simp [words]⟩
    · simp only [words, List.forall_mem_cons]
      exact ⟨.digits (by decide) (List.all_eq_true.1 (by decide)), .punctuation (by decide),
        .word (by decide) (List.all_eq_true.1 (by decide)), List.forall_mem_nil _⟩
    · simp only [first, words, List.map_cons, List.map_nil, List.dropLast_cons_cons,
        List.dropLast_singleton, List.forall_mem_cons]
      exact ⟨hblank, hnested, hline, List.forall_mem_nil _⟩
    · intro gap hgap
      rw [← Option.some_inj.1 hgap]
      exact hlast
  exact ⟨hspaced, scans_spaced hspaced⟩

end Calculator
