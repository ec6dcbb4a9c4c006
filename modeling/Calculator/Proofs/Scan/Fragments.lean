import Calculator.Proofs.Reading.Places
import Calculator.Proofs.Scan.Tiling

/-!
# Texts that are scanned for themselves

The scan of a text does not end with it: what stands behind it can go on with its last token, or
with its last comment. A text is scanned for itself if it yields the same tokens whatever stands
behind it, as long as that begins where a token ends (`ScansAs`). Such texts can be put together,
with lexemes and spaces between them, and so can their tokens.

A newline behind a source ends its last token and the comment that it may end with, so that a source
without errors and a newline are scanned for themselves, at any place (`ScansAs.exists_newline`).
-/

namespace Calculator

/-- The text is empty, or begins with a character that extends no token. -/
def Ends (cs : List Char) : Prop := ∀ c ∈ cs.head?, c = ' ' ∨ c = ')'

/-- In front of the end of a token, the text that starts at the position `p` is scanned into the
tokens. -/
def ScansAs (text : List Char) (p : Position) (ts : List Token) : Prop :=
  ∀ rest rs, Ends rest → Tiles rest (p.advance text) rs → Tiles (text ++ rest) p (ts.map .ok ++ rs)

/-- The token has the kind and the value that its text determines. -/
def Token.IsLexed (t : Token) : Prop := Lexeme t.text.toList t.kind t.value

/-- Neither a space nor a closing parenthesis extends a token. -/
theorem Extends.not_ends {x : List Char} {c : Char} (h : Extends x c) :
    ¬ (c = ' ' ∨ c = ')') := by
  intro hc
  have hpart : Character.isWordPart c = false := by
    rcases hc with rfl | rfl
    · decide
    · decide
  obtain ⟨-, rfl | rfl⟩ := h.of_not_isWordPart hpart
  · exact absurd hc (by decide)
  · exact absurd hc (by decide)

/-- Two texts that begin where a token ends do so one after the other. -/
theorem Ends.append {cs ds : List Char} (h : Ends cs) (h' : Ends ds) : Ends (cs ++ ds) := by
  cases cs with
  | nil => exact h'
  | cons c cs => exact h

namespace ScansAs

variable {x y : List Char} {p : Position} {ts us : List Token} {t : Token}

/-- The empty text has no tokens. -/
theorem nil : ScansAs [] p [] := fun _ _ _ h => h

/-- A text in front of the end of a token is scanned for itself. -/
theorem append (hx : ScansAs x p ts) (hy : ScansAs y (p.advance x) us) (hends : Ends y) :
    ScansAs (x ++ y) p (ts ++ us) := by
  intro rest rs hrest h
  rw [Position.advance_append] at h
  have htail := hy rest rs hrest h
  have hall := hx (y ++ rest) _ (hends.append hrest) htail
  rwa [List.append_assoc, List.map_append, List.append_assoc]

/-- A space separates. -/
theorem space (h : ScansAs y (p.after ' ') us) : ScansAs (' ' :: y) p us := by
  intro rest rs hrest htiles
  have hspace : Layout.Piece [' '] := .blank (by decide)
  have htail : Tiles (y ++ rest) (p.advance [' ']) (us.map .ok ++ rs) := h rest rs hrest htiles
  have hall : Tiles ([' '] ++ (y ++ rest)) p (us.map .ok ++ rs) := htail.append_piece hspace
  exact hall

/-- A token comes first if what is behind it does not extend it. -/
theorem token (ht : t.IsLexed)
    (hmax : ∀ rest, Ends rest → ∀ c ∈ (y ++ rest).head?, ¬ Extends t.text.toList c)
    (h : ScansAs y (p.advance t.text.toList) us) :
    ScansAs (t.text.toList ++ y) p (t.placed p :: us) := by
  intro rest rs hrest htiles
  rw [Position.advance_append] at htiles
  have htoken := Tiles.token .nil ht (hmax rest hrest) (h rest rs hrest htiles)
  rw [String.ofList_toList] at htoken
  rwa [List.append_assoc]

/-- A token comes first in front of the end of a token. -/
theorem token_ends (ht : t.IsLexed) (hends : Ends y)
    (h : ScansAs y (p.advance t.text.toList) us) :
    ScansAs (t.text.toList ++ y) p (t.placed p :: us) :=
  token ht (fun _ hrest c hc hext => hext.not_ends ((hends.append hrest) c hc)) h

/-- A token that nothing extends comes first in front of anything. -/
theorem token_alone (ht : t.IsLexed) (halone : ∀ c, ¬ Extends t.text.toList c)
    (h : ScansAs y (p.advance t.text.toList) us) :
    ScansAs (t.text.toList ++ y) p (t.placed p :: us) :=
  token ht (fun _ _ c _ => halone c) h

/-- A token is scanned for itself. -/
theorem single (ht : t.IsLexed) : ScansAs t.text.toList p [t.placed p] := by
  have h : ScansAs (t.text.toList ++ []) p [t.placed p] := token_ends ht nofun nil
  rwa [List.append_nil] at h

/-- An operator between two spaces separates what is in front of it from what is behind it. -/
theorem operator (hx : ScansAs x p ts) (ht : t.IsLexed)
    (hy : ScansAs y ((((p.advance x).after ' ').advance t.text.toList).after ' ') us) :
    ScansAs (x ++ ' ' :: (t.text.toList ++ ' ' :: y)) p
      (ts ++ t.placed ((p.advance x).after ' ') :: us) := by
  have hends : ∀ cs, Ends (' ' :: cs) := fun cs c hc => .inl (Option.some_inj.1 hc).symm
  exact hx.append (space (token_ends ht (hends y) (space hy))) (hends _)

/-- A parenthesis comes first in front of anything. -/
theorem parenthesis {c : Char} {kind : TokenKind} (hc : Lexeme [c] kind none)
    (hmem : c ∈ ['(', ')']) (h : ScansAs y (p.after c) us) :
    ScansAs (c :: y) p (.punctuation kind c p :: us) := by
  have htext : (Token.punctuation kind c p).text.toList = [c] := String.toList_singleton c
  have hlexed : (Token.punctuation kind c p).IsLexed := by rwa [Token.IsLexed, htext]
  have halone : ∀ d, ¬ Extends [c] d := fun d =>
    not_extends_punctuation (List.mem_append_left ['+', '-', '*'] hmem)
  rw [← htext] at halone
  have hrest : ScansAs y (p.advance (Token.punctuation kind c p).text.toList) us := by rwa [htext]
  have htoken := token_alone hlexed halone hrest
  rwa [htext] at htoken

/-- A text in parentheses. -/
theorem parens (h : ScansAs x (p.after '(') ts) :
    ScansAs ('(' :: (x ++ [')'])) p
      (.punctuation .leftParen '(' p ::
        (ts ++ [.punctuation .rightParen ')' ((p.after '(').advance x)])) := by
  have hends : Ends [')'] := fun c hc => .inr (Option.some_inj.1 hc).symm
  exact parenthesis .leftParen (by decide)
    (h.append (parenthesis .rightParen (by decide) nil) hends)

/-- What the scans of a source yield that is scanned for itself. -/
theorem errors_tokens {source : String} (h : ScansAs source.toList .start ts) :
    (TokenStream.ofString source).errors = [] ∧ (TokenStream.ofString source).tokens = ts := by
  have htiles : Tiles (source.toList ++ []) .start (ts.map .ok ++ []) :=
    h [] [] nofun (.ending (.closed .nil))
  simp only [List.append_nil] at htiles
  have hstream : TokenStream.ofString source = ⟨ts.map .ok, _⟩ := htiles.ofCursor_eq
  have htokens : (TokenStream.ofString source).tokens = ts := by
    rw [hstream, TokenStream.tokens]
    simp [List.filterMap_map, Function.comp_def, Except.toOption]
  refine ⟨?_, htokens⟩
  rw [TokenStream.errors_eq_nil_iff, htokens, hstream]

end ScansAs

/-- The tokens of a source have the kinds and values that their texts determine. -/
theorem TokenStream.isLexed_of_mem_tokens {source : String} {t : Token}
    (ht : t ∈ (ofString source).tokens) : t.IsLexed := by
  obtain ⟨rs, hrs⟩ := Tiles.exists_tiles source.toList .start
  have hstream : ofString source = ⟨rs, _⟩ := hrs.ofCursor_eq
  rw [mem_tokens, hstream] at ht
  exact hrs.lexeme_of_mem ht

/-! ## Sources in front of a newline -/

/-- Nothing is read together with a newline. -/
theorem not_extends_newline (x : List Char) : ¬ Extends x '\n' := fun h =>
  absurd (h.of_not_isWordPart (by decide)).2 (by decide)

/-- A text that is tiled by tokens is scanned for itself with a newline behind it, into the same
tokens at any place. -/
theorem Tiles.exists_newline {cs : List Char} {p : Position} {rs : List (Except ScanError Token)}
    (h : Tiles cs p rs) {ts : List Token} (hts : rs = ts.map .ok) (q : Position) :
    ∃ us, us.map (·.placed .start) = ts.map (·.placed .start) ∧ ScansAs (cs ++ ['\n']) q us := by
  induction h generalizing ts q with
  | @ending gap p isLastGap =>
    obtain rfl : ts = [] := List.map_eq_nil_iff.1 hts.symm
    exact ⟨[], rfl, fun rest rs _ htiles => htiles.append_gap isLastGap.newline⟩
  | @token gap x rest p kind value rs isGap lexeme maximal tail ih =>
    obtain ⟨t, ts', rfl, ht, hts'⟩ := List.map_eq_cons_iff.1 hts.symm
    obtain rfl := Except.ok.inj ht
    obtain ⟨us, hus, hscans⟩ := ih hts'.symm (q.advance (gap ++ x))
    refine ⟨⟨kind, String.ofList x, value, q.advance gap⟩ :: us, ?_, ?_⟩
    · rw [List.map_cons, List.map_cons, hus]
      rfl
    · intro rest' rs' hrest' htiles
      -- What comes next is in the text itself, or it is the newline.
      have hmax : ∀ c ∈ (rest ++ ['\n'] ++ rest').head?, ¬ Extends x c := by
        cases rest with
        | nil =>
          intro c hc
          rw [← Option.some_inj.1 hc]
          exact not_extends_newline x
        | cons d ds => exact maximal
      rw [← List.append_assoc, List.append_assoc, Position.advance_append] at htiles
      have htail := hscans rest' rs' hrest' htiles
      have hall := Tiles.token isGap lexeme hmax htail
      rw [List.map_cons, List.cons_append]
      simpa only [List.append_assoc] using hall
  | foreign _ _ _ _ =>
    obtain ⟨t, ts, rfl, ht, -⟩ := List.map_eq_cons_iff.1 hts.symm
    cases ht
  | unterminated _ _ =>
    obtain ⟨t, ts, rfl, ht, -⟩ := List.map_eq_cons_iff.1 hts.symm
    cases ht

/-- A source without errors is scanned for itself with a newline behind it, into its tokens at any
place. -/
theorem ScansAs.exists_newline {source : String}
    (h : (TokenStream.ofString source).errors = []) (q : Position) :
    ∃ us, us.map (·.placed .start) =
        (TokenStream.ofString source).tokens.map (·.placed .start) ∧
      ScansAs (source.toList ++ ['\n']) q us := by
  obtain ⟨rs, hrs⟩ := Tiles.exists_tiles source.toList .start
  have hstream : TokenStream.ofString source = ⟨rs, _⟩ := hrs.ofCursor_eq
  have hahead := TokenStream.errors_eq_nil_iff.1 h
  refine hrs.exists_newline ?_ q
  rw [← hahead, hstream]

end Calculator
