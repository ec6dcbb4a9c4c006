import Calculator.Proofs.Evaluation.Subjects
import Calculator.Proofs.Scan.Fragments
import Calculator.Proofs.Session.Answers
import Calculator.Proofs.Session.Bytes

/-!
# Messages are lines

The message of a report about a source is one line: it is not empty, and no newline stands in it
(`messages_are_lines`). So the messages can be told apart where they are written with newlines
between them or behind them.

A message is put together from fixed texts, from numbers, and from what it quotes of the source. It
quotes texts of tokens, which have no blanks in them, and characters that start neither a token nor
layout, which are no blanks.
-/

namespace Calculator

/-- No newline stands in the text. -/
def IsOneLine (text : String) : Prop := '\n' ∉ text.toList

/-- Whether a newline stands in a text is decided character by character. -/
instance decidableIsOneLine (text : String) : Decidable (IsOneLine text) :=
  inferInstanceAs (Decidable ('\n' ∉ text.toList))

/-- Two texts are one line together if each of them is. -/
theorem IsOneLine.append {s t : String} (hs : IsOneLine s) (ht : IsOneLine t) :
    IsOneLine (s ++ t) := by
  unfold IsOneLine at hs ht ⊢
  rw [String.toList_append, List.mem_append]
  exact not_or.2 ⟨hs, ht⟩

/-! ## What messages are put together from -/

/-- A number is written on one line. -/
theorem Decimal.isOneLine_ofNat (n : ℕ) : IsOneLine (ofNat n) := fun hmem =>
  absurd (isDigit_of_mem_ofNat hmem) (by decide)

/-- A position is written on one line. -/
theorem Position.isOneLine_render (p : Position) : IsOneLine p.render := by
  have hline := Decimal.isOneLine_ofNat p.line
  have hcolumn := Decimal.isOneLine_ofNat p.column
  have hopen : IsOneLine "[" := by decide
  have hcolon : IsOneLine ":" := by decide
  exact (((hopen.append hline).append hcolon).append hcolumn).append (by decide)

/-- A text on one line stays so with a position in front of it. -/
theorem Position.isOneLine_label {text : String} (h : IsOneLine text) (p : Option Position) :
    IsOneLine (label p text) := by
  cases p with
  | none => exact h
  | some p =>
    have hspace : IsOneLine " " := by decide
    exact (p.isOneLine_render.append hspace).append h

/-- The text of a token is one line. -/
theorem Token.IsLexed.isOneLine_text {t : Token} (h : t.IsLexed) : IsOneLine t.text := fun hmem =>
  absurd (h.isLexeme.isBlank_eq_false hmem) (by decide)

/-- A character that starts nothing is one line for itself. -/
theorem IsForeign.isOneLine_singleton {c : Char} (h : IsForeign c) :
    IsOneLine (String.singleton c) := by
  unfold IsOneLine
  rw [String.toList_singleton, List.mem_singleton]
  rintro rfl
  exact absurd h.blank (by decide)

/-- An error of the scan of a source is described on one line. -/
theorem ScanError.isOneLine_text {source : String} {e : ScanError}
    (he : .error e ∈ (TokenStream.ofString source).ahead) : IsOneLine e.text := by
  cases e with
  | unexpectedEnd => decide
  | unterminatedComment _ =>
    change IsOneLine "Unterminated block comment"
    decide
  | unexpectedCharacter q c =>
    obtain ⟨rs, hrs⟩ := Tiles.exists_tiles source.toList .start
    have hstream : TokenStream.ofString source = ⟨rs, _⟩ := hrs.ofCursor_eq
    rw [hstream] at he
    have hquote : IsOneLine "Unexpected character '" := by decide
    exact (hquote.append (hrs.isForeign_of_mem he).isOneLine_singleton).append (by decide)

/-- The name of a type is one line. -/
theorem Ty.isOneLine_name (ty : Ty) : IsOneLine ty.name := by
  cases ty <;> decide

/-- A fault with which the place is lost is described on one line. -/
theorem SyntaxFault.isOneLine_text {f : SyntaxFault} (h : f.losesPlace = true) :
    IsOneLine f.text := by
  cases f with
  | invalidNumber _ => cases h
  | expectedExpression | expectedClosing | expectedEnd | tooDeep => decide

/-! ## Messages -/

namespace Diagnostic

/-- A token of a source, or its end, is named on one line. -/
theorem isOneLine_place {source : String} {t : Token}
    (h : t ∈ (TokenStream.ofString source).tokens ∨ t = (TokenStream.ofString source).ending) :
    IsOneLine (place t) := by
  unfold place
  split
  · decide
  · next hkind =>
    rcases h with ht | rfl
    · have hquote : IsOneLine "'" := by decide
      have htext := (TokenStream.isLexed_of_mem_tokens ht).isOneLine_text
      exact (hquote.append htext).append hquote
    · exact absurd (TokenStream.proper_ofString source).ending hkind

/-- A token of a source is quoted on one line. -/
theorem isOneLine_quoted {source : String} {t : Token}
    (h : t ∈ (TokenStream.ofString source).tokens) {front behind : String}
    (hfront : IsOneLine front) (hbehind : IsOneLine behind) :
    IsOneLine (front ++ t.text ++ behind) :=
  (hfront.append (TokenStream.isLexed_of_mem_tokens h).isOneLine_text).append hbehind

/-- A report about a source is described on one line. -/
theorem IsAbout.isOneLine_text {source : String} {d : Diagnostic}
    (h : d.IsAbout (TokenStream.ofString source)) : IsOneLine d.text := by
  have herror : IsOneLine "Error at " := by decide
  have hcolon : IsOneLine ": " := by decide
  have hundefined : IsOneLine "' is not defined for type " := by decide
  cases h with
  | lexical mem => exact ScanError.isOneLine_text mem
  | misplaced mem losesPlace =>
    exact ((herror.append (isOneLine_place mem)).append hcolon).append
      (SyntaxFault.isOneLine_text losesPlace)
  | outOfRange mem =>
    have hnumber : IsOneLine "Number literal '" := by decide
    have hrange : IsOneLine "' is not a valid int" := by decide
    exact ((herror.append (isOneLine_place (.inl mem))).append hcolon).append
      (isOneLine_quoted mem hnumber hrange)
  | undefinedUnary mem =>
    have hunary : IsOneLine "Unary operator '" := by decide
    exact (isOneLine_quoted mem hunary hundefined).append (Ty.isOneLine_name _)
  | undefinedBinary mem =>
    have hbinary : IsOneLine "Binary operator '" := by decide
    have hand : IsOneLine " and " := by decide
    exact (((isOneLine_quoted mem hbinary hundefined).append (Ty.isOneLine_name _)).append
      hand).append (Ty.isOneLine_name _)

/-- The message of a report about a source is one line. -/
theorem IsAbout.isOneLine_message {source : String} {d : Diagnostic}
    (h : d.IsAbout (TokenStream.ofString source)) : IsOneLine d.message :=
  Position.isOneLine_label h.isOneLine_text d.position?

/-- No report is described by nothing, since there is a fixed text in each description. -/
theorem text_ne_empty (d : Diagnostic) : d.text ≠ "" := by
  intro h
  cases d with
  | lexical e =>
    cases e with
    | unexpectedEnd =>
      have htext : "Unexpected EOF" = "" := h
      exact absurd htext (by decide)
    | unexpectedCharacter p c =>
      have hquote : "'" = "" := (String.append_eq_empty_iff.1 h).2
      exact absurd hquote (by decide)
    | unterminatedComment p =>
      have htext : "Unterminated block comment" = "" := h
      exact absurd htext (by decide)
  | syntactic t f =>
    have hfront := (String.append_eq_empty_iff.1 h).1
    exact absurd (String.append_eq_empty_iff.1 hfront).2 (by decide)
  | undefinedUnary operator operand =>
    have hfront := (String.append_eq_empty_iff.1 h).1
    exact absurd (String.append_eq_empty_iff.1 hfront).2 (by decide)
  | undefinedBinary operator left right =>
    have hfront := (String.append_eq_empty_iff.1 h).1
    exact absurd (String.append_eq_empty_iff.1 hfront).2 (by decide)

/-- No message is empty. -/
theorem message_ne_empty (d : Diagnostic) : d.message ≠ "" := by
  unfold message
  cases d.position? with
  | none => exact d.text_ne_empty
  | some p => exact fun h => d.text_ne_empty (String.append_eq_empty_iff.1 h).2

end Diagnostic

/-- Written with newlines between them, the messages are found again by dividing at newlines. -/
theorem Diagnostics.split_render {α : Type} {d : Diagnostics α} {message : α → String}
    (hne : d.toList ≠ []) (h : ∀ r ∈ d.toList, IsOneLine (message r)) :
    ((d.render message).split '\n').toList.map (·.copy) = d.toList.map message := by
  have hnewline : "\n" = String.singleton '\n' := by decide
  rw [render, hnewline, String.toList_split_intercalate (List.forall_mem_map.2 h),
    if_neg (by simpa using hne)]

/-- With reports a session writes their messages to the channel for errors, each as a line. -/
theorem Session.split_err_answer (s : Session) {source : String} {c : Compilation}
    (hc : compile source = .ok c) (hne : c.diagnostics.toList ≠ [])
    (h : ∀ d ∈ c.diagnostics.toList, IsOneLine d.message) :
    Line.split (s.answer source).2.err.toUTF8.toList =
      c.diagnostics.toList.map fun d => Line.ofText d.message := by
  have hanswers : s.Answers source (evaluate source) (s.answer source) :=
    answers_of_reported hc hne
  rw [evaluate_of_eval_ok hc (Compilation.eval_of_reported hne)] at hanswers
  generalize s.answer source = a at hanswers ⊢
  cases hanswers with
  | reported _ =>
    have hlines := Line.split_join_newline (List.forall_mem_map.2 h)
    rwa [List.map_map, List.map_map] at hlines

/-- The message of every report about a source is a line: it is not empty, and no newline stands in
it. So if there are reports, the messages with newlines between them are divided into the messages
at the newlines, and a session writes to the channel for errors one line for each report, which is
its message. -/
theorem messages_are_lines (source : String) :
    ∃ c, compile source = .ok c ∧
      (∀ d ∈ c.diagnostics.toList, d.message ≠ "" ∧ '\n' ∉ d.message.toList) ∧
      (c.diagnostics.toList ≠ [] →
        ((c.diagnostics.render Diagnostic.message).split '\n').toList.map (·.copy) =
          c.diagnostics.toList.map Diagnostic.message ∧
        ∀ s : Session,
          Line.split (s.answer source).2.err.toUTF8.toList =
            c.diagnostics.toList.map (fun d => Line.ofText d.message) ∧
          (Line.split (s.answer source).2.err.toUTF8.toList).length = c.diagnostics.size) := by
  obtain ⟨c, stage, hc, -, -⟩ := exists_compile_stopsAt source
  have hline : ∀ d ∈ c.diagnostics.toList, IsOneLine d.message := fun d hd =>
    (isAbout_of_mem_compile hc d hd).isOneLine_message
  refine ⟨c, hc, fun d hd => ⟨d.message_ne_empty, hline d hd⟩, fun hne =>
    ⟨Diagnostics.split_render hne hline, fun s => ?_⟩⟩
  have hsplit := s.split_err_answer hc hne hline
  refine ⟨hsplit, ?_⟩
  rw [hsplit, List.length_map, Diagnostics.size_eq_length]

/-- Behind a comment with a newline in it, a character that starts nothing and a number that is out
of range are reported, and a parenthesis that nothing has opened, each on its own line. -/
theorem messages_are_lines_three :
    let source := "1 /* \n */ + # 99999999999)"
    let messages := ["[2:7] Unexpected character '#'",
      "[2:9] Error at '99999999999': Number literal '99999999999' is not a valid int",
      "[2:20] Error at ')': Expected end of input"]
    ∃ c, compile source = .ok c ∧ c.diagnostics.toList ≠ [] ∧
      ((c.diagnostics.render Diagnostic.message).split '\n').toList.map (·.copy) = messages ∧
      ∀ s : Session, (Line.split (s.answer source).2.err.toUTF8.toList).length = 3 := by
  intro source messages
  obtain ⟨c, hc, -, hlines⟩ := messages_are_lines source
  have hmessages : c.diagnostics.toList.map Diagnostic.message = messages := by
    have hcompile : (compile source).map (fun c => c.diagnostics.toList.map Diagnostic.message) =
        .ok messages := by decide +kernel
    rwa [hc, Except.map, Except.ok.injEq] at hcompile
  have hne : c.diagnostics.toList ≠ [] := by
    intro hnil
    rw [hnil] at hmessages
    exact List.cons_ne_nil _ _ hmessages.symm
  obtain ⟨hsplit, hsession⟩ := hlines hne
  refine ⟨c, hc, hne, hsplit.trans hmessages, fun s => ?_⟩
  rw [(hsession s).2, Diagnostics.size_eq_length, ← List.length_map, hmessages]
  rfl

end Calculator
