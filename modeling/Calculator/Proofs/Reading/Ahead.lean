import Calculator.ParseTree.Reading
import Calculator.Proofs.Scan.Tokens

/-!
# What a reading has in front of it

As long as nothing is wrong, what a reading still has in front of it is a list of tokens: the one in
view and those behind it (`Reading.Faces`). Bringing the next token into view takes one off its
front, and any fault is then a failure.
-/

namespace Calculator.Reading

/-- Nothing has been wrong, and the tokens `ts` are left: the first of them in view, the others
ahead, and the end of the source behind them. -/
structure Faces (r : Reading) (ts : List Token) : Prop where
  /-- Nothing was wrong so far. -/
  failed : r.failed = false
  /-- Nothing was reported so far. -/
  reported : r.diagnostics.toList = []
  /-- The place is not lost. -/
  lost : r.lost = false
  /-- The first token is in view, or the end of the source if there is none. -/
  current : r.current = ts.headD r.stream.ending
  /-- The other tokens are ahead, without errors between them. -/
  ahead : r.stream.ahead = ts.tail.map .ok
  /-- The stream ends with the end of the source. -/
  ending : r.stream.ending.kind = .endOfInput
  /-- The tokens are as the scan makes them. -/
  scanned : ∀ t ∈ ts, t.Scanned

namespace Faces

variable {r : Reading} {t : Token} {ts : List Token}

/-- The first token is in view. -/
theorem current_cons (h : r.Faces (t :: ts)) : r.current = t := h.current

/-- Without tokens the end of the source is in view. -/
theorem kind_nil (h : r.Faces []) : r.current.kind = .endOfInput := by
  rw [h.current]
  exact h.ending

/-- Bringing the next token into view takes the first one off. -/
theorem advance (h : r.Faces (t :: ts)) : r.advance.Faces ts := by
  obtain ⟨⟨ahead, ending⟩, current, diagnostics, failed, lost⟩ := r
  obtain ⟨hf, hd, hl, -, ha, he, hs⟩ := h
  simp only [List.tail_cons] at hf hl ha he
  subst hf hl ha
  have hscan : ∀ u ∈ ts, u.Scanned := fun u hu => hs u (List.mem_cons_of_mem _ hu)
  -- Behind the last token the end of the stream comes into view, as often as it is asked for.
  cases ts with
  | nil => exact ⟨rfl, hd, rfl, rfl, rfl, he, hscan⟩
  | cons u us => exact ⟨rfl, hd, rfl, rfl, rfl, he, hscan⟩

/-- A token in view that is not the end of the source is the first of those left. -/
theorem exists_eq_cons (h : r.Faces ts) (hk : r.current.kind ≠ .endOfInput) :
    ∃ us, ts = r.current :: us := by
  cases ts with
  | nil => exact absurd h.kind_nil hk
  | cons u us => exact ⟨us, by rw [h.current_cons]⟩

/-- The token in view is as the scan makes it, unless it is the end of the source. -/
theorem scanned_current (h : r.Faces ts) (hk : r.current.kind ≠ .endOfInput) :
    r.current.Scanned := by
  obtain ⟨us, rfl⟩ := h.exists_eq_cons hk
  exact h.scanned _ List.mem_cons_self

/-- Any fault is a failure. -/
theorem failed_fault (h : r.Faces ts) (token : Token) (f : SyntaxFault) :
    (r.fault token f).failed = true := by
  simp [fault, h.lost]

end Faces

/-- In front of a stream without errors a reading faces all of its tokens. -/
theorem faces_advance_start {s : TokenStream} (hs : s.Proper) (he : s.errors = []) :
    (start s).advance.Faces s.tokens := by
  have hscan : ∀ t ∈ s.tokens, t.Scanned := fun t ht =>
    hs.scanned t (TokenStream.mem_tokens.1 ht)
  have hahead := TokenStream.errors_eq_nil_iff.1 he
  have hend := hs.ending
  generalize s.tokens = ts at hahead hscan ⊢
  obtain ⟨ahead, ending⟩ := s
  simp only at hahead
  subst hahead
  cases ts with
  | nil => exact ⟨rfl, rfl, rfl, rfl, rfl, hend, hscan⟩
  | cons u us => exact ⟨rfl, rfl, rfl, rfl, rfl, hend, hscan⟩

/-- In front of a source without errors a reading faces all of its tokens. -/
theorem faces_advance_ofString {source : String} (h : (TokenStream.ofString source).errors = []) :
    (ofString source).advance.Faces (TokenStream.ofString source).tokens :=
  faces_advance_start (TokenStream.proper_ofString source) h

end Calculator.Reading
