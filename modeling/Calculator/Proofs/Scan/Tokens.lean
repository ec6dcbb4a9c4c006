import Calculator.Token.Stream

/-!
# What the scan of a source yields

Every token that a scan yields in front of the end of the source denotes what its text says
(`Token.Scanned`): a number its decimal value if that is in range, and a boolean word its boolean.
A scan never reports that the source has ended. `TokenStream.proper_ofString` collects these facts
for the stream of a whole source, and `TokenStream.tokens` and `TokenStream.errors` divide such a
stream into what was read and what could not be read.
-/

namespace Calculator

/-- A token as the scan makes it in front of the end of the source: its value is the one that its
text denotes. -/
structure Token.Scanned (t : Token) : Prop where
  /-- The token is not the end of the source. -/
  kind_ne : t.kind ≠ .endOfInput
  /-- The text of a number consists of digits. -/
  digits : t.kind = .number → ∀ c ∈ t.text.toList, c.isDigit = true
  /-- A number has its decimal value if that is in range, and no value otherwise. -/
  number : t.kind = .number → t.value = (fit? (Decimal.value t.text.toList)).map .int
  /-- The word `true` has the value true. -/
  trueWord : t.kind = .trueWord → t.value = some (.boolean true)
  /-- The word `false` has the value false. -/
  falseWord : t.kind = .falseWord → t.value = some (.boolean false)

namespace Token

/-- The token of a string of digits is as the scan makes it. -/
theorem scanned_number {digits : List Char} (h : ∀ c ∈ digits, c.isDigit = true)
    (p : Position) : (number digits p).Scanned where
  kind_ne := nofun
  digits := fun _ => by simpa [Token.number] using h
  number := fun _ => by simp [Token.number]
  trueWord := nofun
  falseWord := nofun

/-- The token of a word is as the scan makes it. -/
theorem scanned_word (letters : List Char) (p : Position) : (word letters p).Scanned := by
  -- No branch of the definition makes a number of a word.
  have hkind : (word letters p).kind ≠ .number := by
    unfold word
    dsimp only
    split
    · exact nofun
    · split <;> exact nofun
  refine ⟨Cursor.kind_word_ne_endOfInput letters p, fun hk => absurd hk hkind,
    fun hk => absurd hk hkind, ?_, ?_⟩
  · unfold word
    dsimp only
    split
    · exact fun _ => rfl
    · split <;> exact nofun
  · unfold word
    dsimp only
    split
    · exact nofun
    · split
      · exact fun _ => rfl
      · exact nofun

/-- A punctuation character denotes neither a number nor a boolean. -/
theorem kind_of_ofPunctuation? {c : Char} {kind : TokenKind}
    (h : TokenKind.ofPunctuation? c = some kind) :
    kind ≠ .number ∧ kind ≠ .trueWord ∧ kind ≠ .falseWord := by
  unfold TokenKind.ofPunctuation? at h
  split at h <;> cases h <;> decide

/-- The token of a punctuation character is as the scan makes it. -/
theorem scanned_punctuation {c : Char} {kind : TokenKind}
    (h : TokenKind.ofPunctuation? c = some kind) (p : Position) :
    (punctuation kind c p).Scanned := by
  obtain ⟨hn, ht, hf⟩ := kind_of_ofPunctuation? h
  refine ⟨?_, fun hk => absurd hk hn, fun hk => absurd hk hn, fun hk => absurd hk ht,
    fun hk => absurd hk hf⟩
  intro hk
  exact Cursor.ofPunctuation?_ne_endOfInput c (h.trans (congrArg some hk))

end Token

namespace Cursor

/-- Away from the end of the source a reading of a token yields a token as the scan makes it, or a
character that starts no token. -/
theorem token_fst_of_rest_ne_nil {c : Cursor} (h : c.rest ≠ []) :
    (∃ t, c.token.1 = .ok t ∧ t.Scanned) ∨
      ∃ p ch, c.token.1 = .error (.unexpectedCharacter p ch) := by
  have hend : c.atEnd = false := by simpa [atEnd] using h
  obtain ⟨ch, d, hn⟩ : ∃ ch d, c.next = .ok (ch, d) := by
    cases hr : c.rest with
    | nil => exact absurd hr h
    | cons ch rest => exact ⟨ch, _, by rw [next, hr]⟩
  simp only [token, hend, hn, Bool.false_eq_true, if_false]
  split
  · refine .inl ⟨_, rfl, Token.scanned_number (fun c hc => ?_) _⟩
    exact List.all_eq_true.1 List.all_takeWhile c hc
  · split
    · exact .inl ⟨_, rfl, Token.scanned_word _ _⟩
    · split
      · next kind hk => exact .inl ⟨_, rfl, Token.scanned_punctuation hk _⟩
      · exact .inr ⟨_, _, rfl⟩

/-- A scan that does not find the end of the source yields a token as the scan makes it, or an
error that is not the end of the source. -/
theorem scan_fst_of_not_isEnd {c : Cursor} (h : isEnd c.scan.1 = false) :
    (∃ t, c.scan.1 = .ok t ∧ t.Scanned) ∨ ∃ e, c.scan.1 = .error e ∧ e ≠ .unexpectedEnd := by
  unfold scan at h ⊢
  split
  · exact .inr ⟨_, rfl, by simp⟩
  · next d hs =>
    rw [hs] at h
    have hd : d.rest ≠ [] := fun hd => by
      simp [token, atEnd, hd, isEnd, Token.endOfInput] at h
    rcases token_fst_of_rest_ne_nil hd with ⟨t, ht, hscan⟩ | ⟨p, ch, he⟩
    · exact .inl ⟨t, ht, hscan⟩
    · exact .inr ⟨_, he, by simp⟩

end Cursor

namespace TokenStream

/-- What the scans of a source make up: tokens as the scan makes them and errors that are not the
end of the source, and then the end. -/
structure Proper (s : TokenStream) : Prop where
  /-- Every token in front of the end is as the scan makes it. -/
  scanned : ∀ t, .ok t ∈ s.ahead → t.Scanned
  /-- No error in front of the end says that the source has ended. -/
  noEnd : .error .unexpectedEnd ∉ s.ahead
  /-- The stream ends with the end of the source. -/
  ending : s.ending.kind = .endOfInput

/-- The scans from any place in a source make up a proper stream. -/
theorem proper_ofCursor (c : Cursor) : (ofCursor c).Proper := by
  fun_induction ofCursor c with
  | case1 => exact ⟨by simp, by simp, rfl⟩
  | case2 c h ih =>
    have hfst := Cursor.scan_fst_of_not_isEnd (Bool.eq_false_iff.2 h)
    refine ⟨fun t ht => ?_, fun hend => ?_, ih.ending⟩
    · rcases List.mem_cons.1 ht with ht | ht
      · rcases hfst with ⟨u, hu, hscan⟩ | ⟨e, he, -⟩
        · rw [hu, Except.ok.injEq] at ht
          exact ht ▸ hscan
        · simp [he] at ht
      · exact ih.scanned t ht
    · rcases List.mem_cons.1 hend with hend | hend
      · rcases hfst with ⟨u, hu, -⟩ | ⟨e, he, hne⟩
        · simp [hu] at hend
        · rw [he, Except.error.injEq] at hend
          exact hne hend.symm
      · exact ih.noEnd hend

/-- The scans of a source make up a proper stream. -/
theorem proper_ofString (source : String) : (ofString source).Proper :=
  proper_ofCursor _

/-- The results up to the first token are errors and that token, or errors only if no token is
left; the end then stands in for it. -/
theorem nextOf_cases (ending : Token) {ahead : List (Except ScanError Token)}
    (h : .error .unexpectedEnd ∉ ahead) :
    ahead = (nextOf ending ahead).1.map .error ++
        .ok (nextOf ending ahead).2.1 :: (nextOf ending ahead).2.2 ∨
      ahead = (nextOf ending ahead).1.map .error ∧ (nextOf ending ahead).2.1 = ending ∧
        (nextOf ending ahead).2.2 = [] := by
  fun_induction nextOf ending ahead with
  | case1 => exact .inr ⟨rfl, rfl, rfl⟩
  | case2 t rest => exact .inl rfl
  | case3 rest => simp at h
  | case4 e rest _ errors t rest' hrest ih =>
    rw [hrest] at ih
    rcases ih fun hmem => h (List.mem_cons_of_mem _ hmem) with heq | ⟨heq, ht, hnil⟩
    · exact .inl (congrArg (.error e :: ·) heq)
    · exact .inr ⟨congrArg (.error e :: ·) heq, ht, hnil⟩

/-- The tokens in front of the end of the source. -/
def tokens (s : TokenStream) : List Token := s.ahead.filterMap Except.toOption

/-- What could not be read as a token. -/
def errors (s : TokenStream) : List ScanError :=
  s.ahead.filterMap fun
    | .ok _ => none
    | .error e => some e

/-- A token of a stream is one of its results. -/
theorem mem_tokens {s : TokenStream} {t : Token} : t ∈ s.tokens ↔ .ok t ∈ s.ahead := by
  unfold tokens
  rw [List.mem_filterMap]
  constructor
  · rintro ⟨r, hr, ht⟩
    cases r with
    | error e => simp [Except.toOption] at ht
    | ok u => rwa [← Option.some_inj.1 ht]
  · intro ht
    exact ⟨_, ht, rfl⟩

/-- Nothing failed to be read exactly when every result is a token. -/
theorem errors_eq_nil_iff {s : TokenStream} :
    s.errors = [] ↔ s.ahead = s.tokens.map .ok := by
  obtain ⟨ahead, ending⟩ := s
  unfold errors tokens
  dsimp only
  induction ahead with
  | nil => simp
  | cons r rest ih =>
    cases r with
    | error e =>
      refine ⟨by simp, fun h => ?_⟩
      -- A list of tokens does not start with an error.
      obtain ⟨t, -, ht⟩ := List.mem_map.1 (h ▸ List.mem_cons_self)
      cases ht
    | ok t => simpa [Except.toOption] using ih

/-! ## Streams in parts -/

variable {ending : Token}

/-- The errors of two lists of results are those of the one and then those of the other. -/
theorem errors_append (xs ys : List (Except ScanError Token)) :
    errors ⟨xs ++ ys, ending⟩ = errors ⟨xs, ending⟩ ++ errors ⟨ys, ending⟩ :=
  List.filterMap_append

/-- The tokens of two lists of results are those of the one and then those of the other. -/
theorem tokens_append (xs ys : List (Except ScanError Token)) :
    tokens ⟨xs ++ ys, ending⟩ = tokens ⟨xs, ending⟩ ++ tokens ⟨ys, ending⟩ :=
  List.filterMap_append

/-- Of errors the errors are all. -/
@[simp] theorem errors_map_error (es : List ScanError) : errors ⟨es.map .error, ending⟩ = es := by
  induction es with
  | nil => rfl
  | cons e es ih => exact congrArg (e :: ·) ih

/-- Among errors there is no token. -/
@[simp] theorem tokens_map_error (es : List ScanError) : tokens ⟨es.map .error, ending⟩ = [] := by
  simp [tokens, List.filterMap_map, Function.comp_def, Except.toOption]

/-- A token is no error. -/
@[simp] theorem errors_cons_ok (t : Token) (xs : List (Except ScanError Token)) :
    errors ⟨.ok t :: xs, ending⟩ = errors ⟨xs, ending⟩ := rfl

/-- A token in front is the first token. -/
@[simp] theorem tokens_cons_ok (t : Token) (xs : List (Except ScanError Token)) :
    tokens ⟨.ok t :: xs, ending⟩ = t :: tokens ⟨xs, ending⟩ := rfl

/-- The next token is the first one, or the end if there is none, and the others are behind it. -/
theorem next_eq_headD_tail {s : TokenStream} (h : .error .unexpectedEnd ∉ s.ahead) :
    s.next.2.1 = s.tokens.headD s.ending ∧ s.next.2.2.tokens = s.tokens.tail := by
  obtain ⟨ahead, ending⟩ := s
  have hcases := nextOf_cases ending h
  change (nextOf ending ahead).2.1 = _ ∧ tokens ⟨(nextOf ending ahead).2.2, ending⟩ = _
  dsimp only at hcases
  generalize nextOf ending ahead = n at hcases ⊢
  rcases hcases with heq | ⟨heq, ht, hnil⟩
  · have htokens : tokens ⟨ahead, ending⟩ = n.2.1 :: tokens ⟨n.2.2, ending⟩ := by
      rw [heq, tokens_append, tokens_map_error, tokens_cons_ok, List.nil_append]
    rw [htokens]
    exact ⟨rfl, rfl⟩
  · have htokens : tokens ⟨ahead, ending⟩ = [] := by rw [heq, tokens_map_error]
    rw [htokens, hnil]
    exact ⟨ht, rfl⟩

/-- What is ahead of the next token was ahead before. -/
theorem mem_of_mem_next {s : TokenStream} {x : Except ScanError Token}
    (h : .error .unexpectedEnd ∉ s.ahead) (hx : x ∈ s.next.2.2.ahead) : x ∈ s.ahead := by
  have hcases := nextOf_cases s.ending h
  change x ∈ (nextOf s.ending s.ahead).2.2 at hx
  generalize nextOf s.ending s.ahead = n at hcases hx
  rcases hcases with heq | ⟨-, -, hnil⟩
  · rw [heq]
    exact List.mem_append_right _ (List.mem_cons_of_mem _ hx)
  · rw [hnil] at hx
    cases hx

end TokenStream

end Calculator
