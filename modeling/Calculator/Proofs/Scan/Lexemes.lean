import Calculator.Proofs.Scan.Layout
import Calculator.Token.Scan

/-!
# The texts of tokens

A lexeme is the text of a token: a punctuation character, a string of digits, or a word. Its text
alone determines the kind and the value of its token (`Lexeme`). Some characters would change the
reading of a lexeme if they stood behind it: a digit behind a number, a letter or a digit behind a
word, and the second character of a comment behind a slash (`Extends`).

In front of any other character a lexeme is read as its token (`Lexeme.token`), and every text that
starts with no layout starts with such a lexeme or with a character that starts none
(`exists_lexeme`).
-/

namespace Calculator

/-- The text is that of a token of the kind, with the value. -/
inductive Lexeme : List Char → TokenKind → Option Value → Prop where
  | leftParen : Lexeme ['('] .leftParen none
  | rightParen : Lexeme [')'] .rightParen none
  | plus : Lexeme ['+'] .plus none
  | minus : Lexeme ['-'] .minus none
  | times : Lexeme ['*'] .times none
  | divide : Lexeme ['/'] .divide none
  /-- Digits have their decimal value. -/
  | number {digits : List Char} (nonempty : digits ≠ [])
      (isDigit : ∀ c ∈ digits, Character.isDigit c = true) {n : Int32}
      (value : n.toInt = Decimal.value digits) : Lexeme digits .number (some (.int n))
  /-- Digits whose decimal value is too great have no value. -/
  | tooGreat {digits : List Char} (nonempty : digits ≠ [])
      (isDigit : ∀ c ∈ digits, Character.isDigit c = true)
      (value : 2147483647 < Decimal.value digits) : Lexeme digits .number none
  | trueWord : Lexeme ['t', 'r', 'u', 'e'] .trueWord (some (.boolean true))
  | falseWord : Lexeme ['f', 'a', 'l', 's', 'e'] .falseWord (some (.boolean false))
  /-- Any other word is an identifier. -/
  | identifier {c : Char} {cs : List Char} (isLetter : Character.isLetter c = true)
      (isWordPart : ∀ d ∈ cs, Character.isWordPart d = true)
      (ne_true : c :: cs ≠ ['t', 'r', 'u', 'e']) (ne_false : c :: cs ≠ ['f', 'a', 'l', 's', 'e']) :
      Lexeme (c :: cs) .identifier none

/-- The texts that tokens can have. -/
inductive IsLexeme : List Char → Prop where
  /-- A punctuation character. -/
  | punctuation {c : Char} (mem : c ∈ ['(', ')', '+', '-', '*', '/']) : IsLexeme [c]
  /-- A string of digits. -/
  | digits {digits : List Char} (nonempty : digits ≠ [])
      (isDigit : ∀ c ∈ digits, Character.isDigit c = true) : IsLexeme digits
  /-- A letter with letters and digits behind it. -/
  | word {c : Char} {cs : List Char} (isLetter : Character.isLetter c = true)
      (isWordPart : ∀ d ∈ cs, Character.isWordPart d = true) : IsLexeme (c :: cs)

/-- Behind the lexeme the character would be read together with it. -/
inductive Extends : List Char → Char → Prop where
  /-- A number goes on with a digit. -/
  | number {d c : Char} {ds : List Char} (isDigit : Character.isDigit d = true)
      (goesOn : Character.isDigit c = true) : Extends (d :: ds) c
  /-- A word goes on with a letter or a digit. -/
  | word {d c : Char} {ds : List Char} (isLetter : Character.isLetter d = true)
      (goesOn : Character.isWordPart c = true) : Extends (d :: ds) c
  /-- A second slash starts a line comment. -/
  | lineComment : Extends ['/'] '/'
  /-- A star behind a slash starts a block comment. -/
  | blockComment : Extends ['/'] '*'

/-- The character starts neither a token nor layout. -/
structure IsForeign (c : Char) : Prop where
  /-- It is no blank. -/
  blank : Character.isBlank c = false
  /-- No text of a token starts with it. -/
  lexeme : ∀ cs, ¬ IsLexeme (c :: cs)

/-! ## Kinds and values -/

/-- The kinds and values are those of the texts that tokens can have. -/
theorem Lexeme.isLexeme {x : List Char} {kind : TokenKind} {value : Option Value}
    (h : Lexeme x kind value) : IsLexeme x := by
  cases h with
  | leftParen | rightParen | plus | minus | times | divide => exact .punctuation (by decide)
  | number nonempty isDigit _ => exact .digits nonempty isDigit
  | tooGreat nonempty isDigit _ => exact .digits nonempty isDigit
  | trueWord | falseWord => exact .word (by decide) (List.all_eq_true.1 (by decide))
  | identifier isLetter isWordPart _ _ => exact .word isLetter isWordPart

/-- No text is that of the end of the source. -/
theorem Lexeme.kind_ne {x : List Char} {kind : TokenKind} {value : Option Value}
    (h : Lexeme x kind value) : kind ≠ .endOfInput := by
  cases h <;> decide

/-- The token of a lexeme is not the end of the source. -/
theorem Lexeme.isEnd_token {x : List Char} {kind : TokenKind} {value : Option Value}
    (h : Lexeme x kind value) (text : String) (p : Position) :
    Cursor.isEnd (.ok ⟨kind, text, value, p⟩) = false := beq_eq_false_iff_ne.2 h.kind_ne

/-- The texts that tokens can have determine a kind and a value. -/
theorem IsLexeme.exists_lexeme {x : List Char} (h : IsLexeme x) :
    ∃ kind value, Lexeme x kind value := by
  cases h with
  | punctuation mem =>
    simp only [List.mem_cons, List.not_mem_nil, or_false] at mem
    rcases mem with rfl | rfl | rfl | rfl | rfl | rfl
    · exact ⟨_, _, .leftParen⟩
    · exact ⟨_, _, .rightParen⟩
    · exact ⟨_, _, .plus⟩
    · exact ⟨_, _, .minus⟩
    · exact ⟨_, _, .times⟩
    · exact ⟨_, _, .divide⟩
  | digits nonempty isDigit =>
    cases hfit : fit? (Decimal.value x) with
    | some n => exact ⟨_, _, .number nonempty isDigit (fit?_eq_some_iff.1 hfit)⟩
    | none =>
      have hrange : ¬ InRange (Decimal.value x) := fit?_eq_none_iff.1 hfit
      unfold InRange at hrange
      exact ⟨_, _, .tooGreat nonempty isDigit (by omega)⟩
  | @word c cs isLetter isWordPart =>
    by_cases htrue : c :: cs = ['t', 'r', 'u', 'e']
    · exact ⟨_, _, by rw [htrue]; exact .trueWord⟩
    · by_cases hfalse : c :: cs = ['f', 'a', 'l', 's', 'e']
      · exact ⟨_, _, by rw [hfalse]; exact .falseWord⟩
      · exact ⟨_, _, .identifier isLetter isWordPart htrue hfalse⟩

/-! ## Reading a lexeme -/

namespace Cursor

variable {q : Char → Bool} {x rest : List Char} {c : Char} {p : Position}

/-- A run of characters ends in front of the first one that is not of its class. -/
theorem takeWhile_append (hx : ∀ c ∈ x, q c = true) (hrest : ∀ c ∈ rest.head?, q c = false) :
    takeWhile q ⟨x ++ rest, p⟩ = x := by
  unfold takeWhile
  rw [List.takeWhile_append_of_pos hx]
  cases rest with
  | nil => simp
  | cons d ds => rw [List.takeWhile_cons_of_neg (by simp [hrest d rfl]), List.append_nil]

/-- Dropping a run of characters goes on at the first one that is not of its class. -/
theorem dropWhile_append (hx : ∀ c ∈ x, q c = true) (hrest : ∀ c ∈ rest.head?, q c = false) :
    dropWhile q ⟨x ++ rest, p⟩ = ⟨rest, p.advance x⟩ := by
  have htake : (x ++ rest).takeWhile q = x := takeWhile_append (p := p) hx hrest
  unfold dropWhile
  rw [htake, List.dropWhile_append_of_pos hx]
  cases rest with
  | nil => rfl
  | cons d ds => rw [List.dropWhile_cons_of_neg (by simp [hrest d rfl])]

/-- Digits are read as a number. -/
theorem token_digits (hne : x ≠ []) (hx : ∀ c ∈ x, Character.isDigit c = true)
    (hrest : ∀ c ∈ rest.head?, Character.isDigit c = false) :
    token ⟨x ++ rest, p⟩ = (.ok (.number x p), ⟨rest, p.advance x⟩) := by
  obtain ⟨c, cs, rfl⟩ := List.exists_cons_of_ne_nil hne
  have hc : Character.isDigit c = true := hx c List.mem_cons_self
  have htake := takeWhile_append (p := p) hx hrest
  have hdrop := dropWhile_append (p := p) hx hrest
  simp only [List.cons_append] at htake hdrop
  simp [token, atEnd, next, hc, htake, hdrop]

/-- A letter with letters and digits behind it is read as a word. -/
theorem token_word (hc : Character.isLetter c = true)
    (hx : ∀ d ∈ x, Character.isWordPart d = true)
    (hrest : ∀ d ∈ rest.head?, Character.isWordPart d = false) :
    token ⟨c :: x ++ rest, p⟩ = (.ok (.word (c :: x) p), ⟨rest, p.advance (c :: x)⟩) := by
  have hdigit : Character.isDigit c = false := Character.isDigit_eq_false_of_isLetter hc
  have hall : ∀ d ∈ c :: x, Character.isWordPart d = true := by
    simpa [Character.isWordPart, hc] using hx
  have htake := takeWhile_append (p := p) hall hrest
  have hdrop := dropWhile_append (p := p) hall hrest
  simp only [List.cons_append] at htake hdrop
  simp [token, atEnd, next, hc, hdigit, htake, hdrop]

/-- A punctuation character is read by itself. -/
theorem token_punctuation {kind : TokenKind} (hdigit : Character.isDigit c = false)
    (hletter : Character.isLetter c = false) (hkind : TokenKind.ofPunctuation? c = some kind) :
    token ⟨c :: rest, p⟩ = (.ok (.punctuation kind c p), ⟨rest, p.after c⟩) := by
  simp [token, atEnd, next, hdigit, hletter, hkind]

/-- Any other character is no punctuation. -/
theorem ofPunctuation?_eq_none (h : c ∉ ['(', ')', '+', '-', '*', '/']) :
    TokenKind.ofPunctuation? c = none := by
  unfold TokenKind.ofPunctuation?
  split <;> simp_all

/-- A character that starts nothing is read by itself, as an error. -/
theorem token_foreign (hc : IsForeign c) :
    token ⟨c :: rest, p⟩ = (.error (.unexpectedCharacter p c), ⟨rest, p.after c⟩) := by
  have hdigit : Character.isDigit c = false := by
    rw [Bool.eq_false_iff]
    exact fun h => hc.lexeme [] (.digits (List.cons_ne_nil c []) (by simpa using h))
  have hletter : Character.isLetter c = false := by
    rw [Bool.eq_false_iff]
    exact fun h => hc.lexeme [] (.word h nofun)
  have hkind : TokenKind.ofPunctuation? c = none :=
    ofPunctuation?_eq_none fun h => hc.lexeme [] (.punctuation h)
  simp [token, atEnd, next, hdigit, hletter, hkind]

end Cursor

variable {x rest : List Char} {kind : TokenKind} {value : Option Value} {p : Position}

/-- In front of a character that does not extend it a lexeme is read as its token. -/
theorem Lexeme.token (h : Lexeme x kind value) (hrest : ∀ c ∈ rest.head?, ¬ Extends x c) :
    Cursor.token ⟨x ++ rest, p⟩ =
      (.ok ⟨kind, String.ofList x, value, p⟩, ⟨rest, p.advance x⟩) := by
  have hdigits : x ≠ [] → (∀ c ∈ x, Character.isDigit c = true) →
      Cursor.token ⟨x ++ rest, p⟩ = (.ok (.number x p), ⟨rest, p.advance x⟩) := by
    intro hne hx
    refine Cursor.token_digits hne hx fun c hc => ?_
    obtain ⟨d, ds, rfl⟩ := List.exists_cons_of_ne_nil hne
    exact Bool.eq_false_iff.2 fun hdigit =>
      hrest c hc (.number (hx d List.mem_cons_self) hdigit)
  have hword : ∀ {d ds}, x = d :: ds → Character.isLetter d = true →
      (∀ e ∈ ds, Character.isWordPart e = true) →
      Cursor.token ⟨x ++ rest, p⟩ = (.ok (.word x p), ⟨rest, p.advance x⟩) := by
    rintro d ds rfl hd hds
    refine Cursor.token_word hd hds fun c hc => ?_
    exact Bool.eq_false_iff.2 fun hpart => hrest c hc (.word hd hpart)
  cases h with
  | leftParen | rightParen | plus | minus | times | divide =>
    exact Cursor.token_punctuation (by decide) (by decide) rfl
  | number nonempty isDigit hvalue =>
    rw [hdigits nonempty isDigit, Token.number, fit?_eq_some_iff.2 hvalue, Option.map_some]
  | tooGreat nonempty isDigit hvalue =>
    have hnone : fit? (Decimal.value x) = none := fit?_eq_none_iff.2 fun hrange => by
      unfold InRange at hrange
      omega
    rw [hdigits nonempty isDigit, Token.number, hnone, Option.map_none]
  | trueWord => exact hword rfl (by decide) (List.all_eq_true.1 (by decide))
  | falseWord => exact hword rfl (by decide) (List.all_eq_true.1 (by decide))
  | @identifier c cs isLetter isWordPart ne_true ne_false =>
    have htrue : String.ofList (c :: cs) ≠ "true" := fun h =>
      ne_true (by rw [← String.toList_ofList (l := c :: cs), h]; rfl)
    have hfalse : String.ofList (c :: cs) ≠ "false" := fun h =>
      ne_false (by rw [← String.toList_ofList (l := c :: cs), h]; rfl)
    rw [hword rfl isLetter isWordPart, Token.word]
    simp only [htrue, hfalse, if_false]

/-- A text determines the kind and the value of its token. -/
theorem Lexeme.unique {kind' : TokenKind} {value' : Option Value} (h : Lexeme x kind value)
    (h' : Lexeme x kind' value') : kind = kind' ∧ value = value' := by
  -- Both are read in front of the end of the source.
  have hread : ∀ {kind value}, Lexeme x kind value → Cursor.token ⟨x ++ [], .start⟩ =
      (.ok ⟨kind, String.ofList x, value, .start⟩, ⟨[], Position.start.advance x⟩) :=
    fun h => h.token nofun
  simpa using (hread h).symm.trans (hread h')

/-! ## Where lexemes start -/

/-- Only a digit extends a number. -/
theorem Extends.isDigit {d c : Char} {ds : List Char} (h : Extends (d :: ds) c)
    (hd : Character.isDigit d = true) : Character.isDigit c = true := by
  cases h with
  | number _ goesOn => exact goesOn
  | word isLetter _ => simp [Character.isDigit_eq_false_of_isLetter isLetter] at hd
  | lineComment | blockComment => exact absurd hd (by decide)

/-- Only a letter or a digit extends a word. -/
theorem Extends.isWordPart {d c : Char} {ds : List Char} (h : Extends (d :: ds) c)
    (hd : Character.isLetter d = true) : Character.isWordPart c = true := by
  cases h with
  | number isDigit _ => simp [Character.isDigit_eq_false_of_isLetter hd] at isDigit
  | word _ goesOn => exact goesOn
  | lineComment | blockComment => exact absurd hd (by decide)

/-- What is neither a letter nor a digit extends only a slash, to the start of a comment. -/
theorem Extends.of_not_isWordPart {c : Char} (h : Extends x c)
    (hc : Character.isWordPart c = false) : x = ['/'] ∧ (c = '/' ∨ c = '*') := by
  cases h with
  | number _ goesOn => simp [Character.isWordPart, goesOn] at hc
  | word _ goesOn => simp [goesOn] at hc
  | lineComment => exact ⟨rfl, .inl rfl⟩
  | blockComment => exact ⟨rfl, .inr rfl⟩

/-- Of the punctuation characters only a slash is extended, to the start of a comment. -/
theorem Extends.of_punctuation {d c : Char} (h : Extends [d] c)
    (hd : d ∈ ['(', ')', '+', '-', '*', '/']) : d = '/' ∧ (c = '/' ∨ c = '*') := by
  simp only [List.mem_cons, List.not_mem_nil, or_false] at hd
  cases h with
  | number isDigit _ => rcases hd with rfl | rfl | rfl | rfl | rfl | rfl <;> cases isDigit
  | word isLetter _ => rcases hd with rfl | rfl | rfl | rfl | rfl | rfl <;> cases isLetter
  | lineComment => exact ⟨rfl, .inl rfl⟩
  | blockComment => exact ⟨rfl, .inr rfl⟩

/-- Nothing extends a punctuation character that is not a slash. -/
theorem not_extends_punctuation {c d : Char} (h : c ∈ ['(', ')', '+', '-', '*']) :
    ¬ Extends [c] d := by
  intro hext
  have hmem : c ∈ ['(', ')', '+', '-', '*', '/'] := List.mem_append_left ['/'] h
  rw [(hext.of_punctuation hmem).1] at h
  exact absurd h (by decide)

/-- Nothing extends a sign. -/
theorem Lexeme.not_extends_of_sign (h : Lexeme x kind value)
    (hkind : kind = .plus ∨ kind = .minus) (c : Char) : ¬ Extends x c := by
  rcases hkind with rfl | rfl
  · cases h
    exact not_extends_punctuation (by decide)
  · cases h
    exact not_extends_punctuation (by decide)

/-- A minus sign has one text. -/
theorem Lexeme.eq_minus (h : Lexeme x kind value) (hkind : kind = .minus) : x = ['-'] := by
  subst hkind
  cases h
  rfl

/-- No lexeme is empty. -/
theorem IsLexeme.ne_nil (h : IsLexeme x) : x ≠ [] := by
  cases h with
  | punctuation _ => exact List.cons_ne_nil _ _
  | digits nonempty _ => exact nonempty
  | word _ _ => exact List.cons_ne_nil _ _

/-- No blank stands in a lexeme. -/
theorem IsLexeme.isBlank_eq_false (h : IsLexeme x) {c : Char} (hc : c ∈ x) :
    Character.isBlank c = false := by
  rw [Bool.eq_false_iff]
  intro hblank
  have hpart := Character.isWordPart_eq_false_of_isBlank hblank
  cases h with
  | punctuation mem =>
    obtain rfl := List.mem_singleton.1 hc
    simp only [List.mem_cons, List.not_mem_nil, or_false] at mem
    rcases mem with rfl | rfl | rfl | rfl | rfl | rfl <;> cases hblank
  | digits _ isDigit => simp [Character.isWordPart, isDigit c hc] at hpart
  | word isLetter isWordPart =>
    rcases List.mem_cons.1 hc with rfl | hc
    · simp [Character.isWordPart, isLetter] at hpart
    · simp [isWordPart c hc] at hpart

/-- Where a slash starts a lexeme it is the whole of it. -/
theorem IsLexeme.eq_slash {cs : List Char} (h : IsLexeme ('/' :: cs)) : cs = [] := by
  cases h with
  | punctuation _ => rfl
  | digits _ isDigit => exact absurd (isDigit '/' List.mem_cons_self) (by decide)
  | word isLetter _ => exact absurd isLetter (by decide)

/-- No layout starts where a lexeme does, unless what follows makes its slash the start of a
comment. -/
theorem IsLexeme.isBare (h : IsLexeme x) (hrest : ∀ c ∈ rest.head?, ¬ Extends x c) :
    Layout.IsBare (x ++ rest) := by
  cases x with
  | nil => exact absurd rfl h.ne_nil
  | cons c cs =>
    have hblank := h.isBlank_eq_false List.mem_cons_self
    rw [List.cons_append]
    unfold Layout.IsBare
    split
    · next ds heq =>
      obtain ⟨rfl, hcs⟩ := List.cons.inj heq
      obtain rfl := h.eq_slash
      exact hrest '/' (by rw [← List.nil_append rest, hcs]; rfl) .lineComment
    · next ds heq =>
      obtain ⟨rfl, hcs⟩ := List.cons.inj heq
      obtain rfl := h.eq_slash
      exact hrest '*' (by rw [← List.nil_append rest, hcs]; rfl) .blockComment
    · next d ds _ _ heq => rwa [← (List.cons.inj heq).1]
    · trivial

/-- No layout starts with a character that starts nothing. -/
theorem IsForeign.isBare {c : Char} (h : IsForeign c) : Layout.IsBare (c :: rest) := by
  have hslash : c ≠ '/' := fun hc => h.lexeme [] (.punctuation (by simp [hc]))
  unfold Layout.IsBare
  split
  · next heq => exact hslash (List.cons.inj heq).1
  · next heq => exact hslash (List.cons.inj heq).1
  · next heq =>
    rw [← (List.cons.inj heq).1]
    exact h.blank
  · trivial

/-- The first character behind a longest run is not of the class of the run. -/
theorem head?_dropWhile (q : Char → Bool) (cs : List Char) :
    ∀ c ∈ (cs.dropWhile q).head?, q c = false := by
  intro c hc
  have hnot := List.head?_dropWhile_not q cs
  rwa [hc] at hnot

/-- Where no layout starts there is no blank. -/
theorem Layout.IsBare.isBlank_eq_false {c : Char} {cs : List Char} (h : IsBare (c :: cs)) :
    Character.isBlank c = false := by
  unfold IsBare at h
  split at h
  · exact h.elim
  · exact h.elim
  · next d ds _ _ heq => rwa [(List.cons.inj heq).1]
  · next heq => exact absurd heq (List.cons_ne_nil c cs)

/-- Where no layout starts and the source does not end, a lexeme starts that goes on as far as
possible, or there is a character that starts nothing. -/
theorem exists_lexeme {cs : List Char} (hbare : Layout.IsBare cs) (hne : cs ≠ []) :
    (∃ x rest, cs = x ++ rest ∧ IsLexeme x ∧ ∀ c ∈ rest.head?, ¬ Extends x c) ∨
      ∃ c rest, cs = c :: rest ∧ IsForeign c := by
  obtain ⟨c, cs, rfl⟩ := List.exists_cons_of_ne_nil hne
  by_cases hdigit : Character.isDigit c = true
  · refine .inl ⟨c :: cs.takeWhile Character.isDigit, cs.dropWhile Character.isDigit, ?_,
      .digits (List.cons_ne_nil _ _) ?_, fun d hd hext => ?_⟩
    · rw [List.cons_append, List.takeWhile_append_dropWhile]
    · rw [List.forall_mem_cons]
      exact ⟨hdigit, List.all_eq_true.1 List.all_takeWhile⟩
    · exact absurd (hext.isDigit hdigit) (by simp [head?_dropWhile _ _ d hd])
  by_cases hletter : Character.isLetter c = true
  · refine .inl ⟨c :: cs.takeWhile Character.isWordPart, cs.dropWhile Character.isWordPart, ?_,
      .word hletter (List.all_eq_true.1 List.all_takeWhile), fun d hd hext => ?_⟩
    · rw [List.cons_append, List.takeWhile_append_dropWhile]
    · exact absurd (hext.isWordPart hletter) (by simp [head?_dropWhile _ _ d hd])
  by_cases hmem : c ∈ ['(', ')', '+', '-', '*', '/']
  · refine .inl ⟨[c], cs, rfl, .punctuation hmem, fun d hd hext => ?_⟩
    obtain ⟨ds, rfl⟩ := List.head?_eq_some_iff.1 hd
    -- A slash that is extended starts layout.
    obtain ⟨rfl, rfl | rfl⟩ := hext.of_punctuation hmem
    · exact hbare
    · exact hbare
  · refine .inr ⟨c, cs, rfl, hbare.isBlank_eq_false, fun ds h => ?_⟩
    cases h with
    | punctuation mem => exact hmem mem
    | digits _ isDigit => exact hdigit (isDigit c List.mem_cons_self)
    | word isLetter _ => exact hletter isLetter

end Calculator
