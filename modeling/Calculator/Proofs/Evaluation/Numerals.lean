import Calculator.Proofs.Evaluation.Exact
import Calculator.Proofs.Scan.Fragments
import Calculator.Proofs.Scan.Spelling

/-!
# Sources that are one value

A source that is written as a value evaluates to it (`Spells.evaluate`). The digits of an integer in
range are one token, and so are the words for the booleans. With a minus sign in front the digits
are two tokens, which are read in one of two ways: as a sign in front of a number, or, if the number
is out of range by one, as one literal.

Digits beyond the range are reported, once, at their first digit, and there is no value. Together
this says for every string of digits, with or without a minus sign, what comes of it
(`evaluate_numerals`).
-/

namespace Calculator

variable {x digits : List Char} {kind : TokenKind} {value : Option Value}

/-! ## Scanning -/

/-- A lexeme is scanned into its token. -/
theorem Lexeme.errors_tokens (h : Lexeme x kind value) :
    (TokenStream.ofString (String.ofList x)).errors = [] ∧
      (TokenStream.ofString (String.ofList x)).tokens =
        [⟨kind, String.ofList x, value, .start⟩] := by
  let t : Token := ⟨kind, String.ofList x, value, .start⟩
  have ht : t.IsLexed := by
    rw [Token.IsLexed, String.toList_ofList]
    exact h
  exact (ScansAs.single ht (p := .start)).errors_tokens

/-- The sign in front of a negative integer. -/
def minusSign : Token := .punctuation .minus '-' .start

/-- The token of digits behind a minus sign. -/
def negatedDigits (digits : List Char) (value : Option Value) : Token :=
  ⟨.number, String.ofList digits, value, ⟨1, 2⟩⟩

/-- Digits behind a minus sign are scanned into two tokens. -/
theorem Lexeme.errors_tokens_negative (h : Lexeme digits .number value) :
    (TokenStream.ofString (String.ofList ('-' :: digits))).errors = [] ∧
      (TokenStream.ofString (String.ofList ('-' :: digits))).tokens =
        [minusSign, negatedDigits digits value] := by
  have ht : (negatedDigits digits value).IsLexed := by
    rw [Token.IsLexed, negatedDigits, String.toList_ofList]
    exact h
  have hsign : minusSign.IsLexed := Lexeme.minus
  have halone : ∀ c, ¬ Extends minusSign.text.toList c := hsign.not_extends_of_sign (.inr rfl)
  have hscans := ScansAs.token_alone (p := .start) hsign halone (ScansAs.single ht)
  have htext : minusSign.text.toList ++ (negatedDigits digits value).text.toList =
      (String.ofList ('-' :: digits)).toList := by
    simp [minusSign, negatedDigits, Token.punctuation]
  rw [htext] at hscans
  exact hscans.errors_tokens

/-! ## Values -/

/-- A source that is derived as a lone literal has its value. -/
theorem evaluate_of_derives_literal {source : String} {p : Derivation .term} {token : Token}
    {v : Value} (hp : p.Derives source) (htree : p.tree = .literal token) (hv : token.Denotes v) :
    evaluate source = .ok ⟨.empty, some v⟩ := by
  obtain ⟨hparse, hread⟩ := Reading.parse_of_derives hp
  exact evaluate_of_literal ((Reading.failed_parse_eq_false_iff source).1 hread)
    (hparse.trans htree) hv

/-- An operand that makes up a source derives it. -/
theorem Derivation.derives_of_unary {source : String} (d : Derivation .unary) {ts : List Token}
    (hscan : (TokenStream.ofString source).errors = [] ∧
      (TokenStream.ofString source).tokens = ts) (htokens : d.tokens = ts)
    (hdeep : d.deepest ≤ nestingLimit) : (ofFactor (ofUnary d)).Derives source :=
  ⟨hscan.1, htokens.trans hscan.2.symm, hdeep⟩

/-- A number that is the value of a 32-bit integer is in range. -/
theorem value_le_greatestNumber {n : Int32} (h : n.toInt = Decimal.value digits) :
    Decimal.value digits ≤ greatestNumber := by
  have hrange := inRange_toInt n
  rw [h, InRange] at hrange
  unfold greatestNumber
  omega

/-- A lexeme with a value evaluates to it. -/
theorem Lexeme.evaluate {v : Value} (h : Lexeme x kind (some v)) :
    evaluate (String.ofList x) = .ok ⟨.empty, some v⟩ := by
  let token : Token := ⟨kind, String.ofList x, some v, .start⟩
  have hscan := h.errors_tokens
  cases h with
  | @number _ _ isDigit n value =>
    have htext : token.text.toList = x := String.toList_ofList
    have hle : Decimal.value token.text.toList ≤ greatestNumber := by
      rw [htext]
      exact value_le_greatestNumber value
    have hwritten : n.toInt = token.written := by
      rw [Token.written_of_digits (by rwa [htext]), htext, value]
    let d : Derivation .unary := .ofPrimary (.number token rfl hle)
    exact evaluate_of_derives_literal (d.derives_of_unary hscan rfl (Nat.zero_le _)) rfl
      (.number rfl hwritten)
  | trueWord =>
    let d : Derivation .unary := .ofPrimary (.boolean token (.inl rfl))
    exact evaluate_of_derives_literal (d.derives_of_unary hscan rfl (Nat.zero_le _)) rfl
      (.trueWord rfl)
  | falseWord =>
    let d : Derivation .unary := .ofPrimary (.boolean token (.inr rfl))
    exact evaluate_of_derives_literal (d.derives_of_unary hscan rfl (Nat.zero_le _)) rfl
      (.falseWord rfl)

/-- A minus sign in front of the number that is out of range by one makes one literal. -/
theorem evaluate_least {n : Int32} (h : Lexeme digits .number value)
    (hvalue : Decimal.value digits = greatestNumber + 1)
    (hn : n.toInt = -(Decimal.value digits : ℤ)) :
    evaluate (String.ofList ('-' :: digits)) = .ok ⟨.empty, some (.int n)⟩ := by
  have htext : (negatedDigits digits value).text.toList = digits := String.toList_ofList
  let d : Derivation .unary :=
    .least minusSign (negatedDigits digits value) rfl rfl (by rw [htext, hvalue])
  have hwritten : n.toInt = (leastLiteral minusSign (negatedDigits digits value)).written := by
    rw [Token.written_leastLiteral, htext, hn]
  exact evaluate_of_derives_literal
    (d.derives_of_unary h.errors_tokens_negative rfl (Nat.zero_le _)) rfl (.number rfl hwritten)

/-- A minus sign in front of a number in range negates it. -/
theorem evaluate_negated {m n : Int32} (h : Lexeme digits .number (some (.int m)))
    (hm : m.toInt = Decimal.value digits) (hn : n.toInt = -(Decimal.value digits : ℤ)) :
    evaluate (String.ofList ('-' :: digits)) = .ok ⟨.empty, some (.int n)⟩ := by
  let token := negatedDigits digits (some (.int m))
  have htext : token.text.toList = digits := String.toList_ofList
  have hle : Decimal.value token.text.toList ≤ greatestNumber := by
    rw [htext]
    exact value_le_greatestNumber hm
  let d : Derivation .unary := .signed minusSign (.inr rfl) (.ofPrimary (.number token rfl hle))
  have hdeep : 1 ≤ nestingLimit := by decide
  have hd := d.derives_of_unary h.errors_tokens_negative rfl hdeep
  obtain ⟨hparse, hread⟩ := Reading.parse_of_derives hd
  -- Unlike the literal that the least integer is, this is a negation, which has to be in range.
  have himage : d.tree.image = .unary .negation (.literal (.int m)) := rfl
  have happly : UnaryOp.negation.apply m = .ok n := by
    rw [UnaryOp.apply_eq_ok_iff, hn, ← hm]
    rfl
  have heval : d.tree.image.eval = .ok (.int n) := by
    rw [himage, BoundTree.eval_unary_of_int rfl, happly]
    rfl
  exact evaluate_of_image_ok ((Reading.failed_parse_eq_false_iff _).1 hread) (by rw [hparse]; rfl)
    (by rw [hparse]; exact heval)

/-- A source that is written as a value evaluates to it. -/
theorem Spells.evaluate {v : Value} (h : Spells x v) :
    evaluate (String.ofList x) = .ok ⟨.empty, some v⟩ := by
  cases h with
  | digits nonempty isDigit value => exact (Lexeme.number nonempty isDigit value).evaluate
  | @negative digits nonempty isDigit n value =>
    cases hfit : fit? (Decimal.value digits) with
    | some m =>
      have hm : m.toInt = Decimal.value digits := fit?_eq_some_iff.1 hfit
      exact evaluate_negated (.number nonempty isDigit hm) hm value
    | none =>
      -- Only one number is out of range without the sign and in range with it.
      have hout := fit?_eq_none_iff.1 hfit
      have hrange := inRange_toInt n
      unfold InRange at hout hrange
      have hleast : Decimal.value digits = greatestNumber + 1 := by
        unfold greatestNumber
        omega
      exact evaluate_least (.tooGreat nonempty isDigit (by omega)) hleast value
  | trueWord => exact Lexeme.trueWord.evaluate
  | falseWord => exact Lexeme.falseWord.evaluate

/-! ## Numbers that are out of range -/

/-- A number that is out of range is read as an operand, and reported. -/
theorem Rules.unary_of_tooGreat {r : Reading} {t : Token} {ts : List Token}
    (hr : r.Faces (t :: ts)) (kind : t.kind = .number)
    (hgreat : greatestNumber < Decimal.value t.text.toList) (levels : ℕ) :
    (within levels).unary r = (.literal t, r.advance.fault t (.invalidNumber t.text)) := by
  obtain ⟨inner, heq⟩ := exists_within_eq_around levels
  have hcurrent : r.current = t := hr.current_cons
  have hnone : t.value = none :=
    ((hr.scanned t List.mem_cons_self).value_eq_none_iff kind).2 hgreat
  have hsign : Grammar.isTermOperator r.current = false := by
    simp [Grammar.isTermOperator, hcurrent, kind]
  rw [heq]
  calc Grammar.unary inner r = Grammar.primary inner r := Grammar.unary_of_not_sign hsign
    _ = Grammar.number r := by simp [Grammar.primary, hcurrent, kind]
    _ = (.literal t, r.advance.fault t (.invalidNumber t.text)) := by
      simp [Grammar.number, hcurrent, hnone]

/-- A source that is one operand with a fault at its end is reported just for that fault. -/
theorem Reading.reported_parse_of_fault {source : String} {tree : ParseTree} {r : Reading}
    {t : Token} {f : SyntaxFault} (hr : r.Faces [])
    (h : (Rules.within nestingLimit).unary (ofString source).advance = (tree, r.fault t f)) :
    (ofString source).parse.2.diagnostics.toList = [.syntactic t f] := by
  have hend : (r.fault t f).current.kind = .endOfInput := by
    rw [current_fault]
    exact hr.kind_nil
  have hfinish : (r.fault t f).finish = r.fault t f := if_pos (beq_iff_eq.2 hend)
  rw [parse_eq, readTerm, Rules.term_of_unary_atEnd h hend]
  dsimp only
  rw [hfinish, fault, if_neg (by simp [hr.lost]), Diagnostics.toList_report, hr.reported,
    List.nil_append]

/-- A source with one report of its reading has that report for its outcome. -/
theorem exists_evaluate_of_reported {source : String} {report : Diagnostic}
    (h : (Reading.ofString source).parse.2.diagnostics.toList = [report]) :
    ∃ d, evaluate source = .ok ⟨d, none⟩ ∧ d.toList = [report] := by
  have hne : (Reading.ofString source).parse.2.diagnostics.toList ≠ [] := by
    rw [h]
    exact List.cons_ne_nil _ _
  exact ⟨_, evaluate_of_eval_ok (compile_of_reported hne) (Compilation.eval_of_reported hne), h⟩

/-- Digits that are out of range are reported at the first of them, and have no value. -/
theorem evaluate_tooGreat (h : Lexeme digits .number value)
    (hgreat : greatestNumber < Decimal.value digits) :
    ∃ d, evaluate (String.ofList digits) = .ok ⟨d, none⟩ ∧
      d.toList = [.syntactic ⟨.number, String.ofList digits, value, .start⟩
        (.invalidNumber (String.ofList digits))] := by
  obtain ⟨herrors, htokens⟩ := h.errors_tokens
  have hfaces := Reading.faces_advance_ofString herrors
  rw [htokens] at hfaces
  have hunary := Rules.unary_of_tooGreat hfaces rfl (by rwa [String.toList_ofList]) nestingLimit
  exact exists_evaluate_of_reported (Reading.reported_parse_of_fault hfaces.advance hunary)

/-- Digits that are out of range also with a minus sign in front are reported at the first of them,
and have no value. -/
theorem evaluate_negative_tooGreat (h : Lexeme digits .number value)
    (hgreat : greatestNumber + 1 < Decimal.value digits) :
    ∃ d, evaluate (String.ofList ('-' :: digits)) = .ok ⟨d, none⟩ ∧
      d.toList = [.syntactic (negatedDigits digits value)
        (.invalidNumber (String.ofList digits))] := by
  obtain ⟨herrors, htokens⟩ := h.errors_tokens_negative
  have hfaces := Reading.faces_advance_ofString herrors
  rw [htokens] at hfaces
  have htext : (negatedDigits digits value).text.toList = digits := String.toList_ofList
  have hdigits : (negatedDigits digits value).Scanned := hfaces.scanned _ (by simp)
  have hunary := Rules.unary_of_tooGreat hfaces.advance rfl (by rw [htext]; omega) 255
  -- The sign makes no literal of a number that is out of range by more than one.
  have hliteral : Grammar.signedLiteral? minusSign (negatedDigits digits value) = none := by
    rw [Option.eq_none_iff_forall_ne_some]
    intro token htoken
    obtain ⟨-, -, hleast, -⟩ := (Grammar.signedLiteral?_eq_some_iff fun _ => hdigits).1 htoken
    rw [htext] at hleast
    omega
  rw [← hfaces.advance.current_cons, ← hfaces.current_cons] at hliteral
  have hsign : Grammar.isTermOperator (Reading.ofString _).advance.current = true :=
    Grammar.isTermOperator_iff.2 (.inr (congrArg Token.kind hfaces.current_cons))
  have hsigned : (Rules.within nestingLimit).unary
      (Reading.ofString (String.ofList ('-' :: digits))).advance = _ :=
    Grammar.unary_of_sign hsign hliteral
  rw [hunary] at hsigned
  exact exists_evaluate_of_reported
    (Reading.reported_parse_of_fault hfaces.advance.advance hsigned)

/-! ## Strings of digits -/

/-- The message about a number that is out of range names its position and its digits, twice. -/
theorem Diagnostic.message_invalidNumber (s : String) (value : Option Value) (p : Position) :
    (Diagnostic.syntactic ⟨.number, s, value, p⟩ (.invalidNumber s)).message =
      p.render ++ " Error at '" ++ s ++ "': Number literal '" ++ s ++ "' is not a valid int" := by
  have hkind : TokenKind.number ≠ .endOfInput := by decide
  have hplace : place ⟨.number, s, value, p⟩ = "'" ++ s ++ "'" := if_neg hkind
  have hmessage : (syntactic ⟨.number, s, value, p⟩ (.invalidNumber s)).message =
      p.render ++ " " ++ ("Error at " ++ place ⟨.number, s, value, p⟩ ++ ": " ++
        ("Number literal '" ++ s ++ "' is not a valid int")) := rfl
  have hfront : " Error at '" = " " ++ ("Error at " ++ "'") := by decide
  have hmiddle : "': Number literal '" = "'" ++ (": " ++ "Number literal '") := by decide
  rw [hmessage, hplace, hfront, hmiddle]
  simp only [String.append_assoc]

/-- An integer in range is that of a 32-bit integer. -/
theorem exists_toInt_eq {n : ℤ} (h : InRange n) : ∃ v : Int32, v.toInt = n := by
  cases hfit : fit? n with
  | some v => exact ⟨v, fit?_eq_some_iff.1 hfit⟩
  | none => exact absurd h (fit?_eq_none_iff.1 hfit)

/-- What comes of a string of digits with the decimal value `m`, and of a minus sign in front of it.
In range they evaluate to `m` and to `-m`. Out of range they are reported, once, at the first digit,
and there is no value. So every value is what its written form evaluates to. -/
theorem evaluate_numerals :
    (∀ s : String, s ≠ "" → (∀ c ∈ s.toList, c.isDigit = true) →
      let m := Decimal.value s.toList
      (m ≤ 2147483647 →
        ∃ n : Int32, n.toInt = m ∧ evaluate s = .ok ⟨.empty, some (.int n)⟩) ∧
      (2147483647 < m →
        ∃ d, evaluate s = .ok ⟨d, none⟩ ∧ d.toList.map Diagnostic.message =
          ["[1:1] Error at '" ++ s ++ "': Number literal '" ++ s ++ "' is not a valid int"]) ∧
      (m ≤ 2147483648 →
        ∃ n : Int32, n.toInt = -m ∧ evaluate ("-" ++ s) = .ok ⟨.empty, some (.int n)⟩) ∧
      (2147483648 < m →
        ∃ d, evaluate ("-" ++ s) = .ok ⟨d, none⟩ ∧ d.toList.map Diagnostic.message =
          ["[1:2] Error at '" ++ s ++ "': Number literal '" ++ s ++ "' is not a valid int"])) ∧
      ∀ v : Value, evaluate v.render = .ok ⟨.empty, some v⟩ := by
  refine ⟨fun s hne hdigit => ?_, fun v => ?_⟩
  · obtain ⟨digits, rfl⟩ : ∃ digits, s = String.ofList digits := ⟨_, String.ofList_toList.symm⟩
    rw [String.toList_ofList] at hdigit ⊢
    have hnil : digits ≠ [] := by
      rintro rfl
      exact hne rfl
    have hminus : "-" ++ String.ofList digits = String.ofList ('-' :: digits) := by
      simp
    rw [hminus]
    -- Whatever the digits are, the positions are fixed, and so are the fronts of the messages.
    have hfirst : Position.start.render ++ " Error at '" = "[1:1] Error at '" := by decide
    have hsecond : (Position.mk 1 2).render ++ " Error at '" = "[1:2] Error at '" := by decide
    intro m
    refine ⟨fun hle => ?_, fun hgt => ?_, fun hle => ?_, fun hgt => ?_⟩
    · obtain ⟨n, hn⟩ := exists_toInt_eq (n := m) (by constructor <;> omega)
      exact ⟨n, hn, (Spells.digits hnil hdigit hn).evaluate⟩
    · obtain ⟨d, hd, hreported⟩ := evaluate_tooGreat (.tooGreat hnil hdigit hgt) hgt
      refine ⟨d, hd, ?_⟩
      rw [hreported, List.map_singleton, Diagnostic.message_invalidNumber, hfirst]
    · obtain ⟨n, hn⟩ := exists_toInt_eq (n := -m) (by constructor <;> omega)
      exact ⟨n, hn, (Spells.negative hnil hdigit hn).evaluate⟩
    · obtain ⟨d, hd, hreported⟩ :=
        evaluate_negative_tooGreat (.tooGreat hnil hdigit (by omega)) hgt
      refine ⟨d, hd, ?_⟩
      rw [hreported, List.map_singleton, negatedDigits, Diagnostic.message_invalidNumber, hsecond]
  · have h := v.spells_render.evaluate
    rwa [String.ofList_toList] at h

/-- Leading zeros do not count, and `2147483648` is in range only behind a minus sign. -/
theorem evaluate_numerals_least :
    (∃ d, evaluate "002147483648" = .ok ⟨d, none⟩ ∧ d.toList.map Diagnostic.message =
      ["[1:1] Error at '002147483648': Number literal '002147483648' is not a valid int"]) ∧
      ∃ n : Int32, n.toInt = -2147483648 ∧
        evaluate "-002147483648" = .ok ⟨.empty, some (.int n)⟩ := by
  obtain ⟨-, hpositive, hnegative, -⟩ :=
    evaluate_numerals.1 "002147483648" (by decide) (List.all_eq_true.1 (by decide))
  exact ⟨hpositive (by decide), hnegative (by decide)⟩

end Calculator
