import Calculator.Proofs.Scan.Lexemes

/-!
# The ways to write a value

An integer is written with its digits, and with a minus sign in front of them if it is negative;
leading zeros do not count. A boolean is one word (`Spells`). A text that is a token with a value is
a way to write that value (`Lexeme.spells`), and so is the written form of a value
(`Value.spells_render`), whose minus sign makes it two tokens.
-/

namespace Calculator

/-- The text is a way to write the value. -/
inductive Spells : List Char → Value → Prop where
  /-- Digits have their decimal value. -/
  | digits {digits : List Char} (nonempty : digits ≠ [])
      (isDigit : ∀ c ∈ digits, Character.isDigit c = true) {n : Int32}
      (value : n.toInt = Decimal.value digits) : Spells digits (.int n)
  /-- A minus sign in front of digits negates it. -/
  | negative {digits : List Char} (nonempty : digits ≠ [])
      (isDigit : ∀ c ∈ digits, Character.isDigit c = true) {n : Int32}
      (value : n.toInt = -(Decimal.value digits : Int)) : Spells ('-' :: digits) (.int n)
  | trueWord : Spells ['t', 'r', 'u', 'e'] (.boolean true)
  | falseWord : Spells ['f', 'a', 'l', 's', 'e'] (.boolean false)

/-- A text is a way to write one value at most. -/
theorem Spells.unique {x : List Char} {v w : Value} (h : Spells x v) (h' : Spells x w) : v = w := by
  -- The first character tells the ways apart: of the four only digits begin with a digit.
  cases h with
  | digits _ isDigit value =>
    cases h' with
    | digits _ _ value' => exact congrArg Value.int (Int32.toInt_inj.1 (value.trans value'.symm))
    | _ => exact absurd (isDigit _ List.mem_cons_self) (by decide)
  | negative _ _ value =>
    cases h' with
    | digits _ isDigit _ => exact absurd (isDigit _ List.mem_cons_self) (by decide)
    | negative _ _ value' => exact congrArg Value.int (Int32.toInt_inj.1 (value.trans value'.symm))
  | trueWord =>
    cases h' with
    | digits _ isDigit _ => exact absurd (isDigit _ List.mem_cons_self) (by decide)
    | trueWord => rfl
  | falseWord =>
    cases h' with
    | digits _ isDigit _ => exact absurd (isDigit _ List.mem_cons_self) (by decide)
    | falseWord => rfl

/-- The text of a token with a value is a way to write the value. -/
theorem Lexeme.spells {x : List Char} {kind : TokenKind} {v : Value}
    (h : Lexeme x kind (some v)) : Spells x v := by
  cases h with
  | number nonempty isDigit value => exact .digits nonempty isDigit value
  | trueWord => exact .trueWord
  | falseWord => exact .falseWord

/-- The text of a number has a digit. -/
theorem Lexeme.digits_ne_nil {x : List Char} {value : Option Value} (h : Lexeme x .number value) :
    x ≠ [] := by
  cases h <;> assumption

/-- The text of a number consists of digits. -/
theorem Lexeme.isDigit_of_mem {x : List Char} {value : Option Value} (h : Lexeme x .number value) :
    ∀ c ∈ x, Character.isDigit c = true := by
  cases h <;> assumption

/-- The written form of a value is a way to write it. -/
theorem Value.spells_render (v : Value) : Spells v.render.toList v := by
  cases v with
  | int n =>
    rw [render]
    cases hn : n.toInt with
    | ofNat k =>
      refine .digits (Decimal.ofNat_ne_nil k) (fun c => Decimal.isDigit_of_mem_ofNat) ?_
      rw [hn, Decimal.value_ofNat]
      rfl
    | negSucc k =>
      have htext : (Decimal.ofInt (.negSucc k)).toList = '-' :: (Decimal.ofNat (k + 1)).toList :=
        String.toList_append
      rw [htext]
      refine .negative (Decimal.ofNat_ne_nil _) (fun c => Decimal.isDigit_of_mem_ofNat) ?_
      rw [hn, Decimal.value_ofNat]
      rfl
  | boolean b =>
    cases b with
    | true => exact .trueWord
    | false => exact .falseWord

end Calculator
