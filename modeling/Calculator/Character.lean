/-!
# Character classes

The three classes that the calculator tells apart: blanks, which separate tokens, letters, which
start a word, and digits, which make up a number. Blanks are those of Unicode; letters and digits
are those of ASCII, the underscore being a letter.
-/

namespace Calculator.Character

/-- Unicode's property White_Space, as ranges of code points with both ends included. -/
def blanks : List (Nat × Nat) :=
  [(0x09, 0x0D), (0x20, 0x20), (0x85, 0x85), (0xA0, 0xA0), (0x1680, 0x1680), (0x2000, 0x200A),
    (0x2028, 0x2029), (0x202F, 0x202F), (0x205F, 0x205F), (0x3000, 0x3000)]

/-- Whether a character is white space. -/
def isBlank (c : Char) : Bool := blanks.any fun r => r.1 ≤ c.toNat && c.toNat ≤ r.2

/-- Whether a character is a letter, which may start a word. -/
def isLetter (c : Char) : Bool := c.isAlpha || c == '_'

/-- Whether a character is a digit, which may start a number. -/
def isDigit (c : Char) : Bool := c.isDigit

/-- Whether a character may stand inside a word. -/
def isWordPart (c : Char) : Bool := isLetter c || isDigit c

/-- The digits are the code points of `0` to `9`. -/
theorem isDigit_iff {c : Char} : isDigit c = true ↔ 48 ≤ c.toNat ∧ c.toNat ≤ 57 :=
  Char.isDigit_iff_toNat

/-- The letters are the code points of `A` to `Z`, of `a` to `z`, and of the underscore. -/
theorem isLetter_iff {c : Char} : isLetter c = true ↔
    (65 ≤ c.toNat ∧ c.toNat ≤ 90) ∨ (97 ≤ c.toNat ∧ c.toNat ≤ 122) ∨ c.toNat = 95 := by
  have halpha : c.isAlpha = (c.isUpper || c.isLower) := rfl
  have hupper : c.isUpper = decide (65 ≤ c.val ∧ c.val ≤ 90) := rfl
  have hlower : c.isLower = (decide (97 ≤ c.val) && decide (c.val ≤ 122)) := rfl
  have hunderscore : (c == '_') = true ↔ c.toNat = 95 := by
    rw [beq_iff_eq]
    exact (Char.toNat_inj (d := '_')).symm
  rw [isLetter, halpha, hupper, hlower, Bool.or_eq_true, Bool.or_eq_true, Bool.and_eq_true,
    decide_eq_true_iff, decide_eq_true_iff, decide_eq_true_iff, hunderscore, or_assoc,
    UInt32.le_iff_toNat_le, UInt32.le_iff_toNat_le, UInt32.le_iff_toNat_le, UInt32.le_iff_toNat_le]
  rfl

/-- No letter is a digit. -/
theorem isDigit_eq_false_of_isLetter {c : Char} (h : isLetter c = true) : isDigit c = false := by
  rw [← Bool.not_eq_true, isDigit_iff]
  rw [isLetter_iff] at h
  omega

/-- A blank is neither a letter nor a digit. -/
theorem isWordPart_eq_false_of_isBlank {c : Char} (h : isBlank c = true) :
    isWordPart c = false := by
  rw [← Bool.not_eq_true, isWordPart, Bool.or_eq_true, isLetter_iff, isDigit_iff]
  simp only [isBlank, blanks, List.any_cons, List.any_nil, Bool.or_eq_true, Bool.and_eq_true,
    decide_eq_true_eq, Bool.false_eq_true, or_false] at h
  omega

end Calculator.Character
