import Calculator.Decimal

/-!
# Values and their types

An expression has one of two types, and its value is a 32-bit integer or a boolean. Integers are
computed exactly and then have to fit: `fit?` keeps the integers of the range and refuses the rest,
and `fit?_eq_some_iff` says that it never changes a number.
-/

namespace Calculator

/-- The types of expressions. -/
inductive Ty where
  | int
  | boolean
  deriving DecidableEq

/-- The values of expressions. -/
inductive Value where
  | int (n : Int32)
  | boolean (b : Bool)
  deriving DecidableEq

/-- The name of a type. -/
def Ty.name : Ty → String
  | .int => "int"
  | .boolean => "boolean"

/-- The value that stands in for a literal of the type whose own value is missing. -/
def Ty.default : Ty → Value
  | .int => .int 0
  | .boolean => .boolean false

/-- The type of a value. -/
def Value.ty : Value → Ty
  | .int _ => .int
  | .boolean _ => .boolean

/-- The written form of a value: a decimal integer, `true` or `false`. -/
def Value.render : Value → String
  | .int n => Decimal.ofInt n.toInt
  | .boolean true => "true"
  | .boolean false => "false"

/-- The stand-in of a type is of that type. -/
@[simp] theorem Ty.ty_default (t : Ty) : t.default.ty = t := by cases t <;> rfl

/-- Whether an integer lies in the range of 32-bit integers. -/
def InRange (n : Int) : Prop := -2147483648 ≤ n ∧ n ≤ 2147483647

/-- Whether an integer is in range is two comparisons. -/
instance (n : Int) : Decidable (InRange n) := inferInstanceAs (Decidable (_ ∧ _))

/-- The 32-bit integer equal to `n`, if `n` is in range. -/
def fit? (n : Int) : Option Int32 := if InRange n then some (Int32.ofInt n) else none

/-- Every 32-bit integer is in range. -/
theorem inRange_toInt (v : Int32) : InRange v.toInt :=
  ⟨v.le_toInt, Int.le_of_lt_add_one v.toInt_lt⟩

/-- An integer fits as the 32-bit integer that equals it. -/
theorem fit?_eq_some_iff {n : Int} {v : Int32} : fit? n = some v ↔ v.toInt = n := by
  unfold fit?
  split
  · next h =>
    rw [Option.some_inj, ← Int32.toInt_inj,
      Int32.toInt_ofInt_of_le h.1 (Int.lt_add_one_of_le h.2), eq_comm]
  · next h => exact ⟨nofun, fun hv => absurd (hv ▸ inRange_toInt v) h⟩

/-- An integer does not fit exactly when it is out of range. -/
theorem fit?_eq_none_iff {n : Int} : fit? n = none ↔ ¬ InRange n := by
  unfold fit?
  split <;> simp [*]

end Calculator
