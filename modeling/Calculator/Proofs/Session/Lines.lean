import Mathlib.Data.List.DropRight
import Calculator.Session.Line

/-!
# Lines and what is behind them

The first line of an input goes up to and including its first newline, or to its end if it has none
(`Line.IsFirst`). Dividing the input into lines takes this line off (`Line.split_append`), whatever
is behind it, and every input that is not empty has such a line (`Line.exists_isFirst`).

A line is blank if it has only blanks (`Line.IsBlank`), which is when nothing is left of it without
the blanks at its ends (`Line.isEmpty_trim_iff`).
-/

namespace Calculator.Line

/-- The line is the first one of an input that goes on with `later`. -/
inductive IsFirst : List UInt8 → List UInt8 → Prop
  /-- The line ends with its only newline, and anything can be behind it. -/
  | terminated {body later : List UInt8} (h : newline ∉ body) : IsFirst (body ++ [newline]) later
  /-- The line has no newline, and nothing is behind it. -/
  | last {line : List UInt8} (hne : line ≠ []) (h : newline ∉ line) : IsFirst line []

/-- The first line of an input is divided from the others, and these as they are without it. -/
theorem split_append {line later : List UInt8} (h : IsFirst line later) :
    split (line ++ later) = line :: split later := by
  cases h with
  | terminated h =>
    rename_i body
    induction body with
    | nil => exact if_pos rfl
    | cons b body ih =>
      rw [List.mem_cons, not_or] at h
      have hb : b ≠ newline := fun hb => h.1 hb.symm
      rw [List.cons_append, List.cons_append, split, if_neg hb, ih h.2]
  | last hne h =>
    have hnil : split [] = [] := rfl
    rw [List.append_nil, hnil]
    induction line with
    | nil => exact absurd rfl hne
    | cons b line ih =>
      rw [List.mem_cons, not_or] at h
      have hb : b ≠ newline := fun hb => h.1 hb.symm
      rw [split, if_neg hb]
      cases line with
      | nil => rfl
      | cons c line => rw [ih (List.cons_ne_nil c line) h.2]

/-- Every input that is not empty has a first line. -/
theorem exists_isFirst {input : List UInt8} (hne : input ≠ []) :
    ∃ line later, IsFirst line later ∧ input = line ++ later := by
  by_cases h : newline ∈ input
  · obtain ⟨body, later, rfl, hbody⟩ := List.eq_append_cons_of_mem h
    exact ⟨body ++ [newline], later, .terminated hbody, by simp⟩
  · exact ⟨input, [], .last hne h, (List.append_nil input).symm⟩

/-- A first line takes something off the input. -/
theorem IsFirst.length_pos {line later : List UInt8} (h : IsFirst line later) :
    0 < line.length := by
  cases h with
  | terminated h => simp
  | last hne h => exact List.length_pos_of_ne_nil hne

/-- A line behind which there is something has its newline, so that anything could be there. -/
theorem IsFirst.of_ne_nil {line later : List UInt8} (h : IsFirst line later) (hne : later ≠ [])
    (other : List UInt8) : IsFirst line other := by
  cases h with
  | terminated h => exact .terminated h
  | last _ _ => exact absurd rfl hne

/-- Every character of the text is a blank. -/
def IsBlank (text : String) : Prop := ∀ c ∈ text.toList, Character.isBlank c = true

/-- Whether a text is blank is decided character by character. -/
instance decidableIsBlank (text : String) : Decidable (IsBlank text) :=
  decidable_of_iff (text.toList.all Character.isBlank = true) List.all_eq_true

/-- A text without the blanks at its ends is without those at its start and then without those at
its end. -/
theorem toList_trim (text : String) :
    (trim text).toList =
      (text.toList.dropWhile Character.isBlank).rdropWhile Character.isBlank := by
  simp [trim, List.rdropWhile]

/-- Nothing is left of a text without the blanks at its ends exactly if it has only blanks. -/
theorem isEmpty_trim_iff {text : String} : (trim text).isEmpty = true ↔ IsBlank text := by
  rw [String.isEmpty_iff, ← String.toList_eq_nil_iff, toList_trim, List.rdropWhile_eq_nil_iff,
    IsBlank, ← List.dropWhile_eq_nil_iff, ← List.dropWhile_eq_nil_iff, List.dropWhile_idempotent]

end Calculator.Line
