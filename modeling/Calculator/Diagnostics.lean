/-!
# Diagnostics

A log of reports in the order in which they were made. Nothing is ever removed from it. The view of
a log is its list of reports, `Diagnostics.toList`.
-/

namespace Calculator

/-- A log of reports of the type `α`. -/
structure Diagnostics (α : Type) where
  /-- The reports, the oldest first. -/
  reports : Array α

namespace Diagnostics

variable {α : Type}

/-- The log without reports. -/
def empty : Diagnostics α := ⟨#[]⟩

/-- The log with one more report. -/
def report (d : Diagnostics α) (r : α) : Diagnostics α := ⟨d.reports.push r⟩

/-- The log with a list of further reports. -/
def reportAll (d : Diagnostics α) (rs : List α) : Diagnostics α := rs.foldl report d

/-- The reports, the oldest first. -/
def toList (d : Diagnostics α) : List α := d.reports.toList

/-- The number of reports. -/
def size (d : Diagnostics α) : Nat := d.reports.size

/-- Whether nothing has been reported. -/
def isEmpty (d : Diagnostics α) : Bool := d.reports.isEmpty

/-- The texts of all reports, with a newline between each two. -/
def render (message : α → String) (d : Diagnostics α) : String :=
  String.intercalate "\n" (d.toList.map message)

/-- Two logs with the same reports are equal. -/
@[ext] theorem ext {d e : Diagnostics α} (h : d.toList = e.toList) : d = e :=
  congrArg mk (Array.toList_inj.1 h)

/-- The empty log has no reports. -/
@[simp] theorem toList_empty : (empty : Diagnostics α).toList = [] := rfl

/-- A report goes to the end of the log. -/
@[simp] theorem toList_report (d : Diagnostics α) (r : α) :
    (d.report r).toList = d.toList ++ [r] := Array.toList_push

/-- A list of reports goes to the end of the log. -/
@[simp] theorem toList_reportAll (d : Diagnostics α) (rs : List α) :
    (d.reportAll rs).toList = d.toList ++ rs := by
  induction rs generalizing d with
  | nil => simp [reportAll]
  | cons r rs ih => simpa [reportAll] using ih (d.report r)

/-- The size of a log is the number of its reports. -/
theorem size_eq_length (d : Diagnostics α) : d.size = d.toList.length := rfl

/-- A log is empty exactly when it has no reports. -/
theorem isEmpty_iff {d : Diagnostics α} : d.isEmpty = true ↔ d.toList = [] := by
  simp [isEmpty, toList, Array.isEmpty_iff]

end Diagnostics

end Calculator
