import Calculator.BoundTree.Binding
import Calculator.ParseTree.Grammar

/-!
# From a source to its value

A source is read, bound and evaluated. What is wrong with its reading keeps it from being bound, and
anything reported keeps it from being evaluated: the outcome is then the reports and no value.
-/

namespace Calculator

/-- What is known of a source before it is evaluated. -/
structure Compilation where
  /-- The expression as it was read. -/
  tree : ParseTree
  /-- The expression with its operations, unless there was something wrong with the reading. -/
  bound : Option BoundTree
  /-- Everything reported. -/
  diagnostics : Diagnostics Diagnostic

/-- Reads and binds a source. -/
def compile (source : String) : Except BindError Compilation :=
  let (tree, r) := (Reading.ofString source).parse
  if r.failed then .ok ⟨tree, none, r.diagnostics⟩
  else
    match tree.bind .empty with
    | (.error e, _) => .error e
    | (.ok bound, diagnostics) => .ok ⟨tree, some bound, diagnostics⟩

namespace Compilation

/-- Whether anything was reported. -/
def failed (c : Compilation) : Bool := !c.diagnostics.isEmpty

/-- The value of the expression, or nothing if anything was reported. -/
def eval (c : Compilation) : Except EvalError (Option Value) :=
  match c.bound with
  | some bound => if c.failed then .ok none else bound.eval.map some
  | none => .ok none

end Compilation

/-- The ways in which a source has no outcome. -/
inductive Failure where
  | binding (e : BindError)
  | evaluation (e : EvalError)
  deriving DecidableEq

/-- The message of a failure. -/
def Failure.message : Failure → String
  | binding e => e.message
  | evaluation e => e.message

/-- The outcome of a source. -/
structure Outcome where
  /-- Everything reported. -/
  diagnostics : Diagnostics Diagnostic
  /-- The value, if nothing was reported. -/
  value : Option Value

/-- Reads, binds and evaluates a source. -/
def evaluate (source : String) : Except Failure Outcome :=
  match compile source with
  | .error e => .error (.binding e)
  | .ok c =>
    match c.eval with
    | .error e => .error (.evaluation e)
    | .ok value => .ok ⟨c.diagnostics, value⟩

end Calculator
