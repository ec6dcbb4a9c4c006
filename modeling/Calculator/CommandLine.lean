import Calculator.CommandLine.Options
import Calculator.Session

/-!
# The command line

With an expression the program answers it and is done, and its exit code says whether there was a
value. Without one it holds a session on its input, which succeeds if the input is text.
-/

namespace Calculator.CommandLine

/-- The lines of the help text. -/
def helpLines : List String :=
  ["Usage: arith [OPTIONS] [EXPRESSION]",
    "",
    "Arguments:",
    "  [EXPRESSION]  Expression to evaluate; starts a REPL on stdin if omitted",
    "",
    "Options:",
    "      --show-tree        Print the parse tree of each expression",
    "      --show-bound-tree  Print the bound tree of each expression",
    "  -v, --verbose          Print verbose log output",
    "  -h, --help             Print help",
    "  -V, --version          Print version"]

/-- The help text. -/
def helpText : String := String.join (helpLines.map (· ++ "\n"))

/-- The version text. -/
def versionText : String := "arith_lang 0.1.0\n"

/-- A finished run of the program. -/
structure Run where
  /-- What it wrote. -/
  reply : Reply
  /-- Whether it succeeded. -/
  succeeded : Bool

/-- The exit code of a run. -/
def Run.exitCode (r : Run) : UInt8 := if r.succeeded then 0 else 1

/-- The session that the options ask for. -/
def session (o : Options) (prompting : Bool) : Session :=
  ⟨o.showTree, o.showBoundTree, prompting⟩

/-- The reply to a failure of the input. -/
def failureReply : Option InputError → Reply
  | some e => .failure e.message
  | none => .silent

/-- Answers one expression. -/
def runExpression (o : Options) (expression : String) : Run :=
  let (succeeded, reply) := (session o false).answer expression
  ⟨reply, succeeded⟩

/-- Holds a session on the whole of an input. -/
def runSession (o : Options) (prompting : Bool) (input : List UInt8) : Run :=
  let t := (session o prompting).run (Line.split input)
  ⟨t.reply ++ failureReply t.error, t.error.isNone⟩

/-- A run of the program with an input that is not a terminal. -/
def run (o : Options) (input : List UInt8) : Run :=
  match o.expression with
  | some expression => runExpression o expression
  | none => runSession o false input

end Calculator.CommandLine
