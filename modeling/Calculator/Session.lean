import Calculator.Evaluation
import Calculator.Session.Line

/-!
# Sessions

A session answers lines of input one after the other. A line is an expression, which is evaluated by
itself, or one of three commands. The only thing that one line can change for the next is which
trees are shown. An empty line or the end of the input ends a session, and so does a line that is
not a text.
-/

namespace Calculator

/-- What a session writes: to the output, and to the channel for errors. -/
@[ext] structure Reply where
  /-- What is written to the output. -/
  out : String
  /-- What is written to the channel for errors. -/
  err : String
  deriving DecidableEq

namespace Reply

/-- The reply that writes nothing. -/
def silent : Reply := ⟨"", ""⟩

/-- The reply that writes a line to the output. -/
def line (text : String) : Reply := ⟨text ++ "\n", ""⟩

/-- The reply that writes a line to the channel for errors. -/
def errorLine (text : String) : Reply := ⟨"", text ++ "\n"⟩

/-- The reply that reports a failure. -/
def failure (message : String) : Reply := errorLine ("Error: " ++ message)

/-- One reply after another writes on both channels in turn. -/
instance : Append Reply := ⟨fun r s => ⟨r.out ++ s.out, r.err ++ s.err⟩⟩

/-- Replies in turn, as one. -/
def join (rs : List Reply) : Reply := rs.foldr (· ++ ·) silent

/-- The output of two replies is that of the first and then that of the second. -/
@[simp] theorem out_append (r s : Reply) : (r ++ s).out = r.out ++ s.out := rfl

/-- The errors of two replies are those of the first and then those of the second. -/
@[simp] theorem err_append (r s : Reply) : (r ++ s).err = r.err ++ s.err := rfl

/-- A silent reply in front adds nothing. -/
@[simp] theorem silent_append (r : Reply) : silent ++ r = r := by
  ext1 <;> simp [silent]

/-- A silent reply behind adds nothing. -/
@[simp] theorem append_silent (r : Reply) : r ++ silent = r := by
  ext1 <;> simp [silent]

end Reply

/-- The commands of a session. -/
inductive Command where
  /-- Show parse trees, or stop showing them. -/
  | toggleTree
  /-- Show bound trees, or stop showing them. -/
  | toggleBoundTree
  /-- Clear the screen. -/
  | clear
  deriving DecidableEq

/-- The command that a line without outer blanks gives. -/
def Command.ofString? : String → Option Command
  | "#showTree" => some .toggleTree
  | "#showBoundTree" => some .toggleBoundTree
  | "#cls" => some .clear
  | _ => none

/-- The way in which a session fails. -/
inductive InputError where
  /-- A line is not the UTF-8 form of a text. -/
  | notText
  deriving DecidableEq

/-- The message of the failure of a session. -/
def InputError.message : InputError → String
  | notText => "IO error: stream did not contain valid UTF-8"

/-- The settings of a session. -/
structure Session where
  /-- Whether parse trees are shown. -/
  showTree : Bool
  /-- Whether bound trees are shown. -/
  showBoundTree : Bool
  /-- Whether each line is asked for. -/
  prompting : Bool
  deriving DecidableEq

/-- What a line of input leads to. -/
inductive Turn where
  /-- The session is over. -/
  | ended (error : Option InputError)
  /-- The session goes on with a reply. -/
  | replied (next : Session) (reply : Reply)

/-- A session that is over. -/
structure Transcript where
  /-- The settings at its end. -/
  session : Session
  /-- Everything that it wrote. -/
  reply : Reply
  /-- What went wrong with the input. -/
  error : Option InputError

namespace Session

/-- What is written before a line is read. -/
def prompt (s : Session) : Reply := if s.prompting then ⟨"> ", ""⟩ else .silent

/-- The trees of an expression that are shown. -/
def trees (s : Session) (c : Compilation) : Reply :=
  (if s.showTree then .line c.tree.render else .silent) ++
    match c.bound with
    | some bound => if s.showBoundTree then .line bound.render else .silent
    | none => .silent

/-- The reply to an expression, and whether the expression has a value. -/
def answer (s : Session) (source : String) : Bool × Reply :=
  match compile source with
  | .error e => (false, .failure e.message)
  | .ok c =>
    if c.failed then
      (false, s.trees c ++
        .join (c.diagnostics.toList.map fun d => .errorLine d.message))
    else
      match c.eval with
      | .ok (some value) => (true, s.trees c ++ .line value.render)
      | .ok none => (false, s.trees c)
      | .error e => (false, s.trees c ++ .failure e.message)

/-- The session after a command, and the reply to it. -/
def perform (s : Session) : Command → Session × Reply
  | .toggleTree =>
    ({ s with showTree := !s.showTree },
      .line (if s.showTree then "Not showing parse trees." else "Showing parse trees."))
  | .toggleBoundTree =>
    ({ s with showBoundTree := !s.showBoundTree },
      .line (if s.showBoundTree then "Not showing bound trees." else "Showing bound trees."))
  | .clear => (s, ⟨"\x1b[2J\x1b[1;1H", ""⟩)

/-- The session after a line, and the reply to it. -/
def respond (s : Session) (line : String) : Session × Reply :=
  match Command.ofString? (Line.trim line) with
  | some command => s.perform command
  | none => (s, (s.answer line).2)

/-- What a line of input leads to. -/
def turn (s : Session) (line : List UInt8) : Turn :=
  match Line.decode line with
  | none => .ended (some .notText)
  | some text =>
    if (Line.trim text).isEmpty then .ended none
    else
      let (next, reply) := s.respond text
      .replied next reply

/-- Answers lines until one of them ends the session or there are no more. -/
def run (s : Session) : List (List UInt8) → Transcript
  | [] => ⟨s, s.prompt, none⟩
  | line :: lines =>
    match s.turn line with
    | .ended error => ⟨s, s.prompt, error⟩
    | .replied next reply =>
      let rest := next.run lines
      { rest with reply := s.prompt ++ reply ++ rest.reply }

end Session

end Calculator
