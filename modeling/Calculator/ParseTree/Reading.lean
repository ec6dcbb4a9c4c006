import Calculator.Diagnostic
import Calculator.Token.Stream

/-!
# The state of reading an expression

A reading has one token in view and the rest of the source ahead. It collects what is wrong with the
source: errors of the scan always, and faults of tokens until one of them makes it lose its place.
-/

namespace Calculator

/-- The state of reading an expression. -/
structure Reading where
  /-- What lies behind the token in view. -/
  stream : TokenStream
  /-- The token in view. -/
  current : Token
  /-- What has been reported. -/
  diagnostics : Diagnostics Diagnostic
  /-- Whether anything was wrong. -/
  failed : Bool
  /-- Whether the place is lost, so that no further fault is reported. -/
  lost : Bool

namespace Reading

/-- Before the first token of a stream. -/
def start (stream : TokenStream) : Reading := ⟨stream, .nothing, .empty, false, false⟩

/-- Before the first token of a source. -/
def ofString (source : String) : Reading := start (.ofString source)

/-- Brings the next token into view and reports the errors of the scan in front of it. -/
def advance (r : Reading) : Reading :=
  let (errors, token, stream) := r.stream.next
  { r with
    stream := stream
    current := token
    diagnostics := r.diagnostics.reportAll (errors.map .lexical)
    failed := r.failed || !errors.isEmpty }

/-- Reports a fault of a token, unless the place is lost. -/
def fault (r : Reading) (token : Token) (f : SyntaxFault) : Reading :=
  if r.lost then r
  else
    { r with
      diagnostics := r.diagnostics.report (.syntactic token f)
      failed := true
      lost := f.losesPlace }

/-- Reports a fault of the token in view. -/
def faultHere (r : Reading) (f : SyntaxFault) : Reading := r.fault r.current f

/-- Whether the end of the source is in view. -/
def atEnd (r : Reading) : Bool := r.current.kind == .endOfInput

/-- Reads the closing parenthesis that is due. -/
def close (r : Reading) : Reading :=
  if r.current.kind = .rightParen then r.advance else r.faultHere .expectedClosing

/-- Requires the end of the source, which is due. -/
def finish (r : Reading) : Reading := if r.atEnd then r else r.faultHere .expectedEnd

/-- A fault does not move. -/
@[simp] theorem stream_fault (r : Reading) (token : Token) (f : SyntaxFault) :
    (r.fault token f).stream = r.stream := by
  unfold fault
  split <;> rfl

/-- A fault leaves the token in view. -/
@[simp] theorem current_fault (r : Reading) (token : Token) (f : SyntaxFault) :
    (r.fault token f).current = r.current := by
  unfold fault
  split <;> rfl

/-- Once the place is lost, faults change nothing. -/
theorem fault_of_lost {r : Reading} (h : r.lost = true) (token : Token) (f : SyntaxFault) :
    r.fault token f = r := if_pos h

end Reading

end Calculator
