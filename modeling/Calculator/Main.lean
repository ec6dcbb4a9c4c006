import Calculator.CommandLine

/-!
# The program

Reads its arguments, and its input line by line, and writes what the library answers. A line is
answered before the next one is read, so that a person can hold a session at a terminal.
-/

namespace Calculator.Program

open CommandLine

/-- Writes a reply. -/
def write (r : Reply) : IO Unit := do
  let out ← IO.getStdout
  out.putStr r.out
  out.flush
  let err ← IO.getStderr
  err.putStr r.err
  err.flush

/-- Reads the next line with the newline that ends it; it is empty at the end of the input. -/
partial def readLine (input : IO.FS.Stream) (line : ByteArray) : IO ByteArray := do
  let byte ← input.read 1
  if byte.isEmpty then return line
  let line := line ++ byte
  if byte.toList = [Line.newline] then return line
  readLine input line

/-- Holds a session until it is over, and tells what went wrong with the input. -/
partial def hold (s : Session) (input : IO.FS.Stream) : IO (Option InputError) := do
  write s.prompt
  let line ← readLine input .empty
  if line.isEmpty then return none
  match s.turn line.toList with
  | .ended error => return error
  | .replied next reply =>
    write reply
    hold next input

/-- Runs the program with options, and says whether it succeeded. -/
def execute (o : Options) : IO Bool := do
  match o.expression with
  | some expression =>
    let r := runExpression o expression
    write r.reply
    return r.succeeded
  | none =>
    let input ← IO.getStdin
    let error ← hold (session o (← input.isTty)) input
    write (failureReply error)
    return error.isNone

/-- Says why there are no options, and gives the exit code. -/
def refuse : Refusal → IO UInt32
  | .help => do
    write ⟨helpText, ""⟩
    return 0
  | .version => do
    write ⟨versionText, ""⟩
    return 0
  | .unknownArgument argument => do
    write (.errorLine ("error: unexpected argument '" ++ argument ++ "' found"))
    return 2
  | .repeatedFlag _ => do
    write (.errorLine "error: a flag cannot be used multiple times")
    return 2
  | .unexpectedValue _ => do
    write (.errorLine "error: a flag takes no value")
    return 2

end Calculator.Program

/-- Runs the program. -/
def main (arguments : List String) : IO UInt32 := do
  match Calculator.Options.ofArguments arguments with
  | .ok o => return if ← Calculator.Program.execute o then 0 else 1
  | .error r => Calculator.Program.refuse r
