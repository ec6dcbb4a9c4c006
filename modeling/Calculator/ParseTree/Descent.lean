import Calculator.ParseTree.Grammar

/-!
# Descending into an expression

The rules of a nesting level are made from those of the level inside it, so that they lead no
further in than there are levels. A descent has one set of procedures for all levels. They call one
another and keep count of the levels: the counter is raised on the way in and set back on the way
out, and where it is above the limit nothing leads further in. Instead of the results of all scans a
descent has a cursor, and scans the source where a token is due.

Nothing in the definitions makes the procedures come to an end: what does not has no result. That
they do, and that they read what the rules of the levels read, is a matter of proof.

A descent takes notes as it goes: of what the counter shows and which calls have not returned, of
the tokens that were made use of, and of the results of the scans. No procedure looks at them.
-/

namespace Calculator

/-! ## What a descent is made of -/

/-- The procedures, one for each kind of expression in the grammar. -/
inductive Procedure where
  | expression
  | term
  | factor
  | unary
  | primary
  deriving DecidableEq

/-- The kinds of chains of operands with operators between them. -/
inductive Chain where
  /-- Factors with `+` and `-` between them. -/
  | sum
  /-- Operands with `*` and `/` between them. -/
  | product

namespace Chain

/-- Whether the token is an operator of such a chain. -/
def isOperator : Chain → Token → Bool
  | sum => Grammar.isTermOperator
  | product => Grammar.isFactorOperator

/-- The procedure that reads an operand of such a chain. -/
def operand : Chain → Procedure
  | sum => .factor
  | product => .unary

end Chain

/-- A call of a procedure. -/
structure Call where
  procedure : Procedure
  /-- What the counter shows at the call. -/
  depth : Nat

/-- A moment of a descent. -/
structure Moment where
  /-- What the counter shows. -/
  depth : Nat
  /-- The calls that have not returned, the innermost first. -/
  active : List Call

/-- The uses that are made of tokens. -/
inductive Use where
  /-- As an operator, with one operand or with two. -/
  | operator
  | parenthesis
  | literal
  /-- To be passed over, since no operand starts with it. -/
  | recovery

/-- Whether a token of the kind can be used so. -/
def Use.fits : Use → TokenKind → Bool
  | operator, .plus | operator, .minus | operator, .times | operator, .divide => true
  | parenthesis, .leftParen | parenthesis, .rightParen => true
  | literal, .number | literal, .trueWord | literal, .falseWord => true
  | recovery, .number | recovery, .trueWord | recovery, .falseWord => false
  | recovery, .leftParen | recovery, .endOfInput => false
  | recovery, _ => true
  | _, _ => false

/-- No use can be made of the end of the source. -/
theorem Use.kind_ne_of_fits {u : Use} {kind : TokenKind} (h : u.fits kind = true) :
    kind ≠ .endOfInput := by
  rintro rfl
  cases u <;> cases h

/-- The state of a descent. -/
structure Descent where
  /-- What lies behind the token in view. -/
  cursor : Cursor
  /-- The token that was in view before. -/
  previous : Token
  /-- The token in view. -/
  current : Token
  /-- What has been reported. -/
  diagnostics : Diagnostics Diagnostic
  /-- Whether anything was wrong. -/
  failed : Bool
  /-- Whether the place is lost, so that no further fault is reported. -/
  lost : Bool
  /-- The counter of the levels. -/
  depth : Nat
  /-- The calls that have not returned, the innermost first. -/
  active : List Call
  /-- What the counter showed and which calls had not returned, whenever one of these changed. -/
  moments : List Moment
  /-- The tokens that use was made of. -/
  uses : List (Use × Token)
  /-- The results of the scans. -/
  scans : List (Except ScanError Token)

namespace Descent

/-- Before the first token of a source. -/
def ofString (source : String) : Descent where
  cursor := .ofString source
  previous := .nothing
  current := .nothing
  diagnostics := .empty
  failed := false
  lost := false
  depth := 0
  active := []
  moments := []
  uses := []
  scans := []

/-- The reading that has the same in view, in front of it and reported. -/
def reading (d : Descent) : Reading where
  stream := .ofCursor d.cursor
  current := d.current
  diagnostics := d.diagnostics
  failed := d.failed
  lost := d.lost

/-- The reading has the same token in view. -/
@[simp] theorem current_reading (d : Descent) : d.reading.current = d.current := rfl

/-! ## Single steps -/

/-- Takes note of the moment. -/
def noted (d : Descent) : Descent := { d with moments := d.moments ++ [⟨d.depth, d.active⟩] }

/-- The moment at which a procedure has been called. -/
def entry (d : Descent) (p : Procedure) : Moment := ⟨d.depth, ⟨p, d.depth⟩ :: d.active⟩

/-- A procedure has been called. -/
def enter (d : Descent) (p : Procedure) : Descent := { d with active := (d.entry p).active }.noted

/-- The procedure called last returns. -/
def leave (d : Descent) : Descent := { d with active := d.active.tail }.noted

/-- Sets the counter. -/
def count (d : Descent) (depth : Nat) : Descent := { d with depth := depth }.noted

/-- Makes use of the token in view. -/
def use (d : Descent) (u : Use) : Descent := { d with uses := d.uses ++ [(u, d.current)] }

/-- Reports a fault of a token, unless the place is lost. -/
def fault (d : Descent) (token : Token) (f : SyntaxFault) : Descent :=
  if d.lost then d
  else
    { d with
      diagnostics := d.diagnostics.report (.syntactic token f)
      failed := true
      lost := f.losesPlace }

/-- For the reading a fault is reported. -/
theorem reading_fault (d : Descent) (token : Token) (f : SyntaxFault) :
    (d.fault token f).reading = d.reading.fault token f := by
  unfold fault Reading.fault
  change (if d.lost = true then d else _).reading = if d.lost = true then _ else _
  split <;> rfl

/-- Reporting a fault leaves the counter. -/
@[simp] theorem depth_fault (d : Descent) (token : Token) (f : SyntaxFault) :
    (d.fault token f).depth = d.depth := by
  unfold fault
  split <;> rfl

/-- Reporting a fault leaves the token in view. -/
@[simp] theorem current_fault (d : Descent) (token : Token) (f : SyntaxFault) :
    (d.fault token f).current = d.current := by
  unfold fault
  split <;> rfl

/-- Reports a fault of the token in view. -/
def faultHere (d : Descent) (f : SyntaxFault) : Descent := d.fault d.current f

/-- Reporting a fault of the token in view leaves it in view. -/
@[simp] theorem current_faultHere (d : Descent) (f : SyntaxFault) :
    (d.faultHere f).current = d.current :=
  d.current_fault _ _

/-- Raises the counter for one level further in. If it is above the limit then, that is reported,
and nothing may lead further in. -/
def nest (d : Descent) : Bool × Descent :=
  let d := d.count (d.depth + 1)
  if nestingLimit < d.depth then (false, d.faultHere .tooDeep) else (true, d)

/-- Within the limit the counter is raised by one. -/
theorem nest_of_lt {d : Descent} (h : d.depth < nestingLimit) :
    d.nest = (true, d.count (d.depth + 1)) :=
  if_neg (Nat.not_lt.2 h)

/-- At the limit the counter is raised above it, and the expression nests too deeply. -/
theorem nest_of_eq {d : Descent} (h : d.depth = nestingLimit) :
    d.nest = (false, (d.count (d.depth + 1)).faultHere .tooDeep) :=
  if_pos (Nat.lt_succ_of_le (Nat.le_of_eq h.symm))

/-- Reports an error of the scan, even if the place is lost. -/
def scanFault (d : Descent) (e : ScanError) : Descent :=
  { d with
    diagnostics := d.diagnostics.report (.lexical e)
    failed := true }

/-- Moves behind the result of the next scan. -/
def scanned (d : Descent) : Descent :=
  { d with
    cursor := d.cursor.scan.2
    scans := d.scans ++ [d.cursor.scan.1] }

/-- Scans until a token comes into view, and reports the errors in front of it. An error that says
that the source has ended counts as its end. -/
def scan (d : Descent) : Option Descent :=
  match d.cursor.scan.1 with
  | .ok token => some { d.scanned with current := token }
  | .error .unexpectedEnd => some { d.scanned with current := .endOfInput .start }
  | .error e => d.scanned.scanFault e |>.scan
partial_fixpoint

/-- A token that is scanned comes into view. -/
theorem scan_of_ok {d : Descent} {t : Token} (h : d.cursor.scan.1 = .ok t) :
    d.scan = some { d.scanned with current := t } := by
  rw [scan, h]

/-- Behind an error the scan goes on, unless the error says that the source has ended. -/
theorem scan_of_error {d : Descent} {e : ScanError} (h : d.cursor.scan.1 = .error e)
    (he : e ≠ .unexpectedEnd) : d.scan = (d.scanned.scanFault e).scan := by
  rw [scan, h]
  cases e with
  | unexpectedEnd => exact absurd rfl he
  | unexpectedCharacter start c => rfl
  | unterminatedComment start => rfl

/-- Brings the next token into view. -/
def advance (d : Descent) : Option Descent := scan { d with previous := d.current }

/-- Reads the closing parenthesis that is due. -/
def close (d : Descent) : Option Descent :=
  if d.current.kind = .rightParen then (d.use .parenthesis).advance
  else some (d.faultHere .expectedClosing)

/-- Requires the end of the source, which is due. -/
def finish (d : Descent) : Descent :=
  if d.current.kind = .endOfInput then d else d.faultHere .expectedEnd

/-! ## The procedures -/

/-- Reads a number, which has to be in range. -/
def number (d : Descent) : Option (ParseTree × Descent) := do
  let d ← (d.use .literal).advance
  let token := d.previous
  return (.literal token,
    if token.value.isNone then d.fault token (.invalidNumber token.text) else d)

/-- Reads a boolean. -/
def boolean (d : Descent) : Option (ParseTree × Descent) := do
  let d ← (d.use .literal).advance
  return (.literal d.previous, d)

/-- Reports that no operand starts here, and passes over the token unless the source has ended. -/
def recover (d : Descent) : Option (ParseTree × Descent) := do
  let d := d.faultHere .expectedExpression
  if d.current.kind = .endOfInput then return (.error, d)
  let d ← (d.use .recovery).advance
  return (.error, d)

mutual

/-- Calls a procedure, which returns with a tree. -/
def call (p : Procedure) (d : Descent) : Option (ParseTree × Descent) := do
  let (tree, d) ← d.enter p |>.body p
  return (tree, d.leave)
partial_fixpoint

/-- What a procedure does between its call and its return. -/
def body (p : Procedure) (d : Descent) : Option (ParseTree × Descent) :=
  match p with
  | .expression => d |>.call .term
  | .term => d |>.chain .sum
  | .factor => d |>.chain .product
  | .unary => d |>.unary
  | .primary => d |>.primary
partial_fixpoint

/-- Reads a chain. Each of its operators leads one level further in, and the counter is set back
behind the chain. -/
def chain (c : Chain) (d : Descent) : Option (ParseTree × Descent) := do
  let depth := d.depth
  let (first, d) ← d |>.call c.operand
  let (tree, d) ← d |>.chainTail c first
  return (tree, d.count depth)
partial_fixpoint

/-- Reads on behind `left`, a part of a chain. -/
def chainTail (c : Chain) (left : ParseTree) (d : Descent) : Option (ParseTree × Descent) := do
  if c.isOperator d.current then
    let d ← (d.use .operator).advance
    let operator := d.previous
    match d.nest with
    | (false, d) => return (left, d)
    | (true, d) =>
      let (right, d) ← d |>.call c.operand
      d |>.chainTail c (.binary left operator right)
  else return (left, d)
partial_fixpoint

/-- Reads an operand. -/
def unary (d : Descent) : Option (ParseTree × Descent) := do
  if Grammar.isTermOperator d.current then
    let d ← (d.use .operator).advance
    let sign := d.previous
    match Grammar.signedLiteral? sign d.current with
    | some token =>
      let d ← (d.use .literal).advance
      return (.literal token, d)
    | none =>
      let depth := d.depth
      match d.nest with
      | (false, d) => return (.unary sign .error, d.count depth)
      | (true, d) =>
        let (operand, d) ← d |>.call .unary
        return (.unary sign operand, d.count depth)
  else d |>.call .primary
partial_fixpoint

/-- Reads an operand without a sign. -/
def primary (d : Descent) : Option (ParseTree × Descent) := do
  match d.current.kind with
  | .number => number d
  | .trueWord | .falseWord => boolean d
  | .leftParen =>
    let d ← (d.use .parenthesis).advance
    let depth := d.depth
    match d.nest with
    | (false, d) => return (.error, d.count depth)
    | (true, d) =>
      let (tree, d) ← d |>.call .expression
      let d ← (d.count depth).close
      return (tree, d)
  | _ => recover d
partial_fixpoint

end

/-- Reads an expression that goes on to the end of the source. -/
def parse (d : Descent) : Option (ParseTree × Descent) := do
  let d ← d.advance
  let (tree, d) ← d.call .expression
  return (tree, d.finish)

/-- Reads expressions one after the other, each from where the one before it ended, and gives them
with the states behind them. -/
def parseTimes : Nat → Descent → Option (List (ParseTree × Descent))
  | 0, _ => some []
  | times + 1, d => do
    let (tree, d) ← d.parse
    let others ← parseTimes times d
    return (tree, d) :: others

end Descent

end Calculator
