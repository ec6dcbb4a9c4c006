import Calculator.ParseTree
import Calculator.ParseTree.Reading

/-!
# The grammar of expressions

    expression := term
    term       := factor (('+' | '-') factor)*
    factor     := unary (('*' | '/') unary)*
    unary      := ('+' | '-') unary | primary
    primary    := number | 'true' | 'false' | '(' expression ')'

Chains of operators associate to the left. A sign, a parenthesis and each further operator of a
chain lead one nesting level further in, and the levels are limited: the rules of each level are
made from those of the level inside it, and at the innermost level, which has none inside, whatever
would lead further in is too deep. So the rules of all levels are defined by recursion on the number
of levels that are left (`Rules.within`), and reading an expression ends for every source.
-/

namespace Calculator

/-- A rule reads an expression and moves behind it. -/
abbrev Rule : Type := Reading → ParseTree × Reading

/-- The rules of one nesting level. -/
structure Rules where
  /-- Reads an operand of a factor. -/
  unary : Rule
  /-- Reads on behind the operands of a factor that have been read. -/
  factorTail : ParseTree → Rule
  /-- Reads on behind the factors of a term that have been read. -/
  termTail : ParseTree → Rule

namespace Rules

/-- Reads a chain of operands with `*` and `/` between them. -/
def factor (g : Rules) : Rule := fun r =>
  let (first, r) := g.unary r
  g.factorTail first r

/-- Reads a chain of factors with `+` and `-` between them. -/
def term (g : Rules) : Rule := fun r =>
  let (first, r) := g.factor r
  g.termTail first r

end Rules

namespace Grammar

/-- Whether the token is a sign, or an operator of a term. -/
def isTermOperator (t : Token) : Bool := t.kind == .plus || t.kind == .minus

/-- Whether the token is an operator of a factor. -/
def isFactorOperator (t : Token) : Bool := t.kind == .times || t.kind == .divide

/-- The literal that a minus sign makes of a number that is out of range by itself. There is one
such number, the least of the range without its sign. -/
def signedLiteral? (sign number : Token) : Option Token :=
  if sign.kind = .minus ∧ number.kind = .number ∧ number.value = none then
    (fit? (-(Decimal.value number.text.toList))).map fun n =>
      ⟨.number, "-" ++ number.text, some (.int n), sign.start⟩
  else none

/-- Reads a number, which has to be in range. -/
def number : Rule := fun r =>
  let token := r.current
  let r := r.advance
  (.literal token, if token.value.isNone then r.fault token (.invalidNumber token.text) else r)

/-- Reads an expression in parentheses; `inner` are the rules inside them. -/
def parenthesized (inner : Option Rules) : Rule := fun r =>
  let r := r.advance
  match inner with
  | none => (.error, r.faultHere .tooDeep)
  | some g =>
    let (tree, r) := g.term r
    (tree, r.close)

/-- Reads an operand without a sign. Where no operand starts the token is passed over. -/
def primary (inner : Option Rules) : Rule := fun r =>
  match r.current.kind with
  | .number => number r
  | .trueWord | .falseWord => (.literal r.current, r.advance)
  | .leftParen => parenthesized inner r
  | .endOfInput => (.error, r.faultHere .expectedExpression)
  | _ => (.error, (r.faultHere .expectedExpression).advance)

/-- Reads a sign and its operand, for which the rules are `inner`. -/
def signed (inner : Option Rules) : Rule := fun r =>
  let sign := r.current
  let r := r.advance
  match signedLiteral? sign r.current with
  | some token => (.literal token, r.advance)
  | none =>
    match inner with
    | none => (.unary sign .error, r.faultHere .tooDeep)
    | some g =>
      let (operand, r) := g.unary r
      (.unary sign operand, r)

/-- Reads an operand. -/
def unary (inner : Option Rules) : Rule := fun r =>
  if isTermOperator r.current then signed inner r else primary inner r

/-- Reads on behind `left`, a part of a factor: if an operator follows, its right operand and what
is behind that are read by the rules `inner`. -/
def factorTail (inner : Option Rules) (left : ParseTree) : Rule := fun r =>
  if isFactorOperator r.current then
    let operator := r.current
    let r := r.advance
    match inner with
    | none => (left, r.faultHere .tooDeep)
    | some g =>
      let (right, r) := g.unary r
      g.factorTail (.binary left operator right) r
  else (left, r)

/-- Reads on behind `left`, a part of a term: if an operator follows, its right operand and what is
behind that are read by the rules `inner`. -/
def termTail (inner : Option Rules) (left : ParseTree) : Rule := fun r =>
  if isTermOperator r.current then
    let operator := r.current
    let r := r.advance
    match inner with
    | none => (left, r.faultHere .tooDeep)
    | some g =>
      let (right, r) := g.factor r
      g.termTail (.binary left operator right) r
  else (left, r)

end Grammar

namespace Rules

/-- The rules of the level around the level with the rules `inner`. -/
def around (inner : Option Rules) : Rules :=
  ⟨Grammar.unary inner, Grammar.factorTail inner, Grammar.termTail inner⟩

/-- The rules of a level inside which there are `levels` further ones. -/
def within : Nat → Rules
  | 0 => around none
  | levels + 1 => around (some (within levels))

/-- Any other level has the rules of the next one inside it. -/
theorem within_succ (levels : Nat) : within (levels + 1) = around (some (within levels)) := rfl

/-- What the rules of a level have if those of the level inside it have it, the rules of every level
have. -/
theorem within_of_around {P : Rules → Prop}
    (h : ∀ inner : Option Rules, (∀ g ∈ inner, P g) → P (around inner)) (levels : Nat) :
    P (within levels) := by
  induction levels with
  | zero => exact h none nofun
  | succ levels ih =>
    rw [within_succ]
    refine h _ fun g hg => ?_
    rwa [← Option.some_inj.1 hg]

end Rules

/-- The number of levels inside the outermost one. -/
def nestingLimit : Nat := 256

namespace Reading

/-- Reads an expression that goes on to the end of the source. -/
def parse (r : Reading) : ParseTree × Reading :=
  let (tree, r) := (Rules.within nestingLimit).term r.advance
  (tree, r.finish)

/-- Reads expressions one after the other, each from where the one before it ended, and gives them
with the states behind them. -/
def parseTimes : Nat → Reading → List (ParseTree × Reading)
  | 0, _ => []
  | times + 1, r =>
    let (tree, r) := r.parse
    (tree, r) :: parseTimes times r

end Reading

end Calculator
