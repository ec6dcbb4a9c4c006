import Calculator.Character
import Calculator.Cursor

/-!
# Layout

Layout is what may stand between two tokens: blanks, line comments from `//` to the end of the line,
and block comments from `/*` to the `*/` that closes them, which nest. Inside a block comment the
two delimiters are looked for from left to right, so that no character belongs to two of them. The
open comments are counted without a bound; in any source of fewer than 2³¹ - 1 characters a counter
of 32 bits comes to the same (`Scanner.Reads.counters_fit`). `Cursor.reaches_skipLayout` says that
skipping layout only moves the cursor.
-/

namespace Calculator

/-- What surrounds a place in the layout. -/
inductive Layout where
  /-- No comment. -/
  | blanks
  /-- A line comment. -/
  | lineComment
  /-- A block comment that began at `start`, in which `inner` further ones are open. -/
  | blockComment (start : Position) (inner : Nat)
  deriving DecidableEq

/-- The start of the block comment that encloses a place. -/
def Layout.unclosed? : Layout → Option Position
  | blanks => none
  | lineComment => none
  | blockComment start _ => some start

/-- Skips layout from a place in it to the first character of a token or the end of the source.
The first component is the start of the block comment in which the source ended, if it did. -/
def Layout.skip : Layout → List Char → Position → Option Position × Cursor
  | layout, [], p => (layout.unclosed?, ⟨[], p⟩)
  | blanks, '/' :: '/' :: cs, p => lineComment.skip cs (p.advance ['/', '/'])
  | blanks, '/' :: '*' :: cs, p => (blockComment p 0).skip cs (p.advance ['/', '*'])
  | blanks, c :: cs, p =>
    if Character.isBlank c then blanks.skip cs (p.after c) else (none, ⟨c :: cs, p⟩)
  | lineComment, c :: cs, p =>
    if c = '\n' then blanks.skip cs (p.after c) else lineComment.skip cs (p.after c)
  | blockComment start inner, '/' :: '*' :: cs, p =>
    (blockComment start (inner + 1)).skip cs (p.advance ['/', '*'])
  | blockComment start (inner + 1), '*' :: '/' :: cs, p =>
    (blockComment start inner).skip cs (p.advance ['*', '/'])
  | blockComment _ 0, '*' :: '/' :: cs, p => blanks.skip cs (p.advance ['*', '/'])
  | blockComment start inner, c :: cs, p => (blockComment start inner).skip cs (p.after c)

/-- Skips the layout ahead of a cursor. -/
def Cursor.skipLayout (c : Cursor) : Option Position × Cursor := Layout.blanks.skip c.rest c.pos

/-- A skip that starts behind some characters can start in front of them. -/
theorem Layout.reaches_of_reaches (cs : List Char) {rest : List Char} {p : Position} {d : Cursor}
    (h : ∃ gap, Cursor.Reaches ⟨rest, p.advance cs⟩ gap d) :
    ∃ gap, Cursor.Reaches ⟨cs ++ rest, p⟩ gap d := by
  obtain ⟨gap, h⟩ := h
  exact ⟨cs ++ gap, (Cursor.reaches_append cs rest p).trans h⟩

/-- Skipping layout from any place in it only moves the cursor. -/
theorem Layout.reaches_skip (layout : Layout) (cs : List Char) (p : Position) :
    ∃ gap, Cursor.Reaches ⟨cs, p⟩ gap (layout.skip cs p).2 := by
  fun_induction layout.skip cs p with
  | case1 | case5 => exact ⟨[], rfl, rfl⟩
  | case2 | case3 | case8 | case9 | case10 =>
    rename_i ih
    exact reaches_of_reaches [_, _] ih
  | case4 | case6 | case7 | case11 =>
    rename_i ih
    exact reaches_of_reaches [_] ih

/-- Skipping layout only moves the cursor. -/
theorem Cursor.reaches_skipLayout (c : Cursor) : ∃ gap, c.Reaches gap c.skipLayout.2 :=
  Layout.blanks.reaches_skip c.rest c.pos

end Calculator
