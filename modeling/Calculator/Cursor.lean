import Calculator.Position

/-!
# Cursors

A cursor is a place in a source: the characters that are still ahead, and the position of the first
of them. Every operation that moves a cursor keeps the two in step.
-/

namespace Calculator

/-- The ways in which the reading of a source into tokens fails. -/
inductive ScanError where
  /-- A character was asked for where the source had ended. -/
  | unexpectedEnd
  /-- The character at `start` starts no token. -/
  | unexpectedCharacter (start : Position) (c : Char)
  /-- The block comment at `start` is never closed. -/
  | unterminatedComment (start : Position)
  deriving DecidableEq

/-- Where in the source the error is. -/
def ScanError.position? : ScanError → Option Position
  | unexpectedEnd => none
  | unexpectedCharacter start _ => some start
  | unterminatedComment start => some start

/-- What is wrong, wherever it is. -/
def ScanError.text : ScanError → String
  | unexpectedEnd => "Unexpected EOF"
  | unexpectedCharacter _ c => "Unexpected character '" ++ String.singleton c ++ "'"
  | unterminatedComment _ => "Unterminated block comment"

/-- The message of an error in the source. -/
def ScanError.message (e : ScanError) : String := Position.label e.position? e.text

/-- A place in a source. -/
structure Cursor where
  /-- The characters ahead. -/
  rest : List Char
  /-- The position of the first of them. -/
  pos : Position
  deriving DecidableEq

namespace Cursor

/-- The start of a source. -/
def ofString (source : String) : Cursor := ⟨source.toList, .start⟩

/-- Whether the source ends here. -/
def atEnd (c : Cursor) : Bool := c.rest.isEmpty

/-- The next character and the place behind it. -/
def next (c : Cursor) : Except ScanError (Char × Cursor) :=
  match c.rest with
  | [] => .error .unexpectedEnd
  | ch :: rest => .ok (ch, ⟨rest, c.pos.after ch⟩)

/-- The longest run of characters ahead that satisfy `p`. -/
def takeWhile (p : Char → Bool) (c : Cursor) : List Char := c.rest.takeWhile p

/-- The place behind the longest run of characters that satisfy `p`. -/
def dropWhile (p : Char → Bool) (c : Cursor) : Cursor :=
  ⟨c.rest.dropWhile p, c.pos.advance (c.rest.takeWhile p)⟩

/-- The cursor `d` stands behind the characters `cs`, which are ahead of `c`. -/
def Reaches (c : Cursor) (cs : List Char) (d : Cursor) : Prop :=
  c.rest = cs ++ d.rest ∧ d.pos = c.pos.advance cs

/-- A cursor reaches the place behind any characters ahead. -/
theorem reaches_append (cs rest : List Char) (p : Position) :
    Reaches ⟨cs ++ rest, p⟩ cs ⟨rest, p.advance cs⟩ := ⟨rfl, rfl⟩

/-- Two moves in turn are one move over both texts. -/
theorem Reaches.trans {c d e : Cursor} {cs ds : List Char} (h : c.Reaches cs d)
    (h' : d.Reaches ds e) : c.Reaches (cs ++ ds) e :=
  ⟨by rw [h.1, h'.1, List.append_assoc], by rw [h'.2, h.2, Position.advance_append]⟩

/-- Taking a character moves over it. -/
theorem reaches_of_next {c d : Cursor} {ch : Char} (h : c.next = .ok (ch, d)) :
    c.Reaches [ch] d := by
  obtain ⟨rest, pos⟩ := c
  cases rest with
  | nil => simp [next] at h
  | cons a rest =>
    simp only [next, Except.ok.injEq, Prod.mk.injEq] at h
    obtain ⟨rfl, rfl⟩ := h
    exact ⟨rfl, rfl⟩

/-- Dropping a run of characters moves over it. -/
theorem reaches_dropWhile (p : Char → Bool) (c : Cursor) :
    c.Reaches (c.takeWhile p) (c.dropWhile p) :=
  ⟨List.takeWhile_append_dropWhile.symm, rfl⟩

/-- A move leaves as many characters ahead as there were, less those moved over. -/
theorem Reaches.length_eq {c d : Cursor} {cs : List Char} (h : c.Reaches cs d) :
    c.rest.length = cs.length + d.rest.length := by
  rw [h.1, List.length_append]

end Cursor

end Calculator
