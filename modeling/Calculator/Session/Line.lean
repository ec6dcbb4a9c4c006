import Calculator.Character

/-!
# Lines of input

Input is a sequence of bytes. A line goes up to and including the next newline; the last line may
lack it. Its text is what is in front of the newline, without one carriage return directly before
it, and has to be UTF-8. `Line.flatten_split` says that the lines of an input make up the input, and
so that no byte is lost or belongs to two lines.
-/

namespace Calculator.Line

/-- The byte that ends a line. -/
def newline : UInt8 := 10

/-- The byte that is dropped in front of the end of a line. -/
def carriageReturn : UInt8 := 13

/-- The lines of an input, each with the newline that ends it. -/
def split : List UInt8 → List (List UInt8)
  | [] => []
  | b :: rest =>
    if b = newline then [b] :: split rest
    else
      match split rest with
      | [] => [[b]]
      | line :: lines => (b :: line) :: lines

/-- A line without its newline and the carriage return in front of that. A carriage return at the
end of a line that has no newline stays. -/
def content (line : List UInt8) : List UInt8 :=
  if line.getLast? = some newline then
    let body := line.dropLast
    if body.getLast? = some carriageReturn then body.dropLast else body
  else line

/-- The text of a line, if its bytes are the UTF-8 form of a text. -/
def decode (line : List UInt8) : Option String := String.fromUTF8? (content line).toByteArray

/-- A text without the blanks at its two ends. -/
def trim (s : String) : String :=
  let cs := s.toList.dropWhile Character.isBlank
  String.ofList (cs.reverse.dropWhile Character.isBlank).reverse

/-- The lines of an input make up the input. -/
theorem flatten_split (input : List UInt8) : (split input).flatten = input := by
  fun_induction split input with
  | case1 => rfl
  | case2 rest ih => simp [ih]
  | case3 b rest _ hs ih => simpa [hs] using ih
  | case4 b rest _ line lines hs ih => simpa [hs] using ih

end Calculator.Line
