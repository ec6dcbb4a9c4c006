import Calculator.Position
import Calculator.Value

/-!
# Tokens

A token is a word of the source: its kind, its text, the value that the text denotes if it denotes
one, and the position of its first character. The end of the source is a token as well.
-/

namespace Calculator

/-- The kinds of tokens. -/
inductive TokenKind where
  /-- What stands before the first token. -/
  | nothing
  | leftParen
  | rightParen
  | plus
  | minus
  | times
  | divide
  /-- A word that is not a boolean. -/
  | identifier
  | number
  | trueWord
  | falseWord
  | endOfInput
  deriving DecidableEq

/-- A token of the source. -/
structure Token where
  /-- What sort of token it is. -/
  kind : TokenKind
  /-- Its characters as they stand in the source. -/
  text : String
  /-- The value that it denotes. -/
  value : Option Value
  /-- Where it starts. -/
  start : Position
  deriving DecidableEq

/-- The kind of a token that is one punctuation character. -/
def TokenKind.ofPunctuation? : Char → Option TokenKind
  | '(' => some .leftParen
  | ')' => some .rightParen
  | '+' => some .plus
  | '-' => some .minus
  | '*' => some .times
  | '/' => some .divide
  | _ => none

namespace Token

/-- What stands before the first token. -/
def nothing : Token := ⟨.nothing, "", none, .start⟩

/-- The end of the source, at the position `p`. -/
def endOfInput (p : Position) : Token := ⟨.endOfInput, "", none, p⟩

/-- The token of one punctuation character. -/
def punctuation (kind : TokenKind) (c : Char) (p : Position) : Token :=
  ⟨kind, String.singleton c, none, p⟩

/-- The token of a string of digits, which denotes their number when that is in range. -/
def number (digits : List Char) (p : Position) : Token :=
  ⟨.number, String.ofList digits, (fit? (Decimal.value digits)).map .int, p⟩

/-- The token of a word: a boolean if it is the whole of `true` or `false`, else an identifier. -/
def word (letters : List Char) (p : Position) : Token :=
  let text := String.ofList letters
  if text = "true" then ⟨.trueWord, text, some (.boolean true), p⟩
  else if text = "false" then ⟨.falseWord, text, some (.boolean false), p⟩
  else ⟨.identifier, text, none, p⟩

/-- The description of a token: its text in backquotes, or its name if it has no text. -/
def render (t : Token) : String :=
  match t.kind with
  | .nothing => "None"
  | .endOfInput => "Eof"
  | _ => "`" ++ t.text ++ "`"

end Token

end Calculator
