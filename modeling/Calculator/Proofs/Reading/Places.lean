import Calculator.ParseTree
import Calculator.ParseTree.Reading
import Calculator.Proofs.Scan.Tokens

/-!
# Readings without places

The places of tokens and of errors end up in reports and in trees, but no step of a reading looks at
them. To say so, everything is put at the start of the source: the results of the scans, the tree,
the reports, and the whole state of a reading (`Reading.unplaced`). Bringing the next token into
view, reporting a fault and whatever is made up of these come to the same whether the places are
taken away before or afterwards.
-/

namespace Calculator

/-- The token at another place. -/
def Token.placed (t : Token) (p : Position) : Token := { t with start := p }

/-- The error without its place. -/
def ScanError.unplaced : ScanError → ScanError
  | unexpectedEnd => unexpectedEnd
  | unexpectedCharacter _ c => unexpectedCharacter .start c
  | unterminatedComment _ => unterminatedComment .start

/-- A result of a scan without its place. -/
def Cursor.unplaced : Except ScanError Token → Except ScanError Token
  | .ok t => .ok (t.placed .start)
  | .error e => .error e.unplaced

/-- The stream without the places of its results. -/
def TokenStream.unplaced (s : TokenStream) : TokenStream :=
  ⟨s.ahead.map Cursor.unplaced, s.ending.placed .start⟩

/-- The tree without the places of its tokens. -/
def ParseTree.unplaced : ParseTree → ParseTree
  | literal t => literal (t.placed .start)
  | unary operator x => unary (operator.placed .start) x.unplaced
  | binary x operator y => binary x.unplaced (operator.placed .start) y.unplaced
  | error => error

/-- The report without the place that it is about. -/
def Diagnostic.unplaced : Diagnostic → Diagnostic
  | lexical error => lexical error.unplaced
  | syntactic token fault => syntactic (token.placed .start) fault
  | undefinedUnary operator operand => undefinedUnary operator operand
  | undefinedBinary operator left right => undefinedBinary operator left right

/-- The log with something done to each report. -/
def Diagnostics.map {α β : Type} (f : α → β) (d : Diagnostics α) : Diagnostics β :=
  ⟨d.reports.map f⟩

/-- The state of a reading without the places of anything in it. -/
def Reading.unplaced (r : Reading) : Reading where
  stream := r.stream.unplaced
  current := r.current.placed .start
  diagnostics := r.diagnostics.map Diagnostic.unplaced
  failed := r.failed
  lost := r.lost

namespace Token

variable (t : Token) (p : Position)

/-- A token has the same kind anywhere. -/
@[simp] theorem kind_placed : (t.placed p).kind = t.kind := rfl

/-- A token has the same text anywhere. -/
@[simp] theorem text_placed : (t.placed p).text = t.text := rfl

end Token

/-- What is wrong is the same anywhere. -/
@[simp] theorem ScanError.text_unplaced (e : ScanError) : e.unplaced.text = e.text := by
  cases e <;> rfl

/-- A report says the same of a token anywhere. -/
@[simp] theorem Diagnostic.text_unplaced (d : Diagnostic) : d.unplaced.text = d.text := by
  cases d with
  | lexical error => exact error.text_unplaced
  | syntactic token fault => rfl
  | undefinedUnary operator operand => rfl
  | undefinedBinary operator left right => rfl

namespace Diagnostics

variable {α β : Type} (f : α → β) (d : Diagnostics α)

/-- Something is done to each report of a log in turn. -/
@[simp] theorem toList_map : (d.map f).toList = d.toList.map f := Array.toList_map

/-- A further report is one of those to which something is done. -/
theorem map_report (r : α) : (d.map f).report (f r) = (d.report r).map f := by
  ext1
  simp

/-- Further reports are among those to which something is done. -/
theorem map_reportAll (rs : List α) : (d.map f).reportAll (rs.map f) = (d.reportAll rs).map f := by
  ext1
  simp

end Diagnostics

/-! ## What a reading does without places -/

/-- The next token, the errors in front of it and what is behind it are the same without places. -/
theorem TokenStream.nextOf_unplaced (ending : Token) (ahead : List (Except ScanError Token)) :
    nextOf (ending.placed .start) (ahead.map Cursor.unplaced) =
      ((nextOf ending ahead).1.map ScanError.unplaced, (nextOf ending ahead).2.1.placed .start,
        (nextOf ending ahead).2.2.map Cursor.unplaced) := by
  fun_induction nextOf ending ahead with
  | case1 => rfl
  | case2 t rest => rfl
  | case3 rest => rfl
  | case4 e rest hne errors t rest' hrest ih =>
    rw [hrest] at ih
    cases e with
    | unexpectedEnd => exact absurd rfl hne
    | unexpectedCharacter p c =>
      simp only [List.map_cons, Cursor.unplaced, ScanError.unplaced, nextOf, ih]
    | unterminatedComment p =>
      simp only [List.map_cons, Cursor.unplaced, ScanError.unplaced, nextOf, ih]

namespace Reading

variable (r : Reading)

/-- Before the first token of a stream only the stream has places. -/
theorem start_unplaced (s : TokenStream) : start s.unplaced = (start s).unplaced := by
  have hempty : Diagnostics.empty = Diagnostics.empty.map Diagnostic.unplaced := by
    ext1
    simp
  rw [start, hempty]
  rfl

/-- The next token comes into view without its place. -/
theorem advance_unplaced : r.unplaced.advance = r.advance.unplaced := by
  have hnext : r.unplaced.stream.next =
      (r.stream.next.1.map ScanError.unplaced, r.stream.next.2.1.placed .start,
        r.stream.next.2.2.unplaced) := by
    have hnextOf := TokenStream.nextOf_unplaced r.stream.ending r.stream.ahead
    simp only [TokenStream.next, unplaced, TokenStream.unplaced, hnextOf]
  have hlexical : ∀ errors : List ScanError,
      (errors.map ScanError.unplaced).map Diagnostic.lexical =
        (errors.map Diagnostic.lexical).map Diagnostic.unplaced := fun errors => by
    rw [List.map_map, List.map_map]
    rfl
  simp only [advance, hnext, hlexical]
  simp only [unplaced, Diagnostics.map_reportAll, List.isEmpty_map]

/-- A fault is reported without the place of its token. -/
theorem fault_unplaced (token : Token) (f : SyntaxFault) :
    r.unplaced.fault (token.placed .start) f = (r.fault token f).unplaced := by
  unfold fault
  cases hl : r.lost with
  | true => simp [unplaced, hl]
  | false =>
    have hreport := Diagnostics.map_report Diagnostic.unplaced r.diagnostics (.syntactic token f)
    simp only [Diagnostic.unplaced] at hreport
    simp [unplaced, hl, hreport]

/-- A fault of the token in view is reported without its place. -/
theorem faultHere_unplaced (f : SyntaxFault) :
    r.unplaced.faultHere f = (r.faultHere f).unplaced := r.fault_unplaced r.current f

/-- The closing parenthesis is read without its place. -/
theorem close_unplaced : r.unplaced.close = r.close.unplaced := by
  unfold close
  have hkind : r.unplaced.current.kind = r.current.kind := rfl
  rw [hkind, advance_unplaced, faultHere_unplaced]
  split <;> rfl

/-- The end of the source is required without its place. -/
theorem finish_unplaced : r.unplaced.finish = r.finish.unplaced := by
  unfold finish
  have hend : r.unplaced.atEnd = r.atEnd := rfl
  rw [hend, faultHere_unplaced]
  split <;> rfl

end Reading

end Calculator
