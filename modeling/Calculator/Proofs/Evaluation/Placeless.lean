import Mathlib.Control.Monad.Basic
import Calculator.Proofs.Evaluation.Stages
import Calculator.Proofs.Grammar.Placeless

/-!
# Places and meaning

If the scans of two sources yield the same tokens and errors one by one, but for their places, then
the sources are read into the same tree, bound to the same tree and evaluated to the same outcome,
and what is reported about them says the same (`compile_placeless`). So the layout of a source can
change where something is reported, and nothing else.

A source and the other one have one reading in common, the one without places. Its reports are those
of either source without their places, and binding does not look at places at all.
-/

namespace Calculator

namespace ParseTree

/-- The first literal has the same type anywhere. -/
theorem firstTy_unplaced (t : ParseTree) : t.unplaced.firstTy = t.firstTy := by
  induction t with
  | literal token => rfl
  | unary operator x ih => exact ih
  | binary x operator y ihx _ => exact ihx
  | error => rfl

/-- A tree has the same image anywhere. -/
theorem image_unplaced (t : ParseTree) : t.unplaced.image = t.image := by
  induction t with
  | literal token => rfl
  | unary operator x ih =>
    simp only [unplaced, image, Token.kind_placed, firstTy_unplaced, ih]
  | binary x operator y ihx ihy =>
    simp only [unplaced, image, Token.kind_placed, firstTy_unplaced, ihx, ihy]
  | error => rfl

/-- A tree has the same offences anywhere. -/
theorem offences_unplaced (t : ParseTree) : t.unplaced.offences = t.offences := by
  induction t with
  | literal token => rfl
  | unary operator x ih =>
    simp only [unplaced, offences, Token.kind_placed, Token.text_placed, firstTy_unplaced, ih]
  | binary x operator y ihx ihy =>
    simp only [unplaced, offences, Token.kind_placed, Token.text_placed, firstTy_unplaced, ihx,
      ihy]
  | error => rfl

/-- Trees that are the same but for their places have the same image and the same offences. -/
theorem image_eq_and_offences_eq {t u : ParseTree} (h : t.unplaced = u.unplaced) :
    t.image = u.image ∧ t.offences = u.offences := by
  constructor
  · rw [← t.image_unplaced, h, u.image_unplaced]
  · rw [← t.offences_unplaced, h, u.offences_unplaced]

end ParseTree

/-- The end of a source is the same but for its place. -/
theorem TokenStream.placed_ending (source : String) :
    (ofString source).ending.placed .start = .endOfInput .start := by
  obtain ⟨p, hp⟩ := exists_ending_ofCursor (.ofString source)
  rw [ofString, hp]
  rfl

variable {a b : String}

/-- Sources whose scans yield the same but for the places are read to the same but for the
places. -/
theorem Reading.parse_unplaced_eq
    (h : (TokenStream.ofString a).ahead.map Cursor.unplaced =
      (TokenStream.ofString b).ahead.map Cursor.unplaced) :
    Rule.unplaced (ofString a).parse = Rule.unplaced (ofString b).parse := by
  have hstream : (TokenStream.ofString a).unplaced = (TokenStream.ofString b).unplaced := by
    rw [TokenStream.unplaced, TokenStream.unplaced, h, TokenStream.placed_ending,
      TokenStream.placed_ending]
  calc Rule.unplaced (ofString a).parse
      = (start (TokenStream.ofString a).unplaced).parse := by
        rw [start_unplaced, parse_unplaced, ofString]
    _ = Rule.unplaced (ofString b).parse := by
        rw [hstream, start_unplaced, parse_unplaced, ofString]

/-- Sources whose scans yield the same tokens and errors, but for the places of these, are compiled
to trees that are the same but for the places, to the same bound tree if to any, with reports that
say the same one by one, and come to the same outcome. -/
theorem compile_placeless
    (h : (TokenStream.ofString a).ahead.map Cursor.unplaced =
      (TokenStream.ofString b).ahead.map Cursor.unplaced) :
    ∃ c d, compile a = .ok c ∧ compile b = .ok d ∧ c.tree.unplaced = d.tree.unplaced ∧
      c.bound = d.bound ∧
      c.diagnostics.toList.map Diagnostic.text = d.diagnostics.toList.map Diagnostic.text ∧
      c.eval = d.eval := by
  have hparse := Reading.parse_unplaced_eq h
  have htree : (Reading.ofString a).parse.1.unplaced = (Reading.ofString b).parse.1.unplaced :=
    congrArg Prod.fst hparse
  have hreports : (Reading.ofString a).parse.2.diagnostics.toList.map Diagnostic.unplaced =
      (Reading.ofString b).parse.2.diagnostics.toList.map Diagnostic.unplaced := by
    have hlog := congrArg (fun x => x.2.diagnostics.toList) hparse
    simpa [Rule.unplaced, Reading.unplaced] using hlog
  by_cases hread : (Reading.ofString a).parse.2.diagnostics.toList = []
  · have hread' : (Reading.ofString b).parse.2.diagnostics.toList = [] := by
      rw [hread, List.map_nil] at hreports
      exact List.map_eq_nil_iff.1 hreports.symm
    obtain ⟨himage, hoffences⟩ := ParseTree.image_eq_and_offences_eq htree
    have ha := compile_of_read hread
    have hb := compile_of_read hread'
    rw [himage, hoffences] at ha
    generalize (Reading.ofString a).parse = x at ha htree
    generalize (Reading.ofString b).parse = y at ha hb htree
    exact ⟨_, _, ha, hb, htree, rfl, rfl, rfl⟩
  · have hread' : (Reading.ofString b).parse.2.diagnostics.toList ≠ [] := by
      intro hnil
      rw [hnil, List.map_nil] at hreports
      exact hread (List.map_eq_nil_iff.1 hreports)
    have htexts := congrArg (List.map Diagnostic.text) hreports
    simp only [List.map_map, Function.comp_def, Diagnostic.text_unplaced] at htexts
    have ha := compile_of_reported hread
    have hb := compile_of_reported hread'
    generalize (Reading.ofString a).parse = x at ha htree htexts
    generalize (Reading.ofString b).parse = y at hb htree htexts
    exact ⟨_, _, ha, hb, htree, rfl, htexts, rfl⟩

/-- Behind other layout a quotient has the same value, and a source with errors of every sort has
the same reports. -/
theorem compile_placeless_two_sources :
    (let a := "-2147483648/(1+ -3)"
      let b := "- // the least\n2147483648 / (1 + /* sic */ -3)"
      (TokenStream.ofString a).ahead.map Cursor.unplaced =
          (TokenStream.ofString b).ahead.map Cursor.unplaced ∧
        ∃ c d, compile a = .ok c ∧ compile b = .ok d ∧ c.tree.unplaced = d.tree.unplaced ∧
          c.bound = d.bound ∧
          c.diagnostics.toList.map Diagnostic.text = d.diagnostics.toList.map Diagnostic.text ∧
          c.eval = d.eval) ∧
    (let a := "(9999999999# x) 1 /* open"
      let b := "(\n9999999999 //\n # x\t) 1\n/*"
      (TokenStream.ofString a).ahead.map Cursor.unplaced =
          (TokenStream.ofString b).ahead.map Cursor.unplaced ∧
        ∃ c d, compile a = .ok c ∧ compile b = .ok d ∧ c.tree.unplaced = d.tree.unplaced ∧
          c.bound = d.bound ∧
          c.diagnostics.toList.map Diagnostic.text = d.diagnostics.toList.map Diagnostic.text ∧
          c.eval = d.eval) := by
  constructor
  · intro a b
    have h : (TokenStream.ofString a).ahead.map Cursor.unplaced =
        (TokenStream.ofString b).ahead.map Cursor.unplaced := by decide +kernel
    exact ⟨h, compile_placeless h⟩
  · intro a b
    have h : (TokenStream.ofString a).ahead.map Cursor.unplaced =
        (TokenStream.ofString b).ahead.map Cursor.unplaced := by decide +kernel
    exact ⟨h, compile_placeless h⟩

end Calculator
