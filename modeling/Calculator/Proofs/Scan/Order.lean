import Mathlib.Data.List.Nodup
import Mathlib.Data.Prod.Lex
import Mathlib.Order.Lattice
import Calculator.Proofs.Scan.Tiling
import Calculator.Proofs.Scan.Tokens

/-!
# The order of the tokens

The tokens of a source start at places that come one after the other, and behind all of them is its
end (`Tiles.ascend_starts`). So no two of them are the same token (`TokenStream.nodup_tokens`).
-/

namespace Calculator

namespace Position

/-- A position as a pair that is ordered by the line first. -/
def toPair (p : Position) : ℕ ×ₗ ℕ := toLex (p.line, p.column)

/-- A character leads further on. -/
theorem toPair_lt_after (p : Position) (c : Char) : p.toPair < (p.after c).toPair := by
  unfold after
  split
  · exact Prod.Lex.toLex_lt_toLex.2 (.inl (Nat.lt_succ_self _))
  · exact Prod.Lex.toLex_lt_toLex.2 (.inr ⟨rfl, Nat.lt_succ_self _⟩)

/-- A text leads no way back. -/
theorem toPair_le_advance (p : Position) (cs : List Char) : p.toPair ≤ (p.advance cs).toPair := by
  induction cs generalizing p with
  | nil => exact le_rfl
  | cons c cs ih => exact (p.toPair_lt_after c).le.trans (ih _)

/-- A text that is not empty leads further on. -/
theorem toPair_lt_advance (p : Position) {cs : List Char} (h : cs ≠ []) :
    p.toPair < (p.advance cs).toPair := by
  cases cs with
  | nil => exact absurd rfl h
  | cons c cs => exact (p.toPair_lt_after c).trans_le (toPair_le_advance _ _)

/-- Places one after the other, from a first one on. -/
structure Ascend (p : Position) (qs : List Position) : Prop where
  /-- None of the places lies in front of the first one. -/
  le : ∀ q ∈ qs, p.toPair ≤ q.toPair
  /-- Each place lies behind those in front of it. -/
  pairwise : qs.Pairwise fun q q' => q.toPair < q'.toPair

/-- The place behind a text ascends by itself. -/
theorem ascend_advance (p : Position) (cs : List Char) : p.Ascend [p.advance cs] where
  le := by simpa using p.toPair_le_advance cs
  pairwise := List.pairwise_singleton _ _

/-- Places ascend from any place in front of them. -/
theorem Ascend.of_advance {p : Position} {cs : List Char} {qs : List Position}
    (h : (p.advance cs).Ascend qs) : p.Ascend qs where
  le := fun q hq => (p.toPair_le_advance cs).trans (h.le q hq)
  pairwise := h.pairwise

/-- A place in front of ascending ones, with a text between them. -/
theorem Ascend.cons {p : Position} {cs : List Char} {qs : List Position} (hcs : cs ≠ [])
    (h : (p.advance cs).Ascend qs) : p.Ascend (p :: qs) where
  le := List.forall_mem_cons.2 ⟨le_rfl, h.of_advance.le⟩
  pairwise := List.pairwise_cons.2
    ⟨fun q hq => (p.toPair_lt_advance hcs).trans_le (h.le q hq), h.pairwise⟩

end Position

namespace TokenStream

/-- The places where the tokens of a stream start, and then its end. -/
def starts (s : TokenStream) : List Position := s.tokens.map (·.start) ++ [s.ending.start]

end TokenStream

/-- The tokens that tile a text start at places one after the other, and it ends behind them. -/
theorem Tiles.ascend_starts {cs : List Char} {p : Position} {rs : List (Except ScanError Token)}
    (h : Tiles cs p rs) {ending : Token} (hending : ending.start = p.advance cs) :
    p.Ascend (TokenStream.mk rs ending).starts := by
  induction h with
  | @ending gap p isLastGap =>
    have hstarts : (TokenStream.mk [] ending).starts = [p.advance gap] := by
      rw [← hending]
      rfl
    rw [hstarts]
    exact p.ascend_advance gap
  | @token gap x rest p kind value rs isGap lexeme maximal tail ih =>
    rw [← List.append_assoc, Position.advance_append] at hending
    have hrest := ih hending
    rw [Position.advance_append] at hrest
    exact (hrest.cons lexeme.isLexeme.ne_nil).of_advance
  | @foreign gap rest c p rs isGap isForeign tail ih =>
    rw [List.append_cons, Position.advance_append] at hending
    exact (ih hending).of_advance
  | @unterminated gap body p isGap never =>
    have hstarts : (TokenStream.mk [.error (.unterminatedComment (p.advance gap))] ending).starts =
        [p.advance (gap ++ '/' :: '*' :: body)] := by
      rw [← hending]
      rfl
    rw [hstarts]
    exact p.ascend_advance _

/-- The tokens of a source and its end are all different. -/
theorem TokenStream.nodup_tokens (source : String) :
    ((ofString source).tokens ++ [(ofString source).ending]).Nodup := by
  obtain ⟨rs, hrs⟩ := Tiles.exists_tiles source.toList .start
  have hstream : ofString source = ⟨rs, .endOfInput (Position.start.advance source.toList)⟩ :=
    hrs.ofCursor_eq
  have hascend : Position.start.Ascend (ofString source).starts := by
    rw [hstream]
    exact hrs.ascend_starts rfl
  have hpairwise := hascend.pairwise
  have hstarts : (ofString source).starts =
      ((ofString source).tokens ++ [(ofString source).ending]).map (·.start) := by
    rw [starts, List.map_append, List.map_singleton]
  rw [hstarts, List.pairwise_map] at hpairwise
  -- Tokens that start at different places are different.
  exact hpairwise.imp fun hlt heq => absurd (heq ▸ hlt) (lt_irrefl _)

end Calculator
