import Calculator.Proofs.Grammar.Derivation
import Calculator.Proofs.Reading.Places

/-!
# Derivations at other places

The grammar looks at the kinds and the texts of tokens only. So if tokens are derived, the same
tokens at other places are derived in the same way (`Derivation.exists_isMoved`): with the same
levels, and with the same tree but for the places.
-/

namespace Calculator

/-- Tokens that are the same but for the place have the same kind. -/
theorem Token.kind_eq_of_placed {t u : Token} (h : u.placed .start = t.placed .start) :
    u.kind = t.kind := by
  have hkind : (u.placed .start).kind = (t.placed .start).kind := by rw [h]
  exact hkind

/-- Tokens that are the same but for the place have the same text. -/
theorem Token.text_eq_of_placed {t u : Token} (h : u.placed .start = t.placed .start) :
    u.text = t.text := by
  have htext : (u.placed .start).text = (t.placed .start).text := by rw [h]
  exact htext

/-- Tokens that are the same as others but for the places are divided as these are. -/
theorem Token.exists_append_cons_of_placed {us front back : List Token} {t : Token}
    (h : us.map (·.placed .start) = (front ++ t :: back).map (·.placed .start)) :
    ∃ front' u back', us = front' ++ u :: back' ∧
      front'.map (·.placed .start) = front.map (·.placed .start) ∧
      u.placed .start = t.placed .start ∧
      back'.map (·.placed .start) = back.map (·.placed .start) := by
  rw [List.map_append, List.map_eq_append_iff] at h
  obtain ⟨front', us', rfl, hfront, hus⟩ := h
  obtain ⟨u, back', rfl, hu, hback⟩ := List.map_eq_cons_iff.1 hus
  exact ⟨front', u, back', rfl, hfront, hu, hback⟩

namespace Derivation

variable {s : Symbol}

/-- The derivation `e` derives the tokens `us` as `d` derives its own tokens. -/
structure IsMoved (d e : Derivation s) (us : List Token) : Prop where
  /-- The tokens are derived. -/
  tokens : e.tokens = us
  /-- The levels are the same. -/
  deepest : e.deepest = d.deepest
  /-- The outermost chain is as long. -/
  operators : e.operators = d.operators
  /-- The tree is the same but for the places. -/
  unplaced : e.tree.unplaced = d.tree.unplaced

/-- An expression in parentheses at another place. -/
theorem IsMoved.parens {inside inside' : Derivation .term}
    {opening opening' closing closing' : Token} {us : List Token}
    (isOpening : opening.kind = .leftParen) (isClosing : closing.kind = .rightParen)
    (isOpening' : opening'.kind = .leftParen) (isClosing' : closing'.kind = .rightParen)
    (h : inside.IsMoved inside' us) :
    (parens opening inside closing isOpening isClosing).IsMoved
      (parens opening' inside' closing' isOpening' isClosing')
      (opening' :: (us ++ [closing'])) where
  tokens := by rw [Derivation.tokens, h.tokens]
  deepest := by rw [Derivation.deepest, Derivation.deepest, h.deepest]
  operators := rfl
  unplaced := h.unplaced

/-- Tokens that are the same as those of a derivation but for the places are derived in the same
way. -/
theorem exists_isMoved (d : Derivation s) {us : List Token}
    (h : us.map (·.placed .start) = d.tokens.map (·.placed .start)) : ∃ e, d.IsMoved e us := by
  induction d generalizing us with
  | number token kind inRange =>
    obtain ⟨u, us, rfl, hu, hus⟩ := List.map_eq_cons_iff.1 h
    obtain rfl := List.map_eq_nil_iff.1 hus
    rw [← Token.kind_eq_of_placed hu] at kind
    rw [← Token.text_eq_of_placed hu] at inRange
    exact ⟨.number u kind inRange, rfl, rfl, rfl, congrArg ParseTree.literal hu⟩
  | boolean token kind =>
    obtain ⟨u, us, rfl, hu, hus⟩ := List.map_eq_cons_iff.1 h
    obtain rfl := List.map_eq_nil_iff.1 hus
    rw [← Token.kind_eq_of_placed hu] at kind
    exact ⟨.boolean u kind, rfl, rfl, rfl, congrArg ParseTree.literal hu⟩
  | parens opening inside closing isOpening isClosing ih =>
    obtain ⟨opening', us, rfl, hopening, hus⟩ := List.map_eq_cons_iff.1 h
    obtain ⟨us, closing', back, rfl, hinside, hclosing, hback⟩ :=
      Token.exists_append_cons_of_placed hus
    obtain rfl := List.map_eq_nil_iff.1 hback
    obtain ⟨inside', hinside'⟩ := ih hinside
    have isOpening' := (Token.kind_eq_of_placed hopening).trans isOpening
    have isClosing' := (Token.kind_eq_of_placed hclosing).trans isClosing
    exact ⟨_, hinside'.parens isOpening isClosing isOpening' isClosing'⟩
  | ofPrimary x ih =>
    obtain ⟨y, hy⟩ := ih h
    exact ⟨.ofPrimary y, hy.tokens, hy.deepest, rfl, hy.unplaced⟩
  | least sign digits isMinus kind value =>
    obtain ⟨sign', us, rfl, hsign, hus⟩ := List.map_eq_cons_iff.1 h
    obtain ⟨digits', us, rfl, hdigits, hus⟩ := List.map_eq_cons_iff.1 hus
    obtain rfl := List.map_eq_nil_iff.1 hus
    have htext := Token.text_eq_of_placed hdigits
    have hleast : (leastLiteral sign' digits').placed .start =
        (leastLiteral sign digits).placed .start := by
      simp [leastLiteral, htext, Token.placed]
    rw [← Token.kind_eq_of_placed hsign] at isMinus
    rw [← Token.kind_eq_of_placed hdigits] at kind
    rw [← htext] at value
    exact ⟨.least sign' digits' isMinus kind value, rfl, rfl, rfl,
      congrArg ParseTree.literal hleast⟩
  | signed sign isSign x ih =>
    obtain ⟨sign', us, rfl, hsign, hus⟩ := List.map_eq_cons_iff.1 h
    obtain ⟨y, hy⟩ := ih hus
    rw [← Token.kind_eq_of_placed hsign] at isSign
    refine ⟨.signed sign' isSign y, ?_, ?_, rfl, ?_⟩
    · rw [tokens, hy.tokens]
    · rw [deepest, deepest, hy.deepest]
    · rw [tree, tree, ParseTree.unplaced, ParseTree.unplaced, hsign, hy.unplaced]
  | ofUnary x ih =>
    obtain ⟨y, hy⟩ := ih h
    exact ⟨.ofUnary y, hy.tokens, hy.deepest, rfl, hy.unplaced⟩
  | product left operator isOperator right ihLeft ihRight =>
    obtain ⟨us, operator', vs, rfl, hleft, hop, hright⟩ := Token.exists_append_cons_of_placed h
    obtain ⟨left', hl⟩ := ihLeft hleft
    obtain ⟨right', hr⟩ := ihRight hright
    rw [← Token.kind_eq_of_placed hop] at isOperator
    refine ⟨.product left' operator' isOperator right', ?_, ?_, ?_, ?_⟩
    · rw [tokens, hl.tokens, hr.tokens]
    · rw [deepest, deepest, hl.deepest, hr.deepest, hl.operators]
    · rw [operators, operators, hl.operators]
    · rw [tree, tree, ParseTree.unplaced, ParseTree.unplaced, hl.unplaced, hop, hr.unplaced]
  | ofFactor x ih =>
    obtain ⟨y, hy⟩ := ih h
    exact ⟨.ofFactor y, hy.tokens, hy.deepest, rfl, hy.unplaced⟩
  | sum left operator isOperator right ihLeft ihRight =>
    obtain ⟨us, operator', vs, rfl, hleft, hop, hright⟩ := Token.exists_append_cons_of_placed h
    obtain ⟨left', hl⟩ := ihLeft hleft
    obtain ⟨right', hr⟩ := ihRight hright
    rw [← Token.kind_eq_of_placed hop] at isOperator
    refine ⟨.sum left' operator' isOperator right', ?_, ?_, ?_, ?_⟩
    · rw [tokens, hl.tokens, hr.tokens]
    · rw [deepest, deepest, hl.deepest, hr.deepest, hl.operators]
    · rw [operators, operators, hl.operators]
    · rw [tree, tree, ParseTree.unplaced, ParseTree.unplaced, hl.unplaced, hop, hr.unplaced]

end Derivation

end Calculator
