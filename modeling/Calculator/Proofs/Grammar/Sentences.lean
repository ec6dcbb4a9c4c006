import Calculator.Proofs.Grammar.Derivation

/-!
# Sentences and their beginnings

A sentence is a list of kinds of tokens that the grammar produces for an expression, with numbers of
any size and however deeply it nests. As long as the numbers are in range, the derivations are those
of the sentences (`exists_derivation_iff`). A list of kinds is viable if a sentence begins with it.

What can stand behind a viable list depends on two things only: whether an operand or an operator is
due, and how many parentheses are open. These make up a `Place`, and `Place.along` goes from place
to place over a list of kinds. The lists along which it gets through are the viable ones
(`viable_iff`), and those along which it ends behind an operand with all parentheses closed are the
sentences (`sentence_iff`). In one direction this is an induction on the phrase. In the other each
place says how what has been passed is made up of phrases (`Place.Behind`), which each step keeps.
-/

namespace Calculator

/-- The grammar on the kinds of tokens. -/
inductive Phrase : Symbol → List TokenKind → Prop where
  /-- A number of any size. -/
  | number : Phrase .primary [.number]
  /-- One of the words `true` and `false`. -/
  | boolean {k : TokenKind} (kind : k = .trueWord ∨ k = .falseWord) : Phrase .primary [k]
  /-- An expression in parentheses. -/
  | parens {ks : List TokenKind} (inside : Phrase .term ks) :
      Phrase .primary (.leftParen :: (ks ++ [.rightParen]))
  /-- An operand without a sign. -/
  | ofPrimary {ks : List TokenKind} (x : Phrase .primary ks) : Phrase .unary ks
  /-- A sign and its operand. -/
  | signed {k : TokenKind} {ks : List TokenKind} (isSign : k = .plus ∨ k = .minus)
      (x : Phrase .unary ks) : Phrase .unary (k :: ks)
  /-- The first operand of a factor. -/
  | ofUnary {ks : List TokenKind} (x : Phrase .unary ks) : Phrase .factor ks
  /-- A factor that goes on with an operator and an operand. -/
  | product {ks ls : List TokenKind} {k : TokenKind} (left : Phrase .factor ks)
      (isOperator : k = .times ∨ k = .divide) (right : Phrase .unary ls) :
      Phrase .factor (ks ++ k :: ls)
  /-- The first factor of a term. -/
  | ofFactor {ks : List TokenKind} (x : Phrase .factor ks) : Phrase .term ks
  /-- A term that goes on with an operator and a factor. -/
  | sum {ks ls : List TokenKind} {k : TokenKind} (left : Phrase .term ks)
      (isOperator : k = .plus ∨ k = .minus) (right : Phrase .factor ls) :
      Phrase .term (ks ++ k :: ls)

/-- A sentence is an expression. -/
abbrev Sentence (ks : List TokenKind) : Prop := Phrase .term ks

/-- A sentence begins with the kinds. -/
def Viable (ks : List TokenKind) : Prop := ∃ rest, Sentence (ks ++ rest)

/-- What is derived is a phrase. -/
theorem Derivation.phrase {s : Symbol} (d : Derivation s) : Phrase s (d.tokens.map Token.kind) := by
  induction d with
  | number token kind _ =>
    rw [tokens, List.map_singleton, kind]
    exact .number
  | boolean token kind => exact .boolean kind
  | parens opening inside closing isOpening isClosing ih =>
    simp only [tokens, List.map_cons, List.map_append, List.map_nil, isOpening, isClosing]
    exact .parens ih
  | ofPrimary _ ih => exact .ofPrimary ih
  | least sign digits isMinus kind _ =>
    simp only [tokens, List.map_cons, List.map_nil, isMinus, kind]
    exact .signed (.inr rfl) (.ofPrimary .number)
  | signed sign isSign x ih => exact .signed isSign ih
  | ofUnary _ ih => exact .ofUnary ih
  | product left operator isOperator right ihLeft ihRight =>
    rw [tokens, List.map_append]
    exact .product ihLeft isOperator ihRight
  | ofFactor _ ih => exact .ofFactor ih
  | sum left operator isOperator right ihLeft ihRight =>
    rw [tokens, List.map_append]
    exact .sum ihLeft isOperator ihRight

/-- The tokens of a phrase are derived if their numbers are in range. -/
theorem Phrase.exists_derivation {s : Symbol} {ks : List TokenKind} (h : Phrase s ks)
    {ts : List Token} (hks : ts.map Token.kind = ks)
    (hrange : ∀ t ∈ ts, t.kind = .number → Decimal.value t.text.toList ≤ greatestNumber) :
    ∃ d : Derivation s, d.tokens = ts := by
  induction h generalizing ts with
  | number =>
    obtain ⟨t, us, rfl, ht, hus⟩ := List.map_eq_cons_iff.1 hks
    obtain rfl := List.map_eq_nil_iff.1 hus
    exact ⟨.number t ht (hrange t List.mem_cons_self ht), rfl⟩
  | boolean kind =>
    obtain ⟨t, us, rfl, ht, hus⟩ := List.map_eq_cons_iff.1 hks
    obtain rfl := List.map_eq_nil_iff.1 hus
    exact ⟨.boolean t (ht ▸ kind), rfl⟩
  | parens _ ih =>
    obtain ⟨opening, us, rfl, hopening, hus⟩ := List.map_eq_cons_iff.1 hks
    obtain ⟨us, vs, rfl, hinside, hvs⟩ := List.map_eq_append_iff.1 hus
    obtain ⟨closing, ws, rfl, hclosing, hws⟩ := List.map_eq_cons_iff.1 hvs
    obtain rfl := List.map_eq_nil_iff.1 hws
    obtain ⟨inside, rfl⟩ := ih hinside fun t ht => hrange t (by simp [ht])
    exact ⟨.parens opening inside closing hopening hclosing, rfl⟩
  | ofPrimary _ ih =>
    obtain ⟨d, rfl⟩ := ih hks hrange
    exact ⟨.ofPrimary d, rfl⟩
  | signed isSign _ ih =>
    obtain ⟨sign, us, rfl, hsign, hus⟩ := List.map_eq_cons_iff.1 hks
    obtain ⟨d, rfl⟩ := ih hus fun t ht => hrange t (List.mem_cons_of_mem _ ht)
    exact ⟨.signed sign (hsign ▸ isSign) d, rfl⟩
  | ofUnary _ ih =>
    obtain ⟨d, rfl⟩ := ih hks hrange
    exact ⟨.ofUnary d, rfl⟩
  | product _ isOperator _ ihLeft ihRight =>
    obtain ⟨us, vs, rfl, hleft, hvs⟩ := List.map_eq_append_iff.1 hks
    obtain ⟨operator, vs, rfl, hoperator, hright⟩ := List.map_eq_cons_iff.1 hvs
    obtain ⟨left, rfl⟩ := ihLeft hleft fun t ht => hrange t (by simp [ht])
    obtain ⟨right, rfl⟩ := ihRight hright fun t ht => hrange t (by simp [ht])
    exact ⟨.product left operator (hoperator ▸ isOperator) right, rfl⟩
  | ofFactor _ ih =>
    obtain ⟨d, rfl⟩ := ih hks hrange
    exact ⟨.ofFactor d, rfl⟩
  | sum _ isOperator _ ihLeft ihRight =>
    obtain ⟨us, vs, rfl, hleft, hvs⟩ := List.map_eq_append_iff.1 hks
    obtain ⟨operator, vs, rfl, hoperator, hright⟩ := List.map_eq_cons_iff.1 hvs
    obtain ⟨left, rfl⟩ := ihLeft hleft fun t ht => hrange t (by simp [ht])
    obtain ⟨right, rfl⟩ := ihRight hright fun t ht => hrange t (by simp [ht])
    exact ⟨.sum left operator (hoperator ▸ isOperator) right, rfl⟩

/-- As long as their numbers are in range, tokens are derived exactly if their kinds make up a
phrase. -/
theorem exists_derivation_iff {s : Symbol} {ts : List Token}
    (hrange : ∀ t ∈ ts, t.kind = .number → Decimal.value t.text.toList ≤ greatestNumber) :
    (∃ d : Derivation s, d.tokens = ts) ↔ Phrase s (ts.map Token.kind) := by
  refine ⟨?_, fun h => h.exists_derivation rfl hrange⟩
  rintro ⟨d, rfl⟩
  exact d.phrase

/-! ## Places -/

/-- A place in the grammar: what is due, and how many parentheses are open. -/
inductive Place where
  /-- An operand is due. -/
  | operand (unclosed : ℕ)
  /-- Behind an operand, an operator is due, or a closing parenthesis, or the end. -/
  | operator (unclosed : ℕ)
  deriving DecidableEq

namespace Place

/-- The place behind a kind of token, if it can stand here. -/
def step : Place → TokenKind → Option Place
  | operand n, .number => some (operator n)
  | operand n, .trueWord => some (operator n)
  | operand n, .falseWord => some (operator n)
  | operand n, .leftParen => some (operand (n + 1))
  | operand n, .plus => some (operand n)
  | operand n, .minus => some (operand n)
  | operator n, .plus => some (operand n)
  | operator n, .minus => some (operand n)
  | operator n, .times => some (operand n)
  | operator n, .divide => some (operand n)
  | operator (n + 1), .rightParen => some (operator n)
  | _, _ => none

/-- The place behind a list of kinds, if they can stand here one after the other. -/
def along : Place → List TokenKind → Option Place
  | p, [] => some p
  | p, k :: ks => (p.step k).bind fun q => q.along ks

/-- Going along two lists is going along the one and then along the other. -/
theorem along_append (p : Place) (ks ls : List TokenKind) :
    p.along (ks ++ ls) = (p.along ks).bind fun q => q.along ls := by
  induction ks generalizing p with
  | nil => rfl
  | cons k ks ih =>
    rw [List.cons_append, along, along, Option.bind_assoc]
    exact congrArg _ (funext fun q => ih q)

/-- Going along one kind is a step. -/
theorem along_singleton (p : Place) (k : TokenKind) : p.along [k] = p.step k :=
  Option.bind_fun_some _

/-- Where going along a list has ended it goes on. -/
theorem along_append_of_eq {p q : Place} {ks : List TokenKind} (h : p.along ks = some q)
    (ls : List TokenKind) : p.along (ks ++ ls) = q.along ls := by
  rw [along_append, h]
  rfl

/-- What gets through along a list gets through along its front. -/
theorem exists_along_of_append {p q : Place} {ks ls : List TokenKind}
    (h : p.along (ks ++ ls) = some q) : ∃ m, p.along ks = some m ∧ m.along ls = some q := by
  rw [along_append] at h
  exact Option.bind_eq_some_iff.1 h

end Place

/-- Where an operand is due a phrase leads behind it, with the same parentheses open. -/
theorem Phrase.along {s : Symbol} {ks : List TokenKind} (h : Phrase s ks) (n : ℕ) :
    (Place.operand n).along ks = some (.operator n) := by
  induction h generalizing n with
  | number => rfl
  | boolean kind => rcases kind with rfl | rfl <;> rfl
  | parens inside ih => exact Place.along_append_of_eq (ih (n + 1)) [.rightParen]
  | ofPrimary _ ih => exact ih n
  | signed isSign _ ih => rcases isSign with rfl | rfl <;> exact ih n
  | ofUnary _ ih => exact ih n
  | product left isOperator right ihLeft ihRight =>
    rw [Place.along_append_of_eq (ihLeft n)]
    rcases isOperator with rfl | rfl <;> exact ihRight n
  | ofFactor _ ih => exact ih n
  | sum left isOperator right ihLeft ihRight =>
    rw [Place.along_append_of_eq (ihLeft n)]
    rcases isOperator with rfl | rfl <;> exact ihRight n

/-! ## What stands in front of a place -/

/-- An operand behind the kinds makes them a term. -/
def LacksOperand (ks : List TokenKind) : Prop := ∀ ls, Phrase .unary ls → Phrase .term (ks ++ ls)

/-- An operand is a term by itself. -/
theorem lacksOperand_nil : LacksOperand [] := fun _ h => .ofFactor (.ofUnary h)

/-- A sign goes with the operand behind it. -/
theorem LacksOperand.sign {ks : List TokenKind} {k : TokenKind} (h : LacksOperand ks)
    (hk : k = .plus ∨ k = .minus) : LacksOperand (ks ++ [k]) := by
  intro ls hls
  rw [List.append_assoc]
  exact h _ (.signed hk hls)

/-- Behind a term and an operator an operand makes them a term again. -/
theorem Phrase.lacksOperand {ks : List TokenKind} {k : TokenKind} (h : Phrase .term ks)
    (hk : (k = .plus ∨ k = .minus) ∨ k = .times ∨ k = .divide) : LacksOperand (ks ++ [k]) := by
  intro ls hls
  rw [List.append_assoc]
  rcases hk with hterm | hfactor
  · exact .sum h hterm (.ofUnary hls)
  · -- The operator goes on with the last factor of the term.
    cases h with
    | ofFactor x => exact .ofFactor (.product x hfactor hls)
    | sum left isOperator right =>
      have hright := Phrase.product right hfactor hls
      rw [List.append_assoc]
      exact .sum left isOperator hright

/-- As many opening parentheses, each of them where an operand is due, with what stands in front of
them. -/
inductive Opened : ℕ → List TokenKind → Prop where
  /-- No parenthesis is open in front of everything. -/
  | none : Opened 0 []
  /-- One more parenthesis. -/
  | paren {n : ℕ} {outer ks : List TokenKind} (isOpened : Opened n outer)
      (lacks : LacksOperand ks) : Opened (n + 1) (outer ++ (ks ++ [.leftParen]))

/-- What has been passed in front of a place: open parentheses, and behind the last of them a term,
or what an operand makes a term. -/
def Place.Behind : Place → List TokenKind → Prop
  | operand n, ks => ∃ outer ls, Opened n outer ∧ LacksOperand ls ∧ ks = outer ++ ls
  | operator n, ks => ∃ outer ls, Opened n outer ∧ Phrase .term ls ∧ ks = outer ++ ls

namespace Place

variable {p q : Place} {ks ls : List TokenKind} {k : TokenKind} {n : ℕ}

/-- An operand leads behind it. -/
theorem Behind.primary (h : (operand n).Behind ks) (hk : Phrase .primary [k]) :
    (operator n).Behind (ks ++ [k]) := by
  obtain ⟨outer, ls, hopened, hlacks, rfl⟩ := h
  exact ⟨outer, ls ++ [k], hopened, hlacks _ (.ofPrimary hk), List.append_assoc _ _ _⟩

/-- A sign leaves an operand due. -/
theorem Behind.sign (h : (operand n).Behind ks) (hk : k = .plus ∨ k = .minus) :
    (operand n).Behind (ks ++ [k]) := by
  obtain ⟨outer, ls, hopened, hlacks, rfl⟩ := h
  exact ⟨outer, ls ++ [k], hopened, hlacks.sign hk, List.append_assoc _ _ _⟩

/-- Behind an opening parenthesis an operand is due. -/
theorem Behind.opening (h : (operand n).Behind ks) :
    (operand (n + 1)).Behind (ks ++ [.leftParen]) := by
  obtain ⟨outer, ls, hopened, hlacks, rfl⟩ := h
  refine ⟨_, [], .paren hopened hlacks, lacksOperand_nil, ?_⟩
  rw [List.append_nil, List.append_assoc]

/-- Behind an operator an operand is due. -/
theorem Behind.operator (h : (operator n).Behind ks)
    (hk : (k = .plus ∨ k = .minus) ∨ k = .times ∨ k = .divide) :
    (operand n).Behind (ks ++ [k]) := by
  obtain ⟨outer, ls, hopened, hterm, rfl⟩ := h
  exact ⟨outer, ls ++ [k], hopened, hterm.lacksOperand hk, List.append_assoc _ _ _⟩

/-- A closing parenthesis makes an operand of what is in the parentheses. -/
theorem Behind.closing (h : (Place.operator (n + 1)).Behind ks) :
    (Place.operator n).Behind (ks ++ [.rightParen]) := by
  obtain ⟨outer, ls, hopened, hterm, rfl⟩ := h
  cases hopened with
  | @paren _ outer front isOpened lacks =>
    refine ⟨outer, _, isOpened, lacks _ (.ofPrimary (.parens hterm)), ?_⟩
    simp only [List.append_assoc, List.cons_append, List.nil_append]

/-- A step from a place leads to a place behind what has been passed with it. -/
theorem Behind.step (h : p.Behind ks) (hstep : p.step k = some q) : q.Behind (ks ++ [k]) := by
  -- The cases are those in which there is a place behind the kind.
  unfold Place.step at hstep
  split at hstep
  case h_1 n => exact Option.some_inj.1 hstep ▸ h.primary .number
  case h_2 n => exact Option.some_inj.1 hstep ▸ h.primary (.boolean (.inl rfl))
  case h_3 n => exact Option.some_inj.1 hstep ▸ h.primary (.boolean (.inr rfl))
  case h_4 n => exact Option.some_inj.1 hstep ▸ h.opening
  case h_5 n => exact Option.some_inj.1 hstep ▸ h.sign (.inl rfl)
  case h_6 n => exact Option.some_inj.1 hstep ▸ h.sign (.inr rfl)
  case h_7 n => exact Option.some_inj.1 hstep ▸ h.operator (.inl (.inl rfl))
  case h_8 n => exact Option.some_inj.1 hstep ▸ h.operator (.inl (.inr rfl))
  case h_9 n => exact Option.some_inj.1 hstep ▸ h.operator (.inr (.inl rfl))
  case h_10 n => exact Option.some_inj.1 hstep ▸ h.operator (.inr (.inr rfl))
  case h_11 n => exact Option.some_inj.1 hstep ▸ h.closing
  case h_12 => cases hstep

/-- Going along a list leads to a place behind it. -/
theorem Behind.along (h : p.Behind ks) (halong : p.along ls = some q) : q.Behind (ks ++ ls) := by
  induction ls generalizing p ks with
  | nil =>
    obtain rfl := Option.some_inj.1 halong
    rwa [List.append_nil]
  | cons l ls ih =>
    obtain ⟨m, hstep, hrest⟩ := Option.bind_eq_some_iff.1 halong
    have hall := ih (h.step hstep) hrest
    rwa [List.append_assoc] at hall

/-- In front of everything an operand is due. -/
theorem behind_nil : (operand 0).Behind [] := ⟨[], [], .none, lacksOperand_nil, rfl⟩

/-- Closing parentheses close what is open. -/
theorem along_closing (n : ℕ) :
    (Place.operator n).along (List.replicate n .rightParen) = some (.operator 0) := by
  induction n with
  | zero => rfl
  | succ n ih => exact ih

/-- From every place the end can be reached. -/
theorem exists_along_operator_zero (p : Place) : ∃ ks, p.along ks = some (.operator 0) := by
  cases p with
  | operand n => exact ⟨.number :: List.replicate n .rightParen, along_closing n⟩
  | operator n => exact ⟨List.replicate n .rightParen, along_closing n⟩

end Place

/-! ## Which lists are sentences, and which are viable -/

variable {ks : List TokenKind}

/-- The sentences are the lists behind which no operand is due and no parenthesis is open. -/
theorem sentence_iff : Sentence ks ↔ (Place.operand 0).along ks = some (.operator 0) := by
  refine ⟨fun h => h.along 0, fun h => ?_⟩
  obtain ⟨outer, ls, hopened, hterm, heq⟩ := Place.behind_nil.along h
  cases hopened
  rw [List.nil_append, List.nil_append] at heq
  rwa [heq]

/-- The viable lists are those behind which there is a place. -/
theorem viable_iff : Viable ks ↔ ∃ p, (Place.operand 0).along ks = some p := by
  constructor
  · rintro ⟨rest, h⟩
    obtain ⟨p, hp, -⟩ := Place.exists_along_of_append (sentence_iff.1 h)
    exact ⟨p, hp⟩
  · rintro ⟨p, hp⟩
    obtain ⟨rest, hrest⟩ := p.exists_along_operator_zero
    exact ⟨rest, sentence_iff.2 ((Place.along_append_of_eq hp rest).trans hrest)⟩

/-- At a place the list with one more kind is viable exactly if the kind can stand there. -/
theorem viable_append_iff {p : Place} (h : (Place.operand 0).along ks = some p) (k : TokenKind) :
    Viable (ks ++ [k]) ↔ p.step k ≠ none := by
  rw [viable_iff, Place.along_append_of_eq h, Place.along_singleton, Option.ne_none_iff_exists']

end Calculator
