import Mathlib.Tactic.ByContra
import Calculator.Proofs.Grammar.Rules
import Calculator.Proofs.Reading.Ahead
import Calculator.Proofs.Reading.Run

/-!
# What the rules accept is derived by the grammar

If a rule does not fail, it passes over the tokens of a derivation, its tree is that of the
derivation, and the derivation goes no deeper than there are levels left
(`Rules.sound_within`).

The proof goes by the number of levels that are left, one lemma for each rule. A rule that reads on
in a chain has the derivation of what stands in front of it to start from: the operators of that
part and the levels that are left add up to the levels that the chain began with.
-/

namespace Calculator

/-- A rule with the outcome `x` has passed over the tokens of a derivation, which come first in
`ts`. -/
def Passes (s : Symbol) (levels : ℕ) (ts : List Token) (x : ParseTree × Reading) : Prop :=
  ∃ (p : Derivation s) (rest : List Token),
    ts = p.tokens ++ rest ∧ p.tree = x.1 ∧ p.deepest ≤ levels ∧ x.2.Faces rest

/-- Unless it fails, a rule reads a symbol of the grammar. -/
def Reads (f : Rule) (s : Symbol) (levels : ℕ) : Prop :=
  ∀ (r : Reading) (ts : List Token), r.Faces ts → (f r).2.failed = false →
    Passes s levels ts (f r)

/-- Unless it fails, a rule that starts behind the chain `q` reads a chain that begins with `q`. -/
def ReadsOn (f : ParseTree → Rule) (s : Symbol) (levels : ℕ) : Prop :=
  ∀ (q : Derivation s), q.deepest ≤ q.operators + levels →
    ∀ (r : Reading) (ts : List Token), r.Faces ts → (f q.tree r).2.failed = false →
      Passes s (q.operators + levels) (q.tokens ++ ts) (f q.tree r)

/-- The rules of a level read the symbols of the grammar, as deep as there are levels inside. -/
structure Rules.Sound (g : Rules) (levels : ℕ) : Prop extends g.Leads where
  /-- The rule for an operand reads one. -/
  reads_unary : Reads g.unary .unary levels
  /-- The rule for the rest of a factor reads on in it. -/
  readsOn_factorTail : ReadsOn g.factorTail .factor levels
  /-- The rule for the rest of a term reads on in it. -/
  readsOn_termTail : ReadsOn g.termTail .term levels

/-- A chain is read by reading its first operand and then reading on. -/
theorem ReadsOn.reads {s s' : Symbol} {first : Rule} {tail : ParseTree → Rule} {levels : ℕ}
    (htail : ReadsOn tail s' levels) (hfirst : Reads first s levels)
    (hleads : ∀ (left : ParseTree) (r : Reading), r.Leads (tail left r).2)
    (of : Derivation s → Derivation s') (htokens : ∀ p, (of p).tokens = p.tokens)
    (htree : ∀ p, (of p).tree = p.tree) (hdeepest : ∀ p, (of p).deepest = p.deepest)
    (hoperators : ∀ p, (of p).operators = 0) :
    Reads (fun r => tail (first r).1 (first r).2) s' levels := by
  intro r ts hr hf
  -- A failure of the first operand would have stayed.
  have hfirstOk : (first r).2.failed = false := (hleads _ _).not_failed hf
  obtain ⟨p, rest, hts, hp, hdeep, hrest⟩ := hfirst r ts hr hfirstOk
  have hle : (of p).deepest ≤ (of p).operators + levels := by
    rw [hdeepest, hoperators]
    omega
  dsimp only at hf ⊢
  rw [← hp, ← htree p] at hf ⊢
  have hpass := htail (of p) hle _ rest hrest hf
  rwa [hoperators, Nat.zero_add, htokens, ← hts] at hpass

/-- Behind the operator `t` of a chain `q` its next operand is read and then the rest of it: the
chain up to that operand has one operator more, and one level less is left. -/
theorem ReadsOn.step {s s' : Symbol} {operand : Rule} {tail : ParseTree → Rule} {levels : ℕ}
    (htail : ReadsOn tail s levels) (hoperand : Reads operand s' levels)
    (hleads : ∀ (left : ParseTree) (r : Reading), r.Leads (tail left r).2)
    (cons : Derivation s → Derivation s' → Derivation s) {t : Token}
    (htokens : ∀ q p, (cons q p).tokens = q.tokens ++ t :: p.tokens)
    (htree : ∀ q p, (cons q p).tree = .binary q.tree t p.tree)
    (hdeepest : ∀ q p, (cons q p).deepest = max q.deepest (q.operators + 1 + p.deepest))
    (hoperators : ∀ q p, (cons q p).operators = q.operators + 1)
    {q : Derivation s} (hq : q.deepest ≤ q.operators + (levels + 1)) {r : Reading}
    {ts : List Token} (hr : r.Faces ts)
    (hf : (tail (.binary q.tree t (operand r).1) (operand r).2).2.failed = false) :
    Passes s (q.operators + (levels + 1)) (q.tokens ++ t :: ts)
      (tail (.binary q.tree t (operand r).1) (operand r).2) := by
  -- A failure of the operand would have stayed.
  have hright : (operand r).2.failed = false := (hleads _ _).not_failed hf
  obtain ⟨p, rest, rfl, hp, hdeep, hrest⟩ := hoperand r ts hr hright
  -- The longer chain has one operator more, which makes up for the level that is gone.
  have hnext : (cons q p).deepest ≤ (cons q p).operators + levels := by
    rw [hdeepest, hoperators]
    omega
  have hlevels : (cons q p).operators + levels = q.operators + (levels + 1) := by
    rw [hoperators]
    omega
  have hpassed : (cons q p).tokens ++ rest = q.tokens ++ t :: (p.tokens ++ rest) := by
    rw [htokens, List.append_assoc, List.cons_append]
  rw [← hp, ← htree] at hf ⊢
  rw [← hlevels, ← hpassed]
  exact htail (cons q p) hnext _ rest hrest hf

namespace Rules.Sound

variable {g : Rules} {levels : ℕ} (hg : g.Sound levels)
include hg

/-- The rule for a factor reads one. -/
theorem reads_factor : Reads g.factor .factor levels :=
  hg.readsOn_factorTail.reads hg.reads_unary hg.factorTail .ofUnary (fun _ => rfl) (fun _ => rfl)
    (fun _ => rfl) (fun _ => rfl)

/-- The rule for a term reads one. -/
theorem reads_term : Reads g.term .term levels :=
  hg.readsOn_termTail.reads hg.reads_factor hg.termTail .ofFactor (fun _ => rfl) (fun _ => rfl)
    (fun _ => rfl) (fun _ => rfl)

end Rules.Sound

namespace Grammar

variable {r : Reading} {ts : List Token}

/-- A number that is read without a failure is in range. -/
theorem passes_number (levels : ℕ) (hr : r.Faces ts) (hk : r.current.kind = .number)
    (hf : (number r).2.failed = false) : Passes .primary levels ts (number r) := by
  have hne : r.current.kind ≠ .endOfInput := by rw [hk]; decide
  have hscan := hr.scanned_current hne
  obtain ⟨us, rfl⟩ := hr.exists_eq_cons hne
  -- Without a value the number would have been reported.
  have hsome : r.current.value.isNone = false := by
    by_contra hnone
    rw [Bool.not_eq_false] at hnone
    have hfault := hr.advance.failed_fault r.current (.invalidNumber r.current.text)
    simp only [number, hnone, if_true] at hf
    rw [hfault] at hf
    cases hf
  have hle : Decimal.value r.current.text.toList ≤ greatestNumber := by
    by_contra hgt
    have hnone : r.current.value = none := (hscan.value_eq_none_iff hk).2 (by omega)
    simp [hnone] at hsome
  rw [number_of_isSome hsome]
  exact ⟨.number r.current hk hle, us, rfl, rfl, Nat.zero_le _, hr.advance⟩

variable {inner : Option Rules} {levels : ℕ}
  (hinner : ∀ g ∈ inner, ∃ m, levels = m + 1 ∧ g.Sound m)
include hinner

/-- An expression in parentheses is read without a failure only up to its closing parenthesis. -/
theorem passes_parenthesized (hr : r.Faces ts) (hk : r.current.kind = .leftParen)
    (hf : (parenthesized inner r).2.failed = false) :
    Passes .primary levels ts (parenthesized inner r) := by
  obtain ⟨us, rfl⟩ := hr.exists_eq_cons (by rw [hk]; decide)
  cases inner with
  | none =>
    -- No level is left for what is inside.
    have hfault : (r.advance.faultHere .tooDeep).failed = true := hr.advance.failed_fault _ _
    rw [parenthesized, hfault] at hf
    cases hf
  | some g =>
    obtain ⟨m, rfl, hg⟩ := hinner g rfl
    rw [parenthesized_some] at hf ⊢
    have hterm : (g.term r.advance).2.failed = false :=
      (Reading.leads_close _).not_failed hf
    obtain ⟨p, rest, rfl, hp, hdeep, hrest⟩ := hg.reads_term _ _ hr.advance hterm
    generalize g.term r.advance = x at hf hp hrest ⊢
    unfold Reading.close at hf ⊢
    split at hf
    · next hclose =>
      obtain ⟨vs, rfl⟩ := hrest.exists_eq_cons (by rw [hclose]; decide)
      rw [if_pos hclose]
      refine ⟨.parens r.current p x.2.current hk hclose, vs, ?_, hp, ?_, hrest.advance⟩
      · simp [Derivation.tokens]
      · simpa only [Derivation.deepest] using Nat.succ_le_succ hdeep
    · have hfault : (x.2.faultHere .expectedClosing).failed = true := hrest.failed_fault _ _
      rw [hfault] at hf
      cases hf

/-- An operand without a sign that is read without a failure starts in one of the three ways. -/
theorem passes_primary (hr : r.Faces ts) (hf : (primary inner r).2.failed = false) :
    Passes .primary levels ts (primary inner r) := by
  have hfault : (r.faultHere .expectedExpression).failed = true := hr.failed_fault _ _
  have hboolean : r.current.kind = .trueWord ∨ r.current.kind = .falseWord →
      Passes .primary levels ts (.literal r.current, r.advance) := by
    intro hk
    obtain ⟨us, rfl⟩ := hr.exists_eq_cons (by rcases hk with hk | hk <;> rw [hk] <;> decide)
    exact ⟨.boolean r.current hk, us, rfl, rfl, Nat.zero_le _, hr.advance⟩
  -- The cases are those of the definition, by the kind of the token in view.
  unfold primary at hf ⊢
  split at hf
  · next hk => exact passes_number levels hr hk hf
  · next hk => exact hboolean (.inl hk)
  · next hk => exact hboolean (.inr hk)
  · next hk => exact passes_parenthesized hinner hr hk hf
  · rw [hfault] at hf
    cases hf
  · -- A token where no operand starts is passed over, but the fault stays.
    simp [Reading.advance, hfault] at hf

/-- An operand that is read without a failure is derived by the grammar. -/
theorem reads_unary : Reads (unary inner) .unary levels := by
  intro r ts hr hf
  by_cases hsign : isTermOperator r.current = true
  · have hkind := isTermOperator_iff.1 hsign
    obtain ⟨us, rfl⟩ := hr.exists_eq_cons (kind_ne_of_isTermOperator hsign)
    have hadv := hr.advance
    have hdigits : r.advance.current.kind = .number → r.advance.current.Scanned := fun hn =>
      hadv.scanned_current (by rw [hn]; decide)
    -- A minus sign and the number that is out of range by one are read together, and only these.
    cases hlit : signedLiteral? r.current r.advance.current with
    | some token =>
      obtain ⟨hminus, hnumber, hvalue, rfl⟩ := (signedLiteral?_eq_some_iff hdigits).1 hlit
      obtain ⟨vs, rfl⟩ := hadv.exists_eq_cons (by rw [hnumber]; decide)
      rw [unary_of_literal hsign hlit]
      exact ⟨.least r.current r.advance.current hminus hnumber hvalue, vs, rfl, rfl,
        Nat.zero_le _, hadv.advance⟩
    | none =>
      cases inner with
      | none =>
        have hfault : (r.advance.faultHere .tooDeep).failed = true := hadv.failed_fault _ _
        rw [unary_none_of_sign hsign hlit, hfault] at hf
        cases hf
      | some g =>
        obtain ⟨m, rfl, hg⟩ := hinner g rfl
        rw [unary_of_sign hsign hlit] at hf ⊢
        obtain ⟨p, rest, rfl, hp, hdeep, hrest⟩ := hg.reads_unary _ _ hadv hf
        refine ⟨.signed r.current hkind p, rest, rfl, ?_, ?_, hrest⟩
        · rw [Derivation.tree, hp]
        · simpa only [Derivation.deepest] using Nat.succ_le_succ hdeep
  · rw [Bool.not_eq_true] at hsign
    rw [unary_of_not_sign hsign] at hf ⊢
    obtain ⟨p, rest, hts, hp, hdeep, hrest⟩ := passes_primary hinner hr hf
    exact ⟨.ofPrimary p, rest, hts, hp, hdeep, hrest⟩

/-- What is read on in a factor without a failure is derived by the grammar. -/
theorem readsOn_factorTail : ReadsOn (factorTail inner) .factor levels := by
  intro q hq r ts hr hf
  by_cases hop : isFactorOperator r.current = true
  · have hkind := isFactorOperator_iff.1 hop
    obtain ⟨us, rfl⟩ := hr.exists_eq_cons (kind_ne_of_isFactorOperator hop)
    cases inner with
    | none =>
      have hfault : (r.advance.faultHere .tooDeep).failed = true := hr.advance.failed_fault _ _
      rw [factorTail_none_of_operator hop, hfault] at hf
      cases hf
    | some g =>
      obtain ⟨m, rfl, hg⟩ := hinner g rfl
      rw [factorTail_of_operator hop] at hf ⊢
      exact hg.readsOn_factorTail.step hg.reads_unary hg.factorTail
        (fun q p => .product q r.current hkind p) (fun _ _ => rfl) (fun _ _ => rfl)
        (fun _ _ => rfl) (fun _ _ => rfl) hq hr.advance hf
  · rw [Bool.not_eq_true] at hop
    rw [factorTail_of_not_operator hop]
    exact ⟨q, ts, rfl, rfl, hq, hr⟩

/-- What is read on in a term without a failure is derived by the grammar. -/
theorem readsOn_termTail : ReadsOn (termTail inner) .term levels := by
  intro q hq r ts hr hf
  by_cases hop : isTermOperator r.current = true
  · have hkind := isTermOperator_iff.1 hop
    obtain ⟨us, rfl⟩ := hr.exists_eq_cons (kind_ne_of_isTermOperator hop)
    cases inner with
    | none =>
      have hfault : (r.advance.faultHere .tooDeep).failed = true := hr.advance.failed_fault _ _
      rw [termTail_none_of_operator hop, hfault] at hf
      cases hf
    | some g =>
      obtain ⟨m, rfl, hg⟩ := hinner g rfl
      rw [termTail_of_operator hop] at hf ⊢
      exact hg.readsOn_termTail.step hg.reads_factor hg.termTail
        (fun q p => .sum q r.current hkind p) (fun _ _ => rfl) (fun _ _ => rfl)
        (fun _ _ => rfl) (fun _ _ => rfl) hq hr.advance hf
  · rw [Bool.not_eq_true] at hop
    rw [termTail_of_not_operator hop]
    exact ⟨q, ts, rfl, rfl, hq, hr⟩

end Grammar

namespace Rules

/-- If the rules of the level inside are sound, so are the rules of the level around it. -/
theorem sound_around {inner : Option Rules} {levels : ℕ}
    (hinner : ∀ g ∈ inner, ∃ m, levels = m + 1 ∧ g.Sound m) : (around inner).Sound levels where
  toLeads := leads_around fun g hg => by
    obtain ⟨m, -, hsound⟩ := hinner g hg
    exact hsound.toLeads
  reads_unary := Grammar.reads_unary hinner
  readsOn_factorTail := Grammar.readsOn_factorTail hinner
  readsOn_termTail := Grammar.readsOn_termTail hinner

/-- The rules of every level are sound. -/
theorem sound_within (levels : ℕ) : (within levels).Sound levels := by
  induction levels with
  | zero => exact sound_around nofun
  | succ levels ih =>
    rw [within_succ]
    refine sound_around fun g hg => ⟨levels, rfl, ?_⟩
    rwa [← Option.some_inj.1 hg]

end Rules

end Calculator
