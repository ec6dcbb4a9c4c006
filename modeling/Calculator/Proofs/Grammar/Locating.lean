import Calculator.Proofs.Grammar.Acceptance
import Calculator.Proofs.Grammar.Rules
import Calculator.Proofs.Reading.Track
import Calculator.Proofs.Scan.Order

/-!
# Where syntax errors are reported

A fault with which a reading loses its place is reported at the first token that cannot stand where
it does: what stands in front of it begins a sentence, and with the token it does not. The text of
the fault says what is due there (`Reading.parse_locates`). This holds whatever errors of the scan
and numbers out of range there are in front of it, and the only other fault with which the place is
lost is that the expression nests too deeply.

The proof follows the rules of the grammar, each of which leads from one place to another or stops
on the way (`Rules.Locates`), by induction on the number of levels.
-/

namespace Calculator

open Grammar

namespace Grammar

/-- Whether the token is an operator of a factor or of a term. -/
def isOperator (t : Token) : Bool := isFactorOperator t || isTermOperator t

/-- Where an operator is due nothing else than an operator can stand but a closing parenthesis. -/
theorem step_operator_eq_none {t : Token} (h : isOperator t = false) (n : ℕ)
    (hk : t.kind = .rightParen → n = 0) : (Place.operator n).step t.kind = none := by
  unfold isOperator isFactorOperator isTermOperator at h
  cases hkind : t.kind with
  | rightParen =>
    rw [hk hkind]
    rfl
  | plus => simp [hkind] at h
  | minus => simp [hkind] at h
  | times => simp [hkind] at h
  | divide => simp [hkind] at h
  | _ => rfl

end Grammar

/-- Every rule of a level leads from a place where an operand or an operator is due to a place where
an operator is due, with as many parentheses open. A chain ends only where none of its operators
follows. -/
structure Rules.Locates (g : Rules) : Prop extends g.Leads where
  /-- An operand leads behind it. -/
  arrives_unary : ∀ {r : Reading} {ending : Token} {ts : List Token} (n : ℕ),
    r.OnTrack ending ts →
      (g.unary r).2.Arrives ending (fun _ => false) (.operand n) (.operator n) ts
  /-- Reading on in a factor leads to its end. -/
  arrives_factorTail : ∀ {r : Reading} {ending : Token} {ts : List Token} (n : ℕ)
    (left : ParseTree), r.OnTrack ending ts →
      (g.factorTail left r).2.Arrives ending isFactorOperator (.operator n) (.operator n) ts
  /-- Reading on in a term leads to its end. -/
  arrives_termTail : ∀ {r : Reading} {ending : Token} {ts : List Token} (n : ℕ)
    (left : ParseTree), r.OnTrack ending ts → isFactorOperator r.current = false →
      (g.termTail left r).2.Arrives ending isOperator (.operator n) (.operator n) ts

variable {r : Reading} {ending : Token} {ts : List Token}

namespace Rules.Locates

variable {g : Rules} (hg : g.Locates)
include hg

/-- A factor leads behind it. -/
theorem arrives_factor (n : ℕ) (hr : r.OnTrack ending ts) :
    (g.factor r).2.Arrives ending isFactorOperator (.operand n) (.operator n) ts :=
  (hg.arrives_unary n hr).trans (hg.factorTail _ _) fun _ hus _ => hg.arrives_factorTail n _ hus

/-- A term leads behind it. -/
theorem arrives_term (n : ℕ) (hr : r.OnTrack ending ts) :
    (g.term r).2.Arrives ending isOperator (.operand n) (.operator n) ts :=
  (hg.arrives_factor n hr).trans (hg.termTail _ _) fun _ hus => hg.arrives_termTail n _ hus

end Rules.Locates

namespace Grammar

/-- A number leads behind it, in range or not. -/
theorem arrives_number (n : ℕ) (hr : r.OnTrack ending ts) (hk : r.current.kind = .number) :
    (number r).2.Arrives ending (fun _ => false) (.operand n) (.operator n) ts := by
  obtain ⟨us, rfl⟩ := hr.exists_eq_cons (by rw [hk]; decide)
  have hstep : (Place.operand n).step r.current.kind = some (.operator n) := by rw [hk]; rfl
  refine .cons hstep ?_
  unfold number
  dsimp only
  split
  · exact (hr.advance.fault _ rfl).arrives _ rfl
  · exact hr.advance.arrives _ rfl

/-- A word that is a boolean leads behind it. -/
theorem arrives_boolean (n : ℕ) (hr : r.OnTrack ending ts)
    (hk : r.current.kind = .trueWord ∨ r.current.kind = .falseWord) :
    r.advance.Arrives ending (fun _ => false) (.operand n) (.operator n) ts := by
  obtain ⟨us, rfl⟩ := hr.exists_eq_cons (by rcases hk with hk | hk <;> rw [hk] <;> decide)
  have hstep : (Place.operand n).step r.current.kind = some (.operator n) := by
    rcases hk with hk | hk <;> rw [hk] <;> rfl
  exact .cons hstep (hr.advance.arrives _ rfl)

/-- Behind a term in parentheses the closing one is read, or it is missing. -/
theorem arrives_close (n : ℕ) (hr : r.OnTrack ending ts) (hends : isOperator r.current = false) :
    r.close.Arrives ending (fun _ => false) (.operator (n + 1)) (.operator n) ts := by
  unfold Reading.close
  split
  · next hk =>
    obtain ⟨us, rfl⟩ := hr.exists_eq_cons (by rw [hk]; decide)
    have hstep : (Place.operator (n + 1)).step r.current.kind = some (.operator n) := by
      rw [hk]
      rfl
    exact .cons hstep (hr.advance.arrives _ rfl)
  · next hk =>
    have hrejects : (Place.operator (n + 1)).Rejects r.current.kind :=
      ⟨step_operator_eq_none hends _ fun h => absurd h hk, fun _ => nofun⟩
    exact .stopped (hr.stopped_fault hrejects)

variable {inner : Option Rules} (hinner : ∀ g ∈ inner, g.Locates)
include hinner

/-- An expression in parentheses leads behind them. -/
theorem arrives_parenthesized (n : ℕ) (hr : r.OnTrack ending ts)
    (hk : r.current.kind = .leftParen) :
    (parenthesized inner r).2.Arrives ending (fun _ => false) (.operand n) (.operator n) ts := by
  obtain ⟨us, rfl⟩ := hr.exists_eq_cons (by rw [hk]; decide)
  have hstep : (Place.operand n).step r.current.kind = some (.operand (n + 1)) := by rw [hk]; rfl
  cases inner with
  | none => exact .stopped (hr.advance.stopped_tooDeep _ _)
  | some g =>
    rw [parenthesized_some]
    have hterm := (hinner g rfl).arrives_term (n + 1) hr.advance
    exact .cons hstep (hterm.trans (Reading.leads_close _) fun _ hvs hends =>
      arrives_close n hvs hends)

/-- An operand without a sign leads behind it, or is missing. -/
theorem arrives_primary (n : ℕ) (hr : r.OnTrack ending ts)
    (hsign : isTermOperator r.current = false) :
    (primary inner r).2.Arrives ending (fun _ => false) (.operand n) (.operator n) ts := by
  -- The cases are those of the definition, by the kind of the token in view.
  unfold primary
  split
  · next hk => exact arrives_number n hr hk
  · next hk => exact arrives_boolean n hr (.inl hk)
  · next hk => exact arrives_boolean n hr (.inr hk)
  · next hk => exact arrives_parenthesized hinner n hr hk
  · next hk =>
    have hrejects : (Place.operand n).Rejects r.current.kind := by
      rw [hk]
      exact ⟨rfl, fun _ => nofun⟩
    exact .stopped (hr.stopped_fault hrejects)
  · next hnumber htrue hfalse hparen hend =>
    have hrejects : (Place.operand n).Rejects r.current.kind := by
      refine ⟨?_, fun _ => nofun⟩
      unfold isTermOperator at hsign
      cases hk : r.current.kind <;> simp_all [Place.step]
    -- The token is passed over behind its own fault.
    have hstopped := hr.stopped_fault hrejects
    refine .stopped ((Reading.leads_advance ?_).stopped hstopped)
    rw [Reading.faultHere, Reading.current_fault]
    exact hend

/-- An operand leads behind it, or is missing. -/
theorem arrives_unary (n : ℕ) (hr : r.OnTrack ending ts) :
    (unary inner r).2.Arrives ending (fun _ => false) (.operand n) (.operator n) ts := by
  cases hsign : isTermOperator r.current with
  | false =>
    rw [unary_of_not_sign hsign]
    exact arrives_primary hinner n hr hsign
  | true =>
    obtain ⟨us, rfl⟩ := hr.exists_eq_cons (kind_ne_of_isTermOperator hsign)
    have hstep : (Place.operand n).step r.current.kind = some (.operand n) := by
      rcases isTermOperator_iff.1 hsign with hk | hk <;> rw [hk] <;> rfl
    refine .cons hstep ?_
    cases hlit : signedLiteral? r.current r.advance.current with
    | some token =>
      -- The number is read together with its sign.
      have hk := kind_of_signedLiteral? hlit
      obtain ⟨vs, rfl⟩ := hr.advance.exists_eq_cons (by rw [hk]; decide)
      have hnumber : (Place.operand n).step r.advance.current.kind = some (.operator n) := by
        rw [hk]
        rfl
      rw [unary_of_literal hsign hlit]
      exact .cons hnumber (hr.advance.advance.arrives _ rfl)
    | none =>
      cases inner with
      | none =>
        rw [unary_none_of_sign hsign hlit]
        exact .stopped (hr.advance.stopped_tooDeep _ _)
      | some g =>
        rw [unary_of_sign hsign hlit]
        exact (hinner g rfl).arrives_unary n hr.advance

/-- Reading on in a factor leads to its end. -/
theorem arrives_factorTail (n : ℕ) (left : ParseTree) (hr : r.OnTrack ending ts) :
    (factorTail inner left r).2.Arrives ending isFactorOperator (.operator n) (.operator n) ts := by
  cases hop : isFactorOperator r.current with
  | false =>
    rw [factorTail_of_not_operator hop]
    exact hr.arrives _ hop
  | true =>
    obtain ⟨us, rfl⟩ := hr.exists_eq_cons (kind_ne_of_isFactorOperator hop)
    have hstep : (Place.operator n).step r.current.kind = some (.operand n) := by
      rcases isFactorOperator_iff.1 hop with hk | hk <;> rw [hk] <;> rfl
    refine .cons hstep ?_
    cases inner with
    | none =>
      rw [factorTail_none_of_operator hop]
      exact .stopped (hr.advance.stopped_tooDeep _ _)
    | some g =>
      have hg := hinner g rfl
      rw [factorTail_of_operator hop]
      exact (hg.arrives_unary n hr.advance).trans (hg.factorTail _ _) fun _ hvs _ =>
        hg.arrives_factorTail n _ hvs

/-- Reading on in a term leads to its end. -/
theorem arrives_termTail (n : ℕ) (left : ParseTree) (hr : r.OnTrack ending ts)
    (hfactor : isFactorOperator r.current = false) :
    (termTail inner left r).2.Arrives ending isOperator (.operator n) (.operator n) ts := by
  cases hop : isTermOperator r.current with
  | false =>
    rw [termTail_of_not_operator hop]
    exact hr.arrives _ (by rw [isOperator, hfactor, hop]; rfl)
  | true =>
    obtain ⟨us, rfl⟩ := hr.exists_eq_cons (kind_ne_of_isTermOperator hop)
    have hstep : (Place.operator n).step r.current.kind = some (.operand n) := by
      rcases isTermOperator_iff.1 hop with hk | hk <;> rw [hk] <;> rfl
    refine .cons hstep ?_
    cases inner with
    | none =>
      rw [termTail_none_of_operator hop]
      exact .stopped (hr.advance.stopped_tooDeep _ _)
    | some g =>
      have hg := hinner g rfl
      rw [termTail_of_operator hop]
      exact (hg.arrives_factor n hr.advance).trans (hg.termTail _ _) fun _ hvs =>
        hg.arrives_termTail n _ hvs

end Grammar

namespace Rules

/-- If the rules of the level inside lead from place to place, so do those of the level around
it. -/
theorem locates_around {inner : Option Rules} (hinner : ∀ g ∈ inner, g.Locates) :
    (around inner).Locates where
  toLeads := leads_around fun g hg => (hinner g hg).toLeads
  arrives_unary := arrives_unary hinner
  arrives_factorTail := arrives_factorTail hinner
  arrives_termTail := arrives_termTail hinner

/-- The rules of every level lead from place to place. -/
theorem locates_within (levels : ℕ) : (within levels).Locates :=
  within_of_around (fun _ => locates_around) levels

end Rules

/-! ## What is due -/

/-- A token of the kind can stand behind the kinds, or the end of the source if it is that. -/
def CanFollow (ks : List TokenKind) (k : TokenKind) : Prop :=
  if k = .endOfInput then Sentence ks else Viable (ks ++ [k])

/-- The texts that say what is due, each with the kinds of tokens that are due then. -/
def SyntaxFault.dueByText : List (String × List TokenKind) :=
  [("Expected expression", [.number, .trueWord, .falseWord, .leftParen, .plus, .minus]),
    ("Expected ')' after expression", [.rightParen, .plus, .minus, .times, .divide]),
    ("Expected end of input", [.endOfInput, .plus, .minus, .times, .divide])]

namespace SyntaxFault

/-- Whether the text of a fault says what is due. -/
def saysDue (f : SyntaxFault) : Bool := decide (f.text ∈ dueByText.map Prod.fst)

/-- The text that a number is out of range says nothing about what is due. -/
theorem saysDue_invalidNumber (digits : String) : (invalidNumber digits).saysDue = false := by
  -- The texts that do so all start with another letter.
  have hfirst : ∀ text ∈ dueByText.map Prod.fst, text.toList.head? = some 'E' := by decide +kernel
  have htext : (invalidNumber digits).text =
      "Number literal '" ++ (digits ++ "' is not a valid int") := String.append_assoc
  have hnumber : (invalidNumber digits).text.toList.head? = some 'N' := by
    rw [htext, String.toList_append]
    rfl
  refine decide_eq_false fun hmem => ?_
  rw [hfirst _ hmem] at hnumber
  exact absurd hnumber (by decide)

/-- A fault that says what is due takes the place. -/
theorem losesPlace_of_saysDue {f : SyntaxFault} (h : f.saysDue = true) : f.losesPlace = true := by
  cases f with
  | invalidNumber digits =>
    rw [saysDue_invalidNumber] at h
    cases h
  | _ => rfl

/-- Different texts say different kinds to be due. -/
theorem text_eq_iff_of_mem {e e' : String × List TokenKind} (h : e ∈ dueByText)
    (h' : e' ∈ dueByText) : e.1 = e'.1 ↔ ∀ k, k ∈ e.2 ↔ k ∈ e'.2 := by
  constructor
  · have htexts : ∀ e ∈ dueByText, ∀ e' ∈ dueByText, e.1 = e'.1 → e.2 = e'.2 := by decide +kernel
    intro htext k
    rw [htexts e h e' h' htext]
  · -- A number, a closing parenthesis and the end tell the kinds apart.
    have hkinds : ∀ e ∈ dueByText, ∀ e' ∈ dueByText,
        (∀ k ∈ [TokenKind.number, .rightParen, .endOfInput], k ∈ e.2 ↔ k ∈ e'.2) →
          e.1 = e'.1 := by decide +kernel
    exact fun hall => hkinds e h e' h' fun k _ => hall k

end SyntaxFault

/-- Whether a diagnostic says what is due. -/
def Diagnostic.saysDue : Diagnostic → Bool
  | .syntactic _ f => f.saysDue
  | _ => false

namespace Place

variable {p : Place} {k : TokenKind}

/-- A kind can stand at a place if the grammar goes on with it, or ends there. -/
theorem not_rejects_iff :
    ¬ p.Rejects k ↔ p.step k ≠ none ∨ k = .endOfInput ∧ p = .operator 0 := by
  constructor
  · intro h
    by_contra hnot
    rw [not_or, not_and, ne_eq, not_not] at hnot
    exact h ⟨hnot.1, hnot.2⟩
  · rintro (hstep | ⟨hk, hp⟩) h
    · exact hstep h.step
    · exact h.ending hk hp

/-- What can stand at a place is what the text of its fault says to be due. -/
theorem exists_due (p : Place) :
    ∃ kinds, (p.fault.text, kinds) ∈ SyntaxFault.dueByText ∧ ∀ k, k ∈ kinds ↔ ¬ p.Rejects k := by
  cases p with
  | operand n =>
    refine ⟨_, List.mem_cons_self, fun k => ?_⟩
    rw [not_rejects_iff]
    cases k <;> simp [step]
  | operator n =>
    cases n with
    | zero =>
      refine ⟨_, List.mem_cons_of_mem _ (List.mem_cons_of_mem _ List.mem_cons_self), fun k => ?_⟩
      rw [not_rejects_iff]
      cases k <;> simp [step]
    | succ n =>
      refine ⟨_, List.mem_cons_of_mem _ List.mem_cons_self, fun k => ?_⟩
      rw [not_rejects_iff]
      cases k <;> simp [step]

/-- The fault of a place says what is due. -/
theorem saysDue_fault (p : Place) : p.fault.saysDue = true := by
  obtain ⟨kinds, hmem, -⟩ := p.exists_due
  exact decide_eq_true (List.mem_map.2 ⟨_, hmem, rfl⟩)

/-- Behind kinds that lead to a place those can follow that can stand at it. -/
theorem canFollow_iff {ks : List TokenKind} (h : (operand 0).along ks = some p) :
    CanFollow ks k ↔ ¬ p.Rejects k := by
  rw [not_rejects_iff, CanFollow]
  split
  · next hk =>
    have hnone : p.step .endOfInput = none := by cases p <;> rfl
    rw [hk, sentence_iff, h, hnone]
    simp
  · next hk =>
    rw [viable_append_iff h]
    simp [hk]

/-- In front of a misplaced token there is the front of a sentence, which the token does not go on
with, and the text of the fault is the one that says what does. -/
theorem Misplaced.exists_canFollow_iff {ts : List Token} {token : Token} {f : SyntaxFault}
    (h : (operand 0).Misplaced ts token f) :
    ∃ before after, ts = before ++ token :: after ∧ Viable (before.map Token.kind) ∧
      ¬ CanFollow (before.map Token.kind) token.kind ∧
      ∀ entry ∈ SyntaxFault.dueByText,
        f.text = entry.1 ↔ ∀ k, CanFollow (before.map Token.kind) k ↔ k ∈ entry.2 := by
  obtain ⟨before, after, p, hts, halong, hrejects, rfl⟩ := h
  obtain ⟨kinds, hmem, hkinds⟩ := p.exists_due
  have hfollow : ∀ k, CanFollow (before.map Token.kind) k ↔ k ∈ kinds := fun k =>
    (canFollow_iff halong).trans (hkinds k).symm
  refine ⟨before, after, hts, viable_iff.2 ⟨p, halong⟩, ?_, fun entry hentry => ?_⟩
  · rw [canFollow_iff halong, not_not]
    exact hrejects
  · refine (SyntaxFault.text_eq_iff_of_mem hmem hentry).trans (forall_congr' fun k => ?_)
    rw [hfollow k]

end Place

namespace Reading

/-- Among the reports that say what is due are just such losses. -/
theorem countP_saysDue (r : Reading) :
    r.diagnostics.toList.countP Diagnostic.saysDue =
      r.losses.countP fun loss => loss.2.saysDue := by
  rw [losses, List.countP_filterMap]
  refine List.countP_congr fun d _ => ?_
  cases d with
  | syntactic token f =>
    cases f with
    | invalidNumber digits =>
      rw [Diagnostic.saysDue, SyntaxFault.saysDue_invalidNumber]
      rfl
    | _ => rfl
  | _ => rfl

/-! ## Where the first loss is -/

/-- In front of a source a reading is on track before its tokens. -/
theorem onTrack_advance_start {s : TokenStream} (hs : s.Proper) :
    (start s).advance.OnTrack s.ending s.tokens := by
  have hstart : (start s).OnTrack s.ending (.nothing :: s.tokens) :=
    { lost := rfl, losses := rfl, current := rfl, ahead := rfl, noEnd := hs.noEnd,
      ending_eq := rfl, kind_ending := hs.ending,
      kind_ne := List.forall_mem_cons.2
        ⟨nofun, fun t ht => (hs.scanned t (TokenStream.mem_tokens.1 ht)).kind_ne⟩ }
  exact hstart.advance

/-- The reading of a source loses its place, or the source is a sentence and it does not. -/
theorem parse_stopped_or_sentence (source : String) :
    let s := TokenStream.ofString source
    (ofString source).parse.2.Stopped s.ending (.operand 0) s.tokens ∨
      Sentence (s.tokens.map Token.kind) ∧ (ofString source).parse.2.losses = [] := by
  intro s
  have hstart : (ofString source).advance.OnTrack s.ending s.tokens :=
    onTrack_advance_start (TokenStream.proper_ofString source)
  have hterm := (Rules.locates_within nestingLimit).arrives_term 0 hstart
  rw [parse_eq, readTerm]
  generalize ((Rules.within nestingLimit).term (ofString source).advance).2 = r at hterm
  generalize s.tokens = ts at hterm
  cases hterm with
  | stopped isStopped => exact .inl ((leads_finish r).stopped isStopped)
  | @passed us rest along onTrack ends =>
    unfold finish
    split
    · next hend =>
      -- With the end in view nothing is left.
      have hk : r.current.kind = .endOfInput := by simpa [atEnd] using hend
      cases rest with
      | nil =>
        rw [List.append_nil]
        exact .inr ⟨sentence_iff.2 along, onTrack.losses⟩
      | cons t rest =>
        rw [onTrack.current_cons] at hk
        exact absurd hk (onTrack.kind_ne t List.mem_cons_self)
    · next hend =>
      have hrejects : (Place.operator 0).Rejects r.current.kind :=
        ⟨step_operator_eq_none ends 0 fun _ => rfl, fun hk => absurd (by simp [atEnd, hk]) hend⟩
      exact .inl ((onTrack.stopped_fault hrejects).of_along along)

/-- A fault that says what is due is reported at a misplaced token. -/
theorem misplaced_of_reported {source : String} {token : Token} {f : SyntaxFault}
    (h : .syntactic token f ∈ (ofString source).parse.2.diagnostics.toList)
    (hdue : f.saysDue = true) :
    (Place.operand 0).Misplaced
      ((TokenStream.ofString source).tokens ++ [(TokenStream.ofString source).ending]) token f := by
  have hmem : (token, f) ∈ (ofString source).parse.2.losses :=
    mem_losses_iff.2 ⟨h, SyntaxFault.losesPlace_of_saysDue hdue⟩
  rcases parse_stopped_or_sentence source with ⟨-, token', f', hlosses, hwhere⟩ | ⟨-, hnone⟩
  · rw [hlosses, List.mem_singleton, Prod.mk.injEq] at hmem
    obtain ⟨rfl, rfl⟩ := hmem
    rcases hwhere with rfl | hmisplaced
    · exact absurd hdue (by decide +kernel)
    · exact hmisplaced
  · rw [hnone] at hmem
    cases hmem

/-- If the tokens of a source are no sentence, and it does not nest too deeply, then what is due is
said once. -/
theorem countP_saysDue_parse {source : String}
    (hnot : ¬ Sentence ((TokenStream.ofString source).tokens.map Token.kind))
    (hdeep : ∀ token f, .syntactic token f ∈ (ofString source).parse.2.diagnostics.toList →
      f.text ≠ "Expression is nested too deeply") :
    (ofString source).parse.2.diagnostics.toList.countP Diagnostic.saysDue = 1 := by
  rcases parse_stopped_or_sentence source with ⟨-, token, f, hlosses, hwhere⟩ | ⟨hsentence, -⟩
  · have hmem : (token, f) ∈ (ofString source).parse.2.losses := by
      rw [hlosses]
      exact List.mem_singleton_self _
    rcases hwhere with rfl | ⟨-, -, p, -, -, -, rfl⟩
    · exact absurd rfl (hdeep token _ (mem_losses_iff.1 hmem).1)
    · rw [countP_saysDue, hlosses, List.countP_singleton]
      exact if_pos p.saysDue_fault
  · exact absurd hsentence hnot

/-- A report whose text says what is due is about the first token of a source that cannot stand
where it does: the tokens in front of it begin a sentence, with the token they do not, or are no
sentence if it is the end, and the text is the one that says what can follow them. If the tokens of
a source are no sentence, and it is not reported to nest too deeply, then there is exactly one such
report. -/
theorem parse_locates (source : String) :
    ((TokenStream.ofString source).tokens ++ [(TokenStream.ofString source).ending]).Nodup ∧
      (∀ token f, .syntactic token f ∈ (ofString source).parse.2.diagnostics.toList →
        f.text ∈ SyntaxFault.dueByText.map Prod.fst →
        (Diagnostic.syntactic token f).message =
            token.start.render ++ " " ++ ("Error at " ++ Diagnostic.place token ++ ": " ++ f.text) ∧
          ∃ before after,
            (TokenStream.ofString source).tokens ++ [(TokenStream.ofString source).ending] =
              before ++ token :: after ∧
            Viable (before.map Token.kind) ∧
            ¬ CanFollow (before.map Token.kind) token.kind ∧
            ∀ entry ∈ SyntaxFault.dueByText,
              f.text = entry.1 ↔ ∀ k, CanFollow (before.map Token.kind) k ↔ k ∈ entry.2) ∧
      (¬ Sentence ((TokenStream.ofString source).tokens.map Token.kind) →
        (∀ token f, .syntactic token f ∈ (ofString source).parse.2.diagnostics.toList →
          f.text ≠ "Expression is nested too deeply") →
        (ofString source).parse.2.diagnostics.toList.countP Diagnostic.saysDue = 1) := by
  refine ⟨TokenStream.nodup_tokens source, fun token f hreport hdue => ⟨rfl, ?_⟩,
    countP_saysDue_parse⟩
  exact (misplaced_of_reported hreport (decide_eq_true hdue)).exists_canFollow_iff

/-- Neither an error of the scan nor a number out of range keeps the first misplaced token from
being found, and nothing else that is due is reported behind it. -/
theorem parse_locates_closing :
    let source := "(1 # + 9999999999 2 * )"
    let token : Token := .number ['2'] ⟨1, 19⟩
    (∃ f, .syntactic token f ∈ (ofString source).parse.2.diagnostics.toList ∧
      f.text = "Expected ')' after expression" ∧
      (Diagnostic.syntactic token f).message =
        "[1:19] Error at '2': Expected ')' after expression" ∧
      ∃ before after,
        (TokenStream.ofString source).tokens ++ [(TokenStream.ofString source).ending] =
          before ++ token :: after ∧
        Viable (before.map Token.kind) ∧ ¬ CanFollow (before.map Token.kind) token.kind ∧
        ∀ k, CanFollow (before.map Token.kind) k ↔
          k ∈ [.rightParen, .plus, .minus, .times, .divide]) ∧
      ¬ Sentence ((TokenStream.ofString source).tokens.map Token.kind) ∧
      (∀ token' f, .syntactic token' f ∈ (ofString source).parse.2.diagnostics.toList →
        f.text ≠ "Expression is nested too deeply") ∧
      (ofString source).parse.2.diagnostics.toList.countP Diagnostic.saysDue = 1 := by
  intro source token
  have hreports : (ofString source).parse.2.diagnostics.toList =
      [.lexical (.unexpectedCharacter ⟨1, 4⟩ '#'),
        .syntactic (.number "9999999999".toList ⟨1, 8⟩) (.invalidNumber "9999999999"),
        .syntactic token .expectedClosing] := by decide +kernel
  have hnot : ¬ Sentence ((TokenStream.ofString source).tokens.map Token.kind) := by
    rw [sentence_iff]
    decide +kernel
  have hdeep : ∀ token' f, .syntactic token' f ∈ (ofString source).parse.2.diagnostics.toList →
      f.text ≠ "Expression is nested too deeply" := by
    rw [hreports]
    intro token' f hmem
    rcases hmem with _ | ⟨_, _ | ⟨_, _ | ⟨_, ⟨⟩⟩⟩⟩ <;> decide +kernel
  have hreport : .syntactic token .expectedClosing ∈
      (ofString source).parse.2.diagnostics.toList := by
    rw [hreports]
    exact List.mem_cons_of_mem _ (List.mem_cons_of_mem _ List.mem_cons_self)
  obtain ⟨-, hlocated, honce⟩ := parse_locates source
  obtain ⟨hmessage, before, after, htokens, hviable, hfollow, htext⟩ :=
    hlocated token .expectedClosing hreport (by decide +kernel)
  have hdue := (htext ("Expected ')' after expression", _)
    (List.mem_cons_of_mem _ List.mem_cons_self)).1 rfl
  refine ⟨⟨.expectedClosing, hreport, rfl, ?_, before, after, htokens, hviable, hfollow, hdue⟩,
    hnot, hdeep, honce hnot hdeep⟩
  rw [hmessage]
  decide +kernel

end Reading

end Calculator
