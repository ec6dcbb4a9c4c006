import Mathlib.Data.Nat.Notation
import Mathlib.Logic.Relation
import Calculator.ParseTree.Grammar
import Calculator.Proofs.Scan.Tokens

/-!
# The steps of a reading

Three things are done to a reading by the rules of the grammar themselves: they bring the next token
into view, they report a fault of the token in view, and they pass over a number and report it. A
property that these three keep (`Reading.Kept`) is kept by the rules of every level
(`Rules.keeps_within`). So whatever a rule does to a reading is made up of steps of two kinds
(`Reading.Step`): the next token comes into view, or a fault is reported (`Rules.leads_within`).

Two properties are kept by each of these steps. A reading has failed exactly when something was
reported, and has failed if its place is lost (`Reading.Consistent`). And what it has passed over is
the front part of its stream, without errors as long as it has not failed (`Reading.Follows`).
-/

namespace Calculator

namespace Reading

/-- One step of a reading: the next token comes into view, which happens only in front of the end of
the source, or a fault is reported. -/
inductive Step : Reading → Reading → Prop where
  | advance {r : Reading} (h : r.current.kind ≠ .endOfInput) : Step r r.advance
  | fault (r : Reading) (token : Token) (f : SyntaxFault) : Step r (r.fault token f)

/-- Steps in turn lead from one state of a reading to another. -/
abbrev Leads : Reading → Reading → Prop := Relation.ReflTransGen Step

/-- Bringing the next token into view leads on, in front of the end of the source. -/
theorem leads_advance {r : Reading} (h : r.current.kind ≠ .endOfInput) : r.Leads r.advance :=
  .single (.advance h)

/-- Reporting a fault leads on. -/
theorem leads_fault (r : Reading) (token : Token) (f : SyntaxFault) : r.Leads (r.fault token f) :=
  .single (.fault r token f)

/-! ## What every rule keeps -/

/-- Whatever a rule does to a reading by itself keeps the property. -/
structure Kept (P : Reading → Prop) : Prop where
  /-- In front of the end of the source the next token comes into view. -/
  advance : ∀ {r : Reading}, P r → r.current.kind ≠ .endOfInput → P r.advance
  /-- The token in view is a fault with which the place is lost. -/
  faultHere : ∀ {r : Reading} {f : SyntaxFault}, P r → f.losesPlace = true → P (r.faultHere f)
  /-- The number in view is passed over, and is a fault. -/
  number : ∀ {r : Reading}, P r → r.current.kind = .number →
    P (r.advance.fault r.current (.invalidNumber r.current.text))

namespace Kept

variable {P : Reading → Prop} (hP : Kept P) {r : Reading}
include hP

/-- Reading the closing parenthesis keeps the property, whether it is there or not. -/
theorem close (h : P r) : P r.close := by
  unfold Reading.close
  split
  · next hk => exact hP.advance h (by rw [hk]; decide)
  · exact hP.faultHere h rfl

/-- Requiring the end of the source keeps the property, whether it is there or not. -/
theorem finish (h : P r) : P r.finish := by
  unfold Reading.finish
  split
  · exact h
  · exact hP.faultHere h rfl

end Kept

end Reading

/-- Every rule of a level keeps the property. -/
structure Rules.Keeps (P : Reading → Prop) (g : Rules) : Prop where
  /-- Reading an operand keeps the property. -/
  unary : ∀ {r : Reading}, P r → P (g.unary r).2
  /-- Reading on in a factor keeps the property. -/
  factorTail : ∀ (left : ParseTree) {r : Reading}, P r → P (g.factorTail left r).2
  /-- Reading on in a term keeps the property. -/
  termTail : ∀ (left : ParseTree) {r : Reading}, P r → P (g.termTail left r).2

namespace Rules.Keeps

variable {P : Reading → Prop} {g : Rules} (hg : g.Keeps P) {r : Reading}
include hg

/-- Reading a factor keeps the property. -/
theorem factor (h : P r) : P (g.factor r).2 := hg.factorTail _ (hg.unary h)

/-- Reading a term keeps the property. -/
theorem term (h : P r) : P (g.term r).2 := hg.termTail _ (hg.factor h)

end Rules.Keeps

namespace Grammar

/-- An operator of a term is not the end of the source. -/
theorem kind_ne_of_isTermOperator {t : Token} (h : isTermOperator t = true) :
    t.kind ≠ .endOfInput := by
  intro hk
  simp [isTermOperator, hk] at h

/-- An operator of a factor is not the end of the source. -/
theorem kind_ne_of_isFactorOperator {t : Token} (h : isFactorOperator t = true) :
    t.kind ≠ .endOfInput := by
  intro hk
  simp [isFactorOperator, hk] at h

/-- What a sign makes a literal of is a number. -/
theorem kind_of_signedLiteral? {sign number token : Token}
    (h : signedLiteral? sign number = some token) : number.kind = .number := by
  unfold signedLiteral? at h
  split at h
  · next hn => exact hn.2.1
  · cases h

variable {P : Reading → Prop} (hP : Reading.Kept P) {r : Reading}
include hP

/-- Reading a number keeps the property. -/
theorem keeps_number (h : P r) (hk : r.current.kind = .number) : P (number r).2 := by
  unfold number
  dsimp only
  split
  · exact hP.number h hk
  · exact hP.advance h (by rw [hk]; decide)

variable {inner : Option Rules} (hinner : ∀ g ∈ inner, g.Keeps P)
include hinner

/-- Reading an expression in parentheses keeps the property. -/
theorem keeps_parenthesized (h : P r) (hk : r.current.kind = .leftParen) :
    P (parenthesized inner r).2 := by
  have hadv : P r.advance := hP.advance h (by rw [hk]; decide)
  unfold parenthesized
  cases inner with
  | none => exact hP.faultHere hadv rfl
  | some g => exact hP.close ((hinner g rfl).term hadv)

/-- Reading an operand without a sign keeps the property. -/
theorem keeps_primary (h : P r) : P (primary inner r).2 := by
  unfold primary
  split
  · next hk => exact keeps_number hP h hk
  · next hk => exact hP.advance h (by rw [hk]; decide)
  · next hk => exact hP.advance h (by rw [hk]; decide)
  · next hk => exact keeps_parenthesized hP hinner h hk
  · exact hP.faultHere h rfl
  · next hk =>
    -- The token is passed over behind its own fault, which leaves it in view.
    refine hP.advance (hP.faultHere h rfl) ?_
    rw [Reading.faultHere, Reading.current_fault]
    exact hk

/-- Reading a sign and its operand keeps the property. -/
theorem keeps_signed (h : P r) (hop : isTermOperator r.current = true) :
    P (signed inner r).2 := by
  have hadv : P r.advance := hP.advance h (kind_ne_of_isTermOperator hop)
  unfold signed
  dsimp only
  split
  · next token ht =>
    -- The token that is read together with the sign is a number.
    refine hP.advance hadv ?_
    rw [kind_of_signedLiteral? ht]
    decide
  · cases inner with
    | none => exact hP.faultHere hadv rfl
    | some g => exact (hinner g rfl).unary hadv

/-- Reading on in a factor keeps the property. -/
theorem keeps_factorTail (left : ParseTree) (h : P r) : P (factorTail inner left r).2 := by
  unfold factorTail
  split
  · next hop =>
    have hadv : P r.advance := hP.advance h (kind_ne_of_isFactorOperator hop)
    cases inner with
    | none => exact hP.faultHere hadv rfl
    | some g => exact (hinner g rfl).factorTail _ ((hinner g rfl).unary hadv)
  · exact h

/-- Reading on in a term keeps the property. -/
theorem keeps_termTail (left : ParseTree) (h : P r) : P (termTail inner left r).2 := by
  unfold termTail
  split
  · next hop =>
    have hadv : P r.advance := hP.advance h (kind_ne_of_isTermOperator hop)
    cases inner with
    | none => exact hP.faultHere hadv rfl
    | some g => exact (hinner g rfl).termTail _ ((hinner g rfl).factor hadv)
  · exact h

end Grammar

namespace Rules

variable {P : Reading → Prop}

/-- If every rule of the level inside keeps the property, so does every rule of the level around
it. -/
theorem keeps_around (hP : Reading.Kept P) {inner : Option Rules}
    (hinner : ∀ g ∈ inner, g.Keeps P) : (around inner).Keeps P where
  unary := fun {r} h => by
    change P (Grammar.unary inner r).2
    unfold Grammar.unary
    split
    · next hop => exact Grammar.keeps_signed hP hinner h hop
    · exact Grammar.keeps_primary hP hinner h
  factorTail := fun left _ => Grammar.keeps_factorTail hP hinner left
  termTail := fun left _ => Grammar.keeps_termTail hP hinner left

/-- Every rule of every level keeps the property. -/
theorem keeps_within (hP : Reading.Kept P) (levels : ℕ) : (within levels).Keeps P :=
  within_of_around (fun _ => keeps_around hP) levels

end Rules

/-! ## Every rule leads on -/

namespace Reading

/-- Leading on from a reading is kept. -/
theorem kept_leads (r : Reading) : Kept r.Leads where
  advance := fun h hk => h.trans (leads_advance hk)
  faultHere := fun h _ => h.trans (leads_fault _ _ _)
  number := fun h hk => h.trans ((leads_advance (by rw [hk]; decide)).trans (leads_fault _ _ _))

/-- Reading the closing parenthesis leads on, whether it is there or not. -/
theorem leads_close (r : Reading) : r.Leads r.close := (kept_leads r).close .refl

/-- Requiring the end of the source leads on, whether it is there or not. -/
theorem leads_finish (r : Reading) : r.Leads r.finish := (kept_leads r).finish .refl

end Reading

/-- Every rule of a level leads on. -/
structure Rules.Leads (g : Rules) : Prop where
  /-- Reading an operand leads on. -/
  unary : ∀ r : Reading, r.Leads (g.unary r).2
  /-- Reading on in a factor leads on. -/
  factorTail : ∀ (left : ParseTree) (r : Reading), r.Leads (g.factorTail left r).2
  /-- Reading on in a term leads on. -/
  termTail : ∀ (left : ParseTree) (r : Reading), r.Leads (g.termTail left r).2

namespace Rules

variable {g : Rules}

/-- Rules lead on exactly if leading on from a reading is kept by them. -/
theorem leads_iff_keeps : g.Leads ↔ ∀ r : Reading, g.Keeps r.Leads := by
  constructor
  · intro hg r
    exact ⟨fun h => h.trans (hg.unary _), fun left _ h => h.trans (hg.factorTail left _),
      fun left _ h => h.trans (hg.termTail left _)⟩
  · intro hg
    exact ⟨fun r => (hg r).unary .refl, fun left r => (hg r).factorTail left .refl,
      fun left r => (hg r).termTail left .refl⟩

/-- Reading a term leads on. -/
theorem Leads.term (hg : g.Leads) (r : Reading) : r.Leads (g.term r).2 :=
  (leads_iff_keeps.1 hg r).term .refl

/-- If every rule of the level inside leads on, so does every rule of the level around it. -/
theorem leads_around {inner : Option Rules} (hinner : ∀ g ∈ inner, g.Leads) :
    (around inner).Leads :=
  leads_iff_keeps.2 fun r =>
    keeps_around (Reading.kept_leads r) fun g hg => leads_iff_keeps.1 (hinner g hg) r

/-- Every rule of every level leads on. -/
theorem leads_within (levels : ℕ) : (within levels).Leads :=
  within_of_around (fun _ => leads_around) levels

end Rules

namespace Reading

/-! ## Failure and reports -/

/-- The marks of a reading agree with its reports: it has failed exactly when something was
reported, and its place is lost only if it has failed. -/
structure Consistent (r : Reading) : Prop where
  /-- Something was wrong exactly when something was reported. -/
  failed_iff : r.failed = true ↔ r.diagnostics.toList ≠ []
  /-- The place is lost only by a fault. -/
  failed_of_lost : r.lost = true → r.failed = true

/-- Before the first token nothing is wrong. -/
theorem consistent_start (s : TokenStream) : (start s).Consistent where
  failed_iff := by simp [start]
  failed_of_lost := nofun

/-- A fault of a consistent reading is a failure, whether it is reported or not. -/
theorem Consistent.failed_fault {r : Reading} (h : r.Consistent) (token : Token)
    (f : SyntaxFault) : (r.fault token f).failed = true := by
  unfold fault
  split
  · next hl => exact h.failed_of_lost hl
  · rfl

/-- Errors of the scan are reported and mark a failure together. -/
theorem Consistent.advance {r : Reading} (hr : r.Consistent) : r.advance.Consistent where
  failed_iff := by
    have hfail : r.advance.failed = (r.failed || !r.stream.next.1.isEmpty) := rfl
    have hdiag : r.advance.diagnostics =
        r.diagnostics.reportAll (r.stream.next.1.map .lexical) := rfl
    rw [hfail, hdiag, Diagnostics.toList_reportAll, Bool.or_eq_true, hr.failed_iff]
    cases r.stream.next.1 <;> simp
  failed_of_lost := by
    intro hl
    have hfail : r.failed = true := hr.failed_of_lost hl
    simp [Reading.advance, hfail]

/-- Each step keeps the marks in agreement with the reports. -/
theorem Step.consistent {r r' : Reading} (h : Step r r') (hr : r.Consistent) :
    r'.Consistent := by
  cases h with
  | advance _ => exact hr.advance
  | fault token f =>
    -- With the place lost nothing is reported, but then there was a failure before.
    by_cases hl : r.lost = true
    · rwa [fault_of_lost hl]
    · refine ⟨?_, fun _ => hr.failed_fault token f⟩
      rw [hr.failed_fault token f]
      simp [Reading.fault, hl]

/-- Steps keep the marks in agreement with the reports. -/
theorem Leads.consistent {r r' : Reading} (h : r.Leads r') (hr : r.Consistent) :
    r'.Consistent := by
  induction h with
  | refl => exact hr
  | tail _ hstep ih => exact hstep.consistent ih

/-- No step takes a failure back. -/
theorem Step.failed {r r' : Reading} (h : Step r r') (hr : r.failed = true) :
    r'.failed = true := by
  cases h with
  | advance _ => simp [Reading.advance, hr]
  | fault token f =>
    unfold Reading.fault
    split
    · exact hr
    · rfl

/-- A reading that has not failed had not failed before. -/
theorem Leads.not_failed {r r' : Reading} (h : r.Leads r') (hr : r'.failed = false) :
    r.failed = false := by
  induction h with
  | refl => exact hr
  | tail _ hstep ih => exact ih (Bool.eq_false_iff.2 fun hf => by simp [hstep.failed hf] at hr)

/-! ## What has been passed over -/

/-- A reading of the stream `s` stands somewhere in it, and as long as it has not failed it has
passed over tokens only. -/
structure Follows (s : TokenStream) (r : Reading) : Prop where
  /-- What has been passed over and what is ahead make up the stream. -/
  passed : ∃ passed, s.ahead = passed ++ r.stream.ahead ∧
    (r.failed = false → ∀ x ∈ passed, ∃ t, x = .ok t)
  /-- The end is that of the stream. -/
  ending : r.stream.ending = s.ending
  /-- With the end in view nothing is ahead. -/
  atEnd : r.current.kind = .endOfInput → r.stream.ahead = []

/-- Before the first token nothing has been passed over. -/
theorem follows_start (s : TokenStream) : (start s).Follows s where
  passed := ⟨[], rfl, fun _ => nofun⟩
  ending := rfl
  atEnd := nofun

/-- Bringing the next token into view passes over it and the errors in front of it. -/
theorem Follows.advance {s : TokenStream} (hs : s.Proper) {r : Reading} (hr : r.Follows s) :
    r.advance.Follows s := by
  obtain ⟨passed, hpassed, hok⟩ := hr.passed
  have hnoEnd : .error .unexpectedEnd ∉ r.stream.ahead := fun hmem =>
    hs.noEnd (by rw [hpassed]; exact List.mem_append_right _ hmem)
  have hcurrent : r.advance.current = (TokenStream.nextOf r.stream.ending r.stream.ahead).2.1 := rfl
  have hahead : r.advance.stream.ahead =
      (TokenStream.nextOf r.stream.ending r.stream.ahead).2.2 := rfl
  have hfail : r.advance.failed =
      (r.failed || !(TokenStream.nextOf r.stream.ending r.stream.ahead).1.isEmpty) := rfl
  have hcases := TokenStream.nextOf_cases r.stream.ending hnoEnd
  generalize TokenStream.nextOf r.stream.ending r.stream.ahead = n at hcurrent hahead hfail hcases
  -- Without a failure there was none before, and no error stands in front of the token.
  have hclean : r.advance.failed = false → r.failed = false ∧ n.1 = [] := by
    rw [hfail, Bool.or_eq_false_iff]
    rintro ⟨hf, he⟩
    exact ⟨hf, by simpa using he⟩
  rcases hcases with heq | ⟨heq, ht, hnil⟩
  · refine ⟨⟨passed ++ (n.1.map .error ++ [.ok n.2.1]), ?_, fun hf x hx => ?_⟩, hr.ending, ?_⟩
    · rw [hpassed, hahead, heq]
      simp
    · obtain ⟨hf, he⟩ := hclean hf
      rw [he] at hx
      rcases List.mem_append.1 hx with hx | hx
      · exact hok hf x hx
      · exact ⟨n.2.1, by simpa using hx⟩
    · intro hend
      -- A token of the stream is not its end.
      have hmem : .ok n.2.1 ∈ s.ahead := by
        rw [hpassed, heq]
        simp
      exact absurd (hcurrent ▸ hend) (hs.scanned _ hmem).kind_ne
  · refine ⟨⟨passed ++ n.1.map .error, ?_, fun hf x hx => ?_⟩, hr.ending, fun _ => ?_⟩
    · rw [hpassed, hahead, hnil, heq]
      simp
    · obtain ⟨hf, he⟩ := hclean hf
      rw [he] at hx
      exact hok hf x (by simpa using hx)
    · rw [hahead, hnil]

/-- Each step of a reading goes on in its stream. -/
theorem Step.follows {s : TokenStream} (hs : s.Proper) {r r' : Reading} (h : Step r r')
    (hr : r.Follows s) : r'.Follows s := by
  have hmono : r'.failed = false → r.failed = false := Leads.not_failed (.single h)
  cases h with
  | advance _ => exact hr.advance hs
  | fault token f =>
    obtain ⟨passed, hpassed, hok⟩ := hr.passed
    refine ⟨⟨passed, ?_, fun hf => hok (hmono hf)⟩, ?_, ?_⟩
    · rw [stream_fault]
      exact hpassed
    · rw [stream_fault]
      exact hr.ending
    · rw [stream_fault, current_fault]
      exact hr.atEnd

/-- Steps of a reading go on in its stream. -/
theorem Leads.follows {s : TokenStream} (hs : s.Proper) {r r' : Reading} (h : r.Leads r')
    (hr : r.Follows s) : r'.Follows s := by
  induction h with
  | refl => exact hr
  | tail _ hstep ih => exact hstep.follows hs ih

end Reading

end Calculator
