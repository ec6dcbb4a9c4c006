import Calculator.Proofs.Grammar.Sentences
import Calculator.Proofs.Reading.Reports

/-!
# A reading on its way through the grammar

A reading is on track as long as it has not lost its place (`Reading.OnTrack`): errors of the scan
and numbers that are out of range do not take it off. What it has in front of it is then a list of
tokens. It loses its place where the expression nests too deeply, or at the first token that cannot
stand where it does, and that is then the one loss that it reports (`Reading.Stopped`).

A part of a reading leads from one place in the grammar to another, or stops on the way
(`Reading.Arrives`). Such parts can be put together (`Reading.Arrives.trans`).
-/

namespace Calculator

/-! ## Tokens that cannot stand where they do -/

namespace Place

variable {p q : Place} {ts : List Token} {token : Token} {f : SyntaxFault}

/-- A token of the kind cannot stand at the place. The end of the source can stand only behind an
expression. -/
structure Rejects (p : Place) (k : TokenKind) : Prop where
  /-- The grammar does not go on with the kind. -/
  step : p.step k = none
  /-- It does not end here. -/
  ending : k = .endOfInput → p ≠ .operator 0

/-- What is wrong with a token that cannot stand at the place. -/
def fault : Place → SyntaxFault
  | operand _ => .expectedExpression
  | operator 0 => .expectedEnd
  | operator (_ + 1) => .expectedClosing

/-- With every such fault the place is lost. -/
theorem losesPlace_fault (p : Place) : p.fault.losesPlace = true := by
  cases p with
  | operand n => rfl
  | operator n => cases n <;> rfl

/-- From the place on, the token is the first of the tokens that cannot stand where it does, and the
fault says what is due there. -/
def Misplaced (p : Place) (ts : List Token) (token : Token) (f : SyntaxFault) : Prop :=
  ∃ before after q, ts = before ++ token :: after ∧ p.along (before.map Token.kind) = some q ∧
    q.Rejects token.kind ∧ f = q.fault

/-- A token that cannot stand at the place itself is misplaced. -/
theorem Rejects.misplaced (h : p.Rejects token.kind) (ts : List Token) :
    p.Misplaced (token :: ts) token p.fault :=
  ⟨[], ts, p, rfl, rfl, h, rfl⟩

/-- What is misplaced further on is misplaced. -/
theorem Misplaced.of_along {us : List Token} (h : q.Misplaced ts token f)
    (halong : p.along (us.map Token.kind) = some q) : p.Misplaced (us ++ ts) token f := by
  obtain ⟨before, after, m, rfl, hm, hrejects, hf⟩ := h
  refine ⟨us ++ before, after, m, by rw [List.append_assoc], ?_, hrejects, hf⟩
  rw [List.map_append, along_append_of_eq halong]
  exact hm

end Place

namespace Reading

variable {r r' : Reading} {ending t : Token} {ts us : List Token} {p q : Place}

/-! ## On track -/

/-- The place is not lost, and the tokens `ts` are left, with the end of the source behind them: the
first of them in view, the others ahead, maybe with errors of the scan between them. -/
structure OnTrack (r : Reading) (ending : Token) (ts : List Token) : Prop where
  /-- The place is not lost. -/
  lost : r.lost = false
  /-- No loss was reported. -/
  losses : r.losses = []
  /-- The first token is in view, or the end of the source if there is none. -/
  current : r.current = ts.headD ending
  /-- The other tokens are ahead. -/
  ahead : r.stream.tokens = ts.tail
  /-- No error that is ahead says that the source has ended. -/
  noEnd : .error .unexpectedEnd ∉ r.stream.ahead
  /-- The stream ends with the end of the source. -/
  ending_eq : r.stream.ending = ending
  /-- The end of the source is a token of its own kind. -/
  kind_ending : ending.kind = .endOfInput
  /-- No other token is of this kind. -/
  kind_ne : ∀ t ∈ ts, t.kind ≠ .endOfInput

namespace OnTrack

/-- Without tokens the end of the source is in view. -/
theorem current_nil (h : r.OnTrack ending []) : r.current = ending := h.current

/-- The first token is in view. -/
theorem current_cons (h : r.OnTrack ending (t :: ts)) : r.current = t := h.current

/-- A token in view that is not the end of the source is the first of those left. -/
theorem exists_eq_cons (h : r.OnTrack ending ts) (hk : r.current.kind ≠ .endOfInput) :
    ∃ us, ts = r.current :: us := by
  cases ts with
  | nil => exact absurd (h.current_nil ▸ h.kind_ending) hk
  | cons u us => exact ⟨us, by rw [h.current_cons]⟩

/-- The token in view comes first, be it the end of the source or not. -/
theorem exists_append_eq_cons (h : r.OnTrack ending ts) :
    ∃ us, ts ++ [ending] = r.current :: us := by
  cases ts with
  | nil => exact ⟨[], by rw [h.current_nil, List.nil_append]⟩
  | cons u us => exact ⟨us ++ [ending], by rw [h.current_cons, List.cons_append]⟩

/-- Bringing the next token into view takes the first one off. -/
theorem advance (h : r.OnTrack ending (t :: ts)) : r.advance.OnTrack ending ts where
  lost := h.lost
  losses := by rw [losses_advance, h.losses]
  ending_eq := h.ending_eq
  kind_ending := h.kind_ending
  kind_ne := fun u hu => h.kind_ne u (List.mem_cons_of_mem _ hu)
  current := by
    have htokens : r.stream.tokens = ts := h.ahead
    rw [← htokens, ← h.ending_eq]
    exact (TokenStream.next_eq_headD_tail h.noEnd).1
  ahead := by
    have htokens : r.stream.tokens = ts := h.ahead
    rw [← htokens]
    exact (TokenStream.next_eq_headD_tail h.noEnd).2
  noEnd := fun hmem => h.noEnd (TokenStream.mem_of_mem_next h.noEnd hmem)

/-- A fault with which the place is not lost does not take the reading off. -/
theorem fault (h : r.OnTrack ending ts) (token : Token) {f : SyntaxFault}
    (hf : f.losesPlace = false) : (r.fault token f).OnTrack ending ts where
  lost := by rw [lost_fault h.lost, hf]
  losses := by rw [losses_fault_of_not h.lost token hf, h.losses]
  current := by rw [current_fault, h.current]
  ahead := by rw [stream_fault, h.ahead]
  noEnd := by rw [stream_fault]; exact h.noEnd
  ending_eq := by rw [stream_fault, h.ending_eq]
  kind_ending := h.kind_ending
  kind_ne := h.kind_ne

end OnTrack

/-! ## Stopped -/

/-- The place is lost, with the one report that the expression nests too deeply, or that a token is
the first of the tokens `ts` and the end behind them that cannot stand where it does. -/
structure Stopped (r : Reading) (ending : Token) (p : Place) (ts : List Token) : Prop where
  /-- The place is lost. -/
  lost : r.lost = true
  /-- There is one report of it. -/
  loss : ∃ token f, r.losses = [(token, f)] ∧
    (f = .tooDeep ∨ p.Misplaced (ts ++ [ending]) token f)

/-- Each step of a reading that has stopped leaves it so. -/
theorem Step.stopped (h : Step r r') (hr : r.Stopped ending p ts) : r'.Stopped ending p ts := by
  cases h with
  | advance _ => exact ⟨hr.lost, by rw [losses_advance]; exact hr.loss⟩
  | fault token f => rwa [fault_of_lost hr.lost]

/-- A reading that has stopped does so for good. -/
theorem Leads.stopped (h : r.Leads r') (hr : r.Stopped ending p ts) : r'.Stopped ending p ts := by
  induction h with
  | refl => exact hr
  | tail _ hstep ih => exact hstep.stopped ih

/-- A reading that has stopped further on has stopped. -/
theorem Stopped.of_along (h : r.Stopped ending q ts)
    (halong : p.along (us.map Token.kind) = some q) : r.Stopped ending p (us ++ ts) := by
  obtain ⟨hlost, token, f, hloss, hf⟩ := h
  refine ⟨hlost, token, f, hloss, hf.imp_right fun hmisplaced => ?_⟩
  rw [List.append_assoc]
  exact hmisplaced.of_along halong

/-- A fault of the token in view with which the place is lost is the one loss. -/
theorem OnTrack.losses_faultHere (h : r.OnTrack ending ts) {f : SyntaxFault}
    (hf : f.losesPlace = true) : (r.faultHere f).losses = [(r.current, f)] := by
  rw [faultHere, losses_fault h.lost _ hf, h.losses, List.nil_append]

/-- Where the expression nests too deeply the reading stops. -/
theorem OnTrack.stopped_tooDeep (h : r.OnTrack ending ts) (p : Place) (us : List Token) :
    (r.faultHere .tooDeep).Stopped ending p us where
  lost := lost_fault h.lost _ _
  loss := ⟨_, _, h.losses_faultHere rfl, .inl rfl⟩

/-- At a token that cannot stand where it does the reading stops. -/
theorem OnTrack.stopped_fault (h : r.OnTrack ending ts) (hrejects : p.Rejects r.current.kind) :
    (r.faultHere p.fault).Stopped ending p ts where
  lost := (lost_fault h.lost _ _).trans p.losesPlace_fault
  loss := by
    obtain ⟨us, hus⟩ := h.exists_append_eq_cons
    refine ⟨_, _, h.losses_faultHere p.losesPlace_fault, .inr ?_⟩
    rw [hus]
    exact hrejects.misplaced us

/-! ## From place to place -/

/-- In front of the tokens, a part of a reading has stopped, or it has led from the place `p` to the
place `q` and has in view a token for which `goesOn` does not hold. -/
inductive Arrives (r : Reading) (ending : Token) (goesOn : Token → Bool) (p q : Place) :
    List Token → Prop where
  | stopped {ts : List Token} (isStopped : r.Stopped ending p ts) : Arrives r ending goesOn p q ts
  | passed {us ts : List Token} (along : p.along (us.map Token.kind) = some q)
      (onTrack : r.OnTrack ending ts) (ends : goesOn r.current = false) :
      Arrives r ending goesOn p q (us ++ ts)

/-- Two parts of a reading, one behind the other. -/
theorem Arrives.trans {goesOn goesOn' : Token → Bool} {m : Place}
    (h : r.Arrives ending goesOn p m ts) (hleads : r.Leads r')
    (hnext : ∀ us, r.OnTrack ending us → goesOn r.current = false →
      r'.Arrives ending goesOn' m q us) :
    r'.Arrives ending goesOn' p q ts := by
  cases h with
  | stopped isStopped => exact .stopped (hleads.stopped isStopped)
  | @passed us ts along onTrack ends =>
    cases hnext ts onTrack ends with
    | stopped isStopped => exact .stopped (isStopped.of_along along)
    | @passed vs ts along' onTrack' ends' =>
      rw [← List.append_assoc]
      refine .passed ?_ onTrack' ends'
      rw [List.map_append, Place.along_append_of_eq along]
      exact along'

/-- A token that can stand where it does leads on. -/
theorem Arrives.cons {goesOn : Token → Bool} {m : Place} (hstep : p.step t.kind = some m)
    (h : r.Arrives ending goesOn m q ts) : r.Arrives ending goesOn p q (t :: ts) := by
  have halong : p.along ([t].map Token.kind) = some m :=
    (Place.along_singleton p t.kind).trans hstep
  cases h with
  | stopped isStopped => exact .stopped (isStopped.of_along halong)
  | @passed us ts along onTrack ends =>
    have hall : p.along ((t :: us).map Token.kind) = some q := by
      rw [List.map_cons, Place.along, hstep]
      exact along
    exact .passed hall onTrack ends

/-- A reading on track has arrived where it is. -/
theorem OnTrack.arrives {goesOn : Token → Bool} (h : r.OnTrack ending ts) (p : Place)
    (hends : goesOn r.current = false) : r.Arrives ending goesOn p p ts := by
  have hnone : p.along (([] : List Token).map Token.kind) = some p := rfl
  exact .passed hnone h hends

end Reading

end Calculator
