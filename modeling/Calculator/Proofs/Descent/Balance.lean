import Calculator.Proofs.Descent.Calls
import Calculator.Proofs.Grammar.Acceptance

/-!
# The counter of a descent

A call within the nesting limit comes back to the counter that it started from, on every path
through it, and so do expressions that are read in turn (`Descent.calls_balanced`). The counter is
what bounds the procedures: it is at the limit at most when one of them is called, and no more calls
of `unary` are nested than there are levels, whatever the length of the source.
-/

namespace Calculator.Descent

variable {d d' d₁ d₂ : Descent}

/-- A descent has come back to the calls that had not returned and to what the counter showed. On
the way calls were made within the nesting limit only, the counter was above the limit by one at
most, and no more calls of `unary` were nested than levels were left, counting the one of the
counter itself. -/
structure Balanced (d d' : Descent) : Prop where
  depth : d'.depth = d.depth
  active : d'.active = d.active
  moments : ∃ moments, d'.moments = d.moments ++ moments ∧
    ∀ m ∈ moments, m.Within (nestingLimit + 1 - d.depth) d.active

/-- Two balanced parts of a descent in turn are balanced. -/
theorem Balanced.trans (h : d.Balanced d₁) (h' : d₁.Balanced d₂) : d.Balanced d₂ where
  depth := h'.depth.trans h.depth
  active := h'.active.trans h.active
  moments := by
    obtain ⟨moments, hmoments, hwithin⟩ := h.moments
    obtain ⟨moments', hmoments', hwithin'⟩ := h'.moments
    rw [h.depth, h.active] at hwithin'
    refine ⟨moments ++ moments', by rw [hmoments', hmoments, List.append_assoc], fun m hm => ?_⟩
    exact (List.mem_append.1 hm).elim (hwithin m) (hwithin' m)

/-- A part of a descent that leaves the counter as it was is balanced. -/
theorem Leads.balanced {unaries : ℕ} (h : d.Leads unaries d')
    (hunaries : unaries ≤ nestingLimit + 1 - d.depth) (hdepth : d'.depth = d.depth) :
    d.Balanced d' where
  depth := hdepth
  active := h.active
  moments := (h.mono hunaries).moments

/-- Bringing the next token into view is balanced. -/
theorem Scans.balanced (h : d.Scans d') : d.Balanced d' where
  depth := h.depth
  active := h.active
  moments := ⟨[], by rw [h.moments, List.append_nil], nofun⟩

/-- Calls of the procedures within the nesting limit return, and are balanced. -/
theorem exists_call_balanced (p : Procedure) (h : d.depth ≤ nestingLimit) :
    ∃ d', d.call p = some ((p.rule (nestingLimit - d.depth) d.reading).1, d') ∧
      d'.reading = (p.rule (nestingLimit - d.depth) d.reading).2 ∧ d.Balanced d' ∧
      d.entry p ∈ d'.moments := by
  obtain ⟨d', hcall, hreads, hentry⟩ := calls (nestingLimit - d.depth) p d (by omega)
  refine ⟨d', hcall, hreads.reading, hreads.leads.balanced ?_ hreads.depth, hentry⟩
  cases p <;> simp only [Procedure.unaries] <;> omega

/-! ## Whole expressions -/

/-- For the reading the end of the source is required. -/
theorem reading_finish (d : Descent) : d.finish.reading = d.reading.finish := by
  unfold finish Reading.finish Reading.atEnd
  rw [current_reading]
  by_cases hk : d.current.kind = .endOfInput
  · rw [if_pos hk, if_pos (by simpa using hk)]
  · rw [if_neg hk, if_neg (by simpa using hk)]
    exact d.reading_fault _ _

/-- Requiring the end of the source is a part of a descent. -/
theorem leads_finish (d : Descent) (unaries : ℕ) :
    d.finish.depth = d.depth ∧ d.Leads unaries d.finish := by
  unfold finish
  split
  · exact ⟨rfl, leads_refl _ d⟩
  · exact ⟨d.depth_fault _ _, d.leads_fault _ _⟩

/-- An expression is read as it is read with the rules of the levels: the next token comes into
view, and a part of a descent follows. -/
theorem exists_parse (h : d.depth = 0) :
    ∃ d₁ d', d.parse = some (d.reading.parse.1, d') ∧ d'.reading = d.reading.parse.2 ∧
      d'.depth = 0 ∧ d.Scans d₁ ∧ d₁.Leads (nestingLimit + 1) d' := by
  obtain ⟨d₁, hadvance, hscans, -⟩ := d.exists_advance
  have hdepth : d₁.depth = 0 := hscans.depth.trans h
  obtain ⟨d₂, hcall, hreads, -⟩ := calls nestingLimit .expression d₁ (by omega)
  obtain ⟨hdepth', hleads⟩ := leads_finish d₂ (nestingLimit + 1)
  have hrule : Procedure.expression.rule nestingLimit d₁.reading = d.reading.readTerm := by
    rw [hscans.reading]
    rfl
  rw [hrule] at hcall hreads
  refine ⟨d₁, d₂.finish, ?_, ?_, ?_, hscans, hreads.leads.trans hleads⟩
  · rw [parse, hadvance, Reading.parse_eq]
    dsimp only [Option.bind_eq_bind, Option.bind_some]
    rw [hcall]
    rfl
  · rw [reading_finish, hreads.reading, Reading.parse_eq]
  · rw [hdepth', hreads.depth, hdepth]

/-- Expressions read in turn are those read with the rules of the levels, and balanced. -/
theorem exists_parseTimes (times : ℕ) (h : d.depth = 0) :
    ∃ outcomes, d.parseTimes times = some outcomes ∧
      outcomes.map (fun x => (x.1, x.2.reading)) = d.reading.parseTimes times ∧
      ∀ x ∈ outcomes, d.Balanced x.2 := by
  induction times generalizing d with
  | zero =>
    exact ⟨[], rfl, rfl, fun x hx => absurd hx List.not_mem_nil⟩
  | succ times ih =>
    obtain ⟨d₁, d₂, hparse, hreading, hdepth, hscans, hleads⟩ := exists_parse h
    have hbalanced : d.Balanced d₂ := hscans.balanced.trans
      (hleads.balanced (Nat.le_of_eq (by rw [hscans.depth, h, Nat.sub_zero]))
        (by rw [hdepth, hscans.depth, h]))
    obtain ⟨outcomes, hothers, hmap, hall⟩ := ih hdepth
    refine ⟨(d.reading.parse.1, d₂) :: outcomes, ?_, ?_, ?_⟩
    · rw [parseTimes, hparse]
      dsimp only [Option.bind_eq_bind, Option.bind_some]
      rw [hothers]
      rfl
    · rw [List.map_cons, hmap, hreading, Reading.parseTimes]
    · rw [List.forall_mem_cons]
      exact ⟨hbalanced, fun x hx => hbalanced.trans (hall x hx)⟩

/-- Every procedure that is called within the nesting limit returns, whatever is in view and ahead
and whatever has been wrong, and the counter then shows what it showed at the call. On the way,
procedures are called within the limit only, the counter is above it by one at most, and no more
calls of `unary` are nested than there are levels left, counting the one of the counter itself. So
before and behind each of the expressions that are read in turn from a source the counter is at
zero and no call is in progress, and there are never more than 257 calls of `unary` nested, however
long the source. -/
theorem calls_balanced :
    (∀ (d : Descent) (p : Procedure), d.depth ≤ nestingLimit →
      ∃ d', d.call p = some ((p.rule (nestingLimit - d.depth) d.reading).1, d') ∧
        d'.reading = (p.rule (nestingLimit - d.depth) d.reading).2 ∧ d.Balanced d' ∧
        d.entry p ∈ d'.moments) ∧
    ∀ (source : String) (times : ℕ), ∃ outcomes,
      (ofString source).parseTimes times = some outcomes ∧
        outcomes.map (fun x => (x.1, x.2.reading)) = (Reading.ofString source).parseTimes times ∧
        ∀ x ∈ outcomes,
          x.2.depth = 0 ∧ x.2.active = [] ∧ ∀ m ∈ x.2.moments, m.Within 257 [] := by
  refine ⟨fun d p => exists_call_balanced p, fun source times => ?_⟩
  obtain ⟨outcomes, hparse, hmap, hall⟩ := exists_parseTimes (d := ofString source) times rfl
  refine ⟨outcomes, hparse, hmap, fun x hx => ?_⟩
  obtain ⟨hdepth, hactive, moments, hmoments, hwithin⟩ := hall x hx
  refine ⟨hdepth, hactive, fun m hm => hwithin m ?_⟩
  rwa [hmoments] at hm

/-- With the counter at the limit and a minus in view, what is behind the minus is too deep. The
counter is above the limit then, and the call returns with it at the limit again. -/
theorem calls_balanced_at_limit :
    let minus : Token := .punctuation .minus '-' .start
    let d : Descent := { ofString "(1" with current := minus, depth := nestingLimit }
    d.depth ≤ nestingLimit ∧
      ∃ d', d.call .unary = some (.unary minus .error, d') ∧ d'.lost = true ∧ d.Balanced d' := by
  intro minus d
  obtain ⟨d', hcall, hreading, hbalanced, -⟩ := calls_balanced.1 d .unary (Nat.le_refl _)
  have htree : (Procedure.unary.rule (nestingLimit - d.depth) d.reading).1 =
      .unary minus .error := by decide +kernel
  have hlost : (Procedure.unary.rule (nestingLimit - d.depth) d.reading).2.lost = true := by
    decide +kernel
  rw [htree] at hcall
  exact ⟨Nat.le_refl _, d', hcall, (congrArg Reading.lost hreading).trans hlost, hbalanced⟩

end Calculator.Descent
