import Calculator.Proofs.Descent.Scans

/-!
# The notes of a descent

Whatever a part of a descent is made up of, it leads from one state to another in the same way
(`Descent.Leads`). All calls made on the way have returned. At every moment of it the counter was
above the limit by one at most, and the calls in progress were made within the limit, with a bound
on those of `unary`. And it has consumed what was due: one use was made of each token that was in
view before the last one.

Parts in turn are a part again (`Descent.Leads.trans`), and so is a call with such a part in it, for
which the bound is one more if it is a call of `unary` (`Descent.Leads.call`).
-/

namespace Calculator

/-- The calls at the moment are those of `base` and calls made since, which were made within the
nesting limit, and no more than `unaries` of them are calls of `unary`. The counter is above the
limit by one at most. -/
structure Moment.Within (m : Moment) (unaries : ℕ) (base : List Call) : Prop where
  depth_le : m.depth ≤ nestingLimit + 1
  active : ∃ calls, m.active = calls ++ base ∧ (∀ c ∈ calls, c.depth ≤ nestingLimit) ∧
    calls.countP (·.procedure = .unary) ≤ unaries

namespace Moment

variable {m : Moment} {unaries : ℕ} {base : List Call}

/-- Where no call was made since the moment is fine, if the counter is. -/
theorem Within.of_active_eq (hdepth : m.depth ≤ nestingLimit + 1) (h : m.active = base) :
    m.Within unaries base :=
  ⟨hdepth, [], h, nofun, Nat.zero_le _⟩

/-- With more calls of `unary` allowed the moment is still fine. -/
theorem Within.mono {n : ℕ} (h : m.Within unaries base) (hle : unaries ≤ n) : m.Within n base := by
  obtain ⟨hdepth, calls, hactive, hcalls, hcount⟩ := h
  exact ⟨hdepth, calls, hactive, hcalls, Nat.le_trans hcount hle⟩

/-- A call within the limit is one of the calls made since. A call of `unary` is one more. -/
theorem Within.of_call {c : Call} (hdepth : c.depth ≤ nestingLimit)
    (h : m.Within unaries (c :: base)) :
    m.Within (unaries + if c.procedure = .unary then 1 else 0) base := by
  obtain ⟨hdepth', calls, hactive, hcalls, hcount⟩ := h
  refine ⟨hdepth', calls ++ [c], by rw [hactive, List.append_cons], fun x hx => ?_, ?_⟩
  · rcases List.mem_append.1 hx with hx | hx
    · exact hcalls x hx
    · rwa [List.mem_singleton.1 hx]
  · rw [List.countP_append, List.countP_singleton]
    simpa using hcount

end Moment

namespace Descent

variable {d d' d₁ d₂ : Descent} {unaries : ℕ}

/-- From the one state to the other the descent has made use of tokens and scanned the source. -/
structure Consumes (d d' : Descent) (uses : List (Use × Token))
    (results : List (Except ScanError Token)) : Prop where
  uses_eq : d'.uses = d.uses ++ uses
  scans_eq : d'.scans = d.scans ++ results
  /-- The results were the first of those that were due. -/
  due_eq : d.due = results ++ d'.due
  /-- One use is made of each token that was in view before the last one. -/
  tokens_eq : d.current :: results.filterMap Except.toOption = uses.map Prod.snd ++ [d'.current]
  /-- The use is one that can be made of the token. -/
  fits : ∀ u ∈ uses, u.1.fits u.2.kind = true

/-- A part of a descent leads from the one state to the other. -/
structure Leads (unaries : ℕ) (d d' : Descent) : Prop where
  /-- All calls made on the way have returned. -/
  active : d'.active = d.active
  moments : ∃ moments, d'.moments = d.moments ++ moments ∧
    ∀ m ∈ moments, m.Within unaries d.active
  consumes : ∃ uses results, d.Consumes d' uses results

/-! ## Parts of a descent in turn -/

/-- Where the same token stays in view nothing is consumed. -/
theorem consumes_of_eq (hcursor : d'.cursor = d.cursor) (hcurrent : d'.current = d.current)
    (huses : d'.uses = d.uses) (hscans : d'.scans = d.scans) : d.Consumes d' [] [] where
  uses_eq := by rw [huses, List.append_nil]
  scans_eq := by rw [hscans, List.append_nil]
  due_eq := by rw [due, due, future, future, hcursor, hcurrent, List.nil_append]
  tokens_eq := by rw [hcurrent]; rfl
  fits := nofun

/-- Two parts in turn consume what the one does and then what the other does. -/
theorem Consumes.trans {uses uses' : List (Use × Token)}
    {results results' : List (Except ScanError Token)} (h : d.Consumes d₁ uses results)
    (h' : d₁.Consumes d₂ uses' results') : d.Consumes d₂ (uses ++ uses') (results ++ results') where
  uses_eq := by rw [h'.uses_eq, h.uses_eq, List.append_assoc]
  scans_eq := by rw [h'.scans_eq, h.scans_eq, List.append_assoc]
  due_eq := by rw [h.due_eq, h'.due_eq, List.append_assoc]
  tokens_eq := by
    rw [List.filterMap_append, ← List.cons_append, h.tokens_eq, List.append_assoc,
      List.singleton_append, h'.tokens_eq, List.map_append, List.append_assoc]
  fits := fun u hu => (List.mem_append.1 hu).elim (h.fits u) (h'.fits u)

/-- A part of a descent that does nothing. -/
theorem leads_refl (unaries : ℕ) (d : Descent) : d.Leads unaries d where
  active := rfl
  moments := ⟨[], (List.append_nil _).symm, nofun⟩
  consumes := ⟨[], [], consumes_of_eq rfl rfl rfl rfl⟩

/-- Two parts of a descent in turn. -/
theorem Leads.trans (h : d.Leads unaries d₁) (h' : d₁.Leads unaries d₂) : d.Leads unaries d₂ where
  active := h'.active.trans h.active
  moments := by
    obtain ⟨moments, hmoments, hwithin⟩ := h.moments
    obtain ⟨moments', hmoments', hwithin'⟩ := h'.moments
    refine ⟨moments ++ moments', by rw [hmoments', hmoments, List.append_assoc], fun m hm => ?_⟩
    rw [h.active] at hwithin'
    exact (List.mem_append.1 hm).elim (hwithin m) (hwithin' m)
  consumes := by
    obtain ⟨uses, results, hconsumes⟩ := h.consumes
    obtain ⟨uses', results', hconsumes'⟩ := h'.consumes
    exact ⟨_, _, hconsumes.trans hconsumes'⟩

/-- With more calls of `unary` allowed a part of a descent is still one. -/
theorem Leads.mono {n : ℕ} (h : d.Leads unaries d') (hle : unaries ≤ n) : d.Leads n d' where
  active := h.active
  moments := by
    obtain ⟨moments, hmoments, hwithin⟩ := h.moments
    exact ⟨moments, hmoments, fun m hm => (hwithin m hm).mono hle⟩
  consumes := h.consumes

/-! ## Single steps -/

/-- Reporting a fault is a part of a descent. -/
theorem leads_fault (d : Descent) (token : Token) (f : SyntaxFault) :
    d.Leads unaries (d.fault token f) := by
  unfold fault
  split
  · exact leads_refl unaries d
  · exact ⟨rfl, ⟨[], (List.append_nil _).symm, nofun⟩, [], [], consumes_of_eq rfl rfl rfl rfl⟩

/-- Setting the counter within the limit, or above it by one, is a part of a descent. -/
theorem leads_count (d : Descent) {depth : ℕ} (h : depth ≤ nestingLimit + 1) :
    d.Leads unaries (d.count depth) where
  active := rfl
  moments := by
    refine ⟨_, rfl, fun m hm => ?_⟩
    rw [List.mem_singleton.1 hm]
    exact .of_active_eq h rfl
  consumes := ⟨[], [], consumes_of_eq rfl rfl rfl rfl⟩

/-- A token that was made use of is passed over. -/
theorem exists_use (unaries : ℕ) {u : Use} (hu : u.fits d.current.kind = true) :
    ∃ d', (d.use u).advance = some d' ∧ d'.reading = d.reading.advance ∧
      d'.previous = d.current ∧ d'.depth = d.depth ∧ d.Leads unaries d' := by
  obtain ⟨d', hadvance, hscans, hprevious⟩ := (d.use u).exists_advance
  obtain ⟨results, hresults, hfuture, htokens⟩ := hscans.scans
  refine ⟨d', hadvance, hscans.reading, hprevious, hscans.depth, hscans.active,
    ⟨[], ?_, nofun⟩, [(u, d.current)], results, ?_⟩
  · rw [hscans.moments, List.append_nil]
    rfl
  · refine ⟨hscans.uses, hresults, ?_, ?_, ?_⟩
    · rw [due_of_not_atEnd (Use.kind_ne_of_fits hu)]
      exact hfuture
    · rw [htokens]
      rfl
    · rintro _ (_ | ⟨_, ⟨⟩⟩)
      exact hu

/-- A call within the limit, of which the rest is a part of a descent, is one as a whole, and is
noted. A call of `unary` is one more. -/
theorem Leads.call {p : Procedure} (hdepth : d.depth ≤ nestingLimit)
    (h : (d.enter p).Leads unaries d') (hdepth' : d'.depth = d.depth) :
    d.Leads (unaries + if p = .unary then 1 else 0) d'.leave ∧ d.entry p ∈ d'.leave.moments := by
  obtain ⟨hactive, ⟨moments, hmoments, hwithin⟩, uses, results, hconsumes⟩ := h
  have hleave :
      d'.leave.moments = d.moments ++ d.entry p :: (moments ++ [⟨d.depth, d.active⟩]) := by
    have hentry : (d.enter p).moments = d.moments ++ [d.entry p] := rfl
    change d'.moments ++ [⟨d'.depth, d'.active.tail⟩] = _
    rw [hdepth', hactive, hmoments, hentry, List.append_assoc, List.append_assoc]
    rfl
  have hdepth_le : d.depth ≤ nestingLimit + 1 := Nat.le_succ_of_le hdepth
  refine ⟨⟨congrArg List.tail hactive, ⟨_, hleave, fun m hm => ?_⟩, uses, results,
    hconsumes.uses_eq, hconsumes.scans_eq, hconsumes.due_eq, hconsumes.tokens_eq,
    hconsumes.fits⟩, ?_⟩
  · rw [List.mem_cons, List.mem_append, List.mem_singleton] at hm
    rcases hm with rfl | hm | rfl
    · exact .of_call (c := ⟨p, d.depth⟩) hdepth (.of_active_eq hdepth_le rfl)
    · exact .of_call hdepth (hwithin m hm)
    · exact .of_active_eq hdepth_le rfl
  · rw [hleave]
    exact List.mem_append_right _ List.mem_cons_self

end Descent

end Calculator
