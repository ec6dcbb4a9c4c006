import Mathlib.Tactic.ByContra
import Calculator.Proofs.Reading.Run

/-!
# The reports of a reading

A reading reports the errors of the scan as it passes over them, and faults of tokens until one of
them makes it lose its place. So the errors of the scan among its reports are those of everything it
has passed over, there is at most one report of a lost place, and behind that one there are errors
of the scan only (`Reading.Disciplined`). Every step keeps this (`Reading.Leads.disciplined`), and
no report is ever taken back (`Reading.Leads.prefix_reports`).
-/

namespace Calculator

/-- The error of the scan that a diagnostic is about. -/
def Diagnostic.scanError? : Diagnostic → Option ScanError
  | .lexical error => some error
  | _ => none

/-- The token at which the reader lost its place, with the fault. -/
def Diagnostic.loss? : Diagnostic → Option (Token × SyntaxFault)
  | .syntactic token fault => if fault.losesPlace then some (token, fault) else none
  | _ => none

namespace Reading

variable {r r' : Reading} {s : TokenStream}

/-- The reports of lost places. -/
def losses (r : Reading) : List (Token × SyntaxFault) :=
  r.diagnostics.toList.filterMap Diagnostic.loss?

/-- The reports of errors of the scan. -/
def scanErrors (r : Reading) : List ScanError :=
  r.diagnostics.toList.filterMap Diagnostic.scanError?

/-- A loss is a report of a fault with which the place is lost. -/
theorem mem_losses_iff {token : Token} {f : SyntaxFault} :
    (token, f) ∈ r.losses ↔
      .syntactic token f ∈ r.diagnostics.toList ∧ f.losesPlace = true := by
  rw [losses, List.mem_filterMap]
  constructor
  · rintro ⟨d, hd, hloss⟩
    cases d with
    | syntactic token' f' =>
      simp only [Diagnostic.loss?, Option.ite_none_right_eq_some, Option.some_inj,
        Prod.mk.injEq] at hloss
      obtain ⟨hloses, rfl, rfl⟩ := hloss
      exact ⟨hd, hloses⟩
    | _ => cases hloss
  · rintro ⟨hd, hloses⟩
    exact ⟨_, hd, if_pos hloses⟩

/-! ## What a step reports -/

/-- The reports of bringing the next token into view are the errors of the scan in front of it. -/
theorem reports_advance (r : Reading) :
    r.advance.diagnostics.toList = r.diagnostics.toList ++ r.stream.next.1.map .lexical :=
  Diagnostics.toList_reportAll _ _

/-- Bringing the next token into view loses no place. -/
@[simp] theorem losses_advance (r : Reading) : r.advance.losses = r.losses := by
  rw [losses, reports_advance, List.filterMap_append, List.filterMap_map]
  simp [Function.comp_def, Diagnostic.loss?, losses]

/-- Bringing the next token into view reports the errors of the scan in front of it. -/
theorem scanErrors_advance (r : Reading) :
    r.advance.scanErrors = r.scanErrors ++ r.stream.next.1 := by
  rw [scanErrors, reports_advance, List.filterMap_append, List.filterMap_map]
  simp [Function.comp_def, Diagnostic.scanError?, scanErrors]

/-- A fault is reported as long as the place is not lost. -/
theorem reports_fault (h : r.lost = false) (token : Token) (f : SyntaxFault) :
    (r.fault token f).diagnostics.toList = r.diagnostics.toList ++ [.syntactic token f] := by
  simp [fault, h]

/-- A fault with which the place is lost is a loss. -/
theorem losses_fault (h : r.lost = false) (token : Token) {f : SyntaxFault}
    (hf : f.losesPlace = true) : (r.fault token f).losses = r.losses ++ [(token, f)] := by
  rw [losses, reports_fault h, List.filterMap_append]
  simp [Diagnostic.loss?, hf, losses]

/-- A fault with which the place is not lost is no loss. -/
theorem losses_fault_of_not (h : r.lost = false) (token : Token) {f : SyntaxFault}
    (hf : f.losesPlace = false) : (r.fault token f).losses = r.losses := by
  rw [losses, reports_fault h, List.filterMap_append]
  simp [Diagnostic.loss?, hf, losses]

/-- A fault is no error of the scan. -/
@[simp] theorem scanErrors_fault (r : Reading) (token : Token) (f : SyntaxFault) :
    (r.fault token f).scanErrors = r.scanErrors := by
  cases hl : r.lost with
  | false =>
    rw [scanErrors, reports_fault hl, List.filterMap_append]
    simp [Diagnostic.scanError?, scanErrors]
  | true => rw [fault_of_lost hl]

/-- A fault takes the place if it is not lost yet and this is such a fault. -/
theorem lost_fault (h : r.lost = false) (token : Token) (f : SyntaxFault) :
    (r.fault token f).lost = f.losesPlace := by
  simp [fault, h]

/-- A step only adds to the reports. -/
theorem Step.prefix_reports (h : Step r r') :
    r.diagnostics.toList <+: r'.diagnostics.toList := by
  cases h with
  | advance _ =>
    rw [reports_advance]
    exact List.prefix_append _ _
  | fault token f =>
    cases hl : r.lost with
    | false =>
      rw [reports_fault hl]
      exact List.prefix_append _ _
    | true => simp [fault_of_lost hl]

/-- Steps only add to the reports. -/
theorem Leads.prefix_reports (h : r.Leads r') :
    r.diagnostics.toList <+: r'.diagnostics.toList := by
  induction h with
  | refl => exact List.prefix_rfl
  | tail _ hstep ih => exact ih.trans hstep.prefix_reports

/-! ## The discipline of the reports -/

/-- The reports of a reading of the stream `s` agree with its marks and with what it has passed
over. -/
structure Disciplined (s : TokenStream) (r : Reading) : Prop
    extends r.Consistent, r.Follows s where
  /-- The errors of the scan are those of everything passed over, in the same order. -/
  scanned : ∃ passed, s.ahead = passed ++ r.stream.ahead ∧
    r.scanErrors = TokenStream.errors ⟨passed, s.ending⟩
  /-- The place is lost exactly if that was reported. -/
  lost_iff : r.lost = true ↔ r.losses ≠ []
  /-- The place is lost once. -/
  losses_le : r.losses.length ≤ 1
  /-- Behind a lost place only errors of the scan are reported. -/
  behind : r.diagnostics.toList.Pairwise fun d e =>
    d.loss?.isSome = true → e.scanError?.isSome = true

/-- Before the first token nothing was reported. -/
theorem disciplined_start (s : TokenStream) : (start s).Disciplined s where
  toConsistent := consistent_start s
  toFollows := follows_start s
  scanned := ⟨[], rfl, rfl⟩
  lost_iff := by simp [start, losses]
  losses_le := Nat.zero_le _
  behind := .nil

/-- As long as the place is not lost no report is a loss. -/
theorem Disciplined.losses_eq_nil (h : r.Disciplined s) (hl : r.lost = false) : r.losses = [] := by
  by_contra hne
  rw [h.lost_iff.2 hne] at hl
  cases hl

/-- Bringing the next token into view passes over the errors in front of it and, in front of the
end, over the token. -/
theorem exists_passed_advance (h : .error .unexpectedEnd ∉ r.stream.ahead) :
    ∃ passed, r.stream.ahead = passed ++ r.advance.stream.ahead ∧
      r.stream.next.1 = TokenStream.errors ⟨passed, r.stream.ending⟩ := by
  have hahead : r.advance.stream.ahead =
      (TokenStream.nextOf r.stream.ending r.stream.ahead).2.2 := rfl
  have herrors : r.stream.next.1 = (TokenStream.nextOf r.stream.ending r.stream.ahead).1 := rfl
  have hcases := TokenStream.nextOf_cases r.stream.ending h
  rw [hahead, herrors]
  generalize TokenStream.nextOf r.stream.ending r.stream.ahead = n at hcases ⊢
  rcases hcases with heq | ⟨heq, -, hnil⟩
  · refine ⟨n.1.map .error ++ [.ok n.2.1], by simpa using heq, ?_⟩
    rw [TokenStream.errors_append, TokenStream.errors_map_error, TokenStream.errors_cons_ok]
    exact (List.append_nil _).symm
  · exact ⟨n.1.map .error, by simpa [hnil] using heq, (TokenStream.errors_map_error _).symm⟩

/-- Bringing the next token into view keeps the discipline, even at the end of the source. -/
theorem Disciplined.advance (hs : s.Proper) (h : r.Disciplined s) : r.advance.Disciplined s where
  toConsistent := h.toConsistent.advance
  toFollows := h.toFollows.advance hs
  scanned := by
    obtain ⟨passed, hpassed, hscan⟩ := h.scanned
    have hnoEnd : .error .unexpectedEnd ∉ r.stream.ahead := fun hmem =>
      hs.noEnd (by rw [hpassed]; exact List.mem_append_right _ hmem)
    obtain ⟨next, hnext, herrors⟩ := exists_passed_advance hnoEnd
    refine ⟨passed ++ next, ?_, ?_⟩
    · rw [hpassed, hnext, List.append_assoc]
    · rw [scanErrors_advance, hscan, herrors, h.ending, TokenStream.errors_append]
  lost_iff := by
    rw [losses_advance]
    exact h.lost_iff
  losses_le := by
    rw [losses_advance]
    exact h.losses_le
  behind := by
    rw [reports_advance, List.pairwise_append]
    -- Whatever is new is an error of the scan.
    have hnew : ∀ d : Diagnostic, ∀ e ∈ r.stream.next.1.map Diagnostic.lexical,
        d.loss?.isSome = true → e.scanError?.isSome = true := by
      intro d e he _
      obtain ⟨error, -, rfl⟩ := List.mem_map.1 he
      rfl
    exact ⟨h.behind, List.pairwise_of_forall_mem_list fun d _ => hnew d, fun d _ => hnew d⟩

/-- A fault keeps the discipline. -/
theorem Disciplined.fault (hs : s.Proper) (h : r.Disciplined s) (token : Token)
    (f : SyntaxFault) : (r.fault token f).Disciplined s := by
  cases hl : r.lost with
  | true => rwa [fault_of_lost hl]
  | false =>
    have hnone := h.losses_eq_nil hl
    refine
      { toConsistent := (Step.fault r token f).consistent h.toConsistent
        toFollows := (Step.fault r token f).follows hs h.toFollows
        scanned := ?_, lost_iff := ?_, losses_le := ?_, behind := ?_ }
    · rw [stream_fault, scanErrors_fault]
      exact h.scanned
    · rw [lost_fault hl]
      cases hf : f.losesPlace with
      | true => simp [losses_fault hl token hf]
      | false => simp [losses_fault_of_not hl token hf, hnone]
    · cases hf : f.losesPlace with
      | true => simp [losses_fault hl token hf, hnone]
      | false => simp [losses_fault_of_not hl token hf, hnone]
    · rw [reports_fault hl, List.pairwise_append]
      refine ⟨h.behind, List.pairwise_singleton _ _, fun d hd e _ hloss => ?_⟩
      -- Up to here no place was lost.
      rw [losses, List.filterMap_eq_nil_iff] at hnone
      simp [hnone d hd] at hloss

/-- Each step keeps the discipline. -/
theorem Step.disciplined (hs : s.Proper) (h : Step r r') (hr : r.Disciplined s) :
    r'.Disciplined s := by
  cases h with
  | advance _ => exact hr.advance hs
  | fault token f => exact hr.fault hs token f

/-- Steps keep the discipline. -/
theorem Leads.disciplined (hs : s.Proper) (h : r.Leads r') (hr : r.Disciplined s) :
    r'.Disciplined s := by
  induction h with
  | refl => exact hr
  | tail _ hstep ih => exact hstep.disciplined hs ih

end Reading

end Calculator
