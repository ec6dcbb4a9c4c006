import Mathlib.Data.Nat.Notation
import Mathlib.Tactic.ByContra
import Calculator.Layout

/-!
# What layout is made of

A gap between two tokens is made up of blanks, line comments with the newline that ends them, and
block comments (`Layout.IsGap`). A block comment is described by its delimiters alone: read from
left to right behind the opening one, so that no character belongs to two of them, they are in
balance for the first time at its end (`Mark.Closes`). In front of the end of the source a line
comment needs no newline, and a block comment whose delimiters never come into balance is
unterminated.

`Layout.skip_gap` says that skipping layout passes over every gap, whatever stands behind it, and
`Layout.exists_gap` that every text is a gap and then either the end, something that is no layout,
or a comment that goes on to the end.
-/

namespace Calculator

/-! ## The delimiters of block comments -/

/-- What the text of a block comment consists of. -/
inductive Mark where
  /-- The delimiter that opens a comment. -/
  | opening
  /-- The delimiter that closes a comment. -/
  | closing
  /-- Any other character. -/
  | other
  deriving DecidableEq

namespace Mark

/-- The marks of a text, read from left to right. -/
def ofText : List Char → List Mark
  | '/' :: '*' :: cs => opening :: ofText cs
  | '*' :: '/' :: cs => closing :: ofText cs
  | _ :: cs => other :: ofText cs
  | [] => []

/-- With `k` comments open in front of them, one is open behind the marks. -/
def LeaveOpen (k : ℕ) (ms : List Mark) : Prop := ms.count closing < ms.count opening + k

/-- With `k` comments open in front of them, the marks are balanced for the first time at their
end. -/
structure Closes (k : ℕ) (ms : List Mark) : Prop where
  /-- As many comments are closed as were open or are opened. -/
  balanced : ms.count closing = ms.count opening + k
  /-- A comment is open anywhere in front of the end. -/
  first : ∀ front, front <+: ms → front ≠ ms → LeaveOpen k front

/-- With `k` comments open in front of them, the marks are never balanced. -/
def NeverCloses (k : ℕ) (ms : List Mark) : Prop := ∀ front, front <+: ms → LeaveOpen k front

/-- The number of comments that are open behind a mark, if `k` are open in front of it. -/
def openBehind (k : ℕ) : Mark → ℕ
  | opening => k + 1
  | closing => k - 1
  | other => k

variable {k : ℕ} {m : Mark} {ms : List Mark}

/-- With no comment open nothing is left to be closed. -/
theorem closes_zero_iff : Closes 0 ms ↔ ms = [] := by
  constructor
  · intro h
    by_contra hne
    have hnil : LeaveOpen 0 [] := h.first [] ⟨ms, rfl⟩ (Ne.symm hne)
    simp [LeaveOpen] at hnil
  · rintro rfl
    exact ⟨rfl, fun front hfront hne => absurd (List.prefix_nil.1 hfront) hne⟩

/-- Marks are balanced if those behind the first one are, for the comments open there. -/
theorem balanced_cons_iff (hk : 0 < k) :
    (m :: ms).count closing = (m :: ms).count opening + k ↔
      ms.count closing = ms.count opening + m.openBehind k := by
  cases m <;> simp [openBehind] <;> omega

/-- Marks leave a comment open if those behind the first one do, for the comments open there. -/
theorem leaveOpen_cons_iff (hk : 0 < k) :
    LeaveOpen k (m :: ms) ↔ LeaveOpen (m.openBehind k) ms := by
  unfold LeaveOpen
  cases m <;> simp [openBehind] <;> omega

/-- Marks close all comments if those behind the first one do, for the comments open there. -/
theorem closes_cons_iff (hk : 0 < k) : Closes k (m :: ms) ↔ Closes (m.openBehind k) ms := by
  constructor
  · rintro ⟨hbalanced, hfirst⟩
    refine ⟨(balanced_cons_iff hk).1 hbalanced, fun front hfront hne => ?_⟩
    exact (leaveOpen_cons_iff hk).1
      (hfirst (m :: front) (List.cons_prefix_cons.2 ⟨rfl, hfront⟩) (by simpa using hne))
  · rintro ⟨hbalanced, hfirst⟩
    refine ⟨(balanced_cons_iff hk).2 hbalanced, fun front hfront hne => ?_⟩
    rcases List.prefix_cons_iff.1 hfront with rfl | ⟨front', rfl, hfront'⟩
    · simpa [LeaveOpen] using hk
    · exact (leaveOpen_cons_iff hk).2 (hfirst front' hfront' (by simpa using hne))

/-- Marks never close all comments if those behind the first one never do, for the comments open
there. -/
theorem neverCloses_cons_iff (hk : 0 < k) :
    NeverCloses k (m :: ms) ↔ NeverCloses (m.openBehind k) ms := by
  constructor
  · intro h front hfront
    exact (leaveOpen_cons_iff hk).1 (h (m :: front) (List.cons_prefix_cons.2 ⟨rfl, hfront⟩))
  · intro h front hfront
    rcases List.prefix_cons_iff.1 hfront with rfl | ⟨front', rfl, hfront'⟩
    · simpa [LeaveOpen] using hk
    · exact (leaveOpen_cons_iff hk).2 (h front' hfront')

/-- No marks leave open what is open. -/
theorem neverCloses_nil (hk : 0 < k) : NeverCloses k [] := by
  intro front hfront
  rw [List.prefix_nil.1 hfront]
  simpa [LeaveOpen] using hk

/-- Only the empty text has no marks. -/
theorem ofText_eq_nil_iff {cs : List Char} : ofText cs = [] ↔ cs = [] := by
  fun_cases ofText cs <;> simp

/-- A character that starts no delimiter is a mark by itself. -/
theorem ofText_cons {c : Char} {cs : List Char} (hopening : ∀ ds, c = '/' → cs ≠ '*' :: ds)
    (hclosing : ∀ ds, c = '*' → cs ≠ '/' :: ds) : ofText (c :: cs) = other :: ofText cs := by
  rw [ofText]
  · exact fun ds hc hcs => hopening ds hc hcs
  · exact fun ds hc hcs => hclosing ds hc hcs

/-- Every text either starts with a text that closes all comments, or never closes them. -/
theorem exists_closes (cs : List Char) (hk : 0 < k) :
    (∃ body rest, cs = body ++ rest ∧ Closes k (ofText body)) ∨ NeverCloses k (ofText cs) := by
  fun_induction ofText cs generalizing k with
  | case1 cs ih =>
    rcases ih (Nat.succ_pos k) with ⟨body, rest, rfl, hbody⟩ | hnever
    · exact .inl ⟨'/' :: '*' :: body, rest, rfl, (closes_cons_iff hk).2 hbody⟩
    · exact .inr ((neverCloses_cons_iff hk).2 hnever)
  | case2 cs ih =>
    -- The last comment that is open is closed right here, whatever follows.
    rcases Nat.eq_or_lt_of_le (Nat.succ_le_of_lt hk) with rfl | hk'
    · exact .inl ⟨['*', '/'], cs, rfl, (closes_cons_iff hk).2 (closes_zero_iff.2 rfl)⟩
    · rcases ih (Nat.sub_pos_of_lt hk') with ⟨body, rest, rfl, hbody⟩ | hnever
      · exact .inl ⟨'*' :: '/' :: body, rest, rfl, (closes_cons_iff hk).2 hbody⟩
      · exact .inr ((neverCloses_cons_iff hk).2 hnever)
  | case3 c cs hopening hclosing ih =>
    rcases ih hk with ⟨body, rest, rfl, hbody⟩ | hnever
    · refine .inl ⟨c :: body, rest, rfl, ?_⟩
      rw [ofText_cons (fun ds hc hds => hopening (ds ++ rest) hc (by rw [hds, List.cons_append]))
        (fun ds hc hds => hclosing (ds ++ rest) hc (by rw [hds, List.cons_append]))]
      exact (closes_cons_iff hk).2 hbody
    · exact .inr ((neverCloses_cons_iff hk).2 hnever)
  | case4 => exact .inr (neverCloses_nil hk)

end Mark

/-! ## Pieces of layout -/

/-- A piece of layout. -/
inductive Layout.Piece : List Char → Prop where
  /-- A blank. -/
  | blank {c : Char} (isBlank : Character.isBlank c = true) : Piece [c]
  /-- A line comment, up to the first newline. -/
  | line {body : List Char} (noNewline : '\n' ∉ body) : Piece ('/' :: '/' :: (body ++ ['\n']))
  /-- A block comment, up to the delimiter that balances the opening one. -/
  | block {body : List Char} (closes : Mark.Closes 1 (Mark.ofText body)) :
      Piece ('/' :: '*' :: body)

/-- Layout between two tokens: pieces one after the other. -/
inductive Layout.IsGap : List Char → Prop where
  | nil : IsGap []
  | append {piece gap : List Char} (isPiece : Piece piece) (isGap : IsGap gap) :
      IsGap (piece ++ gap)

/-- Layout in front of the end of the source, where a line comment needs no newline. -/
inductive Layout.IsLastGap : List Char → Prop where
  | closed {gap : List Char} (isGap : IsGap gap) : IsLastGap gap
  | openLine {gap body : List Char} (isGap : IsGap gap) (noNewline : '\n' ∉ body) :
      IsLastGap (gap ++ '/' :: '/' :: body)

namespace Layout

/-- A piece of layout is a gap. -/
theorem Piece.isGap {piece : List Char} (h : Piece piece) : IsGap piece := by
  simpa using IsGap.append h .nil

/-- A piece of layout in front of the last gap belongs to it. -/
theorem IsLastGap.append_piece {piece gap : List Char} (hpiece : Piece piece) (h : IsLastGap gap) :
    IsLastGap (piece ++ gap) := by
  cases h with
  | closed isGap => exact .closed (.append hpiece isGap)
  | openLine isGap noNewline =>
    rw [← List.append_assoc]
    exact .openLine (.append hpiece isGap) noNewline

/-- Two gaps one after the other are a gap. -/
theorem IsGap.trans {gap gap' : List Char} (h : IsGap gap) (h' : IsGap gap') :
    IsGap (gap ++ gap') := by
  induction h with
  | nil => exact h'
  | append isPiece _ ih =>
    rw [List.append_assoc]
    exact .append isPiece ih

/-- A newline behind the last gap, which ends the comment that this may end with, makes it a gap. -/
theorem IsLastGap.newline {gap : List Char} (h : IsLastGap gap) : IsGap (gap ++ ['\n']) := by
  cases h with
  | closed isGap => exact isGap.trans (Piece.isGap (.blank (by decide)))
  | openLine isGap noNewline =>
    rw [List.append_assoc]
    exact isGap.trans (Piece.isGap (.line noNewline))

/-- No layout starts here. -/
def IsBare : List Char → Prop
  | '/' :: '/' :: _ => False
  | '/' :: '*' :: _ => False
  | c :: _ => Character.isBlank c = false
  | [] => True

variable {p start : Position} {inner : ℕ} {c : Char} {cs body rest : List Char}

/-! ### Single steps of skipping layout

Each of them is one equation of `skip`, so that the lemmas below need not unfold it. -/

/-- Two slashes start a line comment. -/
theorem skip_slashes :
    blanks.skip ('/' :: '/' :: cs) p = lineComment.skip cs (p.advance ['/', '/']) := rfl

/-- A slash and a star start a block comment. -/
theorem skip_opening :
    blanks.skip ('/' :: '*' :: cs) p = (blockComment p 0).skip cs (p.advance ['/', '*']) := rfl

/-- What starts no comment is skipped if it is a blank. -/
theorem skip_cons (hline : ∀ ds, c = '/' → cs ≠ '/' :: ds)
    (hblock : ∀ ds, c = '/' → cs ≠ '*' :: ds) :
    blanks.skip (c :: cs) p =
      if Character.isBlank c then blanks.skip cs (p.after c) else (none, ⟨c :: cs, p⟩) := by
  rw [skip]
  · exact fun ds hc hcs => hline ds hc hcs
  · exact fun ds hc hcs => hblock ds hc hcs

/-- A newline ends a line comment. -/
theorem skip_lineComment_cons : lineComment.skip (c :: cs) p =
    if c = '\n' then blanks.skip cs (p.after c) else lineComment.skip cs (p.after c) := by
  rw [skip]

/-- A slash and a star start a comment in a block comment. -/
theorem skip_blockComment_opening : (blockComment start inner).skip ('/' :: '*' :: cs) p =
    (blockComment start (inner + 1)).skip cs (p.advance ['/', '*']) := rfl

/-- A star and a slash close a comment in a block comment. -/
theorem skip_blockComment_closing : (blockComment start (inner + 1)).skip ('*' :: '/' :: cs) p =
    (blockComment start inner).skip cs (p.advance ['*', '/']) := rfl

/-- A star and a slash close a block comment in which no other is open. -/
theorem skip_blockComment_last : (blockComment start 0).skip ('*' :: '/' :: cs) p =
    blanks.skip cs (p.advance ['*', '/']) := rfl

/-- In a block comment a character that starts no delimiter is skipped by itself. -/
theorem skip_blockComment_cons (hopening : ∀ ds, c = '/' → cs ≠ '*' :: ds)
    (hclosing : ∀ ds, c = '*' → cs ≠ '/' :: ds) :
    (blockComment start inner).skip (c :: cs) p =
      (blockComment start inner).skip cs (p.after c) := by
  rw [skip]
  · exact fun ds hc hcs => hopening ds hc hcs
  · exact fun _ ds _ hc hcs => hclosing ds hc hcs
  · exact fun ds _ hc hcs => hclosing ds hc hcs

/-! ### What skipping layout passes over -/

/-- A line comment is skipped up to its newline. -/
theorem skip_lineComment_append (h : '\n' ∉ body) :
    lineComment.skip (body ++ '\n' :: rest) p = blanks.skip rest (p.advance (body ++ ['\n'])) := by
  induction body generalizing p with
  | nil =>
    rw [List.nil_append, skip_lineComment_cons, if_pos rfl]
    rfl
  | cons c body ih =>
    simp only [List.mem_cons, not_or] at h
    rw [List.cons_append, skip_lineComment_cons, if_neg (Ne.symm h.1), ih h.2, List.cons_append,
      Position.advance_cons]

/-- Without a newline a line comment goes on to the end of the source. -/
theorem skip_lineComment (h : '\n' ∉ cs) : lineComment.skip cs p = (none, ⟨[], p.advance cs⟩) := by
  induction cs generalizing p with
  | nil => rfl
  | cons c cs ih =>
    simp only [List.mem_cons, not_or] at h
    rw [skip_lineComment_cons, if_neg (Ne.symm h.1), ih h.2, Position.advance_cons]

/-- A block comment is skipped up to the delimiter that closes the last comment in it. -/
theorem skip_blockComment_append (h : Mark.Closes (inner + 1) (Mark.ofText body)) :
    (blockComment start inner).skip (body ++ rest) p = blanks.skip rest (p.advance body) := by
  fun_induction Mark.ofText body generalizing inner p with
  | case1 cs ih =>
    have hcs := (Mark.closes_cons_iff (Nat.succ_pos inner)).1 h
    calc (blockComment start inner).skip ('/' :: '*' :: (cs ++ rest)) p
        = (blockComment start (inner + 1)).skip (cs ++ rest) (p.advance ['/', '*']) :=
          skip_blockComment_opening
      _ = blanks.skip rest (p.advance ('/' :: '*' :: cs)) := ih hcs
  | case2 cs ih =>
    have hcs := (Mark.closes_cons_iff (Nat.succ_pos inner)).1 h
    cases inner with
    | zero =>
      -- The outermost comment is closed, so that this is the end of the text.
      have hnil : cs = [] := Mark.ofText_eq_nil_iff.1 (Mark.closes_zero_iff.1 hcs)
      subst hnil
      exact skip_blockComment_last
    | succ inner =>
      calc (blockComment start (inner + 1)).skip ('*' :: '/' :: (cs ++ rest)) p
          = (blockComment start inner).skip (cs ++ rest) (p.advance ['*', '/']) :=
            skip_blockComment_closing
        _ = blanks.skip rest (p.advance ('*' :: '/' :: cs)) := ih hcs
  | case3 c cs hopening hclosing ih =>
    have hcs := (Mark.closes_cons_iff (Nat.succ_pos inner)).1 h
    -- What is closed goes on, so that the next character is one of the comment.
    obtain ⟨d, cs', rfl⟩ : ∃ d cs', cs = d :: cs' := List.exists_cons_of_ne_nil fun hnil => by
      have := hcs.balanced
      simp [hnil, Mark.ofText, Mark.openBehind] at this
    have hstart : (blockComment start inner).skip (c :: (d :: cs' ++ rest)) p =
        (blockComment start inner).skip (d :: cs' ++ rest) (p.after c) := by
      apply skip_blockComment_cons
      · intro ds hc hds
        exact hopening cs' hc (by rw [(List.cons.inj hds).1])
      · intro ds hc hds
        exact hclosing cs' hc (by rw [(List.cons.inj hds).1])
    calc (blockComment start inner).skip (c :: (d :: cs' ++ rest)) p
        = (blockComment start inner).skip (d :: cs' ++ rest) (p.after c) := hstart
      _ = blanks.skip rest (p.advance (c :: d :: cs')) := ih hcs
  | case4 =>
    have := h.balanced
    simp at this

/-- A block comment that is never closed goes on to the end of the source. -/
theorem skip_blockComment (h : Mark.NeverCloses (inner + 1) (Mark.ofText cs)) :
    (blockComment start inner).skip cs p = (some start, ⟨[], p.advance cs⟩) := by
  fun_induction Mark.ofText cs generalizing inner p with
  | case1 cs ih =>
    have hcs := (Mark.neverCloses_cons_iff (Nat.succ_pos inner)).1 h
    rw [skip_blockComment_opening, ih hcs]
    rfl
  | case2 cs ih =>
    have hcs := (Mark.neverCloses_cons_iff (Nat.succ_pos inner)).1 h
    cases inner with
    | zero =>
      -- With no comment open nothing is left open.
      have hopen : Mark.LeaveOpen 0 [] := hcs [] ⟨Mark.ofText cs, rfl⟩
      simp [Mark.LeaveOpen] at hopen
    | succ inner =>
      rw [skip_blockComment_closing, ih hcs]
      rfl
  | case3 c cs hopening hclosing ih =>
    have hcs := (Mark.neverCloses_cons_iff (Nat.succ_pos inner)).1 h
    rw [skip_blockComment_cons hopening hclosing, ih hcs, Position.advance_cons]
  | case4 => rfl

/-- A blank is skipped. -/
theorem skip_blank (h : Character.isBlank c = true) :
    blanks.skip (c :: rest) p = blanks.skip rest (p.after c) := by
  have hslash : c ≠ '/' := by
    rintro rfl
    exact absurd h (by decide)
  rw [skip_cons (fun ds hc => absurd hc hslash) (fun ds hc => absurd hc hslash), if_pos h]

/-- A piece of layout is skipped, whatever stands behind it. -/
theorem skip_piece {piece : List Char} (h : Piece piece) :
    blanks.skip (piece ++ rest) p = blanks.skip rest (p.advance piece) := by
  cases h with
  | blank isBlank => exact skip_blank isBlank
  | @line body noNewline =>
    have happend : body ++ ['\n'] ++ rest = body ++ '\n' :: rest := by simp
    rw [List.cons_append, List.cons_append, happend, skip_slashes,
      skip_lineComment_append noNewline]
    rfl
  | block closes =>
    rw [List.cons_append, List.cons_append, skip_opening, skip_blockComment_append closes]
    rfl

/-- A gap is skipped, whatever stands behind it. -/
theorem skip_gap {gap : List Char} (h : IsGap gap) :
    blanks.skip (gap ++ rest) p = blanks.skip rest (p.advance gap) := by
  induction h generalizing p with
  | nil => rfl
  | append isPiece _ ih => rw [List.append_assoc, skip_piece isPiece, ih, Position.advance_append]

/-- Where no layout starts nothing is skipped. -/
theorem skip_bare (h : IsBare cs) : blanks.skip cs p = (none, ⟨cs, p⟩) := by
  unfold IsBare at h
  split at h
  · exact h.elim
  · exact h.elim
  · next c rest hline hblock =>
    rw [skip_cons (fun ds hc hds => hline ds hc hds) (fun ds hc hds => hblock ds hc hds),
      if_neg (by simp [h])]
  · rfl

/-- Layout in front of the end of the source is skipped. -/
theorem skip_lastGap {gap : List Char} (h : IsLastGap gap) :
    blanks.skip gap p = (none, ⟨[], p.advance gap⟩) := by
  cases h with
  | closed isGap =>
    have hskip : blanks.skip (gap ++ []) p = blanks.skip [] (p.advance gap) := skip_gap isGap
    rwa [List.append_nil] at hskip
  | openLine isGap noNewline =>
    rw [skip_gap isGap, skip_slashes, skip_lineComment noNewline, Position.advance_append]
    rfl

/-- A block comment that is never closed is skipped to the end of the source, and where it starts
is noticed. -/
theorem skip_unterminated {gap : List Char} (hgap : IsGap gap)
    (h : Mark.NeverCloses 1 (Mark.ofText body)) :
    blanks.skip (gap ++ '/' :: '*' :: body) p =
      (some (p.advance gap), ⟨[], p.advance (gap ++ '/' :: '*' :: body)⟩) := by
  rw [skip_gap hgap, skip_opening, skip_blockComment h, Position.advance_append]
  rfl

/-! ### Every text starts with a gap -/

/-- What can stand behind a gap. -/
inductive Stops : List Char → Prop where
  /-- The end of the source, or something that is no layout. -/
  | bare {cs : List Char} (isBare : IsBare cs) : Stops cs
  /-- A line comment that goes on to the end of the source. -/
  | openLine {body : List Char} (noNewline : '\n' ∉ body) : Stops ('/' :: '/' :: body)
  /-- A block comment that is never closed. -/
  | unterminated {body : List Char} (never : Mark.NeverCloses 1 (Mark.ofText body)) :
      Stops ('/' :: '*' :: body)

/-- A text that starts with a piece of layout starts with a gap if what is behind the piece does. -/
theorem exists_gap_append {piece : List Char} (hpiece : Piece piece)
    (h : ∃ gap rest, cs = gap ++ rest ∧ IsGap gap ∧ Stops rest) :
    ∃ gap rest, piece ++ cs = gap ++ rest ∧ IsGap gap ∧ Stops rest := by
  obtain ⟨gap, rest, rfl, hgap, hrest⟩ := h
  exact ⟨piece ++ gap, rest, (List.append_assoc _ _ _).symm, .append hpiece hgap, hrest⟩

/-- Every text starts with a gap behind which layout stops. -/
theorem exists_gap (cs : List Char) : ∃ gap rest, cs = gap ++ rest ∧ IsGap gap ∧ Stops rest := by
  -- The cases are those of a place without a comment; behind a comment fewer characters are left.
  induction hn : cs.length using Nat.strongRecOn generalizing cs with
  | ind n ih =>
    subst hn
    by_cases hbare : IsBare cs
    · exact ⟨[], cs, rfl, .nil, .bare hbare⟩
    unfold IsBare at hbare
    split at hbare
    · next cs =>
      by_cases hnewline : '\n' ∈ cs
      · obtain ⟨body, rest, rfl, hbody⟩ := List.eq_append_cons_of_mem hnewline
        have hrest := ih rest.length (by simp; omega) rest rfl
        simpa using exists_gap_append (.line hbody) hrest
      · exact ⟨[], _, rfl, .nil, .openLine hnewline⟩
    · next cs =>
      rcases Mark.exists_closes cs Nat.one_pos with ⟨body, rest, rfl, hbody⟩ | hnever
      · have hrest := ih rest.length (by simp; omega) rest rfl
        exact exists_gap_append (.block hbody) hrest
      · exact ⟨[], _, rfl, .nil, .unterminated hnever⟩
    · next c cs _ _ =>
      have hrest := ih cs.length (by simp) cs rfl
      exact exists_gap_append (.blank (Bool.not_eq_false _ ▸ hbare)) hrest
    · exact absurd trivial hbare

end Layout

end Calculator
