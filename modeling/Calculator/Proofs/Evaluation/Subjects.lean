import Calculator.Proofs.Evaluation.Stages

/-!
# What reports are about

Every report about a source has its subject in the source (`Diagnostic.IsAbout`): an error that its
scan yields, a token that its scan yields, or its end. In particular the texts that a report quotes
are those of tokens of the source, and the operators that have no operation are such tokens.

The errors of the scan are reported when the reading passes over them, and what is reported beyond
these is a fault of the token in view. So the invariant of a reading says of the token in view that
it belongs to the source, too (`Reading.KeepsTo`).
-/

namespace Calculator

/-- The subject of the report is in the stream. -/
inductive Diagnostic.IsAbout (s : TokenStream) : Diagnostic → Prop where
  /-- An error of the scan. -/
  | lexical {e : ScanError} (mem : .error e ∈ s.ahead) : IsAbout s (.lexical e)
  /-- A token, or the end, is not allowed where it stands. -/
  | misplaced {t : Token} {f : SyntaxFault} (mem : t ∈ s.tokens ∨ t = s.ending)
      (losesPlace : f.losesPlace = true) : IsAbout s (.syntactic t f)
  /-- A number is out of range, and the report quotes it. -/
  | outOfRange {t : Token} (mem : t ∈ s.tokens) :
      IsAbout s (.syntactic t (.invalidNumber t.text))
  /-- An operator in front of its operand has no operation. -/
  | undefinedUnary {t : Token} {operand : Ty} (mem : t ∈ s.tokens) :
      IsAbout s (.undefinedUnary t.text operand)
  /-- An operator between its operands has no operation. -/
  | undefinedBinary {t : Token} {left right : Ty} (mem : t ∈ s.tokens) :
      IsAbout s (.undefinedBinary t.text left right)

/-- The errors in front of the next token are in the stream, and the token is in the stream or is
its end. -/
theorem TokenStream.mem_of_next {s : TokenStream} (h : .error .unexpectedEnd ∉ s.ahead) :
    (∀ e ∈ s.next.1, .error e ∈ s.ahead) ∧ (.ok s.next.2.1 ∈ s.ahead ∨ s.next.2.1 = s.ending) := by
  have hcases := nextOf_cases s.ending h
  unfold next
  generalize nextOf s.ending s.ahead = n at hcases ⊢
  dsimp only
  rcases hcases with heq | ⟨heq, ht, -⟩
  · rw [heq]
    exact ⟨fun e he => List.mem_append_left _ (List.mem_map_of_mem he),
      .inl (List.mem_append_right _ List.mem_cons_self)⟩
  · rw [heq]
    exact ⟨fun e he => List.mem_map_of_mem he, .inr ht⟩

/-! ## Reading -/

namespace Reading

/-- What the reading has in view and what it has reported belong to the stream. -/
structure KeepsTo (s : TokenStream) (r : Reading) : Prop where
  /-- The reading stands somewhere in the stream. -/
  follows : r.Follows s
  /-- In view is a token of the stream or its end. -/
  current : r.current ∈ s.tokens ∨ r.current = s.ending
  /-- Every report is about the stream. -/
  reports : ∀ d ∈ r.diagnostics.toList, d.IsAbout s

variable {s : TokenStream} {r : Reading}

/-- What comes into view belongs to the stream, whatever was in view before, and so do the errors
that are reported with it. -/
theorem keepsTo_advance (hs : s.Proper) (hr : r.Follows s)
    (hreports : ∀ d ∈ r.diagnostics.toList, d.IsAbout s) : r.advance.KeepsTo s := by
  obtain ⟨passed, hpassed, -⟩ := hr.passed
  have hahead : ∀ x ∈ r.stream.ahead, x ∈ s.ahead := fun x hx => by
    rw [hpassed]
    exact List.mem_append_right _ hx
  obtain ⟨herrors, htoken⟩ := TokenStream.mem_of_next fun hmem => hs.noEnd (hahead _ hmem)
  refine ⟨hr.advance hs, ?_, ?_⟩
  · change r.stream.next.2.1 ∈ s.tokens ∨ r.stream.next.2.1 = s.ending
    rw [TokenStream.mem_tokens, ← hr.ending]
    exact htoken.imp_left (hahead _)
  · change ∀ d ∈ (r.diagnostics.reportAll (r.stream.next.1.map .lexical)).toList, d.IsAbout s
    rw [Diagnostics.toList_reportAll, List.forall_mem_append, List.forall_mem_map]
    exact ⟨hreports, fun e he => .lexical (hahead _ (herrors e he))⟩

/-- A report about the stream changes nothing else, and may not even be made. -/
theorem KeepsTo.fault (hs : s.Proper) (h : r.KeepsTo s) {t : Token} {f : SyntaxFault}
    (hd : Diagnostic.IsAbout s (.syntactic t f)) : (r.fault t f).KeepsTo s := by
  refine ⟨?_, ?_, ?_⟩
  · exact (Step.fault r t f).follows hs h.follows
  · rw [current_fault]
    exact h.current
  · unfold Reading.fault
    split
    · exact h.reports
    · rw [Diagnostics.toList_report, List.forall_mem_append, List.forall_mem_singleton]
      exact ⟨h.reports, hd⟩

/-- Whatever a rule does to a reading by itself leaves it with reports about its stream. -/
theorem kept_keepsTo (hs : s.Proper) : Kept (KeepsTo s) where
  advance := fun h _ => keepsTo_advance hs h.follows h.reports
  faultHere := fun h hf => h.fault hs (.misplaced h.current hf)
  number := fun {r} h hk => by
    have hmem : r.current ∈ s.tokens := h.current.resolve_right fun hend => by
      -- The end of the stream is no number.
      rw [hend, hs.ending] at hk
      cases hk
    have hadv : r.advance.KeepsTo s := keepsTo_advance hs h.follows h.reports
    exact hadv.fault hs (.outOfRange hmem)

/-- Every report of the reading of a source is about the source. -/
theorem isAbout_of_mem_parse {source : String} :
    ∀ d ∈ (ofString source).parse.2.diagnostics.toList,
      d.IsAbout (TokenStream.ofString source) := by
  have hs := TokenStream.proper_ofString source
  have hkept := kept_keepsTo hs
  have hfirst : (ofString source).advance.KeepsTo (TokenStream.ofString source) :=
    keepsTo_advance hs (follows_start _) (List.forall_mem_nil _)
  have hterm : (ofString source).readTerm.2.KeepsTo (TokenStream.ofString source) :=
    (Rules.keeps_within hkept nestingLimit).term hfirst
  rw [parse_eq]
  dsimp only
  exact (hkept.finish hterm).reports

end Reading

/-! ## Binding -/

namespace ParseTree

variable {s : TokenStream} {x y : ParseTree} {operator : Token}

/-- Beyond those of its operand the offence of a tree is about its operator. -/
theorem isAbout_offences_unary (hoperator : operator ∈ s.tokens)
    (hx : ∀ d ∈ x.offences, d.IsAbout s) : ∀ d ∈ (unary operator x).offences, d.IsAbout s := by
  rw [offences, List.forall_mem_append]
  refine ⟨hx, ?_⟩
  split
  · exact List.forall_mem_singleton.2 (.undefinedUnary hoperator)
  · exact List.forall_mem_nil _

/-- Beyond those of its operands the offence of a tree is about its operator. -/
theorem isAbout_offences_binary (hoperator : operator ∈ s.tokens)
    (hx : ∀ d ∈ x.offences, d.IsAbout s) (hy : ∀ d ∈ y.offences, d.IsAbout s) :
    ∀ d ∈ (binary x operator y).offences, d.IsAbout s := by
  rw [offences, List.forall_mem_append, List.forall_mem_append]
  refine ⟨⟨hx, hy⟩, ?_⟩
  split
  · exact List.forall_mem_singleton.2 (.undefinedBinary hoperator)
  · exact List.forall_mem_nil _

end ParseTree

/-- The offences of the tree of a derivation are about tokens that it produces. -/
theorem Derivation.isAbout_offences {s : TokenStream} {symbol : Symbol} (p : Derivation symbol)
    (h : ∀ t ∈ p.tokens, t ∈ s.tokens) : ∀ d ∈ p.tree.offences, d.IsAbout s := by
  induction p with
  -- The sign of a literal is no operator.
  | number _ _ _ | boolean _ _ | least _ _ _ _ _ => exact List.forall_mem_nil _
  | parens opening inside closing _ _ ih => exact ih fun t ht => h t (by simp [tokens, ht])
  | ofPrimary x ih => exact ih h
  | signed sign _ x ih =>
    exact ParseTree.isAbout_offences_unary (h sign List.mem_cons_self)
      (ih fun t ht => h t (List.mem_cons_of_mem _ ht))
  | ofUnary x ih => exact ih h
  | product left operator _ right ihLeft ihRight | sum left operator _ right ihLeft ihRight =>
    exact ParseTree.isAbout_offences_binary (h operator (by simp [tokens]))
      (ihLeft fun t ht => h t (by simp [tokens, ht]))
      (ihRight fun t ht => h t (by simp [tokens, ht]))
  | ofFactor x ih => exact ih h

/-- Every report about a source is about what its scan yields. -/
theorem isAbout_of_mem_compile {source : String} {c : Compilation} (hc : compile source = .ok c) :
    ∀ d ∈ c.diagnostics.toList, d.IsAbout (TokenStream.ofString source) := by
  by_cases hread : (Reading.ofString source).parse.2.diagnostics.toList = []
  · -- The source is a sentence, so that the tree is that of a derivation from its tokens.
    obtain ⟨p, hp, htree⟩ := Reading.exists_derives_of_parse
      ((Reading.failed_parse_eq_false_iff source).2 hread)
    rw [compile_of_read hread, Except.ok.injEq] at hc
    rw [← hc, Diagnostics.toList_reportAll, Diagnostics.toList_empty, List.nil_append, htree]
    exact p.isAbout_offences fun t ht => by rwa [← hp.tokens]
  · rw [compile_of_reported hread, Except.ok.injEq] at hc
    rw [← hc]
    dsimp only
    exact Reading.isAbout_of_mem_parse

end Calculator
