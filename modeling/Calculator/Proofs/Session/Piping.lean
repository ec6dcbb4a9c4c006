import Calculator.CommandLine
import Calculator.Proofs.Evaluation.Stages
import Calculator.Proofs.Session.Bytes
import Calculator.Proofs.Session.Runs

/-!
# Expressions as arguments and as input

An expression can be given to the program as an argument, or as the only line of its input. What is
written is the same in both ways (`CommandLine.run_given_eq_run_piped`), as far as the line is heard
as the expression: a newline would divide it, a carriage return at its end would belong to the end
of the line, a blank line ends the session, and a command is not evaluated. The two ways differ in
the exit code, which says for an argument whether it has a value, and for an input whether it is
text.
-/

namespace Calculator

namespace Session

variable {s : Session} {text : String}

/-- An answer says that there is a value exactly if the expression evaluates to one. -/
theorem fst_answer_eq_true_iff (s : Session) (source : String) :
    (s.answer source).1 = true ↔ ∃ o v, evaluate source = .ok o ∧ o.value = some v := by
  unfold answer evaluate
  cases compile source with
  | error e => simp
  | ok c =>
    -- With reports an answer looks for no value, and an evaluation finds none.
    by_cases hfailed : c.failed = true
    · have heval : c.eval = .ok none :=
        Compilation.eval_of_reported (Compilation.failed_iff.1 hfailed)
      simp [hfailed, heval]
    · cases heval : c.eval with
      | error e => simp [hfailed, heval]
      | ok value => cases value <;> simp [hfailed, heval]

/-- A text that is no command is answered as an expression. -/
theorem reply_of_not_command (h : Line.trim text ∉ ["#showTree", "#showBoundTree", "#cls"]) :
    s.reply text = (s.answer text).2 := by
  simp only [List.mem_cons, List.not_mem_nil, or_false, not_or] at h
  rw [reply, if_neg h.1, if_neg h.2.1, if_neg h.2.2]

/-- Of a single line with a text a session hears the text. -/
theorem hears_ofText (hnewline : '\n' ∉ text.toList)
    (hreturn : text.toList.getLast? ≠ some '\r') (hblank : ¬ Line.IsBlank text) :
    Hears (Line.ofText text) [] [text] none := by
  have h : Hears (Line.ofText text ++ []) [] [text] none :=
    .text (Line.isFirst_ofText hnewline _) (Line.decode_ofText hreturn) hblank .ended
  rwa [List.append_nil] at h

/-- Without a prompt a session writes about a single line with an expression what it answers to the
expression, and it does not fail. -/
theorem run_ofText (hprompt : s.prompting = false) (hnewline : '\n' ∉ text.toList)
    (hreturn : text.toList.getLast? ≠ some '\r') (hblank : ¬ Line.IsBlank text)
    (hcommand : Line.trim text ∉ ["#showTree", "#showBoundTree", "#cls"]) :
    (s.run (Line.split (Line.ofText text))).reply = (s.answer text).2 ∧
      (s.run (Line.split (Line.ofText text))).error = none := by
  have hrun := run_of_hears (hears_ofText hnewline hreturn hblank) s
  rw [List.append_nil] at hrun
  have hsilent : s.prompt = .silent := by simp [prompt, hprompt]
  have hlast : (s.after [text]).prompt = .silent := by simp [prompt, after, hprompt]
  refine ⟨?_, by rw [hrun]⟩
  rw [hrun]
  calc s.written [text] = s.prompt ++ s.reply text ++ (s.after [text]).prompt := by
        rw [written_cons, written_nil]
    _ = (s.answer text).2 := by
        rw [hsilent, hlast, Reply.silent_append, Reply.append_silent, reply_of_not_command hcommand]

end Session

namespace CommandLine

/-- A run has the exit code of a success exactly if it succeeded. -/
theorem Run.exitCode_eq_zero_iff {r : Run} : r.exitCode = 0 ↔ r.succeeded = true := by
  unfold exitCode
  cases r.succeeded <;> decide

/-- The run of an expression that is given as an argument is the answer to it. -/
theorem runExpression_eq (o : Options) (expression : String) :
    runExpression o expression =
      ⟨((session o false).answer expression).2, ((session o false).answer expression).1⟩ := by
  unfold runExpression
  generalize (session o false).answer expression = a
  rfl

/-- With an expression as argument the program writes just what it writes without one if the
expression is the only line of its input, provided that the line is heard as the expression and is
no command. Its exit code says for the argument whether the expression has a value, and for the
input that it is text. -/
theorem run_given_eq_run_piped (text : String) (showTree showBoundTree : Bool)
    (hnewline : '\n' ∉ text.toList) (hreturn : text.toList.getLast? ≠ some '\r')
    (hblank : ¬ Line.IsBlank text)
    (hcommand : Line.trim text ∉ ["#showTree", "#showBoundTree", "#cls"]) (input : List UInt8) :
    let given := run ⟨some text, showTree, showBoundTree, false⟩ input
    let piped := run ⟨none, showTree, showBoundTree, false⟩ (Line.ofText text)
    given.reply = piped.reply ∧
      (given.exitCode = 0 ↔ ∃ o v, evaluate text = .ok o ∧ o.value = some v) ∧
      piped.exitCode = 0 := by
  intro given piped
  let s : Session := ⟨showTree, showBoundTree, false⟩
  obtain ⟨hreply, herror⟩ := s.run_ofText rfl hnewline hreturn hblank hcommand
  have hgiven : given = ⟨(s.answer text).2, (s.answer text).1⟩ := runExpression_eq _ text
  have hpiped : piped = ⟨(s.answer text).2, true⟩ := by
    change runSession _ _ _ = _
    unfold runSession
    change Run.mk ((s.run _).reply ++ failureReply (s.run _).error) (s.run _).error.isNone = _
    rw [hreply, herror, failureReply, Reply.append_silent, Option.isNone_none]
  rw [hgiven, hpiped, Run.exitCode_eq_zero_iff, Run.exitCode_eq_zero_iff]
  exact ⟨rfl, s.fst_answer_eq_true_iff text, rfl⟩

/-- Blanks at both ends and a carriage return count where a report says where it is, and a word that
only starts like a command is none. -/
theorem run_given_eq_run_piped_blanks :
    let text := "\u3000#cls\r+ true "
    let given := run ⟨some text, true, true, false⟩ []
    let piped := run ⟨none, true, true, false⟩ (Line.ofText text)
    '\n' ∉ text.toList ∧ text.toList.getLast? ≠ some '\r' ∧ ¬ Line.IsBlank text ∧
      Line.trim text ∉ ["#showTree", "#showBoundTree", "#cls"] ∧
      given.reply = piped.reply ∧
      (given.exitCode = 0 ↔ ∃ o v, evaluate text = .ok o ∧ o.value = some v) ∧
      piped.exitCode = 0 ∧
      piped.reply = ⟨"(Error + true)\n", "[1:2] Unexpected character '#'\n" ++
        "[1:3] Error at 'cls': Expected expression\n"⟩ := by
  intro text given piped
  have hnewline : '\n' ∉ text.toList := by decide
  have hreturn : text.toList.getLast? ≠ some '\r' := by decide
  have hblank : ¬ Line.IsBlank text := by decide +kernel
  have hcommand : Line.trim text ∉ ["#showTree", "#showBoundTree", "#cls"] := by decide +kernel
  obtain ⟨hreply, hgiven, hpiped⟩ :=
    run_given_eq_run_piped text true true hnewline hreturn hblank hcommand []
  refine ⟨hnewline, hreturn, hblank, hcommand, hreply, hgiven, hpiped, ?_⟩
  rw [← hreply]
  decide +kernel

end CommandLine

end Calculator
