import Mathlib.Logic.Function.Iterate
import Calculator.Session
import Calculator.Proofs.Session.Lines

/-!
# Runs of a session

A session hears its input line by line, up to the first line that is blank or is no text, or to the
end of the input (`Session.Hears`). What it answers to each line depends on the lines before it only
by how often each of the two settings was flipped (`Session.after`), so that its run is given by the
texts that it heard (`Session.written`). The step is a single line (`Session.respond_eq`), and the
main statement is `Session.run_hears`.
-/

namespace Calculator

/-- The command of a word, by comparing it with the names of the commands. -/
theorem Command.ofString?_eq (word : String) :
    ofString? word =
      if word = "#showTree" then some .toggleTree
      else if word = "#showBoundTree" then some .toggleBoundTree
      else if word = "#cls" then some .clear
      else none := by
  unfold ofString?
  split <;> simp_all

namespace Session

variable {s : Session} {read unread : List UInt8} {texts : List String} {error : Option InputError}

/-! ## What a session hears -/

/-- Of an input that starts with `read` and goes on with `unread`, a session reads just `read`: the
lines with the texts that it hears and, unless the input ends there, the line that ends it. -/
inductive Hears : List UInt8 → List UInt8 → List String → Option InputError → Prop
  /-- The session ends with its input. -/
  | ended : Hears [] [] [] none
  /-- It ends at a blank line. -/
  | blank {line unread : List UInt8} {text : String} (hline : Line.IsFirst line unread)
      (htext : Line.decode line = some text) (hblank : Line.IsBlank text) :
    Hears line unread [] none
  /-- It ends with an error at a line that is no text. -/
  | notText {line unread : List UInt8} (hline : Line.IsFirst line unread)
      (htext : Line.decode line = none) :
    Hears line unread [] (some .notText)
  /-- It hears the text of any other line, and goes on behind it. -/
  | text {line read unread : List UInt8} {text : String} {texts : List String}
      {error : Option InputError} (hline : Line.IsFirst line (read ++ unread))
      (htext : Line.decode line = some text) (hblank : ¬ Line.IsBlank text)
      (hlater : Hears read unread texts error) :
    Hears (line ++ read) unread (text :: texts) error

/-- Of every input something is heard. -/
theorem exists_hears (input : List UInt8) :
    ∃ read unread texts error, input = read ++ unread ∧ Hears read unread texts error := by
  induction hn : input.length using Nat.strong_induction_on generalizing input with
  | _ n ih =>
    by_cases hne : input = []
    · exact ⟨[], [], [], none, hne, .ended⟩
    -- The induction is on the length of the input, from which every line takes something off.
    obtain ⟨line, later, hline, rfl⟩ := Line.exists_isFirst hne
    cases htext : Line.decode line with
    | none => exact ⟨line, later, _, _, rfl, .notText hline htext⟩
    | some text =>
      by_cases hblank : Line.IsBlank text
      · exact ⟨line, later, _, _, rfl, .blank hline htext hblank⟩
      · have hshorter : later.length < n := by
          rw [← hn, List.length_append]
          exact Nat.lt_add_of_pos_left hline.length_pos
        obtain ⟨read, unread, texts, error, rfl, hlater⟩ := ih _ hshorter later rfl
        exact ⟨line ++ read, unread, _, _, (List.append_assoc _ _ _).symm,
          .text hline htext hblank hlater⟩

/-- What is left unread has no influence on what is heard. -/
theorem Hears.of_unread_ne_nil (h : Hears read unread texts error) (hne : unread ≠ [])
    (other : List UInt8) : Hears read other texts error := by
  induction h with
  | ended => exact absurd rfl hne
  | blank hline htext hblank => exact .blank (hline.of_ne_nil hne other) htext hblank
  | notText hline htext => exact .notText (hline.of_ne_nil hne other) htext
  | text hline htext hblank _ ih =>
    exact .text (hline.of_ne_nil (List.append_ne_nil_of_right_ne_nil _ hne) _) htext hblank (ih hne)

/-! ## What a session writes -/

/-- The session after some texts: each of the two settings has been flipped once for each text that
is, without the blanks at its ends, the command to flip it. -/
def after (s : Session) (texts : List String) : Session :=
  { s with
    showTree := not^[(texts.map Line.trim).count "#showTree"] s.showTree
    showBoundTree := not^[(texts.map Line.trim).count "#showBoundTree"] s.showBoundTree }

/-- What is written in answer to a text: its own text in answer to a command, and otherwise what the
text as it stands, with the blanks at its ends, is answered as an expression. -/
def reply (s : Session) (text : String) : Reply :=
  if Line.trim text = "#showTree" then
    ⟨if s.showTree then "Not showing parse trees.\n" else "Showing parse trees.\n", ""⟩
  else if Line.trim text = "#showBoundTree" then
    ⟨if s.showBoundTree then "Not showing bound trees.\n" else "Showing bound trees.\n", ""⟩
  else if Line.trim text = "#cls" then ⟨"\x1b[2J\x1b[1;1H", ""⟩
  else (s.answer text).2

/-- The replies to some texts in turn, each by the session after the texts before it. -/
def replies (s : Session) (texts : List String) : List Reply :=
  texts.mapIdx fun i text => (s.after (texts.take i)).reply text

/-- Everything that is written from the start of a session to its end: the replies to the texts that
it heard, and before each line was read, also the one that ended it, the prompt if there is one. -/
def written (s : Session) (texts : List String) : Reply :=
  let prompt := if s.prompting then "> " else ""
  ⟨String.join ((s.replies texts).map fun r => prompt ++ r.out) ++ prompt,
    String.join ((s.replies texts).map Reply.err)⟩

/-- After no text a session is as it was. -/
@[simp] theorem after_nil (s : Session) : s.after [] = s := rfl

/-- The flips of the first text come first. -/
theorem after_cons (s : Session) (text : String) (texts : List String) :
    s.after (text :: texts) = (s.after [text]).after texts := by
  simp only [after, List.map_cons, List.map_nil, List.count_cons, List.count_nil, Nat.zero_add,
    Function.iterate_add_apply]

/-- The first reply is by the session as it is, and the others are by the session after it. -/
theorem replies_cons (s : Session) (text : String) (texts : List String) :
    s.replies (text :: texts) = s.reply text :: (s.after [text]).replies texts := by
  simp only [replies, List.mapIdx_cons, List.take_zero, List.take_succ_cons, after_nil,
    after_cons s text (List.take _ _)]

/-- Only the prompt is written if nothing is heard. -/
theorem written_nil (s : Session) : s.written [] = s.prompt := by
  unfold written prompt
  cases s.prompting <;> rfl

/-- The prompt and the first reply are written before what the session writes after it. -/
theorem written_cons (s : Session) (text : String) (texts : List String) :
    s.written (text :: texts) = s.prompt ++ s.reply text ++ (s.after [text]).written texts := by
  have hprompt : s.prompt = ⟨if s.prompting then "> " else "", ""⟩ := by
    unfold prompt
    cases s.prompting <;> rfl
  rw [hprompt, written, written, replies_cons]
  ext1
  · simp [after, String.append_assoc]
  · simp

/-! ## The run -/

/-- A text changes a session as its flips say, and is answered with its reply. -/
theorem respond_eq (s : Session) (text : String) :
    s.respond text = (s.after [text], s.reply text) := by
  obtain ⟨showTree, showBoundTree, prompting⟩ := s
  rw [respond, Command.ofString?_eq, reply, after]
  by_cases htree : Line.trim text = "#showTree"
  · cases showTree <;> simp [htree, perform, Reply.line]
  by_cases hbound : Line.trim text = "#showBoundTree"
  · cases showBoundTree <;> simp [hbound, perform, Reply.line]
  by_cases hclear : Line.trim text = "#cls"
  · simp [hclear, perform]
  · simp [htree, hbound, hclear]

/-- What a session hears determines how it ends and all that it writes. -/
theorem run_of_hears (h : Hears read unread texts error) (s : Session) :
    s.run (Line.split (read ++ unread)) = ⟨s.after texts, s.written texts, error⟩ := by
  -- Each text that is heard changes the session that hears the others.
  induction h generalizing s with
  | ended =>
    rw [after_nil, written_nil]
    rfl
  | blank hline htext hblank =>
    rw [Line.split_append hline, run, turn, htext]
    dsimp only
    rw [if_pos (Line.isEmpty_trim_iff.2 hblank), after_nil, written_nil]
  | notText hline htext =>
    rw [Line.split_append hline, run, turn, htext, after_nil, written_nil]
  | text hline htext hblank hlater ih =>
    rw [List.append_assoc, Line.split_append hline, run, turn, htext]
    dsimp only
    rw [if_neg (mt Line.isEmpty_trim_iff.1 hblank), respond_eq]
    dsimp only
    rw [ih, ← after_cons, ← written_cons]

/-- Of every input a session hears the texts of some lines and then ends. It has then flipped its
settings as these texts say, and written its replies to them and nothing else, and it has failed
exactly if it ended at a line that is no text. What it left unread has no effect. -/
theorem run_hears (s : Session) (input : List UInt8) :
    (∃ read unread texts error, input = read ++ unread ∧ Hears read unread texts error) ∧
      ∀ read unread texts error, Hears read unread texts error →
        s.run (Line.split (read ++ unread)) = ⟨s.after texts, s.written texts, error⟩ ∧
          (unread ≠ [] → ∀ other,
            s.run (Line.split (read ++ other)) = s.run (Line.split (read ++ unread))) := by
  refine ⟨exists_hears input, fun read unread texts error h => ?_⟩
  refine ⟨run_of_hears h s, fun hne other => ?_⟩
  rw [run_of_hears h s, run_of_hears (h.of_unread_ne_nil hne other) s]

/-- With a prompt, and a carriage return at the end of the second line, a session hears a command
and an expression. It ends with an error at the third line, which is no text, and neither the fourth
line nor that there is one has an effect. -/
theorem run_hears_not_text :
    let s : Session := ⟨false, false, true⟩
    let command := "#showTree".toUTF8.toList ++ [Line.newline]
    let expression := "  -(1)\r".toUTF8.toList ++ [Line.newline]
    let bytes : List UInt8 := [0x31, 0xff] ++ [Line.newline]
    let read := command ++ (expression ++ bytes)
    let unread := "3".toUTF8.toList ++ [Line.newline]
    Hears read unread ["#showTree", "  -(1)"] (some .notText) ∧ unread ≠ [] ∧
      (s.run (Line.split (read ++ unread))).reply =
        ⟨"> Showing parse trees.\n> (-1)\n-1\n> ", ""⟩ ∧
      (s.run (Line.split (read ++ unread))).error = some .notText ∧
      s.run (Line.split (read ++ [])) = s.run (Line.split (read ++ unread)) := by
  intro s command expression bytes read unread
  have hbytes : Hears bytes unread [] (some .notText) :=
    .notText (.terminated (by decide)) (by decide +kernel)
  have hexpression : Hears (expression ++ bytes) unread ["  -(1)"] (some .notText) :=
    .text (.terminated (by decide +kernel)) (by decide +kernel) (by decide +kernel) hbytes
  have hread : Hears read unread ["#showTree", "  -(1)"] (some .notText) :=
    .text (.terminated (by decide +kernel)) (by decide +kernel) (by decide +kernel) hexpression
  have hne : unread ≠ [] := by decide +kernel
  obtain ⟨hrun, hother⟩ := (run_hears s (read ++ unread)).2 _ _ _ _ hread
  refine ⟨hread, hne, ?_, ?_, hother hne []⟩
  · rw [hrun]
    decide +kernel
  · rw [hrun]

end Session

end Calculator
