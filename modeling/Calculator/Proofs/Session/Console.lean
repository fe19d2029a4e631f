import Calculator.Proofs.Lines
import Calculator.Proofs.Tracing
import Calculator.Session.Console

/-!
# The console, line by line

A console session is made of turns: a prompt, a line, and what is written about it. A turn
depends on its line alone, so a session on finished lines none of which ends it can be cut
off in front of its last prompt and carried on with any other input. The first line that
ends a session is the last one that it takes notice of.
-/

namespace Calculator.Session

/-- The text that an action writes on the channel of answers. -/
def Action.answer : Action → String
  | .write .answers text => text
  | _ => ""

/-- All that the actions write on the channel of answers. -/
def answers (actions : List Action) : String :=
  String.join (actions.map Action.answer)

@[simp] theorem answers_nil : answers [] = "" := rfl

@[simp] theorem answers_cons (action : Action) (actions : List Action) :
    answers (action :: actions) = action.answer ++ answers actions := by
  simp [answers]

@[simp] theorem answers_append (actions actions' : List Action) :
    answers (actions ++ actions') = answers actions ++ answers actions' := by
  simp [answers]

/-- The text that an action writes on the channel of complaints. -/
def Action.complaint : Action → String
  | .write .complaints text => text
  | _ => ""

/-- All that the actions write on the channel of complaints. -/
def complaints (actions : List Action) : String :=
  String.join (actions.map Action.complaint)

@[simp] theorem complaints_nil : complaints [] = "" := rfl

@[simp] theorem complaints_cons (action : Action) (actions : List Action) :
    complaints (action :: actions) = action.complaint ++ complaints actions := by
  simp [complaints]

@[simp] theorem complaints_append (actions actions' : List Action) :
    complaints (actions ++ actions') = complaints actions ++ complaints actions' := by
  simp [complaints]

/-- Nothing stops the performance. -/
structure Performance.Unlimited (p : Performance) : Prop where
  answers_limit : p.answers.limit = none
  complaints_limit : p.complaints.limit = none
  overflowed : p.overflowed = false

namespace Performance

theorem Unlimited.step {p : Performance} (h : p.Unlimited) (action : Action) :
    (p.step action).Unlimited ∧
      (p.step action).answers.written = p.answers.written ++ action.answer ∧
      (p.step action).complaints.written = p.complaints.written ++ action.complaint := by
  obtain ⟨⟨limit, written⟩, ⟨limit', written'⟩, announced, overflowed⟩ := p
  obtain ⟨rfl, rfl, rfl⟩ := h
  cases action with
  | write channel text =>
      cases channel with
      | answers => exact ⟨⟨rfl, rfl, rfl⟩, rfl, String.append_empty.symm⟩
      | complaints => exact ⟨⟨rfl, rfl, rfl⟩, String.append_empty.symm, rfl⟩
  | announce occurrence =>
      exact ⟨⟨rfl, rfl, rfl⟩, String.append_empty.symm, String.append_empty.symm⟩

theorem Unlimited.run {p : Performance} (h : p.Unlimited) (actions : List Action) :
    (p.run actions).Unlimited ∧
      (p.run actions).answers.written = p.answers.written ++ Session.answers actions ∧
      (p.run actions).complaints.written = p.complaints.written ++ Session.complaints actions := by
  induction actions generalizing p with
  | nil => exact ⟨h, String.append_empty.symm, String.append_empty.symm⟩
  | cons action rest ih =>
      obtain ⟨hnext, hanswers, hcomplaints⟩ := h.step action
      obtain ⟨hrun, hrest, hrest'⟩ := ih hnext
      have hgoes : ¬ (p.step action).overflowed = true := by simp [hnext.overflowed]
      rw [Performance.run, if_neg hgoes, hrest, hrest', hanswers, hcomplaints, answers_cons,
        complaints_cons, String.append_assoc, String.append_assoc]
      exact ⟨hrun, rfl, rfl⟩

end Performance

theorem perform_none (actions : List Action) :
    (perform none actions).Unlimited ∧
      (perform none actions).answers.written = answers actions ∧
      (perform none actions).complaints.written = complaints actions := by
  have hstart : (Performance.start none).Unlimited := ⟨rfl, rfl, rfl⟩
  obtain ⟨hrun, hanswers, hcomplaints⟩ := hstart.run actions
  exact ⟨hrun, hanswers.trans String.empty_append, hcomplaints.trans String.empty_append⟩

/-- The actions of a turn. -/
def turn (traced : Bool) (line : Option String) : List Action :=
  prompt :: (reply traced line).actions

theorem ending_reply_eq_none_iff (traced : Bool) (line : Option String) :
    (reply traced line).ending = none ↔ ∃ s, line = some s ∧ Text.trim s ≠ "exit" := by
  cases line with
  | none => simp [reply]
  | some s =>
      simp only [reply, isExit, exitCommand, beq_iff_eq]
      split
      · next h => simp [h]
      · next h =>
          split <;> simp [h]

/-- Lines that do not end the session are turns before the turns of the others. -/
theorem consoleFrom_append {traced : Bool} {lines : List (Option String)}
    (h : ∀ line ∈ lines, (reply traced line).ending = none) (done : List Action)
    (rest : List (Option String)) :
    consoleFrom traced done (lines ++ rest) =
      consoleFrom traced ((lines.flatMap (turn traced)).reverse ++ done) rest := by
  induction lines generalizing done with
  | nil => rfl
  | cons line lines ih =>
      rw [List.forall_mem_cons] at h
      rw [List.cons_append, consoleFrom]
      rw [h.1]
      dsimp only
      rw [ih h.2]
      simp [turn]

theorem consoleFrom_eq (traced : Bool) (done : List Action) (lines : List (Option String)) :
    consoleFrom traced done lines =
      (done.reverse ++ (consoleFrom traced [] lines).1, (consoleFrom traced [] lines).2) := by
  induction lines generalizing done with
  | nil => simp [consoleFrom]
  | cons line rest ih =>
      rw [consoleFrom, consoleFrom]
      cases (reply traced line).ending with
      | some ending => simp
      | none =>
          dsimp only
          rw [ih, ih (_ ++ [prompt])]
          simp

/-- A line that ends the session hides all that follows it. -/
theorem consoleFrom_append_of_ending {traced : Bool} {lines : List (Option String)}
    (h : ∃ line ∈ lines, (reply traced line).ending ≠ none) (done : List Action)
    (rest : List (Option String)) :
    consoleFrom traced done (lines ++ rest) = consoleFrom traced done lines := by
  induction lines generalizing done with
  | nil => simp at h
  | cons line lines ih =>
      rw [List.cons_append, consoleFrom, consoleFrom]
      cases hending : (reply traced line).ending with
      | some ending => rfl
      | none =>
          -- The line that ends the session is then among the others.
          apply ih
          simpa [hending] using h

/-- The answer to an expression: its value or its failure, and the trace if it is asked for. -/
def answerText (traced : Bool) (expression : String) : String :=
  (match evaluate expression with
    | .ok v => "= " ++ Number.text v ++ "\n"
    | .error failure => "erreur: " ++ failure.message ++ "\n") ++
  if traced then
    let t := ((evaluateTraced expression).run .empty).2
    "  entrée : " ++ t.entry ++ "\n" ++ ("  jetons : " ++ t.tokens ++ "\n") ++
      ("  RPN    : " ++ t.rpn ++ "\n") ++ ("  étape  : " ++ t.stage.text ++ "\n")
  else ""

/-- What is written in a turn whose line does not end the session. -/
def turnText (traced : Bool) (line : String) : String :=
  "Expression : " ++ if Text.trim line = "" then "" else answerText traced line

theorem written_announcements (e : Evaluation) :
    answers (announcements e) = "" ∧ complaints (announcements e) = "" := by
  rw [announcements]
  induction e.occurrences true with
  | nil => exact ⟨rfl, rfl⟩
  | cons occurrence rest ih =>
      rw [List.map_cons, answers_cons, complaints_cons, ih.1, ih.2]
      exact ⟨rfl, rfl⟩

theorem answers_consoleAnswer (expression : String) (traced : Bool) :
    answers (consoleAnswer expression traced) = answerText traced expression := by
  have houtcome : outcomeLine (Evaluation.ofExpression expression).outcome =
      match evaluate expression with
      | .ok v => "= " ++ Number.text v ++ "\n"
      | .error failure => "erreur: " ++ failure.message ++ "\n" := by
    rw [evaluate]
    cases (Evaluation.ofExpression expression).outcome <;> rfl
  rw [consoleAnswer, answerText, answers_append, (written_announcements _).1, String.empty_append,
    answers_cons, ← houtcome, trace_evaluateTraced]
  cases traced with
  | false => simp [traceActions, Action.answer]
  | true => simp [traceActions, traceLines, Action.answer, String.append_assoc]

theorem answerText_congr {s s' : String} (h : Text.strip s = Text.strip s') (traced : Bool) :
    answerText traced s = answerText traced s' := by
  simp only [answerText, evaluate_congr h, trace_evaluateTraced, Evaluation.trace_congr h]

theorem answers_turn {line : String} (h : Text.trim line ≠ "exit") (traced : Bool) :
    answers (turn traced (some line)) = turnText traced line := by
  have hexit : isExit line = false := by simpa [isExit, exitCommand] using h
  simp only [turn, turnText, answers_cons, reply, hexit, Bool.false_eq_true, if_false,
    String.isEmpty_iff]
  split
  · rfl
  · rw [answers_consoleAnswer, answerText_congr (Text.strip_trim line)]
    rfl

theorem answers_turns {lines : List String} (h : ∀ line ∈ lines, Text.trim line ≠ "exit")
    (traced : Bool) :
    answers ((lines.map some).flatMap (turn traced)) = String.join (lines.map (turnText traced)) := by
  induction lines with
  | nil => rfl
  | cons line rest ih =>
      rw [List.forall_mem_cons] at h
      rw [List.map_cons, List.flatMap_cons, answers_append, answers_turn h.1, ih h.2,
        List.map_cons, String.join_cons]

/-- What the console writes on an input, if nothing limits it. -/
def consoleOutput (traced : Bool) (input : List UInt8) : String :=
  (perform none (console traced input).1).answers.written

theorem consoleOutput_eq (traced : Bool) (input : List UInt8) :
    consoleOutput traced input = answers (consoleFrom traced [] (Text.textLines input)).1 := by
  rw [consoleOutput, (perform_none _).2.1, console]

/-- The output on finished lines none of which ends the session is made of their turns and
of a last prompt, in place of which the output on what follows them goes on, to the same
ending. Nothing that follows a line that ends the session matters. -/
theorem console_append (traced : Bool) {a : List UInt8} (ha : a = [] ∨ a.getLast? = some 10)
    (b : List UInt8) :
    (∀ lines : List String, Text.textLines a = lines.map some →
      (∀ line ∈ lines, Text.trim line ≠ "exit") →
      consoleOutput traced a =
          String.join (lines.map (turnText traced)) ++ ("Expression : " ++ "\n") ∧
        consoleOutput traced (a ++ b) =
          String.join (lines.map (turnText traced)) ++ consoleOutput traced b ∧
        (console traced (a ++ b)).2 = (console traced b).2) ∧
    ((∃ line ∈ Text.textLines a, ∀ s, line = some s → Text.trim s = "exit") →
      console traced (a ++ b) = console traced a) := by
  have happend : Text.textLines (a ++ b) = Text.textLines a ++ Text.textLines b :=
    Text.textLines_append ha b
  constructor
  · intro lines hlines hexit
    have hturns := answers_turns hexit traced
    have hnone : ∀ line ∈ lines.map some, (reply traced line).ending = none := by
      intro line hline
      obtain ⟨s, hs, rfl⟩ := List.mem_map.mp hline
      exact (ending_reply_eq_none_iff traced (some s)).mpr ⟨s, rfl, hexit s hs⟩
    have hfrom := consoleFrom_append hnone []
    refine ⟨?_, ?_, ?_⟩
    · have hclosed := hfrom []
      rw [List.append_nil] at hclosed
      rw [consoleOutput_eq, hlines, hclosed, consoleFrom_eq]
      simp [hturns, consoleFrom, closing, prompt, Action.answer]
    · rw [consoleOutput_eq, happend, hlines, hfrom, consoleFrom_eq]
      simp [hturns, consoleOutput_eq]
    · rw [console, happend, hlines, hfrom, consoleFrom_eq]
      rfl
  · rintro ⟨line, hline, hends⟩
    have hending : (reply traced line).ending ≠ none := by
      intro hnone
      obtain ⟨s, hs, hne⟩ := (ending_reply_eq_none_iff traced line).mp hnone
      exact hne (hends s hs)
    rw [console, happend, consoleFrom_append_of_ending ⟨line, hline, hending⟩]
    rfl

/-- A sum in a line with a carriage return and a blank line, in front of bytes that are no
text. -/
theorem console_append_undecodable :
    (Text.encode "1 + 2\r\n \n").getLast? = some 10 ∧
      Text.textLines (Text.encode "1 + 2\r\n \n") = ["1 + 2", " "].map some ∧
      consoleOutput false (Text.encode "1 + 2\r\n \n" ++ [0xff, 10]) =
        "Expression : = 3\nExpression : Expression : " ∧
      (console false (Text.encode "1 + 2\r\n \n" ++ [0xff, 10])).2 = .undecodable := by
  have hlast : (Text.encode "1 + 2\r\n \n").getLast? = some 10 := by decide +kernel
  have hlines : Text.textLines (Text.encode "1 + 2\r\n \n") = ["1 + 2", " "].map some := by
    decide +kernel
  have hexit : ∀ line ∈ ["1 + 2", " "], Text.trim line ≠ "exit" := by decide +kernel
  obtain ⟨-, houtput, hending⟩ :=
    (console_append false (.inr hlast) [0xff, 10]).1 _ hlines hexit
  refine ⟨hlast, hlines, houtput.trans ?_, hending.trans ?_⟩
  · decide +kernel
  · decide +kernel

end Calculator.Session
