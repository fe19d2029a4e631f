import Calculator.Panel.Screen
import Calculator.Proofs.Panel.Typing

/-!
# What the panel shows

Whatever is done to the screen, the panel shows results by one rule. Of the entries
evaluated since the results were last cleared, it shows the value of the latest one that
has a value, and the trace of the latest one of all; an error is shown exactly when that
latest one failed. Editing the entry, typing on the keypad and deleting never touch what
is shown.
-/

namespace Calculator

namespace Screen

/-- What is done to a screen: the entry line is edited, or a gesture is made. -/
inductive Input
  | edit (entry : String)
  | gesture (gesture : Gesture)

def feed (s : Screen) : Input → Screen
  | .edit entry => { s with panel := s.panel.edit entry }
  | .gesture gesture => s.frame gesture

/-- The input evaluates the entry. The enter key does so only while the entry line is
to get the focus. -/
def evaluates (s : Screen) : Input → Bool
  | .gesture (.click .equals) => true
  | .gesture .enter => s.panel.focus
  | _ => false

/-- The input clears the results. -/
def Input.clears : Input → Bool
  | .gesture (.click .clearResults) | .gesture (.click .clearAll) => true
  | _ => false

/-- The screen after a history of inputs, latest first. -/
def after : List Input → Screen
  | [] => fresh
  | input :: earlier => (after earlier).feed input

/-- The entries evaluated in a history since the results were last cleared, latest first. -/
def evaluated : List Input → List String
  | [] => []
  | input :: earlier =>
    if input.clears then []
    else if (after earlier).evaluates input then (after earlier).panel.entry :: evaluated earlier
    else evaluated earlier

end Screen

/-- The text of the value of an expression, if it has one. -/
def valueText? (expression : String) : Option String :=
  match evaluate expression with
  | .ok v => some (Number.text v)
  | .error _ => none

namespace Panel

/-- The panel shows what came of these evaluations, latest first. -/
structure Shows (p : Panel) (entries : List String) : Prop where
  result_eq : p.result = (entries.findSome? valueText?).getD ""
  trace_eq : p.trace = (entries.head?.map fun e => (Evaluation.ofExpression e).trace).getD .empty
  error_eq : p.error = (p.trace.failure.map Failure.message).getD ""

theorem fresh_shows : fresh.Shows [] := ⟨rfl, rfl, rfl⟩

theorem evaluate_shows {p : Panel} {entries : List String} (h : p.Shows entries) :
    p.evaluate.Shows (p.entry :: entries) := by
  have hfailure := (Evaluation.trace_tells p.entry).failure_eq
  rw [evaluate_eq]
  cases hv : Calculator.evaluate p.entry with
  | ok v =>
      rw [hv] at hfailure
      refine ⟨?_, rfl, ?_⟩
      · simp [showResult, valueText?, hv]
      · simp [showResult, hfailure]
  | error failure =>
      rw [hv] at hfailure
      refine ⟨?_, rfl, ?_⟩
      · simp [showError, valueText?, hv, h.result_eq]
      · simp [showError, hfailure]

theorem Shows.error_eq_empty_iff {p : Panel} {entries : List String} (h : p.Shows entries) :
    p.error = "" ↔ p.trace.failure = none := by
  rw [h.error_eq]
  cases p.trace.failure with
  | none => simp
  | some failure => cases failure <;> simp [Failure.message]

theorem result_evaluate_of_error {p : Panel} {failure : Failure}
    (h : Calculator.evaluate p.entry = .error failure) : p.evaluate.result = p.result := by
  rw [evaluate_eq, h]
  rfl

/-- The last evaluation passed all stages, and so the result is the value of the entry
in its trace. -/
theorem Shows.of_evaluated {p : Panel} {entries : List String} (h : p.Shows entries)
    (hstage : p.trace.stage = .evaluated) :
    p.error = "" ∧
      ∃ v, Calculator.evaluate p.trace.entry = .ok v ∧ p.result = Number.text v := by
  obtain ⟨hresult, htrace, herror⟩ := h
  cases entries with
  | nil =>
      rw [htrace] at hstage
      cases hstage
  | cons e earlier =>
      have htrace : p.trace = (Evaluation.ofExpression e).trace := htrace
      have hfailure := (Evaluation.trace_tells e).failure_eq
      rw [htrace] at hstage herror
      obtain ⟨v, hv⟩ := (Evaluation.stage_trace_eq_evaluated_iff e).mp hstage
      rw [hv] at hfailure
      refine ⟨by simp [herror, hfailure], v, ?_, ?_⟩
      · rw [htrace, (Evaluation.trace_tells e).entry_eq, evaluate_congr (Text.strip_strip e), hv]
      · simp [hresult, valueText?, hv]

/-- The panels show the same beside their entries. -/
def SameResults (p q : Panel) : Prop :=
  q.result = p.result ∧ q.error = p.error ∧ q.trace = p.trace

theorem sameResults_entry (p : Panel) (entry : String) (focus : Bool) :
    p.SameResults { p with entry := entry, focus := focus } := ⟨rfl, rfl, rfl⟩

theorem SameResults.shows {p q : Panel} {entries : List String} (h : p.SameResults q)
    (hp : p.Shows entries) : q.Shows entries := by
  obtain ⟨hresult, herror, htrace⟩ := h
  refine ⟨hresult.trans hp.result_eq, htrace.trans hp.trace_eq, ?_⟩
  rw [herror, htrace, hp.error_eq]

end Panel

namespace Screen

theorem evaluate_takeFocus (p : Panel) : (takeFocus p).evaluate = p.evaluate := by
  rw [Panel.evaluate_eq, Panel.evaluate_eq, takeFocus]
  cases Calculator.evaluate p.entry with
  | ok v => rfl
  | error failure => rfl

theorem panel_feed_of_evaluates {s : Screen} {input : Input} (h : s.evaluates input = true) :
    (s.feed input).panel = s.panel.evaluate := by
  cases input with
  | edit entry => cases h
  | gesture gesture =>
      cases gesture with
      | nothing | escape | fold => cases h
      | enter =>
          have hon : s.panel.focus = true := h
          rw [feed, frame, if_pos hon, evaluate_takeFocus]
      | click key =>
          cases key with
          | equals => rw [feed, frame, Panel.press, evaluate_takeFocus]
          | symbol | clearEntry | clearResults | clearAll | delete => cases h

theorem panel_feed_of_clears {s : Screen} {input : Input} (h : input.clears = true) :
    (s.feed input).panel.Shows [] := by
  cases input with
  | edit entry => cases h
  | gesture gesture =>
      cases gesture with
      | nothing | enter | escape | fold => cases h
      | click key =>
          cases key with
          | clearResults | clearAll => exact ⟨rfl, rfl, rfl⟩
          | symbol | equals | clearEntry | delete => cases h

theorem panel_feed_of_not {s : Screen} {input : Input} (hevaluates : s.evaluates input = false)
    (hclears : input.clears = false) : s.panel.SameResults (s.feed input).panel := by
  cases input with
  | edit entry => exact s.panel.sameResults_entry entry _
  | gesture gesture =>
      cases gesture with
      | nothing | fold => exact s.panel.sameResults_entry s.panel.entry false
      | escape => exact s.panel.sameResults_entry "" false
      | enter =>
          have hoff : ¬ s.panel.focus = true := Bool.eq_false_iff.mp hevaluates
          rw [feed, frame, if_neg hoff]
          exact s.panel.sameResults_entry _ _
      | click key =>
          cases key with
          | symbol key => exact s.panel.sameResults_entry (Panel.typed key s.panel.entry) true
          | clearEntry => exact s.panel.sameResults_entry "" true
          | delete => exact s.panel.sameResults_entry (Panel.withoutLast s.panel.entry) true
          | equals => cases hevaluates
          | clearResults | clearAll => cases hclears

theorem panel_after_shows (history : List Input) :
    (after history).panel.Shows (evaluated history) := by
  -- `evaluated` goes through a history as `after` does, with a case for each kind of input.
  induction history with
  | nil => exact Panel.fresh_shows
  | cons input earlier ih =>
      rw [after, evaluated]
      split
      · next hclears => exact panel_feed_of_clears hclears
      · next hclears =>
          split
          · next hevaluates =>
              rw [panel_feed_of_evaluates hevaluates]
              exact Panel.evaluate_shows ih
          · next hevaluates =>
              have hsame := panel_feed_of_not (by simpa using hevaluates) (by simpa using hclears)
              exact hsame.shows ih

/-- At every point of a history, the result is that of the latest evaluation with a value
since the results were cleared, and the trace is that of the latest evaluation; the error
goes with the trace. A failed evaluation leaves the result alone, an evaluation and the
clearing of the results leave the entry alone, and all other inputs leave alone all that
is shown. -/
theorem panel_after (history : List Input) :
    let p := (after history).panel
    p.result = ((evaluated history).findSome? valueText?).getD "" ∧
    (match (evaluated history).head? with
      | none => p.trace = .empty
      | some entry => ∀ before : Trace,
          (evaluateTraced entry).run before = pure (evaluate entry, p.trace)) ∧
    (p.error = "" ↔ p.trace.failure = none) ∧
    (∀ failure, p.trace.failure = some failure → p.error = failure.message) ∧
    (p.trace.stage = .evaluated →
      p.error = "" ∧ ∃ v, evaluate p.trace.entry = .ok v ∧ p.result = Number.text v) ∧
    ∀ input : Input,
      let q := ((after history).feed input).panel
      ((after history).evaluates input = true →
        q.entry = p.entry ∧
          ∀ failure, evaluate p.entry = .error failure → q.result = p.result) ∧
      (input = .gesture (.click .clearResults) → q.entry = p.entry) ∧
      ((after history).evaluates input = false → input.clears = false →
        q.result = p.result ∧ q.error = p.error ∧ q.trace = p.trace) := by
  dsimp only
  have h := panel_after_shows history
  refine ⟨h.result_eq, ?_, h.error_eq_empty_iff, ?_, h.of_evaluated, fun input => ⟨?_, ?_, ?_⟩⟩
  · rw [h.trace_eq]
    cases (evaluated history).head? with
    | none => rfl
    | some entry => exact run_evaluateTraced entry
  · intro failure hfailure
    rw [h.error_eq, hfailure]
    rfl
  · intro hevaluates
    rw [panel_feed_of_evaluates hevaluates]
    exact ⟨Panel.entry_evaluate _, fun _ => Panel.result_evaluate_of_error⟩
  · rintro rfl
    rfl
  · exact panel_feed_of_not

/-- A product with a value, then a division by zero by the enter key, and an operator
typed behind it. -/
theorem panel_after_product_and_division :
    let history : List Input :=
      [.gesture (.click (.symbol (.operator .add))), .gesture .enter, .edit "1/0",
        .gesture (.click .equals), .edit "2 * 3"]
    let p := (after history).panel
    evaluated history = ["1/0", "2 * 3"] ∧ p.trace.failure = some .divisionByZero ∧
      p.result = "6" ∧ p.error = "division par zéro" := by
  dsimp only
  obtain ⟨hresult, -, -, herror, -, -⟩ := panel_after
    [.gesture (.click (.symbol (.operator .add))), .gesture .enter, .edit "1/0",
      .gesture (.click .equals), .edit "2 * 3"]
  have hfailure : (after [.gesture (.click (.symbol (.operator .add))), .gesture .enter,
      .edit "1/0", .gesture (.click .equals), .edit "2 * 3"]).panel.trace.failure =
        some .divisionByZero := by decide +kernel
  exact ⟨by decide +kernel, hfailure, hresult.trans (by decide +kernel), herror _ hfailure⟩

end Screen

end Calculator
