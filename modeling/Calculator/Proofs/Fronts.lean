import Calculator.Proofs.Panel.Typing
import Calculator.Proofs.Served
import Calculator.Proofs.Session.Console

/-!
# One outcome on four fronts

An expression is given alone on the command line, as a line of the console, as the entry of the
panel, or in a request to the service. Each front has its own way of telling the outcome, and
all of them tell the outcome of the same evaluation, which the blanks that a front takes away
do not change. Only a request whose body is too long for the service is answered without it.
-/

namespace Calculator

namespace Session

/-- The trace of an expression in lines, if it is asked for. -/
def traceText (traced : Bool) (expression : String) : String :=
  if traced then String.join (traceLines ((evaluateTraced expression).run .empty).2) else ""

/-- What the session of one expression leaves if nothing limits it. -/
structure Leaves (expression : String) (traced : Bool) (answers complaints : String)
    (good : Bool) : Prop where
  overflowed : (perform none (oneShot expression traced).1).overflowed = false
  answers : (perform none (oneShot expression traced).1).answers.written = answers
  complaints : (perform none (oneShot expression traced).1).complaints.written = complaints
  ending : (oneShot expression traced).2 = good

theorem written_traceActions (expression : String) (traced : Bool) :
    answers (traceActions (Evaluation.ofExpression expression) .complaints traced) = "" ∧
      complaints (traceActions (Evaluation.ofExpression expression) .complaints traced) =
        traceText traced expression := by
  rw [traceText, trace_evaluateTraced]
  cases traced with
  | false => exact ⟨rfl, rfl⟩
  | true => simp [traceActions, traceLines, Action.answer, Action.complaint]

theorem Leaves.of_last {expression : String} {traced good : Bool} {last : Action}
    (h : oneShot expression traced =
      (announcements (Evaluation.ofExpression expression) ++
        traceActions (Evaluation.ofExpression expression) .complaints traced ++ [last], good)) :
    Leaves expression traced last.answer (traceText traced expression ++ last.complaint) good := by
  obtain ⟨htrace, htrace'⟩ := written_traceActions expression traced
  obtain ⟨hquiet, hquiet'⟩ := written_announcements (Evaluation.ofExpression expression)
  obtain ⟨hunlimited, hanswers, hcomplaints⟩ := perform_none (oneShot expression traced).1
  refine ⟨hunlimited.overflowed, ?_, ?_, by rw [h]⟩
  · rw [hanswers, h]
    simp [hquiet, htrace]
  · rw [hcomplaints, h]
    simp [hquiet', htrace']

theorem leaves_of_ok {expression : String} {v : Float} (h : evaluate expression = .ok v)
    (traced : Bool) :
    Leaves expression traced (Number.text v ++ "\n") (traceText traced expression) true := by
  have hleaves : Leaves expression traced (Number.text v ++ "\n")
      (traceText traced expression ++ "") true := by
    refine Leaves.of_last (?_ : _ = (_ ++ [.write .answers (Number.text v ++ "\n")], true))
    rw [evaluate] at h
    simp only [oneShot, h]
  rwa [String.append_empty] at hleaves

theorem leaves_of_error {expression : String} {failure : Failure}
    (h : evaluate expression = .error failure) (traced : Bool) :
    Leaves expression traced "" (traceText traced expression ++ failureLine failure) false := by
  refine Leaves.of_last (?_ : _ = (_ ++ [.write .complaints (failureLine failure)], false))
  rw [evaluate] at h
  simp only [oneShot, h]

theorem answerText_eq (traced : Bool) (expression : String) :
    answerText traced expression =
      outcomeLine (evaluate expression) ++ traceText traced expression := by
  rw [answerText, traceText]
  cases evaluate expression <;> cases traced <;>
    simp [outcomeLine, failureLine, traceLines, String.append_assoc]

/-- A line that is an expression is answered before the input goes on. -/
theorem consoleOutput_encode {s : String} (hline : '\n' ∉ s.toList) (hblank : Text.trim s ≠ "")
    (hexit : Text.trim s ≠ "exit") (traced : Bool) {rest : List UInt8}
    (hrest : ∀ b ∈ rest.head?, b = 10) :
    consoleOutput traced (Text.encode s ++ rest) =
      "Expression : " ++ outcomeLine (evaluate s) ++ traceText traced s ++
        consoleOutput traced rest.tail := by
  have hs : s ≠ "" := by
    rintro rfl
    exact hblank (by decide +kernel)
  obtain ⟨line, hlines, htrim⟩ := Text.exists_textLines_encode hs hline hrest
  -- A carriage return may be missing from the line, but it is one of the blanks around `s`.
  have hstrip : Text.strip line = Text.strip s := by
    rw [← Text.strip_trim line, htrim, Text.strip_trim]
  rw [← htrim] at hblank hexit
  have hnone : ∀ l ∈ [some line], (reply traced l).ending = none := by
    intro l hl
    rw [List.mem_singleton.mp hl]
    exact (ending_reply_eq_none_iff traced _).mpr ⟨line, rfl, hexit⟩
  have hfrom := consoleFrom_append hnone [] (Text.textLines rest.tail)
  rw [List.singleton_append] at hfrom
  rw [consoleOutput_eq, consoleOutput_eq, hlines, hfrom, consoleFrom_eq]
  simp only [List.flatMap_cons, List.flatMap_nil, List.append_nil, List.reverse_reverse,
    answers_append, answers_turn hexit, turnText, if_neg hblank, answerText_congr hstrip,
    answerText_eq, String.append_assoc]

end Session

theorem Panel.press_equals (p : Panel) (s : String) :
    (p.edit s).press .equals =
      match Calculator.evaluate s with
      | .ok v => (p.edit s).showResult (Number.text v) (Evaluation.ofExpression s).trace
      | .error failure => (p.edit s).showError failure.message (Evaluation.ofExpression s).trace :=
  (p.edit s).evaluate_eq

/-- What the fronts tell about an expression that has a value. -/
structure ReportsValue (s : String) (v : Float) : Prop where
  oneShot (traced : Bool) :
    Session.Leaves s traced (Number.text v ++ "\n") (Session.traceText traced s) true
  console (traced : Bool) (rest : List UInt8) : (∀ b ∈ rest.head?, b = 10) →
    Session.consoleOutput traced (Text.encode s ++ rest) =
      "Expression : " ++ ("= " ++ Number.text v ++ "\n") ++ Session.traceText traced s ++
        Session.consoleOutput traced rest.tail
  panel (p : Panel) :
    ((p.edit s).press .equals).result = Number.text v ∧ ((p.edit s).press .equals).error = ""
  service (b : List UInt8) : b.length ≤ 2097152 → Json.Body b s →
    (Service.respond ⟨"POST", "/api/v1/calculate", b⟩).response.status = 200 ∧
      (v.isFinite = true → ∃ text, (∀ w, Json.Numeral text w ↔ w = v) ∧
        (Service.respond ⟨"POST", "/api/v1/calculate", b⟩).response =
          .json 200 "result" (String.ofList text))

/-- What the fronts tell about an expression that has none. -/
structure ReportsFailure (s : String) (failure : Failure) : Prop where
  oneShot (traced : Bool) :
    Session.Leaves s traced ""
      (Session.traceText traced s ++ ("erreur: " ++ failure.message ++ "\n")) false
  console (traced : Bool) (rest : List UInt8) : (∀ b ∈ rest.head?, b = 10) →
    Session.consoleOutput traced (Text.encode s ++ rest) =
      "Expression : " ++ ("erreur: " ++ failure.message ++ "\n") ++ Session.traceText traced s ++
        Session.consoleOutput traced rest.tail
  panel (p : Panel) :
    ((p.edit s).press .equals).error = failure.message ∧
      ((p.edit s).press .equals).result = p.result
  service (b : List UInt8) : b.length ≤ 2097152 → Json.Body b s →
    (Service.respond ⟨"POST", "/api/v1/calculate", b⟩).response =
      .json (Service.status failure) "error" ("\"" ++ failure.message ++ "\"")

/-- All fronts tell the outcome of the evaluation of an expression that the console takes for
one. -/
theorem fronts_report_evaluate {s : String} (hline : '\n' ∉ s.toList) (hblank : Text.trim s ≠ "")
    (hexit : Text.trim s ≠ "exit") :
    match evaluate s with
    | .ok v => ReportsValue s v
    | .error failure => ReportsFailure s failure := by
  have hconsole := Session.consoleOutput_encode hline hblank hexit
  have hservice {b : List UInt8} (hb : b.length ≤ 2097152) (hbody : Json.Body b s) :=
    Service.response_body hb hbody
  cases hs : evaluate s with
  | ok v =>
      refine ⟨Session.leaves_of_ok hs, fun traced rest hrest => ?_, fun p => ?_,
        fun b hb hbody => ?_⟩
      · rw [hconsole traced hrest, hs, Session.outcomeLine]
      · rw [p.press_equals, hs]
        exact ⟨rfl, rfl⟩
      · have hresponse := hservice hb hbody
        rw [hs, Service.Response.ofOutcome, Service.method, servicePath] at hresponse
        rw [hresponse]
        refine ⟨rfl, fun hv => ⟨_, fun w => Json.numeral_write_iff hv, ?_⟩⟩
        rw [String.ofList_toList]
  | error failure =>
      refine ⟨Session.leaves_of_error hs, fun traced rest hrest => ?_, fun p => ?_,
        fun b hb hbody => ?_⟩
      · rw [hconsole traced hrest, hs, Session.outcomeLine, Session.failureLine]
      · rw [p.press_equals, hs]
        exact ⟨rfl, rfl⟩
      · have hresponse := hservice hb hbody
        rwa [hs, Service.Response.ofOutcome, Service.method, servicePath] at hresponse

/-- A sum with blanks around it, the last of which goes with the end of its line. -/
theorem fronts_report_sum :
    '\n' ∉ " 1 + 2\r".toList ∧ Text.trim " 1 + 2\r" ≠ "" ∧ Text.trim " 1 + 2\r" ≠ "exit" ∧
      ReportsValue " 1 + 2\r" 3 := by
  have hline : '\n' ∉ " 1 + 2\r".toList := by decide +kernel
  have hblank : Text.trim " 1 + 2\r" ≠ "" := by decide +kernel
  have hexit : Text.trim " 1 + 2\r" ≠ "exit" := by decide +kernel
  have hvalue : evaluate " 1 + 2\r" = .ok 3 := by decide +kernel
  have hreport := fronts_report_evaluate hline hblank hexit
  rw [hvalue] at hreport
  exact ⟨hline, hblank, hexit, hreport⟩

namespace Service

/-- A body that is read but for its length: it asks about a sum, with blanks behind it. -/
def longBody : List UInt8 :=
  Json.plainBody "1+1".toList ++ List.replicate bodyLimit 0x20

theorem body_longBody : Json.Body longBody "1+1" := by
  have hplain : "1+1".toList.all Json.isPlain = true := by decide +kernel
  have hblanks : Json.Blanks (List.replicate bodyLimit 0x20) := by
    intro b hb
    rw [List.eq_of_mem_replicate hb]
    decide
  have hbody := Json.body_plainBody hplain
  rw [String.ofList_toList] at hbody
  exact hbody.append_blanks hblanks

/-- A sum that has a value is not answered with its value in a body that is too long. -/
theorem respond_longBody :
    '\n' ∉ "1+1".toList ∧ Text.trim "1+1" ≠ "" ∧ Text.trim "1+1" ≠ "exit" ∧
      evaluate "1+1" = .ok 2 ∧ Json.Body longBody "1+1" ∧
      (respond ⟨"POST", "/api/v1/calculate", longBody⟩).response = .tooLong ∧
      Response.tooLong.status ≠ 200 := by
  have hplain : 0 < (Json.plainBody "1+1".toList).length := by decide +kernel
  have hlong : bodyLimit < longBody.length := by
    rw [longBody, List.length_append, List.length_replicate]
    omega
  have hresponse := response_of_long hlong
  rw [method, servicePath] at hresponse
  exact ⟨by decide +kernel, by decide +kernel, by decide +kernel, by decide +kernel,
    body_longBody, hresponse, by decide⟩

end Service

end Calculator
