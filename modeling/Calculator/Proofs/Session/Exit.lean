import Calculator.Launch
import Calculator.Proofs.Session.Limits

/-!
# The exit command

The console and the running service both read lines for the exit command, the console to end
its session and the service to stop. Each takes notice of nothing behind the first line that is
the command or is not text. So they obey the command on the same inputs, and the service goes on
at the end of its input and behind a line that is not text.
-/

namespace Calculator.Session

/-- How lines end a session: by the exit command, by a line that is not text, or by running out,
whichever comes first. -/
inductive Stops : List (Option String) → Ending → Prop
  | endOfInput : Stops [] .endOfInput
  | undecodable (rest : List (Option String)) : Stops (none :: rest) .undecodable
  | exit {line : String} (rest : List (Option String)) : isExit line = true →
      Stops (some line :: rest) .exit
  | line {line : String} {rest : List (Option String)} {ending : Ending} : isExit line = false →
      Stops rest ending → Stops (some line :: rest) ending

theorem isExit_iff {line : String} : isExit line = true ↔ Text.trim line = "exit" := by
  rw [isExit, exitCommand, beq_iff_eq]

section Lines
variable {lines : List (Option String)} {ending : Ending}

theorem Stops.unique {ending' : Ending} (h : Stops lines ending) (h' : Stops lines ending') :
    ending = ending' := by
  induction h with
  | endOfInput | undecodable =>
      cases h'
      rfl
  | exit _ hexit =>
      cases h' with
      | exit => rfl
      | line hexit' => rw [hexit] at hexit'; cases hexit'
  | line hexit _ ih =>
      cases h' with
      | exit _ hexit' => rw [hexit] at hexit'; cases hexit'
      | line _ h' => exact ih h'

/-- The exit command ends a session when no line in front of it is not text. -/
theorem stops_exit_iff : Stops lines .exit ↔ ∃ before line after,
    lines = before ++ some line :: after ∧ none ∉ before ∧ isExit line = true := by
  constructor
  · intro h
    generalize hending : Ending.exit = ending at h
    induction h with
    | endOfInput | undecodable => cases hending
    | exit rest hexit => exact ⟨[], _, rest, rfl, List.not_mem_nil, hexit⟩
    | line _ _ ih =>
        obtain ⟨before, line, after, hlines, hbefore, hexit⟩ := ih hending
        refine ⟨some _ :: before, line, after, by rw [hlines]; rfl, ?_, hexit⟩
        simpa using hbefore
  · intro h
    obtain ⟨before, line, after, rfl, hbefore, hexit⟩ := h
    induction before with
    | nil => exact .exit after hexit
    | cons first before ih =>
        rw [List.mem_cons, not_or] at hbefore
        obtain ⟨first, rfl⟩ := Option.ne_none_iff_exists'.mp (Ne.symm hbefore.1)
        cases hfirst : isExit first with
        | true => exact .exit _ hfirst
        | false => exact .line hfirst (ih hbefore.2)

/-- A line that is not text ends a session unless the exit command stands in front of it. -/
theorem stops_undecodable {before : List (Option String)}
    (hbefore : ∀ line, some line ∈ before → isExit line = false) (after : List (Option String)) :
    Stops (before ++ none :: after) .undecodable := by
  induction before with
  | nil => exact .undecodable after
  | cons first before ih =>
      cases first with
      | none => exact .undecodable _
      | some first =>
          refine .line (hbefore first (List.mem_cons_self ..)) (ih fun line hline => ?_)
          exact hbefore line (List.mem_cons_of_mem _ hline)

theorem asksExit_iff_stops : asksExit lines = true ↔ Stops lines .exit := by
  induction lines with
  | nil =>
      constructor
      · intro h; cases h
      · intro h; cases h
  | cons line rest ih =>
      cases line with
      | none =>
          constructor
          · intro h; cases h
          · intro h; cases h
      | some line =>
          rw [asksExit, Bool.or_eq_true, ih]
          constructor
          · intro h
            rcases h with hexit | hrest
            · exact .exit rest hexit
            · cases hexit : isExit line with
              | true => exact .exit rest hexit
              | false => exact .line hexit hrest
          · intro h
            cases h with
            | exit _ hexit => exact .inl hexit
            | line _ hrest => exact .inr hrest

theorem ending_reply_of_not_exit {line : String} (hexit : isExit line = false) (traced : Bool) :
    (reply traced (some line)).ending = none := by
  rw [ending_reply_eq_none_iff]
  refine ⟨line, rfl, fun h => ?_⟩
  rw [isExit_iff.mpr h] at hexit
  cases hexit

theorem stops_consoleFrom (traced : Bool) (done : List Action) (lines : List (Option String)) :
    Stops lines (consoleFrom traced done lines).2 := by
  induction lines generalizing done with
  | nil => exact .endOfInput
  | cons line rest ih =>
      cases line with
      | none => exact .undecodable rest
      | some line =>
          rw [consoleFrom]
          cases hexit : isExit line with
          | true =>
              simp only [reply, hexit, if_true]
              exact .exit rest hexit
          | false =>
              rw [ending_reply_of_not_exit hexit]
              exact .line hexit (ih _)

theorem exitReceived_not_mem_reply {line : String} (hexit : isExit line = false) (traced : Bool) :
    .announce ⟨none, .exitReceived⟩ ∉ (reply traced (some line)).actions := by
  simp only [reply, hexit, Bool.false_eq_true, if_false]
  split
  · exact List.not_mem_nil
  · simp [consoleAnswer, announcements, traceActions, Evaluation.occurrences, traceLines]

theorem Stops.exitReceived_mem_iff (h : Stops lines ending) (traced : Bool) (done : List Action) :
    .announce ⟨none, .exitReceived⟩ ∈ (consoleFrom traced done lines).1 ↔
      .announce ⟨none, .exitReceived⟩ ∈ done ∨ ending = .exit := by
  induction h generalizing done with
  | endOfInput => simp [consoleFrom, closing, prompt]
  | undecodable => simp [consoleFrom, reply, prompt]
  | exit _ hexit => simp [consoleFrom, reply, hexit]
  | @line line rest ending hexit hrest ih =>
      rw [consoleFrom, ending_reply_of_not_exit hexit]
      simp [ih, exitReceived_not_mem_reply hexit, prompt]

end Lines

theorem result_console_iff (traced : Bool) (input : List UInt8) (ending : Ending) :
    (call none (console traced input)).result = .value ending ↔
      Stops (Text.textLines input) ending := by
  have hstops := stops_consoleFrom traced [] (Text.textLines input)
  rw [call_none, Return.value.injEq]
  constructor
  · intro hending
    exact hending ▸ hstops
  · exact hstops.unique

/-- In terms of the bytes of the lines, those in front of the exit command are well-formed. -/
theorem stops_textLines_exit_iff (input : List UInt8) :
    Stops (Text.textLines input) .exit ↔ ∃ before line after s,
      Text.lines input = before ++ line :: after ∧ (∀ l ∈ before, ∃ t, Text.decode? l = some t) ∧
        Text.decode? line = some s ∧ Text.trim s = "exit" := by
  rw [stops_exit_iff, Text.textLines]
  constructor
  · intro h
    obtain ⟨before, s, after, hlines, hbefore, hexit⟩ := h
    obtain ⟨before, rest, hsplit, rfl, hrest⟩ := List.map_eq_append_iff.mp hlines
    obtain ⟨line, after, rfl, hline, -⟩ := List.map_eq_cons_iff.mp hrest
    refine ⟨before, line, after, s, hsplit, fun l hl => ?_, hline, isExit_iff.mp hexit⟩
    apply Option.ne_none_iff_exists'.mp
    intro hnone
    exact hbefore (hnone ▸ List.mem_map_of_mem hl)
  · intro h
    obtain ⟨before, line, after, s, hsplit, hbefore, hline, hexit⟩ := h
    refine ⟨before.map Text.decode?, s, after.map Text.decode?, by simp [hsplit, hline], ?_,
      isExit_iff.mpr hexit⟩
    intro hmem
    obtain ⟨l, hl, hnone⟩ := List.mem_map.mp hmem
    obtain ⟨t, ht⟩ := hbefore l hl
    rw [ht] at hnone
    cases hnone

/-- A service that listens and gets no signal goes on unless its input asks for the exit. -/
theorem code_service_eq_none_iff {socket : UInt16} {surroundings : Surroundings}
    (hfree : surroundings.taken socket = false) (hsignal : surroundings.signal = none) :
    (Launch.service socket surroundings).code = none ↔
      asksExit (Text.textLines surroundings.input) = false := by
  rw [Launch.service, if_neg (by simp [hfree]), Launch.stopCause, hsignal]
  cases asksExit (Text.textLines surroundings.input) <;> simp

/-- The service is asked to stop on exactly the inputs on which the console ends by the exit
command, which it announces: some line is the command but for blanks, and all lines in front of
it are well-formed. Behind a line that is not, with no command in front of it, neither obeys
the command, and the service goes on there and at the end of its input. -/
theorem asksExit_iff_console_exits (traced : Bool) (input : List UInt8) :
    (asksExit (Text.textLines input) = true ↔
      (call none (console traced input)).result = .value .exit) ∧
    ((call none (console traced input)).result = .value .exit ↔
      .announce ⟨none, .exitReceived⟩ ∈ (console traced input).1) ∧
    (asksExit (Text.textLines input) = true ↔
      ∃ before line after s, Text.lines input = before ++ line :: after ∧
        (∀ l ∈ before, ∃ t, Text.decode? l = some t) ∧ Text.decode? line = some s ∧
          Text.trim s = "exit") ∧
    (∀ before line after, Text.lines input = before ++ line :: after →
      Text.decode? line = none →
      (∀ l ∈ before, ∀ t, Text.decode? l = some t → Text.trim t ≠ "exit") →
        asksExit (Text.textLines input) = false ∧
          (call none (console traced input)).result = .value .undecodable) ∧
    ∀ (socket : UInt16) (surroundings : Surroundings), surroundings.input = input →
      surroundings.taken socket = false → surroundings.signal = none →
        ((Launch.service socket surroundings).code = none ↔
          asksExit (Text.textLines input) = false) := by
  have hstops := stops_consoleFrom traced [] (Text.textLines input)
  have hannounced := hstops.exitReceived_mem_iff traced []
  refine ⟨asksExit_iff_stops.trans (result_console_iff traced input .exit).symm,
    (result_console_iff traced input .exit).trans ?_,
    asksExit_iff_stops.trans (stops_textLines_exit_iff input), ?_, ?_⟩
  · rw [console, hannounced]
    constructor
    · intro hexit
      exact .inr (hstops.unique hexit)
    · intro h
      rcases h with h | h
      · cases h
      · exact h ▸ hstops
  · intro before line after hlines hline hbefore
    have hundecodable : Stops (Text.textLines input) .undecodable := by
      rw [Text.textLines, hlines, List.map_append, List.map_cons, hline]
      refine stops_undecodable (fun s hs => ?_) _
      obtain ⟨l, hl, ht⟩ := List.mem_map.mp hs
      rw [Bool.eq_false_iff, ne_eq, isExit_iff]
      exact hbefore l hl s ht
    refine ⟨?_, (result_console_iff traced input .undecodable).mpr hundecodable⟩
    rw [Bool.eq_false_iff, ne_eq, asksExit_iff_stops]
    intro hexit
    cases hexit.unique hundecodable
  · intro socket surroundings hinput hfree hsignal
    rw [← hinput]
    exact code_service_eq_none_iff hfree hsignal

/-- The exit command behind a line that is not text. -/
theorem asksExit_iff_console_exits_undecodable :
    let input := Text.encode "1+1\n" ++ 0xff :: Text.encode "\n exit\r\n"
    let surroundings : Surroundings := ⟨none, input, none, fun _ => false⟩
    Text.lines input = [Text.encode "1+1"] ++ [0xff] :: [Text.encode " exit"] ∧
      Text.decode? [0xff] = none ∧
      (∀ l ∈ [Text.encode "1+1"], ∀ t, Text.decode? l = some t → Text.trim t ≠ "exit") ∧
      asksExit (Text.textLines input) = false ∧
      (call none (console false input)).result = .value .undecodable ∧
      (Launch.service 0 surroundings).code = none := by
  dsimp only
  have hlines : Text.lines (Text.encode "1+1\n" ++ 0xff :: Text.encode "\n exit\r\n") =
      [Text.encode "1+1"] ++ [0xff] :: [Text.encode " exit"] := by decide +kernel
  have hline : Text.decode? [0xff] = none := by decide +kernel
  have hbefore : ∀ l ∈ [Text.encode "1+1"], ∀ t, Text.decode? l = some t →
      Text.trim t ≠ "exit" := by
    intro l hl t ht
    have hdecode : Text.decode? (Text.encode "1+1") = some "1+1" := by decide +kernel
    rw [List.mem_singleton.mp hl, hdecode] at ht
    obtain rfl := Option.some.inj ht
    decide +kernel
  obtain ⟨-, -, -, hundecodable, hservice⟩ := asksExit_iff_console_exits false
    (Text.encode "1+1\n" ++ 0xff :: Text.encode "\n exit\r\n")
  obtain ⟨hasked, hresult⟩ := hundecodable _ _ _ hlines hline hbefore
  exact ⟨hlines, hline, hbefore, hasked, hresult, (hservice 0 _ rfl rfl rfl).mpr hasked⟩

end Calculator.Session
