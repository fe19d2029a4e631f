import Calculator.Proofs.Outcome

/-!
# Traced evaluation

A traced evaluation empties the trace it is given and then writes each stage into it
as the stage is passed, so that a failure leaves what had been written until then.
Whatever the trace was before, the outcome is that of the evaluation without a trace,
and the trace that is left tells the progress of this evaluation and nothing else: the
fields of the stages that were not passed are empty, and the failure is the one that is
returned.
-/

namespace Calculator

/-- The progress of an evaluation, by the first stage that is not passed. -/
inductive Progress.OfEntry (entry : String) : Progress → Prop
  | start : isValid entry = false → OfEntry entry .start
  | checked {defect : Defect} : isValid entry = true → Token.scan entry = .error defect →
      OfEntry entry (.checked defect)
  | scanned {tokens : List Token} {defect : Defect} : isValid entry = true →
      Token.scan entry = .ok tokens → Rpn.ofTokens tokens = .error defect →
      OfEntry entry (.scanned tokens defect)
  | converted {tokens rpn : List Token} {fault : Fault} : isValid entry = true →
      Token.scan entry = .ok tokens → Rpn.ofTokens tokens = .ok rpn →
      Rpn.value rpn = .error fault →
      OfEntry entry (.converted tokens rpn (Rpn.calculate rpn).operations fault)
  | evaluated {tokens rpn : List Token} {value : Float} : isValid entry = true →
      Token.scan entry = .ok tokens → Rpn.ofTokens tokens = .ok rpn →
      Rpn.value rpn = .ok value →
      OfEntry entry (.evaluated tokens rpn (Rpn.calculate rpn).operations value)

namespace Progress

theorem OfEntry.eq_ofEntry {entry : String} {p : Progress} (h : OfEntry entry p) :
    p = ofEntry entry := by
  cases h with
  | start hvalid => simp [ofEntry, hvalid]
  | checked hvalid hscan => simp [ofEntry, hvalid, hscan]
  | scanned hvalid hscan hrpn => simp [ofEntry, hvalid, hscan, hrpn]
  | converted hvalid hscan hrpn hvalue =>
      rw [Rpn.value] at hvalue
      simp [ofEntry, hvalid, hscan, hrpn, hvalue]
  | evaluated hvalid hscan hrpn hvalue =>
      rw [Rpn.value] at hvalue
      simp [ofEntry, hvalid, hscan, hrpn, hvalue]

theorem exists_ofEntry (entry : String) : ∃ p, OfEntry entry p := by
  cases hvalid : isValid entry with
  | false => exact ⟨_, .start hvalid⟩
  | true =>
      cases hscan : Token.scan entry with
      | error defect => exact ⟨_, .checked hvalid hscan⟩
      | ok tokens =>
          cases hrpn : Rpn.ofTokens tokens with
          | error defect => exact ⟨_, .scanned hvalid hscan hrpn⟩
          | ok rpn =>
              cases hvalue : Rpn.value rpn with
              | error fault => exact ⟨_, .converted hvalid hscan hrpn hvalue⟩
              | ok value => exact ⟨_, .evaluated hvalid hscan hrpn hvalue⟩

theorem ofEntry_ofEntry (entry : String) : OfEntry entry (ofEntry entry) := by
  obtain ⟨p, hp⟩ := exists_ofEntry entry
  rwa [← hp.eq_ofEntry]

theorem OfEntry.stage_of_divisionByZero {entry : String} {p : Progress} (h : OfEntry entry p)
    (hp : p.outcome = .error .divisionByZero) : p.stage = .converted := by
  cases h with
  | converted => rfl
  | start | checked | scanned | evaluated => cases hp

theorem stage_eq_evaluated_iff (p : Progress) :
    p.stage = .evaluated ↔ ∃ v, p.outcome = .ok v := by
  cases p <;> simp [stage, outcome]

end Progress

theorem Progress.OfEntry.run_traceStages {entry : String} {p : Progress} (h : OfEntry entry p) :
    (traceStages entry).run .empty =
      pure (p.outcome,
        ⟨entry, p.tokens.elim "" Token.format, p.rpn.elim "" Token.format, p.stage, none⟩) := by
  cases h with
  | start hvalid => simp [traceStages, Trace.empty, hvalid, outcome, tokens, rpn, stage]
  | checked hvalid hscan =>
      simp [traceStages, Trace.empty, hvalid, hscan, outcome, tokens, rpn, stage]
  | scanned hvalid hscan hrpn =>
      simp [traceStages, Trace.empty, hvalid, hscan, hrpn, outcome, tokens, rpn, stage]
  | converted hvalid hscan hrpn hvalue =>
      simp [traceStages, hvalid, hscan, hrpn, hvalue, outcome, tokens, rpn, stage, Trace.empty]
  | evaluated hvalid hscan hrpn hvalue =>
      simp [traceStages, hvalid, hscan, hrpn, hvalue, outcome, tokens, rpn, stage, Trace.empty]

/-- A traced evaluation has the outcome of an evaluation, and leaves its trace. -/
theorem run_evaluateTraced (s : String) (before : Trace) :
    (evaluateTraced s).run before = pure (evaluate s, (Evaluation.ofExpression s).trace) := by
  have hrun := (Progress.ofEntry_ofEntry (Text.strip s)).run_traceStages
  simp only [evaluateTraced, StateT.run_bind, StateT.run_set, pure_bind, hrun, evaluate,
    Evaluation.trace, Evaluation.outcome, Evaluation.ofExpression]
  cases (Progress.ofEntry (Text.strip s)).outcome with
  | error failure => simp
  | ok v => simp

theorem trace_evaluateTraced (s : String) (before : Trace) :
    ((evaluateTraced s).run before).2 = (Evaluation.ofExpression s).trace := by
  rw [run_evaluateTraced]
  rfl

/-- Of evaluations one after another only the last one is left in the trace. -/
theorem run_mapM_evaluateTraced (earlier : List String) (s : String) (before : Trace) :
    ((earlier ++ [s]).mapM evaluateTraced).run before =
      pure ((earlier ++ [s]).map evaluate, (Evaluation.ofExpression s).trace) := by
  -- Each call finds the trace that the call before it left.
  induction earlier generalizing before with
  | nil => simp [run_evaluateTraced]
  | cons r earlier ih =>
      rw [List.cons_append, List.mapM_cons, StateT.run_bind, run_evaluateTraced, pure_bind,
        StateT.run_bind, ih]
      simp

/-- The stages are passed in this order. -/
instance : LE Stage where
  le s t := s.ctorIdx ≤ t.ctorIdx

instance : DecidableLE Stage :=
  fun s t => inferInstanceAs (Decidable (s.ctorIdx ≤ t.ctorIdx))

namespace Progress

theorem scanned_le_stage_iff (p : Progress) :
    .scanned ≤ p.stage ↔ ∃ tokens, p.tokens = some tokens := by
  cases p <;> simp +decide [stage, tokens]

theorem converted_le_stage_iff (p : Progress) :
    .converted ≤ p.stage ↔ ∃ rpn, p.rpn = some rpn := by
  cases p <;> simp +decide [stage, rpn]

variable {entry : String} {p : Progress} {tokens rpn : List Token}

theorem OfEntry.scan_eq_ok (h : OfEntry entry p) (htokens : p.tokens = some tokens) :
    Token.scan entry = .ok tokens := by
  cases h with
  | start | checked => cases htokens
  | scanned _ hscan _ | converted _ hscan _ _ | evaluated _ hscan _ _ =>
      cases htokens
      exact hscan

theorem OfEntry.ofTokens_eq_ok (h : OfEntry entry p) (hrpn : p.rpn = some rpn) :
    ∃ tokens, Token.scan entry = .ok tokens ∧ Rpn.ofTokens tokens = .ok rpn := by
  cases h with
  | start | checked | scanned => cases hrpn
  | converted _ hscan hof _ | evaluated _ hscan hof _ =>
      cases hrpn
      exact ⟨_, hscan, hof⟩

end Progress

/-- The trace tells how the evaluation of an expression went. -/
structure Trace.Tells (t : Trace) (s : String) : Prop where
  entry_eq : t.entry = Text.strip s
  stage_eq : ∃ p, Progress.OfEntry t.entry p ∧ t.stage = p.stage
  tokens_of_scanned : .scanned ≤ t.stage →
    ∃ tokens, Token.scan t.entry = .ok tokens ∧ t.tokens = Token.format tokens
  tokens_of_not_scanned : ¬ .scanned ≤ t.stage → t.tokens = ""
  rpn_of_converted : .converted ≤ t.stage →
    ∃ tokens rpn, Token.scan t.entry = .ok tokens ∧ Rpn.ofTokens tokens = .ok rpn ∧
      t.rpn = Token.format rpn
  rpn_of_not_converted : ¬ .converted ≤ t.stage → t.rpn = ""
  failure_eq : t.failure = match evaluate s with
    | .ok _ => none
    | .error failure => some failure

/-- An expression determines the trace that tells about it. -/
theorem Trace.Tells.unique {t t' : Trace} {s : String} (h : t.Tells s) (h' : t'.Tells s) :
    t = t' := by
  -- The entry fixes the stage, and the two together fix the texts.
  have hentry : t.entry = t'.entry := h.entry_eq.trans h'.entry_eq.symm
  have hstage : t.stage = t'.stage := by
    obtain ⟨p, hp, hstage⟩ := h.stage_eq
    obtain ⟨p', hp', hstage'⟩ := h'.stage_eq
    rw [hstage, hstage', hp.eq_ofEntry, hp'.eq_ofEntry, hentry]
  have htokens : t.tokens = t'.tokens := by
    by_cases hscanned : .scanned ≤ t.stage
    · obtain ⟨tokens, hscan, htokens⟩ := h.tokens_of_scanned hscanned
      obtain ⟨tokens', hscan', htokens'⟩ := h'.tokens_of_scanned (hstage ▸ hscanned)
      rw [← hentry, hscan] at hscan'
      cases hscan'
      exact htokens.trans htokens'.symm
    · rw [h.tokens_of_not_scanned hscanned, h'.tokens_of_not_scanned (hstage ▸ hscanned)]
  have hrpn : t.rpn = t'.rpn := by
    by_cases hconverted : .converted ≤ t.stage
    · obtain ⟨tokens, rpn, hscan, hof, hrpn⟩ := h.rpn_of_converted hconverted
      obtain ⟨tokens', rpn', hscan', hof', hrpn'⟩ := h'.rpn_of_converted (hstage ▸ hconverted)
      rw [← hentry, hscan] at hscan'
      cases hscan'
      rw [hof] at hof'
      cases hof'
      exact hrpn.trans hrpn'.symm
    · rw [h.rpn_of_not_converted hconverted, h'.rpn_of_not_converted (hstage ▸ hconverted)]
  have hfailure : t.failure = t'.failure := h.failure_eq.trans h'.failure_eq.symm
  obtain ⟨entry, tokens, rpn, stage, failure⟩ := t
  obtain ⟨entry', tokens', rpn', stage', failure'⟩ := t'
  rw [Trace.mk.injEq]
  exact ⟨hentry, htokens, hrpn, hstage, hfailure⟩

theorem evaluate_eq_outcome_ofEntry (s : String) :
    evaluate s = (Progress.ofEntry (Text.strip s)).outcome := by
  simp only [evaluate, Evaluation.outcome, Evaluation.ofExpression]

theorem Progress.OfEntry.tells {s : String} {p : Progress} (h : OfEntry (Text.strip s) p) :
    (Evaluation.trace ⟨s, Text.strip s, p⟩).Tells s where
  entry_eq := rfl
  stage_eq := ⟨p, h, rfl⟩
  tokens_of_scanned hstage := by
    obtain ⟨tokens, htokens⟩ := p.scanned_le_stage_iff.mp hstage
    refine ⟨tokens, h.scan_eq_ok htokens, ?_⟩
    simp [Evaluation.trace, htokens]
  tokens_of_not_scanned hstage := by
    have htokens : p.tokens = none := by
      simpa [Option.eq_none_iff_forall_ne_some] using mt p.scanned_le_stage_iff.mpr hstage
    simp [Evaluation.trace, htokens]
  rpn_of_converted hstage := by
    obtain ⟨rpn, hrpn⟩ := p.converted_le_stage_iff.mp hstage
    obtain ⟨tokens, hscan, hof⟩ := h.ofTokens_eq_ok hrpn
    refine ⟨tokens, rpn, hscan, hof, ?_⟩
    simp [Evaluation.trace, hrpn]
  rpn_of_not_converted hstage := by
    have hrpn : p.rpn = none := by
      simpa [Option.eq_none_iff_forall_ne_some] using mt p.converted_le_stage_iff.mpr hstage
    simp [Evaluation.trace, hrpn]
  failure_eq := by
    rw [evaluate_eq_outcome_ofEntry, ← h.eq_ofEntry]
    rfl

theorem Evaluation.trace_tells (s : String) : (ofExpression s).trace.Tells s :=
  (Progress.ofEntry_ofEntry (Text.strip s)).tells

theorem Evaluation.stage_trace_eq_evaluated_iff (s : String) :
    (ofExpression s).trace.stage = .evaluated ↔ ∃ v, evaluate s = .ok v := by
  simp only [evaluate_eq_outcome_ofEntry, trace, ofExpression, Progress.stage_eq_evaluated_iff]

theorem Evaluation.stage_trace_of_divisionByZero {s : String}
    (h : evaluate s = .error .divisionByZero) : (ofExpression s).trace.stage = .converted := by
  rw [evaluate_eq_outcome_ofEntry] at h
  simp only [trace, ofExpression]
  exact (Progress.ofEntry_ofEntry (Text.strip s)).stage_of_divisionByZero h

theorem evaluate_congr {s s' : String} (h : Text.strip s = Text.strip s') :
    evaluate s = evaluate s' := by
  rw [evaluate_eq, evaluate_eq, h]

theorem Evaluation.trace_congr {s s' : String} (h : Text.strip s = Text.strip s') :
    (ofExpression s).trace = (ofExpression s').trace := by
  simp only [trace, outcome, ofExpression, h]

/-- A traced evaluation has the outcome of an evaluation and leaves the one trace that
tells about its expression, whatever trace it is given and whatever was evaluated over
that trace before. -/
theorem evaluateTraced_leaves_trace (s : String) :
    ∃ t : Trace, (∀ t' : Trace, t'.Tells s ↔ t' = t) ∧
      (∀ before : Trace, (evaluateTraced s).run before = pure (evaluate s, t)) ∧
      (∀ (earlier : List String) (before : Trace),
        ((earlier ++ [s]).mapM evaluateTraced).run before =
          pure ((earlier ++ [s]).map evaluate, t)) ∧
      (t.stage = .evaluated ↔ ∃ v, evaluate s = .ok v) ∧
      (evaluate s = .error .divisionByZero → t.stage = .converted) := by
  have htells := Evaluation.trace_tells s
  refine ⟨(Evaluation.ofExpression s).trace, fun t' => ?_, run_evaluateTraced s,
    fun earlier => run_mapM_evaluateTraced earlier s, ?_, ?_⟩
  · refine ⟨fun h => h.unique htells, ?_⟩
    rintro rfl
    exact htells
  · exact Evaluation.stage_trace_eq_evaluated_iff s
  · exact Evaluation.stage_trace_of_divisionByZero

/-- A division by zero is found after the conversion. -/
theorem evaluateTraced_one_by_zero :
    evaluate "1 / 0" = .error .divisionByZero ∧
      ∃ t : Trace, (∀ before : Trace,
        (evaluateTraced "1 / 0").run before = pure (.error .divisionByZero, t)) ∧
        t.stage = .converted := by
  have h : evaluate "1 / 0" = .error .divisionByZero := by decide +kernel
  obtain ⟨t, -, hrun, -, -, hstage⟩ := evaluateTraced_leaves_trace "1 / 0"
  rw [h] at hrun
  exact ⟨h, t, hrun, hstage h⟩

end Calculator
