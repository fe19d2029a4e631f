import Calculator.Event
import Calculator.Proofs.Tracing

/-!
# What the stages announce

A stage adds its events to those announced before it and takes none away, whether it
is carried out alone or in an evaluation. An evaluation announces the progress it
makes: what the stages passed produced, the operations, and the defect, if one was found.
-/

namespace Calculator

@[simp] theorem run_announce (event : Event) (before : List Event) :
    (announce event).run before = pure ((), event :: before) := rfl

@[simp] theorem run_announceAll (events before : List Event) :
    (announceAll events).run before = pure ((), events.reverse ++ before) := by
  induction events generalizing before with
  | nil => rfl
  | cons event events ih =>
      calc (announceAll (event :: events)).run before
          = (announceAll events).run (event :: before) := rfl
        _ = pure ((), events.reverse ++ event :: before) := ih _
        _ = pure ((), (event :: events).reverse ++ before) := by simp

/-- A division by zero ends a stage without an event. -/
@[simp] theorem run_announceOutcome {α : Type} (outcome : Except Fault α) (before : List Event) :
    (announceOutcome outcome).run.run before =
      match outcome with
      | .ok result => pure (.ok result, before)
      | .error (.defect defect) => pure (.error .invalidExpression, .defectFound defect :: before)
      | .error .zeroDivisor => pure (.error .divisionByZero, before) := by
  cases outcome with
  | ok result => rfl
  | error fault => cases fault <;> rfl

@[simp] theorem Token.run_announceScan (text : String) (before : List Event) :
    (announceScan text).run.run before =
      match scan text with
      | .ok tokens => pure (.ok tokens, before)
      | .error defect => pure (.error .invalidExpression, .defectFound defect :: before) := by
  rw [announceScan, run_announceOutcome]
  cases scan text <;> rfl

namespace Rpn

@[simp] theorem run_announceConversion (tokens : List Token) (before : List Event) :
    (announceConversion tokens).run.run before =
      match ofTokens tokens with
      | .ok rpn => pure (.ok rpn, before)
      | .error defect => pure (.error .invalidExpression, .defectFound defect :: before) := by
  rw [announceConversion, run_announceOutcome]
  cases ofTokens tokens <;> rfl

@[simp] theorem run_announceCalculation (tokens : List Token) (before : List Event) :
    (announceCalculation tokens).run.run before =
      (announceOutcome (value tokens)).run.run
        (((calculate tokens).operations.map .operationDone).reverse ++ before) := by
  simp [announceCalculation, value, ExceptT.run_bind]

end Rpn

/-- The stages end as the evaluation does, and announce the progress it makes. -/
theorem Progress.OfEntry.run_announceStages {entry : String} {p : Progress} (h : OfEntry entry p)
    (before : List Event) :
    (announceStages entry).run.run before =
      pure (p.outcome, ((p.tokens.map Event.tokensRead).toList ++
        (p.rpn.map Event.rpnMade).toList ++ p.operations.map Event.operationDone ++
          (p.defect.map Event.defectFound).toList).reverse ++ before) := by
  rw [announceStages]
  cases h with
  | start hvalid => simp [hvalid, outcome, tokens, rpn, operations, defect]
  | checked hvalid hscan =>
      simp [ExceptT.run_bind, hvalid, hscan, outcome, tokens, rpn, operations, defect]
  | scanned hvalid hscan hof =>
      simp [ExceptT.run_bind, hvalid, hscan, hof, outcome, tokens, rpn, operations, defect]
  | @converted _ _ fault hvalid hscan hof hvalue =>
      cases fault <;>
        simp [ExceptT.run_bind, hvalid, hscan, hof, hvalue, outcome, Fault.failure, tokens, rpn,
          operations, defect]
  | evaluated hvalid hscan hof hvalue =>
      simp [ExceptT.run_bind, hvalid, hscan, hof, hvalue, outcome, tokens, rpn, operations, defect]

theorem Progress.OfEntry.run_announceEvaluation {s : String} {p : Progress}
    (h : OfEntry (Text.strip s) p) (traced : Bool) (before : List Event) :
    (announceEvaluation (.ofExpression s) traced).run before =
      pure (p.outcome, .ofOutcome (if traced then some p.stage else none) p.outcome ::
        ((announceStages (Text.strip s)).run.run before).2) := by
  rw [announceEvaluation, StateT.run_bind, Evaluation.ofExpression, ← h.eq_ofEntry,
    h.run_announceStages, pure_bind]
  rfl

end Calculator
