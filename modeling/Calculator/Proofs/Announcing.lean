import Calculator.Proofs.Emitting

/-!
# What an evaluation announces

The events of an evaluation tell how far it came: one for the tokens and one for the list in
reverse Polish notation when the stage is passed, one for each operation that is carried out,
and one for what is found wrong, if the expression is malformed and over the right alphabet. The
last event is the outcome, and only this one depends on whether the evaluation is traced.
-/

namespace Calculator

/-- The operator of a token. -/
def Token.operator? : Token → Option Operator
  | .operator op => some op
  | _ => none

namespace Rpn

/-- Carrying out tokens on a stack of numbers: the operations, in the order of their operators,
and the stack that is left. -/
inductive Performs : List Float → List Token → List Operation → List Float → Prop
  | nil (stack : List Float) : Performs stack [] [] stack
  | number {stack final : List Float} {tokens : List Token} {operations : List Operation}
      (value : Float) : Performs (value :: stack) tokens operations final →
      Performs stack (.number value :: tokens) operations final
  | operator {stack final : List Float} {tokens : List Token} {operations : List Operation}
      {op : Operator} {left right result : Float} : op.apply left right = some result →
      Performs (result :: stack) tokens operations final →
      Performs (right :: left :: stack) (.operator op :: tokens)
        (⟨left, op, right, result⟩ :: operations) final

/-- How a calculation ends with a stack, in front of tokens that are not carried out. -/
inductive Ends : List Float → List Token → Except Fault Float → Prop
  | value (value : Float) : Ends [value] [] (.ok value)
  | leftover {stack : List Float} : stack.length ≠ 1 →
      Ends stack [] (.error (.defect (.leftover stack.length)))
  | missingOperand {stack : List Float} (op : Operator) (rest : List Token) : stack.length < 2 →
      Ends stack (.operator op :: rest) (.error (.defect (.missingOperand op)))
  | zeroDivisor {stack : List Float} {op : Operator} {left right : Float} (rest : List Token) :
      op.apply left right = none →
      Ends (right :: left :: stack) (.operator op :: rest) (.error .zeroDivisor)
  | unexpectedToken {t : Token} (stack : List Float) (rest : List Token) : t.isKept = false →
      Ends stack (t :: rest) (.error (.defect (.unexpectedToken t)))

/-- A calculation carries out the tokens at the front, up to what ends it. -/
def Calculates (stack : List Float) (tokens : List Token) (operations : List Operation)
    (outcome : Except Fault Float) : Prop :=
  ∃ front rest final, tokens = front ++ rest ∧ Performs stack front operations final ∧
    Ends final rest outcome

section Steps
variable {stack final : List Float} {tokens : List Token} {operations done : List Operation}
  {outcome : Except Fault Float}

theorem Ends.calculates (h : Ends stack tokens outcome) (done : List Operation) :
    ∃ operations, done.reverse = done.reverse ++ operations ∧
      Calculates stack tokens operations outcome :=
  ⟨[], (List.append_nil _).symm, [], tokens, stack, rfl, .nil stack, h⟩

theorem Calculates.number (value : Float)
    (h : Calculates (value :: stack) tokens operations outcome) :
    Calculates stack (.number value :: tokens) operations outcome := by
  obtain ⟨front, rest, final, rfl, hfront, hrest⟩ := h
  exact ⟨_, rest, final, rfl, hfront.number value, hrest⟩

theorem Calculates.operator {op : Operator} {left right result : Float}
    (hop : op.apply left right = some result)
    (h : Calculates (result :: stack) tokens operations outcome) :
    Calculates (right :: left :: stack) (.operator op :: tokens)
      (⟨left, op, right, result⟩ :: operations) outcome := by
  obtain ⟨front, rest, final, rfl, hfront, hrest⟩ := h
  exact ⟨_, rest, final, rfl, .operator hop hfront, hrest⟩

end Steps

theorem calculates_calculateFrom (done : List Operation) (stack : List Float)
    (tokens : List Token) :
    ∃ operations, (calculateFrom done stack tokens).operations = done.reverse ++ operations ∧
      Calculates stack tokens operations (calculateFrom done stack tokens).outcome := by
  induction tokens generalizing done stack with
  | nil =>
      rcases stack with _ | ⟨value, _ | ⟨below, stack⟩⟩
      · exact (Ends.leftover (by simp)).calculates done
      · exact (Ends.value value).calculates done
      · exact (Ends.leftover (by simp)).calculates done
  | cons t rest ih =>
      cases t with
      | number value =>
          obtain ⟨operations, hoperations, h⟩ := ih done (value :: stack)
          rw [calculateFrom]
          exact ⟨operations, hoperations, h.number value⟩
      | operator op =>
          rcases stack with _ | ⟨right, _ | ⟨left, stack⟩⟩
          · exact (Ends.missingOperand op rest (by simp)).calculates done
          · exact (Ends.missingOperand op rest (by simp)).calculates done
          · rw [calculateFrom]
            cases hop : op.apply left right with
            | none => exact (Ends.zeroDivisor rest hop).calculates done
            | some result =>
                obtain ⟨operations, hoperations, h⟩ :=
                  ih (⟨left, op, right, result⟩ :: done) (result :: stack)
                refine ⟨⟨left, op, right, result⟩ :: operations, ?_, h.operator hop⟩
                rw [hoperations, List.reverse_cons, List.append_assoc, List.singleton_append]
      | leftParen | rightParen | emptyGroup =>
          simp only [calculateFrom]
          exact (Ends.unexpectedToken stack rest rfl).calculates done

theorem calculates_calculate (tokens : List Token) :
    Calculates [] tokens (calculate tokens).operations (value tokens) := by
  obtain ⟨operations, hoperations, h⟩ := calculates_calculateFrom [] [] tokens
  rw [value, calculate, hoperations]
  exact h

section Performed
variable {stack final : List Float} {tokens : List Token} {operations : List Operation}

theorem Performs.apply_eq (h : Performs stack tokens operations final) :
    ∀ o ∈ operations, o.operator.apply o.left o.right = some o.result := by
  induction h with
  | nil => exact List.forall_mem_nil _
  | number _ _ ih => exact ih
  | operator hop _ ih => exact List.forall_mem_cons.mpr ⟨hop, ih⟩

theorem Performs.map_operator (h : Performs stack tokens operations final) :
    operations.map Operation.operator = tokens.filterMap Token.operator? := by
  induction h with
  | nil => rfl
  | number value _ ih => exact ih
  | operator _ _ ih => rw [List.map_cons, ih, List.filterMap_cons, Token.operator?]

theorem Performs.subset_of_nil (h : Performs stack tokens [] final) : stack ⊆ final := by
  generalize hnone : ([] : List Operation) = operations at h
  induction h with
  | nil stack => exact List.Subset.refl stack
  | number value _ ih => exact List.Subset.trans (List.subset_cons_self value _) (ih hnone)
  | operator => cases hnone

theorem Performs.mem_getLast? (h : Performs stack tokens operations final) :
    ∀ o ∈ operations.getLast?, o.result ∈ final := by
  induction h with
  | nil => exact fun _ h => nomatch h
  | number _ _ ih => exact ih
  | @operator stack final tokens operations op left right result _ h ih =>
      cases operations with
      | nil =>
          intro o ho
          obtain rfl : _ = o := Option.some.inj ho
          exact h.subset_of_nil (List.mem_cons_self ..)
      | cons o operations =>
          rw [List.getLast?_cons_cons]
          exact ih

end Performed

/-- A calculation with a value has carried out all operators, and the last result is the value. -/
theorem Calculates.of_ok {tokens : List Token} {operations : List Operation} {v : Float}
    (h : Calculates [] tokens operations (.ok v)) :
    operations.length = (tokens.filterMap Token.operator?).length ∧
      ∀ o ∈ operations.getLast?, o.result = v := by
  obtain ⟨front, rest, final, rfl, hfront, hrest⟩ := h
  cases hrest
  rw [List.append_nil, ← hfront.map_operator, List.length_map]
  exact ⟨rfl, fun o ho => List.mem_singleton.mp (hfront.mem_getLast? o ho)⟩

theorem Calculates.apply_eq {tokens : List Token} {operations : List Operation}
    {outcome : Except Fault Float} (h : Calculates [] tokens operations outcome) :
    ∀ o ∈ operations, o.operator.apply o.left o.right = some o.result := by
  obtain ⟨front, rest, final, -, hfront, -⟩ := h
  exact hfront.apply_eq

theorem length_operators_of_ofTokens {tokens rpn : List Token} (h : ofTokens tokens = .ok rpn) :
    (rpn.filterMap Token.operator?).length = (tokens.filterMap Token.operator?).length := by
  have hkept : (tokens.filter Token.isKept).filterMap Token.operator? =
      tokens.filterMap Token.operator? := by
    rw [List.filterMap_filter]
    congr 1
    funext t
    cases t <;> rfl
  rw [← hkept]
  exact ((ofTokens_perm h).filterMap _).length_eq

end Rpn

/-- The tokens of an expression, if the scanner accepts it. -/
def tokens? (s : String) : Option (List Token) :=
  (Token.scan (Text.strip s)).toOption

/-- The tokens of an expression in reverse Polish notation, if they can be converted. -/
def rpn? (s : String) : Option (List Token) :=
  (tokens? s).bind fun tokens => (Rpn.ofTokens tokens).toOption

/-- The event that tells the outcome, with the stage that a traced evaluation reached. -/
def outcomeEvent (s : String) (traced : Bool) : Event :=
  match evaluate s with
  | .ok value => .evaluationDone value
  | .error failure =>
    .evaluationRefused failure
      (if traced then some ((evaluateTraced s).run .empty).2.stage else none)

/-- What makes an expression malformed, if it is over the right alphabet: the scanner, the
conversion or the calculation did not accept it. -/
inductive Cause (s : String) : Defect → Prop
  | scan {defect : Defect} : isValid (Text.strip s) = true →
      Token.scan (Text.strip s) = .error defect → Cause s defect
  | convert {tokens : List Token} {defect : Defect} : tokens? s = some tokens →
      Rpn.ofTokens tokens = .error defect → Cause s defect
  | calculate {rpn : List Token} {defect : Defect} : rpn? s = some rpn →
      Rpn.value rpn = .error (.defect defect) → Cause s defect

/-- The events of an evaluation, traced or not, with the operations and the cause that are told
in them. -/
structure Announces (s : String) (operations : List Rpn.Operation) (cause : Option Defect) :
    Prop where
  events (traced : Bool) :
    ((Evaluation.ofExpression s).occurrences traced).map Occurrence.event =
      ((tokens? s).map .tokensRead).toList ++ ((rpn? s).map .rpnMade).toList ++
        operations.map .operationDone ++ (cause.map .defectFound).toList ++ [outcomeEvent s traced]
  operations_eq_nil : rpn? s = none → operations = []
  calculates {rpn : List Token} : rpn? s = some rpn →
    Rpn.Calculates [] rpn operations (Rpn.value rpn)
  apply_eq : ∀ o ∈ operations, o.operator.apply o.left o.right = some o.result
  cause_iff (defect : Defect) : cause = some defect ↔ Cause s defect
  isSome_cause_iff :
    cause.isSome ↔ evaluate s = .error .invalidExpression ∧ isValid (Text.strip s) = true
  of_ok {v : Float} : evaluate s = .ok v → ∃ tokens, tokens? s = some tokens ∧
    operations.length = (tokens.filterMap Token.operator?).length ∧
    ∀ o ∈ operations.getLast?, o.result = v

theorem tokens?_eq_some_iff {s : String} {tokens : List Token} :
    tokens? s = some tokens ↔ Token.scan (Text.strip s) = .ok tokens := by
  rw [tokens?]
  cases Token.scan (Text.strip s) <;> simp [Except.toOption]

theorem rpn?_eq_some_iff {s : String} {rpn : List Token} :
    rpn? s = some rpn ↔
      ∃ tokens, Token.scan (Text.strip s) = .ok tokens ∧ Rpn.ofTokens tokens = .ok rpn := by
  rw [rpn?, Option.bind_eq_some_iff]
  refine exists_congr fun tokens => ?_
  rw [tokens?_eq_some_iff]
  cases Rpn.ofTokens tokens <;> simp [Except.toOption]

namespace Progress.OfEntry
variable {s : String} {p : Progress}

theorem unique {p' : Progress} {entry : String} (h : OfEntry entry p) (h' : OfEntry entry p') :
    p = p' :=
  h.eq_ofEntry.trans h'.eq_ofEntry.symm

theorem tokens?_eq (h : OfEntry (Text.strip s) p) : tokens? s = p.tokens := by
  rw [tokens?]
  cases h with
  | start hvalid =>
      -- The scanner refuses what the check refuses.
      cases hscan : Token.scan (Text.strip s) with
      | error defect => rfl
      | ok tokens => rw [isValid_of_scan hscan] at hvalid; cases hvalid
  | checked _ hscan | scanned _ hscan | converted _ hscan | evaluated _ hscan =>
      rw [hscan]
      rfl

theorem rpn?_eq (h : OfEntry (Text.strip s) p) : rpn? s = p.rpn := by
  rw [rpn?, h.tokens?_eq]
  cases h with
  | start | checked => rfl
  | scanned _ _ hof | converted _ _ hof | evaluated _ _ hof =>
      simp [tokens, hof, rpn, Except.toOption]

theorem cause_iff (h : OfEntry (Text.strip s) p) (defect : Defect) :
    p.defect = some defect ↔ Cause s defect := by
  constructor
  · intro hdefect
    cases h with
    | start => cases hdefect
    | checked hvalid hscan =>
        cases hdefect
        exact .scan hvalid hscan
    | scanned hvalid hscan hof =>
        cases hdefect
        exact .convert (scanned hvalid hscan hof).tokens?_eq hof
    | @converted tokens rpn fault hvalid hscan hof hvalue =>
        cases fault with
        | zeroDivisor => cases hdefect
        | defect =>
            cases hdefect
            exact .calculate (converted hvalid hscan hof hvalue).rpn?_eq hvalue
    | evaluated => cases hdefect
  · intro hcause
    cases hcause with
    | scan hvalid hscan =>
        rw [h.unique (checked hvalid hscan)]
        rfl
    | convert htokens hof =>
        have hscan := tokens?_eq_some_iff.mp htokens
        rw [h.unique (scanned (isValid_of_scan hscan) hscan hof)]
        rfl
    | calculate hrpn hvalue =>
        obtain ⟨tokens, hscan, hof⟩ := rpn?_eq_some_iff.mp hrpn
        rw [h.unique (converted (isValid_of_scan hscan) hscan hof hvalue)]
        rfl

theorem isSome_defect_iff (h : OfEntry (Text.strip s) p) :
    p.defect.isSome ↔ evaluate s = .error .invalidExpression ∧ isValid (Text.strip s) = true := by
  rw [evaluate_eq_outcome_ofEntry, ← h.eq_ofEntry]
  cases h with
  | start hvalid => simp [defect, hvalid]
  | checked hvalid | scanned hvalid | evaluated hvalid => simp [defect, outcome, hvalid]
  | @converted _ _ fault hvalid => cases fault <;> simp [defect, outcome, hvalid, Fault.failure]

theorem events_eq (h : OfEntry (Text.strip s) p) (traced : Bool) :
    ((Evaluation.ofExpression s).occurrences traced).map Occurrence.event =
      ((tokens? s).map .tokensRead).toList ++ ((rpn? s).map .rpnMade).toList ++
        p.operations.map .operationDone ++ (p.defect.map .defectFound).toList ++
          [outcomeEvent s traced] := by
  have hstage : ((evaluateTraced s).run .empty).2.stage = p.stage := by
    rw [trace_evaluateTraced, Evaluation.trace, Evaluation.ofExpression, h.eq_ofEntry]
  have hlast : outcomeEvent s traced =
      .ofOutcome (if traced then some p.stage else none) p.outcome := by
    rw [outcomeEvent, evaluate_eq_outcome_ofEntry, ← h.eq_ofEntry, hstage]
    cases p.outcome <;> rfl
  rw [h.tokens?_eq, h.rpn?_eq, hlast, Evaluation.occurrences, h.run_announceEvaluation,
    h.run_announceStages, Evaluation.ofExpression, List.map_map]
  simp [Function.comp_def, pure]

theorem operations_eq_nil (h : OfEntry (Text.strip s) p) (hrpn : rpn? s = none) :
    p.operations = [] := by
  rw [h.rpn?_eq] at hrpn
  cases h with
  | start | checked | scanned => rfl
  | converted | evaluated => cases hrpn

theorem calculates (h : OfEntry (Text.strip s) p) {rpn : List Token} (hrpn : rpn? s = some rpn) :
    Rpn.Calculates [] rpn p.operations (Rpn.value rpn) := by
  rw [h.rpn?_eq] at hrpn
  cases h with
  | start | checked | scanned => cases hrpn
  | converted | evaluated =>
      cases hrpn
      exact Rpn.calculates_calculate rpn

theorem apply_eq (h : OfEntry (Text.strip s) p) :
    ∀ o ∈ p.operations, o.operator.apply o.left o.right = some o.result := by
  cases hrpn : rpn? s with
  | none =>
      rw [h.operations_eq_nil hrpn]
      exact List.forall_mem_nil _
  | some rpn => exact (h.calculates hrpn).apply_eq

theorem operations_of_ok (h : OfEntry (Text.strip s) p) {v : Float} (hv : evaluate s = .ok v) :
    ∃ tokens, tokens? s = some tokens ∧
      p.operations.length = (tokens.filterMap Token.operator?).length ∧
      ∀ o ∈ p.operations.getLast?, o.result = v := by
  obtain ⟨tokens, rpn, hscan, hof, hvalue⟩ := evaluate_eq_ok_iff.mp hv
  have hcalculates := h.calculates (rpn?_eq_some_iff.mpr ⟨tokens, hscan, hof⟩)
  rw [hvalue] at hcalculates
  obtain ⟨hlength, hlast⟩ := hcalculates.of_ok
  exact ⟨tokens, tokens?_eq_some_iff.mpr hscan,
    hlength.trans (Rpn.length_operators_of_ofTokens hof), hlast⟩

end Progress.OfEntry

/-- Every evaluation announces what it did, its operations and the cause of its failure. -/
theorem evaluation_announces (s : String) : ∃ operations cause, Announces s operations cause := by
  obtain ⟨p, h⟩ := Progress.exists_ofEntry (Text.strip s)
  refine ⟨p.operations, p.defect, ?_⟩
  exact {
    events := h.events_eq
    operations_eq_nil := h.operations_eq_nil
    calculates := h.calculates
    apply_eq := h.apply_eq
    cause_iff := h.cause_iff
    isSome_cause_iff := h.isSome_defect_iff
    of_ok := h.operations_of_ok }

/-- A sum has a value, and its only operation is announced with it. -/
theorem evaluation_announces_sum : evaluate "1 + 2" = .ok 3 ∧
    ∃ operations cause, Announces "1 + 2" operations cause ∧ operations.length = 1 ∧
      (∀ o ∈ operations.getLast?, o.result = 3) ∧ cause = none := by
  have hvalue : evaluate "1 + 2" = .ok 3 := by decide +kernel
  have htokens : tokens? "1 + 2" = some [.number 1, .operator .add, .number 2] := by
    decide +kernel
  obtain ⟨operations, cause, h⟩ := evaluation_announces "1 + 2"
  obtain ⟨tokens, hsome, hlength, hlast⟩ := h.of_ok hvalue
  obtain rfl := Option.some.inj (htokens.symm.trans hsome)
  refine ⟨hvalue, operations, cause, h, hlength, hlast, ?_⟩
  rw [← Option.not_isSome_iff_eq_none, h.isSome_cause_iff, hvalue]
  rintro ⟨hfailure, -⟩
  cases hfailure

/-- The first division is carried out, and the second one, by zero, has no event of its own. -/
example :
    ((Evaluation.ofExpression "1/1/0").occurrences true).map Occurrence.event =
      [.tokensRead [.number 1, .operator .divide, .number 1, .operator .divide, .number 0],
        .rpnMade [.number 1, .number 1, .operator .divide, .number 0, .operator .divide],
        .operationDone ⟨1, .divide, 1, 1⟩,
        .evaluationRefused .divisionByZero (some .converted)] := by
  decide +kernel

end Calculator
