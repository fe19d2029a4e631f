import Calculator.Proofs.Json.Body
import Calculator.Service

/-!
# The answers of the calculation service

A request that the service looks into is answered from its body alone: it is
refused as unreadable exactly where the body is none of those that are read, and
is otherwise answered with the outcome of the evaluation of its expression.
-/

namespace Calculator.Service

/-- The response to a request that is read, whatever was announced on the way to it. -/
def Response.ofOutcome : Except Failure Float → Response
  | .ok value => .json 200 "result" (Number.json.write value)
  | .error failure => .json (Service.status failure) "error" ("\"" ++ failure.message ++ "\"")

theorem response_calculate (expression : String) :
    (calculate expression).response = .ofOutcome (evaluate expression) := by
  unfold calculate evaluate
  dsimp only
  split
  · next h => rw [h, Response.ofOutcome]
  · next h =>
      rw [h, Response.ofOutcome]
      rfl

/-- The body alone decides whether it is read, and which expression it is about. -/
theorem response_respond {b : List UInt8} (hb : b.length ≤ bodyLimit) :
    (respond ⟨method, servicePath, b⟩).response =
      match Json.expression? b with
      | none => .json 400 "error" ("\"" ++ unreadable ++ "\"")
      | some expression => .ofOutcome (evaluate expression) := by
  have hpath : path servicePath = servicePath := by decide +kernel
  rw [respond, if_neg (not_not.mpr hpath), if_neg (not_not.mpr rfl), if_neg (Nat.not_lt.mpr hb)]
  dsimp only
  cases Json.expression? b with
  | none => rfl
  | some expression => exact response_calculate expression

theorem response_body {b : List UInt8} {s : String} (hb : b.length ≤ bodyLimit)
    (hbody : Json.Body b s) :
    (respond ⟨method, servicePath, b⟩).response = .ofOutcome (evaluate s) := by
  rw [response_respond hb, hbody.expression?]

theorem response_of_long {b : List UInt8} (hb : bodyLimit < b.length) :
    (respond ⟨method, servicePath, b⟩).response = .tooLong := by
  have hpath : path servicePath = servicePath := by decide +kernel
  rw [respond, if_neg (not_not.mpr hpath), if_neg (not_not.mpr rfl), if_pos hb]

/-- The response tells the outcomes of evaluations apart. -/
theorem Response.ofOutcome_separates (outcome : Except Failure Float) :
    (ofOutcome outcome).status ≠ 400 ∧
    ((ofOutcome outcome).status = 200 ↔ ∃ v, outcome = .ok v) ∧
    (ofOutcome outcome = .json 422 "error" "\"expression invalide\"" ↔
      outcome = .error .invalidExpression) ∧
    (ofOutcome outcome = .json 500 "error" "\"division par zéro\"" ↔
      outcome = .error .divisionByZero) := by
  rcases outcome with (_ | _) | value
  · simp [ofOutcome, json, Service.status, Failure.message]
  · simp [ofOutcome, json, Service.status, Failure.message]
  · simp [ofOutcome, json]

end Calculator.Service
