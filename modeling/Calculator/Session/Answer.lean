import Calculator.Session.Action

/-!
# One expression in a text session

An expression is evaluated with its trace. Its answer is a value or a failure,
and the trace is written in four lines when it is asked for. Alone on the command
line the value goes to one channel and everything else to the other; in the
console all goes to one channel.
-/

namespace Calculator.Session

/-- The lines of a trace, each with its end. -/
def traceLines (t : Trace) : List String :=
  ["  entrée : " ++ t.entry ++ "\n", "  jetons : " ++ t.tokens ++ "\n",
    "  RPN    : " ++ t.rpn ++ "\n", "  étape  : " ++ t.stage.text ++ "\n"]

def failureLine (failure : Failure) : String :=
  "erreur: " ++ failure.message ++ "\n"

def announcements (e : Evaluation) : List Action :=
  (e.occurrences true).map .announce

/-- Writes the trace of an evaluation if it is asked for. -/
def traceActions (e : Evaluation) (channel : Channel) (traced : Bool) : List Action :=
  if traced then (traceLines e.trace).map (.write channel) else []

/-- The session of one expression, which ends well only with a value. -/
def oneShot (expression : String) (traced : Bool) : List Action × Bool :=
  let e := Evaluation.ofExpression expression
  let actions := announcements e ++ traceActions e .complaints traced
  match e.outcome with
  | .ok value => (actions ++ [.write .answers (Number.text value ++ "\n")], true)
  | .error failure => (actions ++ [.write .complaints (failureLine failure)], false)

def outcomeLine : Except Failure Float → String
  | .ok value => "= " ++ Number.text value ++ "\n"
  | .error failure => failureLine failure

def consoleAnswer (expression : String) (traced : Bool) : List Action :=
  let e := Evaluation.ofExpression expression
  announcements e ++ .write .answers (outcomeLine e.outcome) :: traceActions e .answers traced

end Calculator.Session
