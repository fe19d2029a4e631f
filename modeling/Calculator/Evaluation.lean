import Calculator.Rpn.Calculation
import Calculator.Rpn.Conversion
import Calculator.Text.Blank
import Calculator.Token.Scan

/-!
# Evaluation of an expression

An expression is stripped of its blanks, checked character by character, read
into tokens, converted to reverse Polish notation and calculated. The first fault
ends the evaluation. How far it came, with all that the stages passed produced,
is its progress; the outcome, the stage reached and the trace shown to the user
are read off the progress.
-/

namespace Calculator

def isAllowed (c : Char) : Bool :=
  c.isDigit || c == '.' || c == '+' || c == '-' || c == '*' || c == '/' || c == '(' || c == ')'

/-- The check by characters, which knows no grammar. -/
def isValid (s : String) : Bool :=
  s.toList.all isAllowed

inductive Stage
  | start
  | checked
  | scanned
  | converted
  | evaluated
  deriving DecidableEq

/-- The wording shown to the user. -/
def Stage.text : Stage → String
  | .start => "départ (rien de validé)"
  | .checked => "caractères validés"
  | .scanned => "jetons lus"
  | .converted => "RPN construite"
  | .evaluated => "évaluée"

/-- How far an evaluation came. Each constructor is named for the last stage passed,
and holds what the stages produced and why the next one was not. -/
inductive Progress
  | start
  | checked (defect : Defect)
  | scanned (tokens : List Token) (defect : Defect)
  | converted (tokens rpn : List Token) (operations : List Rpn.Operation) (fault : Fault)
  | evaluated (tokens rpn : List Token) (operations : List Rpn.Operation) (value : Float)
  deriving DecidableEq

namespace Progress

/-- Carries an expression without blanks through the stages. -/
def ofEntry (entry : String) : Progress :=
  if isValid entry then
    match Token.scan entry with
    | .error defect => .checked defect
    | .ok tokens =>
      match Rpn.ofTokens tokens with
      | .error defect => .scanned tokens defect
      | .ok rpn =>
        let calculation := Rpn.calculate rpn
        match calculation.outcome with
        | .error fault => .converted tokens rpn calculation.operations fault
        | .ok value => .evaluated tokens rpn calculation.operations value
  else .start

def stage : Progress → Stage
  | .start => .start
  | .checked .. => .checked
  | .scanned .. => .scanned
  | .converted .. => .converted
  | .evaluated .. => .evaluated

/-- The tokens, once they are read. -/
def tokens : Progress → Option (List Token)
  | .scanned tokens _ | .converted tokens .. | .evaluated tokens .. => some tokens
  | _ => none

/-- The list in reverse Polish notation, once it is made. -/
def rpn : Progress → Option (List Token)
  | .converted _ rpn .. | .evaluated _ rpn .. => some rpn
  | _ => none

def operations : Progress → List Rpn.Operation
  | .converted _ _ operations _ | .evaluated _ _ operations _ => operations
  | _ => []

/-- What a caller is told. -/
def outcome : Progress → Except Failure Float
  | .start | .checked _ | .scanned .. => .error .invalidExpression
  | .converted _ _ _ fault => .error fault.failure
  | .evaluated _ _ _ value => .ok value

/-- What was found wrong, if the expression is over the right alphabet and malformed. -/
def defect : Progress → Option Defect
  | .checked defect | .scanned _ defect | .converted _ _ _ (.defect defect) => some defect
  | _ => none

end Progress

/-- The steps of an evaluation as they are shown. -/
structure Trace where
  entry : String
  tokens : String
  rpn : String
  stage : Stage
  failure : Option Failure
  deriving DecidableEq

def Trace.empty : Trace := ⟨"", "", "", .start, none⟩

/-- The evaluation of an expression: the expression as it was received, the entry that
is left without its blanks, and the progress. -/
structure Evaluation where
  expression : String
  entry : String
  progress : Progress

namespace Evaluation

def ofExpression (expression : String) : Evaluation :=
  let entry := Text.strip expression
  ⟨expression, entry, .ofEntry entry⟩

def outcome (e : Evaluation) : Except Failure Float :=
  e.progress.outcome

/-- The trace is empty from the first stage that was not passed. -/
def trace (e : Evaluation) : Trace where
  entry := e.entry
  tokens := e.progress.tokens.elim "" Token.format
  rpn := e.progress.rpn.elim "" Token.format
  stage := e.progress.stage
  failure := match e.outcome with
    | .ok _ => none
    | .error failure => some failure

end Evaluation

/-- The value of an expression, or why it has none. -/
def evaluate (expression : String) : Except Failure Float :=
  (Evaluation.ofExpression expression).outcome

/-- Carries an expression without blanks through the stages, and writes into the trace
what each stage produces as soon as it is passed. -/
def traceStages (entry : String) : StateM Trace (Except Failure Float) := do
  modify ({ · with entry := entry })
  unless isValid entry do return .error .invalidExpression
  modify ({ · with stage := .checked })
  let .ok tokens := Token.scan entry | return .error .invalidExpression
  modify ({ · with tokens := Token.format tokens, stage := .scanned })
  let .ok rpn := Rpn.ofTokens tokens | return .error .invalidExpression
  modify ({ · with rpn := Token.format rpn, stage := .converted })
  match Rpn.value rpn with
  | .error fault => return .error fault.failure
  | .ok value =>
    modify ({ · with stage := .evaluated })
    return .ok value

/-- Evaluates an expression and leaves the trace of this evaluation in place of the
trace before it, which is emptied first. -/
def evaluateTraced (expression : String) : StateM Trace (Except Failure Float) := do
  set Trace.empty
  let outcome ← traceStages (Text.strip expression)
  if let .error failure := outcome then modify ({ · with failure := some failure })
  return outcome

end Calculator
