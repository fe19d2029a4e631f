import Calculator.Evaluation

/-!
# Events

What the program does is announced by events, in the order in which it happens.
An evaluation announces what each stage produced, each operation, the cause of a
malformed expression, and at last its outcome. A character outside the alphabet
and a division by zero have no event of their own: the outcome tells them. A stage
carried out alone announces what it does as a part of an evaluation.
-/

namespace Calculator

/-- Why the service stops. -/
inductive StopCause
  | interrupt
  | terminate
  | command
  deriving DecidableEq

inductive Event
  | tokensRead (tokens : List Token)
  | rpnMade (rpn : List Token)
  | operationDone (operation : Rpn.Operation)
  | defectFound (defect : Defect)
  | evaluationDone (value : Float)
  /-- A refusal names the stage reached when the evaluation is traced. -/
  | evaluationRefused (failure : Failure) (stage : Option Stage)
  | requestServed (expression : String) (value : Float)
  | requestRefused (status : Nat) (message : String)
  | inputEnded
  | exitReceived
  | logInstalled (filter : String)
  | consoleMode
  | serviceMode (socket : UInt16)
  | windowMode
  | serviceStarted (socket : UInt16)
  | serviceStopping (cause : StopCause)
  | serviceStopped (socket : UInt16)
  deriving DecidableEq

/-- An event, and the expression under evaluation when it happens. -/
structure Occurrence where
  expression : Option String
  event : Event
  deriving DecidableEq

def announce (event : Event) : StateM (List Event) Unit :=
  modify (event :: ·)

def announceAll (events : List Event) : StateM (List Event) Unit :=
  events.forM announce

/-- A stage, with the events announced until then, latest first. A failure keeps them. -/
abbrev Announcing (α : Type) : Type :=
  ExceptT Failure (StateM (List Event)) α

/-- Ends a stage: a defect is announced, and a caller is told the kind of failure only. -/
def announceOutcome {α : Type} : Except Fault α → Announcing α
  | .ok result => return result
  | .error fault => do
    if let .defect defect := fault then announce (.defectFound defect)
    throw fault.failure

def Token.announceScan (text : String) : Announcing (List Token) :=
  announceOutcome ((scan text).mapError .defect)

def Rpn.announceConversion (tokens : List Token) : Announcing (List Token) :=
  announceOutcome ((ofTokens tokens).mapError .defect)

def Rpn.announceCalculation (tokens : List Token) : Announcing Float := do
  let calculation := calculate tokens
  announceAll (calculation.operations.map .operationDone)
  announceOutcome calculation.outcome

/-- Carries an expression without blanks through the stages. The check announces nothing. -/
def announceStages (entry : String) : Announcing Float := do
  unless isValid entry do throw .invalidExpression
  let tokens ← Token.announceScan entry
  announce (.tokensRead tokens)
  let rpn ← Rpn.announceConversion tokens
  announce (.rpnMade rpn)
  Rpn.announceCalculation rpn

def Event.ofOutcome (stage : Option Stage) : Except Failure Float → Event
  | .ok value => .evaluationDone value
  | .error failure => .evaluationRefused failure stage

/-- Carries out an evaluation, and announces the outcome at last. -/
def announceEvaluation (e : Evaluation) (traced : Bool) :
    StateM (List Event) (Except Failure Float) := do
  let outcome ← (announceStages e.entry).run
  announce (.ofOutcome (if traced then some e.progress.stage else none) outcome)
  return outcome

def Evaluation.occurrences (e : Evaluation) (traced : Bool) : List Occurrence :=
  ((announceEvaluation e traced).run []).2.reverse.map (⟨some e.expression, ·⟩)

end Calculator
