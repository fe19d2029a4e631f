import Calculator.Token

/-!
# What can be wrong with an expression

A defect names the cause for which an expression is malformed. Callers are told
only one of two kinds of failure: the expression is malformed, or it divides by
zero.
-/

namespace Calculator

inductive Failure
  | invalidExpression
  | divisionByZero
  deriving DecidableEq

/-- The wording shown to the user. -/
def Failure.message : Failure → String
  | .invalidExpression => "expression invalide"
  | .divisionByZero => "division par zéro"

/-- The first thing found wrong with an expression over the right alphabet. -/
inductive Defect
  /-- A character that starts no token, at this index. -/
  | strayCharacter (position : Nat) (character : Char)
  /-- A point with no digit behind it; the position is the one after the point. -/
  | barePoint (position : Nat)
  | emptyGroup
  | unopenedGroup
  | unclosedGroup
  | missingOperand (op : Operator)
  /-- A parenthesis in reverse Polish notation. -/
  | unexpectedToken (token : Token)
  /-- The number of values left over is not one. -/
  | leftover (count : Nat)
  deriving DecidableEq

/-- What ends a calculation without a value. -/
inductive Fault
  | defect (defect : Defect)
  | zeroDivisor
  deriving DecidableEq

def Fault.failure : Fault → Failure
  | .defect _ => .invalidExpression
  | .zeroDivisor => .divisionByZero

end Calculator
