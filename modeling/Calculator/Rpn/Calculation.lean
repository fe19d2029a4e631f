import Calculator.Defect

/-!
# Calculation in reverse Polish notation

Numbers are put on a stack, and an operator replaces the two topmost numbers, the
upper one being its right operand, by its result. One number must be left at the
end. The operations that were carried out are kept, also when a fault follows.
-/

namespace Calculator.Rpn

structure Operation where
  left : Float
  operator : Operator
  right : Float
  result : Float
  deriving DecidableEq

/-- The operations of a calculation, in order, and how it ended. -/
structure Calculation where
  operations : List Operation
  outcome : Except Fault Float

/-- Goes on behind the operations `done`, latest first, with a stack of numbers. -/
def calculateFrom (done : List Operation) : List Float → List Token → Calculation
  | [value], [] => ⟨done.reverse, .ok value⟩
  | stack, [] => ⟨done.reverse, .error (.defect (.leftover stack.length))⟩
  | stack, .number value :: rest => calculateFrom done (value :: stack) rest
  | right :: left :: stack, .operator op :: rest =>
    match op.apply left right with
    | some result => calculateFrom (⟨left, op, right, result⟩ :: done) (result :: stack) rest
    | none => ⟨done.reverse, .error .zeroDivisor⟩
  | _, .operator op :: _ => ⟨done.reverse, .error (.defect (.missingOperand op))⟩
  | _, t :: _ => ⟨done.reverse, .error (.defect (.unexpectedToken t))⟩

/-- Carries out a list of tokens in reverse Polish notation. -/
def calculate (tokens : List Token) : Calculation :=
  calculateFrom [] [] tokens

/-- The value of a list of tokens in reverse Polish notation. -/
def value (tokens : List Token) : Except Fault Float :=
  (calculate tokens).outcome

end Calculator.Rpn
