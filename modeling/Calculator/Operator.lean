/-!
# The four operators

Each operator takes a left and a right number. Multiplication and division bind
more tightly than addition and subtraction.
-/

namespace Calculator

inductive Operator
  | add
  | subtract
  | multiply
  | divide
  deriving DecidableEq

namespace Operator

def ofChar? : Char → Option Operator
  | '+' => some .add
  | '-' => some .subtract
  | '*' => some .multiply
  | '/' => some .divide
  | _ => none

def symbol : Operator → Char
  | .add => '+'
  | .subtract => '-'
  | .multiply => '*'
  | .divide => '/'

theorem ofChar?_eq_some_iff {c : Char} {op : Operator} : ofChar? c = some op ↔ c = op.symbol := by
  constructor
  · intro h
    unfold ofChar? at h
    split at h <;> cases h <;> rfl
  · rintro rfl
    cases op <;> rfl

/-- The operator of higher precedence is applied first. -/
def precedence : Operator → Nat
  | .add | .subtract => 1
  | .multiply | .divide => 2

/-- The value of an operation. A division by a zero of either sign has none; every
other operation has one, infinite and undefined values included. -/
def apply (op : Operator) (left right : Float) : Option Float :=
  match op with
  | .add => some (left + right)
  | .subtract => some (left - right)
  | .multiply => some (left * right)
  | .divide => if right == 0 then none else some (left / right)

end Operator

end Calculator
