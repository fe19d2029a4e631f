import Calculator.Token

/-!
# Expression trees

An expression stands for a tree of operations. The value of a tree is computed
from the values of its two sides, with the operations on doubles taken as given;
the postorder list of a tree is what its calculation in reverse Polish notation
reads. A tree has no value exactly when one of its divisions has a right side
that is a zero of either sign.
-/

namespace Calculator

/-- A tree of operations, with leaves of any kind: numbers, or texts that write them. -/
inductive Tree (α : Type)
  | leaf (a : α)
  | node (op : Operator) (left right : Tree α)
  deriving DecidableEq

namespace Tree

variable {α β : Type}

def map (f : α → β) : Tree α → Tree β
  | .leaf a => .leaf (f a)
  | .node op left right => .node op (left.map f) (right.map f)

/-- A leaf binds more tightly than any operator. -/
def precedence : Tree α → Nat
  | .leaf _ => 3
  | .node op _ _ => op.precedence

/-- The value of a tree, if none of its operations divides by zero. -/
def value : Tree Float → Option Float
  | .leaf x => some x
  | .node op left right => do op.apply (← left.value) (← right.value)

@[simp] theorem value_leaf (x : Float) : (leaf x).value = some x := rfl

@[simp] theorem value_node (op : Operator) (l r : Tree Float) :
    (node op l r).value = l.value.bind fun a => r.value.bind (op.apply a) := rfl

/-- The two sides of an operation come before its operator. -/
def postorder : Tree Float → List Token
  | .leaf x => [.number x]
  | .node op left right => left.postorder ++ right.postorder ++ [.operator op]

/-- Some division in the tree has a right side whose value is zero. -/
inductive DividesByZero : Tree Float → Prop
  | here {l r : Tree Float} {divisor : Float} : r.value = some divisor →
      (divisor == 0) = true → DividesByZero (.node .divide l r)
  | left {op : Operator} {l r : Tree Float} : DividesByZero l → DividesByZero (.node op l r)
  | right {op : Operator} {l r : Tree Float} : DividesByZero r → DividesByZero (.node op l r)

end Tree

theorem Operator.apply_eq_none_iff {op : Operator} {a b : Float} :
    op.apply a b = none ↔ op = .divide ∧ (b == 0) = true := by
  cases op <;> simp [Operator.apply]

namespace Tree

end Tree

end Calculator
