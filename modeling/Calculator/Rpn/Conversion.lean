import Calculator.Defect

/-!
# Conversion to reverse Polish notation

Numbers go to the output as they come, and operators wait until the operand to
their right is complete: an operator releases the waiting ones that bind at least
as tightly, and a closing parenthesis releases those of its group. A parenthesis
never reaches the output.
-/

namespace Calculator.Rpn

/-- What waits for its right operand, or for its closing parenthesis. -/
inductive Pending
  | operator (op : Operator)
  | group
  deriving DecidableEq

/-- A conversion under way: the output, latest first, and what waits, latest first. -/
structure Conversion where
  output : List Token
  pending : List Pending
  deriving DecidableEq

namespace Conversion

def start : Conversion := ⟨[], []⟩

/-- Moves to the output the latest waiting operators that bind at least as tightly as `op`. -/
def release (op : Operator) (output : List Token) : List Pending → Conversion
  | .operator top :: below =>
    if top.precedence < op.precedence then ⟨output, .operator top :: below⟩
    else release op (.operator top :: output) below
  | pending => ⟨output, pending⟩

/-- Moves to the output the operators of the innermost group, and ends the group. -/
def close (output : List Token) : List Pending → Except Defect Conversion
  | [] => .error .unopenedGroup
  | .group :: below => .ok ⟨output, below⟩
  | .operator top :: below => close (.operator top :: output) below

def step (c : Conversion) : Token → Except Defect Conversion
  | .number value => .ok ⟨.number value :: c.output, c.pending⟩
  | .operator op =>
    let released := release op c.output c.pending
    .ok ⟨released.output, .operator op :: released.pending⟩
  | .leftParen => .ok ⟨c.output, .group :: c.pending⟩
  | .rightParen => close c.output c.pending
  | .emptyGroup => .error .emptyGroup

def run (c : Conversion) : List Token → Except Defect Conversion
  | [] => .ok c
  | t :: rest =>
    match c.step t with
    | .ok next => next.run rest
    | .error defect => .error defect

def finish (output : List Token) : List Pending → Except Defect (List Token)
  | [] => .ok output.reverse
  | .group :: _ => .error .unclosedGroup
  | .operator top :: below => finish (.operator top :: output) below

end Conversion

/-- The tokens in reverse Polish notation. Only parentheses can make this fail;
operands are counted when the value is calculated. -/
def ofTokens (tokens : List Token) : Except Defect (List Token) :=
  match Conversion.start.run tokens with
  | .ok c => Conversion.finish c.output c.pending
  | .error defect => .error defect

end Calculator.Rpn
