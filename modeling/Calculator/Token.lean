import Calculator.Number.Layout
import Calculator.Operator

/-!
# Tokens

An expression without blanks is a sequence of numbers, operators and parentheses.
A sign that belongs to a number is part of its token, and so an operator always
stands between two operands. An opening parenthesis that is closed at once is a
token of its own.
-/

namespace Calculator

inductive Token
  | number (value : Float)
  | operator (op : Operator)
  | leftParen
  | rightParen
  | emptyGroup
  deriving DecidableEq

namespace Token

def text : Token → String
  | .number value => Number.text value
  | .operator op => op.symbol.toString
  | .leftParen => "("
  | .rightParen => ")"
  | .emptyGroup => "()"

/-- The texts of the tokens, with one space between neighbours. -/
def format (tokens : List Token) : String :=
  " ".intercalate (tokens.map text)

end Token

end Calculator
