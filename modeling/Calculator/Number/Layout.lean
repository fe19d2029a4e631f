import Calculator.Number.Literal
import Calculator.Number.Shortest

/-!
# The text of a double

A double is written with its shortest digits. A layout says how: whether a very
large or very small number gets an exponent, whether a whole number keeps a
decimal, and what stands for the values that no digits can write. The program
uses three layouts: one for people, one for JSON and one for its log.
-/

namespace Calculator.Number

/-- How the digits of a number are laid out. A number whose leading digit stands
for a power of ten from `range.1` up to and without `range.2` is written
positionally, and so is every number where there is no range. -/
structure Layout where
  tie : Tie
  range : Option (Int × Int)
  keepsDecimal : Bool
  showsPlus : Bool
  infinite : String
  negativeInfinite : String
  undefined : String

/-- The decimal as a literal, in full, without needless zeros. -/
def Decimal.literal (negative : Bool) (d : Decimal) : Literal :=
  let digits := Nat.toDigits 10 d.digits
  let below := (-d.exponent).toNat
  if below < digits.length then
    let whole := digits.length - below
    ⟨negative, digits.take whole ++ List.replicate d.exponent.toNat '0', digits.drop whole⟩
  else ⟨negative, ['0'], List.replicate (below - digits.length) '0' ++ digits⟩

/-- The power of ten that the leading digit stands for. -/
def Decimal.order (d : Decimal) : Int :=
  d.exponent + (Nat.toDigits 10 d.digits).length - 1

/-- The shortest decimal of a finite pattern. -/
def Decimal.ofPattern (tie : Tie) (pattern : Nat) : Decimal :=
  if pattern = 0 then ⟨0, 0⟩ else (Parts.ofPattern pattern).shortest tie

namespace Layout

/-- The decimal with one digit before the point, and the power of ten after it. -/
def exponential (layout : Layout) (negative : Bool) (d : Decimal) : List Char :=
  let digits := Nat.toDigits 10 d.digits
  let mantissa := (⟨negative, digits.take 1, digits.drop 1⟩ : Literal).text
  let order := Nat.toDigits 10 d.order.natAbs
  let sign := if d.order < 0 then ['-'] else if layout.showsPlus then ['+'] else []
  mantissa ++ 'e' :: sign ++ order

/-- The number is written positionally; zero always is. -/
def isPositional (layout : Layout) (d : Decimal) : Bool :=
  d.digits = 0 || match layout.range with
    | none => true
    | some (first, bound) => first ≤ d.order && d.order < bound

def finite (layout : Layout) (negative : Bool) (d : Decimal) : List Char :=
  if layout.isPositional d then
    let literal := d.literal negative
    if layout.keepsDecimal && literal.fraction.isEmpty then
      ({ literal with fraction := ['0'] } : Literal).text
    else literal.text
  else layout.exponential negative d

def write (layout : Layout) (x : Float) : String :=
  if x.isNaN then layout.undefined
  else if pattern x = infinity then
    if isNegative x then layout.negativeInfinite else layout.infinite
  else String.ofList (layout.finite (isNegative x) (.ofPattern layout.tie (pattern x)))

end Layout

/-- Results, tokens and events show numbers in full. -/
def display : Layout where
  tie := .up
  range := none
  keepsDecimal := false
  showsPlus := false
  infinite := "inf"
  negativeInfinite := "-inf"
  undefined := "NaN"

/-- JSON answers keep one decimal and have no numeral for infinities and undefined values. -/
def json : Layout where
  tie := .even
  range := some (-5, 16)
  keepsDecimal := true
  showsPlus := true
  infinite := "null"
  negativeInfinite := "null"
  undefined := "null"

/-- Log lines keep one decimal too, and write an exponent without a plus sign. -/
def logged : Layout where
  tie := .up
  range := some (-4, 16)
  keepsDecimal := true
  showsPlus := false
  infinite := "inf"
  negativeInfinite := "-inf"
  undefined := "NaN"

/-- The text of a number as people see it. -/
def text (x : Float) : String :=
  display.write x

end Calculator.Number
