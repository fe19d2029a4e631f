import Calculator.Number.Nearest

/-!
# The shortest decimal of a double

Every decimal strictly between the midpoints to the two neighbours of a double
reads back as that double, and so do the midpoints themselves when the mantissa
is even. The lower neighbour of a power of two is only half as far away as the
upper one. Of the decimals that read back, the shortest have the fewest digits,
and of those the nearest to the double is chosen.

The search takes place on one scale: the double and its midpoints are multiplied
by a power of ten that leaves eighteen or nineteen digits before the point. There
the decimals are naturals, fewer digits mean a multiple of a higher power of ten,
and the decimals that read back are those between `least` and `greatest`.
-/

namespace Calculator.Number

/-- The decimal `digits * 10 ^ exponent`. -/
structure Decimal where
  digits : Nat
  exponent : Int
  deriving DecidableEq

/-- Which of two equally near decimals is taken. -/
inductive Tie
  | up
  | even
  deriving DecidableEq

namespace Parts

/-- The lower neighbour is half as far away as the upper one. -/
def isNarrow (p : Parts) : Bool :=
  p.mantissa = hiddenBit && 0 < p.shift

/-- The power of ten of the common scale. The logarithm of two is about
`30103 / 100000`; an estimate is enough, since a finer scale holds the same decimals. -/
def scale (p : Parts) : Int :=
  17 - (((p.mantissa.log2 + p.shift : Nat) - unitExponent : Int) * 30103) / 100000

/-- The mantissa times this factor, over `divisor`, is the double on the common scale. -/
def factor (p : Parts) : Nat :=
  Nat.pow 10 p.scale.toNat <<< (p.shift - unitExponent)

def divisor (p : Parts) : Nat :=
  Nat.pow 10 (-p.scale).toNat <<< (unitExponent - p.shift)

/-- The least natural on the common scale that reads back. -/
def least (p : Parts) : Nat :=
  let low := (4 * p.mantissa - if p.isNarrow then 1 else 2) * p.factor
  let unit := 4 * p.divisor
  if p.mantissa % 2 = 0 then (low + unit - 1) / unit else low / unit + 1

/-- The greatest natural on the common scale that reads back. -/
def greatest (p : Parts) : Nat :=
  let high := (4 * p.mantissa + 2) * p.factor
  let unit := 4 * p.divisor
  if p.mantissa % 2 = 0 then high / unit else (high - 1) / unit

/-- The largest exponent up to the given one whose power of ten has a multiple
between `least` and `greatest`. -/
def coarsest (least greatest : Nat) : Nat → Nat
  | 0 => 0
  | j + 1 =>
    let step := Nat.pow 10 (j + 1)
    if least ≤ greatest / step * step then j + 1 else coarsest least greatest j

/-- The multiple of `10 ^ j` nearest to the double on the common scale, among those
between `least` and `greatest`, divided by `10 ^ j`. -/
def nearestMultiple (tie : Tie) (p : Parts) (least greatest j : Nat) : Nat :=
  let step := Nat.pow 10 j
  let den := p.divisor * step
  let below := p.mantissa * p.factor / den
  let excess := 2 * (p.mantissa * p.factor % den)
  if below * step < least then below + 1
  else if greatest < (below + 1) * step then below
  else if excess < den then below
  else if den < excess then below + 1
  else match tie with
    | .up => below + 1
    | .even => if below % 2 = 0 then below else below + 1

/-- The shortest decimal that reads back as the double, and the nearest of those. -/
def shortest (tie : Tie) (p : Parts) : Decimal :=
  let least := p.least
  let greatest := p.greatest
  let j := coarsest least greatest 18
  ⟨p.nearestMultiple tie least greatest j, j - p.scale⟩

end Parts

end Calculator.Number
