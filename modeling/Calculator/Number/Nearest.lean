/-!
# The double nearest to a ratio

The nonnegative doubles in increasing order are numbered by their bit patterns:
pattern `shift * 2 ^ 52 + m` stands for `m * 2 ^ shift / 2 ^ 1074`, where `m` is
below `2 ^ 53`, and is at least `2 ^ 52` unless `shift` is zero. The pattern
after the largest finite one is infinity. Rounding a ratio to the nearest double,
a tie going to the even mantissa, is therefore one exact division of naturals:
a mantissa rounded up to `2 ^ 53` lands on the next pattern by itself.
-/

namespace Calculator.Number

/-- The smallest positive double is `1 / 2 ^ unitExponent`. -/
def unitExponent : Nat := 1074

def fieldWidth : Nat := 52

/-- The leading bit of a mantissa, `2 ^ fieldWidth`, which the field leaves out. -/
def hiddenBit : Nat := 0x10000000000000

def infinity : Nat := 0x7ff0000000000000

def signBit : Nat := 0x8000000000000000

/-- The natural number nearest to `n / d`; halfway between two it is the even one. -/
def roundQuotient (n d : Nat) : Nat :=
  let q := n / d
  let r := 2 * (n % d)
  if d < r ∨ (r = d ∧ q % 2 = 1) then q + 1 else q

/-- The pattern of the double nearest to `n / d`, for a positive `d`. -/
def nearest (n d : Nat) : Nat :=
  let scaled := n <<< unitExponent
  let shift := (scaled / d).log2 - fieldWidth
  min infinity (shift <<< fieldWidth + roundQuotient scaled (d <<< shift))

/-- A positive finite double is `mantissa * 2 ^ shift` units. -/
structure Parts where
  mantissa : Nat
  shift : Nat

/-- The parts of a finite pattern. -/
def Parts.ofPattern (pattern : Nat) : Parts :=
  let field := pattern / hiddenBit
  if field = 0 then ⟨pattern, 0⟩
  else ⟨pattern % hiddenBit + hiddenBit, field - 1⟩

/-- The pattern of a double without its sign. -/
def pattern (x : Float) : Nat :=
  x.toBits.toNat % signBit

/-- The sign bit is set, as it is for the negative zero. -/
def isNegative (x : Float) : Bool :=
  signBit ≤ x.toBits.toNat

/-- The double of a given sign and pattern. -/
def ofPattern (negative : Bool) (pattern : Nat) : Float :=
  Float.ofBits (UInt64.ofNat (if negative then signBit + pattern else pattern))

end Calculator.Number
