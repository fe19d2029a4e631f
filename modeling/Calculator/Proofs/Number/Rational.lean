import Mathlib.Algebra.Order.Field.Rat
import Mathlib.Tactic.Linarith
import Mathlib.Tactic.Positivity
import Calculator.Proofs.Number.Bits
import Calculator.Proofs.Number.Neighbours

/-!
# Doubles as rationals

A finite double stands for a rational, its mantissa times a power of two. The pattern that a
ratio lies around is that of the nearest double, and of the two nearest ones it is the one with
the even mantissa. Doubles are compared as their patterns are, with their signs.
-/

namespace Calculator.Number

open Float.Model Float.Model.UnpackedFloat

/-- The rational that a finite double stands for. The other doubles stand for none. -/
def rational (x : Float) : ℚ :=
  match x.toModel.unpack with
  | .finite s m e _ => s.apply m * 2 ^ e
  | _ => 0

/-- The mantissa of a finite double. -/
def mantissa (x : Float) : ℕ :=
  match x.toModel.unpack with
  | .finite _ m _ _ => m
  | _ => 0

/-- The sign as a factor. -/
def signed (negative : Bool) (q : ℚ) : ℚ :=
  if negative then -q else q

@[simp] theorem signed_false (q : ℚ) : signed false q = q := rfl

@[simp] theorem signed_true (q : ℚ) : signed true q = -q := rfl

/-- The sign that a double is unpacked with. -/
def sign (x : Float) : Sign :=
  if isNegative x then .negative else .positive

theorem ofBitVec_unpackSign (x : Float) :
    Sign.ofBitVec (@unpackSign .binary64 x.toBits.toBitVec) = sign x := by
  have hlt := x.toBits.toNat_lt
  have hbit : (@unpackSign .binary64 x.toBits.toBitVec).toNat = x.toBits.toNat / 2 ^ 63 % 2 := by
    rw [unpackSign_def]
    simp [BitVec.extractLsb'_toNat, Nat.shiftRight_eq_div_pow]
  have hzero : @unpackSign .binary64 x.toBits.toBitVec = 0#1 ↔ x.toBits.toNat < 2 ^ 63 := by
    have hnat : (0#1 : BitVec 1).toNat = 0 := rfl
    rw [← BitVec.toNat_inj, hbit, hnat]
    omega
  have hnegative : isNegative x = true ↔ ¬ x.toBits.toNat < 2 ^ 63 := by
    rw [isNegative, decide_eq_true_eq, Nat.not_lt]
    rfl
  simp only [Sign.ofBitVec, sign, hzero, hnegative]
  split <;> rfl

section Unpack
variable {x : Float}

theorem unpackExponent_eq_zero_iff :
    @unpackExponent .binary64 x.toBits.toBitVec = 0#11 ↔ pattern x / hiddenBit = 0 := by
  have hzero : (0#11 : BitVec 11).toNat = 0 := rfl
  rw [← BitVec.toNat_inj, toNat_unpackExponent, hzero, UInt64.toNat_toBitVec, pattern, signBit,
    hiddenBit]
  omega

theorem unpackMantissa_eq_zero_iff :
    @unpackMantissa .binary64 x.toBits.toBitVec = 0#52 ↔ pattern x % hiddenBit = 0 := by
  have hzero : (0#52 : BitVec 52).toNat = 0 := rfl
  rw [← BitVec.toNat_inj, toNat_unpackMantissa, hzero, UInt64.toNat_toBitVec, pattern, signBit,
    hiddenBit]
  omega

theorem unpack_eq_infinity (h : pattern x = infinity) : x.toModel.unpack = .infinity (sign x) := by
  have hexponent : @unpackExponent .binary64 x.toBits.toBitVec = -1#_ := by
    rw [unpackExponent_eq_iff, UInt64.toNat_toBitVec, ← pattern, h]
  have hmantissa : @unpackMantissa .binary64 x.toBits.toBitVec = 0#_ := by
    rw [unpackMantissa_eq_zero_iff, h]
    decide
  change UnpackedFloat.unpack .binary64 x.toBits.toBitVec = _
  rw [UnpackedFloat.unpack, if_pos hexponent, if_pos hmantissa, ofBitVec_unpackSign]

theorem unpack_eq_zero (h : pattern x = 0) : x.toModel.unpack = .zero (sign x) := by
  have hones : ¬ @unpackExponent .binary64 x.toBits.toBitVec = -1#_ := by
    rw [unpackExponent_eq_iff, UInt64.toNat_toBitVec, ← pattern, h]
    decide
  have hexponent : @unpackExponent .binary64 x.toBits.toBitVec = 0#_ := by
    rw [unpackExponent_eq_zero_iff, h]
    decide
  have hmantissa : @unpackMantissa .binary64 x.toBits.toBitVec = 0#_ := by
    rw [unpackMantissa_eq_zero_iff, h]
    decide
  change UnpackedFloat.unpack .binary64 x.toBits.toBitVec = _
  rw [UnpackedFloat.unpack, if_neg hones, if_pos hexponent, dif_pos hmantissa, ofBitVec_unpackSign]

theorem unpack_eq_finite (hpos : 0 < pattern x) (hlt : pattern x < infinity) :
    ∃ m e hm, x.toModel.unpack = .finite (sign x) m e hm ∧
      m = (Parts.ofPattern (pattern x)).mantissa ∧
      e = (Parts.ofPattern (pattern x)).shift - 1074 := by
  have hones : ¬ @unpackExponent .binary64 x.toBits.toBitVec = -1#_ := by
    rw [unpackExponent_eq_iff, UInt64.toNat_toBitVec, ← pattern]
    omega
  have hexponent : (@unpackExponent .binary64 x.toBits.toBitVec).toNat = pattern x / hiddenBit := by
    rw [toNat_unpackExponent, UInt64.toNat_toBitVec, pattern, signBit, hiddenBit]
    omega
  have hmantissa : (@unpackMantissa .binary64 x.toBits.toBitVec).toNat = pattern x % hiddenBit := by
    rw [toNat_unpackMantissa, UInt64.toNat_toBitVec, pattern, signBit, hiddenBit]
    omega
  have hbias : (Format.exponentBias .binary64 : ℤ) = 1023 := rfl
  have hzero := unpackExponent_eq_zero_iff (x := x)
  have hdiv := Nat.div_add_mod (pattern x) hiddenBit
  change ∃ m e hm, UnpackedFloat.unpack .binary64 x.toBits.toBitVec = _ ∧ _
  rw [UnpackedFloat.unpack, if_neg hones, ofBitVec_unpackSign, Parts.ofPattern, hexponent, hbias]
  split
  · next hfield =>
      have hfield' := hzero.mp hfield
      have hmod : pattern x % hiddenBit = pattern x := by
        rw [hfield'] at hdiv
        omega
      have hne : ¬ @unpackMantissa .binary64 x.toBits.toBitVec = 0#_ := by
        rw [unpackMantissa_eq_zero_iff, hmod]
        omega
      rw [dif_neg hne, if_pos hfield', hfield']
      refine ⟨_, _, ?_, rfl, ?_, rfl⟩
      · rwa [hmantissa, hmod]
      · rw [hmantissa, hmod]
  · next hfield =>
      have hfield' := hzero.not.mp hfield
      have happend : (1#1 ++ @unpackMantissa .binary64 x.toBits.toBitVec).toNat =
          pattern x % hiddenBit + hiddenBit := by
        have hshift : 1 <<< 52 ||| pattern x % hiddenBit = 1 <<< 52 + pattern x % hiddenBit :=
          (Nat.shiftLeft_add_eq_or_of_lt (Nat.mod_lt _ (by decide)) 1).symm
        rw [BitVec.toNat_append, hmantissa]
        exact hshift.trans (Nat.add_comm _ _)
      rw [if_neg hfield']
      refine ⟨_, _, ?_, rfl, happend, ?_⟩
      · rw [happend]
        exact Nat.add_pos_right _ (by decide)
      · dsimp only
        omega

theorem mantissa_eq (hlt : pattern x < infinity) :
    mantissa x = (Parts.ofPattern (pattern x)).mantissa := by
  rw [mantissa]
  obtain hzero | hpos := Nat.eq_zero_or_pos (pattern x)
  · rw [unpack_eq_zero hzero, hzero]
    rfl
  · obtain ⟨m, e, hm, hunpack, hmantissa, -⟩ := unpack_eq_finite hpos hlt
    rw [hunpack, ← hmantissa]

theorem mantissa_mod_two (hlt : pattern x < infinity) : mantissa x % 2 = pattern x % 2 := by
  rw [mantissa_eq hlt, ← Parts.pattern_mod_two, Parts.pattern_ofPattern]

theorem rational_eq (hlt : pattern x < infinity) :
    rational x = signed (isNegative x) (units (pattern x) / 2 ^ unitExponent) := by
  rw [rational]
  obtain hzero | hpos := Nat.eq_zero_or_pos (pattern x)
  · have hunits : units 0 = 0 := rfl
    rw [unpack_eq_zero hzero, hzero, hunits, signed]
    simp
  · obtain ⟨m, e, hm, hunpack, hmantissa, hexponent⟩ := unpack_eq_finite hpos hlt
    have hunit : (1074 : ℤ) = (unitExponent : ℕ) := rfl
    have hpower : (2 : ℚ) ^ e = 2 ^ (Parts.ofPattern (pattern x)).shift / 2 ^ unitExponent := by
      rw [hexponent, hunit, zpow_sub₀ two_ne_zero, zpow_natCast, zpow_natCast]
    rw [hunpack, units, ← hmantissa, Nat.cast_mul, Nat.cast_pow, Nat.cast_ofNat, mul_div_assoc,
      ← hpower]
    cases h : isNegative x with
    | true => simp [sign, Sign.apply, h]
    | false => simp [sign, Sign.apply, h]

end Unpack

/-- The pattern with its sign. -/
def rank (x : Float) : ℤ :=
  if isNegative x then -pattern x else pattern x

/-- Parts are compared as their patterns are. -/
theorem compare_parts {p q : ℕ} :
    ((compare ((Parts.ofPattern p).shift - 1074 : ℤ) ((Parts.ofPattern q).shift - 1074)).then
      (compare (Parts.ofPattern p).mantissa (Parts.ofPattern q).mantissa)) = compare (p : ℤ) q := by
  have hp := Parts.pattern_ofPattern p
  have hq := Parts.pattern_ofPattern q
  have hp53 := Parts.mantissa_ofPattern_lt p
  have hq53 := Parts.mantissa_ofPattern_lt q
  have hp52 := @Parts.le_mantissa_ofPattern p
  have hq52 := @Parts.le_mantissa_ofPattern q
  rw [Parts.pattern, hiddenBit] at hp hq
  generalize Parts.ofPattern p = a at *
  generalize Parts.ofPattern q = b at *
  rcases lt_trichotomy a.shift b.shift with h | h | h
  · have hshift : compare (a.shift - 1074 : ℤ) (b.shift - 1074) = .lt :=
      compare_lt_iff_lt.mpr (by omega)
    have hpattern : compare (p : ℤ) q = .lt := compare_lt_iff_lt.mpr (by omega)
    rw [hshift, hpattern]
    rfl
  · have hshift : compare (a.shift - 1074 : ℤ) (b.shift - 1074) = .eq :=
      compare_eq_iff_eq.mpr (by omega)
    rw [hshift]
    rcases lt_trichotomy a.mantissa b.mantissa with h' | h' | h'
    · have hpattern : compare (p : ℤ) q = .lt := compare_lt_iff_lt.mpr (by omega)
      rw [hpattern]
      exact compare_lt_iff_lt.mpr h'
    · have hpattern : compare (p : ℤ) q = .eq := compare_eq_iff_eq.mpr (by omega)
      rw [hpattern]
      exact compare_eq_iff_eq.mpr h'
    · have hpattern : compare (p : ℤ) q = .gt := compare_gt_iff_gt.mpr (by omega)
      rw [hpattern]
      exact compare_gt_iff_gt.mpr h'
  · have hshift : compare (a.shift - 1074 : ℤ) (b.shift - 1074) = .gt :=
      compare_gt_iff_gt.mpr (by omega)
    have hpattern : compare (p : ℤ) q = .gt := compare_gt_iff_gt.mpr (by omega)
    rw [hshift, hpattern]
    rfl

/-- Numbers are compared as their patterns are, with their signs. -/
theorem compare_unpack {x y : Float} (hx : pattern x ≤ infinity) (hy : pattern y ≤ infinity) :
    x.toModel.unpack.compare y.toModel.unpack = some (compare (rank x) (rank y)) := by
  have hpos : 0 < infinity := by decide
  have hcases {z : Float} (hz : pattern z ≤ infinity) :
      pattern z = 0 ∨ 0 < pattern z ∧ pattern z < infinity ∨ pattern z = infinity := by omega
  have hlt {a b : ℤ} (h : a < b) : compare a b = .lt := compare_lt_iff_lt.mpr h
  have heq {a b : ℤ} (h : a = b) : compare a b = .eq := compare_eq_iff_eq.mpr h
  have hgt {a b : ℤ} (h : b < a) : compare a b = .gt := compare_gt_iff_gt.mpr h
  have hneg (a b : ℤ) : compare (-a) (-b) = (compare a b).swap := by
    rcases lt_trichotomy a b with h | h | h <;> simp (disch := omega) [hlt, heq, hgt]
  have hsign : compare Sign.positive Sign.negative = .gt ∧
      compare Sign.negative Sign.positive = .lt ∧ ∀ s : Sign, compare s s = .eq :=
    ⟨rfl, rfl, fun s => by cases s <;> rfl⟩
  rcases hcases hx with hx | ⟨hx, hx'⟩ | hx
  · rw [unpack_eq_zero hx]
    rcases hcases hy with hy | ⟨hy, hy'⟩ | hy
    · rw [unpack_eq_zero hy]
      simp [rank, UnpackedFloat.compare, hx, hy]
    · obtain ⟨m, e, hm, hunpack, -, -⟩ := unpack_eq_finite hy hy'
      rw [hunpack, rank, rank, sign, sign]
      cases isNegative x <;> cases isNegative y <;>
        simp (disch := omega) [UnpackedFloat.compare, hlt, hgt]
    · rw [unpack_eq_infinity hy, rank, rank, sign, sign]
      cases isNegative x <;> cases isNegative y <;>
        simp (disch := omega) [UnpackedFloat.compare, hlt, hgt]
  · obtain ⟨m, e, hm, hunpack, hmantissa, hexponent⟩ := unpack_eq_finite hx hx'
    rw [hunpack]
    rcases hcases hy with hy | ⟨hy, hy'⟩ | hy
    · rw [unpack_eq_zero hy, rank, rank, sign, sign]
      cases isNegative x <;> cases isNegative y <;>
        simp (disch := omega) [UnpackedFloat.compare, hlt, hgt]
    · obtain ⟨m', e', hm', hunpack', hmantissa', hexponent'⟩ := unpack_eq_finite hy hy'
      have hparts := compare_parts (p := pattern x) (q := pattern y)
      rw [← hmantissa, ← hmantissa', ← hexponent, ← hexponent'] at hparts
      rw [hunpack', rank, rank, sign, sign]
      cases isNegative x <;> cases isNegative y <;>
        simp (disch := omega) [UnpackedFloat.compare, hlt, hgt, hparts, hneg]
    · rw [unpack_eq_infinity hy, rank, rank, sign, sign]
      cases isNegative x <;> cases isNegative y <;>
        simp (disch := omega) [UnpackedFloat.compare, hlt, hgt]
  · rw [unpack_eq_infinity hx]
    rcases hcases hy with hy | ⟨hy, hy'⟩ | hy
    · rw [unpack_eq_zero hy, rank, rank, sign, sign]
      cases isNegative x <;> cases isNegative y <;>
        simp (disch := omega) [UnpackedFloat.compare, hlt, hgt]
    · obtain ⟨m, e, hm, hunpack, -, -⟩ := unpack_eq_finite hy hy'
      rw [hunpack, rank, rank, sign, sign]
      cases isNegative x <;> cases isNegative y <;>
        simp (disch := omega) [UnpackedFloat.compare, hlt, hgt]
    · rw [unpack_eq_infinity hy, rank, rank, sign, sign]
      cases isNegative x <;> cases isNegative y <;>
        simp (disch := omega) [UnpackedFloat.compare, hlt, heq, hgt, hsign]

theorem le_iff_rank {x y : Float} (hx : pattern x ≤ infinity) (hy : pattern y ≤ infinity) :
    x ≤ y ↔ rank x ≤ rank y := by
  change decide (x.toModel ≤ y.toModel) = true ↔ _
  rw [decide_eq_true_eq]
  change (x.toModel.unpack.compare y.toModel.unpack).any (·.isLE) = true ↔ _
  rw [compare_unpack hx hy, Option.any_some, Std.isLE_compare]

section Nearer
variable {a b n d : ℕ} (hd : 0 < d)

include hd in
theorem abs_sub_lt_of_midpoint_lt (hab : b < a) (h : (b + a) * d < 2 * n) :
    |(a : ℚ) - n / d| < |(b : ℚ) - n / d| := by
  have hd' : (0 : ℚ) < d := Nat.cast_pos.mpr hd
  have hab' : (b : ℚ) < a := Nat.cast_lt.mpr hab
  have h' : ((b : ℚ) + a) < 2 * (n / d) := by
    rw [← mul_div_assoc, lt_div_iff₀ hd']
    exact_mod_cast h
  rw [abs_of_neg (a := (b : ℚ) - n / d) (by linarith), abs_lt]
  constructor <;> linarith

include hd in
theorem abs_sub_lt_of_lt_midpoint (hab : a < b) (h : 2 * n < (a + b) * d) :
    |(a : ℚ) - n / d| < |(b : ℚ) - n / d| := by
  have hd' : (0 : ℚ) < d := Nat.cast_pos.mpr hd
  have hab' : (a : ℚ) < b := Nat.cast_lt.mpr hab
  have h' : 2 * (n / d) < ((a : ℚ) + b) := by
    rw [← mul_div_assoc, div_lt_iff₀ hd']
    exact_mod_cast h
  rw [abs_of_pos (a := (b : ℚ) - n / d) (by linarith), abs_lt]
  constructor <;> linarith

include hd in
theorem abs_sub_eq_of_midpoint_eq (h : (a + b) * d = 2 * n) :
    |(a : ℚ) - n / d| = |(b : ℚ) - n / d| := by
  have hd' : (d : ℚ) ≠ 0 := Nat.cast_ne_zero.mpr hd.ne'
  have h' : ((a : ℚ) + b) = 2 * (n / d) := by
    rw [← mul_div_assoc, eq_div_iff hd']
    exact_mod_cast h
  rw [← abs_neg]
  congr 1
  linarith

end Nearer

/-- In units, a ratio is nearest to the pattern that it lies around, and as near to another one
only if the pattern is even. -/
theorem Between.abs_sub_lt {q n d w : ℕ} (hd : 0 < d) (h : Between q n d) (hne : w ≠ q) :
    |(units q : ℚ) - n / d| < |(units w : ℚ) - n / d| ∨
      |(units q : ℚ) - n / d| = |(units w : ℚ) - n / d| ∧ q % 2 = 0 := by
  obtain hlt | hgt := Nat.lt_or_gt_of_ne hne
  · obtain ⟨k, rfl⟩ : ∃ k, k + 1 = q := ⟨q - 1, by omega⟩
    have hk : (units w + units (k + 1)) * d ≤ midpoint k * d := by
      have := units_strictMono.monotone (show w ≤ k by omega)
      exact Nat.mul_le_mul_right d (Nat.add_le_add_right this _)
    obtain hstrict | hequal := Nat.lt_or_eq_of_le (hk.trans (h.lower_le k rfl))
    · exact .inl (abs_sub_lt_of_midpoint_lt hd (units_strictMono hlt) hstrict)
    · refine .inr ⟨(abs_sub_eq_of_midpoint_eq hd hequal).symm, h.even_of_lower k rfl ?_⟩
      exact Nat.le_antisymm (h.lower_le k rfl) (hequal ▸ hk)
  · have hk : midpoint q * d ≤ (units q + units w) * d := by
      have := units_strictMono.monotone (show q + 1 ≤ w by omega)
      exact Nat.mul_le_mul_right d (Nat.add_le_add_left this _)
    obtain hstrict | hequal := Nat.lt_or_eq_of_le (h.le_upper.trans hk)
    · exact .inl (abs_sub_lt_of_lt_midpoint hd (units_strictMono hgt) hstrict)
    · refine .inr ⟨abs_sub_eq_of_midpoint_eq hd hequal.symm, h.even_of_upper ?_⟩
      exact Nat.le_antisymm h.le_upper (hequal ▸ hk)

theorem isInf_iff {x : Float} : x.isInf = true ↔ pattern x = infinity := by
  have hrest : x.isInf = (!x.isFinite && !x.isNaN) := by
    change x.toModel.unpack.isInf = (!x.toModel.unpack.isFinite && !x.toModel.unpack.isNaN)
    cases x.toModel.unpack <;> rfl
  rw [hrest, Bool.and_eq_true, Bool.not_eq_true', Bool.not_eq_true', ← Bool.not_eq_true,
    ← Bool.not_eq_true, isFinite_iff, isNaN_iff]
  omega

section Signed
variable (s t : Bool) {a b : ℚ}

theorem abs_signed_sub_signed : |signed s a - signed s b| = |a - b| := by
  cases s with
  | false => rfl
  | true => rw [signed_true, signed_true, neg_sub_neg, abs_sub_comm]

theorem abs_signed_sub_signed_of_ne (hst : s ≠ t) (ha : 0 ≤ a) (hb : 0 ≤ b) :
    |signed s a - signed t b| = a + b := by
  cases s <;> cases t
  · exact absurd rfl hst
  · rw [signed_false, signed_true, sub_neg_eq_add, abs_of_nonneg (add_nonneg ha hb)]
  · rw [signed_false, signed_true, ← neg_add', abs_neg, abs_of_nonneg (add_nonneg ha hb)]
  · exact absurd rfl hst

end Signed

/-- A double that a magnitude with a sign is rounded to: it has the sign, it is infinite or zero
exactly from the last and up to the first midpoint, and no finite double is nearer, or as near
unless the mantissa is even. -/
structure Rounded (negative : Bool) (q : ℚ) (v : Float) : Prop where
  isNegative_eq : isNegative v = negative
  isNaN_eq : v.isNaN = false
  isInf_iff : v.isInf = true ↔ 2 ^ 1024 - 2 ^ 970 ≤ q
  beq_zero_iff : (v == 0) = true ↔ q ≤ 1 / 2 ^ 1075
  abs_sub_le : v.isFinite = true → ∀ w : Float, w.isFinite = true →
    |rational v - signed negative q| ≤ |rational w - signed negative q|
  even_of_tie : v.isFinite = true → ∀ w : Float, w.isFinite = true → rational w ≠ rational v →
    |rational w - signed negative q| = |rational v - signed negative q| → mantissa v % 2 = 0

section Ratio
variable (negative : Bool) (n : ℕ) {d : ℕ} (hd : 0 < d)

theorem two_mul_units : 2 * (n * 2 ^ unitExponent) = n * 2 ^ 1075 := by
  have hunit : 1075 = unitExponent + 1 := rfl
  rw [hunit, Nat.pow_succ, Nat.mul_comm 2, Nat.mul_assoc]

theorem cast_pow_sub_pow {a b : ℕ} (h : a ≤ b) : ((2 ^ b - 2 ^ a : ℕ) : ℚ) = 2 ^ b - 2 ^ a := by
  rw [Nat.cast_sub (Nat.pow_le_pow_right Nat.ofNat_pos h), Nat.cast_pow, Nat.cast_pow,
    Nat.cast_ofNat]

include hd in
theorem nearest_eq_infinity_iff_le : nearest n d = infinity ↔ (2 ^ 1024 - 2 ^ 970 : ℚ) ≤ n / d := by
  have hd' : (0 : ℚ) < d := Nat.cast_pos.mpr hd
  have hlargest : 2 ^ 2099 - 2 ^ 2045 = (2 ^ 1024 - 2 ^ 970) * 2 ^ 1075 := by decide +kernel
  rw [nearest_eq_infinity_iff hd, le_div_iff₀ hd', hlargest, two_mul_units, Nat.mul_right_comm,
    Nat.mul_le_mul_right_iff (Nat.two_pow_pos _), ← cast_pow_sub_pow (by decide), ← Nat.cast_mul,
    Nat.cast_le]

include hd in
theorem nearest_eq_zero_iff_le : nearest n d = 0 ↔ (n / d : ℚ) ≤ 1 / 2 ^ 1075 := by
  have hd' : (0 : ℚ) < d := Nat.cast_pos.mpr hd
  have hcast : ((n * 2 ^ 1075 : ℕ) : ℚ) = n * 2 ^ 1075 := by
    rw [Nat.cast_mul, Nat.cast_pow, Nat.cast_ofNat]
  rw [nearest_eq_zero_iff hd, two_mul_units, div_le_div_iff₀ hd' (by positivity), one_mul, ← hcast,
    Nat.cast_le]

theorem abs_div_sub_div (a b c : ℚ) {u : ℚ} (hu : 0 < u) :
    |a / u - b / c| = |a - b * u / c| / u := by
  rw [mul_div_right_comm, ← abs_of_pos hu, ← abs_div, abs_of_pos hu, sub_div,
    mul_div_cancel_right₀ _ hu.ne']

section Nearest
variable {negative} {n} {v w : Float}

include hd in
/-- A finite double whose pattern is the nearest one is at most as far away as any other, and has
an even mantissa if another one is as near. -/
theorem abs_sub_rational_le (hsign : isNegative v = negative) (hv : pattern v < infinity)
    (hnearest : nearest n d = pattern v) (hw : pattern w < infinity) :
    |rational v - signed negative (n / d)| ≤ |rational w - signed negative (n / d)| ∧
      (rational w ≠ rational v →
        |rational w - signed negative (n / d)| = |rational v - signed negative (n / d)| →
        pattern v % 2 = 0) := by
  have hunit : (0 : ℚ) < 2 ^ unitExponent := pow_pos two_pos _
  have hratio : (0 : ℚ) ≤ n / d := div_nonneg n.cast_nonneg d.cast_nonneg
  have hvalue (q : ℕ) : (0 : ℚ) ≤ units q / 2 ^ unitExponent :=
    div_nonneg (units q).cast_nonneg hunit.le
  have hscale (q : ℕ) : |(units q / 2 ^ unitExponent : ℚ) - n / d| =
      |(units q : ℚ) - (n * 2 ^ unitExponent : ℕ) / d| / 2 ^ unitExponent := by
    rw [abs_div_sub_div _ _ _ hunit, Nat.cast_mul, Nat.cast_pow, Nat.cast_ofNat]
  have hother (q : ℕ) (hq : q ≠ pattern v) :
      |(units (pattern v) / 2 ^ unitExponent : ℚ) - n / d| <
          |(units q / 2 ^ unitExponent : ℚ) - n / d| ∨
        |(units (pattern v) / 2 ^ unitExponent : ℚ) - n / d| =
          |(units q / 2 ^ unitExponent : ℚ) - n / d| ∧ pattern v % 2 = 0 := by
    rw [hscale, hscale, div_lt_div_iff_of_pos_right hunit, div_left_inj' hunit.ne']
    exact (between_of_nearest hd hv hnearest).abs_sub_lt hd hq
  have hle (q : ℕ) : |(units (pattern v) / 2 ^ unitExponent : ℚ) - n / d| ≤
      |(units q / 2 ^ unitExponent : ℚ) - n / d| := by
    by_cases hq : q = pattern v
    · rw [hq]
    · exact (hother q hq).elim le_of_lt fun h => h.1.le
  have heven (q : ℕ) (hq : q ≠ pattern v)
      (h : |(units q / 2 ^ unitExponent : ℚ) - n / d| =
        |(units (pattern v) / 2 ^ unitExponent : ℚ) - n / d|) : pattern v % 2 = 0 :=
    (hother q hq).elim (fun hlt => absurd h hlt.ne') fun h => h.2
  rw [rational_eq hv, rational_eq hw, hsign, abs_signed_sub_signed]
  by_cases hsame : isNegative w = negative
  · rw [hsame, abs_signed_sub_signed]
    exact ⟨hle _, fun hne h => heven _ (fun hq => hne (by rw [hq])) h⟩
  · -- A double of the other sign is not nearer than zero, and as near only if it is zero.
    have hzero : |(units 0 / 2 ^ unitExponent : ℚ) - n / d| = n / d := by
      have hunits : units 0 = 0 := rfl
      rw [hunits, Nat.cast_zero, zero_div, zero_sub, abs_neg, abs_of_nonneg hratio]
    have hle' := hle 0
    rw [hzero] at hle'
    rw [abs_signed_sub_signed_of_ne _ _ hsame (hvalue _) hratio]
    refine ⟨hle'.trans (le_add_of_nonneg_left (hvalue _)), fun _ h => ?_⟩
    by_cases hq : 0 = pattern v
    · rw [← hq]
    · refine heven 0 hq ?_
      rw [hzero]
      exact le_antisymm ((le_add_of_nonneg_left (hvalue _)).trans h.le) hle'

end Nearest

include hd in
theorem rounded_ofPattern : Rounded negative (n / d) (ofPattern negative (nearest n d)) := by
  have hle := nearest_le_infinity n d
  obtain ⟨v, hv⟩ : ∃ v, v = ofPattern negative (nearest n d) := ⟨_, rfl⟩
  have hpattern : nearest n d = pattern v := by rw [hv, pattern_ofPattern negative hle]
  have hsign : isNegative v = negative := by rw [hv, isNegative_ofPattern negative hle]
  rw [← hv]
  refine ⟨hsign, ?_, ?_, ?_, fun hfinite w hw => ?_, fun hfinite w hw hne heq => ?_⟩
  · rw [← Bool.not_eq_true, isNaN_iff, ← hpattern]
    omega
  · rw [isInf_iff, ← hpattern, nearest_eq_infinity_iff_le n hd]
  · rw [beq_zero_iff_pattern, ← hpattern, nearest_eq_zero_iff_le n hd]
  · exact (abs_sub_rational_le hd hsign (isFinite_iff.mp hfinite) hpattern (isFinite_iff.mp hw)).1
  · rw [mantissa_mod_two (isFinite_iff.mp hfinite)]
    exact (abs_sub_rational_le hd hsign (isFinite_iff.mp hfinite) hpattern
      (isFinite_iff.mp hw)).2 hne heq

end Ratio

end Calculator.Number
