import Mathlib
import Calculator.Number.Nearest

/-!
# The bits of a double

A double is its sign and its pattern. The patterns below infinity are those of the finite
doubles, the one above all others is that of the double that is no number, and every pattern
up to infinity is given back, with its sign, by the double that is made of it.

The laws of packing and unpacking are the library's, and no module of it brings them but
the one that imports all the others.
-/

namespace Calculator.Number

open Float.Model Float.Model.UnpackedFloat

theorem toNat_unpackExponent (b : BitVec 64) :
    (@unpackExponent .binary64 b).toNat = b.toNat / 2 ^ 52 % 2 ^ 11 := by
  rw [unpackExponent_def]
  simp [BitVec.extractLsb'_toNat, Nat.shiftRight_eq_div_pow]

theorem toNat_unpackMantissa (b : BitVec 64) :
    (@unpackMantissa .binary64 b).toNat = b.toNat % 2 ^ 52 := by
  rw [unpackMantissa_def]
  simp [BitVec.extractLsb'_toNat]

theorem unpackExponent_eq_iff (b : BitVec 64) :
    @unpackExponent .binary64 b = -1#_ ↔ infinity ≤ b.toNat % signBit := by
  have hones : (-1#11 : BitVec 11).toNat = 2047 := by decide
  rw [← BitVec.toNat_inj, toNat_unpackExponent, hones, infinity, signBit]
  omega

theorem isNaNBits_iff (b : BitVec 64) :
    @isNaNBits .binary64 b = true ↔ infinity < b.toNat % signBit := by
  have hzero : (0#52 : BitVec 52).toNat = 0 := rfl
  rw [isNaNBits, decide_eq_true_eq, unpackExponent_eq_iff, ne_eq, ← BitVec.toNat_inj,
    toNat_unpackMantissa, hzero, infinity, signBit]
  omega

/-- Bits that stand for a number are those of the double that is made of them. -/
theorem toBits_ofBits {b : UInt64} (h : b.toNat % signBit ≤ infinity) :
    (Float.ofBits b).toBits = b := by
  have hnan : ¬ @isNaNBits .binary64 b.toBitVec = true := by
    rw [isNaNBits_iff]
    exact Nat.not_lt.mpr h
  apply UInt64.toBitVec_inj.mp
  have hpack := @pack_unpack .binary64 b.toBitVec
  rw [if_neg hnan] at hpack
  exact hpack

theorem isNaN_iff {x : Float} : x.isNaN = true ↔ infinity < pattern x := by
  have h := isNaNBits_iff x.toBits.toBitVec
  rw [pattern, ← UInt64.toNat_toBitVec, ← h]
  constructor
  · intro hx
    have hx' := (isNaN_unpack_iff_of_valid x.toModel.valid).mp hx
    rw [Float.toBits, hx']
    exact isNaNBits_packedNaN
  · intro hx
    rw [isNaNBits, decide_eq_true_eq] at hx
    exact (isNaN_unpack_iff_of_valid x.toModel.valid).mpr (x.toModel.valid.eq_packedNaN hx.1 hx.2)

theorem isFinite_iff {x : Float} : x.isFinite = true ↔ pattern x < infinity := by
  have h := unpackExponent_eq_iff x.toBits.toBitVec
  rw [UInt64.toNat_toBitVec] at h
  rw [pattern, ← Nat.not_le, ← h]
  change (UnpackedFloat.unpack .binary64 x.toBits.toBitVec).isFinite = true ↔ _
  rw [UnpackedFloat.unpack]
  split
  · next hones =>
      split
      · exact iff_of_false Bool.false_ne_true (not_not.mpr hones)
      · exact iff_of_false Bool.false_ne_true (not_not.mpr hones)
  · next hones =>
      split
      · split
        · exact iff_of_true rfl hones
        · exact iff_of_true rfl hones
      · exact iff_of_true rfl hones

section OfPattern
variable {p : Nat} (negative : Bool)

theorem toNat_toBits_ofPattern (hp : p ≤ infinity) :
    (ofPattern negative p).toBits.toNat = if negative then signBit + p else p := by
  rw [infinity] at hp
  have hlt : (if negative then signBit + p else p) < 2 ^ 64 := by
    rw [signBit]
    split <;> omega
  rw [ofPattern, toBits_ofBits, UInt64.toNat_ofNat_of_lt' hlt]
  rw [UInt64.toNat_ofNat_of_lt' hlt, signBit, infinity]
  split <;> omega

theorem pattern_ofPattern (hp : p ≤ infinity) : pattern (ofPattern negative p) = p := by
  have h := toNat_toBits_ofPattern negative hp
  rw [infinity] at hp
  rw [pattern, h, signBit]
  split <;> omega

theorem isNegative_ofPattern (hp : p ≤ infinity) : isNegative (ofPattern negative p) = negative := by
  have h := toNat_toBits_ofPattern negative hp
  rw [infinity] at hp
  rw [isNegative, h, signBit]
  cases negative with
  | true => simp
  | false => simpa using Nat.lt_of_le_of_lt hp (by decide)

end OfPattern

/-- A double is made of its sign and its pattern. -/
theorem ofPattern_isNegative_pattern (x : Float) : ofPattern (isNegative x) (pattern x) = x := by
  have hlt : x.toBits.toNat < 2 ^ 64 := x.toBits.toNat_lt
  have hbits : (if isNegative x then signBit + pattern x else pattern x) = x.toBits.toNat := by
    simp only [isNegative, pattern, decide_eq_true_eq]
    rw [signBit]
    split <;> omega
  rw [ofPattern, hbits, UInt64.ofNat_toNat, Float.ofBits_toBits]

theorem exists_unpack_eq_zero_iff (b : BitVec 64) :
    (∃ s, UnpackedFloat.unpack .binary64 b = .zero s) ↔ b.toNat % signBit = 0 := by
  have hexponent : (0#11 : BitVec 11).toNat = 0 := rfl
  have hmantissa : (0#52 : BitVec 52).toNat = 0 := rfl
  have hfields : (@unpackExponent .binary64 b = 0#11 ∧ @unpackMantissa .binary64 b = 0#52) ↔
      b.toNat % signBit = 0 := by
    rw [← BitVec.toNat_inj, ← BitVec.toNat_inj, toNat_unpackExponent, toNat_unpackMantissa,
      hexponent, hmantissa, signBit]
    omega
  rw [← hfields, UnpackedFloat.unpack]
  split
  · next hones =>
      have hne : ¬ @unpackExponent .binary64 b = 0#11 := by
        rw [hones]
        decide
      split <;> simp [hne]
  · split
    · next hexp =>
        split
        · next hm => simp [hexp, hm]
        · next hm => simp [hm]
    · next hexp => simp [hexp]

theorem beq_zero_iff_pattern {x : Float} : (x == 0) = true ↔ pattern x = 0 := by
  obtain ⟨s, hs⟩ := (exists_unpack_eq_zero_iff (0 : Float).toBits.toBitVec).mpr (by decide +kernel)
  rw [pattern, ← UInt64.toNat_toBitVec, ← exists_unpack_eq_zero_iff]
  change (UnpackedFloat.unpack .binary64 x.toBits.toBitVec).beq
    (UnpackedFloat.unpack .binary64 (0 : Float).toBits.toBitVec) = true ↔ _
  rw [hs]
  cases UnpackedFloat.unpack .binary64 x.toBits.toBitVec with
  | zero sign => simp [UnpackedFloat.beq, UnpackedFloat.compare]
  | finite sign m e hm => cases sign <;> simp [UnpackedFloat.beq, UnpackedFloat.compare]
  | infinity sign => cases sign <;> simp [UnpackedFloat.beq, UnpackedFloat.compare]
  | notANumber => simp [UnpackedFloat.beq, UnpackedFloat.compare]

theorem beq_zero_iff {x : Float} : (x == 0) = true ↔ x = 0 ∨ x = -0 := by
  have hpositive : ofPattern false 0 = 0 := by decide +kernel
  have hnegative : ofPattern true 0 = -0 := by decide +kernel
  rw [beq_zero_iff_pattern]
  constructor
  · intro h
    rw [← ofPattern_isNegative_pattern x, h]
    cases isNegative x with
    | false => exact .inl hpositive
    | true => exact .inr hnegative
  · intro h
    rcases h with h | h
    · rw [h, ← hpositive, pattern_ofPattern false (Nat.zero_le _)]
    · rw [h, ← hnegative, pattern_ofPattern true (Nat.zero_le _)]

end Calculator.Number
