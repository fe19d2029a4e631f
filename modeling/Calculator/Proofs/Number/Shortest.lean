import Calculator.Proofs.Number.Rounding

/-!
# The shortest decimal reads back

On the common scale of a double the decimals that read back are the naturals between `least`
and `greatest`. The scale is fine enough for one of them to exist, since the distance of the
midpoints is more than one there, and the shortest decimal is one of them. Read as a ratio it
is therefore rounded to the pattern it was made of.
-/

namespace Calculator.Number

/-- A comparison of two powers gives one of all powers of these bases whose exponents are in
about the same proportion. -/
theorem pow_le_pow_of_base {x y e f N i j k : ℕ} (hbase : x ^ e ≤ y ^ f) (hx : 0 < x) (hy : 0 < y)
    (hN : N ≠ 0) (hi : i * N ≤ e * k) (hj : f * k ≤ j * N) : x ^ i ≤ y ^ j := by
  apply (Nat.pow_le_pow_iff_left hN).mp
  calc (x ^ i) ^ N = x ^ (i * N) := (Nat.pow_mul ..).symm
    _ ≤ x ^ (e * k) := Nat.pow_le_pow_right hx hi
    _ = (x ^ e) ^ k := Nat.pow_mul ..
    _ ≤ (y ^ f) ^ k := Nat.pow_le_pow_left hbase k
    _ = y ^ (f * k) := (Nat.pow_mul ..).symm
    _ ≤ y ^ (j * N) := Nat.pow_le_pow_right hy hj
    _ = (y ^ j) ^ N := Nat.pow_mul ..

/-- The logarithm of two is at most `30103 / 100000`, and about as much. -/
theorem pow_ten_le_pow_two {k a : ℕ} (hk : k ≤ 100000) (h : a * 100000 ≤ 30103 * k) :
    10 ^ a ≤ 2 ^ (k + 1) := by
  have hbase : 10 ^ 30103 ≤ 2 ^ 100001 := by decide +kernel
  have hj : 100001 * k ≤ (k + 1) * 100000 := by omega
  exact pow_le_pow_of_base (e := 30103) (f := 100001) hbase Nat.ofNat_pos Nat.ofNat_pos
    (OfNat.ofNat_ne_zero _) h hj

theorem pow_two_le_pow_ten {n c : ℕ} (h : 30103 * n ≤ c * 100000) : 2 ^ n ≤ 10 ^ c := by
  have hbase : 2 ^ 100000 ≤ 10 ^ 30103 := by decide +kernel
  have hi : n * 100000 ≤ 100000 * n := by omega
  exact pow_le_pow_of_base (e := 100000) (f := 30103) hbase Nat.ofNat_pos Nat.ofNat_pos
    (OfNat.ofNat_ne_zero _) hi h

namespace Parts

theorem factor_eq (p : Parts) : p.factor = 10 ^ p.scale.toNat * 2 ^ (p.shift - unitExponent) := by
  rw [factor, Nat.shiftLeft_eq]
  rfl

theorem divisor_eq (p : Parts) :
    p.divisor = 10 ^ (-p.scale).toNat * 2 ^ (unitExponent - p.shift) := by
  rw [divisor, Nat.shiftLeft_eq]
  rfl

theorem factor_pos (p : Parts) : 0 < p.factor := by
  rw [factor_eq]
  positivity

theorem divisor_pos (p : Parts) : 0 < p.divisor := by
  rw [divisor_eq]
  positivity

theorem Canonical.shift_le {p : Parts} (hp : p.Canonical) : p.shift ≤ 2046 := by
  have hlt : p.shift * hiddenBit + p.mantissa < infinity := hp.pattern_lt
  rw [hiddenBit, infinity] at hlt
  omega

theorem Canonical.log2_mantissa_le {p : Parts} (hp : p.Canonical) : p.mantissa.log2 ≤ 52 := by
  obtain hm | hm := Nat.eq_zero_or_pos p.mantissa
  · rw [hm]
    decide
  · have hlt := (Nat.log2_lt hm.ne').mpr hp.mantissa_lt
    omega

/-- The common scale of a double that is at least one, with the power of ten at its leading power
of two, and that of a double that is less than one, with the inverse of these powers. -/
theorem scale_cases (p : Parts) :
    (∃ k a, p.mantissa.log2 + p.shift = 1074 + k ∧ a = 30103 * k / 100000 ∧
      p.factor = 10 ^ (17 - a) * 2 ^ (p.shift - 1074) ∧
      p.divisor = 10 ^ (a - 17) * 2 ^ (1074 - p.shift)) ∨
    ∃ n c, 1074 = p.mantissa.log2 + p.shift + n ∧ 0 < n ∧ c = (30103 * n + 99999) / 100000 ∧
      p.factor = 10 ^ (c + 17) ∧ p.divisor = 2 ^ (p.mantissa.log2 + n) := by
  rw [factor_eq, divisor_eq, scale, unitExponent]
  generalize p.mantissa.log2 = l
  generalize p.shift = s
  by_cases hk : 1074 ≤ l + s
  · obtain ⟨k, hk⟩ := Nat.exists_eq_add_of_le hk
    obtain ⟨a, ha⟩ : ∃ a, a = 30103 * k / 100000 := ⟨_, rfl⟩
    have hscale : (17 - ((l + s : ℕ) - (1074 : ℕ) : ℤ) * 30103 / 100000) = 17 - (a : ℤ) := by omega
    have hpos : (17 - (a : ℤ)).toNat = 17 - a := by omega
    have hneg : (-(17 - (a : ℤ))).toNat = a - 17 := by omega
    rw [hscale, hpos, hneg]
    exact .inl ⟨k, a, hk, ha, rfl, rfl⟩
  · obtain ⟨n, hn⟩ : ∃ n, 1074 = l + s + n := Nat.exists_eq_add_of_le (by omega)
    obtain ⟨c, hc⟩ : ∃ c, c = (30103 * n + 99999) / 100000 := ⟨_, rfl⟩
    have hscale : (17 - ((l + s : ℕ) - (1074 : ℕ) : ℤ) * 30103 / 100000) = 17 + (c : ℤ) := by omega
    have hpos : (17 + (c : ℤ)).toNat = c + 17 := by omega
    have hneg : (-(17 + (c : ℤ))).toNat = 0 := by omega
    have hs : s - 1074 = 0 := by omega
    have hs' : 1074 - s = l + n := by omega
    refine .inr ⟨n, c, hn, by omega, hc, ?_, ?_⟩
    · rw [hscale, hpos, hs, Nat.pow_zero, Nat.mul_one]
    · rw [hscale, hneg, hs', Nat.pow_zero, Nat.one_mul]

theorem pow_sub_mul_pow_min (a b : ℕ) :
    10 ^ (a - b) * 10 ^ min a b = 10 ^ a ∧ 10 ^ (b - a) * 10 ^ min a b = 10 ^ b := by
  rw [← Nat.pow_add, ← Nat.pow_add, Nat.sub_add_min_cancel, Nat.min_comm, Nat.sub_add_min_cancel]
  exact ⟨rfl, rfl⟩

/-- A double that is at least one, with `10 ^ a` at most twice its leading power of two. -/
theorem two_mul_le_of_pow_ten_le {a k s : ℕ} (h : 10 ^ a ≤ 2 ^ (k + 1))
    (hk : k + (1074 - s) ≤ 52 + (s - 1074)) :
    2 * (10 ^ (a - 17) * 2 ^ (1074 - s)) ≤ 10 ^ (17 - a) * 2 ^ (s - 1074) := by
  obtain ⟨hlower, hupper⟩ := pow_sub_mul_pow_min a 17
  have hbits : 2 ^ (k + 1) * 2 ^ (1074 - s) ≤ 2 ^ 53 * 2 ^ (s - 1074) := by
    rw [← Nat.pow_add, ← Nat.pow_add]
    exact Nat.pow_le_pow_right (by decide) (by omega)
  apply Nat.le_of_mul_le_mul_right (c := 10 ^ min a 17) _ (by positivity)
  calc 2 * (10 ^ (a - 17) * 2 ^ (1074 - s)) * 10 ^ min a 17
      = 2 * (10 ^ a * 2 ^ (1074 - s)) := by rw [← hlower]; ring
    _ ≤ 2 * (2 ^ (k + 1) * 2 ^ (1074 - s)) := by gcongr
    _ ≤ 2 * (2 ^ 53 * 2 ^ (s - 1074)) := by gcongr
    _ ≤ 10 ^ 17 * 2 ^ (s - 1074) := by
      rw [← Nat.mul_assoc]
      exact Nat.mul_le_mul_right _ (by decide)
    _ = 10 ^ (17 - a) * 2 ^ (s - 1074) * 10 ^ min a 17 := by rw [← hupper]; ring

/-- A double that is less than one, with `10 ^ c` at least the inverse of its leading power. -/
theorem two_mul_le_of_le_pow_ten {c l n : ℕ} (h : 2 ^ n ≤ 10 ^ c) (hl : l ≤ 52) :
    2 * 2 ^ (l + n) ≤ 10 ^ (c + 17) :=
  calc 2 * 2 ^ (l + n) = 2 * 2 ^ l * 2 ^ n := by ring
    _ ≤ 2 * 2 ^ 52 * 10 ^ c := by
      gcongr
      decide
    _ ≤ 10 ^ 17 * 10 ^ c := Nat.mul_le_mul_right _ (by decide)
    _ = 10 ^ (c + 17) := by ring

/-- The common scale is fine: a unit of the mantissa is at least two there. -/
theorem two_mul_divisor_le {p : Parts} (hp : p.Canonical) : 2 * p.divisor ≤ p.factor := by
  have hshift := hp.shift_le
  have hlog := hp.log2_mantissa_le
  obtain ⟨k, a, hk, ha, hfactor, hdivisor⟩ | ⟨n, c, hn, -, hc, hfactor, hdivisor⟩ := p.scale_cases
  · have hpow : 10 ^ a ≤ 2 ^ (k + 1) := pow_ten_le_pow_two (by omega) (by omega)
    rw [hfactor, hdivisor]
    exact two_mul_le_of_pow_ten_le hpow (by omega)
  · have hpow : 2 ^ n ≤ 10 ^ c := pow_two_le_pow_ten (by omega)
    rw [hfactor, hdivisor]
    exact two_mul_le_of_le_pow_ten hpow hlog

theorem least_le_iff {p : Parts} {k : ℕ} :
    p.least ≤ k ↔ (4 * p.mantissa - p.lowerGap) * p.factor ≤ 4 * p.divisor * k ∧
      (p.mantissa % 2 = 1 → (4 * p.mantissa - p.lowerGap) * p.factor ≠ 4 * p.divisor * k) := by
  have hunit : 0 < 4 * p.divisor := Nat.mul_pos (by decide) p.divisor_pos
  change (let low := (4 * p.mantissa - p.lowerGap) * p.factor
    let unit := 4 * p.divisor
    if p.mantissa % 2 = 0 then (low + unit - 1) / unit else low / unit + 1) ≤ k ↔ _
  dsimp only
  generalize (4 * p.mantissa - p.lowerGap) * p.factor = low at *
  generalize 4 * p.divisor = unit at *
  split
  · rw [← Nat.lt_succ_iff, Nat.div_lt_iff_lt_mul hunit, Nat.succ_mul, Nat.mul_comm k]
    omega
  · rw [Nat.succ_le_iff, Nat.div_lt_iff_lt_mul hunit, Nat.mul_comm k]
    omega

theorem le_greatest_iff {p : Parts} {k : ℕ} :
    k ≤ p.greatest ↔ 4 * p.divisor * k ≤ (4 * p.mantissa + 2) * p.factor ∧
      (p.mantissa % 2 = 1 → 4 * p.divisor * k ≠ (4 * p.mantissa + 2) * p.factor) := by
  have hunit : 0 < 4 * p.divisor := Nat.mul_pos (by decide) p.divisor_pos
  have hhigh : 0 < (4 * p.mantissa + 2) * p.factor := Nat.mul_pos (by omega) p.factor_pos
  rw [greatest]
  generalize (4 * p.mantissa + 2) * p.factor = high at *
  generalize 4 * p.divisor = unit at *
  split
  · rw [Nat.le_div_iff_mul_le hunit, Nat.mul_comm k]
    omega
  · rw [Nat.le_div_iff_mul_le hunit, Nat.mul_comm k]
    omega

theorem covers_of_scaled {p : Parts} {k : ℕ} (hleast : p.least ≤ k) (hgreatest : k ≤ p.greatest) :
    p.Covers (p.divisor * k * 2 ^ p.shift) p.factor := by
  have hshift : 0 < 2 ^ p.shift := Nat.two_pow_pos _
  obtain ⟨hlow, hlow'⟩ := least_le_iff.mp hleast
  obtain ⟨hhigh, hhigh'⟩ := le_greatest_iff.mp hgreatest
  have hn : 4 * (p.divisor * k * 2 ^ p.shift) = 4 * p.divisor * k * 2 ^ p.shift := by ring
  refine ⟨?_, ?_, fun hodd => ⟨?_, ?_⟩⟩
  · rw [hn, ← Nat.mul_assoc]
    exact Nat.mul_le_mul_right _ hlow
  · rw [hn, ← Nat.mul_assoc]
    exact Nat.mul_le_mul_right _ hhigh
  · rw [hn, ← Nat.mul_assoc]
    exact fun h => hlow' hodd (Nat.eq_of_mul_eq_mul_right hshift h)
  · rw [hn, ← Nat.mul_assoc]
    exact fun h => hhigh' hodd (Nat.eq_of_mul_eq_mul_right hshift h)

theorem lowerGap_pos (p : Parts) : 0 < p.lowerGap := by
  rw [lowerGap]
  split <;> decide

section Positive
variable {p : Parts} {k : ℕ} (hm : 0 < p.mantissa)

include hm in
theorem low_lt : (4 * p.mantissa - p.lowerGap) * p.factor < 4 * (p.mantissa * p.factor) := by
  rw [← Nat.mul_assoc]
  have := p.lowerGap_pos
  exact Nat.mul_lt_mul_of_pos_right (by omega) p.factor_pos

include hm in
theorem least_le_of_le (h : p.mantissa * p.factor ≤ p.divisor * k) : p.least ≤ k := by
  have := low_lt hm
  rw [least_le_iff, Nat.mul_assoc]
  omega

theorem le_greatest_of_le (h : p.divisor * k ≤ p.mantissa * p.factor) : k ≤ p.greatest := by
  have := p.factor_pos
  rw [le_greatest_iff, Nat.mul_assoc, Nat.add_mul, Nat.mul_assoc]
  omega

include hm in
theorem least_le_greatest (hp : p.Canonical) : p.least ≤ p.greatest := by
  -- The midpoints are more than one apart, so the first multiple of the unit after the lower
  -- midpoint lies strictly between them.
  have hgap := p.lowerGap_pos
  have hscale := two_mul_divisor_le hp
  have hunit : 0 < 4 * p.divisor := Nat.mul_pos (by decide) p.divisor_pos
  have hmidpoints : (4 * p.mantissa - p.lowerGap) * p.factor + 4 * p.divisor <
      (4 * p.mantissa + 2) * p.factor := by
    calc (4 * p.mantissa - p.lowerGap) * p.factor + 4 * p.divisor
        < 4 * (p.mantissa * p.factor) + 2 * p.factor := Nat.add_lt_add_of_lt_of_le (low_lt hm) (by omega)
      _ = (4 * p.mantissa + 2) * p.factor := by ring
  have hk : (4 * p.mantissa - p.lowerGap) * p.factor <
      4 * p.divisor * ((4 * p.mantissa - p.lowerGap) * p.factor / (4 * p.divisor) + 1) :=
    Nat.lt_mul_div_succ _ hunit
  have hk' := Nat.mul_div_le ((4 * p.mantissa - p.lowerGap) * p.factor) (4 * p.divisor)
  refine (least_le_iff.mpr ⟨hk.le, fun _ => hk.ne⟩).trans (le_greatest_iff.mpr ?_)
  rw [Nat.mul_succ]
  omega

end Positive

/-- The power of ten that the search ends at has a multiple in the range. -/
theorem le_coarsest {least greatest : ℕ} (h : least ≤ greatest) (j : ℕ) :
    least ≤ greatest / 10 ^ coarsest least greatest j * 10 ^ coarsest least greatest j := by
  induction j with
  | zero => simpa [coarsest] using h
  | succ j ih =>
    rw [coarsest]
    split
    · assumption
    · exact ih

theorem nearestMultiple_mem {p : Parts} (hm : 0 < p.mantissa) (tie : Tie) {j : ℕ}
    (h : p.least ≤ p.greatest / 10 ^ j * 10 ^ j) :
    p.least ≤ p.nearestMultiple tie p.least p.greatest j * 10 ^ j ∧
      p.nearestMultiple tie p.least p.greatest j * 10 ^ j ≤ p.greatest := by
  obtain ⟨below, hbelow⟩ : ∃ b, b = p.mantissa * p.factor / (p.divisor * 10 ^ j) := ⟨_, rfl⟩
  have hden : 0 < p.divisor * 10 ^ j := Nat.mul_pos p.divisor_pos (Nat.pow_pos (by decide))
  -- The multiple below the double is not above the range, and the next one is not below it.
  have hle : below * 10 ^ j ≤ p.greatest := by
    apply le_greatest_of_le
    calc p.divisor * (below * 10 ^ j) = p.divisor * 10 ^ j * below := by ring
      _ ≤ p.mantissa * p.factor := hbelow ▸ Nat.mul_div_le _ _
  have hge : p.least ≤ (below + 1) * 10 ^ j := by
    apply least_le_of_le hm
    calc p.mantissa * p.factor ≤ p.divisor * 10 ^ j * (below + 1) :=
          hbelow ▸ (Nat.lt_mul_div_succ _ hden).le
      _ = p.divisor * ((below + 1) * 10 ^ j) := by ring
  have hnext (hlt : below * 10 ^ j < p.least) : (below + 1) * 10 ^ j ≤ p.greatest := by
    have hquotient : below < p.greatest / 10 ^ j :=
      Nat.lt_of_mul_lt_mul_right (a := 10 ^ j) (hlt.trans_le h)
    exact (Nat.mul_le_mul_right _ hquotient).trans (Nat.div_mul_le_self _ _)
  simp only [nearestMultiple, Nat.pow_eq, ← hbelow]
  split
  · next hlt => exact ⟨hge, hnext hlt⟩
  · next hlt =>
    have hlow : p.least ≤ below * 10 ^ j := Nat.le_of_not_lt hlt
    split
    · exact ⟨hlow, hle⟩
    · next hgt =>
      have hhigh : (below + 1) * 10 ^ j ≤ p.greatest := Nat.le_of_not_lt hgt
      split
      · exact ⟨hlow, hle⟩
      · split
        · exact ⟨hge, hhigh⟩
        · cases tie with
          | up => exact ⟨hge, hhigh⟩
          | even =>
            dsimp only
            split
            · exact ⟨hlow, hle⟩
            · exact ⟨hge, hhigh⟩

end Parts

namespace Decimal

def numerator (d : Decimal) : ℕ :=
  d.digits * 10 ^ d.exponent.toNat

def denominator (d : Decimal) : ℕ :=
  10 ^ (-d.exponent).toNat

theorem denominator_pos (d : Decimal) : 0 < d.denominator :=
  Nat.pow_pos (by decide)

end Decimal

/-- The shortest decimal is in the range of the search, at the power of ten that the search
ends at. -/
theorem Parts.exists_shortest {p : Parts} (hp : p.Canonical) (hm : 0 < p.mantissa) (tie : Tie) :
    ∃ j r, j = coarsest p.least p.greatest 18 ∧ p.shortest tie = ⟨r, j - p.scale⟩ ∧
      p.least ≤ r * 10 ^ j ∧ r * 10 ^ j ≤ p.greatest := by
  refine ⟨_, _, rfl, rfl, ?_⟩
  exact nearestMultiple_mem hm tie (le_coarsest (least_le_greatest hm hp) 18)

theorem Parts.nearest_shortest {p : Parts} (hp : p.Canonical) (hm : 0 < p.mantissa) (tie : Tie) :
    nearest (p.shortest tie).numerator (p.shortest tie).denominator = p.pattern := by
  obtain ⟨j, r, -, hshortest, hleast, hgreatest⟩ := exists_shortest hp hm tie
  rw [hshortest]
  apply Covers.nearest_eq hp (Decimal.denominator_pos _)
  apply (covers_of_scaled hleast hgreatest).congr p.factor_pos (Decimal.denominator_pos _)
  -- The two ratios are equal: the powers of ten and of two come out the same on both sides.
  have hten : 10 ^ (j - p.scale).toNat * 10 ^ p.scale.toNat =
      10 ^ j * (10 ^ (-p.scale).toNat * 10 ^ (-(j - p.scale)).toNat) := by
    rw [← Nat.pow_add, ← Nat.pow_add, ← Nat.pow_add]
    congr 1
    omega
  have htwo : 2 ^ unitExponent * 2 ^ (p.shift - unitExponent) =
      2 ^ (unitExponent - p.shift) * 2 ^ p.shift := by
    have hexponent : unitExponent + (p.shift - unitExponent) = unitExponent - p.shift + p.shift := by
      omega
    rw [← Nat.pow_add, ← Nat.pow_add, hexponent]
  calc p.divisor * (r * 10 ^ j) * 2 ^ p.shift * 10 ^ (-(j - p.scale)).toNat
      = r * (10 ^ j * (10 ^ (-p.scale).toNat * 10 ^ (-(j - p.scale)).toNat)) *
          (2 ^ (unitExponent - p.shift) * 2 ^ p.shift) := by rw [divisor_eq]; ring
    _ = r * (10 ^ (j - p.scale).toNat * 10 ^ p.scale.toNat) *
          (2 ^ unitExponent * 2 ^ (p.shift - unitExponent)) := by rw [hten, htwo]
    _ = r * 10 ^ (j - p.scale).toNat * 2 ^ unitExponent * p.factor := by rw [factor_eq]; ring

end Calculator.Number
