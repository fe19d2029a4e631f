import Calculator.Proofs.Number.Neighbours
import Calculator.Proofs.Number.Shortest

/-!
# The shortest decimal has the fewest digits

A decimal that reads back lies, on the common scale, between the midpoints to the neighbours of
the double. It is not a multiple of a power of ten that the search has passed over, and a power
of ten between it and the shortest decimal would have been found. The shortest decimal therefore
has no more digits than any decimal that reads back, and no zero at its end.
-/

namespace Calculator.Number

namespace Parts

theorem two_mul_midpoint (q : ℕ) : 2 * midpoint q =
    (4 * (ofPattern q).mantissa + 2) * 2 ^ (ofPattern q).shift := by
  rw [midpoint, units_succ, units]
  ring

/-- The shift grows at the patterns whose lower neighbour is nearer. -/
theorem shift_ofPattern_succ (k : ℕ) : (ofPattern (k + 1)).shift =
    (ofPattern k).shift + if (ofPattern (k + 1)).isNarrow then 1 else 0 := by
  have hk := pattern_ofPattern k
  have hlt := mantissa_ofPattern_lt k
  have hle := @le_mantissa_ofPattern k
  have hk' := pattern_ofPattern (k + 1)
  have hlt' := mantissa_ofPattern_lt (k + 1)
  have hle' := @le_mantissa_ofPattern (k + 1)
  rw [pattern, hiddenBit] at hk hk'
  split
  · next hnarrow =>
      rw [isNarrow_iff] at hnarrow
      omega
  · next hnarrow =>
      rw [isNarrow_iff] at hnarrow
      omega

theorem two_mul_two_pow_shift (k : ℕ) : 2 * 2 ^ (ofPattern k).shift =
    (ofPattern (k + 1)).lowerGap * 2 ^ (ofPattern (k + 1)).shift := by
  rw [shift_ofPattern_succ, lowerGap]
  split
  · rw [Nat.pow_succ', Nat.one_mul]
  · rfl

theorem two_mul_midpoint_of_succ (k : ℕ) :
    2 * midpoint k = (4 * (ofPattern (k + 1)).mantissa - (ofPattern (k + 1)).lowerGap) *
      2 ^ (ofPattern (k + 1)).shift := by
  have hunits : units (k + 1) = (ofPattern (k + 1)).mantissa * 2 ^ (ofPattern (k + 1)).shift := rfl
  have hsucc := units_succ k
  have hshift := two_mul_two_pow_shift k
  rw [midpoint, Nat.sub_mul, ← hshift, Nat.mul_assoc, ← hunits]
  omega

theorem covers_of_between {q n d : ℕ} (hq : 0 < q) (h : Between q n d) :
    (ofPattern q).Covers n d := by
  obtain ⟨k, rfl⟩ : ∃ k, q = k + 1 := ⟨q - 1, by omega⟩
  have hlower : (4 * (ofPattern (k + 1)).mantissa - (ofPattern (k + 1)).lowerGap) *
      (d * 2 ^ (ofPattern (k + 1)).shift) = 2 * (midpoint k * d) := by
    rw [Nat.mul_left_comm, ← two_mul_midpoint_of_succ]
    ring
  have hupper : (4 * (ofPattern (k + 1)).mantissa + 2) * (d * 2 ^ (ofPattern (k + 1)).shift) =
      2 * (midpoint (k + 1) * d) := by
    rw [Nat.mul_left_comm, ← two_mul_midpoint]
    ring
  have hparity := pattern_mod_two (ofPattern (k + 1))
  rw [pattern_ofPattern] at hparity
  have hle := h.lower_le k rfl
  have hle' := h.le_upper
  have heven := h.even_of_lower k rfl
  have heven' := h.even_of_upper
  refine ⟨?_, ?_, fun hodd => ⟨?_, ?_⟩⟩
  · omega
  · omega
  · omega
  · omega

section Scaled
variable {p : Parts} {n d k : ℕ}

/-- A natural that is not below a covered ratio on the common scale is not below `least`. -/
theorem least_le_of_covers (hd : 0 < d) (h : p.Covers n d)
    (hle : n * p.factor ≤ p.divisor * k * 2 ^ p.shift * d) : p.least ≤ k := by
  have hunit : 0 < d * 2 ^ p.shift := Nat.mul_pos hd (Nat.two_pow_pos _)
  have hlower := Nat.mul_le_mul_right p.factor h.lower_le
  rw [least_le_iff]
  constructor
  · apply Nat.le_of_mul_le_mul_right _ hunit
    linarith
  · intro hodd heq
    have := congrArg (· * (d * 2 ^ p.shift)) heq
    apply (h.ne_of_odd hodd).1
    apply Nat.eq_of_mul_eq_mul_right p.factor_pos
    linarith

theorem le_greatest_of_covers (hd : 0 < d) (h : p.Covers n d)
    (hle : p.divisor * k * 2 ^ p.shift * d ≤ n * p.factor) : k ≤ p.greatest := by
  have hunit : 0 < d * 2 ^ p.shift := Nat.mul_pos hd (Nat.two_pow_pos _)
  have hupper := Nat.mul_le_mul_right p.factor h.le_upper
  rw [le_greatest_iff]
  constructor
  · apply Nat.le_of_mul_le_mul_right _ hunit
    linarith
  · intro hodd heq
    have := congrArg (· * (d * 2 ^ p.shift)) heq
    apply (h.ne_of_odd hodd).2
    apply Nat.eq_of_mul_eq_mul_right p.factor_pos
    linarith

/-- A decimal and a natural on the common scale are compared as naturals. -/
theorem scaled_eq (p : Parts) (n t u k : ℕ) :
    n * 10 ^ t * 2 ^ unitExponent * p.factor = n * 10 ^ (t + p.scale.toNat) *
        (2 ^ (unitExponent - p.shift) * 2 ^ p.shift) ∧
      p.divisor * k * 2 ^ p.shift * 10 ^ u = k * 10 ^ (u + (-p.scale).toNat) *
        (2 ^ (unitExponent - p.shift) * 2 ^ p.shift) := by
  have htwo : 2 ^ unitExponent * 2 ^ (p.shift - unitExponent) =
      2 ^ (unitExponent - p.shift) * 2 ^ p.shift := by
    have hexponent :
        unitExponent + (p.shift - unitExponent) = unitExponent - p.shift + p.shift := by
      omega
    rw [← Nat.pow_add, ← Nat.pow_add, hexponent]
  constructor
  · rw [← htwo, factor_eq]
    ring
  · rw [divisor_eq]
    ring

theorem least_le_of_decimal {t u : ℕ} (h : p.Covers (n * 10 ^ t * 2 ^ unitExponent) (10 ^ u))
    (hle : n * 10 ^ (t + p.scale.toNat) ≤ k * 10 ^ (u + (-p.scale).toNat)) : p.least ≤ k := by
  obtain ⟨hdecimal, hnatural⟩ := scaled_eq p n t u k
  apply least_le_of_covers (by positivity) h
  rw [hdecimal, hnatural]
  exact Nat.mul_le_mul_right _ hle

theorem le_greatest_of_decimal {t u : ℕ} (h : p.Covers (n * 10 ^ t * 2 ^ unitExponent) (10 ^ u))
    (hle : k * 10 ^ (u + (-p.scale).toNat) ≤ n * 10 ^ (t + p.scale.toNat)) : k ≤ p.greatest := by
  obtain ⟨hdecimal, hnatural⟩ := scaled_eq p n t u k
  apply le_greatest_of_covers (by positivity) h
  rw [hdecimal, hnatural]
  exact Nat.mul_le_mul_right _ hle

end Scaled

theorem le_coarsest_of_multiple {least greatest i j : ℕ} (hij : i ≤ j)
    (h : least ≤ greatest / 10 ^ i * 10 ^ i) : i ≤ coarsest least greatest j := by
  induction j with
  | zero => exact hij.trans (Nat.zero_le _)
  | succ j ih =>
      rw [coarsest]
      split
      · exact hij
      · next hstep =>
          obtain hlt | rfl := Nat.lt_or_eq_of_le hij
          · exact ih (Nat.le_of_lt_succ hlt)
          · exact absurd h hstep

/-- A double that is at least one, with `10 ^ (a + 1)` at least its leading power of two. -/
theorem mul_le_of_le_pow_ten {a k l s : ℕ} (h : 2 ^ k ≤ 10 ^ (a + 1)) (hk : l + s = 1074 + k) :
    3 * 2 ^ l * (10 ^ (17 - a) * 2 ^ (s - 1074)) ≤ 10 ^ 19 * (10 ^ (a - 17) * 2 ^ (1074 - s)) := by
  obtain ⟨hlower, hupper⟩ := pow_sub_mul_pow_min a 17
  have hbits : 2 ^ l * 2 ^ (s - 1074) = 2 ^ k * 2 ^ (1074 - s) := by
    have hexponent : l + (s - 1074) = k + (1074 - s) := by omega
    rw [← Nat.pow_add, ← Nat.pow_add, hexponent]
  apply Nat.le_of_mul_le_mul_right (c := 10 ^ min a 17) _ (by positivity)
  calc 3 * 2 ^ l * (10 ^ (17 - a) * 2 ^ (s - 1074)) * 10 ^ min a 17
      = 3 * 10 ^ 17 * (2 ^ l * 2 ^ (s - 1074)) := by rw [← hupper]; ring
    _ = 3 * 10 ^ 17 * (2 ^ k * 2 ^ (1074 - s)) := by rw [hbits]
    _ ≤ 10 * 10 ^ 17 * (10 ^ (a + 1) * 2 ^ (1074 - s)) := by
      gcongr
      decide
    _ = 10 ^ 19 * (10 ^ a * 2 ^ (1074 - s)) := by ring
    _ = 10 ^ 19 * (10 ^ (a - 17) * 2 ^ (1074 - s)) * 10 ^ min a 17 := by rw [← hlower]; ring

/-- A double that is less than one, with `10 ^ c` at most the inverse of its leading power. -/
theorem mul_le_of_pow_ten_le {c l n : ℕ} (h : 10 ^ c ≤ 2 ^ (n + 1)) :
    3 * 2 ^ l * 10 ^ (c + 1 + 17) ≤ 10 ^ 19 * 2 ^ (l + n) :=
  calc 3 * 2 ^ l * 10 ^ (c + 1 + 17) = 3 * 10 ^ 18 * 2 ^ l * 10 ^ c := by ring
    _ ≤ 3 * 10 ^ 18 * 2 ^ l * 2 ^ (n + 1) := by gcongr
    _ = 6 * 10 ^ 18 * 2 ^ (l + n) := by ring
    _ ≤ 10 ^ 19 * 2 ^ (l + n) := Nat.mul_le_mul_right _ (by decide)

/-- The common scale is coarse: the mantissa has at most nineteen digits there. -/
theorem mul_factor_le {p : Parts} (hp : p.Canonical) :
    3 * 2 ^ p.mantissa.log2 * p.factor ≤ 10 ^ 19 * p.divisor := by
  have hlog := hp.log2_mantissa_le
  obtain ⟨k, a, hk, ha, hfactor, hdivisor⟩ | ⟨n, c, hn, hpos, hc, hfactor, hdivisor⟩ :=
    p.scale_cases
  · have hpow : 2 ^ k ≤ 10 ^ (a + 1) := pow_two_le_pow_ten (by omega)
    rw [hfactor, hdivisor]
    exact mul_le_of_le_pow_ten hpow hk
  · obtain ⟨b, rfl⟩ : ∃ b, c = b + 1 := ⟨c - 1, by omega⟩
    have hpow : 10 ^ b ≤ 2 ^ (n + 1) := pow_ten_le_pow_two (by omega) (by omega)
    rw [hfactor, hdivisor]
    exact mul_le_of_pow_ten_le hpow

/-- The decimals that read back have at most nineteen digits on the common scale. -/
theorem greatest_lt {p : Parts} (hp : p.Canonical) (hm : 0 < p.mantissa) :
    p.greatest < 10 ^ 19 := by
  have hlog : p.mantissa < 2 * 2 ^ p.mantissa.log2 := by
    rw [← Nat.pow_succ']
    exact Nat.lt_log2_self
  have hbound : (4 * p.mantissa + 2) * p.factor < 4 * (10 ^ 19 * p.divisor) :=
    calc (4 * p.mantissa + 2) * p.factor < 4 * (3 * 2 ^ p.mantissa.log2) * p.factor :=
          Nat.mul_lt_mul_of_pos_right (by omega) p.factor_pos
      _ = 4 * (3 * 2 ^ p.mantissa.log2 * p.factor) := Nat.mul_assoc _ _ _
      _ ≤ 4 * (10 ^ 19 * p.divisor) := Nat.mul_le_mul_left 4 (mul_factor_le hp)
  by_contra hle
  have hhigh := (le_greatest_iff.mp (Nat.not_lt.mp hle)).1
  rw [Nat.mul_assoc, Nat.mul_comm p.divisor] at hhigh
  omega

/-- No power of ten with a multiple in the range is passed over. -/
theorem le_coarsest_of_mem {p : Parts} (hp : p.Canonical) (hm : 0 < p.mantissa) {c i : ℕ}
    (hc : 0 < c) (hleast : p.least ≤ c * 10 ^ i) (hgreatest : c * 10 ^ i ≤ p.greatest) :
    i ≤ coarsest p.least p.greatest 18 := by
  have hpow : 10 ^ i < 10 ^ 19 :=
    calc 10 ^ i ≤ c * 10 ^ i := Nat.le_mul_of_pos_left _ hc
      _ ≤ p.greatest := hgreatest
      _ < 10 ^ 19 := greatest_lt hp hm
  have hi : i ≤ 18 := Nat.le_of_lt_succ ((Nat.pow_lt_pow_iff_right (by decide)).mp hpow)
  have hquotient : c ≤ p.greatest / 10 ^ i := (Nat.le_div_iff_mul_le (by positivity)).mpr hgreatest
  exact le_coarsest_of_multiple hi (hleast.trans (Nat.mul_le_mul_right _ hquotient))

end Parts

section Digits
variable {q : ℕ} (hpos : 0 < q) (hq : q < infinity) (tie : Tie)

include hpos hq in
theorem digits_shortest_lt {n t u k : ℕ} (hread : nearest (n * 10 ^ t) (10 ^ u) = q)
    (hn : n < 10 ^ k) : ((Parts.ofPattern q).shortest tie).digits < 10 ^ k := by
  have hp := Parts.canonical_ofPattern hq
  have hm := Parts.mantissa_ofPattern_pos hpos
  have hcovers := Parts.covers_of_between hpos (between_of_nearest (by positivity) hq hread)
  have hn0 : 0 < n := by
    by_contra hn0
    rw [Nat.eq_zero_of_not_pos hn0, Nat.zero_mul, nearest_zero] at hread
    omega
  generalize Parts.ofPattern q = p at *
  obtain ⟨j, r, hj, hshortest, -, hgreatest⟩ := Parts.exists_shortest hp hm tie
  -- The decimal is no multiple of a power of ten that the search has passed over.
  have hcoarse : t + p.scale.toNat ≤ u + (-p.scale).toNat + j := by
    by_contra hlt
    obtain ⟨i, hi⟩ : ∃ i, t + p.scale.toNat = i + (u + (-p.scale).toNat) :=
      ⟨t + p.scale.toNat - (u + (-p.scale).toNat), by omega⟩
    have hmultiple : n * 10 ^ (t + p.scale.toNat) = n * 10 ^ i * 10 ^ (u + (-p.scale).toNat) := by
      rw [hi, Nat.pow_add, Nat.mul_assoc]
    have := Parts.le_coarsest_of_mem hp hm hn0 (Parts.least_le_of_decimal hcovers hmultiple.le)
      (Parts.le_greatest_of_decimal hcovers hmultiple.ge)
    omega
  rw [hshortest]
  by_contra hr
  -- Otherwise there is a power of ten between the two decimals.
  have hbelow : n * 10 ^ (t + p.scale.toNat) ≤ 1 * 10 ^ (k + j) * 10 ^ (u + (-p.scale).toNat) :=
    calc n * 10 ^ (t + p.scale.toNat) ≤ 10 ^ k * 10 ^ (u + (-p.scale).toNat + j) :=
          Nat.mul_le_mul hn.le (Nat.pow_le_pow_right (by decide) hcoarse)
      _ = 1 * 10 ^ (k + j) * 10 ^ (u + (-p.scale).toNat) := by ring
  have habove : 1 * 10 ^ (k + j) ≤ p.greatest :=
    calc 1 * 10 ^ (k + j) = 10 ^ k * 10 ^ j := by ring
      _ ≤ r * 10 ^ j := Nat.mul_le_mul_right _ (Nat.not_lt.mp hr)
      _ ≤ p.greatest := hgreatest
  have hfound := Parts.le_coarsest_of_mem hp hm Nat.one_pos
    (Parts.least_le_of_decimal hcovers hbelow) habove
  have hk : k = 0 := by omega
  rw [hk] at hn
  omega

include hpos hq in
theorem digits_shortest_mod_ten : ((Parts.ofPattern q).shortest tie).digits % 10 ≠ 0 := by
  have hp := Parts.canonical_ofPattern hq
  have hm := Parts.mantissa_ofPattern_pos hpos
  have hread := Parts.nearest_shortest hp hm tie
  obtain ⟨j, r, hj, hshortest, hleast, hgreatest⟩ := Parts.exists_shortest hp hm tie
  rw [Parts.pattern_ofPattern, Decimal.numerator, hshortest] at hread
  rw [hshortest]
  intro hmod
  obtain ⟨c, rfl⟩ := Nat.dvd_of_mod_eq_zero hmod
  have hc : 0 < c := by
    by_contra hc
    rw [Nat.eq_zero_of_not_pos hc, Nat.mul_zero, Nat.zero_mul, nearest_zero] at hread
    omega
  have hten : 10 * c * 10 ^ j = c * 10 ^ (j + 1) := by ring
  rw [hten] at hleast hgreatest
  have := Parts.le_coarsest_of_mem hp hm hc hleast hgreatest
  omega

end Digits

end Calculator.Number
