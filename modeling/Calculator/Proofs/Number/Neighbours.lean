import Calculator.Proofs.Number.Rounding

/-!
# Patterns and their neighbours

The patterns number the doubles in increasing order. In units, of which the smallest positive
double is one, a pattern stands for a natural number, and the pattern of infinity for the one
that would come behind the largest finite double. A ratio is rounded to the pattern for which it
lies between the midpoints to the two neighbours, or on one of them if the pattern is even. Each
ratio has exactly one such pattern, which grows with the ratio, and those behind infinity are
cut off there.
-/

namespace Calculator.Number

/-- The units that a pattern stands for. -/
def units (q : ℕ) : ℕ :=
  (Parts.ofPattern q).mantissa * 2 ^ (Parts.ofPattern q).shift

/-- The units of a pattern and of the next one together: twice their midpoint. -/
def midpoint (q : ℕ) : ℕ :=
  units q + units (q + 1)

namespace Parts

theorem mantissa_ofPattern_lt (q : ℕ) : (ofPattern q).mantissa < 2 ^ 53 := by
  rw [ofPattern, hiddenBit]
  split <;> dsimp only <;> omega

theorem le_mantissa_ofPattern {q : ℕ} (h : 0 < (ofPattern q).shift) :
    2 ^ 52 ≤ (ofPattern q).mantissa := by
  rw [ofPattern, hiddenBit] at h ⊢
  split at h
  · exact absurd h (Nat.lt_irrefl 0)
  · next hfield =>
      rw [if_neg hfield]
      dsimp only
      omega

theorem pattern_mod_two (p : Parts) : p.pattern % 2 = p.mantissa % 2 := by
  rw [pattern, hiddenBit]
  omega

/-- The parts of a pattern are the only ones whose mantissa has 53 bits, or fewer where the
shift is zero. -/
theorem ofPattern_pattern {p : Parts} (hlt : p.mantissa < 2 ^ 53)
    (hle : 0 < p.shift → 2 ^ 52 ≤ p.mantissa) : ofPattern p.pattern = p := by
  obtain ⟨m, s⟩ := p
  dsimp only at hlt hle
  rw [ofPattern, pattern, hiddenBit]
  dsimp only
  split
  · have hs : s = 0 := by
      by_contra hs
      have := hle (Nat.pos_of_ne_zero hs)
      omega
    rw [hs]
    simp
  · next hfield =>
      have hm : 2 ^ 52 ≤ m := by
        by_contra hm
        obtain rfl | hs := Nat.eq_zero_or_pos s
        · omega
        · exact hm (hle hs)
      rw [Parts.mk.injEq]
      constructor <;> omega

theorem le_shift_ofPattern {m s : ℕ} (hs : 0 < s → 2 ^ 52 ≤ m) :
    s ≤ (ofPattern (s * hiddenBit + m)).shift := by
  obtain rfl | hpos := Nat.eq_zero_or_pos s
  · exact Nat.zero_le _
  · have := hs hpos
    rw [ofPattern, hiddenBit]
    split <;> dsimp only <;> omega

end Parts

/-- A mantissa that is rounded up beyond its 53 bits is the first one of the next shift. -/
theorem units_add {m s : ℕ} (hle : m ≤ 2 ^ 53) (hs : 0 < s → 2 ^ 52 ≤ m) :
    units (s * hiddenBit + m) = m * 2 ^ s := by
  obtain hlt | rfl := Nat.lt_or_eq_of_le hle
  · have hparts : Parts.ofPattern (s * hiddenBit + m) = ⟨m, s⟩ :=
      Parts.ofPattern_pattern (p := ⟨m, s⟩) hlt hs
    rw [units, hparts]
  · have hpattern : s * hiddenBit + 2 ^ 53 = (⟨2 ^ 52, s + 1⟩ : Parts).pattern := by
      rw [Parts.pattern, hiddenBit]
      dsimp only
      omega
    have hlt : 2 ^ 52 < 2 ^ 53 := by decide
    rw [units, hpattern, Parts.ofPattern_pattern hlt fun _ => Nat.le_refl _]
    dsimp only
    rw [Nat.pow_succ]
    omega

theorem units_succ (q : ℕ) : units (q + 1) = units q + 2 ^ (Parts.ofPattern q).shift := by
  have hlt := Parts.mantissa_ofPattern_lt q
  have hnext :
      q + 1 = (Parts.ofPattern q).shift * hiddenBit + ((Parts.ofPattern q).mantissa + 1) := by
    have hpattern := Parts.pattern_ofPattern q
    rw [Parts.pattern] at hpattern
    omega
  have hstep : units (q + 1) =
      ((Parts.ofPattern q).mantissa + 1) * 2 ^ (Parts.ofPattern q).shift := by
    rw [hnext]
    apply units_add hlt
    intro hs
    have := Parts.le_mantissa_ofPattern hs
    omega
  rw [hstep, units, Nat.succ_mul]

theorem units_strictMono : StrictMono units :=
  strictMono_nat_of_lt_succ fun q => by
    rw [units_succ]
    exact Nat.lt_add_of_pos_right (Nat.two_pow_pos _)

theorem midpoint_strictMono : StrictMono midpoint := fun _ _ h =>
  Nat.add_lt_add (units_strictMono h) (units_strictMono (Nat.succ_lt_succ h))

/-- The ratio lies between the midpoints to the neighbours of the pattern, and on one of them
only if the pattern is even. -/
structure Between (q n d : ℕ) : Prop where
  lower_le : ∀ k, k + 1 = q → midpoint k * d ≤ 2 * n
  le_upper : 2 * n ≤ midpoint q * d
  even_of_lower : ∀ k, k + 1 = q → midpoint k * d = 2 * n → q % 2 = 0
  even_of_upper : 2 * n = midpoint q * d → q % 2 = 0

namespace Between

theorem le_of_le {q n d q' n' d' : ℕ} (hd : 0 < d) (hd' : 0 < d') (h : Between q n d)
    (h' : Between q' n' d') (hle : n * d' ≤ n' * d) : q ≤ q' := by
  by_contra hlt
  obtain ⟨k, rfl⟩ : ∃ k, k + 1 = q := ⟨q - 1, by omega⟩
  -- All midpoints between the two patterns and both ratios are then the same.
  have hk : midpoint q' ≤ midpoint k := midpoint_strictMono.monotone (by omega)
  have hlower : midpoint k * d * d' ≤ 2 * n * d' := Nat.mul_le_mul_right d' (h.lower_le k rfl)
  have hupper : 2 * n' * d ≤ midpoint q' * d' * d := Nat.mul_le_mul_right d h'.le_upper
  have hmiddle : midpoint q' * d' * d ≤ midpoint k * d * d' := by
    rw [Nat.mul_right_comm]
    exact Nat.mul_le_mul_right d' (Nat.mul_le_mul_right d hk)
  have hratio : 2 * n * d' ≤ 2 * n' * d := by
    rw [Nat.mul_assoc, Nat.mul_assoc]
    exact Nat.mul_le_mul_left 2 hle
  have heven : (k + 1) % 2 = 0 := by
    refine h.even_of_lower k rfl (Nat.eq_of_mul_eq_mul_right hd' ?_)
    omega
  have heven' : q' % 2 = 0 := by
    refine h'.even_of_upper (Nat.eq_of_mul_eq_mul_right hd ?_)
    omega
  have hsame : q' = k := by
    refine midpoint_strictMono.injective (Nat.eq_of_mul_eq_mul_right (Nat.mul_pos hd hd') ?_)
    rw [← Nat.mul_assoc, ← Nat.mul_assoc, Nat.mul_right_comm (midpoint q')]
    omega
  omega

theorem unique {q q' n d : ℕ} (hd : 0 < d) (h : Between q n d) (h' : Between q' n d) : q = q' :=
  Nat.le_antisymm (h.le_of_le hd hd h' (Nat.le_refl _)) (h'.le_of_le hd hd h (Nat.le_refl _))

end Between

/-- What a quotient is rounded to is at most a half away from it, and even if it is as much. -/
theorem roundQuotient_spec {n d : ℕ} (hd : 0 < d) :
    2 * roundQuotient n d * d ≤ 2 * n + d ∧ 2 * n ≤ 2 * roundQuotient n d * d + d ∧
      (2 * roundQuotient n d * d = 2 * n + d → roundQuotient n d % 2 = 0) ∧
      (2 * n = 2 * roundQuotient n d * d + d → roundQuotient n d % 2 = 0) := by
  have hdiv : n / d * d + n % d = n := Nat.div_add_mod' n d
  have hmod : n % d < d := Nat.mod_lt n hd
  rw [roundQuotient]
  generalize n / d = q at *
  generalize n % d = r at *
  have hq : 2 * q * d = 2 * (q * d) := Nat.mul_assoc 2 q d
  have hq' : 2 * (q + 1) * d = 2 * (q * d) + 2 * d := by ring
  split
  · rw [hq']
    refine ⟨?_, ?_, ?_, ?_⟩ <;> omega
  · rw [hq]
    refine ⟨?_, ?_, ?_, ?_⟩ <;> omega

theorem roundQuotient_le {n d k : ℕ} (hd : 0 < d) (h : n ≤ k * d) : roundQuotient n d ≤ k := by
  obtain ⟨hlower, -, hlower', -⟩ := roundQuotient_spec (n := n) hd
  by_contra hlt
  have := Nat.mul_le_mul_right d (show 2 * (k + 1) ≤ 2 * roundQuotient n d by omega)
  linarith

theorem le_roundQuotient {n d k : ℕ} (hd : 0 < d) (h : k * d ≤ n) : k ≤ roundQuotient n d := by
  obtain ⟨-, hupper, -, -⟩ := roundQuotient_spec (n := n) hd
  by_contra hlt
  have := Nat.mul_le_mul_right d (show 2 * (roundQuotient n d + 1) ≤ 2 * k by omega)
  linarith

/-- The shift at which a ratio is rounded leaves its mantissa 53 bits, or fewer if it is zero. -/
theorem lt_of_log2_sub_fieldWidth {n d s : ℕ} (hd : 0 < d)
    (hs : (n / d).log2 - fieldWidth = s) :
    n < 2 ^ 53 * (d * 2 ^ s) ∧ (0 < s → 2 ^ 52 * (d * 2 ^ s) ≤ n) := by
  rw [fieldWidth] at hs
  constructor
  · have hlt : n / d < 2 ^ (s + 53) :=
      Nat.lt_of_lt_of_le Nat.lt_log2_self (Nat.pow_le_pow_right (by decide) (by omega))
    rw [Nat.div_lt_iff_lt_mul hd, Nat.pow_add] at hlt
    linarith
  · intro hpos
    have hne : n / d ≠ 0 := by
      intro hzero
      rw [hzero] at hs
      simp at hs
      omega
    have hle : 2 ^ (s + 52) ≤ n / d := by
      refine Nat.le_trans (Nat.pow_le_pow_right (by decide) ?_) (Nat.log2_self_le hne)
      omega
    rw [Nat.le_div_iff_mul_le hd, Nat.pow_add] at hle
    linarith

/-- Rounding at this shift gives the pattern that the ratio lies around. -/
theorem between_of_shift {n d s : ℕ} (hd : 0 < d) (hlt : n < 2 ^ 53 * (d * 2 ^ s))
    (hle : 0 < s → 2 ^ 52 * (d * 2 ^ s) ≤ n) :
    Between (s * hiddenBit + roundQuotient n (d * 2 ^ s)) n d := by
  have hunit : 0 < d * 2 ^ s := Nat.mul_pos hd (Nat.two_pow_pos _)
  obtain ⟨m, hm⟩ : ∃ m, roundQuotient n (d * 2 ^ s) = m := ⟨_, rfl⟩
  obtain ⟨hlower, hupper, hlower', hupper'⟩ := roundQuotient_spec (n := n) hunit
  have hm53 : m ≤ 2 ^ 53 := hm ▸ roundQuotient_le hunit hlt.le
  have hm52 (hpos : 0 < s) : 2 ^ 52 ≤ m := hm ▸ le_roundQuotient hunit (hle hpos)
  rw [hm] at hlower hupper hlower' hupper' ⊢
  have hunits : units (s * hiddenBit + m) = m * 2 ^ s := units_add hm53 hm52
  have hparity : (s * hiddenBit + m) % 2 = m % 2 := Parts.pattern_mod_two ⟨m, s⟩
  have habove : 2 * m * (d * 2 ^ s) + d * 2 ^ s ≤ midpoint (s * hiddenBit + m) * d := by
    have hshift : 2 ^ s ≤ 2 ^ (Parts.ofPattern (s * hiddenBit + m)).shift :=
      Nat.pow_le_pow_right (by decide) (Parts.le_shift_ofPattern hm52)
    calc 2 * m * (d * 2 ^ s) + d * 2 ^ s = (m * 2 ^ s + (m * 2 ^ s + 2 ^ s)) * d := by ring
      _ ≤ midpoint (s * hiddenBit + m) * d := by
        rw [midpoint, units_succ, hunits]
        gcongr
  -- Below the first mantissa of a shift the midpoint is nearer than a half, and out of reach.
  have hbelow (k : ℕ) (hk : k + 1 = s * hiddenBit + m) :
      midpoint k * d + d * 2 ^ s = 2 * m * (d * 2 ^ s) ∨ midpoint k * d < 2 * n := by
    by_cases hfirst : 0 < s ∧ m = 2 ^ 52
    · right
      have hlast : midpoint k < 2 * (m * 2 ^ s) := by
        rw [← hunits, midpoint, hk, Nat.two_mul]
        exact Nat.add_lt_add_right (units_strictMono (by omega)) _
      calc midpoint k * d < 2 * (m * 2 ^ s) * d := Nat.mul_lt_mul_of_pos_right hlast hd
        _ = 2 * (2 ^ 52 * (d * 2 ^ s)) := by rw [hfirst.2]; ring
        _ ≤ 2 * n := Nat.mul_le_mul_left 2 (hle hfirst.1)
    · left
      have hne : m ≠ 0 := by
        rintro rfl
        obtain rfl | hpos := Nat.eq_zero_or_pos s
        · omega
        · exact absurd (hm52 hpos) (by decide)
      obtain ⟨j, rfl⟩ := Nat.exists_eq_succ_of_ne_zero hne
      have hprevious : units k = j * 2 ^ s := by
        have hk' : k = s * hiddenBit + j := by omega
        rw [hk']
        exact units_add (by omega) fun hpos => by
          have := hm52 hpos
          omega
      rw [midpoint, hk, hunits, hprevious, Nat.succ_eq_add_one]
      ring
  refine ⟨fun k hk => ?_, by omega, fun k hk heq => ?_, fun heq => ?_⟩
  · have := hbelow k hk
    omega
  · have := hbelow k hk
    rw [hparity]
    exact hlower' (by omega)
  · rw [hparity]
    exact hupper' (by omega)

/-- A ratio is rounded to the pattern that it lies around, up to infinity. -/
theorem exists_between (n : ℕ) {d : ℕ} (hd : 0 < d) :
    ∃ q, Between q (n * 2 ^ unitExponent) d ∧ nearest n d = min infinity q := by
  obtain ⟨hlt, hle⟩ := lt_of_log2_sub_fieldWidth (n := n * 2 ^ unitExponent) hd rfl
  exact ⟨_, between_of_shift hd hlt hle, nearest_of_shift rfl hd hlt hle⟩

theorem midpoint_largest : midpoint (infinity - 1) = 2 ^ 2099 - 2 ^ 2045 := by
  decide +kernel

theorem nearest_eq_infinity_iff {n d : ℕ} (hd : 0 < d) :
    nearest n d = infinity ↔ (2 ^ 2099 - 2 ^ 2045) * d ≤ 2 * (n * 2 ^ unitExponent) := by
  obtain ⟨q, hq, hnearest⟩ := exists_between n hd
  have hpos : 0 < infinity := by decide
  have hodd : (infinity - 1) % 2 = 1 := by decide
  rw [hnearest, ← midpoint_largest]
  constructor
  · intro hmin
    have hk : midpoint (infinity - 1) ≤ midpoint (q - 1) := midpoint_strictMono.monotone (by omega)
    exact (Nat.mul_le_mul_right d hk).trans (hq.lower_le (q - 1) (by omega))
  · intro hle
    apply Nat.min_eq_left
    by_contra hlt
    have hk : midpoint q ≤ midpoint (infinity - 1) := midpoint_strictMono.monotone (by omega)
    have hsame : midpoint q * d = 2 * (n * 2 ^ unitExponent) :=
      Nat.le_antisymm ((Nat.mul_le_mul_right d hk).trans hle) hq.le_upper
    have heven := hq.even_of_upper hsame.symm
    have hlast : midpoint q = midpoint (infinity - 1) := by
      refine Nat.eq_of_mul_eq_mul_right hd (Nat.le_antisymm (Nat.mul_le_mul_right d hk) ?_)
      rwa [hsame]
    rw [midpoint_strictMono.injective hlast] at heven
    omega

theorem between_of_nearest {n d q : ℕ} (hd : 0 < d) (hq : q < infinity) (h : nearest n d = q) :
    Between q (n * 2 ^ unitExponent) d := by
  obtain ⟨q', hq', hnearest⟩ := exists_between n hd
  obtain rfl : q' = q := by omega
  exact hq'

theorem nearest_mono {n d n' d' : ℕ} (hd : 0 < d) (hd' : 0 < d') (h : n * d' ≤ n' * d) :
    nearest n d ≤ nearest n' d' := by
  obtain ⟨q, hq, hnearest⟩ := exists_between n hd
  obtain ⟨q', hq', hnearest'⟩ := exists_between n' hd'
  have hle : q ≤ q' := by
    refine hq.le_of_le hd hd' hq' ?_
    rw [Nat.mul_right_comm, Nat.mul_right_comm n']
    exact Nat.mul_le_mul_right _ h
  rw [hnearest, hnearest']
  exact min_le_min_left infinity hle

theorem nearest_eq_zero_iff {n d : ℕ} (hd : 0 < d) :
    nearest n d = 0 ↔ 2 * (n * 2 ^ unitExponent) ≤ d := by
  have hfirst : midpoint 0 = 1 := by decide
  constructor
  · intro h
    have hq := between_of_nearest hd (by decide) h
    simpa [hfirst] using hq.le_upper
  · intro h
    have hzero : Between 0 (n * 2 ^ unitExponent) d := by
      refine ⟨fun k hk => ?_, ?_, fun k hk => ?_, fun _ => rfl⟩
      · omega
      · simpa [hfirst] using h
      · omega
    obtain ⟨q, hq, hnearest⟩ := exists_between n hd
    rw [hnearest, hq.unique hd hzero, Nat.min_zero]

end Calculator.Number
