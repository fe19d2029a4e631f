import Mathlib.Data.Nat.Log
import Mathlib.Tactic.Linarith
import Mathlib.Tactic.Ring
import Calculator.Number.Shortest

/-!
# Rounding to a pattern

A ratio of naturals is rounded to a finite pattern when it lies between the midpoints to the
two neighbours of the pattern, or on one of them if the mantissa is even. All is said here in
units, of which the smallest positive double is one. The result depends on the ratio only and
is never above infinity.
-/

namespace Calculator.Number

theorem hiddenBit_eq : hiddenBit = 2 ^ 52 := rfl

/-- The natural nearest to a ratio is the one that is at most a half away, or less than a half
if it is odd. -/
theorem roundQuotient_eq {n d k : ℕ} (hd : 0 < d) (hlower : 2 * k * d ≤ 2 * n + d)
    (hupper : 2 * n ≤ 2 * k * d + d)
    (hodd : k % 2 = 1 → 2 * k * d < 2 * n + d ∧ 2 * n < 2 * k * d + d) :
    roundQuotient n d = k := by
  have hdiv : d * (n / d) + n % d = n := Nat.div_add_mod n d
  have hmod : n % d < d := Nat.mod_lt n hd
  rw [roundQuotient]
  generalize n / d = q at *
  generalize n % d = r at *
  have hle : q ≤ k := by
    by_contra h
    have : (k + 1) * d ≤ q * d := Nat.mul_le_mul_right d (by omega)
    linarith
  have hge : k ≤ q + 1 := by
    by_contra h
    have : (q + 2) * d ≤ k * d := Nat.mul_le_mul_right d (by omega)
    linarith
  obtain rfl | rfl : k = q ∨ k = q + 1 := by omega
  · rw [if_neg]
    rintro (h | ⟨h, hq⟩)
    · linarith
    · have := (hodd hq).2
      linarith
  · rw [if_pos]
    by_cases hlt : d < 2 * r
    · exact .inl hlt
    · have heq : 2 * r = d := by linarith
      refine .inr ⟨heq, ?_⟩
      by_contra hq
      have := (hodd (by omega)).1
      linarith

theorem roundQuotient_mul_mul {c : ℕ} (hc : 0 < c) (n d : ℕ) :
    roundQuotient (c * n) (c * d) = roundQuotient n d := by
  simp only [roundQuotient, Nat.mul_div_mul_left n d hc, Nat.mul_mod_mul_left,
    Nat.mul_left_comm 2 c, Nat.mul_lt_mul_left hc, Nat.mul_right_inj hc.ne']

namespace Parts

/-- The pattern that has these parts. -/
def pattern (p : Parts) : ℕ :=
  p.shift * hiddenBit + p.mantissa

/-- The mantissa has 53 bits, or fewer where the shift is zero, and the pattern is below
infinity. -/
structure Canonical (p : Parts) : Prop where
  mantissa_lt : p.mantissa < 2 ^ 53
  le_mantissa : 0 < p.shift → 2 ^ 52 ≤ p.mantissa
  pattern_lt : p.pattern < infinity

theorem pattern_ofPattern (n : ℕ) : (ofPattern n).pattern = n := by
  rw [ofPattern, hiddenBit]
  split
  · rw [pattern, Nat.zero_mul, Nat.zero_add]
  · rw [pattern, hiddenBit]
    dsimp only
    omega

theorem canonical_ofPattern {n : ℕ} (hn : n < infinity) : (ofPattern n).Canonical := by
  have hpattern : (ofPattern n).pattern < infinity := by rwa [pattern_ofPattern]
  rw [ofPattern, hiddenBit] at hpattern ⊢
  split
  · next hfield =>
      rw [if_pos hfield] at hpattern
      refine ⟨?_, fun h => absurd h (Nat.lt_irrefl 0), hpattern⟩
      dsimp only
      omega
  · next hfield =>
      rw [if_neg hfield] at hpattern
      refine ⟨?_, fun _ => ?_, hpattern⟩
      · dsimp only
        omega
      · dsimp only
        omega

theorem mantissa_ofPattern_pos {n : ℕ} (hn : 0 < n) : 0 < (ofPattern n).mantissa := by
  rw [ofPattern]
  split
  · exact hn
  · exact Nat.add_pos_right _ (by decide)

/-- A quarter of a mantissa unit is the scale on which the lower midpoint is this far away. -/
def lowerGap (p : Parts) : ℕ :=
  if p.isNarrow then 1 else 2

/-- The ratio lies between the midpoints to the neighbours, and on them only where the
mantissa is even. -/
structure Covers (p : Parts) (n d : ℕ) : Prop where
  lower_le : (4 * p.mantissa - p.lowerGap) * (d * 2 ^ p.shift) ≤ 4 * n
  le_upper : 4 * n ≤ (4 * p.mantissa + 2) * (d * 2 ^ p.shift)
  ne_of_odd : p.mantissa % 2 = 1 → (4 * p.mantissa - p.lowerGap) * (d * 2 ^ p.shift) ≠ 4 * n ∧
    4 * n ≠ (4 * p.mantissa + 2) * (d * 2 ^ p.shift)

theorem Covers.congr {p : Parts} {n d n' d' : ℕ} (h : p.Covers n d) (hd : 0 < d) (hd' : 0 < d')
    (heq : n * d' = n' * d) : p.Covers n' d' := by
  have hlower (c : ℕ) : c * (d' * 2 ^ p.shift) * d = c * (d * 2 ^ p.shift) * d' := by ring
  have hn : 4 * n' * d = 4 * n * d' := by rw [Nat.mul_assoc, Nat.mul_assoc, heq]
  refine ⟨?_, ?_, fun hodd => ⟨?_, ?_⟩⟩
  · apply Nat.le_of_mul_le_mul_right _ hd
    rw [hlower, hn]
    exact Nat.mul_le_mul_right d' h.lower_le
  · apply Nat.le_of_mul_le_mul_right _ hd
    rw [hlower, hn]
    exact Nat.mul_le_mul_right d' h.le_upper
  · intro he
    apply (h.ne_of_odd hodd).1
    apply Nat.eq_of_mul_eq_mul_right hd'
    rw [← hlower, he, hn]
  · intro he
    apply (h.ne_of_odd hodd).2
    apply Nat.eq_of_mul_eq_mul_right hd'
    rw [← hlower, ← hn, he]

end Parts

theorem log2_sub_fieldWidth {n d s : ℕ} (hd : 0 < d) (hlt : n < 2 ^ 53 * (d * 2 ^ s))
    (hle : 0 < s → 2 ^ 52 * (d * 2 ^ s) ≤ n) : (n / d).log2 - fieldWidth = s := by
  have hbelow : n / d < 2 ^ (s + 53) := by
    rw [Nat.div_lt_iff_lt_mul hd, Nat.pow_add]
    linarith
  rw [fieldWidth]
  obtain rfl | hs := Nat.eq_zero_or_pos s
  · have hlog : (n / d).log2 < 53 := by
      obtain hzero | hne := Nat.eq_zero_or_pos (n / d)
      · rw [hzero]
        decide
      · exact (Nat.log2_lt hne.ne').mpr hbelow
    omega
  · have habove : 2 ^ (s + 52) ≤ n / d := by
      rw [Nat.le_div_iff_mul_le hd, Nat.pow_add]
      linarith [hle hs]
    have hne : n / d ≠ 0 := (Nat.lt_of_lt_of_le (Nat.two_pow_pos _) habove).ne'
    have hlog : (n / d).log2 = s + 52 := (Nat.log2_eq_iff hne).mpr ⟨habove, hbelow⟩
    omega

/-- The ratio is rounded at the shift at which its mantissa has 53 bits. -/
theorem nearest_of_shift {n d s N : ℕ} (hN : n * 2 ^ unitExponent = N) (hd : 0 < d)
    (hlt : N < 2 ^ 53 * (d * 2 ^ s)) (hle : 0 < s → 2 ^ 52 * (d * 2 ^ s) ≤ N) :
    nearest n d = min infinity (s * hiddenBit + roundQuotient N (d * 2 ^ s)) := by
  have hshift := log2_sub_fieldWidth hd hlt hle
  simp only [nearest, Nat.shiftLeft_eq, hN, hshift]
  rw [hiddenBit_eq, fieldWidth]

namespace Parts

theorem isNarrow_iff (p : Parts) : p.isNarrow = true ↔ p.mantissa = 2 ^ 52 ∧ 0 < p.shift := by
  rw [isNarrow, Bool.and_eq_true, decide_eq_true_eq, decide_eq_true_eq, hiddenBit_eq]

theorem lowerGap_le (p : Parts) : p.lowerGap ≤ 2 := by
  rw [lowerGap]
  split <;> omega

theorem lowerGap_eq (p : Parts) (h : ¬ p.isNarrow = true) : p.lowerGap = 2 :=
  if_neg h

/-- Below its binade a pattern covers only ratios above the midpoint to its narrow side. -/
theorem Covers.isNarrow {p : Parts} {n d : ℕ} (hp : p.Canonical) (h : p.Covers n d)
    (hs : 0 < p.shift) (hn : n < 2 ^ 52 * (d * 2 ^ p.shift)) : p.isNarrow = true := by
  by_contra hnarrow
  have hne : p.mantissa ≠ 2 ^ 52 := fun hm => hnarrow (p.isNarrow_iff.mpr ⟨hm, hs⟩)
  have hm : 4 * 2 ^ 52 ≤ 4 * p.mantissa - p.lowerGap := by
    have := hp.le_mantissa hs
    have := p.lowerGap_le
    omega
  have := Nat.mul_le_mul_right (d * 2 ^ p.shift) hm
  have := h.lower_le
  omega

theorem Covers.roundQuotient_eq {p : Parts} {n d : ℕ} (hd : 0 < d) (h : p.Covers n d)
    (hn : p.isNarrow = true → 2 ^ 52 * (d * 2 ^ p.shift) ≤ n) :
    roundQuotient n (d * 2 ^ p.shift) = p.mantissa := by
  have hunit : 0 < d * 2 ^ p.shift := Nat.mul_pos hd (Nat.two_pow_pos _)
  obtain ⟨hlower, hupper, hodd⟩ := h
  generalize d * 2 ^ p.shift = unit at *
  have hhigh : (4 * p.mantissa + 2) * unit = 2 * (2 * p.mantissa * unit + unit) := by ring
  rw [hhigh] at hupper hodd
  by_cases hnarrow : p.isNarrow = true
  · obtain ⟨hm, -⟩ := p.isNarrow_iff.mp hnarrow
    have := hn hnarrow
    rw [hm] at hupper ⊢
    refine Number.roundQuotient_eq hunit (by linarith) (by linarith) (by omega)
  · rw [p.lowerGap_eq hnarrow] at hlower hodd
    have hlow : (4 * p.mantissa - 2) * unit + 2 * unit ≥ 2 * (2 * p.mantissa * unit) := by
      rw [← Nat.add_mul, ← Nat.mul_assoc, ← Nat.mul_assoc]
      exact Nat.mul_le_mul_right unit (by omega)
    have hlow' : p.mantissa % 2 = 1 →
        (4 * p.mantissa - 2) * unit + 2 * unit = 2 * (2 * p.mantissa * unit) := by
      intro hm
      rw [← Nat.add_mul, ← Nat.mul_assoc, ← Nat.mul_assoc]
      congr 1
      omega
    refine Number.roundQuotient_eq hunit (by omega) (by omega) fun hm => ?_
    obtain ⟨hne, hne'⟩ := hodd hm
    have := hlow' hm
    omega

/-- A ratio is rounded to the pattern that covers it. -/
theorem Covers.nearest_eq {p : Parts} {n d : ℕ} (hp : p.Canonical) (hd : 0 < d)
    (h : p.Covers (n * 2 ^ unitExponent) d) : nearest n d = p.pattern := by
  obtain ⟨N, hN⟩ : ∃ N, n * 2 ^ unitExponent = N := ⟨_, rfl⟩
  rw [hN] at h
  have hunit : 0 < d * 2 ^ p.shift := Nat.mul_pos hd (Nat.two_pow_pos _)
  have hN53 : N < 2 ^ 53 * (d * 2 ^ p.shift) := by
    have hm : 4 * p.mantissa + 2 < 4 * 2 ^ 53 := by
      have := hp.mantissa_lt
      omega
    have := Nat.mul_lt_mul_of_pos_right hm hunit
    have := h.le_upper
    omega
  by_cases hbelow : 0 < p.shift ∧ N < 2 ^ 52 * (d * 2 ^ p.shift)
  · -- The ratio is in the binade below, whose last mantissa it is rounded above.
    obtain ⟨hs, hlt⟩ := hbelow
    have hnarrow := h.isNarrow hp hs hlt
    obtain ⟨hm, -⟩ := p.isNarrow_iff.mp hnarrow
    have hlower := h.lower_le
    rw [lowerGap, if_pos hnarrow, hm] at hlower
    have hhalf : d * 2 ^ p.shift = 2 * (d * 2 ^ (p.shift - 1)) := by
      rw [Nat.mul_left_comm, ← Nat.pow_succ', Nat.succ_eq_add_one, Nat.sub_add_cancel hs]
    rw [hhalf] at hlt hlower hunit
    have hround : roundQuotient N (d * 2 ^ (p.shift - 1)) = 2 ^ 53 :=
      Number.roundQuotient_eq (by omega) (by omega) (by omega) (by omega)
    have hsum : (p.shift - 1) * hiddenBit + 2 ^ 53 = p.pattern := by
      rw [pattern, hm, hiddenBit_eq]
      omega
    have hnearest := nearest_of_shift (s := p.shift - 1) hN hd (by omega) fun _ => by omega
    rw [hnearest, hround, hsum]
    exact Nat.min_eq_right hp.pattern_lt.le
  · have hN52 : 0 < p.shift → 2 ^ 52 * (d * 2 ^ p.shift) ≤ N := by
      intro hs
      by_contra hlt
      exact hbelow ⟨hs, by omega⟩
    have hround := h.roundQuotient_eq hd fun hnarrow => hN52 (p.isNarrow_iff.mp hnarrow).2
    rw [nearest_of_shift hN hd hN53 hN52, hround]
    exact Nat.min_eq_right hp.pattern_lt.le

end Parts

@[simp] theorem nearest_zero (d : ℕ) : nearest 0 d = 0 := by
  simp [nearest, roundQuotient]

theorem nearest_le_infinity (n d : ℕ) : nearest n d ≤ infinity :=
  Nat.min_le_left _ _

theorem nearest_mul_mul {c : ℕ} (hc : 0 < c) (n d : ℕ) : nearest (c * n) (c * d) = nearest n d := by
  simp only [nearest, Nat.shiftLeft_eq, Nat.mul_assoc, Nat.mul_div_mul_left _ _ hc,
    roundQuotient_mul_mul hc]

theorem nearest_congr {n d n' d' : ℕ} (hd : 0 < d) (hd' : 0 < d') (h : n * d' = n' * d) :
    nearest n d = nearest n' d' := by
  rw [← nearest_mul_mul hd', Nat.mul_comm d', h, ← nearest_mul_mul hd n' d', Nat.mul_comm d n',
    Nat.mul_comm d']

end Calculator.Number
