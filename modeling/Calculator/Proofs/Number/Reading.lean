import Calculator.Proofs.Json.Numerals
import Calculator.Proofs.Number.Rational

/-!
# Reading literals

A literal writes a rational, and what the scanner makes of it is the double that this rational
is rounded to, however long the literal is. Needless zeros therefore change nothing, and the
doubles of literals are ordered as what the literals write.
-/

namespace Calculator.Number

namespace Literal
variable (l l' : Literal)

/-- What the digits of a literal write: a natural, and behind the point tenths, hundredths and
so on. -/
def magnitude : ℚ :=
  Nat.ofDigitChars 10 l.whole 0 + Nat.ofDigitChars 10 l.fraction 0 / 10 ^ l.fraction.length

/-- What a literal writes. -/
def rational : ℚ :=
  signed l.negative l.magnitude

theorem magnitude_eq : l.magnitude = l.numerator / l.denominator := by
  have hpow : (10 : ℚ) ^ l.fraction.length ≠ 0 := pow_ne_zero _ (OfNat.ofNat_ne_zero _)
  have hnumerator : l.numerator = Nat.ofDigitChars 10 l.whole 0 * 10 ^ l.fraction.length +
      Nat.ofDigitChars 10 l.fraction 0 := by
    rw [numerator, ofDigits_eq, Nat.ofDigitChars_append, ← digitsFrom_eq_ofDigitChars,
      digitsFrom_eq, digitsFrom_eq_ofDigitChars, Nat.pow_eq]
  rw [hnumerator, denominator, Nat.pow_eq, magnitude]
  push_cast
  rw [add_div, mul_div_cancel_right₀ _ hpow]

theorem magnitude_nonneg : 0 ≤ l.magnitude :=
  add_nonneg (Nat.cast_nonneg _) (div_nonneg (Nat.cast_nonneg _) (by positivity))

theorem rounded_value : Rounded l.negative l.magnitude l.value := by
  rw [magnitude_eq]
  exact rounded_ofPattern l.negative l.numerator l.denominator_pos

theorem value_zeros (j k : ℕ) :
    (⟨l.negative, List.replicate j '0' ++ l.whole, l.fraction ++ List.replicate k '0'⟩ :
      Literal).value = l.value := by
  have hratio : nearest (ofDigits (List.replicate j '0' ++ l.whole ++
      (l.fraction ++ List.replicate k '0'))) (Nat.pow 10 (l.fraction ++ List.replicate k '0').length) =
        nearest l.numerator l.denominator := by
    apply nearest_congr (Nat.pow_pos (by decide)) l.denominator_pos
    rw [List.append_assoc, ofDigits_zeros_append, ← List.append_assoc, ofDigits_append_zeros,
      List.length_append, List.length_replicate, Nat.pow_add, Nat.mul_assoc, Nat.mul_comm (10 ^ k),
      denominator, Nat.pow_eq, numerator]
  exact congrArg (ofPattern l.negative) hratio

variable {l l'}

theorem nearest_mono_of_magnitude (h : l.magnitude ≤ l'.magnitude) :
    nearest l.numerator l.denominator ≤ nearest l'.numerator l'.denominator := by
  have hd : (0 : ℚ) < l.denominator := Nat.cast_pos.mpr l.denominator_pos
  have hd' : (0 : ℚ) < l'.denominator := Nat.cast_pos.mpr l'.denominator_pos
  apply nearest_mono l.denominator_pos l'.denominator_pos
  rw [magnitude_eq, magnitude_eq, div_le_div_iff₀ hd hd'] at h
  exact_mod_cast h

theorem nearest_eq_zero_of_magnitude (h : l.magnitude = 0) :
    nearest l.numerator l.denominator = 0 := by
  rw [nearest_eq_zero_iff_le _ l.denominator_pos, ← magnitude_eq, h]
  positivity

theorem value_mono (h : l.rational ≤ l'.rational) : l.value ≤ l'.value := by
  have hnonneg := l.magnitude_nonneg
  have hnonneg' := l'.magnitude_nonneg
  have hle (l : Literal) : pattern l.value ≤ infinity :=
    l.pattern_value.trans_le (nearest_le_infinity _ _)
  rw [le_iff_rank (hle l) (hle l'), rank, rank, isNegative_value, isNegative_value, pattern_value,
    pattern_value]
  rw [rational, rational] at h
  cases hs : l.negative <;> cases hs' : l'.negative <;>
    simp only [hs, hs', signed_true, signed_false, Bool.false_eq_true, if_true, if_false] at h ⊢
  · have := nearest_mono_of_magnitude h
    omega
  · -- Both literals write zero.
    have hzero := nearest_eq_zero_of_magnitude (l := l) (by linarith)
    have hzero' := nearest_eq_zero_of_magnitude (l := l') (by linarith)
    omega
  · omega
  · have := nearest_mono_of_magnitude (neg_le_neg_iff.mp h)
    omega

end Literal

end Calculator.Number

namespace Calculator.Token

open Number (Literal Rounded)

variable {l : Literal}

theorem scanFrom_literal {size : ℕ} {read : List Token} {rest : List Char} (hl : l.WellFormed)
    (hsign : l.negative = true → signAllowed read = true) (hstop : l.StopsAt rest) :
    scanFrom size read (l.text ++ rest) = scanFrom size (.number l.value :: read) rest :=
  scanFrom_lexeme (x := .literal l) ⟨hl, hsign, hstop⟩

theorem scan_literal (hl : l.WellFormed) : scan (String.ofList l.text) = .ok [.number l.value] := by
  have hread : scanFrom l.text.length [] (l.text ++ []) =
      scanFrom l.text.length [.number l.value] [] :=
    scanFrom_literal hl (fun _ => rfl) nofun
  rw [List.append_nil, scanFrom] at hread
  rw [scan, String.toList_ofList, hread]
  rfl

/-- The numbers that are scanned are those of the literals of the text. Each of them is what the
literal writes, rounded to the nearest double. -/
theorem scanned_numbers_rounded :
    (∀ s tokens, scan s = .ok tokens → ∃ xs : List Lexeme, Lexeme.Chain true xs ∧
      s.toList = Lexeme.texts xs ∧ tokens = xs.map Lexeme.token ∧
      ∀ l, Lexeme.literal l ∈ xs → l.WellFormed) ∧
    ∀ l : Literal, l.WellFormed →
      scan (String.ofList l.text) = .ok [.number l.value] ∧
      (∀ size read rest, (l.negative = true → signAllowed read = true) → l.StopsAt rest →
        scanFrom size read (l.text ++ rest) = scanFrom size (.number l.value :: read) rest) ∧
      Rounded l.negative l.magnitude l.value ∧
      (∀ j k, (⟨l.negative, List.replicate j '0' ++ l.whole, l.fraction ++ List.replicate k '0'⟩ :
        Literal).value = l.value) ∧
      ∀ l' : Literal, l.rational ≤ l'.rational → l.value ≤ l'.value := by
  refine ⟨fun s tokens h => ?_, fun l hl => ?_⟩
  · obtain ⟨xs, hxs, htext, htokens⟩ := scan_eq_ok_iff.mp h
    refine ⟨xs, hxs, htext, htokens, fun l hl => ?_⟩
    obtain ⟨before, behind, rfl⟩ := List.append_of_mem hl
    obtain ⟨_, hfits⟩ := hxs.fits
    exact hfits.1
  · exact ⟨scan_literal hl, fun _ _ _ => scanFrom_literal hl, l.rounded_value, l.value_zeros,
      fun _ => Literal.value_mono⟩

/-- Halfway between two doubles, the one with the even mantissa is read. -/
theorem scanned_halfway_rounded :
    (⟨true, Nat.toDigits 10 9007199254740993, []⟩ : Literal).WellFormed ∧
      scan "-9007199254740993" = .ok [.number (-9007199254740992)] ∧
      Rounded true 9007199254740993 (-9007199254740992) := by
  obtain ⟨l, hl⟩ : ∃ l : Literal, l = ⟨true, Nat.toDigits 10 9007199254740993, []⟩ := ⟨_, rfl⟩
  have hwf : l.WellFormed := by
    have hrun := Json.run_toDigits 9007199254740993
    rw [hl]
    exact ⟨hrun.ne_nil, hrun.digits, nofun⟩
  have htext : String.ofList l.text = "-9007199254740993" := by
    rw [hl]
    decide +kernel
  have hvalue : l.value = -9007199254740992 := by
    rw [hl]
    decide +kernel
  have hmagnitude : l.magnitude = 9007199254740993 := by
    rw [hl]
    simp [Literal.magnitude, Nat.ofDigitChars_ten_toDigits]
  obtain ⟨hscan, -, hrounded, -⟩ := scanned_numbers_rounded.2 l hwf
  rw [htext, hvalue] at hscan
  rw [hmagnitude, hvalue] at hrounded
  rw [hl] at hwf hrounded
  exact ⟨hwf, hscan, hrounded⟩

end Calculator.Token
