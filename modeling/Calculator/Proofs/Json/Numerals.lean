import Mathlib.Data.List.Basic
import Mathlib.Tactic.IntervalCases
import Calculator.Proofs.Number.Text

/-!
# Numbers of JSON

A number of JSON is a literal without needless zeros in front, perhaps followed by a power of
ten. It stands for the double nearest to the ratio that it writes. A finite double is written
as a number of JSON that stands for it, whether the double is written positionally or with an
exponent, and with or without a decimal.
-/

namespace Calculator.Number

/-- No digit stands behind a leading zero. -/
def Literal.Plain (l : Literal) : Prop :=
  l.whole = ['0'] ∨ l.whole.head? ≠ some '0'

/-- The double nearest to a literal times a power of ten. -/
def Literal.scaled (l : Literal) (k : ℤ) : Float :=
  ofPattern l.negative (nearest (l.numerator * 10 ^ k.toNat) (l.denominator * 10 ^ (-k).toNat))

theorem Literal.scaled_zero (l : Literal) : l.scaled 0 = l.value := by
  simp [scaled, value]

theorem Literal.denominator_pos (l : Literal) : 0 < l.denominator :=
  Nat.pow_pos (by decide)

end Calculator.Number

namespace Calculator.Json

open Number (Literal Decimal isNegative pattern)

/-- A run of digits. -/
structure Run (ds : List Char) : Prop where
  ne_nil : ds ≠ []
  digits : ∀ c ∈ ds, c.isDigit = true

/-- The exponent of a number, and the power of ten that it stands for. -/
inductive Power : List Char → ℤ → Prop
  | none : Power [] 0
  | plain {e : Char} {ds : List Char} : e = 'e' ∨ e = 'E' → Run ds →
      Power (e :: ds) (Number.ofDigits ds)
  | raised {e : Char} {ds : List Char} : e = 'e' ∨ e = 'E' → Run ds →
      Power (e :: '+' :: ds) (Number.ofDigits ds)
  | lowered {e : Char} {ds : List Char} : e = 'e' ∨ e = 'E' → Run ds →
      Power (e :: '-' :: ds) (-Number.ofDigits ds)

/-- A number, and the double that it stands for. -/
inductive Numeral : List Char → Float → Prop
  | mk {l : Literal} {power : List Char} {k : ℤ} : l.WellFormed → l.Plain → Power power k →
      Numeral (l.text ++ power) (l.scaled k)

theorem Numeral.of_literal {l : Literal} (hl : l.WellFormed) (hplain : l.Plain) :
    Numeral l.text l.value := by
  have h : Numeral (l.text ++ []) (l.scaled 0) := .mk hl hplain .none
  rwa [List.append_nil, l.scaled_zero] at h

theorem Run.isDigit_head {c : Char} {ds : List Char} (h : Run (c :: ds)) : c.isDigit = true :=
  h.digits c List.mem_cons_self

theorem Power.unique {power : List Char} {k k' : ℤ} (h : Power power k) (h' : Power power k') :
    k = k' := by
  have hplus {ds : List Char} : ¬ Run ('+' :: ds) := fun h => absurd h.isDigit_head (by decide)
  have hminus {ds : List Char} : ¬ Run ('-' :: ds) := fun h => absurd h.isDigit_head (by decide)
  cases h with
  | none =>
      cases h'
      rfl
  | plain _ hds =>
      cases h' with
      | plain => rfl
      | raised => exact (hplus hds).elim
      | lowered => exact (hminus hds).elim
  | raised _ _ =>
      cases h' with
      | plain _ hds => exact (hplus hds).elim
      | raised => rfl
  | lowered _ _ =>
      cases h' with
      | plain _ hds => exact (hminus hds).elim
      | lowered => rfl

theorem Power.takeWhile_append {l : Literal} {power : List Char} {k : ℤ} (hl : l.WellFormed)
    (h : Power power k) :
    (l.text ++ power).takeWhile (fun c => c != 'e' && c != 'E') = l.text ∧
      (l.text ++ power).dropWhile (fun c => c != 'e' && c != 'E') = power := by
  refine Text.takeWhile_append_run (fun c hc => ?_) (fun c hc => ?_)
  · rcases hl.mem_text hc with rfl | rfl | hdigit
    · decide
    · decide
    · have hne {d : Char} (hd : d.isDigit = false) : c ≠ d := by
        rintro rfl
        rw [hdigit] at hd
        cases hd
      simp [hne (d := 'e') (by decide), hne (d := 'E') (by decide)]
  · cases h with
    | none => cases hc
    | plain he | raised he | lowered he =>
        cases hc
        rcases he with rfl | rfl <;> decide

/-- A number stands for one double only. -/
theorem Numeral.unique {text : List Char} {v w : Float} (h : Numeral text v) (h' : Numeral text w) :
    v = w := by
  cases h with
  | @mk l power k hl _ hpower =>
      generalize htext : l.text ++ power = text at h'
      cases h' with
      | @mk l' power' k' hl' _ hpower' =>
          obtain ⟨hliteral, hrest⟩ := hpower.takeWhile_append hl
          obtain ⟨hliteral', hrest'⟩ := hpower'.takeWhile_append hl'
          rw [htext, hliteral'] at hliteral
          rw [htext, hrest'] at hrest
          rw [hrest] at hpower'
          rw [Literal.text_injective hl' hl hliteral, hpower'.unique hpower]

theorem head?_toDigits_ne {n : ℕ} (hn : 0 < n) : (Nat.toDigits 10 n).head? ≠ some '0' := by
  induction n using Nat.strongRecOn with
  | ind n ih =>
      rw [Nat.toDigits_eq_if (by decide)]
      split
      · interval_cases n <;> decide
      · rw [List.head?_append_of_ne_nil _ Nat.toDigits_ne_nil]
        exact ih (n / 10) (by omega) (by omega)

theorem run_toDigits (n : ℕ) : Run (Nat.toDigits 10 n) :=
  ⟨Nat.toDigits_ne_nil, fun _ hc => Number.isDigit_of_mem_toDigits hc⟩

theorem plain_literal (negative : Bool) {d : Decimal} (h : d.digits = 0 → d.exponent = 0) :
    (d.literal negative).Plain := by
  rw [Decimal.literal]
  split
  · next hlength =>
      obtain hzero | hpos := Nat.eq_zero_or_pos d.digits
      · have hexponent := h hzero
        left
        simp [hzero, hexponent]
      · right
        have htake : (Nat.toDigits 10 d.digits).length - (-d.exponent).toNat ≠ 0 := by omega
        have hne : (Nat.toDigits 10 d.digits).take
            ((Nat.toDigits 10 d.digits).length - (-d.exponent).toNat) ≠ [] := by
          simp [htake, Nat.toDigits_ne_nil]
        rw [List.head?_append_of_ne_nil _ hne, List.head?_take, if_neg htake]
        exact head?_toDigits_ne hpos
  · exact .inl rfl

/-- A zero behind the point changes nothing. -/
theorem Numeral.of_whole {l : Literal} (hl : l.WellFormed) (hplain : l.Plain) (h : l.fraction = []) :
    Numeral ({ l with fraction := ['0'] } : Literal).text l.value := by
  have hdigits : Number.ofDigits (l.whole ++ ['0']) = Number.ofDigits l.whole * 10 ^ 1 :=
    Number.ofDigits_append_zeros l.whole 1
  have hratio : Number.nearest ({ l with fraction := ['0'] } : Literal).numerator
      ({ l with fraction := ['0'] } : Literal).denominator =
        Number.nearest l.numerator l.denominator := by
    apply Number.nearest_congr (Literal.denominator_pos _) l.denominator_pos
    simp [Literal.numerator, Literal.denominator, h, hdigits]
  have hvalue : ({ l with fraction := ['0'] } : Literal).value = l.value := by
    rw [Literal.value, hratio]
    rfl
  have hzero : ∀ c ∈ ['0'], c.isDigit = true := by
    intro c hc
    rw [List.mem_singleton.mp hc]
    decide
  have hwf : ({ l with fraction := ['0'] } : Literal).WellFormed :=
    ⟨hl.whole_ne_nil, hl.whole_digits, hzero⟩
  have hnumeral := Numeral.of_literal hwf hplain
  rwa [hvalue] at hnumeral

/-- The digits of a decimal with the point behind the first one, times the power of ten of
that one, are the decimal. -/
theorem scaled_order (negative : Bool) (d : Decimal) :
    (⟨negative, (Nat.toDigits 10 d.digits).take 1, (Nat.toDigits 10 d.digits).drop 1⟩ :
      Literal).scaled d.order =
        Number.ofPattern negative (Number.nearest d.numerator d.denominator) := by
  have hlength : 0 < (Nat.toDigits 10 d.digits).length := Nat.length_toDigits_pos
  have hexponents : d.order.toNat + (-d.exponent).toNat =
      d.exponent.toNat + ((Nat.toDigits 10 d.digits).length - 1 + (-d.order).toNat) := by
    rw [Decimal.order]
    omega
  have hpowers : 10 ^ d.order.toNat * 10 ^ (-d.exponent).toNat = 10 ^ d.exponent.toNat *
      (10 ^ ((Nat.toDigits 10 d.digits).length - 1) * 10 ^ (-d.order).toNat) := by
    rw [← Nat.pow_add, ← Nat.pow_add, ← Nat.pow_add, hexponents]
  have hratio : Number.nearest (d.digits * 10 ^ d.order.toNat)
      (10 ^ ((Nat.toDigits 10 d.digits).length - 1) * 10 ^ (-d.order).toNat) =
        Number.nearest d.numerator d.denominator := by
    apply Number.nearest_congr (Nat.mul_pos (Nat.pow_pos (by decide)) (Nat.pow_pos (by decide)))
      d.denominator_pos
    rw [Decimal.numerator, Decimal.denominator, Nat.mul_assoc, Nat.mul_assoc, hpowers]
  rw [Literal.scaled, Literal.numerator, Literal.denominator, List.take_append_drop,
    Number.ofDigits_toDigits, Nat.pow_eq, List.length_drop, hratio]

theorem power_order (layout : Number.Layout) (d : Decimal) :
    Power ('e' :: ((if d.order < 0 then ['-'] else if layout.showsPlus then ['+'] else []) ++
      Nat.toDigits 10 d.order.natAbs)) d.order := by
  have horder := run_toDigits d.order.natAbs
  split
  · next hlt =>
      have hpower := Power.lowered (.inl rfl) horder
      rwa [Number.ofDigits_toDigits, Int.ofNat_natAbs_of_nonpos hlt.le, Int.neg_neg] at hpower
  · next hlt =>
      have hpower := Power.raised (.inl rfl) horder
      have hpower' := Power.plain (.inl rfl) horder
      rw [Number.ofDigits_toDigits, Int.natAbs_of_nonneg (Int.not_lt.mp hlt)] at hpower hpower'
      split
      · exact hpower
      · exact hpower'

theorem numeral_exponential (layout : Number.Layout) (negative : Bool) (d : Decimal) :
    Numeral (layout.exponential negative d)
      (Number.ofPattern negative (Number.nearest d.numerator d.denominator)) := by
  have hdigit {c : Char} (hc : c ∈ Nat.toDigits 10 d.digits) := Number.isDigit_of_mem_toDigits hc
  obtain ⟨c, tail, hdigits⟩ := List.exists_cons_of_ne_nil (Nat.toDigits_ne_nil (n := d.digits) (b := 10))
  obtain ⟨l, hl⟩ : ∃ l : Literal, l = ⟨negative, (Nat.toDigits 10 d.digits).take 1,
      (Nat.toDigits 10 d.digits).drop 1⟩ := ⟨_, rfl⟩
  have hwf : l.WellFormed := by
    rw [hl]
    exact ⟨by simp [hdigits], fun c hc => hdigit (List.mem_of_mem_take hc),
      fun c hc => hdigit (List.mem_of_mem_drop hc)⟩
  have hplain : l.Plain := by
    rw [hl, Literal.Plain]
    obtain rfl | hc := eq_or_ne c '0'
    · exact .inl (by simp [hdigits])
    · exact .inr (by simp [hdigits, hc])
  have htext : layout.exponential negative d = l.text ++ ('e' ::
      ((if d.order < 0 then ['-'] else if layout.showsPlus then ['+'] else []) ++
        Nat.toDigits 10 d.order.natAbs)) := by
    rw [Number.Layout.exponential, hl, List.append_assoc]
    rfl
  have hnumeral := Numeral.mk hwf hplain (power_order layout d)
  rwa [hl, scaled_order, ← hl, ← htext] at hnumeral

theorem digits_ofPattern_eq_zero {tie : Number.Tie} {q : ℕ} (hq : q < Number.infinity)
    (h : (Decimal.ofPattern tie q).digits = 0) : (Decimal.ofPattern tie q).exponent = 0 := by
  have hread := Decimal.nearest_ofPattern tie hq
  rw [Decimal.numerator, h, Nat.zero_mul, Number.nearest_zero] at hread
  rw [← hread]
  rfl

/-- A finite double is written as a number that stands for it. -/
theorem numeral_write {v : Float} (hv : v.isFinite = true) :
    Numeral (Number.json.write v).toList v := by
  obtain ⟨d, hd⟩ : ∃ d, d = Decimal.ofPattern .even (pattern v) := ⟨_, rfl⟩
  have hlt : pattern v < Number.infinity := Number.isFinite_iff.mp hv
  have hsign := Number.ofPattern_isNegative_pattern v
  have hliteral : (d.literal (isNegative v)).value = v := by
    rw [hd, Decimal.value_literal_ofPattern _ _ hlt, hsign]
  have hwf := d.wellFormed_literal (isNegative v)
  have hplain : (d.literal (isNegative v)).Plain := by
    apply plain_literal
    rw [hd]
    exact digits_ofPattern_eq_zero hlt
  have htie : Number.json.tie = .even := rfl
  rw [Number.Layout.write_of_isFinite _ hv, String.toList_ofList, htie, ← hd, Number.Layout.finite]
  split
  · dsimp only
    split
    · next hwhole =>
        have hfraction := List.isEmpty_iff.mp (Bool.and_eq_true_iff.mp hwhole).2
        have hnumeral := Numeral.of_whole hwf hplain hfraction
        rwa [hliteral] at hnumeral
    · have hnumeral := Numeral.of_literal hwf hplain
      rwa [hliteral] at hnumeral
  · have hnumeral := numeral_exponential Number.json (isNegative v) d
    rwa [hd, Decimal.nearest_ofPattern _ hlt, hsign, ← hd] at hnumeral

/-- What is written reads back to the double, and to nothing else. -/
theorem numeral_write_iff {v w : Float} (hv : v.isFinite = true) :
    Numeral (Number.json.write v).toList w ↔ w = v := by
  refine ⟨fun h => h.unique (numeral_write hv), ?_⟩
  rintro rfl
  exact numeral_write hv

theorem write_of_not_isFinite {v : Float} (hv : v.isFinite = false) :
    Number.json.write v = "null" := by
  rw [Number.Layout.write_of_not_isFinite _ hv]
  split_ifs <;> rfl

theorem not_numeral_null (v : Float) : ¬ Numeral "null".toList v := by
  intro h
  generalize htext : "null".toList = text at h
  cases h with
  | @mk l power k hl _ _ =>
      have hfirst : 'n' ∈ l.text := by
        obtain ⟨c, hlast, -⟩ := hl.getLast?_text
        cases hl' : l.text with
        | nil => simp [hl'] at hlast
        | cons d tail =>
            rw [hl'] at htext
            rw [← (List.cons.inj htext).1]
            exact List.mem_cons_self
      rcases hl.mem_text hfirst with h | h | h <;> revert h <;> decide

theorem exists_numeral_write_iff {v : Float} :
    (∃ w, Numeral (Number.json.write v).toList w) ↔ v.isFinite = true := by
  refine ⟨fun ⟨w, hw⟩ => ?_, fun hv => ⟨v, numeral_write hv⟩⟩
  rw [← Bool.not_eq_false]
  intro hv
  rw [write_of_not_isFinite hv] at hw
  exact not_numeral_null w hw

end Calculator.Json
