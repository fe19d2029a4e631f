import Calculator.Proofs.Lexeme
import Calculator.Proofs.Number.Bits
import Calculator.Proofs.Number.Shortest

/-!
# The text of a number reads back

The literal that a decimal is laid out as writes the same ratio, whether zeros are put behind
its digits, a point between them or zeros before them. A finite number is therefore shown as a
literal whose value it is, bit for bit. The other numbers are shown as words.
-/

namespace Calculator.Number

theorem digitsFrom_eq_ofDigitChars (n : ℕ) (ds : List Char) :
    digitsFrom n ds = Nat.ofDigitChars 10 ds n := by
  rw [Nat.ofDigitChars_eq_foldl]
  induction ds generalizing n with
  | nil => rfl
  | cons c ds ih => exact ih _

theorem ofDigits_eq (ds : List Char) : ofDigits ds = Nat.ofDigitChars 10 ds 0 := by
  rw [ofDigits_eq_digitsFrom, digitsFrom_eq_ofDigitChars]

@[simp] theorem ofDigits_toDigits (n : ℕ) : ofDigits (Nat.toDigits 10 n) = n := by
  rw [ofDigits_eq, Nat.ofDigitChars_ten_toDigits]

theorem ofDigits_append_zeros (ds : List Char) (k : ℕ) :
    ofDigits (ds ++ List.replicate k '0') = ofDigits ds * 10 ^ k := by
  rw [ofDigits_eq, ofDigits_eq, Nat.ofDigitChars_append, Nat.ofDigitChars_replicate_zero,
    Nat.mul_comm]

theorem ofDigits_zeros_append (ds : List Char) (k : ℕ) :
    ofDigits (List.replicate k '0' ++ ds) = ofDigits ds := by
  rw [ofDigits_eq, ofDigits_eq, Nat.ofDigitChars_append, Nat.ofDigitChars_replicate_zero,
    Nat.mul_zero]

namespace Literal
variable (l : Literal)

theorem pattern_value : pattern l.value = nearest l.numerator l.denominator :=
  pattern_ofPattern l.negative (nearest_le_infinity _ _)

theorem isNegative_value : isNegative l.value = l.negative :=
  isNegative_ofPattern l.negative (nearest_le_infinity _ _)

end Literal

theorem isDigit_of_mem_toDigits {n : ℕ} {c : Char} (h : c ∈ Nat.toDigits 10 n) :
    c.isDigit = true :=
  Nat.isDigit_of_mem_toDigits (by decide) (by decide) h

theorem isDigit_of_mem_zeros {k : ℕ} {c : Char} (h : c ∈ List.replicate k '0') :
    c.isDigit = true := by
  rw [List.eq_of_mem_replicate h]
  decide

namespace Decimal
variable (negative : Bool) (d : Decimal)

theorem negative_literal : (d.literal negative).negative = negative := by
  rw [literal]
  split <;> rfl

theorem wellFormed_literal : (d.literal negative).WellFormed := by
  rw [literal]
  split
  · next h =>
      refine ⟨?_, ?_, fun c hc => isDigit_of_mem_toDigits (List.mem_of_mem_drop hc)⟩
      · have hlength : 0 < (Nat.toDigits 10 d.digits).length - (-d.exponent).toNat := by omega
        simp [hlength.ne', Nat.toDigits_ne_nil]
      · intro c hc
        rcases List.mem_append.mp hc with hc | hc
        · exact isDigit_of_mem_toDigits (List.mem_of_mem_take hc)
        · exact isDigit_of_mem_zeros hc
  · refine ⟨List.cons_ne_nil _ _, by simp, fun c hc => ?_⟩
    rcases List.mem_append.mp hc with hc | hc
    · exact isDigit_of_mem_zeros hc
    · exact isDigit_of_mem_toDigits hc

theorem numerator_literal : (d.literal negative).numerator = d.numerator := by
  rw [literal, Decimal.numerator]
  split
  · -- Digits end where zeros begin, or have the point between them.
    obtain hexponent | hexponent := Int.le_total 0 d.exponent
    · have hbelow : (-d.exponent).toNat = 0 := by omega
      simp [Literal.numerator, hbelow, ofDigits_append_zeros]
    · have hzeros : d.exponent.toNat = 0 := by omega
      simp [Literal.numerator, hzeros]
  · next hlength =>
      have hpos : 0 < (Nat.toDigits 10 d.digits).length := Nat.length_toDigits_pos
      have hzeros : d.exponent.toNat = 0 := by omega
      rw [hzeros, Nat.pow_zero, Nat.mul_one, Literal.numerator, List.singleton_append,
        ← List.cons_append, ← List.replicate_succ, ofDigits_zeros_append, ofDigits_toDigits]

theorem denominator_literal : (d.literal negative).denominator = d.denominator := by
  rw [literal, Decimal.denominator]
  split
  · next hlength =>
      have hfraction : (Nat.toDigits 10 d.digits).length -
          ((Nat.toDigits 10 d.digits).length - (-d.exponent).toNat) = (-d.exponent).toNat := by omega
      rw [Literal.denominator, Nat.pow_eq, List.length_drop, hfraction]
  · next hlength =>
      have hfraction : (-d.exponent).toNat - (Nat.toDigits 10 d.digits).length +
          (Nat.toDigits 10 d.digits).length = (-d.exponent).toNat := by omega
      rw [Literal.denominator, Nat.pow_eq, List.length_append, List.length_replicate, hfraction]

/-- The shortest decimal of a finite pattern reads back as the pattern. -/
theorem nearest_ofPattern (tie : Tie) {q : ℕ} (hq : q < infinity) :
    nearest (ofPattern tie q).numerator (ofPattern tie q).denominator = q := by
  rw [ofPattern]
  split
  · next hzero =>
      rw [hzero]
      decide
  · next hpos =>
      have hm := Parts.mantissa_ofPattern_pos (Nat.pos_of_ne_zero hpos)
      rw [Parts.nearest_shortest (Parts.canonical_ofPattern hq) hm, Parts.pattern_ofPattern]

theorem value_literal_ofPattern (tie : Tie) {q : ℕ} (hq : q < infinity) :
    ((ofPattern tie q).literal negative).value = Number.ofPattern negative q := by
  rw [Literal.value, negative_literal, numerator_literal, denominator_literal,
    nearest_ofPattern tie hq]

end Decimal

theorem Layout.write_of_isFinite (layout : Layout) {x : Float} (hx : x.isFinite = true) :
    layout.write x =
      String.ofList (layout.finite (isNegative x) (.ofPattern layout.tie (pattern x))) := by
  have hlt : pattern x < infinity := isFinite_iff.mp hx
  have hnan : ¬ x.isNaN = true := by
    rw [isNaN_iff]
    omega
  rw [write, if_neg hnan, if_neg hlt.ne]

theorem pattern_of_not_isFinite {x : Float} (hx : x.isFinite = false) (hnan : ¬ x.isNaN = true) :
    pattern x = infinity := by
  rw [isNaN_iff] at hnan
  rw [← Bool.not_eq_true, isFinite_iff] at hx
  omega

theorem Layout.write_of_not_isFinite (layout : Layout) {x : Float} (hx : x.isFinite = false) :
    layout.write x = if x.isNaN then layout.undefined
      else if isNegative x then layout.negativeInfinite else layout.infinite := by
  rw [write]
  split
  · rfl
  · next hnan => rw [if_pos (pattern_of_not_isFinite hx hnan)]

/-- The literal that a finite number is shown as. -/
def shown (x : Float) : Literal :=
  (Decimal.ofPattern .up (pattern x)).literal (isNegative x)

theorem negative_shown (x : Float) : (shown x).negative = isNegative x :=
  Decimal.negative_literal _ _

theorem wellFormed_shown (x : Float) : (shown x).WellFormed :=
  Decimal.wellFormed_literal _ _

theorem text_eq_shown {x : Float} (hx : x.isFinite = true) :
    text x = String.ofList (shown x).text := by
  have hpositional (d : Decimal) : display.isPositional d = true := Bool.or_true _
  rw [text, Layout.write_of_isFinite _ hx, Layout.finite, if_pos (hpositional _)]
  rfl

/-- A finite number is the value of the literal that it is shown as, the sign of a zero included. -/
theorem value_shown {x : Float} (hx : x.isFinite = true) : (shown x).value = x := by
  rw [shown, Decimal.value_literal_ofPattern _ _ (isFinite_iff.mp hx), ofPattern_isNegative_pattern]

theorem text_of_not_isFinite {x : Float} (hx : x.isFinite = false) :
    text x = if x.isNaN then "NaN" else if isNegative x then "-inf" else "inf" :=
  display.write_of_not_isFinite hx

theorem Literal.WellFormed.head?_text_iff {l : Literal} (h : l.WellFormed) :
    l.text.head? = some '-' ↔ l.negative = true := by
  obtain ⟨c, tail, hc, hdigits⟩ := h.digits_eq_cons
  rw [text_eq, hdigits]
  cases l.negative with
  | true => simp
  | false =>
      have hne : c ≠ '-' := by
        rintro rfl
        revert hc
        decide
      simpa using hne

theorem Literal.WellFormed.front?_digits {l : Literal} (h : l.WellFormed) :
    front? l.negative l.digits = some (l, []) := by
  rw [← List.append_nil l.digits]
  exact front?_digits_append h nofun

theorem Literal.text_injective {l l' : Literal} (hl : l.WellFormed) (hl' : l'.WellFormed)
    (h : l.text = l'.text) : l = l' := by
  have hsign : l.negative = l'.negative := by
    rw [Bool.eq_iff_iff, ← hl.head?_text_iff, h, hl'.head?_text_iff]
  have hdigits : l.digits = l'.digits := by
    rw [text_eq, text_eq, hsign] at h
    exact List.append_cancel_left h
  have hread := hl.front?_digits
  rw [hsign, hdigits, hl'.front?_digits] at hread
  cases hread
  rfl

/-- Whether a text has digits tells the finite numbers from the words for the others. -/
theorem any_isDigit_text (x : Float) : (text x).toList.any Char.isDigit = x.isFinite := by
  cases hx : x.isFinite with
  | true =>
      obtain ⟨c, hlast, hc⟩ := (wellFormed_shown x).getLast?_text
      rw [text_eq_shown hx, String.toList_ofList, List.any_eq_true]
      exact ⟨c, List.mem_of_getLast? hlast, hc⟩
  | false =>
      rw [text_of_not_isFinite hx]
      split_ifs <;> decide

/-- Numbers have different texts, unless they are no numbers. -/
theorem text_injective {x y : Float} (hx : ¬ x.isNaN = true) (h : text y = text x) : y = x := by
  have hfinite : y.isFinite = x.isFinite := by rw [← any_isDigit_text, h, any_isDigit_text]
  cases hx' : x.isFinite with
  | true =>
      have hy' : y.isFinite = true := hfinite.trans hx'
      rw [text_eq_shown hx', text_eq_shown hy', String.ofList_inj] at h
      rw [← value_shown hx', ← value_shown hy',
        Literal.text_injective (wellFormed_shown y) (wellFormed_shown x) h]
  | false =>
      have hy' : y.isFinite = false := hfinite.trans hx'
      have hy : ¬ y.isNaN = true := by
        intro hy
        rw [text_of_not_isFinite hy', text_of_not_isFinite hx', if_pos hy, if_neg hx] at h
        revert h
        split <;> decide
      have hsign : isNegative y = isNegative x := by
        rw [text_of_not_isFinite hy', text_of_not_isFinite hx', if_neg hy, if_neg hx] at h
        revert h
        cases isNegative y <;> cases isNegative x <;> decide
      rw [← ofPattern_isNegative_pattern y, ← ofPattern_isNegative_pattern x, hsign,
        pattern_of_not_isFinite hy' hy, pattern_of_not_isFinite hx' hx]

end Calculator.Number
