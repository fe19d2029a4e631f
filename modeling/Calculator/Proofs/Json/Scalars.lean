import Calculator.Json.Value
import Calculator.Proofs.Json.Strings
import Mathlib.Data.List.TakeWhile

/-!
# Blanks, numbers and words of JSON

The readers of a number take as much as goes on with the number, so a number is
found where what follows it does not go on with it. Behind a value of a
container stand blanks, a comma or the end of the container, and none of these
goes on with a number.
-/

namespace Calculator.Json

def Blanks (ws : List UInt8) : Prop :=
  ∀ b ∈ ws, isBlank b = true

theorem blanks_nil : Blanks [] :=
  List.forall_mem_nil _

theorem Blanks.append {ws ws' : List UInt8} (h : Blanks ws) (h' : Blanks ws') :
    Blanks (ws ++ ws') :=
  List.forall_mem_append.mpr ⟨h, h'⟩

theorem skipBlanks_append {ws : List UInt8} (h : Blanks ws) (rest : List UInt8) :
    skipBlanks (ws ++ rest) = skipBlanks rest :=
  List.dropWhile_append_of_pos h

theorem exists_blanks (input : List UInt8) : ∃ ws, Blanks ws ∧ input = ws ++ skipBlanks input :=
  ⟨input.takeWhile isBlank, fun _ hb => List.mem_takeWhile_imp hb,
    List.takeWhile_append_dropWhile.symm⟩

theorem exists_blanks_of_skipBlanks {b : UInt8} {input rest : List UInt8}
    (h : skipBlanks input = b :: rest) : ∃ ws, Blanks ws ∧ input = ws ++ b :: rest := by
  obtain ⟨ws, hws, hinput⟩ := exists_blanks input
  rw [h] at hinput
  exact ⟨ws, hws, hinput⟩

theorem skipBlanks_cons {b : UInt8} (h : isBlank b = false) (rest : List UInt8) :
    skipBlanks (b :: rest) = b :: rest :=
  List.dropWhile_cons_of_neg (by simp [h])

theorem skipMark_append {mark : UInt8} (hmark : isBlank mark = false) {ws : List UInt8}
    (h : Blanks ws) (rest : List UInt8) : skipMark mark (ws ++ mark :: rest) = some rest := by
  rw [skipMark, skipBlanks_append h, skipBlanks_cons hmark]
  exact if_pos rfl

theorem exists_blanks_of_skipMark {mark : UInt8} {input rest : List UInt8}
    (h : skipMark mark input = some rest) : ∃ ws, Blanks ws ∧ input = ws ++ mark :: rest := by
  unfold skipMark at h
  split at h
  · cases h
  · next hskip =>
      split at h
      · next hmark =>
          cases h
          rw [← hmark]
          exact exists_blanks_of_skipBlanks hskip
      · cases h

theorem skipMark_of_ne {mark b : UInt8} (hb : isBlank b = false) (hne : b ≠ mark)
    {ws : List UInt8} (h : Blanks ws) (rest : List UInt8) :
    skipMark mark (ws ++ b :: rest) = none := by
  rw [skipMark, skipBlanks_append h, skipBlanks_cons hb]
  exact if_neg hne

def Digits (ds : List UInt8) : Prop :=
  ds ≠ [] ∧ ∀ b ∈ ds, isDigit b = true

inductive Whole : List UInt8 → Prop
  | zero : Whole [0x30]
  | digits {ds : List UInt8} : Digits ds → ds.head? ≠ some 0x30 → Whole ds

inductive Fraction : List UInt8 → Prop
  | none : Fraction []
  | point {ds : List UInt8} : Digits ds → Fraction (0x2e :: ds)

inductive Sign : List UInt8 → Prop
  | none : Sign []
  | plus : Sign [0x2b]
  | minus : Sign [0x2d]

inductive Exponent : List UInt8 → Prop
  | none : Exponent []
  | letter {e : UInt8} {sign ds : List UInt8} : e = 0x65 ∨ e = 0x45 → Sign sign → Digits ds →
      Exponent (e :: (sign ++ ds))

/-- A number without a minus sign. -/
inductive Magnitude : List UInt8 → Prop
  | mk {whole fraction exponent : List UInt8} : Whole whole → Fraction fraction →
      Exponent exponent → Magnitude (whole ++ (fraction ++ exponent))

/-- What follows does not go on with a number. -/
def EndsNumber (rest : List UInt8) : Prop :=
  ∀ b ∈ rest.head?, isDigit b = false ∧ b ≠ 0x2e ∧ b ≠ 0x65 ∧ b ≠ 0x45

theorem EndsNumber.blanks_append {ws rest : List UInt8} (hws : Blanks ws) (h : EndsNumber rest) :
    EndsNumber (ws ++ rest) := by
  cases ws with
  | nil => exact h
  | cons b ws =>
      intro d hd
      cases hd
      have hblank := hws b List.mem_cons_self
      simp only [isBlank, Bool.or_eq_true, beq_iff_eq] at hblank
      rcases hblank with ((rfl | rfl) | rfl) | rfl <;> decide

theorem exists_digits_of_skipDigits {input rest : List UInt8} (h : skipDigits input = some rest) :
    ∃ ds, Digits ds ∧ input = ds ++ rest := by
  unfold skipDigits at h
  split at h
  · cases h
  · next b tail =>
      split at h
      · next hb =>
          cases h
          refine ⟨b :: tail.takeWhile isDigit, ⟨by simp, ?_⟩, ?_⟩
          · rw [List.forall_mem_cons]
            exact ⟨hb, fun _ hd => List.mem_takeWhile_imp hd⟩
          · rw [List.cons_append, List.takeWhile_append_dropWhile]
      · cases h

theorem skipDigits_append {ds rest : List UInt8} (h : Digits ds)
    (hrest : ∀ b ∈ rest.head?, isDigit b = false) : skipDigits (ds ++ rest) = some rest := by
  obtain ⟨hne, hdigits⟩ := h
  obtain ⟨b, ds, rfl⟩ := List.exists_cons_of_ne_nil hne
  rw [List.forall_mem_cons] at hdigits
  rw [List.cons_append, skipDigits, if_pos hdigits.1, List.dropWhile_append_of_pos hdigits.2]
  cases rest with
  | nil => rfl
  | cons d rest => rw [List.dropWhile_cons_of_neg (by simp [hrest d rfl])]

theorem exists_whole_of_skipWhole {input rest : List UInt8} (h : skipWhole input = some rest) :
    ∃ whole, Whole whole ∧ input = whole ++ rest := by
  unfold skipWhole at h
  split at h
  · cases h
  · next b tail =>
      split at h
      · next hb =>
          cases h
          exact ⟨_, .zero, by rw [hb]; rfl⟩
      · next hb =>
          obtain ⟨ds, hds, hinput⟩ := exists_digits_of_skipDigits h
          refine ⟨ds, .digits hds ?_, hinput⟩
          obtain ⟨d, ds, rfl⟩ := List.exists_cons_of_ne_nil hds.1
          cases hinput
          simpa using hb

theorem skipWhole_append {whole rest : List UInt8} (h : Whole whole)
    (hrest : ∀ b ∈ rest.head?, isDigit b = false) : skipWhole (whole ++ rest) = some rest := by
  cases h with
  | zero => rfl
  | digits hds hhead =>
      have hskip := skipDigits_append hds hrest
      obtain ⟨d, ds, rfl⟩ := List.exists_cons_of_ne_nil hds.1
      rw [List.cons_append, skipWhole, if_neg (by simpa using hhead)]
      exact hskip

theorem exists_fraction_of_skipFraction {input rest : List UInt8}
    (h : skipFraction input = some rest) : ∃ fraction, Fraction fraction ∧ input = fraction ++ rest := by
  unfold skipFraction at h
  split at h
  · cases h
    exact ⟨[], .none, rfl⟩
  · split at h
    · next hb =>
        obtain ⟨ds, hds, rfl⟩ := exists_digits_of_skipDigits h
        exact ⟨_, .point hds, by rw [hb]; rfl⟩
    · cases h
      exact ⟨[], .none, rfl⟩

theorem skipFraction_append {fraction rest : List UInt8} (h : Fraction fraction)
    (hrest : ∀ b ∈ rest.head?, isDigit b = false ∧ b ≠ 0x2e) :
    skipFraction (fraction ++ rest) = some rest := by
  cases h with
  | none =>
      cases rest with
      | nil => rfl
      | cons b rest => rw [List.nil_append, skipFraction, if_neg (hrest b rfl).2]
  | point hds =>
      rw [List.cons_append, skipFraction, if_pos rfl]
      exact skipDigits_append hds fun b hb => (hrest b hb).1

theorem exists_sign (input : List UInt8) : ∃ sign, Sign sign ∧ input = sign ++ skipSign input := by
  cases input with
  | nil => exact ⟨[], .none, rfl⟩
  | cons b rest =>
      rw [skipSign]
      split
      · next hb =>
          rcases hb with rfl | rfl
          · exact ⟨_, .plus, rfl⟩
          · exact ⟨_, .minus, rfl⟩
      · exact ⟨[], .none, rfl⟩

theorem skipSign_append {sign ds : List UInt8} (h : Sign sign) (hds : Digits ds)
    (rest : List UInt8) : skipSign (sign ++ (ds ++ rest)) = ds ++ rest := by
  cases h with
  | none =>
      obtain ⟨hne, hdigits⟩ := hds
      obtain ⟨d, ds, rfl⟩ := List.exists_cons_of_ne_nil hne
      have hd := hdigits d List.mem_cons_self
      rw [List.nil_append, List.cons_append, skipSign, if_neg]
      rintro (rfl | rfl) <;> cases hd
  | plus => rfl
  | minus => rfl

theorem exists_exponent_of_skipExponent {input rest : List UInt8}
    (h : skipExponent input = some rest) : ∃ exponent, Exponent exponent ∧ input = exponent ++ rest := by
  unfold skipExponent at h
  split at h
  · cases h
    exact ⟨[], .none, rfl⟩
  · next b tail =>
      split at h
      · next hb =>
          obtain ⟨sign, hsign, htail⟩ := exists_sign tail
          obtain ⟨ds, hds, hdigits⟩ := exists_digits_of_skipDigits h
          refine ⟨_, .letter hb hsign hds, ?_⟩
          rw [htail, hdigits, List.cons_append, List.append_assoc]
      · cases h
        exact ⟨[], .none, rfl⟩

theorem skipExponent_append {exponent rest : List UInt8} (h : Exponent exponent)
    (hrest : EndsNumber rest) : skipExponent (exponent ++ rest) = some rest := by
  cases h with
  | none =>
      cases rest with
      | nil => rfl
      | cons b rest =>
          obtain ⟨-, -, hlower, hupper⟩ := hrest b rfl
          rw [List.nil_append, skipExponent, if_neg (not_or.mpr ⟨hlower, hupper⟩)]
  | letter he hsign hds =>
      rw [List.cons_append, skipExponent, if_pos he, List.append_assoc,
        skipSign_append hsign hds]
      exact skipDigits_append hds fun b hb => (hrest b hb).1

theorem exists_magnitude_of_skipMagnitude {input rest : List UInt8}
    (h : skipMagnitude input = some rest) : ∃ text, Magnitude text ∧ input = text ++ rest := by
  simp only [skipMagnitude, Option.bind_eq_some_iff] at h
  obtain ⟨_, hw, _, hf, he⟩ := h
  obtain ⟨whole, hwhole, rfl⟩ := exists_whole_of_skipWhole hw
  obtain ⟨fraction, hfraction, rfl⟩ := exists_fraction_of_skipFraction hf
  obtain ⟨exponent, hexponent, rfl⟩ := exists_exponent_of_skipExponent he
  exact ⟨_, .mk hwhole hfraction hexponent, by simp only [List.append_assoc]⟩

theorem skipMagnitude_append {text rest : List UInt8} (h : Magnitude text)
    (hrest : EndsNumber rest) : skipMagnitude (text ++ rest) = some rest := by
  obtain @⟨whole, fraction, exponent, hwhole, hfraction, hexponent⟩ := h
  have hexp : ∀ b ∈ (exponent ++ rest).head?, isDigit b = false ∧ b ≠ 0x2e := by
    cases hexponent with
    | none => exact fun b hb => ⟨(hrest b hb).1, (hrest b hb).2.1⟩
    | letter he _ _ =>
        intro b hb
        cases hb
        rcases he with rfl | rfl <;> decide
  have hfrac : ∀ b ∈ (fraction ++ (exponent ++ rest)).head?, isDigit b = false := by
    cases hfraction with
    | none => exact fun b hb => (hexp b hb).1
    | point _ =>
        intro b hb
        cases hb
        decide
  simp only [skipMagnitude, List.append_assoc, skipWhole_append hwhole hfrac, Option.bind_some,
    skipFraction_append hfraction hexp, skipExponent_append hexponent hrest]

/-- A value that is no container. -/
inductive Scalar : List UInt8 → Prop
  | string {spelling : List UInt8} : Passes spelling → Scalar (quote :: (spelling ++ [quote]))
  | number {text : List UInt8} : Magnitude text → Scalar text
  | negative {text : List UInt8} : Magnitude text → Scalar (0x2d :: text)
  | word {w : String} : w ∈ ["null", "true", "false"] → Scalar (Text.bytes w.toList)

theorem eq_append_of_skipWord {word input rest : List UInt8}
    (h : skipWord word input = some rest) : input = word ++ rest := by
  unfold skipWord at h
  split at h
  · next hprefix =>
      cases h
      obtain ⟨tail, rfl⟩ := List.isPrefixOf_iff_prefix.mp hprefix
      rw [List.drop_left]
  · cases h

theorem exists_scalar_of_skipScalar {input rest : List UInt8} (h : skipScalar input = some rest) :
    ∃ text, Scalar text ∧ input = text ++ rest := by
  have hword {w : String} {b : UInt8} {word tail : List UInt8} (hw : w ∈ ["null", "true", "false"])
      (hb : Text.bytes w.toList = b :: word) (h : skipWord word tail = some rest) :
      ∃ text, Scalar text ∧ b :: tail = text ++ rest := by
    refine ⟨_, .word hw, ?_⟩
    rw [hb, eq_append_of_skipWord h]
    rfl
  unfold skipScalar at h
  split at h
  · cases h
  · split at h
    · next hb =>
        obtain ⟨spelling, hspelling, rfl⟩ := skipString_eq_some_iff.mp h
        exact ⟨_, .string hspelling, by simp [hb]⟩
    · split at h
      · next hb =>
          obtain ⟨text, htext, rfl⟩ := exists_magnitude_of_skipMagnitude h
          exact ⟨_, .negative htext, by rw [hb]; rfl⟩
      · split at h
        · next hb =>
            rw [hb]
            exact hword (w := "null") (by decide) (by decide) h
        · split at h
          · next hb =>
              rw [hb]
              exact hword (w := "true") (by decide) (by decide) h
          · split at h
            · next hb =>
                rw [hb]
                exact hword (w := "false") (by decide) (by decide) h
            · obtain ⟨text, htext, hinput⟩ := exists_magnitude_of_skipMagnitude h
              exact ⟨text, .number htext, hinput⟩

theorem Magnitude.exists_cons {text : List UInt8} (h : Magnitude text) :
    ∃ d tail, isDigit d = true ∧ text = d :: tail := by
  obtain @⟨whole, fraction, exponent, hwhole, -, -⟩ := h
  cases hwhole with
  | zero => exact ⟨0x30, _, by decide, rfl⟩
  | digits hds _ =>
      obtain ⟨d, ds, rfl⟩ := List.exists_cons_of_ne_nil hds.1
      exact ⟨d, _, hds.2 d List.mem_cons_self, rfl⟩

/-- A scalar is passed over where what follows does not go on with a number. -/
theorem skipScalar_append {text rest : List UInt8} (h : Scalar text) (hrest : EndsNumber rest) :
    skipScalar (text ++ rest) = some rest := by
  cases h with
  | string hspelling =>
      rw [List.cons_append, List.append_assoc, skipScalar, if_pos rfl]
      exact skipString_eq_some_iff.mpr ⟨_, hspelling, rfl⟩
  | number hmagnitude =>
      have hskip := skipMagnitude_append hmagnitude hrest
      obtain ⟨d, tail, hd, rfl⟩ := hmagnitude.exists_cons
      have hne {b : UInt8} (hb : isDigit b = false) : d ≠ b := by
        rintro rfl
        rw [hd] at hb
        cases hb
      rw [List.cons_append, skipScalar, if_neg (hne (by decide)), if_neg (hne (by decide)),
        if_neg (hne (by decide)), if_neg (hne (by decide)), if_neg (hne (by decide))]
      exact hskip
  | negative hmagnitude => exact skipMagnitude_append hmagnitude hrest
  | word hw =>
      simp only [List.mem_cons, List.not_mem_nil, or_false] at hw
      rcases hw with rfl | rfl | rfl <;> rfl

/-- A byte that starts a scalar is no blank, and it neither opens nor closes a container. -/
def StartsScalar (b : UInt8) : Prop :=
  isBlank b = false ∧ Container.ofOpening? b = none ∧ b ≠ Container.array.closing ∧
    b ≠ Container.object.closing

instance : DecidablePred StartsScalar :=
  fun _ => inferInstanceAs (Decidable (_ ∧ _))

theorem Scalar.exists_cons {text : List UInt8} (h : Scalar text) :
    ∃ b tail, StartsScalar b ∧ text = b :: tail := by
  cases h with
  | string _ => exact ⟨quote, _, by decide, rfl⟩
  | number hmagnitude =>
      have hall : ∀ d, isDigit d = true → StartsScalar d := by decide +kernel
      obtain ⟨d, tail, hd, rfl⟩ := hmagnitude.exists_cons
      exact ⟨d, tail, hall d hd, rfl⟩
  | negative _ => exact ⟨0x2d, _, by decide, rfl⟩
  | word hw =>
      simp only [List.mem_cons, List.not_mem_nil, or_false] at hw
      rcases hw with rfl | rfl | rfl
      · exact ⟨0x6e, _, by decide, rfl⟩
      · exact ⟨0x74, _, by decide, rfl⟩
      · exact ⟨0x66, _, by decide, rfl⟩

end Calculator.Json
