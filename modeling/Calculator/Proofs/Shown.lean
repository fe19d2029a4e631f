import Mathlib.Data.List.DropRight
import Calculator.Proofs.Fronts
import Calculator.Proofs.Number.Fewest
import Calculator.Proofs.Number.Reading

/-!
# Shown values

A finite value is shown as a literal without needless zeros, and the literal is evaluated to the
same value again. No literal with fewer significant digits is. All fronts show the value so.
-/

namespace Calculator

namespace Number

/-- The digits without the zeros in front of all others and behind them. -/
def stripZeros (ds : List Char) : List Char :=
  (ds.dropWhile (· == '0')).rdropWhile (· == '0')

theorem takeWhile_zeros (ds : List Char) :
    ∃ k, ds.takeWhile (· == '0') = List.replicate k '0' :=
  ⟨_, List.eq_replicate_iff.mpr ⟨rfl, fun c hc => by simpa using List.mem_takeWhile_imp hc⟩⟩

theorem exists_eq_stripZeros (ds : List Char) :
    ∃ a b, ds = List.replicate a '0' ++ (stripZeros ds ++ List.replicate b '0') := by
  obtain ⟨a, ha⟩ := takeWhile_zeros ds
  obtain ⟨b, hb⟩ := takeWhile_zeros (ds.dropWhile (· == '0')).reverse
  have hback : ds.dropWhile (· == '0') = stripZeros ds ++ List.replicate b '0' := by
    rw [stripZeros, List.rdropWhile, ← List.reverse_inj, List.reverse_append, List.reverse_reverse,
      List.reverse_replicate, ← hb, List.takeWhile_append_dropWhile]
  refine ⟨a, b, ?_⟩
  rw [← ha, ← hback, List.takeWhile_append_dropWhile]

/-- Zeros on both sides of some digits are taken away, perhaps with more. -/
theorem length_stripZeros_le (a : ℕ) (ds : List Char) (b : ℕ) :
    (stripZeros (List.replicate a '0' ++ (ds ++ List.replicate b '0'))).length ≤ ds.length := by
  have hzeros (k : ℕ) : ∀ c ∈ List.replicate k '0', (c == '0') = true := by
    intro c hc
    rw [List.eq_of_mem_replicate hc]
    rfl
  have hlength : (ds.dropWhile (· == '0')).length ≤ ds.length :=
    (List.dropWhile_sublist _).length_le
  rw [stripZeros, List.dropWhile_append_of_pos (hzeros a), List.dropWhile_append]
  split
  · rw [List.dropWhile_eq_nil_iff.mpr (hzeros b), List.rdropWhile_nil]
    exact Nat.zero_le _
  · rw [List.rdropWhile, List.reverse_append, List.reverse_replicate,
      List.dropWhile_append_of_pos (hzeros b), List.length_reverse]
    refine (List.dropWhile_sublist _).length_le.trans ?_
    rwa [List.length_reverse]

theorem digit_lt {c : Char} (h : c.isDigit = true) : digit c < 10 := by
  have hrange := Char.isDigit_iff_toNat.mp h
  have hzero : '0'.toNat = 48 := rfl
  have hnine : '9'.toNat = 57 := rfl
  rw [digit]
  omega

theorem ofDigits_lt {ds : List Char} (h : ∀ c ∈ ds, c.isDigit = true) :
    ofDigits ds < 10 ^ ds.length := by
  rw [ofDigits_eq_digitsFrom]
  induction ds with
  | nil => decide
  | cons c ds ih =>
      rw [List.forall_mem_cons] at h
      have hc := digit_lt h.1
      have hds := ih h.2
      have hfirst : digitsFrom 0 (c :: ds) = digitsFrom (10 * 0 + digit c) ds := rfl
      have hdigit : (digit c + 1) * 10 ^ ds.length ≤ 10 * 10 ^ ds.length :=
        Nat.mul_le_mul_right (10 ^ ds.length) (Nat.succ_le_of_lt hc)
      rw [hfirst, digitsFrom_eq, Nat.mul_zero, Nat.zero_add, Nat.pow_eq, List.length_cons,
        Nat.pow_succ]
      linarith

namespace Literal

/-- The digits of a literal that count, wherever its point is. -/
def significant (l : Literal) : List Char :=
  stripZeros (l.whole ++ l.fraction)

theorem WellFormed.significant_digits {l : Literal} (hl : l.WellFormed) :
    ∀ c ∈ l.significant, c.isDigit = true := by
  intro c hc
  have hmem : c ∈ l.whole ++ l.fraction :=
    (List.dropWhile_sublist _).mem ((List.rdropWhile_prefix _ _).mem hc)
  exact (List.mem_append.mp hmem).elim (hl.whole_digits c) (hl.fraction_digits c)

/-- A literal writes its significant digits, times a power of ten. -/
theorem exists_numerator_eq (l : Literal) :
    ∃ t, l.numerator = ofDigits l.significant * 10 ^ t := by
  obtain ⟨a, t, hdigits⟩ := exists_eq_stripZeros (l.whole ++ l.fraction)
  refine ⟨t, ?_⟩
  rw [numerator, hdigits, ofDigits_zeros_append, ofDigits_append_zeros]
  rfl

end Literal

theorem getLast?_toDigits (n : ℕ) : (Nat.toDigits 10 n).getLast? = some (n % 10).digitChar := by
  rw [Nat.toDigits_eq_if (by decide)]
  split
  · next hlt => rw [Nat.mod_eq_of_lt hlt, List.getLast?_singleton]
  · rw [List.getLast?_concat]

theorem digitChar_ne_zero {i : ℕ} (hi : i < 10) (h : i ≠ 0) : i.digitChar ≠ '0' := by
  interval_cases i <;> first | exact absurd rfl h | decide

namespace Decimal
variable (negative : Bool) {d : Decimal}

theorem length_significant_literal :
    (d.literal negative).significant.length ≤ (Nat.toDigits 10 d.digits).length := by
  obtain ⟨ds, hds⟩ : ∃ ds, ds = Nat.toDigits 10 d.digits := ⟨_, rfl⟩
  rw [Literal.significant, literal, ← hds]
  split
  · have hdigits : ds.take (ds.length - (-d.exponent).toNat) ++
        List.replicate d.exponent.toNat '0' ++ ds.drop (ds.length - (-d.exponent).toNat) =
          List.replicate 0 '0' ++ (ds ++ List.replicate d.exponent.toNat '0') := by
      obtain hexponent | hexponent := Int.le_total 0 d.exponent
      · have hbelow : (-d.exponent).toNat = 0 := by omega
        simp [hbelow]
      · have hzeros : d.exponent.toNat = 0 := by omega
        simp [hzeros]
    rw [hdigits]
    exact length_stripZeros_le _ _ _
  · have hdigits : ['0'] ++ (List.replicate ((-d.exponent).toNat - ds.length) '0' ++ ds) =
        List.replicate ((-d.exponent).toNat - ds.length + 1) '0' ++
          (ds ++ List.replicate 0 '0') := by
      simp [List.replicate_succ]
    rw [hdigits]
    exact length_stripZeros_le _ _ _

theorem getLast?_fraction_literal (h : d.exponent < 0 → d.digits % 10 ≠ 0) :
    (d.literal negative).fraction.getLast? ≠ some '0' := by
  have hlength : 0 < (Nat.toDigits 10 d.digits).length := Nat.length_toDigits_pos
  have hlast (hexponent : d.exponent < 0) : (Nat.toDigits 10 d.digits).getLast? ≠ some '0' := by
    rw [getLast?_toDigits, ne_eq, Option.some.injEq]
    exact digitChar_ne_zero (Nat.mod_lt _ (by decide)) (h hexponent)
  rw [literal]
  split
  · dsimp only
    rw [List.getLast?_drop]
    split
    · exact (Option.some_ne_none _).symm
    · exact hlast (by omega)
  · dsimp only
    rw [List.getLast?_append_of_ne_nil _ Nat.toDigits_ne_nil]
    exact hlast (by omega)

end Decimal

/-- A literal is what shows a double in full, without needless zeros and digits. -/
structure Shows (l : Literal) (v : Float) : Prop where
  text_eq : text v = String.ofList l.text
  wellFormed : l.WellFormed
  plain : l.Plain
  fraction_trimmed : l.fraction.getLast? ≠ some '0'
  value_eq : l.value = v
  fewest : ∀ l' : Literal, l'.WellFormed → l'.value = v →
    l.significant.length ≤ l'.significant.length

/-- No literal that has the value of a finite double has fewer significant digits than the shown
one. -/
theorem length_significant_shown_le {x : Float} (hx : x.isFinite = true) {l : Literal}
    (hl : l.WellFormed) (hvalue : l.value = x) :
    (shown x).significant.length ≤ l.significant.length := by
  have hread := l.pattern_value
  obtain ⟨t, hnumerator⟩ := l.exists_numerator_eq
  rw [hvalue, hnumerator, Literal.denominator, Nat.pow_eq] at hread
  obtain hzero | hpos := Nat.eq_zero_or_pos (pattern x)
  · have hshown : shown x = ⟨isNegative x, ['0'], []⟩ := by
      rw [shown, hzero]
      rfl
    rw [hshown]
    exact Nat.zero_le _
  · have hk : 0 < l.significant.length := by
      by_contra hk
      rw [List.eq_nil_of_length_eq_zero (Nat.eq_zero_of_not_pos hk), ofDigits_eq,
        Nat.ofDigitChars_nil, Nat.zero_mul, nearest_zero] at hread
      omega
    have hdigits := digits_shortest_lt hpos (isFinite_iff.mp hx) .up hread.symm
      (ofDigits_lt hl.significant_digits)
    have hshortest : Decimal.ofPattern .up (pattern x) =
        (Parts.ofPattern (pattern x)).shortest .up := if_neg hpos.ne'
    rw [shown, hshortest]
    refine (Decimal.length_significant_literal _).trans ?_
    exact (Nat.length_toDigits_le_iff (by decide) hk).mpr hdigits

theorem shows_shown {x : Float} (hx : x.isFinite = true) : Shows (shown x) x := by
  have hlt := isFinite_iff.mp hx
  refine ⟨text_eq_shown hx, wellFormed_shown x, ?_, ?_, value_shown hx,
    fun l hl hvalue => length_significant_shown_le hx hl hvalue⟩
  · exact Json.plain_literal _ (Json.digits_ofPattern_eq_zero hlt)
  · apply Decimal.getLast?_fraction_literal
    rw [Decimal.ofPattern]
    split
    · exact fun h => absurd h (Int.lt_irrefl 0)
    · next hne => exact fun _ => digits_shortest_mod_ten (Nat.pos_of_ne_zero hne) hlt .up

end Number

open Number (Literal)

theorem trace_literal {l : Literal} (hl : l.WellFormed) :
    ((evaluateTraced (String.ofList l.text)).run .empty).2.tokens = Number.text l.value ∧
      ((evaluateTraced (String.ofList l.text)).run .empty).2.rpn = Number.text l.value := by
  have hscan := Token.scan_literal hl
  have hprogress : Progress.ofEntry (Text.strip (String.ofList l.text)) =
      .evaluated [.number l.value] [.number l.value] [] l.value := by
    rw [strip_literal hl]
    exact (Progress.OfEntry.evaluated (isValid_of_scan hscan) hscan rfl rfl).eq_ofEntry.symm
  have hformat : Token.format [.number l.value] = Number.text l.value :=
    String.intercalate_singleton
  rw [trace_evaluateTraced]
  simp only [Evaluation.trace, Evaluation.ofExpression, hprogress]
  exact ⟨hformat, hformat⟩

theorem trim_ne_of_evaluate {s : String} {v : Float} (h : evaluate s = .ok v) :
    Text.trim s ≠ "" ∧ Text.trim s ≠ "exit" := by
  have hempty : evaluate "" = .error .invalidExpression := by decide +kernel
  have hcommand : evaluate "exit" = .error .invalidExpression := by decide +kernel
  rw [evaluate_congr (Text.strip_trim s).symm] at h
  constructor
  · intro htrim
    rw [htrim, hempty] at h
    cases h
  · intro htrim
    rw [htrim, hcommand] at h
    cases h

/-- A finite value is shown as a literal without needless zeros, which is evaluated to the same
value and has the fewest significant digits of all literals that are. This is how it is told on
the command line, in the console and on the panel, and how the trace shows it. -/
theorem evaluate_text {s : String} {v : Float} (h : evaluate s = .ok v) (hv : v.isFinite = true) :
    ∃ l : Literal, l.WellFormed ∧ l.Plain ∧ l.fraction.getLast? ≠ some '0' ∧
      Number.text v = String.ofList l.text ∧ evaluate (Number.text v) = .ok v ∧
      (∀ l' : Literal, l'.WellFormed → evaluate (String.ofList l'.text) = .ok v →
        l.significant.length ≤ l'.significant.length) ∧
      (∀ traced,
        Session.Leaves s traced (Number.text v ++ "\n") (Session.traceText traced s) true) ∧
      ('\n' ∉ s.toList → ∀ traced rest, (∀ b ∈ rest.head?, b = 10) →
        Session.consoleOutput traced (Text.encode s ++ rest) =
          "Expression : " ++ ("= " ++ Number.text v ++ "\n") ++ Session.traceText traced s ++
            Session.consoleOutput traced rest.tail) ∧
      (∀ p : Panel, ((p.edit s).press .equals).result = Number.text v) ∧
      ((evaluateTraced (Number.text v)).run .empty).2.tokens = Number.text v ∧
      ((evaluateTraced (Number.text v)).run .empty).2.rpn = Number.text v := by
  obtain ⟨l, hl⟩ : ∃ l, l = Number.shown v := ⟨_, rfl⟩
  have hshows : Number.Shows l v := hl ▸ Number.shows_shown hv
  obtain ⟨hblank, hexit⟩ := trim_ne_of_evaluate h
  have hread := evaluate_literal hshows.wellFormed
  have htrace := trace_literal hshows.wellFormed
  rw [← hshows.text_eq, hshows.value_eq] at hread htrace
  refine ⟨l, hshows.wellFormed, hshows.plain, hshows.fraction_trimmed, hshows.text_eq, hread,
    fun l' hl' hread' => ?_, Session.leaves_of_ok h, fun hline traced rest hrest => ?_, fun p => ?_,
    htrace⟩
  · rw [evaluate_literal hl'] at hread'
    exact hshows.fewest l' hl' (Except.ok.inj hread')
  · rw [Session.consoleOutput_encode hline hblank hexit traced hrest, h, Session.outcomeLine]
  · rw [p.press_equals, h]
    rfl

/-- The sum of a tenth and two tenths is not three tenths, and shows it. -/
theorem evaluate_text_tenths : evaluate "0.1+0.2" = .ok 0.30000000000000004 ∧
    (0.30000000000000004 : Float).isFinite = true ∧
    evaluate "0.30000000000000004" = .ok 0.30000000000000004 ∧
    ∀ p : Panel, ((p.edit "0.1+0.2").press .equals).result = "0.30000000000000004" := by
  have h : evaluate "0.1+0.2" = .ok 0.30000000000000004 := by decide +kernel
  have hv : (0.30000000000000004 : Float).isFinite = true := by decide +kernel
  have htext : Number.text 0.30000000000000004 = "0.30000000000000004" := by decide +kernel
  obtain ⟨l, -, -, -, -, hread, -, -, -, hpanel, -⟩ := evaluate_text h hv
  rw [htext] at hread hpanel
  exact ⟨h, hv, hread, hpanel⟩

end Calculator
