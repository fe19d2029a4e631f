import Mathlib.Data.List.Basic
import Calculator.Proofs.Lexeme

/-!
# Runs of digits and points

The numbers of a text are found without reading it from its start: each run of digits
and points that cannot be made longer has to be digits alone, or digits, one point and
digits. Such a run, with or without a minus sign, writes one double, and what stands
before and behind it does not matter.
-/

namespace Calculator

namespace Text

/-- A run of characters of the class `p`, in a text that goes on with the class on neither
side of it. -/
def MaximalRun (p : Char → Bool) (run text : List Char) : Prop :=
  run ≠ [] ∧ (∀ c ∈ run, p c = true) ∧ ∃ before behind, text = before ++ run ++ behind ∧
    (∀ c ∈ before.getLast?, p c = false) ∧ ∀ c ∈ behind.head?, p c = false

namespace MaximalRun
variable {p : Char → Bool} {run front rest : List Char} {c : Char}

theorem forall_getLast?_of_cons (hc : p c = false) {before : List Char}
    (hbefore : ∀ d ∈ before.getLast?, p d = false) (front : List Char) :
    ∀ d ∈ (front ++ c :: before).getLast?, p d = false := by
  intro d hd
  rw [List.getLast?_append, List.getLast?_cons] at hd
  cases hlast : before.getLast? with
  | none =>
      rw [hlast] at hd
      cases hd
      exact hc
  | some e =>
      rw [hlast] at hd
      cases hd
      exact hbefore _ hlast

theorem not_nil : ¬ MaximalRun p run [] := by
  intro h
  obtain ⟨hne, -, before, behind, htext, -, -⟩ := h
  apply hne
  simp only [List.nil_eq, List.append_eq_nil_iff] at htext
  exact htext.1.2

/-- A character outside the class belongs to no run. -/
theorem cons_iff (hc : p c = false) : MaximalRun p run (c :: rest) ↔ MaximalRun p run rest := by
  constructor
  · intro h
    obtain ⟨hne, hrun, before, behind, htext, hbefore, hbehind⟩ := h
    cases before with
    | nil =>
        obtain ⟨d, tail, hd⟩ := List.exists_cons_of_ne_nil hne
        rw [hd] at htext hrun
        have hcd : c = d := (List.cons.inj htext).1
        rw [hcd, hrun d (by simp)] at hc
        cases hc
    | cons d before =>
        refine ⟨hne, hrun, before, behind, (List.cons.inj htext).2, fun e he => ?_, hbehind⟩
        apply hbefore e
        rw [List.getLast?_cons, Option.mem_def.mp he]
        rfl
  · intro h
    obtain ⟨hne, hrun, before, behind, htext, hbefore, hbehind⟩ := h
    exact ⟨hne, hrun, c :: before, behind, by rw [htext]; rfl,
      forall_getLast?_of_cons hc hbefore [], hbehind⟩

/-- The runs of a text that begins with a run are this one and those behind it. -/
theorem append_iff (hne : front ≠ []) (hfront : ∀ c ∈ front, p c = true)
    (hrest : ∀ c ∈ rest.head?, p c = false) :
    MaximalRun p run (front ++ rest) ↔ run = front ∨ MaximalRun p run rest := by
  constructor
  · intro h
    obtain ⟨hrunne, hrun, before, behind, htext, hbefore, hbehind⟩ := h
    cases hlast : before.getLast? with
    | none =>
        rw [List.getLast?_eq_none_iff.mp hlast, List.nil_append] at htext
        have htake := (takeWhile_append_run hfront hrest).1
        rw [htext, (takeWhile_append_run hrun hbehind).1] at htake
        exact .inl htake
    | some d =>
        right
        rw [List.append_assoc] at htext
        rcases List.append_eq_append_iff.mp htext with ⟨mid, hmid, hmidrest⟩ | ⟨mid, hmid, -⟩
        · refine ⟨hrunne, hrun, mid, behind, by rw [hmidrest, List.append_assoc], ?_, hbehind⟩
          intro e he
          apply hbefore e
          rw [hmid, List.getLast?_append, Option.mem_def.mp he]
          rfl
        · have hd : d ∈ front := by
            rw [hmid]
            exact List.mem_append_left _ (List.mem_of_getLast? hlast)
          have hfalse := hbefore d hlast
          rw [hfront d hd] at hfalse
          cases hfalse
  · intro h
    rcases h with h | h
    · rw [h]
      exact ⟨hne, hfront, [], rest, rfl, by simp, hrest⟩
    · obtain ⟨hrunne, hrun, before, behind, htext, hbefore, hbehind⟩ := h
      refine ⟨hrunne, hrun, front ++ before, behind, by rw [htext]; simp, fun e he => ?_, hbehind⟩
      cases hlast : before.getLast? with
      | none =>
          rw [List.getLast?_eq_none_iff.mp hlast, List.nil_append] at htext
          obtain ⟨d, tail, hd⟩ := List.exists_cons_of_ne_nil hrunne
          have hfalse := hrest d (by simp [htext, hd])
          have hmem : d ∈ run := by simp [hd]
          rw [hrun d hmem] at hfalse
          cases hfalse
      | some d =>
          rw [List.getLast?_append, hlast] at he
          cases he
          exact hbefore _ hlast

end MaximalRun

end Text

namespace Number

/-- A run of digits. -/
structure IsDigits (ds : List Char) : Prop where
  ne_nil : ds ≠ []
  digits : ∀ c ∈ ds, c.isDigit = true

/-- Digits, or digits, a point and digits. -/
inductive IsUnsigned : List Char → Prop
  | whole {ds : List Char} : IsDigits ds → IsUnsigned ds
  | fractional {ds es : List Char} : IsDigits ds → IsDigits es → IsUnsigned (ds ++ '.' :: es)

theorem isUnsigned_iff {run : List Char} (negative : Bool) :
    IsUnsigned run ↔ ∃ l : Literal, l.WellFormed ∧ l.negative = negative ∧ run = l.digits := by
  constructor
  · intro h
    cases h with
    | whole hds =>
        exact ⟨⟨negative, run, []⟩, ⟨hds.ne_nil, hds.digits, by simp⟩, rfl, by simp [Literal.digits]⟩
    | @fractional ds es hds hes =>
        refine ⟨⟨negative, ds, es⟩, ⟨hds.ne_nil, hds.digits, hes.digits⟩, rfl, ?_⟩
        simp [Literal.digits, hes.ne_nil]
  · intro h
    obtain ⟨l, hl, -, hrun⟩ := h
    have hwhole : IsDigits l.whole := ⟨hl.whole_ne_nil, hl.whole_digits⟩
    rw [hrun, Literal.digits]
    split
    · rw [List.append_nil]
      exact .whole hwhole
    · next hne => exact .fractional hwhole ⟨by simpa using hne, hl.fraction_digits⟩

/-- The characters that a number is written with behind its sign. -/
def isNumeric (c : Char) : Bool :=
  c.isDigit || c == '.'

theorem isNumeric_eq_false_iff {c : Char} : isNumeric c = false ↔ c.isDigit = false ∧ c ≠ '.' := by
  simp [isNumeric]

theorem Literal.WellFormed.isNumeric_digits {l : Literal} (h : l.WellFormed) :
    ∀ c ∈ l.digits, isNumeric c = true := by
  intro c hc
  rw [Literal.digits] at hc
  rcases List.mem_append.mp hc with hc | hc
  · simp [isNumeric, h.whole_digits c hc]
  · split at hc
    · cases hc
    · rcases List.mem_cons.mp hc with hc | hc
      · simp [isNumeric, hc]
      · simp [isNumeric, h.fraction_digits c hc]

theorem Literal.WellFormed.text_eq_append_minus_iff {l : Literal} (h : l.WellFormed)
    {front rest : List Char} :
    l.text = front ++ '-' :: rest ↔ l.negative = true ∧ front = [] ∧ rest = l.digits := by
  have hdigits : '-' ∉ l.digits := by
    intro hmem
    have hnumeric := h.isNumeric_digits '-' hmem
    revert hnumeric
    decide
  rw [Literal.text_eq]
  constructor
  · intro htext
    cases hnegative : l.negative with
    | false =>
        rw [hnegative] at htext
        have hall : l.digits = front ++ '-' :: rest := htext
        exact (hdigits (by rw [hall]; simp)).elim
    | true =>
        rw [hnegative] at htext
        cases front with
        | nil => exact ⟨rfl, rfl, (List.cons.inj htext).2.symm⟩
        | cons c front =>
            have hrest : l.digits = front ++ '-' :: rest := (List.cons.inj htext).2
            exact (hdigits (by rw [hrest]; simp)).elim
  · intro hparts
    rw [hparts.1, hparts.2.1, hparts.2.2]
    rfl

/-- Every run of digits and points in the text is a number without sign. -/
def Spelled (text : List Char) : Prop :=
  ∀ run, Text.MaximalRun isNumeric run text → IsUnsigned run

theorem spelled_nil : Spelled [] :=
  fun _ h => (Text.MaximalRun.not_nil h).elim

theorem spelled_cons_iff {c : Char} {text : List Char} (hc : isNumeric c = false) :
    Spelled (c :: text) ↔ Spelled text := by
  simp only [Spelled, Text.MaximalRun.cons_iff hc]

theorem spelled_append_iff {run rest : List Char} (hne : run ≠ [])
    (hrun : ∀ c ∈ run, isNumeric c = true) (hrest : ∀ c ∈ rest.head?, isNumeric c = false) :
    Spelled (run ++ rest) ↔ IsUnsigned run ∧ Spelled rest := by
  simp only [Spelled, Text.MaximalRun.append_iff hne hrun hrest]
  constructor
  · intro h
    exact ⟨h run (.inl rfl), fun r hr => h r (.inr hr)⟩
  · intro h r hr
    rcases hr with hr | hr
    · rw [hr]
      exact h.1
    · exact h.2 r hr

/-- A spelled text that begins with a digit or a point begins with a whole literal. -/
theorem Spelled.exists_literal {c : Char} {text : List Char} (h : Spelled (c :: text))
    (hc : isNumeric c = true) (negative : Bool) :
    ∃ (l : Literal) (rest : List Char), l.WellFormed ∧ l.negative = negative ∧
      c :: text = l.digits ++ rest ∧ (∀ d ∈ rest.head?, isNumeric d = false) ∧ Spelled rest := by
  have hsplit := List.takeWhile_append_dropWhile (p := isNumeric) (l := c :: text)
  have hne : (c :: text).takeWhile isNumeric ≠ [] := by simp [hc]
  have hrest : ∀ d ∈ ((c :: text).dropWhile isNumeric).head?, isNumeric d = false :=
    Text.head?_dropWhile
  rw [← hsplit] at h
  obtain ⟨hrun, hspelled⟩ :=
    (spelled_append_iff hne (fun d hd => List.mem_takeWhile_imp hd) hrest).mp h
  obtain ⟨l, hl, hnegative, hdigits⟩ := (isUnsigned_iff negative).mp hrun
  exact ⟨l, _, hl, hnegative, by rw [← hdigits, hsplit], hrest, hspelled⟩

def isDigits (ds : List Char) : Bool :=
  !ds.isEmpty && ds.all Char.isDigit

/-- The double that a text writes behind its sign, if it is a number. -/
def readUnsigned? (negative : Bool) (text : List Char) : Option Float :=
  match text.splitOn '.' with
  | [whole] => if isDigits whole then some (Literal.value ⟨negative, whole, []⟩) else none
  | [whole, fraction] =>
    if isDigits whole && isDigits fraction then some (Literal.value ⟨negative, whole, fraction⟩)
    else none
  | _ => none

/-- The double that a text writes, if it is a number and nothing else. -/
def read? : List Char → Option Float
  | '-' :: text => readUnsigned? true text
  | text => readUnsigned? false text

theorem IsDigits.isDigits_eq {ds : List Char} (h : IsDigits ds) : isDigits ds = true := by
  simp only [isDigits, Bool.and_eq_true, Bool.not_eq_true', List.isEmpty_eq_false_iff,
    List.all_eq_true]
  exact ⟨h.ne_nil, h.digits⟩

theorem IsDigits.point_not_mem {ds : List Char} (h : IsDigits ds) : '.' ∉ ds := by
  intro hmem
  have hdigit := h.digits '.' hmem
  simp at hdigit

theorem readUnsigned?_digits {l : Literal} (h : l.WellFormed) :
    readUnsigned? l.negative l.digits = some l.value := by
  have hwhole : IsDigits l.whole := ⟨h.whole_ne_nil, h.whole_digits⟩
  obtain ⟨negative, whole, fraction⟩ := l
  cases fraction with
  | nil =>
      simp only [Literal.digits, List.isEmpty_nil, if_true, List.append_nil, readUnsigned?,
        List.splitOn_eq_singleton hwhole.point_not_mem, hwhole.isDigits_eq]
  | cons d fraction =>
      have hfraction : IsDigits (d :: fraction) := ⟨List.cons_ne_nil d fraction, h.fraction_digits⟩
      simp only [Literal.digits, List.isEmpty_cons, Bool.false_eq_true, if_false, readUnsigned?,
        List.splitOn_append_cons_self_of_not_mem hwhole.point_not_mem,
        List.splitOn_eq_singleton hfraction.point_not_mem, hwhole.isDigits_eq,
        hfraction.isDigits_eq, Bool.and_self, if_true]

theorem read?_text {l : Literal} (h : l.WellFormed) : read? l.text = some l.value := by
  obtain ⟨c, tail, hc, hdigits⟩ := h.digits_eq_cons
  have hread := readUnsigned?_digits h
  rw [hdigits] at hread
  rw [Literal.text_eq, hdigits]
  cases hnegative : l.negative with
  | true =>
      rw [hnegative] at hread
      exact hread
  | false =>
      rw [hnegative] at hread
      have hsign : c ≠ '-' := by
        intro h
        simp [h] at hc
      simp only [Bool.false_eq_true, if_false, List.nil_append]
      rw [read?]
      · exact hread
      · intro text htext
        exact hsign (List.cons.inj htext).1

end Number

end Calculator
