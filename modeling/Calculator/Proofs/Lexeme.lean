import Mathlib.Data.List.TakeWhile
import Calculator.Token.Scan

/-!
# Lexemes

A lexeme is a piece of text that the scanner reads as one token. Which lexeme
stands at the front of a text depends on the text behind it only by one
character, and on the text before it only by whether a minus sign may be the
sign of a number there. The scanner reads a text exactly when the text is a
sequence of lexemes that fit together in this way, and then reads these.
-/

namespace Calculator.Operator

@[simp] theorem isDigit_symbol (op : Operator) : op.symbol.isDigit = false := by
  cases op <;> decide

theorem symbol_ne_paren (op : Operator) : op.symbol ≠ '(' ∧ op.symbol ≠ ')' := by
  cases op <;> decide

theorem symbol_ne_point (op : Operator) : op.symbol ≠ '.' := by
  cases op <;> decide

theorem ofChar?_symbol (op : Operator) : ofChar? op.symbol = some op :=
  ofChar?_eq_some_iff.mpr rfl

theorem symbol_eq_minus_iff (op : Operator) : op.symbol = '-' ↔ op = .subtract := by
  cases op <;> decide

end Calculator.Operator

namespace Calculator.Number.Literal

/-- There are digits before the point, and only digits on its two sides. -/
structure WellFormed (l : Literal) : Prop where
  whole_ne_nil : l.whole ≠ []
  whole_digits : ∀ c ∈ l.whole, c.isDigit = true
  fraction_digits : ∀ c ∈ l.fraction, c.isDigit = true

/-- The characters of a literal behind its sign. -/
def digits (l : Literal) : List Char :=
  l.whole ++ if l.fraction.isEmpty then [] else '.' :: l.fraction

theorem text_eq (l : Literal) : l.text = (if l.negative then ['-'] else []) ++ l.digits := by
  simp [text, digits]

/-- What follows does not go on with the digits of the literal. -/
def StopsAt (l : Literal) (rest : List Char) : Prop :=
  ∀ c ∈ rest.head?, c.isDigit = false ∧ (l.fraction = [] → c ≠ '.')

theorem WellFormed.digits_eq_cons {l : Literal} (h : l.WellFormed) :
    ∃ c tail, c.isDigit = true ∧ l.digits = c :: tail := by
  obtain ⟨c, tail, hc⟩ := List.exists_cons_of_ne_nil h.whole_ne_nil
  refine ⟨c, tail ++ if l.fraction.isEmpty then [] else '.' :: l.fraction, ?_, ?_⟩
  · exact h.whole_digits c (by simp [hc])
  · simp [digits, hc]

theorem WellFormed.mem_text {l : Literal} (h : l.WellFormed) {c : Char} (hc : c ∈ l.text) :
    c = '-' ∨ c = '.' ∨ c.isDigit = true := by
  rw [text_eq, digits] at hc
  simp only [List.mem_append, List.mem_ite_nil_right, List.mem_ite_nil_left, List.mem_cons,
    List.not_mem_nil, or_false] at hc
  rcases hc with ⟨-, hc⟩ | hc | ⟨-, hc | hc⟩
  · exact .inl hc
  · exact .inr (.inr (h.whole_digits c hc))
  · exact .inr (.inl hc)
  · exact .inr (.inr (h.fraction_digits c hc))

theorem WellFormed.no_parens {l : Literal} (h : l.WellFormed) : ∀ c ∈ l.text, c ≠ '(' ∧ c ≠ ')' := by
  intro c hc
  rcases h.mem_text hc with rfl | rfl | hdigit
  · decide
  · decide
  · constructor <;> rintro rfl <;> simp at hdigit

theorem WellFormed.getLast?_text {l : Literal} (h : l.WellFormed) :
    ∃ c, l.text.getLast? = some c ∧ c.isDigit = true := by
  rw [text]
  cases hf : l.fraction with
  | nil =>
      refine ⟨l.whole.getLast h.whole_ne_nil, ?_, h.whole_digits _ (List.getLast_mem _)⟩
      simp [List.getLast?_append, List.getLast?_eq_some_getLast h.whole_ne_nil]
  | cons c tail =>
      have hne : c :: tail ≠ [] := List.cons_ne_nil c tail
      have hmem : (c :: tail).getLast hne ∈ l.fraction := by
        rw [hf]
        exact List.getLast_mem hne
      refine ⟨(c :: tail).getLast hne, ?_, h.fraction_digits _ hmem⟩
      simp [List.getLast?_append, List.getLast?_eq_some_getLast hne]

end Calculator.Number.Literal

namespace Calculator.Text

section Runs
variable {p : Char → Bool} {run rest : List Char}

theorem takeWhile_append_run (hrun : ∀ c ∈ run, p c = true) (hrest : ∀ c ∈ rest.head?, p c = false) :
    (run ++ rest).takeWhile p = run ∧ (run ++ rest).dropWhile p = rest := by
  rw [List.takeWhile_append_of_pos hrun, List.dropWhile_append_of_pos hrun]
  cases rest with
  | nil => simp
  | cons c rest =>
      have hc := hrest c rfl
      simp [hc]

theorem head?_dropWhile {s : List Char} : ∀ c ∈ (s.dropWhile p).head?, p c = false := by
  intro c hc
  have h := List.head?_dropWhile_not p s
  rw [Option.mem_def.mp hc] at h
  exact h

end Runs

end Calculator.Text

namespace Calculator.Number.Literal

theorem front?_digits_append {l : Literal} {rest : List Char} (hl : l.WellFormed)
    (hstop : l.StopsAt rest) : front? l.negative (l.digits ++ rest) = some (l, rest) := by
  have hrest : ∀ d ∈ rest.head?, d.isDigit = false := fun d hd => (hstop d hd).1
  obtain ⟨negative, whole, fraction⟩ := l
  cases fraction with
  | nil =>
      obtain ⟨htake, hdrop⟩ := Text.takeWhile_append_run hl.whole_digits hrest
      simp only [digits, List.isEmpty_nil, if_true, List.append_nil, front?, htake, hdrop]
      split
      · exact ((hstop '.' rfl).2 rfl rfl).elim
      · rfl
  | cons d fraction =>
      have hpoint : ∀ e ∈ ('.' :: (d :: fraction ++ rest)).head?, e.isDigit = false := by
        intro e he
        cases he
        decide
      obtain ⟨htake, hdrop⟩ := Text.takeWhile_append_run hl.whole_digits hpoint
      obtain ⟨htake', hdrop'⟩ := Text.takeWhile_append_run hl.fraction_digits hrest
      dsimp only at htake hdrop htake' hdrop'
      simp only [digits, List.isEmpty_cons, Bool.false_eq_true, if_false, List.append_assoc]
      rw [List.cons_append, front?, htake, hdrop]
      simp only [htake', hdrop', List.isEmpty_cons, Bool.false_eq_true, if_false]

theorem of_front? {negative : Bool} {c : Char} {text rest : List Char} {l : Literal}
    (hc : c.isDigit = true) (h : front? negative (c :: text) = some (l, rest)) :
    l.negative = negative ∧ l.WellFormed ∧ c :: text = l.digits ++ rest ∧ l.StopsAt rest := by
  have hne : (c :: text).takeWhile Char.isDigit ≠ [] := by simp [hc]
  have hsplit := List.takeWhile_append_dropWhile (p := Char.isDigit) (l := c :: text)
  have hstop := Text.head?_dropWhile (p := Char.isDigit) (s := c :: text)
  unfold front? at h
  dsimp only at h
  split at h
  · next tail heq =>
      split at h
      · cases h
      · next hfraction =>
          cases h
          refine ⟨rfl, ⟨hne, fun d hd => List.mem_takeWhile_imp hd,
            fun d hd => List.mem_takeWhile_imp hd⟩, ?_, ?_⟩
          · rw [heq] at hsplit
            simp only [digits, hfraction, Bool.false_eq_true, if_false, List.append_assoc,
              List.cons_append, List.takeWhile_append_dropWhile]
            exact hsplit.symm
          · intro d hd
            refine ⟨Text.head?_dropWhile d hd, fun hnil => ?_⟩
            exact (hfraction (List.isEmpty_iff.mpr hnil)).elim
  · next hpoint =>
      cases h
      refine ⟨rfl, ⟨hne, fun d hd => List.mem_takeWhile_imp hd, by simp⟩, ?_, ?_⟩
      · simp [digits]
      · intro d hd
        refine ⟨hstop d hd, ?_⟩
        rintro - rfl
        cases hdrop : (c :: text).dropWhile Char.isDigit with
        | nil => simp [hdrop] at hd
        | cons e tail =>
            simp only [hdrop, List.head?_cons, Option.mem_def, Option.some.injEq] at hd
            exact hpoint tail (hd ▸ hdrop)

end Calculator.Number.Literal

namespace Calculator

open Number (Literal)

/-- A piece of text that is read as one token. -/
inductive Lexeme
  | literal (l : Literal)
  | operator (op : Operator)
  | leftParen
  | rightParen
  | emptyGroup
  deriving DecidableEq

namespace Lexeme

def text : Lexeme → List Char
  | .literal l => l.text
  | .operator op => [op.symbol]
  | .leftParen => ['(']
  | .rightParen => [')']
  | .emptyGroup => ['(', ')']

def token : Lexeme → Token
  | .literal l => .number l.value
  | .operator op => .operator op
  | .leftParen => .leftParen
  | .rightParen => .rightParen
  | .emptyGroup => .emptyGroup

/-- A lexeme may stand where a minus sign may or may not be the sign of a number, and
before the rest of a text. A minus sign that may be a sign is an operator only where
no digit follows. -/
def Fits (signed : Bool) (rest : List Char) : Lexeme → Prop
  | .literal l => l.WellFormed ∧ (l.negative = true → signed = true) ∧ l.StopsAt rest
  | .operator op => op = .subtract → signed = true → ∀ c ∈ rest.head?, c.isDigit = false
  | .leftParen => ∀ c ∈ rest.head?, c ≠ ')'
  | .rightParen => True
  | .emptyGroup => True

end Lexeme

namespace Token

theorem Front.ofNumber_eq_token_iff {negative : Bool} {c : Char} {text rest : List Char} {t : Token}
    (hc : c.isDigit = true) :
    Front.ofNumber negative (c :: text) = .token t rest ↔
      ∃ l : Literal, l.negative = negative ∧ l.WellFormed ∧ c :: text = l.digits ++ rest ∧
        l.StopsAt rest ∧ t = .number l.value := by
  unfold Front.ofNumber
  constructor
  · intro h
    split at h
    · next l tail heq =>
        cases h
        obtain ⟨hneg, hl, htext, hstop⟩ := Literal.of_front? hc heq
        exact ⟨l, hneg, hl, htext, hstop, rfl⟩
    · cases h
  · rintro ⟨l, rfl, hl, htext, hstop, rfl⟩
    rw [htext, Literal.front?_digits_append hl hstop]

/-- A character begins a parenthesis or an operator, or it begins a number with the sign that
may stand in front of it, or it is stray in front of every text. -/
theorem front_cases (signed : Bool) (c : Char) (text : List Char) :
    (∃ (x : Lexeme) (rest : List Char), x.Fits signed rest ∧ c :: text = x.text ++ rest ∧
      front signed c text = .token x.token rest) ∨
    (∃ (negative : Bool) (d : Char) (tail : List Char), d.isDigit = true ∧
      (negative = true → signed = true) ∧
      c :: text = (if negative then ['-'] else []) ++ d :: tail ∧
      front signed c text = .ofNumber negative (d :: tail)) ∨
    ∀ rest, front signed c rest = .stray c := by
  by_cases hleft : c = '('
  · subst hleft
    left
    rcases text with _ | ⟨d, rest⟩
    · exact ⟨.leftParen, [], by simp [Lexeme.Fits], rfl, rfl⟩
    · by_cases hd : d = ')'
      · subst hd
        exact ⟨.emptyGroup, rest, trivial, rfl, rfl⟩
      · exact ⟨.leftParen, d :: rest, by simpa [Lexeme.Fits] using hd, rfl, by simp [front, hd]; rfl⟩
  by_cases hright : c = ')'
  · subst hright
    exact .inl ⟨.rightParen, text, trivial, rfl, rfl⟩
  by_cases hsign : (decide (c = '-') && signed && text.head?.any Char.isDigit) = true
  · simp only [Bool.and_eq_true, decide_eq_true_eq] at hsign
    obtain ⟨⟨rfl, rfl⟩, hdigit⟩ := hsign
    rcases text with _ | ⟨d, tail⟩
    · simp at hdigit
    · have hd : d.isDigit = true := by simpa using hdigit
      exact .inr (.inl ⟨true, d, tail, hd, fun _ => rfl, rfl, by simp [front, hd]⟩)
  cases hop : Operator.ofChar? c with
  | some op =>
      have hsymbol := Operator.ofChar?_eq_some_iff.mp hop
      subst hsymbol
      refine .inl ⟨.operator op, text, ?_, rfl, ?_⟩
      · rintro rfl rfl d hd
        rw [Option.mem_def.mp hd] at hsign
        simpa [Operator.symbol] using hsign
      · simp only [front, if_neg hleft, if_neg hright, if_neg hsign, hop, Lexeme.token]
  | none =>
      have hminus : c ≠ '-' := by
        rintro rfl
        cases hop
      cases hdigit : c.isDigit with
      | true =>
          refine .inr (.inl ⟨false, c, text, hdigit, by simp, rfl, ?_⟩)
          simp [front, hleft, hright, hminus, hop, hdigit]
      | false =>
          refine .inr (.inr fun rest => ?_)
          simp [front, hleft, hright, hminus, hop, hdigit]

theorem Front.ofNumber_ne_stray (negative : Bool) (text : List Char) (c : Char) :
    Front.ofNumber negative text ≠ .stray c := by
  unfold Front.ofNumber
  split <;> simp

theorem exists_lexeme_of_front {signed : Bool} {c : Char} {text rest : List Char} {t : Token}
    (h : front signed c text = .token t rest) :
    ∃ x : Lexeme, x.Fits signed rest ∧ c :: text = x.text ++ rest ∧ x.token = t := by
  rcases front_cases signed c text with ⟨x, behind, hx, htext, hfront⟩ |
    ⟨negative, d, tail, hd, hsign, htext, hfront⟩ | hstray
  · rw [hfront] at h
    cases h
    exact ⟨x, hx, htext, rfl⟩
  · rw [hfront] at h
    obtain ⟨l, rfl, hl, hdigits, hstop, rfl⟩ := (Front.ofNumber_eq_token_iff hd).mp h
    refine ⟨.literal l, ⟨hl, hsign, hstop⟩, ?_, rfl⟩
    rw [htext, hdigits, Lexeme.text, Literal.text_eq, List.append_assoc]
  · rw [hstray text] at h
    cases h

theorem front_digit (signed : Bool) {c : Char} (hc : c.isDigit = true) (text : List Char) :
    front signed c text = .ofNumber false (c :: text) := by
  have hne {d : Char} (hd : d.isDigit = false) : c ≠ d := by
    rintro rfl
    simp [hc] at hd
  have hop : Operator.ofChar? c = none := by
    cases h : Operator.ofChar? c with
    | none => rfl
    | some op => exact (hne op.isDigit_symbol (Operator.ofChar?_eq_some_iff.mp h)).elim
  have hleft : c ≠ '(' := hne (by decide)
  have hright : c ≠ ')' := hne (by decide)
  have hminus : c ≠ '-' := hne (by decide)
  simp [front, hleft, hright, hminus, hop, hc]

theorem front_literal {signed : Bool} {c : Char} {text rest : List Char} {l : Literal}
    (hl : l.WellFormed) (hsign : l.negative = true → signed = true)
    (htext : c :: text = l.text ++ rest) :
    front signed c text = .ofNumber l.negative (l.digits ++ rest) := by
  obtain ⟨d, tail, hd, hdigits⟩ := hl.digits_eq_cons
  rw [Literal.text_eq, hdigits] at htext
  rw [hdigits]
  cases hneg : l.negative with
  | true =>
      rw [hneg] at htext
      obtain ⟨rfl, rfl⟩ := List.cons.inj htext
      simp [front, hsign hneg, hd]
  | false =>
      rw [hneg] at htext
      obtain ⟨rfl, rfl⟩ := List.cons.inj htext
      exact front_digit signed hd (tail ++ rest)

theorem front_lexeme {signed : Bool} {c : Char} {text rest : List Char} {x : Lexeme}
    (hx : x.Fits signed rest) (htext : c :: text = x.text ++ rest) :
    front signed c text = .token x.token rest := by
  cases x with
  | literal l =>
      obtain ⟨hl, hsign, hstop⟩ := hx
      obtain ⟨d, tail, hd, hdigits⟩ := hl.digits_eq_cons
      rw [front_literal hl hsign htext, hdigits]
      exact (Front.ofNumber_eq_token_iff hd).mpr ⟨l, rfl, hl, by rw [hdigits]; rfl, hstop, rfl⟩
  | operator op =>
      obtain ⟨rfl, rfl⟩ := List.cons.inj htext
      have hminus : (decide (op.symbol = '-') && signed && text.head?.any Char.isDigit) = false := by
        rw [Bool.eq_false_iff]
        simp only [ne_eq, Bool.and_eq_true, decide_eq_true_eq]
        rintro ⟨⟨hop, hsigned⟩, hany⟩
        cases text with
        | nil => simp at hany
        | cons d text =>
            have hd := hx (op.symbol_eq_minus_iff.mp hop) hsigned d rfl
            simp [hd] at hany
      simp only [front, if_neg op.symbol_ne_paren.1, if_neg op.symbol_ne_paren.2, hminus,
        Operator.ofChar?_symbol, Bool.false_eq_true, if_false]
      rfl
  | leftParen =>
      obtain ⟨rfl, rfl⟩ := List.cons.inj htext
      simp only [front, if_true]
      split
      · exact (hx ')' rfl rfl).elim
      · rfl
  | rightParen =>
      obtain ⟨rfl, rfl⟩ := List.cons.inj htext
      rfl
  | emptyGroup =>
      obtain ⟨rfl, rfl⟩ := List.cons.inj htext
      rfl

theorem scanFrom_of_token {size : Nat} {read : List Token} {c : Char} {text rest : List Char}
    {t : Token} (h : front (signAllowed read) c text = .token t rest) :
    scanFrom size read (c :: text) = scanFrom size (t :: read) rest := by
  rw [scanFrom]
  split
  · next heq =>
      cases h.symm.trans heq
      rfl
  · next heq => cases h.symm.trans heq
  · next heq => cases h.symm.trans heq

theorem scanFrom_of_barePoint {size length : Nat} {read : List Token} {c : Char} {text : List Char}
    (h : front (signAllowed read) c text = .barePoint length) :
    scanFrom size read (c :: text) = .error (.barePoint (size - (text.length + 1) + length)) := by
  rw [scanFrom]
  split
  · next heq => cases h.symm.trans heq
  · next heq =>
      cases h.symm.trans heq
      rfl
  · next heq => cases h.symm.trans heq

theorem scanFrom_of_stray {size : Nat} {read : List Token} {c d : Char} {text : List Char}
    (h : front (signAllowed read) c text = .stray d) :
    scanFrom size read (c :: text) = .error (.strayCharacter (size - (text.length + 1)) d) := by
  rw [scanFrom]
  split
  · next heq => cases h.symm.trans heq
  · next heq => cases h.symm.trans heq
  · next heq =>
      cases h.symm.trans heq
      rfl

theorem signAllowed_cons (t : Token) (read : List Token) :
    signAllowed (t :: read) = signAllowed [t] := by
  cases t <;> rfl

end Token

namespace Lexeme

theorem Fits.exists_cons {signed : Bool} {rest : List Char} {x : Lexeme} (hx : x.Fits signed rest) :
    ∃ c tail, x.text = c :: tail := by
  cases x with
  | literal l =>
      obtain ⟨c, tail, -, hdigits⟩ := hx.1.digits_eq_cons
      rw [text, Literal.text_eq, hdigits]
      cases l.negative with
      | true => exact ⟨'-', c :: tail, rfl⟩
      | false => exact ⟨c, tail, rfl⟩
  | operator op => exact ⟨op.symbol, [], rfl⟩
  | leftParen => exact ⟨'(', [], rfl⟩
  | rightParen => exact ⟨')', [], rfl⟩
  | emptyGroup => exact ⟨'(', [')'], rfl⟩

theorem Fits.eq_rightParen {signed : Bool} {rest : List Char} {x : Lexeme}
    (hx : x.Fits signed rest) (h : x.text.head? = some ')') : x = .rightParen := by
  cases x with
  | literal l =>
      obtain ⟨c, tail, hc, hdigits⟩ := hx.1.digits_eq_cons
      rw [text, Literal.text_eq, hdigits] at h
      cases hneg : l.negative with
      | true => simp [hneg] at h
      | false =>
          have hc' : c = ')' := by simpa [hneg] using h
          simp [hc'] at hc
  | operator op => exact (op.symbol_ne_paren.2 (Option.some.inj h)).elim
  | leftParen => cases h
  | rightParen => rfl
  | emptyGroup => cases h

theorem Fits.eq_leftParen {signed : Bool} {rest : List Char} {x : Lexeme}
    (hx : x.Fits signed rest) (h : x.text.getLast? = some '(') : x = .leftParen := by
  cases x with
  | literal l =>
      obtain ⟨c, hlast, hc⟩ := hx.1.getLast?_text
      rw [text, hlast] at h
      cases h
      simp at hc
  | operator op => exact (op.symbol_ne_paren.1 (Option.some.inj h)).elim
  | leftParen => rfl
  | rightParen => cases h
  | emptyGroup => cases h

/-- The texts of lexemes, without anything between them. -/
def texts (xs : List Lexeme) : List Char :=
  xs.flatMap text

@[simp] theorem texts_nil : texts [] = [] := rfl

@[simp] theorem texts_cons (x : Lexeme) (xs : List Lexeme) : texts (x :: xs) = x.text ++ texts xs := by
  simp [texts]

theorem texts_append (xs ys : List Lexeme) : texts (xs ++ ys) = texts xs ++ texts ys := by
  simp [texts]

/-- Each lexeme fits behind the one before it and before those that follow. -/
def Chain (signed : Bool) : List Lexeme → Prop
  | [] => True
  | x :: xs => x.Fits signed (texts xs) ∧ Chain (Token.signAllowed [x.token]) xs

theorem Chain.fits {signed : Bool} {xs ys : List Lexeme} {x : Lexeme}
    (h : Chain signed (xs ++ x :: ys)) : ∃ signed', x.Fits signed' (texts ys) := by
  induction xs generalizing signed with
  | nil => exact ⟨signed, h.1⟩
  | cons _ xs ih => exact ih h.2

/-- The lexemes at the end of a chain are one behind the tokens of those before them. -/
theorem Chain.behind {read : List Token} {xs ys : List Lexeme}
    (h : Chain (Token.signAllowed read) (xs ++ ys)) :
    Chain (Token.signAllowed ((xs.map token).reverse ++ read)) ys := by
  induction xs generalizing read with
  | nil => exact h
  | cons x xs ih =>
      have htail := h.2
      rw [← Token.signAllowed_cons _ read] at htail
      simpa using ih htail

end Lexeme

namespace Token

/-- The scanner reads a lexeme that fits, and goes on behind it. -/
theorem scanFrom_lexeme {size : Nat} {read : List Token} {rest : List Char} {x : Lexeme}
    (hx : x.Fits (signAllowed read) rest) :
    scanFrom size read (x.text ++ rest) = scanFrom size (x.token :: read) rest := by
  obtain ⟨c, tail, htext⟩ := hx.exists_cons
  have h : front (signAllowed read) c (tail ++ rest) = .token x.token rest :=
    front_lexeme hx (by rw [htext]; rfl)
  rw [htext]
  exact scanFrom_of_token h

theorem scanFrom_chain {size : Nat} {read : List Token} {xs : List Lexeme}
    (h : Lexeme.Chain (signAllowed read) xs) :
    scanFrom size read (Lexeme.texts xs) = .ok (read.reverse ++ xs.map Lexeme.token) := by
  induction xs generalizing read with
  | nil => simp [scanFrom]
  | cons x xs ih =>
      obtain ⟨hx, hxs⟩ := h
      rw [Lexeme.texts_cons, scanFrom_lexeme hx, ih (by rwa [signAllowed_cons])]
      simp

theorem exists_chain_of_scanFrom {size : Nat} {read : List Token} {text : List Char}
    {tokens : List Token} (h : scanFrom size read text = .ok tokens) :
    ∃ xs : List Lexeme, Lexeme.Chain (signAllowed read) xs ∧ text = Lexeme.texts xs ∧
      tokens = read.reverse ++ xs.map Lexeme.token := by
  fun_induction scanFrom size read text with
  | case1 read =>
      cases h
      exact ⟨[], trivial, rfl, by simp⟩
  | case2 read c text t rest hfront ih =>
      obtain ⟨xs, hxs, rfl, rfl⟩ := ih h
      obtain ⟨x, hx, htext, rfl⟩ := exists_lexeme_of_front hfront
      rw [signAllowed_cons] at hxs
      exact ⟨x :: xs, ⟨hx, hxs⟩, by rw [htext, Lexeme.texts_cons], by simp⟩
  | case3 => cases h
  | case4 => cases h

/-- The scanner reads exactly the sequences of lexemes that fit together. -/
theorem scan_eq_ok_iff {text : String} {tokens : List Token} :
    scan text = .ok tokens ↔
      ∃ xs : List Lexeme, Lexeme.Chain true xs ∧ text.toList = Lexeme.texts xs ∧
        tokens = xs.map Lexeme.token := by
  constructor
  · exact exists_chain_of_scanFrom
  · rintro ⟨xs, hxs, htext, rfl⟩
    rw [scan, htext]
    exact scanFrom_chain hxs

end Token

end Calculator
