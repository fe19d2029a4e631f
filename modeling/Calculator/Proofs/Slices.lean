import Calculator.Proofs.Outcome
import Calculator.Proofs.Runs

/-!
# Where tokens begin and end

The scanner remembers the token before and looks one character ahead. What it reads can
be told without it, from each character and its two neighbours: a text has tokens when
it is made of the right characters and its runs of digits and points are numbers, a
minus sign belongs to a number when a digit stands behind it and nothing, an opening
parenthesis or an operator before it, and an opening parenthesis that is closed at once
is one token with the closing one.
-/

namespace Calculator

open Number (Literal)

namespace Lexeme

theorem Fits.head?_ne_point {signed : Bool} {rest : List Char} {x : Lexeme}
    (hx : x.Fits signed rest) : x.text.head? ≠ some '.' := by
  cases x with
  | literal l =>
      obtain ⟨c, tail, hc, hdigits⟩ := hx.1.digits_eq_cons
      rw [text, Literal.text_eq, hdigits]
      cases l.negative with
      | true => simp
      | false =>
          intro h
          have hc' : c = '.' := by simpa using h
          simp [hc'] at hc
  | operator op => exact fun h => op.symbol_ne_point (Option.some.inj h)
  | leftParen => simp [text]
  | rightParen => simp [text]
  | emptyGroup => simp [text]

theorem Chain.head?_ne_point {signed : Bool} {xs : List Lexeme} (h : Chain signed xs) :
    (texts xs).head? ≠ some '.' := by
  cases xs with
  | nil => simp
  | cons x xs =>
      obtain ⟨c, tail, hc⟩ := h.1.exists_cons
      have hhead := h.1.head?_ne_point
      rw [hc] at hhead
      rw [texts_cons, hc]
      exact hhead

theorem Chain.isNumeric_head? {signed : Bool} {l : Literal} {xs : List Lexeme}
    (h : Chain signed xs) (hstop : l.StopsAt (texts xs)) :
    ∀ c ∈ (texts xs).head?, Number.isNumeric c = false := by
  intro c hc
  refine Number.isNumeric_eq_false_iff.mpr ⟨(hstop c hc).1, fun hpoint => ?_⟩
  rw [hpoint] at hc
  exact h.head?_ne_point hc

theorem Chain.spelled {signed : Bool} {xs : List Lexeme} (h : Chain signed xs) :
    Number.Spelled (texts xs) := by
  induction xs generalizing signed with
  | nil => exact Number.spelled_nil
  | cons x xs ih =>
      obtain ⟨hx, hxs⟩ := h
      have hrest := ih hxs
      rw [texts_cons]
      cases x with
      | literal l =>
          obtain ⟨hl, -, hstop⟩ := hx
          have hdigits : Number.Spelled (l.digits ++ texts xs) := by
            obtain ⟨c, tail, -, hcons⟩ := hl.digits_eq_cons
            have hne : l.digits ≠ [] := by simp [hcons]
            exact (Number.spelled_append_iff hne hl.isNumeric_digits
              (hxs.isNumeric_head? hstop)).mpr ⟨(Number.isUnsigned_iff l.negative).mpr
                ⟨l, hl, rfl, rfl⟩, hrest⟩
          rw [text, Literal.text_eq]
          cases l.negative with
          | true => exact (Number.spelled_cons_iff (by decide)).mpr hdigits
          | false => exact hdigits
      | operator op =>
          refine (Number.spelled_cons_iff ?_).mpr hrest
          exact Number.isNumeric_eq_false_iff.mpr ⟨op.isDigit_symbol, op.symbol_ne_point⟩
      | leftParen => exact (Number.spelled_cons_iff (by decide)).mpr hrest
      | rightParen => exact (Number.spelled_cons_iff (by decide)).mpr hrest
      | emptyGroup =>
          exact (Number.spelled_cons_iff (by decide)).mpr
            ((Number.spelled_cons_iff (by decide)).mpr hrest)

end Lexeme

theorem isAllowed_iff {c : Char} :
    isAllowed c = true ↔ c.isDigit = true ∨ c ∈ ['.', '+', '-', '*', '/', '(', ')'] := by
  simp [isAllowed, or_assoc]

theorem isAllowed_cases {c : Char} (h : isAllowed c = true) :
    Number.isNumeric c = true ∨ c = '(' ∨ c = ')' ∨ ∃ op : Operator, c = op.symbol := by
  simp only [isAllowed_iff, List.mem_cons, List.not_mem_nil, or_false] at h
  rcases h with h | h | h | h | h | h | h | h
  · exact .inl (by simp [Number.isNumeric, h])
  · exact .inl (by simp [Number.isNumeric, h])
  · exact .inr (.inr (.inr ⟨.add, h⟩))
  · exact .inr (.inr (.inr ⟨.subtract, h⟩))
  · exact .inr (.inr (.inr ⟨.multiply, h⟩))
  · exact .inr (.inr (.inr ⟨.divide, h⟩))
  · exact .inr (.inl h)
  · exact .inr (.inr (.inl h))

namespace Lexeme

theorem fits_literal {signed : Bool} {l : Literal} {rest : List Char} (hl : l.WellFormed)
    (hsign : l.negative = true → signed = true)
    (hrest : ∀ c ∈ rest.head?, Number.isNumeric c = false) : (literal l).Fits signed rest := by
  refine ⟨hl, hsign, fun c hc => ?_⟩
  have hnumeric := Number.isNumeric_eq_false_iff.mp (hrest c hc)
  exact ⟨hnumeric.1, fun _ => hnumeric.2⟩

theorem exists_fits_of_spelled {c : Char} {rest : List Char} (hc : isAllowed c = true)
    (hspelled : Number.Spelled (c :: rest)) (signed : Bool) :
    ∃ (x : Lexeme) (behind : List Char), x.Fits signed behind ∧ c :: rest = x.text ++ behind ∧
      Number.Spelled behind := by
  rcases isAllowed_cases hc with hnumeric | hc | hc | ⟨op, hc⟩
  · obtain ⟨l, behind, hl, hsign, htext, hbehind, hs⟩ := hspelled.exists_literal hnumeric false
    refine ⟨.literal l, behind, fits_literal hl (by simp [hsign]) hbehind, ?_, hs⟩
    rw [text, Literal.text_eq, hsign, htext]
    rfl
  · rw [hc] at hspelled ⊢
    have hs := (Number.spelled_cons_iff (by decide)).mp hspelled
    cases rest with
    | nil => exact ⟨.leftParen, [], by simp [Fits], rfl, hs⟩
    | cons d behind =>
        by_cases hd : d = ')'
        · rw [hd] at hs ⊢
          exact ⟨.emptyGroup, behind, trivial, rfl, (Number.spelled_cons_iff (by decide)).mp hs⟩
        · exact ⟨.leftParen, d :: behind, by simp [Fits, hd], rfl, hs⟩
  · rw [hc] at hspelled ⊢
    exact ⟨.rightParen, rest, trivial, rfl, (Number.spelled_cons_iff (by decide)).mp hspelled⟩
  · rw [hc] at hspelled ⊢
    have hop := Number.isNumeric_eq_false_iff.mpr ⟨op.isDigit_symbol, op.symbol_ne_point⟩
    have hs := (Number.spelled_cons_iff hop).mp hspelled
    by_cases hsign : op = .subtract ∧ signed = true ∧ ∃ d ∈ rest.head?, d.isDigit = true
    · -- The minus sign belongs to the number behind it.
      obtain ⟨hminus, hsigned, d, hd, hdigit⟩ := hsign
      obtain ⟨tail, htail⟩ := List.head?_eq_some_iff.mp hd
      rw [htail] at hs
      obtain ⟨l, behind, hl, hnegative, htext, hbehind, hs⟩ :=
        hs.exists_literal (by simp [Number.isNumeric, hdigit]) true
      refine ⟨.literal l, behind, fits_literal hl (fun _ => hsigned) hbehind, ?_, hs⟩
      rw [text, Literal.text_eq, hnegative, htail, htext, hminus]
      rfl
    · refine ⟨.operator op, rest, fun hminus hsigned d hd => ?_, rfl, hs⟩
      rw [← Bool.not_eq_true]
      exact fun hdigit => hsign ⟨hminus, hsigned, d, hd, hdigit⟩

/-- A text over the right alphabet whose numbers are spelled is cut into lexemes, wherever
it stands. -/
theorem exists_chain_of_spelled {text : List Char} (hallowed : ∀ c ∈ text, isAllowed c = true)
    (hspelled : Number.Spelled text) (signed : Bool) :
    ∃ xs : List Lexeme, Chain signed xs ∧ text = texts xs := by
  -- Each lexeme takes a character at least, and leaves a text of the same kind.
  induction hlength : text.length using Nat.strong_induction_on generalizing text signed with
  | _ n ih =>
      cases text with
      | nil => exact ⟨[], trivial, rfl⟩
      | cons c rest =>
          obtain ⟨x, behind, hx, htext, hs⟩ :=
            exists_fits_of_spelled (hallowed c (by simp)) hspelled signed
          obtain ⟨d, tail, hd⟩ := hx.exists_cons
          have hlt : behind.length < n := by
            rw [← hlength, htext, hd]
            simp only [List.length_append, List.length_cons]
            omega
          have hbehind : ∀ e ∈ behind, isAllowed e = true := by
            intro e he
            apply hallowed e
            rw [htext]
            exact List.mem_append_right _ he
          obtain ⟨xs, hxs, hbehindxs⟩ := ih _ hlt hbehind hs (Token.signAllowed [x.token]) rfl
          rw [hbehindxs] at hx htext
          exact ⟨x :: xs, ⟨hx, hxs⟩, by rw [htext, texts_cons]⟩

theorem exists_chain_iff {text : List Char} {signed : Bool} :
    (∃ xs : List Lexeme, Chain signed xs ∧ text = texts xs) ↔
      (∀ c ∈ text, isAllowed c = true) ∧ Number.Spelled text := by
  constructor
  · intro h
    obtain ⟨xs, hxs, htext⟩ := h
    rw [htext]
    exact ⟨hxs.all_isAllowed, hxs.spelled⟩
  · intro h
    exact exists_chain_of_spelled h.1 h.2 signed

/-- The lexeme that the character at an index of the text belongs to. -/
def covering : List Lexeme → Nat → Option Lexeme
  | [], _ => none
  | x :: xs, i => if i < x.text.length then some x else covering xs (i - x.text.length)

theorem covering_append {x : Lexeme} {front behind : List Char} {c : Char}
    (hx : x.text = front ++ c :: behind) (ys zs : List Lexeme) :
    covering (ys ++ x :: zs) (texts ys ++ front).length = some x := by
  induction ys with
  | nil =>
      rw [List.nil_append, covering, if_pos]
      simp [hx]
  | cons y ys ih =>
      have hlength : (texts (y :: ys) ++ front).length =
          y.text.length + (texts ys ++ front).length := by
        rw [texts_cons, List.append_assoc, List.length_append]
      rw [List.cons_append, covering, hlength, if_neg (by omega), Nat.add_sub_cancel_left]
      exact ih

/-- A character of the text is one of a lexeme, between the lexemes before and behind. -/
theorem exists_of_texts_eq {xs : List Lexeme} {before behind : List Char} {c : Char}
    (h : texts xs = before ++ c :: behind) :
    ∃ (ys : List Lexeme) (x : Lexeme) (zs : List Lexeme) (front rest : List Char),
      xs = ys ++ x :: zs ∧ x.text = front ++ c :: rest ∧ before = texts ys ++ front ∧
        behind = rest ++ texts zs := by
  induction xs generalizing before with
  | nil => simp at h
  | cons x xs ih =>
      rw [texts_cons] at h
      rcases List.append_eq_append_iff.mp h with ⟨mid, hmid, hrest⟩ | ⟨mid, hmid, hrest⟩
      · obtain ⟨ys, y, zs, front, rest, hxs, hy, hbefore, hbehind⟩ := ih hrest
        refine ⟨x :: ys, y, zs, front, rest, by rw [hxs]; rfl, hy, ?_, hbehind⟩
        rw [hmid, hbefore, texts_cons, List.append_assoc]
      · cases mid with
        | nil =>
            have hstart : texts xs = [] ++ c :: behind := hrest.symm
            obtain ⟨ys, y, zs, front, rest, hxs, hy, hbefore, hbehind⟩ := ih hstart
            refine ⟨x :: ys, y, zs, front, rest, by rw [hxs]; rfl, hy, ?_, hbehind⟩
            rw [List.append_nil] at hmid
            rw [texts_cons, List.append_assoc, ← hbefore, List.append_nil, hmid]
        | cons d mid =>
            obtain ⟨hd, hbehind⟩ := List.cons.inj hrest
            rw [← hd] at hmid
            exact ⟨[], x, xs, before, mid, rfl, hmid, rfl, hbehind⟩

theorem Fits.signAllowed_iff {signed : Bool} {rest : List Char} {x : Lexeme}
    (hx : x.Fits signed rest) :
    Token.signAllowed [x.token] = true ↔
      ∃ c, x.text.getLast? = some c ∧ c ∈ ['(', '+', '-', '*', '/'] := by
  cases x with
  | literal l =>
      obtain ⟨c, hlast, hc⟩ := hx.1.getLast?_text
      rw [text, hlast]
      constructor
      · intro h
        cases h
      · intro h
        obtain ⟨d, hd, hmem⟩ := h
        cases hd
        simp only [List.mem_cons, List.not_mem_nil, or_false] at hmem
        rcases hmem with h | h | h | h | h <;> simp [h] at hc
  | operator op => cases op <;> simp [token, text, Token.signAllowed, Operator.symbol]
  | leftParen => simp [token, text, Token.signAllowed]
  | rightParen => simp [token, text, Token.signAllowed]
  | emptyGroup => simp [token, text, Token.signAllowed]

theorem operator_text_eq {op : Operator} {front rest : List Char} {c : Char}
    (h : (operator op).text = front ++ c :: rest) : c = op.symbol ∧ front = [] ∧ rest = [] := by
  cases front with
  | nil =>
      obtain ⟨hc, hrest⟩ := List.cons.inj h
      exact ⟨hc.symm, rfl, hrest.symm⟩
  | cons d front => simp [text] at h

/-- The last character of what was read tells whether a sign may stand behind it. -/
theorem Chain.signAllowed_iff {xs zs : List Lexeme} (h : Chain true (xs ++ zs)) :
    Token.signAllowed (xs.map token).reverse = true ↔
      texts xs = [] ∨ ∃ c, (texts xs).getLast? = some c ∧ c ∈ ['(', '+', '-', '*', '/'] := by
  rcases List.eq_nil_or_concat' xs with hnil | ⟨ys, y, hxs⟩
  · simp [hnil, Token.signAllowed]
  · rw [hxs, List.append_assoc] at h
    obtain ⟨signed, hy⟩ := h.fits
    obtain ⟨c, tail, hc⟩ := hy.exists_cons
    have hne : texts xs ≠ [] := by simp [hxs, texts_append, hc]
    have hlast : (texts xs).getLast? = y.text.getLast? := by
      rw [hxs, texts_append, texts_cons, texts_nil, List.append_nil, List.getLast?_append, hc,
        List.getLast?_cons]
      rfl
    have htokens : (xs.map token).reverse = y.token :: (ys.map token).reverse := by simp [hxs]
    rw [htokens, Token.signAllowed_cons, hlast, hy.signAllowed_iff]
    simp [hne]

/-- The lexemes are consecutive pieces of the text, and the characters beside a minus sign
or a parenthesis tell which piece it belongs to. -/
structure Cut (xs : List Lexeme) (text : List Char) : Prop where
  texts_eq : texts xs = text
  ne_nil : ∀ x ∈ xs, x.text ≠ []
  read : ∀ l, .literal l ∈ xs → Number.read? l.text = some l.value
  sign : ∀ before behind, text = before ++ '-' :: behind →
    ((∃ l, covering xs before.length = some (.literal l)) ↔
      (∃ c, behind.head? = some c ∧ c.isDigit = true) ∧
        (before = [] ∨ ∃ c, before.getLast? = some c ∧ c ∈ ['(', '+', '-', '*', '/']))
  emptyGroup : ∀ before behind, text = before ++ '(' :: ')' :: behind →
    ∃ ys zs, xs = ys ++ .emptyGroup :: zs ∧ texts ys = before

theorem Chain.sign {xs : List Lexeme} (h : Chain true xs) {before behind : List Char}
    (htext : texts xs = before ++ '-' :: behind) :
    (∃ l, covering xs before.length = some (.literal l)) ↔
      (∃ c, behind.head? = some c ∧ c.isDigit = true) ∧
        (before = [] ∨ ∃ c, before.getLast? = some c ∧ c ∈ ['(', '+', '-', '*', '/']) := by
  obtain ⟨ys, x, zs, front, rest, hxs, hx, hbefore, hbehind⟩ := exists_of_texts_eq htext
  have hcover := covering_append hx ys zs
  rw [hxs] at h
  have hsigned := h.signAllowed_iff
  have hfits : Chain (Token.signAllowed ((ys.map token).reverse ++ [])) (x :: zs) := Chain.behind h
  rw [List.append_nil] at hfits
  rw [hbefore, hxs, hcover, hbehind]
  cases x with
  | literal l =>
      obtain ⟨⟨hl, hsign, -⟩, -⟩ := hfits
      obtain ⟨hnegative, hfront, hrest⟩ := hl.text_eq_append_minus_iff.mp hx
      obtain ⟨c, tail, hc, hdigits⟩ := hl.digits_eq_cons
      rw [hfront, hrest, List.append_nil, ← hsigned, hdigits]
      exact ⟨fun _ => ⟨⟨c, rfl, hc⟩, hsign hnegative⟩, fun _ => ⟨l, rfl⟩⟩
  | operator op =>
      obtain ⟨hop, hfront, hrest⟩ := operator_text_eq hx
      rw [hfront, hrest, List.append_nil, List.nil_append, ← hsigned]
      constructor
      · intro hl
        obtain ⟨l, hl⟩ := hl
        cases hl
      · intro hdigit
        obtain ⟨⟨c, hc, hdigit⟩, hallowed⟩ := hdigit
        rw [hfits.1 (op.symbol_eq_minus_iff.mp hop.symm) hallowed c hc] at hdigit
        cases hdigit
  | _ =>
      have hmem : '-' ∈ front ++ '-' :: rest := by simp
      rw [← hx] at hmem
      simp [text] at hmem

theorem Chain.emptyGroup {xs : List Lexeme} {signed : Bool} (h : Chain signed xs)
    {before behind : List Char} (htext : texts xs = before ++ '(' :: ')' :: behind) :
    ∃ ys zs, xs = ys ++ .emptyGroup :: zs ∧ texts ys = before := by
  obtain ⟨ys, x, zs, front, rest, hxs, hx, hbefore, hbehind⟩ := exists_of_texts_eq htext
  rw [hxs] at h
  obtain ⟨signed', hfits⟩ := h.fits
  cases x with
  | literal l =>
      have hmem : '(' ∈ l.text := by
        rw [text] at hx
        simp [hx]
      exact ((hfits.1.no_parens '(' hmem).1 rfl).elim
  | operator op =>
      exact (op.symbol_ne_paren.1 (operator_text_eq hx).1.symm).elim
  | leftParen =>
      cases front with
      | nil =>
          have hrest : rest = [] := (List.cons.inj hx).2.symm
          rw [hrest, List.nil_append] at hbehind
          exact (hfits ')' (by simp [← hbehind]) rfl).elim
      | cons d front => simp [text] at hx
  | rightParen =>
      cases front with
      | nil => simp [text] at hx
      | cons d front => simp [text] at hx
  | emptyGroup =>
      cases front with
      | nil => exact ⟨ys, zs, hxs, by rw [hbefore, List.append_nil]⟩
      | cons d front =>
          cases front with
          | nil => simp [text] at hx
          | cons e front => simp [text] at hx

theorem Chain.cut {xs : List Lexeme} (h : Chain true xs) : Cut xs (texts xs) where
  texts_eq := rfl
  ne_nil x hx := by
    obtain ⟨ys, zs, hxs⟩ := List.append_of_mem hx
    rw [hxs] at h
    obtain ⟨signed, hfits⟩ := h.fits
    obtain ⟨c, tail, hc⟩ := hfits.exists_cons
    simp [hc]
  read l hl := by
    obtain ⟨ys, zs, hxs⟩ := List.append_of_mem hl
    rw [hxs] at h
    obtain ⟨signed, hfits⟩ := h.fits
    exact Number.read?_text hfits.1
  sign _ _ htext := h.sign htext
  emptyGroup _ _ htext := h.emptyGroup htext

end Lexeme

namespace Token

theorem exists_scan_iff (text : String) :
    (∃ tokens, scan text = .ok tokens) ↔
      (∀ c ∈ text.toList, c.isDigit = true ∨ c ∈ ['.', '+', '-', '*', '/', '(', ')']) ∧
        ∀ run, Text.MaximalRun Number.isNumeric run text.toList → Number.IsUnsigned run := by
  have hchain : (∃ tokens, scan text = .ok tokens) ↔
      ∃ xs : List Lexeme, Lexeme.Chain true xs ∧ text.toList = Lexeme.texts xs := by
    simp only [scan_eq_ok_iff]
    constructor
    · intro h
      obtain ⟨tokens, xs, hxs, htext, -⟩ := h
      exact ⟨xs, hxs, htext⟩
    · intro h
      obtain ⟨xs, hxs, htext⟩ := h
      exact ⟨_, xs, hxs, htext, rfl⟩
  simp only [hchain, Lexeme.exists_chain_iff, isAllowed_iff]
  rfl

/-- A piece that is taken for a number is read, also where the rest of the text is not. -/
theorem exists_read_of_front {signed : Bool} {c : Char} {text rest : List Char} {v : Float}
    (h : front signed c text = .token (.number v) rest) :
    ∃ piece, c :: text = piece ++ rest ∧ Number.read? piece = some v := by
  obtain ⟨x, hx, htext, htoken⟩ := exists_lexeme_of_front h
  cases x with
  | literal l =>
      refine ⟨l.text, htext, ?_⟩
      rw [Number.read?_text hx.1, Token.number.inj htoken]
  | _ => cases htoken

/-- The scanner reads the texts over its alphabet whose runs of digits and points are all
numbers, and cuts them where the characters beside each other say. What the alphabet check
refuses has no tokens, and a piece that is taken for a number is one. -/
theorem scan_local (text : String) :
    ((∃ tokens, scan text = .ok tokens) ↔
      (∀ c ∈ text.toList, c.isDigit = true ∨ c ∈ ['.', '+', '-', '*', '/', '(', ')']) ∧
        ∀ run, Text.MaximalRun Number.isNumeric run text.toList → Number.IsUnsigned run) ∧
    (∀ tokens, scan text = .ok tokens →
      ∃ xs : List Lexeme, tokens = xs.map Lexeme.token ∧ Lexeme.Cut xs text.toList) ∧
    (isValid text = false → ∃ defect, scan text = .error defect) ∧
    (∀ (signed : Bool) (c : Char) (rest behind : List Char) (v : Float),
      front signed c rest = .token (.number v) behind →
        ∃ piece, c :: rest = piece ++ behind ∧ Number.read? piece = some v) := by
  refine ⟨exists_scan_iff text, fun tokens h => ?_, fun h => ?_, fun _ _ _ _ _ => exists_read_of_front⟩
  · obtain ⟨xs, hxs, htext, htokens⟩ := scan_eq_ok_iff.mp h
    rw [htext]
    exact ⟨xs, htokens, hxs.cut⟩
  · cases hscan : scan text with
    | error defect => exact ⟨defect, rfl⟩
    | ok tokens =>
        rw [isValid_of_scan hscan] at h
        cases h

end Token

end Calculator
