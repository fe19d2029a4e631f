import Calculator.Proofs.Number.Text
import Calculator.Proofs.Rendering

/-!
# Shown tokens

Tokens are shown as their texts with spaces between them. Without the spaces the text is read
as the same tokens exactly when no two neighbours run into each other there: a number into the
number behind it, a minus sign into the digits behind it, an opening parenthesis into a closing
one. Tokens that were read are always of this kind. With the spaces the text tells all tokens
apart.
-/

namespace Calculator

open Number (Literal isNegative shown)

namespace Token

/-- A minus sign behind these tokens may be the sign of a number. -/
def SignPosition (before : List Token) : Prop :=
  before = [] ∨ before.getLast? = some .leftParen ∨ ∃ op, before.getLast? = some (.operator op)

/-- No two neighbours run into each other when their texts are put side by side. -/
structure Readable (tokens : List Token) : Prop where
  numbers_apart : ∀ before x y behind, tokens ≠ before ++ .number x :: .number y :: behind
  sign_position : ∀ before x behind, tokens = before ++ .number x :: behind →
    isNegative x = true → SignPosition before
  group_filled : ∀ before behind, tokens ≠ before ++ .leftParen :: .rightParen :: behind
  sign_glued : ∀ before x behind, tokens = before ++ .operator .subtract :: .number x :: behind →
    SignPosition before → isNegative x = true

theorem signAllowed_reverse_iff {before : List Token} :
    signAllowed before.reverse = true ↔ SignPosition before := by
  rw [SignPosition, ← List.reverse_eq_nil_iff, ← List.head?_reverse]
  cases before.reverse with
  | nil => simp [signAllowed]
  | cons t _ => cases t <;> simp [signAllowed]

end Token

namespace Lexeme

theorem Chain.exists_of_tokens {xs : List Lexeme} {before behind : List Token} (h : Chain true xs)
    (hxs : xs.map token = before ++ behind) :
    ∃ ys : List Lexeme, ys.map token = behind ∧ Chain (Token.signAllowed before.reverse) ys := by
  obtain ⟨as, ys, rfl, rfl, hys⟩ := List.map_eq_append_iff.mp hxs
  have hbehind : Chain (Token.signAllowed ((as.map token).reverse ++ [])) ys := Chain.behind h
  rw [List.append_nil] at hbehind
  exact ⟨ys, hys, hbehind⟩

theorem exists_literal_of_token {x : Lexeme} {v : Float} (h : x.token = .number v) :
    ∃ l : Literal, x = .literal l ∧ l.value = v := by
  cases x with
  | literal l => exact ⟨l, rfl, Token.number.inj h⟩
  | _ => cases h

/-- Where a number is written behind a lexeme, a digit or a minus sign follows the lexeme. -/
theorem Chain.exists_number {xs : List Lexeme} {behind : List Token} {v : Float}
    {signed : Bool} (h : Chain signed xs) (hxs : xs.map token = .number v :: behind) :
    ∃ c rest, texts xs = c :: rest ∧ (isNegative v = true → signed = true) ∧
      (isNegative v = false → c.isDigit = true) := by
  obtain ⟨x, ys, rfl, hx, -⟩ := List.map_eq_cons_iff.mp hxs
  obtain ⟨l, rfl, rfl⟩ := exists_literal_of_token hx
  obtain ⟨hl, hsign, -⟩ := h.1
  obtain ⟨c, tail, hc, hdigits⟩ := hl.digits_eq_cons
  rw [texts_cons, text, Literal.text_eq, hdigits, Literal.isNegative_value]
  cases hneg : l.negative with
  | true =>
      refine ⟨'-', c :: tail ++ texts ys, rfl, fun _ => hsign hneg, fun h => ?_⟩
      cases h
  | false =>
      refine ⟨c, tail ++ texts ys, rfl, fun h => ?_, fun _ => hc⟩
      cases h

theorem Chain.readable {xs : List Lexeme} (h : Chain true xs) : Token.Readable (xs.map token) := by
  refine ⟨fun before v w behind hxs => ?_, fun before v behind hxs hv => ?_,
    fun before behind hxs => ?_, fun before v behind hxs hbefore => ?_⟩
  · obtain ⟨ys, hys, hchain⟩ := h.exists_of_tokens hxs
    obtain ⟨x, ys, rfl, hx, hys'⟩ := List.map_eq_cons_iff.mp hys
    obtain ⟨l, rfl, -⟩ := exists_literal_of_token hx
    obtain ⟨⟨-, -, hstop⟩, hchain⟩ := hchain
    obtain ⟨c, rest, htexts, hsign, hdigit⟩ := hchain.exists_number hys'
    cases hw : isNegative w with
    | true => cases hsign hw
    | false =>
        have hc := (hstop c (by simp [htexts])).1
        rw [hdigit hw] at hc
        cases hc
  · obtain ⟨ys, hys, hchain⟩ := h.exists_of_tokens hxs
    obtain ⟨c, rest, -, hsign, -⟩ := hchain.exists_number hys
    exact Token.signAllowed_reverse_iff.mp (hsign hv)
  · obtain ⟨ys, hys, hchain⟩ := h.exists_of_tokens hxs
    obtain ⟨x, ys, rfl, hx, hys⟩ := List.map_eq_cons_iff.mp hys
    obtain ⟨y, ys, rfl, hy, -⟩ := List.map_eq_cons_iff.mp hys
    cases x with
    | leftParen =>
        cases y with
        | rightParen => exact hchain.1 ')' rfl rfl
        | _ => cases hy
    | _ => cases hx
  · obtain ⟨ys, hys, hchain⟩ := h.exists_of_tokens hxs
    obtain ⟨x, ys, rfl, hx, hys⟩ := List.map_eq_cons_iff.mp hys
    obtain ⟨c, rest, htexts, -, hdigit⟩ := hchain.2.exists_number hys
    cases x with
    | operator op =>
        have hc := hchain.1 (Token.operator.inj hx) (Token.signAllowed_reverse_iff.mpr hbefore) c
          (by simp [htexts])
        rw [← Bool.not_eq_false]
        intro hv
        rw [hdigit hv] at hc
        cases hc
    | _ => cases hx

end Lexeme

namespace Token

/-- The lexeme that a token is shown as. -/
def lexeme : Token → Lexeme
  | .number x => .literal (shown x)
  | .operator op => .operator op
  | .leftParen => .leftParen
  | .rightParen => .rightParen
  | .emptyGroup => .emptyGroup

theorem token_lexeme {t : Token} (ht : ∀ x, t = .number x → x.isFinite = true) :
    t.lexeme.token = t := by
  cases t with
  | number x => exact congrArg Token.number (Number.value_shown (ht x rfl))
  | _ => rfl

theorem text_lexeme {t : Token} (ht : ∀ x, t = .number x → x.isFinite = true) :
    t.text.toList = t.lexeme.text := by
  cases t with
  | number x =>
      rw [Token.text, Number.text_eq_shown (ht x rfl), String.toList_ofList]
      rfl
  | operator op => cases op <;> rfl
  | _ => rfl

theorem exists_text_lexeme (t : Token) : ∃ c tail, t.lexeme.text = c :: tail ∧ c ≠ '.' ∧
    (c.isDigit = true → ∃ x, t = .number x ∧ isNegative x = false) ∧ (c = ')' → t = .rightParen) := by
  cases t with
  | number x =>
      obtain ⟨c, tail, hc, hdigits⟩ := (Number.wellFormed_shown x).digits_eq_cons
      rw [lexeme, Lexeme.text, Literal.text_eq, hdigits, Number.negative_shown]
      cases hneg : isNegative x with
      | true => exact ⟨'-', c :: tail, rfl, by decide, fun h => absurd h (by decide),
          fun h => absurd h (by decide)⟩
      | false =>
          have hne {d : Char} (hd : d.isDigit = false) : c ≠ d := by
            rintro rfl
            rw [hc] at hd
            cases hd
          exact ⟨c, tail, rfl, hne (by decide), fun _ => ⟨x, rfl, hneg⟩,
            fun h => (hne (by decide) h).elim⟩
  | operator op =>
      refine ⟨op.symbol, [], rfl, op.symbol_ne_point, ?_, fun h => (op.symbol_ne_paren.2 h).elim⟩
      simp
  | leftParen => exact ⟨'(', [], rfl, by decide, fun h => absurd h (by decide),
      fun h => absurd h (by decide)⟩
  | rightParen => exact ⟨')', [], rfl, by decide, fun h => absurd h (by decide), fun _ => rfl⟩
  | emptyGroup => exact ⟨'(', [')'], rfl, by decide, fun h => absurd h (by decide),
      fun h => absurd h (by decide)⟩

theorem Readable.fits {before behind : List Token} {t : Token}
    (h : Readable (before ++ t :: behind)) :
    t.lexeme.Fits (signAllowed before.reverse) (Lexeme.texts (behind.map lexeme)) := by
  have hhead {c : Char} (hc : c ∈ (Lexeme.texts (behind.map lexeme)).head?) :
      ∃ u rest, behind = u :: rest ∧ c ≠ '.' ∧
        (c.isDigit = true → ∃ x, u = .number x ∧ isNegative x = false) ∧
        (c = ')' → u = .rightParen) := by
    cases behind with
    | nil => cases hc
    | cons u rest =>
        obtain ⟨d, tail, htext, hpoint, hdigit, hparen⟩ := u.exists_text_lexeme
        rw [List.map_cons, Lexeme.texts_cons, htext] at hc
        cases hc
        exact ⟨u, rest, rfl, hpoint, hdigit, hparen⟩
  cases t with
  | number x =>
      refine ⟨Number.wellFormed_shown x, fun hneg => ?_, fun c hc => ?_⟩
      · rw [Number.negative_shown] at hneg
        exact signAllowed_reverse_iff.mpr (h.sign_position before x behind rfl hneg)
      · obtain ⟨u, rest, rfl, hpoint, hdigit, -⟩ := hhead hc
        refine ⟨?_, fun _ => hpoint⟩
        rw [← Bool.not_eq_true]
        intro hc
        obtain ⟨y, rfl, -⟩ := hdigit hc
        exact h.numbers_apart before x y rest rfl
  | operator op =>
      rintro rfl hsigned c hc
      obtain ⟨u, rest, rfl, -, hdigit, -⟩ := hhead hc
      rw [← Bool.not_eq_true]
      intro hc
      obtain ⟨y, rfl, hy⟩ := hdigit hc
      have hglued := h.sign_glued before y rest rfl (signAllowed_reverse_iff.mp hsigned)
      rw [hy] at hglued
      cases hglued
  | leftParen =>
      rintro c hc rfl
      obtain ⟨u, rest, rfl, -, -, hparen⟩ := hhead hc
      rw [hparen rfl] at h
      exact h.group_filled before rest rfl
  | rightParen => trivial
  | emptyGroup => trivial

theorem Readable.chain {before behind : List Token} (h : Readable (before ++ behind)) :
    Lexeme.Chain (signAllowed before.reverse) (behind.map lexeme) := by
  induction behind generalizing before with
  | nil => trivial
  | cons t behind ih =>
      refine ⟨h.fits, ?_⟩
      have hchain : Lexeme.Chain (signAllowed (before ++ [t]).reverse) (behind.map lexeme) :=
        ih (by simpa using h)
      rw [List.reverse_append, List.reverse_singleton, List.singleton_append,
        signAllowed_cons] at hchain
      cases t <;> exact hchain

theorem filter_intercalate {α : Type} {p : α → Bool} {sep : List α} (hsep : sep.filter p = [])
    (ls : List (List α)) : (sep.intercalate ls).filter p = ls.flatMap (List.filter p) := by
  induction ls with
  | nil => rfl
  | cons l ls ih =>
      cases ls with
      | nil => simp
      | cons l' ls =>
          rw [List.intercalate_cons_cons, List.filter_append, List.filter_append, hsep,
            List.append_nil, ih]
          rfl

theorem readable_singleton (t : Token) : Readable [t] := by
  have hne {before behind : List Token} {a b : Token} : [t] ≠ before ++ a :: b :: behind := by
    intro h
    have hlength := congrArg List.length h
    simp only [List.length_cons, List.length_nil, List.length_append] at hlength
    omega
  refine ⟨fun _ _ _ _ => hne, fun before x behind h _ => ?_, fun _ _ => hne,
    fun _ _ _ h _ => (hne h).elim⟩
  obtain ⟨rfl, -⟩ | ⟨-, hnil⟩ := List.singleton_eq_append_iff.mp h
  · exact .inl rfl
  · cases hnil

theorem isBlank_eq_false_of_mem_text {t : Token} (ht : ∀ x, t = .number x → x.isFinite = true)
    {c : Char} (hc : c ∈ t.text.toList) : Text.isBlank c = false := by
  rw [text_lexeme ht] at hc
  have hreadable : Readable ([] ++ t :: []) := readable_singleton t
  exact isBlank_eq_false_of_isAllowed (hreadable.fits.all_isAllowed c hc)

theorem toList_strip_format (tokens : List Token) : (Text.strip (format tokens)).toList =
    tokens.flatMap fun t => t.text.toList.filter fun c => !Text.isBlank c := by
  have hspace : " ".toList.filter (fun c => !Text.isBlank c) = [] := by decide
  rw [Text.toList_strip, format, String.toList_intercalate, filter_intercalate hspace,
    List.flatMap_map, List.flatMap_map]

theorem toList_strip_format_of_finite {tokens : List Token}
    (h : ∀ x, .number x ∈ tokens → x.isFinite = true) :
    (Text.strip (format tokens)).toList = Lexeme.texts (tokens.map lexeme) := by
  rw [toList_strip_format, Lexeme.texts, List.flatMap_map]
  refine List.flatMap_congr fun t ht => ?_
  have hfinite (x : Float) (hx : t = .number x) : x.isFinite = true := h x (hx ▸ ht)
  rw [← text_lexeme hfinite, List.filter_eq_self]
  intro c hc
  rw [isBlank_eq_false_of_mem_text hfinite hc]
  rfl

/-- The words for the numbers that are not finite are written with letters. -/
theorem isFinite_of_scan {tokens tokens' : List Token}
    (h : scan (Text.strip (format tokens)) = .ok tokens') {x : Float} (hx : .number x ∈ tokens) :
    x.isFinite = true := by
  have hvalid : ∀ c ∈ (Text.strip (format tokens)).toList, isAllowed c = true :=
    List.all_eq_true.mp (isValid_of_scan h)
  rw [← Bool.not_eq_false]
  intro hinfinite
  obtain ⟨c, hc, hblank, hletter⟩ : ∃ c ∈ (Number.text x).toList,
      (!Text.isBlank c) = true ∧ isAllowed c = false := by
    rw [Number.text_of_not_isFinite hinfinite]
    split_ifs
    · exact ⟨'N', by decide⟩
    · exact ⟨'i', by decide⟩
    · exact ⟨'i', by decide⟩
  have hallowed : isAllowed c = true := by
    apply hvalid
    rw [toList_strip_format, List.mem_flatMap]
    exact ⟨_, hx, List.mem_filter.mpr ⟨hc, hblank⟩⟩
  rw [hletter] at hallowed
  cases hallowed

theorem readable_of_scan {s : String} {tokens : List Token} (h : scan s = .ok tokens) :
    Readable tokens := by
  obtain ⟨xs, hxs, -, rfl⟩ := scan_eq_ok_iff.mp h
  exact hxs.readable

/-- Finite and readable tokens are read from what they are shown as. -/
theorem Readable.scan_strip_format {tokens : List Token} (h : Readable tokens)
    (hfinite : ∀ x, .number x ∈ tokens → x.isFinite = true) :
    scan (Text.strip (format tokens)) = .ok tokens := by
  have hreadable : Readable ([] ++ tokens) := h
  refine scan_eq_ok_iff.mpr
    ⟨tokens.map lexeme, hreadable.chain, toList_strip_format_of_finite hfinite, ?_⟩
  rw [List.map_map]
  symm
  rw [List.map_congr_left (g := id) fun t ht => ?_, List.map_id]
  exact token_lexeme fun x hx => hfinite x (hx ▸ ht)

theorem text_number_ne {x : Float} {s : String} (hdigit : s.toList.any Char.isDigit = false)
    (hword : s ∉ ["NaN", "-inf", "inf"]) : Number.text x ≠ s := by
  rintro rfl
  rw [Number.any_isDigit_text] at hdigit
  rw [Number.text_of_not_isFinite hdigit] at hword
  split_ifs at hword <;> simp at hword

theorem eq_of_text_eq {t u : Token} (ht : ∀ x, t = .number x → ¬ x.isNaN = true)
    (h : u.text = t.text) : u = t := by
  have hoperator (op : Operator) (x : Float) : Number.text x ≠ op.symbol.toString :=
    text_number_ne (by cases op <;> decide) (by cases op <;> decide)
  cases t with
  | number x =>
      cases u with
      | number y => exact congrArg Token.number (Number.text_injective (ht x rfl) h)
      | operator op => exact (hoperator op x h.symm).elim
      | _ => exact (text_number_ne (by decide) (by decide) h.symm).elim
  | operator op =>
      cases u with
      | number y => exact (hoperator op y h).elim
      | operator op' =>
          revert h
          cases op <;> cases op' <;> decide
      | _ =>
          revert h
          cases op <;> decide
  | _ =>
      cases u with
      | number y => exact (text_number_ne (by decide) (by decide) h).elim
      | operator op =>
          revert h
          cases op <;> decide
      | _ =>
          revert h
          decide

theorem text_ne_empty (t : Token) : t.text ≠ "" := by
  cases t with
  | number x => exact text_number_ne (by decide) (by decide)
  | operator op => cases op <;> decide
  | _ => decide

theorem space_not_mem_text (t : Token) : ' ' ∉ t.text.toList := by
  have hspace : Text.isBlank ' ' = true := by decide
  cases t with
  | number x =>
      cases hx : x.isFinite with
      | true =>
          intro hmem
          have hblank : Text.isBlank ' ' = false := by
            refine isBlank_eq_false_of_mem_text (t := .number x) ?_ hmem
            rintro _ ⟨⟩
            exact hx
          rw [hspace] at hblank
          cases hblank
      | false =>
          rw [text, Number.text_of_not_isFinite hx]
          split_ifs <;> decide
  | operator op => cases op <;> decide
  | _ => decide

theorem splitOn_format {tokens : List Token} (h : tokens ≠ []) :
    (format tokens).toList.splitOn ' ' = tokens.map fun t => t.text.toList := by
  have htexts : (format tokens).toList = [' '].intercalate (tokens.map fun t => t.text.toList) := by
    rw [format, String.toList_intercalate, List.map_map]
    rfl
  rw [htexts, List.splitOn_intercalate]
  · rintro _ hl
    obtain ⟨t, -, rfl⟩ := List.mem_map.mp hl
    exact t.space_not_mem_text
  · simpa using h

theorem format_ne_empty {tokens : List Token} (h : tokens ≠ []) : format tokens ≠ "" := by
  intro hempty
  have hsplit := splitOn_format h
  obtain ⟨t, behind, rfl⟩ := List.exists_cons_of_ne_nil h
  rw [hempty] at hsplit
  have htext : [] = t.text.toList := (List.cons.inj hsplit).1
  exact t.text_ne_empty (String.toList_inj.mp htext.symm)

theorem eq_of_map_text_eq {tokens tokens' : List Token}
    (h : ∀ x, .number x ∈ tokens → ¬ x.isNaN = true)
    (heq : (tokens'.map fun t => t.text.toList) = tokens.map fun t => t.text.toList) :
    tokens' = tokens := by
  induction tokens generalizing tokens' with
  | nil => exact List.map_eq_nil_iff.mp heq
  | cons t tokens ih =>
      obtain ⟨u, us, rfl, hu, hus⟩ := List.map_eq_cons_iff.mp heq
      have htail : us = tokens := ih (fun x hx => h x (List.mem_cons_of_mem _ hx)) hus
      have hhead : u = t :=
        eq_of_text_eq (fun x hx => h x (hx ▸ List.mem_cons_self)) (String.toList_inj.mp hu)
      rw [hhead, htail]

theorem format_injective {tokens tokens' : List Token}
    (h : ∀ x, .number x ∈ tokens → ¬ x.isNaN = true) (heq : format tokens' = format tokens) :
    tokens' = tokens := by
  obtain rfl | hne := eq_or_ne tokens []
  · by_contra hne'
    exact format_ne_empty hne' heq
  · obtain rfl | hne' := eq_or_ne tokens' []
    · exact (format_ne_empty hne heq.symm).elim
    · apply eq_of_map_text_eq h
      rw [← splitOn_format hne, ← splitOn_format hne', heq]

/-- Shown tokens are read as themselves exactly when their numbers are finite and they are
readable, all tokens that are read are readable, and the shown text tells tokens apart. -/
theorem scan_format (tokens : List Token) :
    (scan (Text.strip (format tokens)) = .ok tokens ↔
      (∀ x, .number x ∈ tokens → x.isFinite = true) ∧ Readable tokens) ∧
    (∀ s, scan s = .ok tokens → Readable tokens) ∧
    ((∀ x, .number x ∈ tokens → ¬ x.isNaN = true) →
      ∀ tokens', format tokens' = format tokens → tokens' = tokens) := by
  refine ⟨⟨fun h => ⟨fun x hx => isFinite_of_scan h hx, readable_of_scan h⟩, ?_⟩,
    fun s => readable_of_scan, fun h tokens' => format_injective h⟩
  rintro ⟨hfinite, hreadable⟩
  exact hreadable.scan_strip_format hfinite

/-- A negative number in parentheses, a minus sign that is an operator and a negative zero. -/
theorem scan_format_negative_zero :
    scan (Text.strip "( -0.5 ) - 2 * -0") = .ok [.leftParen, .number (-0.5), .rightParen,
      .operator .subtract, .number 2, .operator .multiply, .number (-0.0)] ∧
    Readable [.leftParen, .number (-0.5), .rightParen, .operator .subtract, .number 2,
      .operator .multiply, .number (-0.0)] ∧
    ∀ tokens', format tokens' = "( -0.5 ) - 2 * -0" → tokens' = [.leftParen, .number (-0.5),
      .rightParen, .operator .subtract, .number 2, .operator .multiply, .number (-0.0)] := by
  obtain ⟨hround, hread, htold⟩ := scan_format [.leftParen, .number (-0.5), .rightParen,
    .operator .subtract, .number 2, .operator .multiply, .number (-0.0)]
  have hformat : format [.leftParen, .number (-0.5), .rightParen, .operator .subtract, .number 2,
      .operator .multiply, .number (-0.0)] = "( -0.5 ) - 2 * -0" := by decide +kernel
  have hscan : scan (Text.strip "( -0.5 ) - 2 * -0") = .ok [.leftParen, .number (-0.5), .rightParen,
      .operator .subtract, .number 2, .operator .multiply, .number (-0.0)] := by decide +kernel
  rw [hformat] at hround htold
  refine ⟨hscan, (hround.mp hscan).2, htold ?_⟩
  simp only [List.mem_cons, List.not_mem_nil, or_false, reduceCtorEq, false_or, Token.number.injEq]
  rintro _ (rfl | rfl | rfl) <;> decide +kernel

end Token

end Calculator
