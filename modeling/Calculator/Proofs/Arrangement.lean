import Mathlib.Data.List.Chain
import Calculator.Proofs.Grammar

/-!
# Operands side by side

The conversion looks at parentheses only, and the calculation counts operands
only, so neither sees where an operator stands. An operand that directly follows
another one can make up for an operator that lacks a side: the text `1(+2)` is
evaluated to three. This is the only way out of the grammar. A text that is
evaluated to a number, and in which no operand is directly followed by another,
can be derived, and a text that can be derived has no such operands.
-/

namespace Calculator

open Number (Literal)

/-- The first character does not end an operand where the second one begins another. -/
def Apart (a b : Char) : Prop :=
  ¬((a.isDigit = true ∨ a = ')') ∧ b = '(') ∧ ¬(a = ')' ∧ b.isDigit = true)

/-- Nowhere does an operand directly follow another. -/
def Separated (text : List Char) : Prop :=
  text.IsChain Apart

theorem Apart.of_left {a : Char} (hdigit : a.isDigit = false) (hclose : a ≠ ')') (b : Char) :
    Apart a b := by
  simp [Apart, hdigit, hclose]

theorem Apart.of_right {b : Char} (hdigit : b.isDigit = false) (hopen : b ≠ '(') (a : Char) :
    Apart a b := by
  simp [Apart, hdigit, hopen]

theorem separated_of_no_parens {text : List Char} (h : ∀ c ∈ text, c ≠ '(' ∧ c ≠ ')') :
    Separated text := by
  induction text with
  | nil => exact .nil
  | cons c text ih =>
      refine List.isChain_cons.mpr ⟨?_, ih fun d hd => h d (by simp [hd])⟩
      intro d hd
      have hd' : d ≠ '(' := (h d (List.mem_cons_of_mem _ (List.mem_of_mem_head? hd))).1
      have hc : c ≠ ')' := (h c (by simp)).2
      simp [Apart, hd', hc]

theorem Separated.operation {a b : List Char} (ha : Separated a) (hb : Separated b)
    (op : Operator) : Separated (a ++ op.symbol :: b) := by
  have hbehind : Separated (op.symbol :: b) :=
    List.isChain_cons.mpr
      ⟨fun c _ => .of_left op.isDigit_symbol op.symbol_ne_paren.2 c, hb⟩
  refine ha.append hbehind ?_
  intro c _ d hd
  cases hd
  exact .of_right op.isDigit_symbol op.symbol_ne_paren.1 c

theorem Separated.group {s : List Char} (h : Separated s) : Separated ('(' :: (s ++ [')'])) := by
  refine List.isChain_cons.mpr ⟨fun c _ => .of_left (by decide) (by decide) c, ?_⟩
  refine h.append (.singleton _) ?_
  intro c _ d hd
  cases hd
  exact .of_right (by decide) (by decide) c

theorem Derives.separated {p : Symbol} {s : List Char} {t : Tree Literal} (h : Derives p s t) :
    Separated s := by
  induction h with
  | term _ ih => exact ih
  | sum _ _ _ iha ihb => exact iha.operation ihb _
  | factor _ ih => exact ih
  | product _ _ _ iha ihb => exact iha.operation ihb _
  | literal hl => exact separated_of_no_parens hl.no_parens
  | group _ ih => exact ih.group

namespace Token

/-- No operand follows another, in a list where one is or is not awaited. -/
def Separated (awaited : Bool) : List Token → Prop
  | [] => True
  | .number _ :: rest => awaited = true ∧ Separated false rest
  | .leftParen :: rest => awaited = true ∧ Separated true rest
  | .operator _ :: rest => Separated true rest
  | .rightParen :: rest => Separated false rest
  | .emptyGroup :: _ => False

/-- Operands and operators take turns. -/
def Arranged : Bool → List Token → Prop
  | awaited, [] => awaited = false
  | awaited, .number _ :: rest => awaited = true ∧ Arranged false rest
  | awaited, .leftParen :: rest => awaited = true ∧ Arranged true rest
  | awaited, .operator _ :: rest => awaited = false ∧ Arranged true rest
  | awaited, .rightParen :: rest => awaited = false ∧ Arranged false rest
  | _, .emptyGroup :: _ => False

/-- An operator without one of its sides is not made up for where no operand follows
another: the numbers are then too few. -/
theorem excess_le_of_separated {awaited : Bool} {tokens : List Token}
    (h : Separated awaited tokens) :
    excess tokens ≤ awaited.toNat ∧ (excess tokens = awaited.toNat → Arranged awaited tokens) := by
  induction tokens generalizing awaited with
  | nil => cases awaited <;> simp [Arranged]
  | cons t rest ih =>
      cases t with
      | number value =>
          obtain ⟨rfl, hrest⟩ := h
          obtain ⟨hle, heq⟩ := ih hrest
          simp only [excess_cons, rise, Bool.toNat_false, Bool.toNat_true] at hle heq ⊢
          exact ⟨by omega, fun he => ⟨rfl, heq (by omega)⟩⟩
      | leftParen =>
          obtain ⟨rfl, hrest⟩ := h
          obtain ⟨hle, heq⟩ := ih hrest
          simp only [excess_cons, rise, Bool.toNat_true] at hle heq ⊢
          exact ⟨by omega, fun he => ⟨rfl, heq (by omega)⟩⟩
      | operator op =>
          obtain ⟨hle, heq⟩ := ih h
          simp only [excess_cons, rise, Bool.toNat_true] at hle heq ⊢
          cases awaited with
          | false => exact ⟨by simp; omega, fun he => ⟨rfl, heq (by simp at he; omega)⟩⟩
          | true => exact ⟨by simp; omega, fun he => by simp at he; omega⟩
      | rightParen =>
          obtain ⟨hle, heq⟩ := ih h
          simp only [excess_cons, rise, Bool.toNat_false] at hle heq ⊢
          cases awaited with
          | false => exact ⟨by simp; omega, fun he => ⟨rfl, heq (by simp at he; omega)⟩⟩
          | true => exact ⟨by simp; omega, fun he => by simp at he; omega⟩
      | emptyGroup => exact h.elim

end Token

namespace Lexeme

/-- The tokens of a separated text are separated. A number directly behind a number
would go on with its digits, and so cannot be one. -/
theorem Chain.separated {awaited : Bool} {xs : List Lexeme} (h : Chain awaited xs)
    (hsep : Separated (texts xs)) (hempty : .emptyGroup ∉ xs.map token)
    (hhead : awaited = false → ∀ c ∈ (texts xs).head?, c.isDigit = false ∧ c ≠ '(') :
    Token.Separated awaited (xs.map token) := by
  induction xs generalizing awaited with
  | nil => trivial
  | cons x xs ih =>
      obtain ⟨hx, hxs⟩ := h
      rw [texts_cons] at hsep hhead
      obtain ⟨-, hrest, hjoin⟩ := List.isChain_append.mp hsep
      have hempty' : .emptyGroup ∉ xs.map token := fun he => hempty (by simp [he])
      cases x with
      | literal l =>
          obtain ⟨hl, hsign, hstop⟩ := hx
          have hawaited : awaited = true := by
            cases awaited with
            | true => rfl
            | false =>
                obtain ⟨c, tail, hc, hdigits⟩ := hl.digits_eq_cons
                have hneg : l.negative = false := by simpa using hsign
                have hfirst := (hhead rfl c (by simp [text, Literal.text_eq, hneg, hdigits])).1
                simp [hc] at hfirst
          refine ⟨hawaited, ih hxs hrest hempty' fun _ c hc => ⟨(hstop c hc).1, ?_⟩⟩
          obtain ⟨d, hd, hdigit⟩ := hl.getLast?_text
          rintro rfl
          exact (hjoin d hd '(' hc).1 ⟨.inl hdigit, rfl⟩
      | operator op => exact ih hxs hrest hempty' (fun h => Bool.noConfusion h)
      | leftParen =>
          have hawaited : awaited = true := by
            cases awaited with
            | true => rfl
            | false => exact ((hhead rfl '(' rfl).2 rfl).elim
          exact ⟨hawaited, ih hxs hrest hempty' (fun h => Bool.noConfusion h)⟩
      | rightParen =>
          refine ih hxs hrest hempty' fun _ c hc => ?_
          have happart := hjoin ')' rfl c hc
          constructor
          · simpa using fun hdigit => happart.2 ⟨rfl, hdigit⟩
          · rintro rfl
            exact happart.1 ⟨.inr rfl, rfl⟩
      | emptyGroup => exact (hempty (by simp [token])).elim

end Lexeme

/-- A text that a term completes to an expression. -/
def Frame (before : List Char) : Prop :=
  ∀ (s : List Char) (t : Tree Literal), Derives .term s t →
    ∃ t', Derives .expression (before ++ s) t'

/-- A text that ends in an operand, as it may go on. -/
def EndsOperand (text : List Char) : Prop :=
  ∃ before s t, text = before ++ s ∧ Frame before ∧ Derives .term s t

/-- A text that a factor may follow. -/
def AwaitsOperand (text : List Char) : Prop :=
  ∀ (s : List Char) (t : Tree Literal), Derives .factor s t → EndsOperand (text ++ s)

theorem awaitsOperand_nil : AwaitsOperand [] := by
  intro s t hs
  exact ⟨[], s, t, rfl, fun s' t' hs' => ⟨t', .term hs'⟩, .factor hs⟩

theorem EndsOperand.derives {text : List Char} (h : EndsOperand text) :
    ∃ t, Derives .expression text t := by
  obtain ⟨before, s, t, rfl, hframe, hs⟩ := h
  exact hframe s t hs

theorem EndsOperand.operator {text : List Char} (h : EndsOperand text) (op : Operator) :
    AwaitsOperand (text ++ [op.symbol]) := by
  have hsum (hop : op = .add ∨ op = .subtract) : AwaitsOperand (text ++ [op.symbol]) := by
    obtain ⟨l, hl⟩ := h.derives
    intro s t hs
    refine ⟨text ++ [op.symbol], s, t, rfl, fun s' r hr => ⟨.node op l r, ?_⟩, .factor hs⟩
    simpa using Derives.sum hop hl hr
  have hproduct (hop : op = .multiply ∨ op = .divide) : AwaitsOperand (text ++ [op.symbol]) := by
    obtain ⟨before, a, l, rfl, hframe, hl⟩ := h
    intro s r hs
    exact ⟨before, a ++ op.symbol :: s, .node op l r, by simp, hframe, .product hop hl hs⟩
  cases op with
  | add => exact hsum (.inl rfl)
  | subtract => exact hsum (.inr rfl)
  | multiply => exact hproduct (.inl rfl)
  | divide => exact hproduct (.inr rfl)

/-- The text up to here: what stands before each open parenthesis, innermost first, and
what stands behind the last one. -/
def openText : List (List Char) → List Char → List Char
  | [], text => text
  | before :: outer, text => openText outer (before ++ '(' :: text)

theorem openText_append (outer : List (List Char)) (text s : List Char) :
    openText outer (text ++ s) = openText outer text ++ s := by
  induction outer generalizing text with
  | nil => rfl
  | cons before outer ih =>
      rw [openText, openText, ← ih]
      simp

/-- Lexemes in the right order complete what stands before them to an expression. -/
theorem exists_derives {awaited signed : Bool} {outer : List (List Char)} {text : List Char}
    {xs : List Lexeme} (houter : ∀ before ∈ outer, AwaitsOperand before)
    (hchain : Lexeme.Chain signed xs) (hnested : Rpn.Nested outer.length (xs.map Lexeme.token))
    (harranged : Token.Arranged awaited (xs.map Lexeme.token))
    (htext : if awaited then AwaitsOperand text else EndsOperand text) :
    ∃ t, Derives .expression (openText outer text ++ Lexeme.texts xs) t := by
  induction xs generalizing awaited signed outer text with
  | nil =>
      cases outer with
      | nil =>
          cases harranged
          simpa [openText] using EndsOperand.derives (by simpa using htext)
      | cons before outer => simp [Rpn.Nested] at hnested
  | cons x xs ih =>
      obtain ⟨hx, hxs⟩ := hchain
      have hjoin : openText outer text ++ Lexeme.texts (x :: xs) =
          openText outer (text ++ x.text) ++ Lexeme.texts xs := by
        rw [Lexeme.texts_cons, openText_append, List.append_assoc]
      rw [hjoin]
      cases x with
      | literal l =>
          obtain ⟨rfl, harranged⟩ := harranged
          exact ih houter hxs hnested harranged (htext _ _ (.literal hx.1))
      | operator op =>
          obtain ⟨rfl, harranged⟩ := harranged
          exact ih houter hxs hnested harranged (EndsOperand.operator htext op)
      | leftParen =>
          obtain ⟨rfl, harranged⟩ := harranged
          have houter' : ∀ before ∈ text :: outer, AwaitsOperand before := by
            intro before hbefore
            rcases List.mem_cons.mp hbefore with rfl | hbefore
            · exact htext
            · exact houter before hbefore
          have hgoal := ih houter' hxs hnested harranged awaitsOperand_nil
          exact hgoal
      | rightParen =>
          obtain ⟨rfl, harranged⟩ := harranged
          cases outer with
          | nil => exact (Nat.lt_irrefl 0 hnested.1).elim
          | cons before outer =>
              obtain ⟨t, ht⟩ := EndsOperand.derives htext
              have hbefore := houter before (by simp) _ _ (.group ht)
              have hgoal := ih (fun b hb => houter b (by simp [hb])) hxs hnested.2 harranged hbefore
              simpa [openText, Lexeme.text] using hgoal
      | emptyGroup => exact hnested.elim

theorem Rpn.emptyGroup_not_mem_of_nested {depth : Nat} {tokens : List Token}
    (h : Nested depth tokens) : .emptyGroup ∉ tokens := by
  induction tokens generalizing depth with
  | nil => simp
  | cons t rest ih =>
      cases t with
      | number value => simpa using ih h
      | operator op => simpa using ih h
      | leftParen => simpa using ih h
      | rightParen => simpa using ih h.2
      | emptyGroup => exact h.elim

theorem exists_derives_of_evaluate {s : String} {v : Float} (h : evaluate s = .ok v)
    (hsep : Separated (Text.strip s).toList) :
    ∃ t, Derives .expression (Text.strip s).toList t := by
  obtain ⟨tokens, rpn, hscan, hrpn, hv⟩ := evaluate_eq_ok_iff.mp h
  obtain ⟨xs, hchain, htext, rfl⟩ := Token.scan_eq_ok_iff.mp hscan
  have hnested := (Rpn.exists_ofTokens_iff _).mp ⟨rpn, hrpn⟩
  have hempty := Rpn.emptyGroup_not_mem_of_nested hnested
  rw [htext] at hsep ⊢
  have htokens := hchain.separated hsep hempty (by simp)
  have harranged : Token.Arranged true (xs.map Lexeme.token) :=
    (Token.excess_le_of_separated htokens).2 (Rpn.excess_of_value hrpn hv)
  have houter : ∀ before ∈ ([] : List (List Char)), AwaitsOperand before := by simp
  simpa [openText] using exists_derives houter hchain hnested harranged awaitsOperand_nil

/-- An evaluation gives the value of a tree that the grammar finds in the text exactly
when it gives a value and no operand of the text directly follows another. -/
theorem evaluate_eq_ok_and_separated_iff (s : String) (v : Float) :
    evaluate s = .ok v ∧ Separated (Text.strip s).toList ↔
      ∃ t, Derives .expression (Text.strip s).toList t ∧
        (t.map Literal.value).value = some v := by
  constructor
  · rintro ⟨h, hsep⟩
    obtain ⟨t, ht⟩ := exists_derives_of_evaluate h hsep
    exact ⟨t, ht, Tree.outcome_eq_ok_iff.mp (ht.evaluate.symm.trans h)⟩
  · rintro ⟨t, ht, hv⟩
    exact ⟨ht.evaluate.trans (Tree.outcome_eq_ok_iff.mpr hv), ht.separated⟩

/-- The number before the parenthesis makes up for the left side that the operator lacks. -/
theorem evaluate_number_before_group :
    evaluate "1(+2)" = .ok 3 ∧ ¬ ∃ t, Derives .expression (Text.strip "1(+2)").toList t := by
  refine ⟨by decide +kernel, ?_⟩
  rintro ⟨t, ht⟩
  have htext : (Text.strip "1(+2)").toList = ['1', '(', '+', '2', ')'] := by decide +kernel
  have hsep := ht.separated
  rw [htext] at hsep
  exact (List.IsChain.rel_head? hsep rfl).1 ⟨.inl (by decide), rfl⟩

end Calculator
