import Calculator.Proofs.Grammar

/-!
# Writing a tree as an expression

A tree is written with its operators between their sides. The left side of an
operator has to be put into parentheses when it binds less tightly than the
operator, and the right side also when it binds as tightly; any part may be put
into further parentheses, and blanks may stand anywhere. However a tree is
written, its expression is evaluated to the value of the tree, and it is never
malformed.
-/

namespace Calculator

open Number (Literal)

namespace Text

/-- The second text is the first one with blanks inserted. -/
inductive Spaced : List Char → List Char → Prop
  | nil : Spaced [] []
  | keep (c : Char) {plain spaced : List Char} : Spaced plain spaced →
      Spaced (c :: plain) (c :: spaced)
  | blank {b : Char} {plain spaced : List Char} : isBlank b = true → Spaced plain spaced →
      Spaced plain (b :: spaced)

theorem Spaced.filter_eq {plain spaced : List Char} (h : Spaced plain spaced) :
    spaced.filter (fun c => !isBlank c) = plain.filter (fun c => !isBlank c) := by
  induction h with
  | nil => rfl
  | keep c _ ih => simp only [List.filter_cons, ih]
  | blank hb _ ih => simp [hb, ih]

end Text

namespace Tree

/-- Parentheses around a text, where they are needed. -/
def guarded (needed : Bool) (text : List Char) : List Char :=
  if needed then '(' :: (text ++ [')']) else text

/-- The ways to write a tree. -/
inductive Rendering : Tree Literal → List Char → Prop
  | leaf {l : Literal} : l.WellFormed → Rendering (.leaf l) l.text
  | node {op : Operator} {l r : Tree Literal} {a b : List Char} : Rendering l a → Rendering r b →
      Rendering (.node op l r)
        (guarded (l.precedence < op.precedence) a ++
          op.symbol :: guarded (r.precedence ≤ op.precedence) b)
  | group {t : Tree Literal} {text : List Char} : Rendering t text →
      Rendering t ('(' :: (text ++ [')']))

end Tree

theorem Derives.mono {p q : Symbol} {s : List Char} {t : Tree Literal} (h : Derives q s t)
    (hpq : p.precedence ≤ q.precedence) : Derives p s t := by
  cases p <;> cases q <;> first
    | exact h
    | exact .term h
    | exact .factor h
    | exact .term (.factor h)
    | exact absurd hpq (by decide)

theorem Symbol.precedence_expression_le (p : Symbol) :
    Symbol.expression.precedence ≤ p.precedence := by
  cases p <;> decide

theorem Symbol.precedence_le_factor (p : Symbol) : p.precedence ≤ Symbol.factor.precedence := by
  cases p <;> decide

/-- A text from which a tree can be derived as tightly as its own operator binds may
stand wherever the tree may, in parentheses if needed. -/
theorem Derives.guarded {p q : Symbol} {s : List Char} {t : Tree Literal} (h : Derives q s t)
    {needed : Bool} (hneeded : needed = false → p.precedence ≤ q.precedence) :
    Derives p (Tree.guarded needed s) t := by
  cases needed with
  | true =>
      have hgroup : Derives .factor _ _ := .group (h.mono q.precedence_expression_le)
      exact hgroup.mono p.precedence_le_factor
  | false => exact h.mono (hneeded rfl)

/-- The symbol whose texts bind as tightly as a tree. -/
def Tree.symbol : Tree Literal → Symbol
  | .leaf _ => .factor
  | .node .add _ _ => .expression
  | .node .subtract _ _ => .expression
  | .node .multiply _ _ => .term
  | .node .divide _ _ => .term

theorem Tree.precedence_symbol (t : Tree Literal) : t.symbol.precedence = t.precedence := by
  rcases t with _ | ⟨op, _, _⟩
  · rfl
  · cases op <;> rfl

theorem Tree.Rendering.derives {t : Tree Literal} {text : List Char} (h : t.Rendering text) :
    Derives t.symbol text t := by
  induction h with
  | leaf hl => exact .literal hl
  | @node op l r a b _ _ iha ihb =>
      have hleft {p : Symbol} (hp : p.precedence = op.precedence) :
          Derives p (guarded (l.precedence < op.precedence) a) l := by
        refine iha.guarded fun h => ?_
        rw [Tree.precedence_symbol, hp]
        simpa using h
      have hright {p : Symbol} (hp : p.precedence = op.precedence + 1) :
          Derives p (guarded (r.precedence ≤ op.precedence) b) r := by
        refine ihb.guarded fun h => ?_
        rw [Tree.precedence_symbol, hp]
        exact Nat.succ_le_of_lt (by simpa using h)
      cases op with
      | add => exact .sum (.inl rfl) (hleft rfl) (hright rfl)
      | subtract => exact .sum (.inr rfl) (hleft rfl) (hright rfl)
      | multiply => exact .product (.inl rfl) (hleft rfl) (hright rfl)
      | divide => exact .product (.inr rfl) (hleft rfl) (hright rfl)
  | group _ ih =>
      have hgroup : Derives .factor _ _ := .group (ih.mono (Symbol.precedence_expression_le _))
      exact hgroup.mono (Symbol.precedence_le_factor _)

theorem isBlank_eq_false_of_isAllowed {c : Char} (h : isAllowed c = true) :
    Text.isBlank c = false := by
  simp only [isAllowed, Bool.or_eq_true, beq_iff_eq] at h
  rcases h with ((((((hdigit | rfl) | rfl) | rfl) | rfl) | rfl) | rfl) | rfl
  · simp only [Char.isDigit, Bool.and_eq_true, decide_eq_true_eq, ge_iff_le] at hdigit
    have hlow : 0x30 ≤ c.toNat := UInt32.le_iff_toNat_le.mp hdigit.1
    have hhigh : c.toNat ≤ 0x39 := UInt32.le_iff_toNat_le.mp hdigit.2
    simp [Text.isBlank]
    omega
  all_goals decide

theorem Derives.isBlank_eq_false {p : Symbol} {text : List Char} {t : Tree Literal}
    (h : Derives p text t) : ∀ c ∈ text, Text.isBlank c = false := by
  obtain ⟨tokens, hscans, -⟩ := h.exists_tokens
  have hscan : Token.scan (String.ofList text) = .ok tokens := by
    apply Scans.scan_eq
    simpa using hscans
  intro c hc
  apply isBlank_eq_false_of_isAllowed
  apply List.all_eq_true.mp (isValid_of_scan hscan) c
  simpa using hc

/-- Removing the blanks leaves the text that they were inserted into. -/
theorem Derives.toList_strip {p : Symbol} {text : List Char} {t : Tree Literal} {s : String}
    (h : Derives p text t) (hs : Text.Spaced text s.toList) : (Text.strip s).toList = text := by
  rw [Text.toList_strip, hs.filter_eq]
  refine List.filter_eq_self.mpr fun c hc => ?_
  rw [h.isBlank_eq_false c hc]
  rfl

end Calculator
