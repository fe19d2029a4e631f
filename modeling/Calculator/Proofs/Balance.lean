import Calculator.Proofs.Conversion

/-!
# Balanced parentheses

A list is balanced when it never closes more than is open and closes everything in
the end, which is told by counting alone. Only the opening and the closing elements
count, so all others may be put in or left out. A conversion succeeds on exactly the
lists of tokens whose parentheses are balanced and that have no empty group.
-/

namespace Calculator

/-- When `depth` are open at the start, no beginning of the list closes more than are open
by then, and the whole list closes all that are open. -/
structure Balanced {α : Type} [DecidableEq α] (left right : α) (depth : Nat) (list : List α) :
    Prop where
  prefix_le : ∀ before, before <+: list → before.count right ≤ before.count left + depth
  count_eq : list.count right = list.count left + depth

namespace Balanced
variable {α : Type} [DecidableEq α] {left right x : α} {depth : Nat} {list front : List α}

theorem nil_iff : Balanced left right depth [] ↔ depth = 0 := by
  constructor
  · intro h
    have hcount := h.count_eq
    simp only [List.count_nil] at hcount
    omega
  · intro h
    rw [h]
    exact ⟨fun before hbefore => by simp [List.prefix_nil.mp hbefore], rfl⟩

theorem iff_take : Balanced left right depth list ↔
    (∀ n ≤ list.length, (list.take n).count right ≤ (list.take n).count left + depth) ∧
      list.count right = list.count left + depth := by
  constructor
  · intro h
    exact ⟨fun n _ => h.prefix_le _ (List.take_prefix n list), h.count_eq⟩
  · intro h
    refine ⟨fun before hbefore => ?_, h.2⟩
    rw [List.prefix_iff_eq_take.mp hbefore]
    exact h.1 _ hbefore.length_le

instance : Decidable (Balanced left right depth list) :=
  decidable_of_iff' _ iff_take

theorem cons_iff_behind : Balanced left right depth (x :: list) ↔
    (∀ before, before <+: list →
      (x :: before).count right ≤ (x :: before).count left + depth) ∧
    (x :: list).count right = (x :: list).count left + depth := by
  constructor
  · intro h
    exact ⟨fun before hbefore => h.prefix_le _ (List.cons_prefix_cons.mpr ⟨rfl, hbefore⟩),
      h.count_eq⟩
  · intro h
    refine ⟨fun before hbefore => ?_, h.2⟩
    cases before with
    | nil => simp
    | cons y before =>
        obtain ⟨hy, hbefore⟩ := List.cons_prefix_cons.mp hbefore
        rw [hy]
        exact h.1 before hbefore

theorem left_cons_iff (hne : left ≠ right) :
    Balanced left right depth (left :: list) ↔ Balanced left right (depth + 1) list := by
  simp only [cons_iff_behind, List.count_cons_self, List.count_cons_of_ne hne]
  constructor
  · intro h
    refine ⟨fun before hbefore => ?_, by omega⟩
    have hle := h.1 before hbefore
    omega
  · intro h
    refine ⟨fun before hbefore => ?_, ?_⟩
    · have hle := h.prefix_le before hbefore
      omega
    · have hcount := h.count_eq
      omega

theorem right_cons_iff (hne : left ≠ right) :
    Balanced left right depth (right :: list) ↔ 0 < depth ∧ Balanced left right (depth - 1) list := by
  simp only [cons_iff_behind, List.count_cons_self, List.count_cons_of_ne hne.symm]
  constructor
  · intro h
    have hopen := h.1 [] List.nil_prefix
    simp only [List.count_nil] at hopen
    refine ⟨by omega, fun before hbefore => ?_, by omega⟩
    have hle := h.1 before hbefore
    omega
  · intro h
    refine ⟨fun before hbefore => ?_, ?_⟩
    · have hle := h.2.prefix_le before hbefore
      omega
    · have hcount := h.2.count_eq
      omega

theorem cons_iff (hleft : x ≠ left) (hright : x ≠ right) :
    Balanced left right depth (x :: list) ↔ Balanced left right depth list := by
  simp only [cons_iff_behind, List.count_cons_of_ne hleft, List.count_cons_of_ne hright]
  exact ⟨fun h => ⟨h.1, h.2⟩, fun h => ⟨h.prefix_le, h.count_eq⟩⟩

theorem append_iff (h : ∀ x ∈ front, x ≠ left ∧ x ≠ right) :
    Balanced left right depth (front ++ list) ↔ Balanced left right depth list := by
  induction front with
  | nil => rfl
  | cons x front ih =>
      have hx := h x (by simp)
      rw [List.cons_append, cons_iff hx.1 hx.2]
      exact ih fun y hy => h y (by simp [hy])

theorem filter_iff (hne : left ≠ right) {p : α → Bool} (hleft : p left = true)
    (hright : p right = true) :
    Balanced left right depth (list.filter p) ↔ Balanced left right depth list := by
  induction list generalizing depth with
  | nil => rfl
  | cons x list ih =>
      by_cases hl : x = left
      · rw [hl, List.filter_cons_of_pos hleft, left_cons_iff hne, left_cons_iff hne, ih]
      · by_cases hr : x = right
        · rw [hr, List.filter_cons_of_pos hright, right_cons_iff hne, right_cons_iff hne, ih]
        · rw [cons_iff hl hr, List.filter_cons]
          split
          · rw [cons_iff hl hr, ih]
          · exact ih

end Balanced

namespace Rpn

/-- The groups of a list are closed in turn exactly when its parentheses are balanced. -/
theorem nested_iff_balanced {depth : Nat} {tokens : List Token} :
    Nested depth tokens ↔
      .emptyGroup ∉ tokens ∧ Balanced .leftParen .rightParen depth tokens := by
  have hne : Token.leftParen ≠ .rightParen := by simp
  induction tokens generalizing depth with
  | nil => simp [Nested, Balanced.nil_iff]
  | cons t rest ih =>
      cases t with
      | number value => simp [Nested, ih, Balanced.cons_iff]
      | operator op => simp [Nested, ih, Balanced.cons_iff]
      | leftParen => simp [Nested, ih, Balanced.left_cons_iff hne]
      | rightParen =>
          simp only [Nested, ih, Balanced.right_cons_iff hne, List.mem_cons, reduceCtorEq, false_or]
          exact and_left_comm
      | emptyGroup => simp [Nested]

end Rpn

end Calculator
