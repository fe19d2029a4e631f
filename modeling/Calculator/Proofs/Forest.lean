import Calculator.Proofs.Conversion
import Calculator.Proofs.Number.Bits

/-!
# Calculations as forests

Any list in reverse Polish notation plants a forest as it is read: a number is a
tree of its own, and an operator joins the two latest trees. The stack of the
calculation holds the values of these trees, and the tokens read so far are their
postorder lists, one after another. So a calculation gives a value exactly for the
postorder list of one tree, and divides by zero exactly where a division comes
behind two trees or more, the latest of which is worth a zero. Everything else is
malformed, wherever the list comes from.
-/

namespace Calculator

namespace Tree

/-- A postorder list at the end of a text tells where it begins and whose it is. -/
theorem postorder_append_inj {t u : Tree Float} {a b : List Token}
    (h : a ++ t.postorder = b ++ u.postorder) : a = b ∧ t = u := by
  -- The last token tells a leaf from a node, and the right branch comes off before the left.
  induction t generalizing a b u with
  | leaf x =>
      cases u with
      | leaf y =>
          have hends := List.append_inj' h rfl
          simp only [postorder, List.cons.injEq, Token.number.injEq, and_true] at hends
          rw [hends.1, hends.2]
          exact ⟨rfl, rfl⟩
      | node op l r =>
          rw [postorder, postorder, ← List.append_assoc] at h
          have hlast := (List.append_inj' h rfl).2
          simp at hlast
  | node op l r ihl ihr =>
      cases u with
      | leaf y =>
          rw [postorder, postorder, ← List.append_assoc] at h
          have hlast := (List.append_inj' h rfl).2
          simp at hlast
      | node op' l' r' =>
          simp only [postorder, ← List.append_assoc] at h
          have hends := List.append_inj' h rfl
          have hright := ihr hends.1
          have hleft := ihl hright.1
          have hop : op = op' := by simpa using hends.2
          rw [hleft.1, hleft.2, hright.2, hop]
          exact ⟨rfl, rfl⟩

theorem postorder_injective : Function.Injective postorder := by
  intro t u h
  exact (postorder_append_inj (a := []) (b := []) h).2

theorem isKept_of_mem_postorder (t : Tree Float) : ∀ token ∈ t.postorder, token.isKept = true := by
  induction t with
  | leaf x => simp [postorder, Token.isKept]
  | node op l r ihl ihr =>
      intro token h
      simp only [postorder, List.mem_append, List.mem_singleton] at h
      rcases h with (h | h) | h
      · exact ihl token h
      · exact ihr token h
      · rw [h]
        rfl

end Tree

namespace Rpn

/-- The postorder lists of the trees of a forest, whose latest tree is its first. -/
def planted (trees : List (Tree Float)) : List Token :=
  trees.reverse.flatMap Tree.postorder

@[simp] theorem planted_nil : planted [] = [] := rfl

@[simp] theorem planted_cons (t : Tree Float) (trees : List (Tree Float)) :
    planted (t :: trees) = planted trees ++ t.postorder := by
  simp [planted]

theorem isKept_of_mem_planted (trees : List (Tree Float)) :
    ∀ token ∈ planted trees, token.isKept = true := by
  intro token h
  obtain ⟨t, -, ht⟩ := List.mem_flatMap.mp h
  exact t.isKept_of_mem_postorder token ht

/-- The trees of a forest have these values. -/
inductive Worth : List (Tree Float) → List Float → Prop
  | nil : Worth [] []
  | cons {t : Tree Float} {x : Float} {trees : List (Tree Float)} {stack : List Float} :
      t.value = some x → Worth trees stack → Worth (t :: trees) (x :: stack)

theorem Worth.exists_of_mem {trees : List (Tree Float)} {stack : List Float} (h : Worth trees stack) :
    ∀ t ∈ trees, ∃ x, t.value = some x := by
  induction h with
  | nil => simp
  | cons hx _ ih =>
      intro t ht
      rcases List.mem_cons.mp ht with ht | ht
      · rw [ht]
        exact ⟨_, hx⟩
      · exact ih t ht

theorem exists_worth {trees : List (Tree Float)} (h : ∀ t ∈ trees, ∃ x, t.value = some x) :
    ∃ stack, Worth trees stack := by
  induction trees with
  | nil => exact ⟨[], .nil⟩
  | cons t trees ih =>
      obtain ⟨x, hx⟩ := h t (by simp)
      obtain ⟨stack, hstack⟩ := ih fun u hu => h u (by simp [hu])
      exact ⟨x :: stack, .cons hx hstack⟩

theorem Worth.valueFrom_planted {trees : List (Tree Float)} {stack : List Float}
    (h : Worth trees stack) (rest : List Token) :
    valueFrom [] (planted trees ++ rest) = valueFrom stack rest := by
  induction h generalizing rest with
  | nil => rfl
  | cons hx _ ih =>
      rw [planted_cons, List.append_assoc, ih, valueFrom_postorder, hx]

/-- A token that is taken in is the last of the postorder lists of another forest. -/
theorem Worth.shift {trees : List (Tree Float)} {stack next : List Float} {token : Token}
    (h : Worth trees stack) (hs : shift stack token = .ok next) :
    ∃ trees', Worth trees' next ∧ planted trees' = planted trees ++ [token] := by
  cases token with
  | number x =>
      cases hs
      exact ⟨.leaf x :: trees, .cons rfl h, by simp [Tree.postorder]⟩
  | operator op =>
      cases h with
      | nil => cases hs
      | @cons r b _ _ hr h =>
          cases h with
          | nil => cases hs
          | @cons l a trees below hl h =>
              cases hv : op.apply a b with
              | none => simp [Rpn.shift, hv] at hs
              | some result =>
                  simp only [Rpn.shift, hv, Except.ok.injEq] at hs
                  have hvalue : (Tree.node op l r).value = some result := by simp [hl, hr, hv]
                  rw [← hs]
                  exact ⟨.node op l r :: trees, .cons hvalue h, by simp [Tree.postorder]⟩
  | leftParen => simp [Rpn.shift] at hs
  | rightParen => simp [Rpn.shift] at hs
  | emptyGroup => simp [Rpn.shift] at hs

theorem Worth.exists_tree {trees : List (Tree Float)} {stack : List Float} {tokens : List Token}
    {v : Float} (h : Worth trees stack) (hv : valueFrom stack tokens = .ok v) :
    ∃ t : Tree Float, planted trees ++ tokens = t.postorder ∧ t.value = some v := by
  induction tokens generalizing trees stack with
  | nil =>
      cases h with
      | nil => cases hv
      | cons hx h =>
          cases h with
          | nil =>
              cases hv
              exact ⟨_, by simp, hx⟩
          | cons => cases hv
  | cons token tokens ih =>
      cases hs : Rpn.shift stack token with
      | error fault => simp [valueFrom, hs] at hv
      | ok next =>
          rw [valueFrom_of_shift _ hs] at hv
          obtain ⟨trees', hnext, hplanted⟩ := h.shift hs
          obtain ⟨t, htokens, ht⟩ := ih hnext hv
          refine ⟨t, ?_, ht⟩
          rw [← htokens, hplanted, List.append_assoc]
          rfl

/-- A division stands behind numbers and operators that are the postorder lists of two or
more trees, all with a value, the last of which is worth a zero of either sign. -/
def DividesByZero (rpn : List Token) : Prop :=
  ∃ before behind, rpn = before ++ .operator .divide :: behind ∧
    (∀ token ∈ before, token.isKept = true) ∧
    ∃ (trees : List (Tree Float)) (divisor : Tree Float),
      trees ≠ [] ∧ before = (trees ++ [divisor]).flatMap Tree.postorder ∧
      (∀ t ∈ trees ++ [divisor], ∃ x, t.value = some x) ∧
      (divisor.value = some 0 ∨ divisor.value = some (-0))

theorem shift_eq_zeroDivisor_iff {stack : List Float} {token : Token} :
    shift stack token = .error .zeroDivisor ↔
      token = .operator .divide ∧ ∃ b a below, stack = b :: a :: below ∧ (b == 0) = true := by
  cases token with
  | operator op =>
      rcases stack with _ | ⟨b, _ | ⟨a, below⟩⟩
      · simp [shift]
      · simp [shift]
      · have happly : op.apply a b = none ↔ op = .divide ∧ (b == 0) = true :=
          Operator.apply_eq_none_iff
        cases hv : op.apply a b with
        | none => simpa [shift, hv] using happly
        | some result =>
            rw [hv] at happly
            simpa [shift, hv] using happly
  | number x => simp [shift]
  | leftParen => simp [shift]
  | rightParen => simp [shift]
  | emptyGroup => simp [shift]

theorem Worth.dividesByZero {trees : List (Tree Float)} {stack : List Float} {tokens : List Token}
    (h : Worth trees stack) (hv : valueFrom stack tokens = .error .zeroDivisor) :
    DividesByZero (planted trees ++ tokens) := by
  -- The forest of the tokens read so far is carried along until a division is refused.
  induction tokens generalizing trees stack with
  | nil =>
      rcases stack with _ | ⟨_, _ | _⟩ <;> cases hv
  | cons token tokens ih =>
      cases hs : Rpn.shift stack token with
      | ok next =>
          rw [valueFrom_of_shift _ hs] at hv
          obtain ⟨trees', hnext, hplanted⟩ := h.shift hs
          have hgoal := ih hnext hv
          rwa [hplanted, List.append_assoc] at hgoal
      | error fault =>
          simp only [valueFrom, hs, Except.error.injEq] at hv
          rw [hv] at hs
          obtain ⟨htoken, b, a, below, hstack, hb⟩ := shift_eq_zeroDivisor_iff.mp hs
          rw [hstack] at h
          cases h with
          | @cons r _ trees _ hr h =>
              cases h with
              | @cons l _ trees _ hl h =>
                  refine ⟨planted (r :: l :: trees), tokens, by rw [htoken],
                    isKept_of_mem_planted _, (l :: trees).reverse, r, ?_, ?_, ?_, ?_⟩
                  · simp
                  · simp [planted]
                  · have hall := (Worth.cons hr (.cons hl h)).exists_of_mem
                    intro t ht
                    rw [← List.reverse_cons, List.mem_reverse] at ht
                    exact hall t ht
                  · rcases Number.beq_zero_iff.mp hb with h0 | h0
                    · exact .inl (h0 ▸ hr)
                    · exact .inr (h0 ▸ hr)

theorem DividesByZero.value_eq {rpn : List Token} (h : DividesByZero rpn) :
    value rpn = .error .zeroDivisor := by
  obtain ⟨before, behind, hrpn, -, trees, divisor, hne, hbefore, hvalues, hdivisor⟩ := h
  obtain ⟨first, dividend, htrees⟩ := (List.eq_nil_or_concat' trees).resolve_left hne
  have hforest : (trees ++ [divisor]).reverse = divisor :: dividend :: first.reverse := by
    simp [htrees]
  have hworth : ∃ stack, Worth (trees ++ [divisor]).reverse stack :=
    exists_worth fun t ht => hvalues t (List.mem_reverse.mp ht)
  obtain ⟨stack, hstack⟩ := hworth
  have hplanted : before = planted (trees ++ [divisor]).reverse := by
    rw [planted, List.reverse_reverse, hbefore]
  rw [value_eq_valueFrom, hrpn, hplanted, hstack.valueFrom_planted]
  rw [hforest] at hstack
  cases hstack with
  | @cons _ b _ _ hb hstack =>
      cases hstack with
      | @cons _ a _ below =>
          have hzero : (b == 0) = true := by
            rw [hb] at hdivisor
            exact Number.beq_zero_iff.mpr (by simpa using hdivisor)
          have hs := shift_eq_zeroDivisor_iff.mpr ⟨rfl, b, a, below, rfl, hzero⟩
          simp only [valueFrom, hs]

theorem value_eq_ok_iff {rpn : List Token} {v : Float} :
    value rpn = .ok v ↔ ∃ t : Tree Float, rpn = t.postorder ∧ t.value = some v := by
  constructor
  · intro h
    rw [value_eq_valueFrom] at h
    exact Worth.nil.exists_tree h
  · intro h
    obtain ⟨t, hrpn, hv⟩ := h
    rw [hrpn, value_postorder, hv]

theorem value_eq_zeroDivisor_iff {rpn : List Token} :
    value rpn = .error .zeroDivisor ↔ DividesByZero rpn := by
  constructor
  · intro h
    rw [value_eq_valueFrom] at h
    exact Worth.nil.dividesByZero h
  · exact DividesByZero.value_eq

theorem mapError_failure_iff (outcome : Except Fault Float) :
    (∀ v, outcome.mapError Fault.failure = .ok v ↔ outcome = .ok v) ∧
    (outcome.mapError Fault.failure = .error .divisionByZero ↔ outcome = .error .zeroDivisor) ∧
    (outcome.mapError Fault.failure = .error .invalidExpression ↔
      (¬ ∃ v, outcome = .ok v) ∧ ¬ outcome = .error .zeroDivisor) := by
  cases outcome with
  | ok v => simp [Except.mapError]
  | error fault => cases fault <;> simp [Except.mapError, Fault.failure]

/-- What a caller is told about a list in reverse Polish notation, wherever it comes from.
It has a value when it is the postorder list of a tree, of one tree only, that has this
value; it divides by zero where a division finds a zero behind another operand; and it
is malformed in every other case. -/
theorem value_trichotomy (rpn : List Token) :
    (∀ v, (value rpn).mapError Fault.failure = .ok v ↔
      ∃ t : Tree Float, rpn = t.postorder ∧ t.value = some v) ∧
    (∀ t u : Tree Float, rpn = t.postorder → rpn = u.postorder → t = u) ∧
    ((value rpn).mapError Fault.failure = .error .divisionByZero ↔ DividesByZero rpn) ∧
    ((value rpn).mapError Fault.failure = .error .invalidExpression ↔
      (¬ ∃ (t : Tree Float) (v : Float), rpn = t.postorder ∧ t.value = some v) ∧
        ¬ DividesByZero rpn) := by
  obtain ⟨hok, hzero, hinvalid⟩ := mapError_failure_iff (value rpn)
  have hvalue : (∃ (t : Tree Float) (v : Float), rpn = t.postorder ∧ t.value = some v) ↔
      ∃ v, value rpn = .ok v := by
    rw [exists_comm]
    simp only [value_eq_ok_iff]
  refine ⟨fun v => (hok v).trans value_eq_ok_iff, fun t u ht hu => ?_,
    hzero.trans value_eq_zeroDivisor_iff, ?_⟩
  · exact Tree.postorder_injective (ht.symm.trans hu)
  · rw [hvalue, ← value_eq_zeroDivisor_iff]
    exact hinvalid

end Rpn

end Calculator
