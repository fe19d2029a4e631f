import Calculator.Rpn.Calculation
import Calculator.Proofs.Tree

/-!
# What a calculation does to its stack

The outcome of a calculation is studied one token at a time and from any stack.
A list that gives a value from its own stack leaves every number below that stack
alone and puts exactly one number in its place; the postorder list of a tree is
the first case of this. Each number adds one to the height of the stack and each
operator takes one away, which is all that a calculation checks about the
arrangement of operands.
-/

namespace Calculator.Rpn

/-- What one token does to a stack of numbers. -/
def shift : List Float → Token → Except Fault (List Float)
  | stack, .number value => .ok (value :: stack)
  | right :: left :: stack, .operator op =>
    match op.apply left right with
    | some result => .ok (result :: stack)
    | none => .error .zeroDivisor
  | _, .operator op => .error (.defect (.missingOperand op))
  | _, t => .error (.defect (.unexpectedToken t))

/-- What a calculation makes of the stack that is left over. -/
def single : List Float → Except Fault Float
  | [value] => .ok value
  | stack => .error (.defect (.leftover stack.length))

/-- The outcome of going on with a stack of numbers. -/
def valueFrom (stack : List Float) : List Token → Except Fault Float
  | [] => single stack
  | t :: rest =>
    match shift stack t with
    | .ok next => valueFrom next rest
    | .error fault => .error fault

theorem valueFrom_of_shift {stack next : List Float} {t : Token} (rest : List Token)
    (h : shift stack t = .ok next) : valueFrom stack (t :: rest) = valueFrom next rest := by
  simp only [valueFrom, h]

theorem outcome_calculateFrom (done : List Operation) (stack : List Float) (tokens : List Token) :
    (calculateFrom done stack tokens).outcome = valueFrom stack tokens := by
  induction tokens generalizing done stack with
  | nil => rcases stack with _ | ⟨_, _ | _⟩ <;> rfl
  | cons t rest ih =>
      cases t with
      | number value =>
          rw [calculateFrom, ih]
          rfl
      | operator op =>
          rcases stack with _ | ⟨right, _ | ⟨left, stack⟩⟩
          · rfl
          · rfl
          · simp only [calculateFrom, valueFrom, shift]
            cases op.apply left right with
            | none => rfl
            | some result => exact ih _ _
      | leftParen => simp [calculateFrom, valueFrom, shift]
      | rightParen => simp [calculateFrom, valueFrom, shift]
      | emptyGroup => simp [calculateFrom, valueFrom, shift]

theorem value_eq_valueFrom (tokens : List Token) : value tokens = valueFrom [] tokens :=
  outcome_calculateFrom [] [] tokens

/-- The postorder list of a tree puts the value of the tree on the stack. -/
theorem valueFrom_postorder (t : Tree Float) (stack : List Float) (rest : List Token) :
    valueFrom stack (t.postorder ++ rest) =
      match t.value with
      | some value => valueFrom (value :: stack) rest
      | none => .error .zeroDivisor := by
  induction t generalizing stack rest with
  | leaf x => rfl
  | node op l r ihl ihr =>
      simp only [Tree.postorder, List.append_assoc, Tree.value_node]
      rw [ihl]
      cases l.value with
      | none => rfl
      | some a =>
          dsimp only [Option.bind_some]
          rw [ihr]
          cases r.value with
          | none => rfl
          | some b =>
              simp only [Option.bind_some, List.singleton_append, valueFrom, shift]
              cases op.apply a b <;> rfl

theorem value_postorder (t : Tree Float) :
    value t.postorder =
      match t.value with
      | some v => .ok v
      | none => .error .zeroDivisor := by
  have h := valueFrom_postorder t [] []
  rw [List.append_nil] at h
  rw [value_eq_valueFrom, h]
  cases t.value <;> rfl

/-- What a token does to a stack does not depend on the numbers further below. -/
theorem shift_append {stack next : List Float} {t : Token} (h : shift stack t = .ok next)
    (below : List Float) : shift (stack ++ below) t = .ok (next ++ below) := by
  cases t with
  | number value =>
      cases h
      rfl
  | operator op =>
      rcases stack with _ | ⟨right, _ | ⟨left, stack⟩⟩
      · cases h
      · cases h
      · simp only [shift] at h
        simp only [List.cons_append, shift]
        cases hv : op.apply left right with
        | none => simp [hv] at h
        | some result =>
            simp only [hv, Except.ok.injEq] at h
            subst h
            rfl
  | leftParen => simp [shift] at h
  | rightParen => simp [shift] at h
  | emptyGroup => simp [shift] at h

theorem valueFrom_append {stack : List Float} {tokens : List Token} {value : Float}
    (h : valueFrom stack tokens = .ok value) (below : List Float) (rest : List Token) :
    valueFrom (stack ++ below) (tokens ++ rest) = valueFrom (value :: below) rest := by
  induction tokens generalizing stack with
  | nil =>
      match stack, h with
      | [_], h =>
          cases h
          rfl
  | cons t tokens ih =>
      cases hs : shift stack t with
      | error fault => simp [valueFrom, hs] at h
      | ok next =>
          rw [valueFrom_of_shift _ hs] at h
          rw [List.cons_append, valueFrom_of_shift _ (shift_append hs below)]
          exact ih h

/-- What goes before two lists that always agree does not tell them apart. -/
theorem valueFrom_append_congr {tokens tokens' : List Token}
    (h : ∀ stack, valueFrom stack tokens = valueFrom stack tokens') (front : List Token)
    (stack : List Float) : valueFrom stack (front ++ tokens) = valueFrom stack (front ++ tokens') := by
  induction front generalizing stack with
  | nil => exact h stack
  | cons t front ih =>
      simp only [List.cons_append, valueFrom]
      cases shift stack t with
      | error fault => rfl
      | ok next => exact ih next

end Calculator.Rpn

namespace Calculator.Token

/-- By how much a token raises the height of the stack of a calculation. -/
def rise : Token → Int
  | .number _ => 1
  | .operator _ => -1
  | _ => 0

/-- The numbers of a list less its operators. -/
def excess : List Token → Int
  | [] => 0
  | t :: tokens => rise t + excess tokens

@[simp] theorem excess_nil : excess [] = 0 := rfl

@[simp] theorem excess_cons (t : Token) (tokens : List Token) :
    excess (t :: tokens) = rise t + excess tokens := rfl

theorem excess_perm {a b : List Token} (h : a.Perm b) : excess a = excess b := by
  induction h with
  | nil => rfl
  | cons t _ ih => rw [excess_cons, excess_cons, ih]
  | swap t t' tokens =>
      simp only [excess_cons]
      omega
  | trans _ _ ih ih' => exact ih.trans ih'

end Calculator.Token

namespace Calculator.Rpn

theorem length_of_shift {stack next : List Float} {t : Token} (h : shift stack t = .ok next) :
    (next.length : Int) = stack.length + t.rise := by
  cases t with
  | number value =>
      cases h
      simp [Token.rise]
  | operator op =>
      rcases stack with _ | ⟨right, _ | ⟨left, stack⟩⟩
      · cases h
      · cases h
      · simp only [shift] at h
        split at h
        · cases h
          simp only [List.length_cons, Token.rise]
          omega
        · cases h
  | leftParen => simp [shift] at h
  | rightParen => simp [shift] at h
  | emptyGroup => simp [shift] at h

theorem length_add_excess_of_valueFrom {stack : List Float} {tokens : List Token} {value : Float}
    (h : valueFrom stack tokens = .ok value) : stack.length + Token.excess tokens = 1 := by
  induction tokens generalizing stack with
  | nil =>
      match stack, h with
      | [_], _ => rfl
  | cons t tokens ih =>
      cases hs : shift stack t with
      | error fault => simp [valueFrom, hs] at h
      | ok next =>
          rw [valueFrom_of_shift _ hs] at h
          have hnext := ih h
          have hlength := length_of_shift hs
          rw [Token.excess_cons]
          omega

end Calculator.Rpn
