import Calculator.Proofs.Conversion

/-!
# Phrases in a conversion

A phrase is a run of tokens that stands for one tree. Where a phrase is waited
for, its tokens put out the left sides of the tree and leave waiting only
operators of the tree that bind at least as tightly as the phrase; the next
operator that binds less, the end of the group or the end of the list releases
them. Phrases are built as expressions are: from numbers, operations and groups.
-/

namespace Calculator.Rpn

namespace Conversion

/-- The latest operator of the current group waits for a phrase of this precedence. -/
def Waits (precedence : Nat) : List Pending → Prop
  | .operator op :: _ => op.precedence < precedence
  | _ => True

theorem Waits.mono {p q : Nat} {pending : List Pending} (h : Waits p pending) (hpq : p ≤ q) :
    Waits q pending := by
  match pending, h with
  | [], _ => trivial
  | .group :: _, _ => trivial
  | .operator op :: _, h => exact Nat.lt_of_lt_of_le h hpq

/-- The output once some operators, latest first, have been released. -/
def released (ops : List Operator) (output : List Token) : List Token :=
  (ops.map Token.operator).reverse ++ output

theorem released_cons (op : Operator) (ops : List Operator) (output : List Token) :
    released (op :: ops) output = released ops (.operator op :: output) := by
  simp [released]

theorem release_operators {op : Operator} {ops : List Operator} {pending : List Pending}
    (hops : ∀ w ∈ ops, op.precedence ≤ w.precedence) (hp : Waits op.precedence pending)
    (output : List Token) :
    release op output (ops.map .operator ++ pending) = ⟨released ops output, pending⟩ := by
  induction ops generalizing output with
  | nil =>
      match pending, hp with
      | [], _ => rfl
      | .group :: _, _ => rfl
      | .operator top :: _, hp => exact if_pos hp
  | cons w ops ih =>
      have hw := hops w (by simp)
      rw [List.map_cons, List.cons_append, release, if_neg (by omega), released_cons]
      exact ih (fun v hv => hops v (by simp [hv])) _

theorem close_operators (ops : List Operator) (output : List Token) (below : List Pending) :
    close output (ops.map .operator ++ .group :: below) = .ok ⟨released ops output, below⟩ := by
  induction ops generalizing output with
  | nil => rfl
  | cons w ops ih =>
      rw [released_cons]
      exact ih _

theorem finish_operators (ops : List Operator) (output : List Token) :
    finish output (ops.map .operator) = .ok (released ops output).reverse := by
  induction ops generalizing output with
  | nil => rfl
  | cons w ops ih =>
      rw [released_cons]
      exact ih _

/-- Wherever a phrase of this precedence is waited for, these tokens are taken in, and
the operators that wait then are those of the tree that bind at least as tightly;
once they are released the tree is put out. -/
def Takes (precedence : Nat) (tokens : List Token) (t : Tree Float) : Prop :=
  ∀ (output : List Token) (pending : List Pending), Waits precedence pending →
    ∃ (mid : List Token) (ops : List Operator),
      run ⟨output, pending⟩ tokens = .ok ⟨mid, ops.map .operator ++ pending⟩ ∧
      (∀ op ∈ ops, precedence ≤ op.precedence) ∧
      released ops mid = t.postorder.reverse ++ output

theorem Takes.number (precedence : Nat) (x : Float) :
    Takes precedence [.number x] (.leaf x) := by
  intro output pending _
  exact ⟨.number x :: output, [], rfl, by simp, rfl⟩

theorem Takes.mono {p q : Nat} {tokens : List Token} {t : Tree Float} (h : Takes q tokens t)
    (hpq : p ≤ q) : Takes p tokens t := by
  intro output pending hp
  obtain ⟨mid, ops, hrun, hops, hrel⟩ := h output pending (hp.mono hpq)
  exact ⟨mid, ops, hrun, fun op hop => Nat.le_trans hpq (hops op hop), hrel⟩

/-- An operator takes in its left side with it, and waits for what binds more tightly. -/
theorem Takes.operation {p : Nat} {op : Operator} {a b : List Token} {l r : Tree Float}
    (hop : op.precedence = p) (ha : Takes p a l) (hb : Takes (p + 1) b r) :
    Takes p (a ++ .operator op :: b) (.node op l r) := by
  subst hop
  intro output pending hp
  obtain ⟨mid, ops, hrun, hops, hrel⟩ := ha output pending hp
  obtain ⟨mid', ops', hrun', hops', hrel'⟩ :=
    hb (released ops mid) (.operator op :: pending) (Nat.lt_succ_self _)
  refine ⟨mid', ops' ++ [op], ?_, ?_, ?_⟩
  · rw [run_append_of_ok hrun]
    simp only [run, step, release_operators hops hp, hrun', List.map_append, List.map_cons,
      List.map_nil, List.append_assoc, List.singleton_append]
  · intro w hw
    rcases List.mem_append.mp hw with hw | hw
    · exact Nat.le_of_succ_le (hops' w hw)
    · obtain rfl := List.mem_singleton.mp hw
      exact Nat.le_refl _
  · calc released (ops' ++ [op]) mid'
        = .operator op :: released ops' mid' := by simp [released]
      _ = .operator op :: (r.postorder.reverse ++ (l.postorder.reverse ++ output)) := by
          rw [hrel', hrel]
      _ = (Tree.node op l r).postorder.reverse ++ output := by simp [Tree.postorder]

theorem Takes.group {p : Nat} {tokens : List Token} {t : Tree Float} (h : Takes p tokens t)
    (precedence : Nat) : Takes precedence (.leftParen :: tokens ++ [.rightParen]) t := by
  intro output pending _
  obtain ⟨mid, ops, hrun, -, hrel⟩ := h output (.group :: pending) trivial
  have hopen : run ⟨output, pending⟩ (.leftParen :: tokens) =
      .ok ⟨mid, ops.map .operator ++ .group :: pending⟩ := hrun
  refine ⟨released ops mid, [], ?_, by simp, hrel⟩
  rw [run_append_of_ok hopen]
  simp only [run, step, close_operators, List.map_nil, List.nil_append]

end Conversion

/-- The tokens of a phrase are converted to the postorder list of its tree. -/
theorem ofTokens_of_takes {p : Nat} {tokens : List Token} {t : Tree Float}
    (h : Conversion.Takes p tokens t) : ofTokens tokens = .ok t.postorder := by
  obtain ⟨mid, ops, hrun, -, hrel⟩ := h [] [] trivial
  have hstart : Conversion.start.run tokens = .ok ⟨mid, ops.map .operator ++ []⟩ := hrun
  rw [ofTokens_eq_convert, convert, hstart]
  dsimp only
  rw [List.append_nil, Conversion.finish_operators, hrel]
  simp

end Calculator.Rpn
