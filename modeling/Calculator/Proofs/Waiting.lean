import Calculator.Proofs.Conversion

/-!
# What waits in a conversion

A conversion is followed through every single move: a token is read, one waiting operator
is released, a group is ended. Between the parentheses that wait, each operator binds more
tightly than the one below it, because an operator is put on top only when all that bind
at least as tightly have been released. There are two precedences, and so two operators at
most wait in each group. Nothing is ever lost: what is put out and what waits are the
numbers and operators taken so far.
-/

namespace Calculator

namespace Operator

theorem precedence_pos (op : Operator) : 0 < op.precedence := by
  cases op <;> decide

theorem precedence_le_two (op : Operator) : op.precedence ≤ 2 := by
  cases op <;> decide

end Operator

namespace Rpn.Conversion

open scoped List

/-- What a conversion is doing when it moves: reading the next token, releasing operators
for one that it has read, looking for the opening of the group that it has to end, or
emptying what waits behind the last token. -/
inductive Phase
  | read
  | release (op : Operator)
  | close
  | finish

/-- Behind the tokens `taken`, the conversion passes through a state in a phase. -/
inductive Passes : List Token → Phase → Conversion → Prop
  | start : Passes [] .read Conversion.start
  | number {taken : List Token} {c : Conversion} (value : Float) : Passes taken .read c →
      Passes (taken ++ [.number value]) .read ⟨.number value :: c.output, c.pending⟩
  | operator {taken : List Token} {c : Conversion} (op : Operator) : Passes taken .read c →
      Passes taken (.release op) c
  | release {taken output : List Token} {op top : Operator} {below : List Pending} :
      Passes taken (.release op) ⟨output, .operator top :: below⟩ →
      ¬ top.precedence < op.precedence →
      Passes taken (.release op) ⟨.operator top :: output, below⟩
  | wait {taken : List Token} {op : Operator} {c : Conversion} : Passes taken (.release op) c →
      (∀ top below, c.pending = .operator top :: below → top.precedence < op.precedence) →
      Passes (taken ++ [.operator op]) .read ⟨c.output, .operator op :: c.pending⟩
  | leftParen {taken : List Token} {c : Conversion} : Passes taken .read c →
      Passes (taken ++ [.leftParen]) .read ⟨c.output, .group :: c.pending⟩
  | rightParen {taken : List Token} {c : Conversion} : Passes taken .read c →
      Passes taken .close c
  | close {taken output : List Token} {top : Operator} {below : List Pending} :
      Passes taken .close ⟨output, .operator top :: below⟩ →
      Passes taken .close ⟨.operator top :: output, below⟩
  | group {taken output : List Token} {below : List Pending} :
      Passes taken .close ⟨output, .group :: below⟩ →
      Passes (taken ++ [.rightParen]) .read ⟨output, below⟩
  | last {taken : List Token} {c : Conversion} : Passes taken .read c → Passes taken .finish c
  | finish {taken output : List Token} {top : Operator} {below : List Pending} :
      Passes taken .finish ⟨output, .operator top :: below⟩ →
      Passes taken .finish ⟨.operator top :: output, below⟩

section Moves
variable {taken tokens output rpn : List Token} {pending : List Pending} {c d : Conversion}

theorem Passes.released {op : Operator} (h : Passes taken (.release op) ⟨output, pending⟩) :
    Passes taken (.release op) (Conversion.release op output pending) ∧
      ∀ top below, (Conversion.release op output pending).pending = .operator top :: below →
        top.precedence < op.precedence := by
  induction pending generalizing output with
  | nil => exact ⟨h, fun _ _ hnil => nomatch hnil⟩
  | cons p below ih =>
      cases p with
      | group => exact ⟨h, fun _ _ hgroup => nomatch hgroup⟩
      | operator top =>
          rw [Conversion.release]
          split
          · next hlt =>
              refine ⟨h, fun top' below' htop => ?_⟩
              obtain rfl := Pending.operator.inj (List.cons.inj htop).1
              exact hlt
          · next hle => exact ih (h.release hle)

theorem Passes.closed (h : Passes taken .close ⟨output, pending⟩)
    (hclose : Conversion.close output pending = .ok d) :
    Passes (taken ++ [.rightParen]) .read d := by
  induction pending generalizing output with
  | nil => cases hclose
  | cons p below ih =>
      cases p with
      | group =>
          cases hclose
          exact h.group
      | operator top => exact ih h.close hclose

theorem Passes.finished (h : Passes taken .finish ⟨output, pending⟩)
    (hfinish : Conversion.finish output pending = .ok rpn) :
    Passes taken .finish ⟨rpn.reverse, []⟩ := by
  induction pending generalizing output with
  | nil =>
      cases hfinish
      rwa [List.reverse_reverse]
  | cons p below ih =>
      cases p with
      | group => cases hfinish
      | operator top => exact ih h.finish hfinish

theorem Passes.step {t : Token} (h : Passes taken .read c) (hstep : c.step t = .ok d) :
    Passes (taken ++ [t]) .read d := by
  cases t with
  | number value =>
      cases hstep
      exact h.number value
  | operator op =>
      cases hstep
      obtain ⟨hreleased, htop⟩ := (h.operator op).released
      exact hreleased.wait htop
  | leftParen =>
      cases hstep
      exact h.leftParen
  | rightParen => exact h.rightParen.closed hstep
  | emptyGroup => cases hstep

theorem Passes.run (h : Passes taken .read c) (hrun : c.run tokens = .ok d) :
    Passes (taken ++ tokens) .read d := by
  induction tokens generalizing taken c with
  | nil =>
      cases hrun
      rwa [List.append_nil]
  | cons t rest ih =>
      rw [Conversion.run] at hrun
      cases hs : c.step t with
      | error defect => simp [hs] at hrun
      | ok next =>
          simp only [hs] at hrun
          rw [List.append_cons]
          exact ih (h.step hs) hrun

theorem run_append_singleton {t : Token} (h : c.run taken = .ok d) :
    c.run (taken ++ [t]) = d.step t := by
  rw [run_append_of_ok h, Conversion.run]
  cases d.step t <;> rfl

/-- What a phase still has to do leads where the executable conversion goes. -/
theorem Passes.result {phase : Phase} (h : Passes taken phase c) :
    ∃ b, Conversion.start.run taken = .ok b ∧
      match phase with
      | .read => b = c
      | .release op => Conversion.release op b.output b.pending =
          Conversion.release op c.output c.pending
      | .close => Conversion.close b.output b.pending = Conversion.close c.output c.pending
      | .finish => Conversion.finish b.output b.pending = Conversion.finish c.output c.pending := by
  induction h with
  | start => exact ⟨_, rfl, rfl⟩
  | number value _ ih =>
      obtain ⟨b, hrun, (rfl : b = _)⟩ := ih
      exact ⟨_, run_append_singleton hrun, rfl⟩
  | operator op _ ih | rightParen _ ih | last _ ih =>
      obtain ⟨b, hrun, (rfl : b = _)⟩ := ih
      exact ⟨b, hrun, rfl⟩
  | @release taken output op top below _ hle ih =>
      obtain ⟨b, hrun, hb⟩ := ih
      refine ⟨b, hrun, hb.trans ?_⟩
      rw [Conversion.release, if_neg hle]
  | @wait taken op c _ htop ih =>
      obtain ⟨b, hrun, hb⟩ := ih
      have hstop : Conversion.release op c.output c.pending = c := by
        obtain ⟨output, pending⟩ := c
        rcases pending with _ | ⟨_ | top, below⟩
        · rfl
        · rw [Conversion.release, if_pos (htop _ _ rfl)]
        · rfl
      refine ⟨_, (run_append_singleton hrun).trans ?_, rfl⟩
      rw [Conversion.step, hb, hstop]
  | leftParen _ ih =>
      obtain ⟨b, hrun, (rfl : b = _)⟩ := ih
      exact ⟨_, run_append_singleton hrun, rfl⟩
  | close _ ih | finish _ ih =>
      obtain ⟨b, hrun, hb⟩ := ih
      exact ⟨b, hrun, hb⟩
  | group _ ih =>
      obtain ⟨b, hrun, hb⟩ := ih
      exact ⟨_, (run_append_singleton hrun).trans hb, rfl⟩

/-- Between two tokens, the states are those of the executable conversion. -/
theorem run_eq_ok_iff_passes : Conversion.start.run taken = .ok c ↔ Passes taken .read c := by
  constructor
  · exact Passes.start.run
  · intro h
    obtain ⟨b, hrun, (rfl : b = _)⟩ := h.result
    exact hrun

/-- The last state has put out the list that the executable conversion gives. -/
theorem ofTokens_eq_ok_iff_passes :
    ofTokens tokens = .ok rpn ↔ Passes tokens .finish ⟨rpn.reverse, []⟩ := by
  rw [ofTokens]
  constructor
  · intro h
    cases hrun : start.run tokens with
    | error defect => simp [hrun] at h
    | ok c =>
        simp only [hrun] at h
        exact (run_eq_ok_iff_passes.mp hrun).last.finished h
  · intro h
    obtain ⟨b, hrun, hb⟩ := h.result
    rw [hrun]
    exact hb.trans (by rw [Conversion.finish, List.reverse_reverse])

end Moves

/-- In every row of operators that wait on top of each other, latest first, each one binds
more tightly than those below it. -/
def Layered (pending : List Pending) : Prop :=
  ∀ (above : List Pending) (ops : List Operator) (below : List Pending),
    pending = above ++ ops.map .operator ++ below →
      ops.Pairwise fun upper lower => lower.precedence < upper.precedence

theorem layered_nil : Layered [] := by
  intro above ops below h
  obtain ⟨h, -⟩ := List.append_eq_nil_iff.mp h.symm
  obtain ⟨-, h⟩ := List.append_eq_nil_iff.mp h
  rw [List.map_eq_nil_iff.mp h]
  exact .nil

theorem Layered.tail {p : Pending} {pending : List Pending} (h : Layered (p :: pending)) :
    Layered pending := by
  rintro above ops below rfl
  exact h (p :: above) ops below rfl

theorem Layered.group {pending : List Pending} (h : Layered pending) :
    Layered (.group :: pending) := by
  intro above ops below hsplit
  cases above with
  | cons p above => exact h above ops below (List.cons.inj hsplit).2
  | nil =>
      cases ops with
      | nil => exact .nil
      | cons op ops => exact nomatch (List.cons.inj hsplit).1

theorem Layered.operator {op : Operator} {pending : List Pending} (h : Layered pending)
    (htop : ∀ top below, pending = .operator top :: below → top.precedence < op.precedence) :
    Layered (.operator op :: pending) := by
  intro above ops below hsplit
  cases above with
  | cons p above => exact h above ops below (List.cons.inj hsplit).2
  | nil =>
      cases ops with
      | nil => exact .nil
      | cons op' ops =>
          obtain ⟨hop, hpending⟩ := List.cons.inj hsplit
          obtain rfl : op = op' := Pending.operator.inj hop
          have hops := h [] ops below hpending
          refine List.pairwise_cons.mpr ⟨fun lower hlower => ?_, hops⟩
          -- The operator right below binds less tightly, and more tightly than the others.
          cases ops with
          | nil => cases hlower
          | cons top ops =>
              have hlt := htop top _ hpending
              rcases List.mem_cons.mp hlower with rfl | hlower
              · exact hlt
              · exact Nat.lt_trans ((List.pairwise_cons.mp hops).1 lower hlower) hlt

/-- The precedence of the operator on top, and zero at the bottom of a group. -/
def topPrecedence : List Pending → Nat
  | .operator op :: _ => op.precedence
  | _ => 0

theorem topPrecedence_le_two (pending : List Pending) : topPrecedence pending ≤ 2 := by
  rcases pending with _ | ⟨op | _, below⟩
  · exact Nat.zero_le 2
  · exact op.precedence_le_two
  · exact Nat.zero_le 2

theorem Layered.topPrecedence_lt {op : Operator} {pending : List Pending}
    (h : Layered (.operator op :: pending)) : topPrecedence pending < op.precedence := by
  rcases pending with _ | ⟨top | _, below⟩
  · exact op.precedence_pos
  · exact (List.pairwise_cons.mp (h [] [op, top] below rfl)).1 top (List.mem_singleton_self top)
  · exact op.precedence_pos

/-- A group holds as many operators at most as there are precedences up to its topmost. -/
theorem Layered.length_le_topPrecedence {pending : List Pending} (h : Layered pending) :
    pending.length ≤ 3 * depth pending + topPrecedence pending := by
  induction pending with
  | nil => exact Nat.zero_le _
  | cons p below ih =>
      have hbelow := ih h.tail
      cases p with
      | group =>
          have htop := topPrecedence_le_two below
          rw [List.length_cons, depth_group]
          omega
      | operator op =>
          have htop := h.topPrecedence_lt
          rw [List.length_cons, depth_operator, topPrecedence]
          omega

theorem Layered.length_le {pending : List Pending} (h : Layered pending) :
    pending.length ≤ 3 * depth pending + 2 :=
  Nat.le_trans h.length_le_topPrecedence (Nat.add_le_add_left (topPrecedence_le_two pending) _)

section Kept
variable {taken : List Token} {phase : Phase} {c : Conversion}

theorem Passes.layered (h : Passes taken phase c) : Layered c.pending := by
  induction h with
  | start => exact layered_nil
  | number _ _ ih | operator _ _ ih | rightParen _ ih | last _ ih => exact ih
  | release _ _ ih | close _ ih | group _ ih | finish _ ih => exact ih.tail
  | wait _ htop ih => exact ih.operator htop
  | leftParen _ ih => exact ih.group

theorem Passes.count_leftParen (h : Passes taken phase c) :
    taken.count .leftParen = taken.count .rightParen + depth c.pending := by
  induction h with
  | start => rfl
  | number _ _ ih => simpa using ih
  | operator _ _ ih | rightParen _ ih | last _ ih => exact ih
  | release _ _ ih | close _ ih | finish _ ih => simpa using ih
  | wait _ _ ih => simpa using ih
  | leftParen _ ih =>
      simp [ih]
      omega
  | group _ ih =>
      simp at ih ⊢
      omega

theorem perm_append_singleton {kept : List Token} {t : Token} (ht : t.isKept = true)
    (h : kept ~ taken.filter Token.isKept) :
    t :: kept ~ (taken ++ [t]).filter Token.isKept := by
  rw [List.filter_append, List.filter_cons_of_pos ht]
  exact (h.cons t).trans (List.perm_append_singleton t _).symm

theorem filter_append_singleton {t : Token} (ht : t.isKept = false) :
    (taken ++ [t]).filter Token.isKept = taken.filter Token.isKept := by
  rw [List.filter_append, List.filter_cons_of_neg (by simp [ht]), List.filter_nil, List.append_nil]

theorem held_release (output : List Token) (top : Operator) (below : List Pending) :
    held ⟨.operator top :: output, below⟩ ~ held ⟨output, .operator top :: below⟩ :=
  List.perm_middle.symm

theorem Passes.held_perm (h : Passes taken phase c) : c.held ~ taken.filter Token.isKept := by
  induction h with
  | start => exact .nil
  | number value _ ih => exact perm_append_singleton rfl ih
  | operator _ _ ih | rightParen _ ih | last _ ih => exact ih
  | release _ _ ih | close _ ih | finish _ ih => exact (held_release _ _ _).trans ih
  | wait _ _ ih => exact List.perm_middle.trans (perm_append_singleton rfl ih)
  | leftParen _ ih | group _ ih =>
      rw [filter_append_singleton rfl]
      exact ih

end Kept

/-- A conversion goes through the states between two tokens, and through those in which
operators are released, to the list that it gives. In each of them the operators that wait
between parentheses bind more and more tightly, no more than three elements for each open
group and two others wait, and the output and the operators that wait are the numbers and
operators taken so far. -/
theorem passes_keeps (tokens : List Token) :
    (∀ taken c, taken <+: tokens → (Conversion.start.run taken = .ok c ↔ Passes taken .read c)) ∧
    (∀ rpn, ofTokens tokens = .ok rpn ↔ Passes tokens .finish ⟨rpn.reverse, []⟩) ∧
    ∀ taken phase c, taken <+: tokens → Passes taken phase c →
      (∀ (above : List Pending) (ops : List Operator) (below : List Pending),
        c.pending = above ++ ops.map .operator ++ below →
          ops.Pairwise fun upper lower => lower.precedence < upper.precedence) ∧
      taken.count .leftParen = taken.count .rightParen + depth c.pending ∧
      c.pending.length ≤ 3 * depth c.pending + 2 ∧
      (c.output ++ waiting c.pending).Perm (taken.filter Token.isKept) :=
  ⟨fun _ _ _ => run_eq_ok_iff_passes, fun _ => ofTokens_eq_ok_iff_passes,
    fun _ _ _ _ h => ⟨h.layered, h.count_leftParen, h.layered.length_le, h.held_perm⟩⟩

/-- In a group of an addition and a multiplication, as much waits as the bound allows. -/
theorem passes_keeps_products :
    let taken : List Token := [.number 1, .operator .add, .number 2, .operator .multiply,
      .leftParen, .number 3, .operator .subtract, .number 4, .operator .divide]
    let c : Conversion := ⟨[.number 4, .number 3, .number 2, .number 1],
      [.operator .divide, .operator .subtract, .group, .operator .multiply, .operator .add]⟩
    Passes taken .read c ∧ depth c.pending = 1 ∧ c.pending.length = 3 * 1 + 2 ∧
      (c.output ++ waiting c.pending).Perm (taken.filter Token.isKept) := by
  obtain ⟨hruns, -, hkeeps⟩ := passes_keeps
    [.number 1, .operator .add, .number 2, .operator .multiply,
      .leftParen, .number 3, .operator .subtract, .number 4, .operator .divide]
  have hpasses := (hruns _ _ (List.prefix_refl _)).mp rfl
  exact ⟨hpasses, rfl, rfl, (hkeeps _ _ _ (List.prefix_refl _) hpasses).2.2.2⟩

end Rpn.Conversion

end Calculator
