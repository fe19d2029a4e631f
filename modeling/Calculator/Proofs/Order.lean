import Mathlib.Data.List.Sort
import Calculator.Proofs.Balance
import Calculator.Proofs.Phrase

/-!
# The order of the output of a conversion

Each token is followed from its place in the list that is converted to its place in
the output. A number goes to the output at once, and so stands there behind nothing
that came after it; an operator only ever waits. The numbers therefore keep their
order, and no operator overtakes a number that came before it.
-/

namespace Calculator

namespace Token

def isNumber : Token → Bool
  | .number _ => true
  | _ => false

theorem isKept_of_isNumber {t : Token} (h : t.isNumber = true) : t.isKept = true := by
  cases t with
  | number value => rfl
  | _ => cases h

/-- The numbers and operators of a list, with their places from `n` on. -/
def keptFrom (n : Nat) (tokens : List Token) : List (Token × Nat) :=
  (tokens.zipIdx n).filter (·.1.isKept)

theorem keptFrom_cons (n : Nat) (t : Token) (tokens : List Token) :
    keptFrom n (t :: tokens) = keptFrom n [t] ++ keptFrom (n + 1) tokens := by
  rw [keptFrom, List.zipIdx_cons, ← List.singleton_append, List.filter_append]
  rfl

theorem snd_of_mem_keptFrom {n : Nat} {tokens : List Token} {p : Token × Nat}
    (h : p ∈ keptFrom n tokens) : n ≤ p.2 ∧ p.2 < n + tokens.length := by
  obtain ⟨hle, hlt, -⟩ := List.mem_zipIdx (List.mem_filter.mp h).1
  exact ⟨hle, hlt⟩

theorem pairwise_zipIdx (tokens : List Token) (n : Nat) :
    (tokens.zipIdx n).Pairwise fun a b => a.2 < b.2 := by
  rw [← List.pairwise_map, List.zipIdx_map_snd]
  exact List.pairwise_lt_range'

end Token

namespace Rpn.Conversion

open scoped List

theorem exists_released (op : Operator) (output : List Token) (pending : List Pending) :
    ∃ ops below, pending = ops.map .operator ++ below ∧
      release op output pending = ⟨released ops output, below⟩ := by
  induction pending generalizing output with
  | nil => exact ⟨[], [], rfl, rfl⟩
  | cons p below ih =>
      cases p with
      | group => exact ⟨[], .group :: below, rfl, rfl⟩
      | operator top =>
          rw [release]
          split
          · exact ⟨[], .operator top :: below, rfl, rfl⟩
          · obtain ⟨ops, rest, hbelow, hrelease⟩ := ih (.operator top :: output)
            refine ⟨top :: ops, rest, by rw [hbelow]; rfl, ?_⟩
            rw [hrelease, released_cons]

theorem exists_released_of_close {output : List Token} {pending : List Pending} {d : Conversion}
    (h : close output pending = .ok d) :
    ∃ ops, pending = ops.map .operator ++ .group :: d.pending ∧ d.output = released ops output := by
  induction pending generalizing output with
  | nil => cases h
  | cons p below ih =>
      cases p with
      | group =>
          cases h
          exact ⟨[], rfl, rfl⟩
      | operator top =>
          obtain ⟨ops, hbelow, houtput⟩ := ih h
          refine ⟨top :: ops, by rw [hbelow]; rfl, ?_⟩
          rw [houtput, released_cons]

theorem exists_released_of_finish {output rpn : List Token} {pending : List Pending}
    (h : finish output pending = .ok rpn) :
    ∃ ops, pending = ops.map .operator ∧ rpn = (released ops output).reverse := by
  induction pending generalizing output with
  | nil =>
      cases h
      exact ⟨[], rfl, rfl⟩
  | cons p below ih =>
      cases p with
      | group => cases h
      | operator top =>
          obtain ⟨ops, hbelow, houtput⟩ := ih h
          refine ⟨top :: ops, by rw [hbelow]; rfl, ?_⟩
          rw [houtput, released_cons]

theorem waiting_operators_append (ops : List Operator) (below : List Pending) :
    waiting (ops.map .operator ++ below) = ops.map Token.operator ++ waiting below := by
  induction ops with
  | nil => rfl
  | cons op ops ih => rw [List.map_cons, List.cons_append, waiting, ih]; rfl

/-- Behind a number stands nothing that was read after it, in an output with its latest
token first. -/
def Ordered (output : List (Token × Nat)) : Prop :=
  output.Pairwise fun later earlier => later.1.isNumber = true → earlier.2 < later.2

/-- A conversion under way holds the tokens that were taken, each with its place, and no
operator of the output has overtaken a number. -/
def Holds (c : Conversion) (taken : List (Token × Nat)) : Prop :=
  ∃ output wait : List (Token × Nat), output.map Prod.fst = c.output ∧
    wait.map Prod.fst = waiting c.pending ∧ (output ++ wait).Perm taken ∧ Ordered output

/-- Operators that are released are put behind the output, where they may stand. -/
theorem Holds.released {output : List Token} {ops : List Operator} {below : List Pending}
    {taken : List (Token × Nat)} (h : Holds ⟨output, ops.map .operator ++ below⟩ taken) :
    Holds ⟨released ops output, below⟩ taken := by
  obtain ⟨out, wait, hout, hwait, hperm, hordered⟩ := h
  rw [waiting_operators_append] at hwait
  obtain ⟨moved, rest, hsplit, hmoved, hrest⟩ := List.map_eq_append_iff.mp hwait
  have hoperator : ∀ p ∈ moved.reverse, ∀ q : Token × Nat, p.1.isNumber = true → q.2 < p.2 := by
    intro p hp q hnumber
    have hfst : p.1 ∈ ops.map Token.operator := by
      rw [← hmoved]
      exact List.mem_map_of_mem (List.mem_reverse.mp hp)
    obtain ⟨op, -, hop⟩ := List.mem_map.mp hfst
    rw [← hop] at hnumber
    cases hnumber
  refine ⟨moved.reverse ++ out, rest, ?_, hrest, ?_, ?_⟩
  · rw [List.map_append, List.map_reverse, hmoved, hout]
    rfl
  · calc moved.reverse ++ out ++ rest
        = moved.reverse ++ (out ++ rest) := List.append_assoc _ _ _
      _ ~ moved ++ (out ++ rest) := (List.reverse_perm moved).append_right _
      _ ~ out ++ (moved ++ rest) := List.perm_append_comm_assoc _ _ _
      _ ~ taken := by rw [← hsplit]; exact hperm
  · exact List.pairwise_append.mpr
      ⟨List.pairwise_of_forall_mem_list fun p hp q _ => hoperator p hp q, hordered,
        fun p hp q _ => hoperator p hp q⟩

theorem Holds.step {c d : Conversion} {t : Token} {taken : List (Token × Nat)} {n : Nat}
    (h : c.Holds taken) (hplaces : ∀ p ∈ taken, p.2 < n) (hs : c.step t = .ok d) :
    d.Holds (Token.keptFrom n [t] ++ taken) := by
  cases t with
  | number value =>
      cases hs
      obtain ⟨out, wait, hout, hwait, hperm, hordered⟩ := h
      refine ⟨(.number value, n) :: out, wait, by rw [List.map_cons, hout], hwait, hperm.cons _, ?_⟩
      -- All that is in the output was taken before the number.
      refine List.pairwise_cons.mpr ⟨fun p hp _ => ?_, hordered⟩
      exact hplaces p (hperm.subset (List.mem_append_left _ hp))
  | operator op =>
      cases hs
      obtain ⟨ops, below, hpending, hrelease⟩ := exists_released op c.output c.pending
      have hreleased : Holds ⟨Conversion.released ops c.output, below⟩ taken := by
        apply Holds.released
        rw [← hpending]
        exact h
      obtain ⟨out, wait, hout, hwait, hperm, hordered⟩ := hreleased
      rw [hrelease]
      refine ⟨out, (.operator op, n) :: wait, hout, by rw [List.map_cons, hwait]; rfl, ?_, hordered⟩
      exact List.perm_middle.trans (hperm.cons _)
  | leftParen =>
      cases hs
      exact h
  | rightParen =>
      obtain ⟨ops, hpending, houtput⟩ := exists_released_of_close hs
      have hreleased : Holds ⟨Conversion.released ops c.output, .group :: d.pending⟩ taken := by
        apply Holds.released
        rw [← hpending]
        exact h
      rw [← houtput] at hreleased
      exact hreleased
  | emptyGroup => cases hs

theorem Holds.finish {c : Conversion} {taken : List (Token × Nat)} {rpn : List Token}
    (h : c.Holds taken) (hf : finish c.output c.pending = .ok rpn) :
    ∃ placed : List (Token × Nat), placed.map Prod.fst = rpn ∧ placed ~ taken ∧
      placed.Pairwise fun earlier later => later.1.isNumber = true → earlier.2 < later.2 := by
  obtain ⟨ops, hpending, hrpn⟩ := exists_released_of_finish hf
  have hreleased : Holds ⟨Conversion.released ops c.output, []⟩ taken := by
    apply Holds.released
    rw [List.append_nil, ← hpending]
    exact h
  obtain ⟨out, wait, hout, hwait, hperm, hordered⟩ := hreleased
  rw [List.map_eq_nil_iff.mp hwait, List.append_nil] at hperm
  refine ⟨out.reverse, by rw [List.map_reverse, hout, hrpn], (List.reverse_perm out).trans hperm, ?_⟩
  exact List.pairwise_reverse.mpr hordered

theorem Holds.convert {c : Conversion} {taken : List (Token × Nat)} {n : Nat}
    {tokens rpn : List Token} (h : c.Holds taken) (hplaces : ∀ p ∈ taken, p.2 < n)
    (hc : convert c tokens = .ok rpn) :
    ∃ placed : List (Token × Nat), placed.map Prod.fst = rpn ∧
      placed ~ Token.keptFrom n tokens ++ taken ∧
      placed.Pairwise fun earlier later => later.1.isNumber = true → earlier.2 < later.2 := by
  induction tokens generalizing c taken n with
  | nil => exact h.finish hc
  | cons t rest ih =>
      rw [convert_cons] at hc
      cases hs : c.step t with
      | error defect => simp [hs] at hc
      | ok next =>
          simp only [hs] at hc
          have hnext : ∀ p ∈ Token.keptFrom n [t] ++ taken, p.2 < n + 1 := by
            intro p hp
            rcases List.mem_append.mp hp with hp | hp
            · have hplace := Token.snd_of_mem_keptFrom hp
              simp only [List.length_singleton] at hplace
              exact hplace.2
            · exact Nat.lt_succ_of_lt (hplaces p hp)
          obtain ⟨placed, hfst, hperm, hordered⟩ := ih (h.step hplaces hs) hnext hc
          refine ⟨placed, hfst, ?_, hordered⟩
          rw [Token.keptFrom_cons, List.append_assoc]
          exact hperm.trans (List.perm_append_comm_assoc _ _ _)

end Rpn.Conversion

namespace Rpn

theorem exists_placed {tokens rpn : List Token} (h : ofTokens tokens = .ok rpn) :
    ∃ placed : List (Token × Nat), placed.map Prod.fst = rpn ∧
      placed.Perm (tokens.zipIdx.filter (·.1.isKept)) ∧
      placed.Pairwise fun earlier later => later.1.isNumber = true → earlier.2 < later.2 := by
  have hstart : Conversion.start.Holds [] := ⟨[], [], rfl, rfl, .nil, .nil⟩
  obtain ⟨placed, hfst, hperm, hordered⟩ := hstart.convert (n := 0) (by simp) h
  rw [List.append_nil] at hperm
  exact ⟨placed, hfst, hperm, hordered⟩

theorem filter_eq_map_filter_zipIdx (q : Token → Bool) (tokens : List Token) :
    tokens.filter q = (tokens.zipIdx.filter (q ·.1)).map Prod.fst := by
  conv_lhs => rw [← List.zipIdx_map_fst 0 tokens, List.filter_map]
  rfl

/-- The numbers are in the order of their places, which is the order they had. -/
theorem filter_isNumber_eq {tokens rpn : List Token} (h : ofTokens tokens = .ok rpn) :
    rpn.filter Token.isNumber = tokens.filter Token.isNumber := by
  obtain ⟨placed, hfst, hperm, hordered⟩ := exists_placed h
  have hsorted : (placed.filter (·.1.isNumber)).Pairwise fun a b => a.2 < b.2 := by
    refine List.Pairwise.imp_of_mem ?_ (hordered.filter _)
    intro a b _ hb hab
    exact hab (List.mem_filter.mp hb).2
  have hplaces : (tokens.zipIdx.filter (·.1.isNumber)).Pairwise fun a b => a.2 < b.2 :=
    (Token.pairwise_zipIdx tokens 0).filter _
  have hnumbers : (placed.filter (·.1.isNumber)).Perm (tokens.zipIdx.filter (·.1.isNumber)) := by
    have hfilter := hperm.filter (·.1.isNumber)
    have hkept (p : Token × Nat) : (p.1.isNumber && p.1.isKept) = p.1.isNumber := by
      cases hp : p.1.isNumber with
      | true => exact Token.isKept_of_isNumber hp
      | false => rfl
    simpa only [List.filter_filter, hkept] using hfilter
  have heq : placed.filter (·.1.isNumber) = tokens.zipIdx.filter (·.1.isNumber) :=
    hnumbers.eq_of_pairwise (fun a b _ _ hab hba => absurd hab (Nat.lt_asymm hba)) hsorted hplaces
  calc rpn.filter Token.isNumber
      = (placed.filter (·.1.isNumber)).map Prod.fst := by
        rw [← hfst, List.filter_map]
        rfl
    _ = (tokens.zipIdx.filter (·.1.isNumber)).map Prod.fst := by rw [heq]
    _ = tokens.filter Token.isNumber := (filter_eq_map_filter_zipIdx _ tokens).symm

/-- A list is converted when it has no empty group and its parentheses are balanced. The
output is then made of its numbers and operators, the numbers in their order, and can be
traced back to their places such that what stands before a number, be it a number or an
operator, came before it. -/
theorem ofTokens_keeps_order (tokens : List Token) :
    ((∃ rpn, ofTokens tokens = .ok rpn) ↔
      .emptyGroup ∉ tokens ∧ Balanced .leftParen .rightParen 0 tokens) ∧
    ∀ rpn, ofTokens tokens = .ok rpn →
      (∀ t ∈ rpn, t ≠ .leftParen ∧ t ≠ .rightParen ∧ t ≠ .emptyGroup) ∧
      rpn.Perm (tokens.filter Token.isKept) ∧
      rpn.filter Token.isNumber = tokens.filter Token.isNumber ∧
      ∃ placed : List (Token × Nat), placed.map Prod.fst = rpn ∧
        placed.Perm (tokens.zipIdx.filter (·.1.isKept)) ∧
        placed.Pairwise fun earlier later => later.1.isNumber = true → earlier.2 < later.2 := by
  refine ⟨(exists_ofTokens_iff tokens).trans nested_iff_balanced, fun rpn h => ?_⟩
  have hperm := ofTokens_perm h
  refine ⟨fun t ht => ?_, hperm, filter_isNumber_eq h, exists_placed h⟩
  have hkept : t.isKept = true := (List.mem_filter.mp (hperm.subset ht)).2
  cases t with
  | number value => simp
  | operator op => simp
  | _ => cases hkept

end Rpn

end Calculator
