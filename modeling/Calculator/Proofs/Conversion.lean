import Mathlib.Data.List.Basic
import Calculator.Rpn.Conversion
import Calculator.Proofs.Calculation

/-!
# Laws of the conversion to reverse Polish notation

A conversion only ever adds to its output and never looks at it, so what was put
out before can be split off. It never looks below the parenthesis that opened
the current group either, so a group converts the same way wherever it stands:
the list of its inside is put out in one piece, and nothing else changes. From
these follow when a conversion succeeds and that it loses no number or operator.
-/

namespace Calculator.Rpn

/-- The outcome of going on with a conversion under way. -/
def convert (c : Conversion) (tokens : List Token) : Except Defect (List Token) :=
  match c.run tokens with
  | .ok d => Conversion.finish d.output d.pending
  | .error defect => .error defect

theorem ofTokens_eq_convert (tokens : List Token) :
    ofTokens tokens = convert Conversion.start tokens := rfl

namespace Conversion

theorem run_append_of_ok {c d : Conversion} {a : List Token} (h : c.run a = .ok d)
    (b : List Token) : c.run (a ++ b) = d.run b := by
  induction a generalizing c with
  | nil =>
      cases h
      rfl
  | cons t a ih =>
      simp only [List.cons_append, run] at h ⊢
      cases hs : c.step t with
      | error defect => simp [hs] at h
      | ok next =>
          simp only [hs] at h
          exact ih h

theorem run_append_of_error {c : Conversion} {a : List Token} {defect : Defect}
    (h : c.run a = .error defect) (b : List Token) : c.run (a ++ b) = .error defect := by
  induction a generalizing c with
  | nil => cases h
  | cons t a ih =>
      simp only [List.cons_append, run] at h ⊢
      cases hs : c.step t with
      | error => simpa [hs] using h
      | ok next =>
          simp only [hs] at h
          exact ih h

/-- The conversion with more output from before it. -/
def onto (c : Conversion) (before : List Token) : Conversion :=
  ⟨c.output ++ before, c.pending⟩

theorem release_onto (op : Operator) (output before : List Token) (pending : List Pending) :
    release op (output ++ before) pending = (release op output pending).onto before := by
  induction pending generalizing output with
  | nil => rfl
  | cons p below ih =>
      cases p with
      | group => rfl
      | operator top =>
          simp only [release]
          split
          · rfl
          · exact ih (.operator top :: output)

theorem close_onto (output before : List Token) (pending : List Pending) :
    close (output ++ before) pending = (close output pending).map (onto · before) := by
  induction pending generalizing output with
  | nil => rfl
  | cons p below ih =>
      cases p with
      | group => rfl
      | operator top => exact ih (.operator top :: output)

theorem step_onto (c : Conversion) (before : List Token) (t : Token) :
    (c.onto before).step t = (c.step t).map (onto · before) := by
  cases t with
  | operator op =>
      simp only [step, onto, Except.map, release_onto]
  | rightParen => exact close_onto c.output before c.pending
  | number value => rfl
  | leftParen => rfl
  | emptyGroup => rfl

theorem run_onto (c : Conversion) (before tokens : List Token) :
    (c.onto before).run tokens = (c.run tokens).map (onto · before) := by
  induction tokens generalizing c with
  | nil => rfl
  | cons t rest ih =>
      simp only [run, step_onto]
      cases c.step t with
      | error defect => rfl
      | ok next => exact ih next

theorem finish_onto (output before : List Token) (pending : List Pending) :
    finish (output ++ before) pending = (finish output pending).map (before.reverse ++ ·) := by
  induction pending generalizing output with
  | nil => simp [finish, Except.map]
  | cons p below ih =>
      cases p with
      | group => rfl
      | operator top => exact ih (.operator top :: output)

end Conversion

/-- The output from before stands at the front of the whole list. -/
theorem convert_onto (c : Conversion) (before tokens : List Token) :
    convert (c.onto before) tokens = (convert c tokens).map (before.reverse ++ ·) := by
  simp only [convert, Conversion.run_onto]
  cases c.run tokens with
  | error defect => rfl
  | ok d => exact Conversion.finish_onto d.output before d.pending

namespace Conversion

/-- The conversion as it goes on inside a group that was opened in `outer`. -/
def within (c outer : Conversion) : Conversion :=
  ⟨c.output ++ outer.output, c.pending ++ .group :: outer.pending⟩

theorem release_within (op : Operator) (output : List Token) (pending : List Pending)
    (outer : Conversion) :
    release op (output ++ outer.output) (pending ++ .group :: outer.pending) =
      (release op output pending).within outer := by
  induction pending generalizing output with
  | nil => rfl
  | cons p below ih =>
      cases p with
      | group => rfl
      | operator top =>
          simp only [List.cons_append, release]
          split
          · rfl
          · exact ih (.operator top :: output)

theorem close_within {output : List Token} {pending : List Pending} {d : Conversion}
    (h : close output pending = .ok d) (outer : Conversion) :
    close (output ++ outer.output) (pending ++ .group :: outer.pending) =
      .ok (d.within outer) := by
  induction pending generalizing output with
  | nil => cases h
  | cons p below ih =>
      cases p with
      | group =>
          cases h
          rfl
      | operator top =>
          simp only [close] at h
          exact ih h

theorem step_within {c d : Conversion} {t : Token} (h : c.step t = .ok d) (outer : Conversion) :
    (c.within outer).step t = .ok (d.within outer) := by
  cases t with
  | number value =>
      cases h
      rfl
  | operator op =>
      cases h
      simp only [step, within, release_within, List.cons_append]
  | leftParen =>
      cases h
      rfl
  | rightParen => exact close_within h outer
  | emptyGroup => cases h

theorem run_within {c d : Conversion} {tokens : List Token} (h : c.run tokens = .ok d)
    (outer : Conversion) : (c.within outer).run tokens = .ok (d.within outer) := by
  induction tokens generalizing c with
  | nil =>
      cases h
      rfl
  | cons t rest ih =>
      simp only [run] at h ⊢
      cases hs : c.step t with
      | error defect => simp [hs] at h
      | ok next =>
          simp only [hs] at h
          rw [step_within hs outer]
          exact ih h

theorem close_of_finish {output rpn : List Token} {pending : List Pending}
    (h : finish output pending = .ok rpn) (outer : Conversion) :
    close (output ++ outer.output) (pending ++ .group :: outer.pending) =
      .ok ⟨rpn.reverse ++ outer.output, outer.pending⟩ := by
  induction pending generalizing output with
  | nil =>
      cases h
      simp [close]
  | cons p below ih =>
      cases p with
      | group => cases h
      | operator top =>
          simp only [finish] at h
          exact ih h

end Conversion

/-- A group puts out the list of its inside and leaves what waits as it was. -/
theorem Conversion.run_group {tokens rpn : List Token} (h : ofTokens tokens = .ok rpn)
    (outer : Conversion) :
    outer.run (.leftParen :: tokens ++ [.rightParen]) =
      .ok ⟨rpn.reverse ++ outer.output, outer.pending⟩ := by
  rw [ofTokens_eq_convert, convert] at h
  cases hr : start.run tokens with
  | error defect => simp [hr] at h
  | ok d =>
      simp only [hr] at h
      have hopen : outer.run (.leftParen :: tokens) = .ok (d.within outer) := run_within hr outer
      rw [run_append_of_ok hopen]
      simp only [run, step, within, close_of_finish h]

end Calculator.Rpn

namespace Calculator.Rpn

/-- The groups of the rest, and the `depth` groups open before it, are all closed in
turn, and none of them is the empty group. -/
def Nested (depth : Nat) : List Token → Prop
  | [] => depth = 0
  | .leftParen :: rest => Nested (depth + 1) rest
  | .rightParen :: rest => 0 < depth ∧ Nested (depth - 1) rest
  | .emptyGroup :: _ => False
  | .number _ :: rest => Nested depth rest
  | .operator _ :: rest => Nested depth rest

namespace Conversion

def depth (pending : List Pending) : Nat :=
  pending.count .group

@[simp] theorem depth_group (pending : List Pending) :
    depth (.group :: pending) = depth pending + 1 := by
  simp [depth]

@[simp] theorem depth_operator (op : Operator) (pending : List Pending) :
    depth (.operator op :: pending) = depth pending := by
  simp [depth]

theorem depth_release (op : Operator) (output : List Token) (pending : List Pending) :
    depth (release op output pending).pending = depth pending := by
  induction pending generalizing output with
  | nil => rfl
  | cons p below ih =>
      cases p with
      | group => rfl
      | operator top =>
          simp only [release]
          split
          · rfl
          · simpa using ih (.operator top :: output)

theorem close_cases (output : List Token) (pending : List Pending) :
    (depth pending = 0 ∧ close output pending = .error .unopenedGroup) ∨
      ∃ d, close output pending = .ok d ∧ depth pending = depth d.pending + 1 := by
  induction pending generalizing output with
  | nil => exact .inl ⟨rfl, rfl⟩
  | cons p below ih =>
      cases p with
      | group => exact .inr ⟨_, rfl, by simp⟩
      | operator top => simpa [close] using ih (.operator top :: output)

theorem finish_cases (output : List Token) (pending : List Pending) :
    (0 < depth pending ∧ finish output pending = .error .unclosedGroup) ∨
      ∃ rpn, finish output pending = .ok rpn ∧ depth pending = 0 := by
  induction pending generalizing output with
  | nil => exact .inr ⟨_, rfl, rfl⟩
  | cons p below ih =>
      cases p with
      | group => exact .inl ⟨by simp, rfl⟩
      | operator top => simpa [finish] using ih (.operator top :: output)

end Conversion

theorem convert_cons (c : Conversion) (t : Token) (rest : List Token) :
    convert c (t :: rest) =
      match c.step t with
      | .ok next => convert next rest
      | .error defect => .error defect := by
  simp only [convert, Conversion.run]
  cases c.step t <;> rfl

theorem exists_convert_iff (c : Conversion) (tokens : List Token) :
    (∃ rpn, convert c tokens = .ok rpn) ↔ Nested (Conversion.depth c.pending) tokens := by
  induction tokens generalizing c with
  | nil =>
      simp only [convert, Conversion.run, Nested]
      obtain ⟨hd, hf⟩ | ⟨rpn, hf, hd⟩ := Conversion.finish_cases c.output c.pending
      · simp only [hf]
        constructor
        · rintro ⟨_, h⟩
          cases h
        · omega
      · simp [hf, hd]
  | cons t rest ih =>
      rw [convert_cons]
      cases t with
      | number value => exact ih ⟨.number value :: c.output, c.pending⟩
      | operator op =>
          simp only [Conversion.step, Nested, ih, Conversion.depth_operator,
            Conversion.depth_release]
      | leftParen => simp only [Conversion.step, Nested, ih, Conversion.depth_group]
      | rightParen =>
          simp only [Conversion.step, Nested]
          obtain ⟨hd, hc⟩ | ⟨d, hc, hd⟩ := Conversion.close_cases c.output c.pending
          · simp [hc, hd]
          · simp [hc, hd, ih]
      | emptyGroup => simp [Conversion.step, Nested]

/-- Only the parentheses decide whether a list can be converted. -/
theorem exists_ofTokens_iff (tokens : List Token) :
    (∃ rpn, ofTokens tokens = .ok rpn) ↔ Nested 0 tokens :=
  exists_convert_iff Conversion.start tokens

end Calculator.Rpn

namespace Calculator.Token

/-- Numbers and operators reach the output of a conversion, parentheses do not. -/
def isKept : Token → Bool
  | .number _ => true
  | .operator _ => true
  | _ => false

theorem excess_filter_isKept (tokens : List Token) :
    excess (tokens.filter isKept) = excess tokens := by
  induction tokens with
  | nil => rfl
  | cons t rest ih => cases t <;> simp [List.filter_cons, isKept, ih, rise]

end Calculator.Token

namespace Calculator.Rpn

namespace Conversion

/-- The operators that wait, latest first. -/
def waiting : List Pending → List Token
  | [] => []
  | .operator op :: below => .operator op :: waiting below
  | .group :: below => waiting below

/-- All that a conversion has taken in and not dropped. -/
def held (c : Conversion) : List Token :=
  c.output ++ waiting c.pending

theorem release_perm (op : Operator) (output : List Token) (pending : List Pending) :
    (release op output pending).held.Perm (output ++ waiting pending) := by
  induction pending generalizing output with
  | nil => exact .refl _
  | cons p below ih =>
      cases p with
      | group => exact .refl _
      | operator top =>
          simp only [release]
          split
          · exact .refl _
          · exact (ih (.operator top :: output)).trans List.perm_middle.symm

theorem close_perm {output : List Token} {pending : List Pending} {d : Conversion}
    (h : close output pending = .ok d) : d.held.Perm (output ++ waiting pending) := by
  induction pending generalizing output with
  | nil => cases h
  | cons p below ih =>
      cases p with
      | group =>
          cases h
          exact .refl _
      | operator top =>
          simp only [close] at h
          exact (ih h).trans List.perm_middle.symm

theorem finish_perm {output rpn : List Token} {pending : List Pending}
    (h : finish output pending = .ok rpn) : rpn.Perm (output ++ waiting pending) := by
  induction pending generalizing output with
  | nil =>
      cases h
      simp [waiting]
  | cons p below ih =>
      cases p with
      | group => cases h
      | operator top =>
          simp only [finish] at h
          exact (ih h).trans List.perm_middle.symm

theorem step_perm {c d : Conversion} {t : Token} (h : c.step t = .ok d) :
    d.held.Perm ([t].filter Token.isKept ++ c.held) := by
  cases t with
  | number value =>
      cases h
      exact .refl _
  | operator op =>
      cases h
      exact List.perm_middle.trans ((release_perm op c.output c.pending).cons _)
  | leftParen =>
      cases h
      exact .refl _
  | rightParen => exact close_perm h
  | emptyGroup => cases h

end Conversion

theorem convert_perm {c : Conversion} {tokens rpn : List Token} (h : convert c tokens = .ok rpn) :
    rpn.Perm (tokens.filter Token.isKept ++ c.held) := by
  induction tokens generalizing c with
  | nil => exact Conversion.finish_perm h
  | cons t rest ih =>
      rw [convert_cons] at h
      cases hs : c.step t with
      | error defect => simp [hs] at h
      | ok next =>
          simp only [hs] at h
          have hsplit : (t :: rest).filter Token.isKept =
              [t].filter Token.isKept ++ rest.filter Token.isKept := List.filter_append [t] rest
          rw [hsplit, List.append_assoc]
          refine (ih h).trans ?_
          exact ((Conversion.step_perm hs).append_left _).trans (List.perm_append_comm_assoc _ _ _)

/-- A conversion keeps every number and every operator, and nothing else. -/
theorem ofTokens_perm {tokens rpn : List Token} (h : ofTokens tokens = .ok rpn) :
    rpn.Perm (tokens.filter Token.isKept) := by
  simpa [Conversion.held, Conversion.start, Conversion.waiting] using
    convert_perm (c := Conversion.start) h

theorem excess_of_value {tokens rpn : List Token} {v : Float} (h : ofTokens tokens = .ok rpn)
    (hv : value rpn = .ok v) : Token.excess tokens = 1 := by
  rw [value_eq_valueFrom] at hv
  have hrpn := length_add_excess_of_valueFrom hv
  rw [Token.excess_perm (ofTokens_perm h), Token.excess_filter_isKept] at hrpn
  simpa using hrpn

end Calculator.Rpn
