import Calculator.Evaluation
import Calculator.Proofs.Conversion
import Calculator.Proofs.Lexeme

/-!
# The outcome of an evaluation

A caller is told the value of an expression or one of two failures. Whatever the
alphabet check refuses the scanner refuses too, with the same failure, so the
outcome of an evaluation is that of its tokens when the stripped text has tokens,
and an invalid expression otherwise.
-/

namespace Calculator

namespace Token

/-- What a caller is told about an expression with these tokens. -/
def outcome (tokens : List Token) : Except Failure Float :=
  match Rpn.ofTokens tokens with
  | .ok rpn =>
    match Rpn.value rpn with
    | .ok value => .ok value
    | .error fault => .error fault.failure
  | .error _ => .error .invalidExpression

theorem outcome_eq_ok_iff {tokens : List Token} {v : Float} :
    outcome tokens = .ok v ↔ ∃ rpn, Rpn.ofTokens tokens = .ok rpn ∧ Rpn.value rpn = .ok v := by
  unfold outcome
  cases Rpn.ofTokens tokens with
  | error defect => simp
  | ok rpn => cases hv : Rpn.value rpn <;> simp [hv]

end Token

/-- The value of a tree, or the failure of the division by zero in it. -/
def Tree.outcome (t : Tree Float) : Except Failure Float :=
  match t.value with
  | some v => .ok v
  | none => .error .divisionByZero

theorem Tree.outcome_eq_ok_iff {t : Tree Float} {v : Float} :
    t.outcome = .ok v ↔ t.value = some v := by
  unfold outcome
  cases t.value <;> simp

theorem isAllowed_of_isDigit {c : Char} (h : c.isDigit = true) : isAllowed c = true := by
  simp [isAllowed, h]

theorem Operator.isAllowed_symbol (op : Operator) : isAllowed op.symbol = true := by
  cases op <;> decide

namespace Lexeme

theorem Fits.all_isAllowed {signed : Bool} {rest : List Char} {x : Lexeme}
    (hx : x.Fits signed rest) : ∀ c ∈ x.text, isAllowed c = true := by
  cases x with
  | literal l =>
      intro c hc
      rcases hx.1.mem_text hc with rfl | rfl | hdigit
      · decide
      · decide
      · exact isAllowed_of_isDigit hdigit
  | operator op => simpa [text] using op.isAllowed_symbol
  | leftParen => simp [text]; decide
  | rightParen => simp [text]; decide
  | emptyGroup => simp [text]; decide

theorem Chain.all_isAllowed {signed : Bool} {xs : List Lexeme} (h : Chain signed xs) :
    ∀ c ∈ texts xs, isAllowed c = true := by
  induction xs generalizing signed with
  | nil => simp
  | cons x xs ih =>
      obtain ⟨hx, hxs⟩ := h
      intro c hc
      rw [texts_cons, List.mem_append] at hc
      rcases hc with hc | hc
      · exact hx.all_isAllowed c hc
      · exact ih hxs c hc

end Lexeme

/-- The scanner refuses all that the alphabet check refuses. -/
theorem isValid_of_scan {text : String} {tokens : List Token} (h : Token.scan text = .ok tokens) :
    isValid text = true := by
  obtain ⟨xs, hxs, htext, -⟩ := Token.scan_eq_ok_iff.mp h
  rw [isValid, htext]
  exact List.all_eq_true.mpr hxs.all_isAllowed

theorem outcome_ofEntry (entry : String) :
    (Progress.ofEntry entry).outcome =
      match Token.scan entry with
      | .ok tokens => Token.outcome tokens
      | .error _ => .error .invalidExpression := by
  unfold Progress.ofEntry
  cases hs : Token.scan entry with
  | error defect => split <;> rfl
  | ok tokens =>
      rw [if_pos (isValid_of_scan hs)]
      dsimp only
      unfold Token.outcome
      cases Rpn.ofTokens tokens with
      | error defect => rfl
      | ok rpn =>
          dsimp only [Rpn.value]
          cases (Rpn.calculate rpn).outcome <;> rfl

theorem evaluate_eq (s : String) :
    evaluate s =
      match Token.scan (Text.strip s) with
      | .ok tokens => Token.outcome tokens
      | .error _ => .error .invalidExpression := by
  simp only [evaluate, Evaluation.ofExpression, Evaluation.outcome, outcome_ofEntry]

theorem evaluate_eq_ok_iff {s : String} {v : Float} :
    evaluate s = .ok v ↔
      ∃ tokens rpn, Token.scan (Text.strip s) = .ok tokens ∧ Rpn.ofTokens tokens = .ok rpn ∧
        Rpn.value rpn = .ok v := by
  rw [evaluate_eq]
  cases Token.scan (Text.strip s) with
  | error defect => simp
  | ok tokens => simp [Token.outcome_eq_ok_iff]

end Calculator
