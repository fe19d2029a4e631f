import Calculator.Panel
import Calculator.Proofs.Tracing

/-!
# Typing on the keypad

Without its blanks, the entry line is a stack of symbols: a symbol key pushes its symbol,
and the delete key takes the latest one away. The spaces around operators, which one key
puts in and another takes out, never stand for a symbol and never hide one. So the equals
key evaluates the symbols of the stack.
-/

namespace Calculator

theorem SymbolKey.isBlank_symbol (key : SymbolKey) : Text.isBlank key.symbol = false := by
  cases key with
  | digit d => decide +revert
  | point | opening | closing => decide
  | operator op => cases op <;> decide

theorem Operator.isBlank_symbol (op : Operator) : Text.isBlank op.symbol = false :=
  SymbolKey.isBlank_symbol (.operator op)

/-- A digit, the point or the opening parenthesis, which is typed as it is wherever it comes. -/
structure SymbolKey.IsPlain (key : SymbolKey) : Prop where
  ne_operator : ∀ op : Operator, key.symbol ≠ op.symbol
  ne_closing : key.symbol ≠ ')'
  typed_eq : ∀ entry, Panel.typed key entry = entry.push key.symbol

theorem SymbolKey.operator_or_closing_or_plain (key : SymbolKey) :
    (∃ op, key = .operator op) ∨ key = .closing ∨ key.IsPlain := by
  cases key with
  | operator op => exact .inl ⟨op, rfl⟩
  | closing => exact .inr (.inl rfl)
  | digit d =>
      refine .inr (.inr ⟨fun op => ?_, by decide +revert, fun _ => rfl⟩)
      cases op <;> decide +revert
  | point | opening =>
      refine .inr (.inr ⟨fun op => ?_, by decide, fun _ => rfl⟩)
      cases op <;> decide

namespace Panel

theorem isBlank_of_eq_space (c : Char) (hc : (c == ' ') = true) : Text.isBlank c = true := by
  obtain rfl : c = ' ' := by simpa using hc
  decide

theorem evaluate_eq (p : Panel) :
    p.evaluate = match Calculator.evaluate p.entry with
      | .ok v => p.showResult (Number.text v) (Evaluation.ofExpression p.entry).trace
      | .error failure => p.showError failure.message (Evaluation.ofExpression p.entry).trace := by
  cases hvalue : Calculator.evaluate p.entry with
  | ok v =>
      rw [Calculator.evaluate] at hvalue
      simp only [evaluate, hvalue]
  | error failure =>
      rw [Calculator.evaluate] at hvalue
      simp only [evaluate, hvalue]

theorem entry_evaluate (p : Panel) : p.evaluate.entry = p.entry := by
  rw [evaluate_eq]
  cases Calculator.evaluate p.entry with
  | ok v => rfl
  | error failure => rfl

end Panel

end Calculator
