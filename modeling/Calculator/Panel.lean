import Calculator.Event

/-!
# The panel

The panel of the calculator window holds the entry line, the last result, the
error message, the trace of the last evaluation, and whether the entry line is to
get the focus. A failed evaluation keeps the result of the one before it. The
spaces that the keypad puts around operators are there for the eye only: without
blanks, the entry is the sequence of the keys typed.
-/

namespace Calculator

structure Panel where
  entry : String
  result : String
  error : String
  trace : Trace
  focus : Bool
  deriving DecidableEq

/-- A key of the pad that types a symbol. -/
inductive SymbolKey
  | digit (d : Fin 10)
  | point
  | opening
  | closing
  | operator (op : Operator)
  deriving DecidableEq

def SymbolKey.symbol : SymbolKey → Char
  | .digit d => Char.ofNat ('0'.toNat + d)
  | .point => '.'
  | .opening => '('
  | .closing => ')'
  | .operator op => op.symbol

inductive Key
  | symbol (key : SymbolKey)
  | equals
  | clearEntry
  | clearResults
  | clearAll
  | delete
  deriving DecidableEq

namespace Panel

def fresh : Panel := ⟨"", "", "", .empty, true⟩

def edit (p : Panel) (entry : String) : Panel :=
  { p with entry := entry }

def clearEntry (p : Panel) : Panel :=
  { p with entry := "", focus := true }

def clearResults (p : Panel) : Panel :=
  { p with result := "", error := "", trace := .empty, focus := true }

def clearAll (p : Panel) : Panel :=
  { p with entry := "", result := "", error := "", trace := .empty, focus := true }

/-- The entry without its last symbol and the blanks on both sides of it. -/
def withoutLast (entry : String) : String :=
  let kept := (Text.dropTrailing Text.isBlank entry).toList.dropLast
  Text.dropTrailing Text.isBlank (String.ofList kept)

def delete (p : Panel) : Panel :=
  { p with entry := withoutLast p.entry, focus := true }

/-- The entry with a symbol typed behind it. An operator gets a space on each side,
except on its left at the start; a closing parenthesis takes no space on its left. -/
def typed (key : SymbolKey) (entry : String) : String :=
  let trimmed := Text.dropTrailing (· == ' ') entry
  match key with
  | .operator op =>
    (if trimmed.isEmpty then "" else trimmed ++ " ").push op.symbol |>.push ' '
  | .closing => trimmed.push ')'
  | key => entry.push key.symbol

def type (p : Panel) (key : SymbolKey) : Panel :=
  { p with entry := typed key p.entry, focus := true }

/-- Shows a result and its trace. -/
def showResult (p : Panel) (result : String) (trace : Trace) : Panel :=
  { p with result := result, error := "", trace := trace, focus := true }

/-- Shows an error and its trace beside the result before it. -/
def showError (p : Panel) (error : String) (trace : Trace) : Panel :=
  { p with error := error, trace := trace, focus := true }

def evaluate (p : Panel) : Panel :=
  let e := Evaluation.ofExpression p.entry
  match e.outcome with
  | .ok value => p.showResult (Number.text value) e.trace
  | .error failure => p.showError failure.message e.trace

def press (p : Panel) : Key → Panel
  | .symbol key => p.type key
  | .equals => p.evaluate
  | .clearEntry => p.clearEntry
  | .clearResults => p.clearResults
  | .clearAll => p.clearAll
  | .delete => p.delete

/-- What is announced when a key is pressed: the events of the evaluation, if there is one. -/
def announcements (p : Panel) : Key → List Occurrence
  | .equals => (Evaluation.ofExpression p.entry).occurrences true
  | _ => []

end Panel

end Calculator
