import Calculator.Event.Record

/-!
# Targets and the span of an evaluation

The target of a record names the part of the program that speaks. Records made
during an evaluation stand inside a span, which has a target, a level and a field
of its own: it names the expression under evaluation.
-/

namespace Calculator.Log

/-- The name under which the program is known. -/
def programName : String := "calculatrice_rpn"

/-- The target of a part of the program. -/
def target (source : Source) : String :=
  "::".intercalate (programName :: source.path)

/-- The span of an evaluation. -/
def spanName : String := "evaluate"

def spanTarget : String := target .evaluator

def spanLevel : Level := .debug

/-- The field of the span that holds the expression. -/
def spanField : String := "expression"

end Calculator.Log
