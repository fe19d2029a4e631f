import Calculator.Log.Filter

/-!
# Log lines

A line of the log gives the level, the expression under evaluation, the target,
the message and the fields of a record. The expression is given only where the
log tells of the span of an evaluation.
-/

namespace Calculator.Log

def field (name : String) (value : FieldValue) : String :=
  name ++ "=" ++ match value with
    | .number x => Number.logged.write x
    | .plain text => text
    | .quoted text => "\"" ++ text ++ "\""

/-- The part of a line that gives the expression under evaluation. -/
def context (filter : Filter) (expression : Option String) : String :=
  match expression with
  | none => ""
  | some expression =>
    if filter.opensSpan then
      spanName ++ "\x7b" ++ spanField ++ "=" ++ expression ++ "\x7d: "
    else ""

def line? (filter : Filter) (o : Occurrence) : Option String :=
  let record := o.event.record
  if filter.shows record o.expression then
    let fields := record.fields.map fun (name, value) => " " ++ field name value
    some (record.level.text ++ " " ++ context filter o.expression ++ target record.source ++ ": " ++
      record.message ++ String.join fields)
  else none

def lines (filter : Filter) (occurrences : List Occurrence) : List String :=
  occurrences.filterMap (line? filter)

end Calculator.Log
