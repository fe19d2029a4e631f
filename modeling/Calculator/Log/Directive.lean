import Calculator.Log.Pattern
import Calculator.Log.Target

/-!
# Log directives

A directive gives a verbosity to the records it speaks of: those whose target begins
with a text, and perhaps only those inside a span of some name, or those with a field
of some name, or those inside a span whose field has a value of some form.

A directive without a span name and a value is settled by the record alone. One with a
span name or a field also speaks of everything inside a span that it fits.
-/

namespace Calculator.Log

/-- What a directive asks of a field's value. A truth value or a number has no pattern;
no text has such a value. -/
structure Expectation where
  text : List Char
  pattern : Option Pattern
  deriving DecidableEq

def Expectation.holds (e : Expectation) (text : List Char) : Bool :=
  e.pattern.any (·.holds text)

structure FieldCondition where
  name : List Char
  expectation : Option Expectation
  deriving DecidableEq

/-- The records that a directive speaks of. An empty target begins every other. -/
structure Subject where
  target : List Char
  span : Option (List Char)
  field : Option FieldCondition
  deriving DecidableEq

structure Directive where
  subject : Subject
  verbosity : Nat
  deriving DecidableEq

namespace Subject

def everything : Subject := ⟨[], none, none⟩

def fitsTarget (s : Subject) (target : String) : Bool :=
  s.target.isPrefixOf target.toList

def asksValue (s : Subject) : Bool :=
  s.field.any (·.expectation.isSome)

/-- A record alone shows whether it belongs to the subject. -/
def ofRecords (s : Subject) : Bool :=
  s.span.isNone && !s.asksValue

/-- What is inside a span can belong to the subject. -/
def ofSpans (s : Subject) : Bool :=
  s.span.isSome || s.field.isSome

/-- A record with the target and fields belongs to the subject. -/
def fitsRecord (s : Subject) (target : String) (fields : List String) : Bool :=
  s.ofRecords && s.fitsTarget target && s.field.all fun f => fields.any (·.toList == f.name)

/-- The span of an evaluation is looked at by its target alone, whatever its fields. -/
def fitsSpanAlone (s : Subject) : Bool :=
  s.ofRecords && s.fitsTarget spanTarget

/-- The span of an evaluation is one that the subject names, whatever the expression. -/
def namesSpan (s : Subject) : Bool :=
  s.ofSpans && s.fitsTarget spanTarget && s.span.all (· == spanName.toList) &&
    s.field.all (·.name == spanField.toList)

def fitsExpression (s : Subject) (expression : String) : Bool :=
  s.field.all fun f => f.expectation.all (·.holds expression.toList)

/-- Of two subjects that a record belongs to, `s` is the narrower one: it has the longer
target, or else a field, or else the later field in the order of names. -/
def narrower (s t : Subject) : Bool :=
  if s.target.length ≠ t.target.length then t.target.length < s.target.length
  else match s.field, t.field with
    | none, _ => false
    | some _, none => true
    | some f, some g => g.name.lex f.name fun c d => c.toNat < d.toNat

end Subject

end Calculator.Log
