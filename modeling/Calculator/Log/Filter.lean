import Calculator.Event
import Calculator.Log.Directive.Reader

/-!
# Log filters

A filter is a list of directives between commas; one that cannot be read shows warnings
and errors. Of two directives on the same subject the later one holds. A record is
shown if the narrowest directive that it belongs to is verbose enough, or if it was made
inside an evaluation whose span a directive names.

No record is shown above the ceiling of the filter. The ceiling is that of all
directives, also of those that a later one replaced; a directive that asks for a value
lifts it altogether.
-/

namespace Calculator.Log

structure Filter where
  directives : List Directive
  deriving DecidableEq

namespace Filter

/-- Shows what reaches a level, whatever its target. -/
def atLeast (level : Level) : Filter := ⟨[⟨.everything, level.verbosity⟩]⟩

/-- The directives of a text, if all can be read. A text without any shows errors only. -/
def ofText? (text : String) : Option Filter :=
  let pieces := (text.toList.splitOn ',').filter fun piece => !piece.isEmpty
  if pieces.isEmpty then some (atLeast .error) else (pieces.mapM Directive.ofText?).map (⟨·⟩)

def ofText (text : String) : Filter :=
  (ofText? text).getD (atLeast .warn)

/-- The last directive on each subject. -/
def lasting : List Directive → List Directive
  | [] => []
  | d :: ds => if ds.any (·.subject == d.subject) then lasting ds else d :: lasting ds

def highest (directives : List Directive) : Nat :=
  directives.foldl (fun n d => max n d.verbosity) 0

/-- The verbosity that no record exceeds. -/
def ceiling (f : Filter) : Nat :=
  if f.directives.any (·.subject.asksValue) then fullVerbosity else highest f.directives

def narrowest? (directives : List Directive) : Option Directive :=
  directives.foldl (fun best d =>
    if best.all fun b => d.subject.narrower b.subject then some d else best) none

/-- The narrowest directive on one of the subjects is verbose enough for the level. -/
def admits (f : Filter) (fits : Subject → Bool) (level : Level) : Bool :=
  (narrowest? ((lasting f.directives).filter fun d => fits d.subject)).any fun d =>
    level.verbosity ≤ d.verbosity

def naming (f : Filter) : List Directive :=
  (lasting f.directives).filter (·.subject.namesSpan)

def opensSpan (f : Filter) : Bool :=
  spanLevel.verbosity ≤ f.ceiling &&
    (!f.naming.isEmpty || f.admits Subject.fitsSpanAlone spanLevel)

/-- The verbosity of records made while the expression is evaluated, by the directives
that name the span. -/
def verbosityInside (f : Filter) (expression : String) : Nat :=
  if f.opensSpan then highest (f.naming.filter fun d => d.subject.fitsExpression expression) else 0

/-- A record is shown. It is made while the expression, if any, is evaluated. -/
def shows (f : Filter) (r : Record) (expression : Option String) : Bool :=
  r.level.verbosity ≤ f.ceiling &&
    (f.admits (·.fitsRecord (target r.source) ("message" :: r.fields.map (·.1))) r.level ||
      expression.any fun e => r.level.verbosity ≤ f.verbosityInside e)

end Filter

end Calculator.Log
