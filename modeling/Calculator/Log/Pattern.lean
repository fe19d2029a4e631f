/-!
# Patterns

A pattern describes the value that a log directive asks of a field. It may begin
anywhere in the value. Where several ways of matching are open they are ranked: an
earlier beginning goes before a later one, the left alternative before the right one,
and a greedy repetition goes on before it ends. The match is the way of the highest
rank that comes to its end, and the pattern holds for the value when the match ends
where the value ends.
-/

namespace Calculator.Log

/-- The characters within some ranges, or all others. -/
structure CharSet where
  negated : Bool
  ranges : List (Char × Char)
  deriving DecidableEq

namespace CharSet

def single (c : Char) : CharSet := ⟨false, [(c, c)]⟩

def all : CharSet := ⟨true, []⟩

/-- Every character but the line feed. -/
def onLine : CharSet := ⟨true, [('\n', '\n')]⟩

def add (s : CharSet) (low high : Char) : CharSet := { s with ranges := (low, high) :: s.ranges }

def contains (s : CharSet) (c : Char) : Bool :=
  s.ranges.any (fun (low, high) => low.toNat ≤ c.toNat && c.toNat ≤ high.toNat) != s.negated

end CharSet

inductive Pattern
  | empty
  | char (set : CharSet)
  /-- The start of the text. -/
  | start
  /-- The end of the text. -/
  | finish
  | seq (p q : Pattern)
  | alt (p q : Pattern)
  | star (greedy : Bool) (p : Pattern)
  deriving DecidableEq

namespace Pattern

def plus (greedy : Bool) (p : Pattern) : Pattern := .seq p (.star greedy p)

def optional (greedy : Bool) (p : Pattern) : Pattern :=
  if greedy then .alt p .empty else .alt .empty p

/-- One way to go on: the pattern is at its end, or a character of the set comes next. -/
inductive Way
  | done
  | take (set : CharSet) (rest : Pattern)
  deriving DecidableEq

/-- The way with `q` to match behind it. At its end it goes on in the given ways. -/
def Way.before (q : Pattern) : Way → List Way → List Way
  | .done, onward => onward
  | .take s r, _ => [.take s (.seq r q)]

/-- The ways to go on, highest rank first, `first` at the start of the text and `last`
at its end. -/
def ways (first last : Bool) : Pattern → List Way
  | .empty => [.done]
  | .char set => [.take set .empty]
  | .start => if first then [.done] else []
  | .finish => if last then [.done] else []
  | .seq p q => ((ways first last p).flatMap fun w => w.before q (ways first last q)).eraseDups
  | .alt p q => (ways first last p ++ ways first last q).eraseDups
  | .star greedy p =>
    let again := (ways first last p).flatMap fun w => w.before (.star greedy p) [.done]
    (if greedy then again ++ [.done] else .done :: again).eraseDups

/-- The ways that rank above the first end. -/
def beforeEnd (ways : List Way) : List Way :=
  ways.takeWhile (· != .done)

/-- What is still to be matched behind the character `c`. -/
def Way.after? (c : Char) : Way → Option Pattern
  | .done => none
  | .take set rest => if set.contains c then some rest else none

/-- What is still to be matched, highest rank first, behind the character `c`. -/
def step (first : Bool) (c : Char) (rests : List Pattern) : List Pattern :=
  ((beforeEnd (rests.flatMap (ways first false))).filterMap (Way.after? c)).eraseDups

/-- The pattern behind as few characters as possible. -/
def anywhere (p : Pattern) : Pattern := .seq (.star false (.char .all)) p

def holds (p : Pattern) (text : List Char) : Bool :=
  let ends (first : Bool) (rests : List Pattern) : Bool :=
    (rests.flatMap (ways first true)).contains .done
  match text with
  | [] => ends true [p.anywhere]
  | c :: text =>
    ends false (text.foldl (fun rests c => step false c rests) (step true c [p.anywhere]))

end Pattern

end Calculator.Log
