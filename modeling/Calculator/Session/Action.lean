import Calculator.Event

/-!
# Text sessions

A text session writes texts on two channels, one for answers and one for
complaints, and announces events. It is described by the list of its actions, in
order. A sink takes the texts of one channel, perhaps up to a limit in bytes; the
write that goes past the limit leaves what still fits and ends the session.
-/

namespace Calculator.Session

inductive Channel
  | answers
  | complaints
  deriving DecidableEq

inductive Action
  | write (channel : Channel) (text : String)
  | announce (occurrence : Occurrence)
  deriving DecidableEq

/-- Where a channel's texts go. -/
structure Sink where
  limit : Option Nat
  written : String
  deriving DecidableEq

/-- The characters at the front that fit into a number of bytes, behind `taken`, latest first. -/
def fittingFrom (taken : List Char) (room : Nat) : List Char → List Char
  | [] => taken.reverse
  | c :: rest =>
    if c.utf8Size ≤ room then fittingFrom (c :: taken) (room - c.utf8Size) rest
    else taken.reverse

/-- The longest beginning of a text that fits into a number of bytes. -/
def fitting (room : Nat) (text : String) : String :=
  String.ofList (fittingFrom [] room text.toList)

namespace Sink

def fits (sink : Sink) (text : String) : Bool :=
  match sink.limit with
  | none => true
  | some limit => sink.written.utf8ByteSize + text.utf8ByteSize ≤ limit

/-- Takes the text, or as much of it as fits. -/
def write (sink : Sink) (text : String) : Sink :=
  if sink.fits text then ⟨sink.limit, sink.written ++ text⟩
  else
    let room := sink.limit.getD 0 - sink.written.utf8ByteSize
    ⟨sink.limit, sink.written ++ fitting room text⟩

end Sink

/-- A session under way: its two sinks, what was announced, latest first, and whether
a write went past its limit. -/
structure Performance where
  answers : Sink
  complaints : Sink
  announced : List Occurrence
  overflowed : Bool
  deriving DecidableEq

namespace Performance

def start (limit : Option Nat) : Performance :=
  ⟨⟨limit, ""⟩, ⟨limit, ""⟩, [], false⟩

def step : Performance → Action → Performance
  | ⟨answers, complaints, announced, _⟩, .write .answers text =>
    let overflowed := !answers.fits text
    ⟨answers.write text, complaints, announced, overflowed⟩
  | ⟨answers, complaints, announced, _⟩, .write .complaints text =>
    let overflowed := !complaints.fits text
    ⟨answers, complaints.write text, announced, overflowed⟩
  | ⟨answers, complaints, announced, overflowed⟩, .announce occurrence =>
    ⟨answers, complaints, occurrence :: announced, overflowed⟩

/-- Carries out the actions, up to the first write that goes past its limit. -/
def run (p : Performance) : List Action → Performance
  | [] => p
  | action :: rest =>
    let next := p.step action
    if next.overflowed then next else next.run rest

def occurrences (p : Performance) : List Occurrence :=
  p.announced.reverse

end Performance

/-- Carries out a session whose sinks have the given limit. -/
def perform (limit : Option Nat) (actions : List Action) : Performance :=
  (Performance.start limit).run actions

end Calculator.Session
