import Calculator.Session.Answer
import Calculator.Text.Lines

/-!
# The console

The console writes a prompt before it reads a line. A line is taken without the
blanks around it: a blank line is passed over, the exit command ends the session,
and any other line is evaluated. The session also ends with the input, or at a
line that is not text. The running service reads its input only for the exit
command, by the same rules.
-/

namespace Calculator.Session

/-- The command that ends the console and the service. -/
def exitCommand : String := "exit"

/-- A line, without the blanks around it, is the exit command. -/
def isExit (line : String) : Bool :=
  Text.trim line == exitCommand

inductive Ending
  | exit
  | endOfInput
  | undecodable
  deriving DecidableEq

/-- What the console does about a line, and how the session ends if it does. -/
structure Reply where
  actions : List Action
  ending : Option Ending

def prompt : Action :=
  .write .answers "Expression : "

def closing : List Action :=
  [.write .answers "\n", .announce ⟨none, .inputEnded⟩]

/-- The reply to a line, of which `none` is one that is not text. -/
def reply (traced : Bool) : Option String → Reply
  | none => ⟨[], some .undecodable⟩
  | some line =>
    if isExit line then ⟨[.announce ⟨none, .exitReceived⟩], some .exit⟩
    else
      let line := Text.trim line
      if line.isEmpty then ⟨[], none⟩ else ⟨consoleAnswer line traced, none⟩

/-- Goes on behind the actions `done`, latest first. -/
def consoleFrom (traced : Bool) (done : List Action) : List (Option String) → List Action × Ending
  | [] => ((closing.reverse ++ prompt :: done).reverse, .endOfInput)
  | line :: rest =>
    let reply := reply traced line
    let done := reply.actions.reverse ++ prompt :: done
    match reply.ending with
    | some ending => (done.reverse, ending)
    | none => consoleFrom traced done rest

def console (traced : Bool) (input : List UInt8) : List Action × Ending :=
  consoleFrom traced [] (Text.textLines input)

/-- The exit command comes before the first line that is not text. -/
def asksExit : List (Option String) → Bool
  | some line :: rest => isExit line || asksExit rest
  | _ => false

end Calculator.Session
