import Calculator.Launch

/-!
# The program

The outer layer reads arguments, surroundings and standard input, and writes what
the library says. The console is carried out line by line, so that each prompt
stands before its line is read; every other mode is one run. Log lines go to the
standard error.
-/

namespace Calculator.Program

/-- The bytes of the next line with its line feed, or none at the end of the input. -/
partial def readLine (input : IO.FS.Stream) (line : List UInt8) : IO (List UInt8) := do
  match (← input.read 1).toList with
  | [] => return line.reverse
  | 10 :: _ => return (10 :: line).reverse
  | b :: _ => readLine input (b :: line)

partial def readAll (input : IO.FS.Stream) (bytes : ByteArray) : IO ByteArray := do
  let more ← input.read 65536
  if more.isEmpty then return bytes else readAll input (bytes ++ more)

def announce (filter : Log.Filter) (o : Occurrence) : IO Unit :=
  match Log.line? filter o with
  | some line => do (← IO.getStderr).putStrLn line
  | none => return ()

def act (filter : Log.Filter) : Session.Action → IO Unit
  | .write .answers text => do
    let output ← IO.getStdout
    output.putStr text
    output.flush
  | .write .complaints text => do (← IO.getStderr).putStr text
  | .announce occurrence => announce filter occurrence

/-- The console on standard input, and its exit code. -/
partial def converse (filter : Log.Filter) (traced : Bool) : IO UInt32 := do
  act filter Session.prompt
  match Text.textLines (← readLine (← IO.getStdin) []) with
  | [] =>
    Session.closing.forM (act filter)
    return 0
  | line :: _ =>
    let reply := Session.reply traced line
    reply.actions.forM (act filter)
    match reply.ending with
    | some .undecodable =>
      (← IO.getStderr).putStr (Launch.errorLine Launch.undecodableMessage)
      return 1
    | some _ => return 0
    | none => converse filter traced

def runOnce (arguments : List String) (surroundings : Surroundings) : IO UInt32 := do
  let run := launch arguments surroundings
  let errors ← IO.getStderr
  run.log.forM errors.putStrLn
  (← IO.getStdout).putStr run.output
  errors.putStr run.errors
  return UInt32.ofNat (run.code.getD 0)

end Calculator.Program

open Calculator in
def main (arguments : List String) : IO UInt32 := do
  let logVariable ← IO.getEnv "RUST_LOG"
  let surroundings (input : List UInt8) : Surroundings := ⟨logVariable, input, none, fun _ => false⟩
  match Options.ofArguments arguments with
  | .ok o =>
    if o.console then
      let filter := Log.Filter.ofText (o.logFilter logVariable)
      [Event.logInstalled (o.logFilter logVariable), .consoleMode].forM fun event =>
        Program.announce filter (Launch.plainly event)
      Program.converse filter o.trace
    else if o.service then
      let bytes ← Program.readAll (← IO.getStdin) ByteArray.empty
      Program.runOnce arguments (surroundings bytes.toList)
    else Program.runOnce arguments (surroundings [])
  | .error _ => Program.runOnce arguments (surroundings [])
