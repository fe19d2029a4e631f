import Calculator.Number.Digits
import Calculator.Options

/-!
# Reading options

Arguments are read from left to right. An option by name stands behind two dashes,
with its value behind an equals sign or in the next argument; an option by letter
stands behind one dash, alone or in a cluster, with its value in the rest of the
cluster or in the next argument. A value in an argument of its own is empty, a
single dash, or does not begin with a dash.

The first problem wins. A value in an argument of its own is looked at when the
next option is recognised, or at the end; an argument that is not recognised is
therefore told before a problem of the value in front of it. Only at the end are
the modes compared with one another.
-/

namespace Calculator.Options

/-- Why no options are read. -/
inductive Refusal
  /-- No such option, or an argument that belongs to none. -/
  | unknownArgument
  | missingValue
  /-- A value for an option that takes none. -/
  | unwantedValue
  /-- An option given twice, or two modes. -/
  | conflict
  /-- A socket that is no number below 65536. -/
  | malformedValue
  | help
  | version
  deriving DecidableEq

structure Given where
  expression : Option String
  console : Bool
  service : Bool
  socket : Option UInt16
  trace : Bool
  verbose : Bool
  log : Option String
  deriving DecidableEq

def Given.nothing : Given := ⟨none, false, false, none, false, false, none⟩

/-- The number of a socket: digits, perhaps behind a sign; a minus sign goes with zero only. -/
def socket? (text : String) : Option UInt16 :=
  let (negative, digits) := match text.toList with
    | '-' :: digits => (true, digits)
    | '+' :: digits => (false, digits)
    | digits => (false, digits)
  if digits.isEmpty || !digits.all Char.isDigit then none
  else
    let n := Number.ofDigits digits
    if 65535 < n || (negative && 0 < n) then none else some (UInt16.ofNat n)

namespace Given

def raise (g : Given) : Flag → Except Refusal Given
  | .console => if g.console then .error .conflict else .ok { g with console := true }
  | .service => if g.service then .error .conflict else .ok { g with service := true }
  | .trace => if g.trace then .error .conflict else .ok { g with trace := true }
  | .verbose => if g.verbose then .error .conflict else .ok { g with verbose := true }
  | .help => .error .help
  | .version => .error .version

def assign (g : Given) (value : String) : Setting → Except Refusal Given
  | .expression =>
    if g.expression.isSome then .error .conflict else .ok { g with expression := some value }
  | .socket =>
    if g.socket.isSome then .error .conflict
    else match socket? value with
      | some socket => .ok { g with socket := some socket }
      | none => .error .malformedValue
  | .log => if g.log.isSome then .error .conflict else .ok { g with log := some value }

/-- The options, absent ones left as they are by default, unless two modes are given. -/
def options (g : Given) : Except Refusal Options :=
  let o : Options :=
    ⟨g.expression, g.console, g.service, g.socket.getD Options.default.socket, g.trace, g.verbose,
      g.log⟩
  if 1 < o.modes then .error .conflict else .ok o

end Given

/-- A setting whose value was not looked at yet, or is still missing. -/
structure Waiting where
  setting : Setting
  value : Option String
  deriving DecidableEq

structure Reading where
  given : Given
  waiting : Option Waiting
  deriving DecidableEq

namespace Reading

def start : Reading := ⟨.nothing, none⟩

def settle (r : Reading) : Except Refusal Given :=
  match r.waiting with
  | none => .ok r.given
  | some ⟨_, none⟩ => .error .missingValue
  | some ⟨setting, some value⟩ => r.given.assign value setting

def raise (r : Reading) (flag : Flag) : Except Refusal Reading := do
  let given ← r.settle
  return ⟨← given.raise flag, none⟩

/-- A setting was recognised, with its value if that is attached. -/
def assign (r : Reading) (setting : Setting) : Option String → Except Refusal Reading
  | none => do return ⟨← r.settle, some ⟨setting, none⟩⟩
  | some value => do
    let given ← r.settle
    return ⟨← given.assign value setting, none⟩

/-- An argument behind two dashes: a name, perhaps with an equals sign and a value. -/
def readName (r : Reading) (text : List Char) : Except Refusal Reading :=
  let name := text.takeWhile (· != '=')
  let value := (text.dropWhile (· != '=')).tail?.map String.ofList
  match Switch.ofName? name, value with
  | none, _ => .error .unknownArgument
  | some (.flag _), some _ => .error .unwantedValue
  | some (.flag flag), none => r.raise flag
  | some (.setting setting), value => r.assign setting value

/-- The value that stands in the rest of a cluster. -/
def attachedValue? : List Char → Option String
  | [] => none
  | '=' :: value => some (String.ofList value)
  | value => some (String.ofList value)

/-- An argument behind one dash: letters, of which the last may be followed by its value. -/
def readCluster (r : Reading) : List Char → Except Refusal Reading
  | [] => .ok r
  | letter :: rest =>
    match Switch.ofLetter? letter with
    | none => .error .unknownArgument
    | some (.setting setting) => r.assign setting (attachedValue? rest)
    | some (.flag flag) =>
      match r.raise flag with
      | .ok r => r.readCluster rest
      | .error refusal => .error refusal

/-- An argument that is no option is the value of the setting that waits for one. -/
def readValue (r : Reading) (value : String) : Except Refusal Reading :=
  match r.waiting with
  | some ⟨setting, none⟩ => .ok ⟨r.given, some ⟨setting, some value⟩⟩
  | _ => .error .unknownArgument

def readArgument (r : Reading) (argument : String) : Except Refusal Reading :=
  match argument.toList with
  | '-' :: '-' :: name => r.readName name
  | ['-'] => r.readValue argument
  | '-' :: cluster => r.readCluster cluster
  | _ => r.readValue argument

/-- Reads the arguments. Two dashes alone end the options, and no argument may follow. -/
def run (r : Reading) : List String → Except Refusal Given
  | [] => r.settle
  | argument :: rest =>
    if argument = "--" then
      match rest with
      | [] => r.settle
      | _ :: _ => .error .unknownArgument
    else
      match r.readArgument argument with
      | .ok r => r.run rest
      | .error refusal => .error refusal

end Reading

def ofArguments (arguments : List String) : Except Refusal Options :=
  match Reading.start.run arguments with
  | .ok given => given.options
  | .error refusal => .error refusal

end Calculator.Options
