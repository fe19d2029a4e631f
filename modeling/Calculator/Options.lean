import Calculator.Text.Blank

/-!
# Options

The options say in which mode the program runs and what it shows. At most one
mode is named; without any, the program opens its window.
-/

namespace Calculator

structure Options where
  /-- The expression of the one-shot mode. -/
  expression : Option String
  console : Bool
  service : Bool
  /-- The TCP socket of the service. -/
  socket : UInt16
  trace : Bool
  verbose : Bool
  /-- The log filter, when it is given. -/
  log : Option String
  deriving DecidableEq

namespace Options

def default : Options := ⟨none, false, false, 8080, false, false, none⟩

def modes (o : Options) : Nat :=
  o.expression.isSome.toNat + o.console.toNat + o.service.toNat

/-- The log filter: the one given as an option, or else the one of the surroundings
unless it is blank, or else the one that fits the mode. -/
def logFilter (o : Options) (surrounding : Option String) : String :=
  match o.log, surrounding.filter fun filter => !(Text.trim filter).isEmpty with
  | some filter, _ => filter
  | none, some filter => filter
  | none, none => if o.verbose then "debug" else if o.service then "info" else "warn"

end Options

inductive Flag
  | console
  | service
  | trace
  | verbose
  | help
  | version
  deriving DecidableEq

inductive Setting
  | expression
  | socket
  | log
  deriving DecidableEq

inductive Switch
  | flag (f : Flag)
  | setting (s : Setting)
  deriving DecidableEq

namespace Switch

def all : List Switch :=
  [.setting .expression, .flag .console, .flag .service, .setting .socket, .flag .trace,
    .flag .verbose, .setting .log, .flag .help, .flag .version]

/-- The name that stands behind two dashes. -/
def name : Switch → String
  | .setting .expression => "expr"
  | .flag .console => "console"
  | .flag .service => "serveur"
  | .setting .socket => "port"
  | .flag .trace => "demarche"
  | .flag .verbose => "verbose"
  | .setting .log => "log"
  | .flag .help => "help"
  | .flag .version => "version"

/-- The letter that stands behind one dash, for the options that have one. -/
def letter? : Switch → Option Char
  | .setting .expression => some 'e'
  | .flag .console => some 'c'
  | .flag .service => some 's'
  | .setting .socket => some 'p'
  | .flag .trace => some 'd'
  | .flag .verbose => some 'v'
  | .setting .log => none
  | .flag .help => some 'h'
  | .flag .version => some 'V'

def ofName? (name : List Char) : Option Switch :=
  all.find? fun switch => switch.name.toList == name

def ofLetter? (letter : Char) : Option Switch :=
  all.find? fun switch => switch.letter? == some letter

end Switch

end Calculator
