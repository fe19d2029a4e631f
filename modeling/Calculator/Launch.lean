import Calculator.Log.Line
import Calculator.Options.Reader
import Calculator.Session.Console

/-!
# A run of the program

The arguments and the surroundings determine a run: what is written, what is
announced, and the exit code. The log is installed before anything else happens.
The service runs until it is told to stop; there is no screen for the window, and
so the window mode fails.
-/

namespace Calculator

/-- What a run finds around it. -/
structure Surroundings where
  /-- The log filter set for all programs. -/
  logVariable : Option String
  input : List UInt8
  /-- The signal sent to the running service, if any. -/
  signal : Option StopCause
  /-- The sockets that are in use already. -/
  taken : UInt16 → Bool

/-- What a run leaves. It has no exit code as long as the service goes on. -/
structure Run where
  code : Option Nat
  output : String
  errors : String
  occurrences : List Occurrence
  log : List String

namespace Launch

def version : String := Log.programName ++ " 0.1.0\n"

def usage : String :=
  String.join
    ["Calculatrice + - * / ( ) en RPN\n",
      "\n",
      "Usage: calculatrice_rpn [OPTIONS]\n",
      "\n",
      "Options:\n",
      "  -e, --expr <EXPR>   Évalue une seule expression, affiche le résultat et quitte\n",
      "  -c, --console       Boucle interactive sur l’entrée standard (\"exit\" pour quitter)\n",
      "  -s, --serveur       Service HTTP : POST /api/v1/calculate\n",
      "  -p, --port <PORT>   Port d’écoute du service HTTP [default: 8080]\n",
      "  -d, --demarche      Affiche aussi la démarche (jetons, RPN) en mode texte\n",
      "  -v, --verbose       Journal détaillé (niveau debug)\n",
      "      --log <FILTRE>  Filtre de journal explicite, prioritaire sur tout le reste\n",
      "  -h, --help          Print help\n",
      "  -V, --version       Print version\n"]

def errorLine (message : String) : String :=
  "Error: " ++ message ++ "\n"

def undecodableMessage : String := "stream did not contain valid UTF-8"

def windowMessage : String := "démarrage de la fenêtre impossible"

def listenMessage (socket : UInt16) : String :=
  "écoute impossible sur " ++ socketAddress socket

/-- What a mode does: its exit code, its texts, and what it announces. -/
structure Conduct where
  code : Option Nat
  output : String
  errors : String
  occurrences : List Occurrence

def plainly (event : Event) : Occurrence := ⟨none, event⟩

def oneShot (expression : String) (traced : Bool) : Conduct :=
  let (actions, succeeded) := Session.oneShot expression traced
  let performance := Session.perform none actions
  ⟨some (if succeeded then 0 else 1), performance.answers.written, performance.complaints.written,
    performance.occurrences⟩

def console (traced : Bool) (input : List UInt8) : Conduct :=
  let (actions, ending) := Session.console traced input
  let performance := Session.perform none actions
  let (code, errors) := match ending with
    | .undecodable => (1, errorLine undecodableMessage)
    | .exit | .endOfInput => (0, "")
  ⟨some code, performance.answers.written, errors,
    plainly .consoleMode :: performance.occurrences⟩

/-- Why the service stops, if it does: the exit command in its input, or a signal. -/
def stopCause (surroundings : Surroundings) : Option StopCause :=
  if Session.asksExit (Text.textLines surroundings.input) then some .command
  else surroundings.signal

def service (socket : UInt16) (surroundings : Surroundings) : Conduct :=
  if surroundings.taken socket then
    ⟨some 1, "", errorLine (listenMessage socket), [plainly (.serviceMode socket)]⟩
  else
    let started := [plainly (.serviceMode socket), plainly (.serviceStarted socket)]
    match stopCause surroundings with
    | none => ⟨none, "", "", started⟩
    | some cause =>
      ⟨some 0, "", "",
        started ++ [plainly (.serviceStopping cause), plainly (.serviceStopped socket)]⟩

def window : Conduct :=
  ⟨some 1, "", errorLine windowMessage, [plainly .windowMode]⟩

def conduct (o : Options) (surroundings : Surroundings) : Conduct :=
  match o.expression with
  | some expression => oneShot expression o.trace
  | none =>
    if o.console then console o.trace surroundings.input
    else if o.service then service o.socket surroundings
    else window

/-- A run with options that were read. -/
def withOptions (o : Options) (surroundings : Surroundings) : Run :=
  let filter := o.logFilter surroundings.logVariable
  let conduct := conduct o surroundings
  let occurrences := plainly (.logInstalled filter) :: conduct.occurrences
  ⟨conduct.code, conduct.output, conduct.errors, occurrences,
    Log.lines (Log.Filter.ofText filter) occurrences⟩

/-- A run without options: help and version are answers, anything else is a refusal. -/
def withoutOptions : Options.Refusal → Run
  | .version => ⟨some 0, version, "", [], []⟩
  | .help => ⟨some 0, usage, "", [], []⟩
  | _ => ⟨some 2, "", "", [], []⟩

end Launch

def launch (arguments : List String) (surroundings : Surroundings) : Run :=
  match Options.ofArguments arguments with
  | .ok o => Launch.withOptions o surroundings
  | .error refusal => Launch.withoutOptions refusal

end Calculator
