import Calculator.Event

/-!
# Records

The log sees an event as a record: a level, the part of the program that speaks,
a message and named values. The wording belongs to the program's users.
-/

namespace Calculator

inductive Level
  | trace
  | debug
  | info
  | warn
  | error
  deriving DecidableEq

namespace Level

/-- How verbose a log must be to show the level; a silent log has verbosity 0. -/
def verbosity : Level → Nat
  | .trace => 5
  | .debug => 4
  | .info => 3
  | .warn => 2
  | .error => 1

def text : Level → String
  | .trace => "TRACE"
  | .debug => "DEBUG"
  | .info => "INFO"
  | .warn => "WARN"
  | .error => "ERROR"

end Level

inductive Source
  | program
  | scanner
  | rpn
  | evaluator
  | console
  | service
  deriving DecidableEq

/-- The path of a part below the whole program. -/
def Source.path : Source → List String
  | .program => []
  | .scanner => ["noyau", "jetons"]
  | .rpn => ["noyau", "rpn"]
  | .evaluator => ["noyau", "eval"]
  | .console => ["console"]
  | .service => ["serveur"]

/-- The value of a field: a number, plain text, or text that log lines put in quotes. -/
inductive FieldValue
  | number (value : Float)
  | plain (text : String)
  | quoted (text : String)
  deriving DecidableEq

structure Record where
  level : Level
  source : Source
  message : String
  fields : List (String × FieldValue)
  deriving DecidableEq

def servicePath : String := "/api/v1/calculate"

/-- The address of a TCP socket on all interfaces. -/
def socketAddress (socket : UInt16) : String :=
  "0.0.0.0:" ++ toString socket.toNat

/-- The name of a parenthesis in the records. -/
def Token.recordName : Token → String
  | .leftParen => "LPar"
  | .rightParen => "RPar"
  | .emptyGroup => "EmptyGroup"
  | t => t.text

/-- Defects are told at the level of details. -/
def Defect.record : Defect → Record
  | .strayCharacter position character =>
    ⟨.debug, .scanner, "caractère sans jeton",
      [("position", .plain (toString position)), ("caractere", .plain character.toString)]⟩
  | .barePoint position =>
    ⟨.debug, .scanner, "point décimal sans chiffres", [("position", .plain (toString position))]⟩
  | .emptyGroup => ⟨.debug, .rpn, "groupe vide", []⟩
  | .unopenedGroup => ⟨.debug, .rpn, "parenthèse fermante sans ouvrante", []⟩
  | .unclosedGroup => ⟨.debug, .rpn, "parenthèse ouvrante non fermée", []⟩
  | .missingOperand op =>
    ⟨.debug, .rpn, "opérandes manquants", [("operateur", .plain op.symbol.toString)]⟩
  | .unexpectedToken token =>
    ⟨.debug, .rpn, "jeton inattendu en RPN", [("jeton", .plain token.recordName)]⟩
  | .leftover count =>
    ⟨.debug, .rpn, "pile finale différente d’une valeur", [("pile", .plain (toString count))]⟩

def StopCause.message : StopCause → String
  | .interrupt => "SIGINT reçu, arrêt"
  | .terminate => "SIGTERM reçu, arrêt"
  | .command => "commande de sortie reçue, arrêt"

/-- A refused request is grave when the fault is on the service's side. -/
def Event.refusal (status : Nat) (message : String) : Record :=
  let fields := [("statut", .plain (toString status)), ("message", .plain message)]
  if 500 ≤ status then ⟨.error, .service, "réponse d’erreur serveur", fields⟩
  else ⟨.warn, .service, "réponse d’erreur client", fields⟩

def Event.record : Event → Record
  | .tokensRead tokens =>
    ⟨.trace, .evaluator, "jetons", [("jetons", .plain (Token.format tokens))]⟩
  | .rpnMade rpn => ⟨.trace, .evaluator, "postfix", [("rpn", .plain (Token.format rpn))]⟩
  | .operationDone o =>
    ⟨.trace, .rpn, "opération",
      [("gauche", .number o.left), ("operateur", .plain o.operator.symbol.toString),
        ("droite", .number o.right), ("resultat", .number o.result)]⟩
  | .defectFound defect => defect.record
  | .evaluationDone value =>
    ⟨.debug, .evaluator, "évaluation terminée", [("resultat", .number value)]⟩
  | .evaluationRefused failure stage =>
    ⟨.debug, .evaluator, "évaluation refusée",
      ("erreur", .plain failure.message) ::
        (stage.map fun stage => ("etape", .plain stage.text)).toList⟩
  | .requestServed expression value =>
    ⟨.debug, .service, "calcul servi",
      [("expression", .plain expression), ("resultat", .number value)]⟩
  | .requestRefused status message => Event.refusal status message
  | .inputEnded => ⟨.info, .console, "fin de l’entrée standard", []⟩
  | .exitReceived => ⟨.info, .console, "commande de sortie reçue", []⟩
  | .logInstalled filter =>
    ⟨.debug, .program, "journal installé", [("filtre", .plain filter)]⟩
  | .consoleMode => ⟨.info, .program, "mode console", []⟩
  | .serviceMode socket =>
    ⟨.info, .program, "mode serveur", [("port", .plain (toString socket.toNat))]⟩
  | .windowMode => ⟨.info, .program, "mode fenêtre", []⟩
  | .serviceStarted socket =>
    ⟨.info, .service, "serveur démarré",
      [("adresse", .plain (socketAddress socket)), ("chemin", .quoted servicePath)]⟩
  | .serviceStopping cause => ⟨.info, .service, cause.message, []⟩
  | .serviceStopped socket =>
    ⟨.info, .service, "serveur arrêté", [("adresse", .plain (socketAddress socket))]⟩

end Calculator
