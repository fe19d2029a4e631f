import Calculator.Event.Record
import Calculator.Json.Request

/-!
# The calculation service

The service answers on one path to one method. A request that names another path,
another method, or has too long a body is refused before its body is looked at. A
body that cannot be read is the client's fault, and so is a malformed expression;
a division by zero is told as a failure of the calculation.
-/

namespace Calculator.Service

structure Request where
  method : String
  target : String
  body : List UInt8

structure Response where
  status : Nat
  contentType : Option String
  allow : Option String
  body : String
  deriving DecidableEq

/-- An answer to a request, and what was announced on the way to it. -/
structure Reply where
  response : Response
  occurrences : List Occurrence
  deriving DecidableEq

def method : String := "POST"

/-- The longest body that is read, in bytes. -/
def bodyLimit : Nat := 2097152

/-- The path of a target is what stands before its query. -/
def path (target : String) : String :=
  String.ofList (target.toList.takeWhile fun c => c != '?' && c != '#')

def Response.bare (status : Nat) (allow : Option String) : Response :=
  ⟨status, none, allow, ""⟩

/-- An answer in JSON, with one member whose value is written in JSON already. -/
def Response.json (status : Nat) (key value : String) : Response :=
  ⟨status, some "application/json", none, "\x7b\"" ++ key ++ "\":" ++ value ++ "\x7d"⟩

def Response.tooLong : Response :=
  ⟨413, some "text/plain; charset=utf-8", none,
    "Failed to buffer the request body: length limit exceeded"⟩

/-- What is told about a body that cannot be read. The account of what is wrong with it, which
follows behind a colon in the words of the JSON library, is left out. -/
def unreadable : String := "corps JSON invalide"

def status : Failure → Nat
  | .invalidExpression => 422
  | .divisionByZero => 500

/-- A refusal with a message, and its announcement. -/
def refuse (status : Nat) (message : String) (before : List Occurrence) : Reply :=
  ⟨.json status "error" ("\"" ++ message ++ "\""),
    before ++ [⟨none, .requestRefused status message⟩]⟩

def calculate (expression : String) : Reply :=
  let e := Evaluation.ofExpression expression
  let occurrences := e.occurrences false
  match e.outcome with
  | .ok value =>
    ⟨.json 200 "result" (Number.json.write value),
      occurrences ++ [⟨none, .requestServed expression value⟩]⟩
  | .error failure => refuse (status failure) failure.message occurrences

def respond (request : Request) : Reply :=
  if path request.target ≠ servicePath then ⟨.bare 404 none, []⟩
  else if request.method ≠ method then ⟨.bare 405 (some method), []⟩
  else if bodyLimit < request.body.length then ⟨.tooLong, []⟩
  else
    match Json.expression? request.body with
    | none => refuse 400 unreadable []
    | some expression => calculate expression

end Calculator.Service
