import Calculator.Log.Directive
import Calculator.Log.Pattern.Reader
import Calculator.Number.Digits
import Calculator.Text.Alphanumeric
import Calculator.Text.Blank
import Calculator.Text.Position

/-!
# Reading log directives

A directive is a level, or a target, or has the form `target[span]=level` with a target
that may be missing. A field stands in braces behind the span's name, which may then be
missing as well, and its value behind an equals sign. Without a level everything is
shown.

The parts are found in the text without the blanks around it, and are then taken from
the same places of the whole text. A directive behind a blank thus has names that are
shifted, and its level is rarely readable.
-/

namespace Calculator.Log

/-- The verbosity of a log without limits. -/
def fullVerbosity : Nat := Level.trace.verbosity

/-- The levels by name, with their verbosity. -/
def levelNames : List (String × Nat) :=
  [("off", 0), ("error", Level.error.verbosity), ("warn", Level.warn.verbosity),
    ("info", Level.info.verbosity), ("debug", Level.debug.verbosity),
    ("trace", Level.trace.verbosity)]

/-- The number that a text writes, perhaps behind a plus sign. -/
def number? (text : List Char) : Option Nat :=
  let digits := match text with
    | '+' :: digits => digits
    | digits => digits
  if digits.isEmpty || !digits.all Char.isDigit then none else some (Number.ofDigits digits)

/-- A level, by its name in letters of any case or by its number. -/
def verbosity? (text : List Char) : Option Nat :=
  let number := number? text
  let name := text.map Char.toLower
  (levelNames.find? fun (known, n) => known.toList == name || number == some n).map (·.2)

/-- The level behind an equals sign may be missing. -/
def givenVerbosity? (text : List Char) : Option Nat :=
  if text.isEmpty then some fullVerbosity else verbosity? text

def unsigned : List Char → List Char
  | '+' :: text => text
  | '-' :: text => text
  | text => text

def isExponent : List Char → Bool
  | [] => true
  | c :: rest =>
    let digits := unsigned rest
    (c == 'e' || c == 'E') && !digits.isEmpty && digits.all Char.isDigit

/-- The text writes a decimal number without a sign. Digits may be missing on one side of
the point. -/
def isDecimal (text : List Char) : Bool :=
  let whole := text.takeWhile Char.isDigit
  let (fraction, rest) := match text.dropWhile Char.isDigit with
    | '.' :: rest => (rest.takeWhile Char.isDigit, rest.dropWhile Char.isDigit)
    | rest => ([], rest)
  !(whole.isEmpty && fraction.isEmpty) && isExponent rest

def isDatum (text : List Char) : Bool :=
  let magnitude := unsigned text
  ["true", "false"].any (·.toList == text) ||
    ["inf", "infinity", "nan"].any (·.toList == magnitude.map Char.toLower) || isDecimal magnitude

def Expectation.ofText? (text : List Char) : Option Expectation :=
  if isDatum text then some ⟨text, none⟩
  else (Pattern.ofText? text).map fun p => ⟨text, some p⟩

/-- A name, perhaps with a value behind an equals sign. What stands behind a second sign
does not count. -/
def FieldCondition.ofText? (text : List Char) : Option FieldCondition :=
  let name := text.takeWhile (· != '=')
  match text.dropWhile (· != '=') with
  | [] => if name.isEmpty then none else some ⟨name, none⟩
  | _ :: value =>
    (Expectation.ofText? (value.takeWhile (· != '='))).map fun e => ⟨name, some e⟩

namespace Directive

open Text

/-- The characters that may begin a target. -/
def startsTarget (c : Char) : Bool :=
  isAlphanumeric c || c == '_' || c == '-' || c == ':'

/-- The length in bytes of the longest part of a text from the position `start` on that has
none of the characters `stops`. -/
def extent (text : List Char) (start : Nat) (stops : List Char) : Nat :=
  byteLength ((dropBytes start text).takeWhile fun c => !stops.contains c)

/-- The level, which ends a directive. -/
def ending? (text trimmed : List Char) (position : Nat) (subject : Subject) : Option Directive :=
  match dropBytes position trimmed with
  | [] => some ⟨subject, fullVerbosity⟩
  | '=' :: _ => (givenVerbosity? (dropBytes (position + 1) text)).map fun v => ⟨subject, v⟩
  | _ => none

/-- The span and the field, behind an opening bracket. -/
def spanned? (text trimmed : List Char) (target : List Char) (start : Nat) : Option Directive :=
  let n := extent trimmed start [']', '\x7b']
  let name := takeBytes n (dropBytes start text)
  let behind := start + n + 1
  match dropBytes (start + n) trimmed with
  | ']' :: _ => ending? text trimmed behind ⟨target, some name, none⟩
  | '\x7b' :: _ =>
    let m := extent trimmed behind ['\x7d']
    let span := if name.isEmpty then none else some name
    match dropBytes (behind + m) trimmed with
    | '\x7d' :: ']' :: _ =>
      match FieldCondition.ofText? (takeBytes m (dropBytes behind text)) with
      | some field => ending? text trimmed (behind + m + 2) ⟨target, span, some field⟩
      | none => none
    | _ => none
  | _ => none

def ofText? (text : List Char) : Option Directive :=
  let trimmed := (trim (String.ofList text)).toList
  match trimmed with
  | [] => none
  | '[' :: _ => spanned? text trimmed [] 1
  | c :: _ =>
    if !startsTarget c then none
    else
      let n := extent trimmed 0 ['=', '[']
      let target := takeBytes n text
      match dropBytes n trimmed with
      | [] => match verbosity? text with
        | some v => some ⟨.everything, v⟩
        | none => some ⟨⟨text, none, none⟩, fullVerbosity⟩
      | '[' :: _ => spanned? text trimmed target (n + 1)
      | _ => ending? text trimmed n ⟨target, none, none⟩

end Directive

end Calculator.Log
