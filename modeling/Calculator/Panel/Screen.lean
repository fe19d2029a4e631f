import Calculator.Panel

/-!
# The screen

The window draws the panel frame by frame. Each frame hands the focus to the entry
line if the panel asks for it, and takes the request back; the entry line holds
the focus against the enter key only in the frame in which it got it. A click on
a key takes effect at the end of its frame, and the escape key at the start. The
trace is drawn only while it is unfolded.
-/

namespace Calculator

structure Screen where
  panel : Panel
  unfolded : Bool
  deriving DecidableEq

/-- What the user does to a frame. -/
inductive Gesture
  | nothing
  | click (key : Key)
  | enter
  | escape
  /-- Folds or unfolds the trace. -/
  | fold
  deriving DecidableEq

namespace Key

/-- The rows of keys under the entry line: the row of actions, then the pad. -/
def rows : List (List Key) :=
  let digit (d : Fin 10) := symbol (.digit d)
  [[.clearEntry, .clearResults, .clearAll],
    [symbol .opening, symbol .closing, .delete, symbol (.operator .divide)],
    [digit 7, digit 8, digit 9, symbol (.operator .multiply)],
    [digit 4, digit 5, digit 6, symbol (.operator .subtract)],
    [digit 1, digit 2, digit 3, symbol (.operator .add)],
    [digit 0, symbol .point, .equals]]

def label : Key → String
  | .symbol key => key.symbol.toString
  | .equals => "="
  | .clearEntry => "C"
  | .clearResults => "CLR"
  | .clearAll => "AC"
  | .delete => "DEL"

def ofLabel? (label : String) : Option Key :=
  rows.flatten.find? fun key => key.label == label

end Key

namespace Screen

def fresh : Screen := ⟨.fresh, false⟩

def takeFocus (p : Panel) : Panel :=
  { p with focus := false }

def frame (s : Screen) : Gesture → Screen
  | .nothing => { s with panel := takeFocus s.panel }
  | .click key => { s with panel := (takeFocus s.panel).press key }
  | .enter =>
    if s.panel.focus then { s with panel := (takeFocus s.panel).evaluate } else s
  | .escape => { s with panel := takeFocus s.panel.clearEntry }
  | .fold => ⟨takeFocus s.panel, !s.unfolded⟩

def announcements (s : Screen) : Gesture → List Occurrence
  | .click key => s.panel.announcements key
  | .enter => if s.panel.focus then s.panel.announcements .equals else []
  | _ => []

def hint : String := "Ex: (1+2)*3, 7/2, 2*-1.5"

/-- The texts on the screen in drawing order. Empty texts do not show. -/
def texts (s : Screen) : List String :=
  let p := s.panel
  let entry := if p.entry.isEmpty then hint else p.entry
  let trace :=
    if s.unfolded then
      ["Jetons :", p.trace.tokens, "RPN :", p.trace.rpn, "Étape :", p.trace.stage.text]
    else []
  ((["Calculatrice RPN", "Entrée :", entry] ++ Key.rows.flatten.map Key.label ++
    [p.error, "Résultat :", p.result, "Démarche"]) ++ trace).filter fun text => !text.isEmpty

end Screen

end Calculator
