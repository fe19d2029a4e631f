import Calculator.Number.Digits
import Calculator.Number.Nearest

/-!
# Decimal literals

A literal is a run of digits, perhaps followed by a point and a second run of
digits, and perhaps preceded by a minus sign. Its value is the double nearest to
the ratio that it writes, however long the runs are: a literal that is too large
gives infinity, and one that is too small gives a zero with the literal's sign.
-/

namespace Calculator.Number

/-- A literal with an empty `fraction` is written without a point. -/
structure Literal where
  negative : Bool
  whole : List Char
  fraction : List Char
  deriving DecidableEq

namespace Literal

def text (l : Literal) : List Char :=
  (if l.negative then ['-'] else []) ++ l.whole ++
    (if l.fraction.isEmpty then [] else '.' :: l.fraction)

/-- All digits of the literal as one natural number. -/
def numerator (l : Literal) : Nat :=
  ofDigits (l.whole ++ l.fraction)

/-- The power of ten that the numerator stands over. -/
def denominator (l : Literal) : Nat :=
  Nat.pow 10 l.fraction.length

def value (l : Literal) : Float :=
  ofPattern l.negative (nearest l.numerator l.denominator)

/-- The literal whose digits start at the front of a text, and what follows it.
Both runs of digits are as long as possible. There is none where a point has no
digit behind it. -/
def front? (negative : Bool) (text : List Char) : Option (Literal × List Char) :=
  let whole := text.takeWhile Char.isDigit
  match text.dropWhile Char.isDigit with
  | '.' :: rest =>
    let fraction := rest.takeWhile Char.isDigit
    if fraction.isEmpty then none
    else some (⟨negative, whole, fraction⟩, rest.dropWhile Char.isDigit)
  | rest => some (⟨negative, whole, []⟩, rest)

/-- What follows a literal at the front of a text that starts with a digit is
shorter than the text. -/
theorem length_lt_of_front? {negative : Bool} {c : Char} {text rest : List Char} {l : Literal}
    (hc : c.isDigit = true) (h : front? negative (c :: text) = some (l, rest)) :
    rest.length < (c :: text).length := by
  have hle (t : List Char) : (t.dropWhile Char.isDigit).length ≤ t.length :=
    (List.dropWhile_sublist _).length_le
  have hdrop : (c :: text).dropWhile Char.isDigit = text.dropWhile Char.isDigit := by
    rw [List.dropWhile_cons, if_pos hc]
  have hlt := hle text
  rw [front?, hdrop] at h
  simp only [List.length_cons]
  split at h
  · next rest' heq =>
    rw [heq] at hlt
    have := hle rest'
    dsimp only at h
    split at h
    · cases h
    · cases h
      simp only [List.length_cons] at hlt
      omega
  · cases h
    omega

end Literal

end Calculator.Number
