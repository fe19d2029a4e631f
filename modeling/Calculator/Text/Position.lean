/-!
# Positions in a text

A position in a text is the number of bytes of UTF-8 in front of it. A position inside
a character counts as the one behind it.
-/

namespace Calculator.Text

/-- The position at the end of a text. -/
def byteLength (text : List Char) : Nat :=
  text.foldl (fun n c => n + c.utf8Size) 0

/-- What stands in front of a position. -/
def takeBytes : Nat → List Char → List Char
  | _, [] => []
  | n, c :: rest => if n = 0 then [] else c :: takeBytes (n - c.utf8Size) rest

/-- What stands behind a position. -/
def dropBytes : Nat → List Char → List Char
  | _, [] => []
  | n, c :: rest => if n = 0 then c :: rest else dropBytes (n - c.utf8Size) rest

theorem takeBytes_append_dropBytes (n : Nat) (text : List Char) :
    takeBytes n text ++ dropBytes n text = text := by
  induction text generalizing n with
  | nil => rfl
  | cons c rest ih =>
    unfold takeBytes dropBytes
    split
    · rfl
    · exact congrArg (c :: ·) (ih _)

end Calculator.Text
