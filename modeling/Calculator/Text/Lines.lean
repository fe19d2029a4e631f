/-!
# Lines of a byte stream

A line ends at a line feed, and one carriage return right before the line feed
goes with it. What follows the last line feed is a line of its own unless it is
empty. A line is text only if its bytes are well-formed UTF-8.
-/

namespace Calculator.Text

/-- Removes one carriage return at the front of a line that is kept backwards. -/
def dropCarriage : List UInt8 → List UInt8
  | 13 :: line => line
  | line => line

/-- Continues with `line`, the bytes of the current line backwards, and `done`,
the finished lines, last first. -/
def linesFrom (line : List UInt8) (done : List (List UInt8)) : List UInt8 → List (List UInt8)
  | [] => (if line.isEmpty then done else line.reverse :: done).reverse
  | b :: rest =>
    if b = 10 then linesFrom [] ((dropCarriage line).reverse :: done) rest
    else linesFrom (b :: line) done rest

/-- The lines of a byte stream, in order, without their ends. -/
def lines (bytes : List UInt8) : List (List UInt8) :=
  linesFrom [] [] bytes

/-- The text that the bytes encode in UTF-8, if they do. -/
def decode? (bytes : List UInt8) : Option String :=
  String.fromUTF8? bytes.toByteArray

def encode (s : String) : List UInt8 :=
  s.toUTF8.toList

/-- The lines of a byte stream as texts; `none` stands for a line that is not text. -/
def textLines (bytes : List UInt8) : List (Option String) :=
  (lines bytes).map decode?

end Calculator.Text
