/-!
# Blank characters

The blanks are the twenty-five characters that Unicode calls white space. An
expression means the same with or without them, a line of input is read
without the blanks around it, and the keypad drops those at the end of an
entry. Core's `Char.isWhitespace` knows four of them only.
-/

namespace Calculator.Text

/-- The blanks are listed by code point: five controls, the space, and the
spaces and separators outside ASCII. -/
def isBlank (c : Char) : Bool :=
  let n := c.toNat
  (0x09 ≤ n && n ≤ 0x0d) || n == 0x20 || n == 0x85 || n == 0xa0 || n == 0x1680 ||
    (0x2000 ≤ n && n ≤ 0x200a) || n == 0x2028 || n == 0x2029 || n == 0x202f ||
    n == 0x205f || n == 0x3000

theorem isBlank_of_isWhitespace {c : Char} (h : c.isWhitespace = true) : isBlank c = true := by
  simp only [Char.isWhitespace, Bool.or_eq_true, decide_eq_true_eq] at h
  rcases h with ((rfl | rfl) | rfl) | rfl <;> decide

/-- Removes every blank. -/
def strip (s : String) : String :=
  String.ofList (s.toList.filter fun c => !isBlank c)

@[simp] theorem toList_strip (s : String) :
    (strip s).toList = s.toList.filter fun c => !isBlank c := by
  simp [strip]

theorem strip_append (s t : String) : strip (s ++ t) = strip s ++ strip t := by
  apply String.toList_inj.1
  simp

theorem strip_strip (s : String) : strip (strip s) = strip s := by
  apply String.toList_inj.1
  simp

/-- Removes the longest run of characters in the class `p` at the end. -/
def dropTrailing (p : Char → Bool) (s : String) : String :=
  String.ofList (s.toList.reverse.dropWhile p).reverse

@[simp] theorem toList_dropTrailing (p : Char → Bool) (s : String) :
    (dropTrailing p s).toList = (s.toList.reverse.dropWhile p).reverse := by
  simp [dropTrailing]

theorem getLast?_dropTrailing (p : Char → Bool) (s : String) :
    ∀ c ∈ (dropTrailing p s).toList.getLast?, p c = false := by
  intro c hc
  rw [toList_dropTrailing, List.getLast?_reverse] at hc
  have h := List.head?_dropWhile_not p s.toList.reverse
  rw [Option.mem_def.mp hc] at h
  exact h

def trim (s : String) : String :=
  dropTrailing isBlank (String.ofList (s.toList.dropWhile isBlank))

theorem filter_dropWhile {p q : Char → Bool} (h : ∀ c, p c = true → q c = false)
    (text : List Char) : (text.dropWhile p).filter q = text.filter q := by
  induction text with
  | nil => rfl
  | cons c text ih =>
    rw [List.dropWhile_cons]
    split
    · next hc => rw [ih, List.filter_cons_of_neg (by simp [h c hc])]
    · rfl

/-- Dropping blanks at the end changes nothing once all blanks are removed. -/
theorem strip_dropTrailing {p : Char → Bool} (hp : ∀ c, p c = true → isBlank c = true)
    (s : String) : strip (dropTrailing p s) = strip s := by
  apply String.toList_inj.1
  have hq (c : Char) (hc : p c = true) : (!isBlank c) = false := by simp [hp c hc]
  rw [toList_strip, toList_strip, toList_dropTrailing, List.filter_reverse, filter_dropWhile hq,
    List.filter_reverse, List.reverse_reverse]

theorem strip_trim (s : String) : strip (trim s) = strip s := by
  rw [trim, strip_dropTrailing fun _ hc => hc]
  apply String.toList_inj.1
  rw [toList_strip, toList_strip, String.toList_ofList, filter_dropWhile fun c hc => by simp [hc]]

end Calculator.Text
