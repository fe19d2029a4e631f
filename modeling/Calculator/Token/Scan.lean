import Calculator.Defect

/-!
# Reading tokens

A text is read from left to right. A minus sign belongs to the number behind it
when nothing, an opening parenthesis or an operator stands before it and a digit
stands right behind it; everywhere else it is an operator. Reading stops at the
first character that starts no token, and nothing is ever skipped.
-/

namespace Calculator.Token

inductive Front
  /-- A token, and the text behind it. -/
  | token (token : Token) (rest : List Char)
  /-- A number whose point, at the end of this many characters, has no digit behind it. -/
  | barePoint (length : Nat)
  | stray (character : Char)

/-- A minus sign behind these tokens, latest first, may be the sign of a number. -/
def signAllowed : List Token → Bool
  | [] => true
  | .leftParen :: _ => true
  | .operator _ :: _ => true
  | _ => false

def Front.ofNumber (negative : Bool) (text : List Char) : Front :=
  match Number.Literal.front? negative text with
  | some (literal, rest) => .token (.number literal.value) rest
  | none => .barePoint ((text.takeWhile Char.isDigit).length + 1 + if negative then 1 else 0)

/-- What the character `c` and the text behind it start with. -/
def front (signed : Bool) (c : Char) (rest : List Char) : Front :=
  if c = '(' then
    match rest with
    | ')' :: rest => .token .emptyGroup rest
    | rest => .token .leftParen rest
  else if c = ')' then .token .rightParen rest
  else if c = '-' && signed && rest.head?.any Char.isDigit then .ofNumber true rest
  else match Operator.ofChar? c with
    | some op => .token (.operator op) rest
    | none => if c.isDigit then .ofNumber false (c :: rest) else .stray c

theorem Front.length_lt_of_ofNumber {negative : Bool} {c : Char} {text rest : List Char} {t : Token}
    (hc : c.isDigit = true) (h : Front.ofNumber negative (c :: text) = .token t rest) :
    rest.length < (c :: text).length := by
  unfold Front.ofNumber at h
  split at h
  · next heq =>
    cases h
    exact Number.Literal.length_lt_of_front? hc heq
  · cases h

/-- Every token takes at least one character. -/
theorem length_lt_of_front {signed : Bool} {c : Char} {text rest : List Char} {t : Token}
    (h : front signed c text = .token t rest) : rest.length < (c :: text).length := by
  unfold front at h
  split at h
  · split at h <;> cases h <;> simp only [List.length_cons] <;> omega
  · split at h
    · cases h
      simp
    · split at h
      · next hsign =>
        cases text with
        | nil => simp at hsign
        | cons d text =>
          have hd : d.isDigit = true := by simpa using (Bool.and_eq_true_iff.1 hsign).2
          have := Front.length_lt_of_ofNumber hd h
          simp only [List.length_cons] at this ⊢
          omega
      · split at h
        · cases h
          simp
        · split at h
          · next hd => exact Front.length_lt_of_ofNumber hd h
          · cases h

/-- Reads the rest of a text of `size` characters, behind the tokens `read`, latest first. -/
def scanFrom (size : Nat) (read : List Token) : List Char → Except Defect (List Token)
  | [] => .ok read.reverse
  | c :: text =>
    match _h : front (signAllowed read) c text with
    | .token t rest => scanFrom size (t :: read) rest
    | .barePoint length => .error (.barePoint (size - (text.length + 1) + length))
    | .stray c => .error (.strayCharacter (size - (text.length + 1)) c)
  termination_by text => text.length
  decreasing_by exact length_lt_of_front _h

def scan (text : String) : Except Defect (List Token) :=
  scanFrom text.toList.length [] text.toList

end Calculator.Token
