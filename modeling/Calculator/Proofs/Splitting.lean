import Calculator.Proofs.Lexeme

/-!
# Reading a text in two parts

Reading goes at most one character beyond a lexeme. A text may therefore be cut
before any character that does not go on with the lexeme in front of it: a
character that is no digit, no point, and no closing parenthesis behind an
opening one. The front part is then read, or refused, as if nothing followed,
and the other part as if it had been reached in any other way.
-/

namespace Calculator.Text

section Runs
variable {p : Char → Bool} {b : Char}

theorem takeWhile_append_cons (hb : p b = false) (text tail : List Char) :
    (text ++ b :: tail).takeWhile p = text.takeWhile p := by
  induction text with
  | nil => simp [hb]
  | cons c text ih => simp only [List.cons_append, List.takeWhile_cons, ih]

theorem dropWhile_append_cons (hb : p b = false) (text tail : List Char) :
    (text ++ b :: tail).dropWhile p = text.dropWhile p ++ b :: tail := by
  induction text with
  | nil => simp [hb]
  | cons c text ih =>
      simp only [List.cons_append, List.dropWhile_cons, ih]
      split <;> rfl

end Runs

end Calculator.Text

namespace Calculator.Number.Literal

theorem front?_append {b : Char} (hb : b.isDigit = false) (hpoint : b ≠ '.') (negative : Bool)
    (text tail : List Char) :
    front? negative (text ++ b :: tail) =
      (front? negative text).map fun (l, rest) => (l, rest ++ b :: tail) := by
  unfold front?
  rw [Text.takeWhile_append_cons hb, Text.dropWhile_append_cons hb]
  cases text.dropWhile Char.isDigit with
  | nil =>
      dsimp only [List.nil_append]
      split
      · next heq => exact (hpoint (List.cons.inj heq).1).elim
      · rfl
  | cons c rest =>
      by_cases hc : c = '.'
      · subst hc
        simp only [List.cons_append, Text.takeWhile_append_cons hb, Text.dropWhile_append_cons hb]
        split <;> rfl
      · simp [hc]

end Calculator.Number.Literal

namespace Calculator.Token

/-- The same front of a longer text. -/
def Front.extend (tail : List Char) : Front → Front
  | .token t rest => .token t (rest ++ tail)
  | .barePoint length => .barePoint length
  | .stray c => .stray c

section Cut
variable {b : Char} {tail : List Char}

theorem Front.ofNumber_append (hb : b.isDigit = false) (hpoint : b ≠ '.') (negative : Bool)
    (text : List Char) :
    Front.ofNumber negative (text ++ b :: tail) =
      (Front.ofNumber negative text).extend (b :: tail) := by
  unfold Front.ofNumber
  rw [Number.Literal.front?_append hb hpoint, Text.takeWhile_append_cons hb]
  cases Number.Literal.front? negative text <;> rfl

theorem front_append (hb : b.isDigit = false) (hpoint : b ≠ '.') {c : Char} {text : List Char}
    (hclose : b = ')' → (c :: text).getLast? ≠ some '(') (signed : Bool) :
    front signed c (text ++ b :: tail) = (front signed c text).extend (b :: tail) := by
  have hdigit : (text ++ b :: tail).head?.any Char.isDigit = text.head?.any Char.isDigit := by
    cases text with
    | nil => simp [hb]
    | cons d text => rfl
  unfold front
  split
  · next hc =>
      cases text with
      | nil =>
          have hopen : b ≠ ')' := fun h => hclose h (by simp [hc])
          dsimp only [List.nil_append]
          split
          · next heq => exact (hopen (List.cons.inj heq).1).elim
          · rfl
      | cons d text =>
          by_cases hd : d = ')'
          · subst hd
            rfl
          · simp [hd, Front.extend]
  · rw [hdigit]
    split
    · rfl
    · split
      · exact Front.ofNumber_append hb hpoint true text
      · split
        · rfl
        · split
          · exact Front.ofNumber_append hb hpoint false (c :: text)
          · rfl

theorem position_append (size : Nat) (text : List Char) :
    size + (b :: tail).length - ((text ++ b :: tail).length + 1) = size - (text.length + 1) := by
  rw [List.length_append]
  omega

/-- A text is read in two parts, the second one behind the tokens of the first. -/
theorem scanFrom_append (hb : b.isDigit = false) (hpoint : b ≠ '.') {text : List Char}
    (hclose : b = ')' → text.getLast? ≠ some '(') (size : Nat) (read : List Token) :
    scanFrom (size + (b :: tail).length) read (text ++ b :: tail) =
      match scanFrom size read text with
      | .ok tokens => scanFrom (size + (b :: tail).length) tokens.reverse (b :: tail)
      | .error defect => .error defect := by
  fun_induction scanFrom size read text with
  | case1 read => simp
  | case2 read c text t rest hfront ih =>
      have hrest : b = ')' → rest.getLast? ≠ some '(' := by
        intro hb' hlast
        obtain ⟨x, -, htext, -⟩ := exists_lexeme_of_front hfront
        apply hclose hb'
        rw [htext, List.getLast?_append, hlast]
        rfl
      have hlong : front (signAllowed read) c (text ++ b :: tail) = .token t (rest ++ b :: tail) := by
        rw [front_append hb hpoint hclose, hfront]
        rfl
      rw [List.cons_append, scanFrom_of_token hlong]
      exact ih hrest
  | case3 read c text length hfront =>
      have hlong : front (signAllowed read) c (text ++ b :: tail) = .barePoint length := by
        rw [front_append hb hpoint hclose, hfront]
        rfl
      rw [List.cons_append, scanFrom_of_barePoint hlong, position_append]
  | case4 read c text d hfront =>
      have hlong : front (signAllowed read) c (text ++ b :: tail) = .stray d := by
        rw [front_append hb hpoint hclose, hfront]
        rfl
      rw [List.cons_append, scanFrom_of_stray hlong, position_append]

end Cut

end Calculator.Token
