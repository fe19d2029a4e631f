import Calculator.Log.Pattern

/-!
# Reading patterns

Most characters stand for themselves. A point stands for any character of a line,
`^` and `$` for the ends of the text, brackets hold a set of characters, parentheses
a group, and a bar separates alternatives; `*`, `+` and `?` repeat what is in front
of them, with a `?` behind them as rarely as possible. A backslash takes the role of
a sign away or names a control character.
-/

namespace Calculator.Log

namespace Pattern

/-- A sign of a written pattern. What a bare sign means depends on where it stands. -/
inductive Mark
  | bare (c : Char)
  | escaped (c : Char)
  | start
  | finish
  deriving DecidableEq

/-- The meaning of a character behind a backslash. -/
def escape? (c : Char) : Option Mark :=
  match c with
  | 'A' => some .start
  | 'z' => some .finish
  | 'a' => some (.escaped '\x07')
  | 't' => some (.escaped '\t')
  | 'n' => some (.escaped '\n')
  | 'v' => some (.escaped '\x0b')
  | 'f' => some (.escaped '\x0c')
  | 'r' => some (.escaped '\r')
  | c => if c.isAlphanum || c == '<' || c == '>' || 0x80 ≤ c.toNat then none else some (.escaped c)

def marks? : List Char → Option (List Mark)
  | [] => some []
  | '\\' :: c :: rest =>
    match escape? c with
    | some mark => (marks? rest).map (mark :: ·)
    | none => none
  | c :: rest => if c == '\\' then none else (marks? rest).map (.bare c :: ·)

/-- The character that a sign stands for in a set. -/
def Mark.inSet? : Mark → Option Char
  | .bare c => some c
  | .escaped c => some c
  | .start => none
  | .finish => none

/-- A sign that would combine two sets when it is doubled. -/
def combines (m : Mark) : Bool :=
  m == .bare '&' || m == .bare '-' || m == .bare '~'

/-- The set up to its closing bracket, and what follows it. Sets within sets, and
combinations of sets, are not read. -/
def setBody? (set : CharSet) : List Mark → Option (CharSet × List Mark)
  | [] => none
  | m :: rest =>
    if m = .bare ']' then some (set, rest)
    else if m = .bare '[' || (combines m && rest.head? == some m) then none
    else match m.inSet?, rest with
      | none, _ => none
      | some low, .bare '-' :: m' :: rest =>
        if m' = .bare ']' || m' = .bare '-' then
          setBody? (set.add low low) (.bare '-' :: m' :: rest)
        else match m'.inSet? with
          | some high =>
            if high.toNat < low.toNat then none else setBody? (set.add low high) rest
          | none => none
      | some c, rest => setBody? (set.add c c) rest
  termination_by marks => marks.length

/-- The set behind an opening bracket. Dashes in front stand for themselves, and so does
a closing bracket that would leave the set empty. -/
def set? (marks : List Mark) : Option (CharSet × List Mark) :=
  let (negated, marks) := match marks with
    | .bare '^' :: marks => (true, marks)
    | marks => (false, marks)
  let set : CharSet := ⟨negated, []⟩
  match marks with
  | .bare ']' :: rest => setBody? (set.add ']' ']') rest
  | .bare '-' :: rest => setBody? (set.add '-' '-') (rest.dropWhile (· == .bare '-'))
  | rest => setBody? set rest

theorem length_lt_of_setBody? {set found : CharSet} {marks rest : List Mark}
    (h : setBody? set marks = some (found, rest)) : rest.length < marks.length := by
  fun_induction setBody? set marks with
  | case2 => cases h; simp
  | case5 _ _ _ _ _ _ _ _ _ ih | case7 _ _ _ _ _ _ _ _ _ _ _ _ ih | case9 _ _ _ _ _ _ _ _ ih =>
    have := ih h
    simp only [List.length_cons] at this ⊢
    omega
  | _ => cases h

theorem length_lt_of_set? {found : CharSet} {marks rest : List Mark}
    (h : set? marks = some (found, rest)) : rest.length < marks.length := by
  have hbody (set : CharSet) (marks' : List Mark) (hle : marks'.length ≤ marks.length)
      (h : setBody? set marks' = some (found, rest)) : rest.length < marks.length :=
    Nat.lt_of_lt_of_le (length_lt_of_setBody? h) hle
  have hdashes (ms : List Mark) : (ms.dropWhile (· == .bare '-')).length ≤ ms.length :=
    (List.dropWhile_sublist _).length_le
  unfold set? at h
  split at h
  next negated ms hms =>
  have hle : ms.length ≤ marks.length := by
    split at hms <;> cases hms
    · simp
    · exact Nat.le_refl _
  dsimp only at h
  split at h
  · exact hbody _ _ (by simp only [List.length_cons] at hle; omega) h
  · next rest' =>
    exact hbody _ _ (by have := hdashes rest'; simp only [List.length_cons] at hle; omega) h
  · exact hbody _ _ hle h

/-- A group that is still open: its finished alternatives and the parts of the last
one, latest first. -/
structure Group where
  alternatives : List Pattern
  parts : List Pattern

namespace Group

def opened : Group := ⟨[], []⟩

def add (g : Group) (p : Pattern) : Group := { g with parts := p :: g.parts }

def sequence (g : Group) : Pattern :=
  g.parts.foldl (fun q p => .seq p q) .empty

def bar (g : Group) : Group := ⟨g.sequence :: g.alternatives, []⟩

def pattern (g : Group) : Pattern :=
  g.alternatives.foldl (fun q p => .alt p q) g.sequence

end Group

/-- The pattern `p` under the sign of repetition `c`. -/
def repeated (p : Pattern) (c : Char) (greedy : Bool) : Pattern :=
  if c = '*' then .star greedy p else if c = '+' then p.plus greedy else p.optional greedy

/-- Reads on inside the group `g`, the groups around it being given from the inside out.
A repetition needs something in front of it. -/
def read? (g : Group) (around : List Group) : List Mark → Option Pattern
  | [] => if around.isEmpty then some g.pattern else none
  | .start :: rest => read? (g.add .start) around rest
  | .finish :: rest => read? (g.add .finish) around rest
  | .escaped c :: rest => read? (g.add (.char (.single c))) around rest
  | .bare c :: rest =>
    match c with
    | '(' =>
      match rest with
      | .bare '?' :: .bare ':' :: rest => read? .opened (g :: around) rest
      | .bare '?' :: _ => none
      | rest => read? .opened (g :: around) rest
    | ')' =>
      match around with
      | [] => none
      | outer :: around => read? (outer.add g.pattern) around rest
    | '|' => read? g.bar around rest
    | '[' =>
      match h : set? rest with
      | some (set, rest') =>
        have := length_lt_of_set? h
        read? (g.add (.char set)) around rest'
      | none => none
    | '\x7b' => none
    | '.' => read? (g.add (.char .onLine)) around rest
    | '^' => read? (g.add .start) around rest
    | '$' => read? (g.add .finish) around rest
    | c =>
      if c = '*' || c = '+' || c = '?' then
        match g.parts with
        | [] => none
        | p :: parts =>
          match rest with
          | .bare '?' :: rest => read? ⟨g.alternatives, p.repeated c false :: parts⟩ around rest
          | rest => read? ⟨g.alternatives, p.repeated c true :: parts⟩ around rest
      else read? (g.add (.char (.single c))) around rest
  termination_by marks => marks.length

def ofText? (text : List Char) : Option Pattern :=
  (marks? text).bind (read? .opened [])

end Pattern

end Calculator.Log
