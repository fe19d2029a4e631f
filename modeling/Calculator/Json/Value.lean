import Calculator.Json.Text

/-!
# Passing over JSON values

A value that is not asked for has to be well formed, but its strings need not be
text, its numbers need not be in any range, and it may be nested to any depth:
the containers that are open are kept in a list.
-/

namespace Calculator.Json

def skipDigits : List UInt8 → Option (List UInt8)
  | [] => none
  | b :: rest => if isDigit b then some (rest.dropWhile isDigit) else none

theorem length_skipDigits_lt {input rest : List UInt8} (h : skipDigits input = some rest) :
    rest.length < input.length := by
  unfold skipDigits at h
  split at h
  · cases h
  · next b tail =>
    split at h
    · cases h
      have := (List.dropWhile_sublist isDigit (l := tail)).length_le
      simp only [List.length_cons]
      omega
    · cases h

/-- The whole part of a number: a zero, or digits of which the first is not a zero. -/
def skipWhole : List UInt8 → Option (List UInt8)
  | [] => none
  | b :: rest => if b = 0x30 then some rest else skipDigits (b :: rest)

theorem length_skipWhole_lt {input rest : List UInt8} (h : skipWhole input = some rest) :
    rest.length < input.length := by
  unfold skipWhole at h
  split at h
  · cases h
  · split at h
    · cases h
      simp
    · exact length_skipDigits_lt h

/-- The part of a number behind a point, if there is a point. -/
def skipFraction : List UInt8 → Option (List UInt8)
  | [] => some []
  | b :: rest => if b = 0x2e then skipDigits rest else some (b :: rest)

theorem length_skipFraction_le {input rest : List UInt8} (h : skipFraction input = some rest) :
    rest.length ≤ input.length := by
  unfold skipFraction at h
  split at h
  · cases h
    simp
  · split at h
    · have := length_skipDigits_lt h
      simp only [List.length_cons]
      omega
    · cases h
      simp

def skipSign : List UInt8 → List UInt8
  | [] => []
  | b :: rest => if b = 0x2b ∨ b = 0x2d then rest else b :: rest

theorem length_skipSign_le (input : List UInt8) : (skipSign input).length ≤ input.length := by
  unfold skipSign
  split
  · simp
  · split <;> simp

/-- The exponent of a number, if there is one. -/
def skipExponent : List UInt8 → Option (List UInt8)
  | [] => some []
  | b :: rest => if b = 0x65 ∨ b = 0x45 then skipDigits (skipSign rest) else some (b :: rest)

theorem length_skipExponent_le {input rest : List UInt8} (h : skipExponent input = some rest) :
    rest.length ≤ input.length := by
  unfold skipExponent at h
  split at h
  · cases h
    simp
  · next b tail =>
    split at h
    · have := length_skipDigits_lt h
      have := length_skipSign_le tail
      simp only [List.length_cons]
      omega
    · cases h
      simp

/-- A number, behind its sign. -/
def skipMagnitude (input : List UInt8) : Option (List UInt8) :=
  (skipWhole input).bind fun rest => (skipFraction rest).bind skipExponent

theorem length_skipMagnitude_lt {input rest : List UInt8} (h : skipMagnitude input = some rest) :
    rest.length < input.length := by
  simp only [skipMagnitude, Option.bind_eq_some_iff] at h
  obtain ⟨_, hw, _, hf, he⟩ := h
  have := length_skipWhole_lt hw
  have := length_skipFraction_le hf
  have := length_skipExponent_le he
  omega

def skipWord (word input : List UInt8) : Option (List UInt8) :=
  if word.isPrefixOf input then some (input.drop word.length) else none

theorem length_skipWord_le {word input rest : List UInt8} (h : skipWord word input = some rest) :
    rest.length ≤ input.length := by
  unfold skipWord at h
  split at h
  · cases h
    simp
  · cases h

/-- A value that is no container: a string, a number or a word. -/
def skipScalar : List UInt8 → Option (List UInt8)
  | [] => none
  | b :: rest =>
    if b = quote then skipString rest
    else if b = 0x2d then skipMagnitude rest
    else if b = 0x6e then skipWord [0x75, 0x6c, 0x6c] rest
    else if b = 0x74 then skipWord [0x72, 0x75, 0x65] rest
    else if b = 0x66 then skipWord [0x61, 0x6c, 0x73, 0x65] rest
    else skipMagnitude (b :: rest)

theorem length_skipScalar_lt {input rest : List UInt8} (h : skipScalar input = some rest) :
    rest.length < input.length := by
  unfold skipScalar at h
  split at h
  · cases h
  · next b tail =>
    simp only [List.length_cons]
    split at h
    · have := length_skipString_lt h
      omega
    · split at h
      · have := length_skipMagnitude_lt h
        omega
      · split at h
        · have := length_skipWord_le h
          omega
        · split at h
          · have := length_skipWord_le h
            omega
          · split at h
            · have := length_skipWord_le h
              omega
            · have := length_skipMagnitude_lt h
              simpa using this

/-- The byte `b`, behind blanks. -/
def skipMark (b : UInt8) (input : List UInt8) : Option (List UInt8) :=
  match skipBlanks input with
  | [] => none
  | c :: rest => if c = b then some rest else none

theorem length_skipMark_lt {b : UInt8} {input rest : List UInt8} (h : skipMark b input = some rest) :
    rest.length < input.length := by
  unfold skipMark at h
  split at h
  · cases h
  · next heq =>
    split at h
    · cases h
      exact length_lt_of_skipBlanks heq
    · cases h

def comma : UInt8 := 0x2c

def colon : UInt8 := 0x3a

/-- The key of a member that is passed over, with its colon. -/
def skipKey (input : List UInt8) : Option (List UInt8) :=
  (skipMark quote input).bind fun rest => (skipString rest).bind (skipMark colon)

theorem length_skipKey_lt {input rest : List UInt8} (h : skipKey input = some rest) :
    rest.length < input.length := by
  simp only [skipKey, Option.bind_eq_some_iff] at h
  obtain ⟨_, hq, _, hs, hc⟩ := h
  have := length_skipMark_lt hq
  have := length_skipString_lt hs
  have := length_skipMark_lt hc
  omega

inductive Container
  | array
  | object
  deriving DecidableEq

namespace Container

def opening : Container → UInt8
  | .array => 0x5b
  | .object => 0x7b

def closing : Container → UInt8
  | .array => 0x5d
  | .object => 0x7d

/-- What has to stand before a value in the container. -/
def skipBefore : Container → List UInt8 → Option (List UInt8)
  | .array, input => some input
  | .object, input => skipKey input

theorem length_skipBefore_le {c : Container} {input rest : List UInt8}
    (h : c.skipBefore input = some rest) : rest.length ≤ input.length := by
  cases c with
  | array =>
    cases h
    exact Nat.le_refl _
  | object => exact Nat.le_of_lt (length_skipKey_lt h)

def ofOpening? (b : UInt8) : Option Container :=
  if b = opening .array then some .array
  else if b = opening .object then some .object
  else none

end Container

/-- Where the reader stands inside the open containers, innermost first. -/
inductive Place
  /-- A value comes next. -/
  | before
  /-- A value has just ended. -/
  | behind
  deriving DecidableEq

/-- Passes over the value that comes next, or over the rest of the open containers
behind a value. -/
def skipFrom (place : Place) (containers : List Container) (input : List UInt8) :
    Option (List UInt8) :=
  match place, containers with
  | .behind, [] => some input
  | .behind, c :: outer =>
    match _h : skipBlanks input with
    | [] => none
    | b :: rest =>
      if b = c.closing then skipFrom .behind outer rest
      else if b = comma then
        match _hb : c.skipBefore rest with
        | some rest => skipFrom .before (c :: outer) rest
        | none => none
      else none
  | .before, containers =>
    match _h : skipBlanks input with
    | [] => none
    | b :: rest =>
      match Container.ofOpening? b with
      | some c =>
        match _hm : skipMark c.closing rest with
        | some rest => skipFrom .behind containers rest
        | none =>
          match _hb : c.skipBefore rest with
          | some rest => skipFrom .before (c :: containers) rest
          | none => none
      | none =>
        match _hs : skipScalar (b :: rest) with
        | some rest => skipFrom .behind containers rest
        | none => none
  termination_by input.length
  decreasing_by
    all_goals have hlt := length_lt_of_skipBlanks _h
    · exact hlt
    · have := Container.length_skipBefore_le _hb
      omega
    · have := length_skipMark_lt _hm
      omega
    · have := Container.length_skipBefore_le _hb
      omega
    · have := length_skipScalar_lt _hs
      simp only [List.length_cons] at this
      omega

def skipValue (input : List UInt8) : Option (List UInt8) :=
  skipFrom .before [] input

theorem length_skipFrom_le {place : Place} {containers : List Container}
    {input rest : List UInt8} (h : skipFrom place containers input = some rest) :
    rest.length ≤ input.length := by
  fun_induction skipFrom place containers input with
  | case1 =>
    cases h
    exact Nat.le_refl _
  | case2 => cases h
  | case3 =>
    rename_i hb ih
    have := ih h
    have := length_lt_of_skipBlanks hb
    omega
  | case4 =>
    rename_i hbefore hb _ ih
    have := ih h
    have := Container.length_skipBefore_le hbefore
    have := length_lt_of_skipBlanks hb
    omega
  | case5 => cases h
  | case6 => cases h
  | case7 => cases h
  | case8 =>
    rename_i hb _ _ _ hmark ih
    have := ih h
    have := length_skipMark_lt hmark
    have := length_lt_of_skipBlanks hb
    omega
  | case9 =>
    rename_i hb _ _ _ _ hbefore ih
    have := ih h
    have := Container.length_skipBefore_le hbefore
    have := length_lt_of_skipBlanks hb
    omega
  | case10 => cases h
  | case11 =>
    rename_i hb _ _ hscalar ih
    have := ih h
    have := length_skipScalar_lt hscalar
    have := length_lt_of_skipBlanks hb
    simp only [List.length_cons] at *
    omega
  | case12 => cases h

end Calculator.Json
