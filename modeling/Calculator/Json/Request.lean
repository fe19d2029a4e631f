import Calculator.Json.Value

/-!
# The body of a request

A request is an object with exactly one member `expression`, which holds a string,
or an array of exactly one string. Keys are compared by their values. Other
members are passed over, even when they are repeated, and only blanks may stand
around the whole.
-/

namespace Calculator.Json

def expressionKey : String := "expression"

/-- A string behind blanks, and what follows it. -/
def readQuoted (input : List UInt8) : Option (String × List UInt8) :=
  (skipMark quote input).bind readString

theorem length_readQuoted_lt {input rest : List UInt8} {value : String}
    (h : readQuoted input = some (value, rest)) : rest.length < input.length := by
  simp only [readQuoted, Option.bind_eq_some_iff] at h
  obtain ⟨_, hq, hs⟩ := h
  have := length_skipMark_lt hq
  have := length_readString_lt hs
  omega

/-- A member of the object: the expression found so far, this member included, and
what follows the member. -/
def readMember (found : Option String) (input : List UInt8) :
    Option (Option String × List UInt8) :=
  match readQuoted input with
  | none => none
  | some (key, rest) =>
    match skipMark colon rest with
    | none => none
    | some rest =>
      if key = expressionKey then
        if found.isSome then none
        else (readQuoted rest).map fun (value, rest) => (some value, rest)
      else (skipValue rest).map fun rest => (found, rest)

theorem length_readMember_lt {found result : Option String} {input rest : List UInt8}
    (h : readMember found input = some (result, rest)) : rest.length < input.length := by
  unfold readMember at h
  split at h
  · cases h
  · next hkey =>
    have := length_readQuoted_lt hkey
    split at h
    · cases h
    · next hcolon =>
      have := length_skipMark_lt hcolon
      split at h
      · split at h
        · cases h
        · simp only [Option.map_eq_some_iff, Prod.mk.injEq] at h
          obtain ⟨⟨_, _⟩, hvalue, _, rfl⟩ := h
          have := length_readQuoted_lt hvalue
          dsimp only
          omega
      · simp only [Option.map_eq_some_iff, Prod.mk.injEq] at h
        obtain ⟨_, hvalue, _, rfl⟩ := h
        have := length_skipFrom_le hvalue
        omega

/-- The members of the object up to its end: the expression, and what follows the object. -/
def readMembers (found : Option String) (input : List UInt8) : Option (String × List UInt8) :=
  match _h : readMember found input with
  | none => none
  | some (found, rest) =>
    match _hc : skipMark comma rest with
    | some rest => readMembers found rest
    | none =>
      match found, skipMark Container.object.closing rest with
      | some value, some rest => some (value, rest)
      | _, _ => none
  termination_by input.length
  decreasing_by
    have := length_readMember_lt _h
    have := length_skipMark_lt _hc
    omega

/-- The string of an array of one string, and what follows the array. -/
def readElement (input : List UInt8) : Option (String × List UInt8) :=
  match readQuoted input with
  | none => none
  | some (value, rest) => (skipMark Container.array.closing rest).map fun rest => (value, rest)

/-- The expression that a request asks about, if the request is well formed. -/
def expression? (input : List UInt8) : Option String :=
  match skipBlanks input with
  | [] => none
  | b :: rest =>
    let read := match Container.ofOpening? b with
      | some .object => readMembers none rest
      | some .array => readElement rest
      | none => none
    match read with
    | some (value, rest) => if (skipBlanks rest).isEmpty then some value else none
    | none => none

end Calculator.Json
