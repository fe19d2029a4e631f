import Calculator.Text.Lines

/-!
# Blanks and strings of JSON

JSON is read from bytes, each reader giving back the bytes behind what it read. A
string may be read for its value, and then its bytes are well-formed UTF-8 and
its surrogate escapes come in pairs, or only be passed over, and then neither is
asked for. Either way it has no raw control character and no unknown escape.
-/

namespace Calculator.Json

/-- Space, tab, line feed and carriage return. -/
def isBlank (b : UInt8) : Bool :=
  b == 0x20 || b == 0x09 || b == 0x0a || b == 0x0d

def skipBlanks (input : List UInt8) : List UInt8 :=
  input.dropWhile isBlank

theorem length_skipBlanks_le (input : List UInt8) : (skipBlanks input).length ≤ input.length :=
  (List.dropWhile_sublist _).length_le

theorem length_lt_of_skipBlanks {input rest : List UInt8} {b : UInt8}
    (h : skipBlanks input = b :: rest) : rest.length < input.length := by
  have := length_skipBlanks_le input
  rw [h] at this
  exact this

def isDigit (b : UInt8) : Bool :=
  0x30 ≤ b && b ≤ 0x39

def quote : UInt8 := 0x22

def backslash : UInt8 := 0x5c

/-- Bytes below this one are control characters. -/
def firstPrintable : UInt8 := 0x20

def hexDigit? (b : UInt8) : Option Nat :=
  if isDigit b then some (b.toNat - 0x30)
  else if 0x61 ≤ b && b ≤ 0x66 then some (b.toNat - 0x57)
  else if 0x41 ≤ b && b ≤ 0x46 then some (b.toNat - 0x37)
  else none

/-- The code unit that four hexadecimal digits write, and what follows them. -/
def codeUnit? : List UInt8 → Option (Nat × List UInt8)
  | a :: b :: c :: d :: rest =>
    match hexDigit? a, hexDigit? b, hexDigit? c, hexDigit? d with
    | some a, some b, some c, some d => some (((a * 16 + b) * 16 + c) * 16 + d, rest)
    | _, _, _, _ => none
  | _ => none

theorem length_codeUnit?_lt {input rest : List UInt8} {unit : Nat}
    (h : codeUnit? input = some (unit, rest)) : rest.length < input.length := by
  unfold codeUnit? at h
  split at h
  · split at h
    · cases h
      simp only [List.length_cons]
      omega
    · cases h
  · cases h

/-- The byte that a one-letter escape stands for. -/
def escape? (b : UInt8) : Option UInt8 :=
  if b = quote ∨ b = backslash ∨ b = 0x2f then some b
  else if b = 0x62 then some 0x08
  else if b = 0x66 then some 0x0c
  else if b = 0x6e then some 0x0a
  else if b = 0x72 then some 0x0d
  else if b = 0x74 then some 0x09
  else none

def unitLetter : UInt8 := 0x75

def isLead (unit : Nat) : Bool :=
  0xd800 ≤ unit && unit < 0xdc00

def isTrail (unit : Nat) : Bool :=
  0xdc00 ≤ unit && unit < 0xe000

/-- The character that a surrogate pair stands for. -/
def pairChar (lead trail : Nat) : Char :=
  Char.ofNat (0x10000 + (lead - 0xd800) * 0x400 + (trail - 0xdc00))

/-- Passes over a string behind its opening quote. -/
def skipString : List UInt8 → Option (List UInt8)
  | [] => none
  | b :: rest =>
    if b = quote then some rest
    else if b < firstPrintable then none
    else if b = backslash then
      match rest with
      | [] => none
      | e :: rest =>
        if e = unitLetter then
          match _h : codeUnit? rest with
          | some (_, rest) => skipString rest
          | none => none
        else if (escape? e).isSome then skipString rest
        else none
    else skipString rest
  termination_by input => input.length
  decreasing_by
    all_goals simp only [List.length_cons]
    · have := length_codeUnit?_lt _h
      omega
    all_goals omega

theorem length_skipString_lt {input rest : List UInt8} (h : skipString input = some rest) :
    rest.length < input.length := by
  fun_induction skipString input with
  | case1 => cases h
  | case2 =>
    cases h
    simp
  | case3 => cases h
  | case4 => cases h
  | case5 =>
    rename_i hu _ _ ih
    have := ih h
    have := length_codeUnit?_lt hu
    simp only [List.length_cons]
    omega
  | case6 => cases h
  | case7 _ _ _ _ _ _ ih =>
    have := ih h
    simp only [List.length_cons]
    omega
  | case8 => cases h
  | case9 _ _ _ _ _ ih =>
    have := ih h
    simp only [List.length_cons]
    omega

/-- The second half of a surrogate pair, written as an escape of its own. -/
def readTrail : List UInt8 → Option (Nat × List UInt8)
  | b :: e :: rest =>
    if b = backslash ∧ e = unitLetter then
      match codeUnit? rest with
      | some (unit, rest) => if isTrail unit then some (unit, rest) else none
      | none => none
    else none
  | _ => none

theorem length_readTrail_lt {input rest : List UInt8} {unit : Nat}
    (h : readTrail input = some (unit, rest)) : rest.length < input.length := by
  unfold readTrail at h
  split at h
  · split at h
    · split at h
      · next heq =>
        split at h
        · cases h
          have := length_codeUnit?_lt heq
          simp only [List.length_cons]
          omega
        · cases h
      · cases h
    · cases h
  · cases h

/-- An escape by code units, behind its letter: the character, and what follows. -/
def readUnits (input : List UInt8) : Option (Char × List UInt8) :=
  match codeUnit? input with
  | none => none
  | some (unit, rest) =>
    if isLead unit then
      match readTrail rest with
      | some (trail, rest) => some (pairChar unit trail, rest)
      | none => none
    else if isTrail unit then none
    else some (Char.ofNat unit, rest)

theorem length_readUnits_lt {input rest : List UInt8} {c : Char}
    (h : readUnits input = some (c, rest)) : rest.length < input.length := by
  unfold readUnits at h
  split at h
  · cases h
  · next heq =>
    have hunit := length_codeUnit?_lt heq
    split at h
    · split at h
      · next htrail =>
        simp only [Option.some.injEq, Prod.mk.injEq] at h
        obtain ⟨-, rfl⟩ := h
        have := length_readTrail_lt htrail
        omega
      · cases h
    · split at h
      · cases h
      · simp only [Option.some.injEq, Prod.mk.injEq] at h
        obtain ⟨-, rfl⟩ := h
        exact hunit

/-- The bytes of a string behind its opening quote, with its escapes replaced, and
what follows the string. The bytes `done` are latest first. -/
def readBytes (done : List UInt8) : List UInt8 → Option (List UInt8 × List UInt8)
  | [] => none
  | b :: rest =>
    if b = quote then some (done.reverse, rest)
    else if b < firstPrintable then none
    else if b = backslash then
      match rest with
      | [] => none
      | e :: rest =>
        if e = unitLetter then
          match _h : readUnits rest with
          | some (c, rest) => readBytes ((String.utf8EncodeChar c).reverse ++ done) rest
          | none => none
        else
          match escape? e with
          | some byte => readBytes (byte :: done) rest
          | none => none
    else readBytes (b :: done) rest
  termination_by input => input.length
  decreasing_by
    all_goals simp only [List.length_cons]
    · have := length_readUnits_lt _h
      omega
    all_goals omega

/-- The value of a string behind its opening quote, and what follows the string. -/
def readString (input : List UInt8) : Option (String × List UInt8) :=
  match readBytes [] input with
  | none => none
  | some (bytes, rest) =>
    match Text.decode? bytes with
    | some value => some (value, rest)
    | none => none

theorem length_readBytes_lt {done input bytes rest : List UInt8}
    (h : readBytes done input = some (bytes, rest)) : rest.length < input.length := by
  fun_induction readBytes done input with
  | case1 => cases h
  | case2 =>
    cases h
    simp
  | case3 => cases h
  | case4 => cases h
  | case5 =>
    rename_i hu _ _ ih
    have := ih h
    have := length_readUnits_lt hu
    simp only [List.length_cons]
    omega
  | case6 => cases h
  | case7 _ _ _ _ _ _ _ _ ih =>
    have := ih h
    simp only [List.length_cons]
    omega
  | case8 => cases h
  | case9 _ _ _ _ _ _ ih =>
    have := ih h
    simp only [List.length_cons]
    omega

theorem length_readString_lt {input rest : List UInt8} {value : String}
    (h : readString input = some (value, rest)) : rest.length < input.length := by
  unfold readString at h
  split at h
  · cases h
  · next heq =>
    split at h
    · cases h
      exact length_readBytes_lt heq
    · cases h

end Calculator.Json
