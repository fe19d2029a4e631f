import Calculator.Json.Text
import Calculator.Proofs.Encoding

/-!
# The strings of JSON

The strings that are passed over are runs of ordinary bytes and of escapes. The
strings that are read for their values are runs of characters, each of which is
written by its bytes or by an escape: a letter, a code unit that is no surrogate,
or a pair of surrogates. The readers find exactly these strings, up to the quote
that ends them.
-/

namespace Calculator.Json

/-- A property of bytes is decided byte by byte. -/
instance (priority := low) decidableForallByte (p : UInt8 → Prop) [DecidablePred p] : Decidable (∀ b, p b) :=
  decidable_of_iff (∀ i : Fin 256, p (UInt8.ofFin i)) ⟨fun h b => h b.toFin, fun h _ => h _⟩

/-- The digits are those of core's `Nat.digitChar`, in lower or in upper case. -/
def IsHexDigit (b : UInt8) (n : Nat) : Prop :=
  n < 16 ∧ (b.toNat = n.digitChar.toNat ∨ b.toNat = n.digitChar.toUpper.toNat)

instance (b : UInt8) (n : Nat) : Decidable (IsHexDigit b n) :=
  inferInstanceAs (Decidable (_ ∧ _))

theorem hexDigit?_eq_some_iff {b : UInt8} {n : Nat} :
    hexDigit? b = some n ↔ IsHexDigit b n := by
  constructor
  · intro h
    have hall : ∀ b, ∀ n ∈ hexDigit? b, IsHexDigit b n := by decide +kernel
    exact hall b n h
  · intro h
    have hall : ∀ b, ∀ n < 16, IsHexDigit b n → hexDigit? b = some n := by decide +kernel
    exact hall b n h.1 h

/-- Four hexadecimal digits, and the code unit that they write. -/
inductive CodeUnit : List UInt8 → Nat → Prop
  | mk {a b c d : UInt8} {w x y z : Nat} : IsHexDigit a w → IsHexDigit b x → IsHexDigit c y →
      IsHexDigit d z → CodeUnit [a, b, c, d] (((w * 16 + x) * 16 + y) * 16 + z)

theorem codeUnit?_eq_some_iff {input rest : List UInt8} {unit : Nat} :
    codeUnit? input = some (unit, rest) ↔
      ∃ digits, CodeUnit digits unit ∧ input = digits ++ rest := by
  constructor
  · intro h
    unfold codeUnit? at h
    split at h
    · split at h
      · next ha hb hc hd =>
          cases h
          refine ⟨_, .mk (hexDigit?_eq_some_iff.mp ha) (hexDigit?_eq_some_iff.mp hb)
            (hexDigit?_eq_some_iff.mp hc) (hexDigit?_eq_some_iff.mp hd), rfl⟩
      · cases h
    · cases h
  · rintro ⟨_, ⟨ha, hb, hc, hd⟩, rfl⟩
    simp only [List.cons_append, List.nil_append, codeUnit?, hexDigit?_eq_some_iff.mpr ha,
      hexDigit?_eq_some_iff.mpr hb, hexDigit?_eq_some_iff.mpr hc, hexDigit?_eq_some_iff.mpr hd]

theorem CodeUnit.codeUnit?_append {digits : List UInt8} {unit : Nat} (h : CodeUnit digits unit)
    (rest : List UInt8) : codeUnit? (digits ++ rest) = some (unit, rest) :=
  codeUnit?_eq_some_iff.mpr ⟨digits, h, rfl⟩

/-- The letters of the short escapes, and the characters that they stand for. -/
def shortEscapes : List (UInt8 × Char) :=
  [(quote, '"'), (backslash, '\\'), (0x2f, '/'), (0x62, '\x08'), (0x66, '\x0c'), (0x6e, '\n'),
    (0x72, '\r'), (0x74, '\t')]

theorem escape?_eq_some_iff {e b : UInt8} :
    escape? e = some b ↔ ∃ c, (e, c) ∈ shortEscapes ∧ String.utf8EncodeChar c = [b] := by
  constructor
  · intro h
    have hall : ∀ e, ∀ b ∈ escape? e, ∃ pair ∈ shortEscapes,
        pair.1 = e ∧ String.utf8EncodeChar pair.2 = [b] := by
      decide +kernel
    obtain ⟨⟨_, c⟩, hmem, rfl, hc⟩ := hall e b h
    exact ⟨c, hmem, hc⟩
  · rintro ⟨c, hmem, hc⟩
    have hall : ∀ pair ∈ shortEscapes,
        (escape? pair.1).map (fun b => [b]) = some (String.utf8EncodeChar pair.2) := by
      decide
    have hbyte := hall _ hmem
    rw [hc, Option.map_eq_some_iff] at hbyte
    obtain ⟨_, he, hb⟩ := hbyte
    cases hb
    exact he

theorem ne_unitLetter {e : UInt8} {c : Char} (h : (e, c) ∈ shortEscapes) : e ≠ unitLetter := by
  have hall : ∀ pair ∈ shortEscapes, pair.1 ≠ unitLetter := by decide
  exact hall _ h

/-- The escapes of one character. -/
inductive Escape : List UInt8 → Char → Prop
  | short {e : UInt8} {c : Char} : (e, c) ∈ shortEscapes → Escape [backslash, e] c
  | unit {digits : List UInt8} {unit : Nat} : CodeUnit digits unit → isLead unit = false →
      isTrail unit = false → Escape (backslash :: unitLetter :: digits) (Char.ofNat unit)
  | pair {digits digits' : List UInt8} {lead trail : Nat} : CodeUnit digits lead →
      isLead lead = true → CodeUnit digits' trail → isTrail trail = true →
      Escape (backslash :: unitLetter :: (digits ++ backslash :: unitLetter :: digits'))
        (pairChar lead trail)

/-- A byte that may stand for itself. -/
def IsOrdinary (b : UInt8) : Prop :=
  firstPrintable ≤ b ∧ b ≠ quote ∧ b ≠ backslash

/-- A string that is passed over, without its quotes. -/
inductive Passes : List UInt8 → Prop
  | nil : Passes []
  | raw {b : UInt8} {spelling : List UInt8} : IsOrdinary b → Passes spelling →
      Passes (b :: spelling)
  | short {e : UInt8} {c : Char} {spelling : List UInt8} : (e, c) ∈ shortEscapes →
      Passes spelling → Passes (backslash :: e :: spelling)
  | unit {digits spelling : List UInt8} {unit : Nat} : CodeUnit digits unit → Passes spelling →
      Passes (backslash :: unitLetter :: (digits ++ spelling))

/-- The spellings of a text as a string that is read, without its quotes. -/
inductive Spells : List UInt8 → List Char → Prop
  | nil : Spells [] []
  | raw {c : Char} {spelling : List UInt8} {text : List Char} : ' ' ≤ c → c ≠ '"' → c ≠ '\\' →
      Spells spelling text → Spells (String.utf8EncodeChar c ++ spelling) (c :: text)
  | escape {e : List UInt8} {c : Char} {spelling : List UInt8} {text : List Char} :
      Escape e c → Spells spelling text → Spells (e ++ spelling) (c :: text)

theorem skipString_ordinary {b : UInt8} (h : IsOrdinary b) (rest : List UInt8) :
    skipString (b :: rest) = skipString rest := by
  obtain ⟨hprintable, hquote, hbackslash⟩ := h
  rw [skipString.eq_def]
  dsimp only
  rw [if_neg hquote, if_neg (UInt8.not_lt.mpr hprintable), if_neg hbackslash]

theorem skipString_short {e : UInt8} {c : Char} (h : (e, c) ∈ shortEscapes) (rest : List UInt8) :
    skipString (backslash :: e :: rest) = skipString rest := by
  have hall : ∀ pair ∈ shortEscapes, (escape? pair.1).isSome = true := by decide
  rw [skipString.eq_def]
  dsimp only
  rw [if_neg (by decide), if_neg (by decide), if_pos rfl, if_neg (ne_unitLetter h),
    if_pos (hall _ h)]

theorem skipString_unit {digits : List UInt8} {unit : Nat} (h : CodeUnit digits unit)
    (rest : List UInt8) :
    skipString (backslash :: unitLetter :: (digits ++ rest)) = skipString rest := by
  have hunit := h.codeUnit?_append rest
  rw [skipString.eq_def]
  dsimp only
  rw [if_neg (by decide), if_neg (by decide), if_pos rfl, if_pos rfl]
  split
  · next h =>
      rw [hunit] at h
      cases h
      rfl
  · next h =>
      rw [hunit] at h
      cases h

/-- The reader that passes over strings ends at the quote behind the string. -/
theorem skipString_eq_some_iff {input rest : List UInt8} :
    skipString input = some rest ↔
      ∃ spelling, Passes spelling ∧ input = spelling ++ quote :: rest := by
  constructor
  · intro h
    fun_induction skipString input with
    | case1 => cases h
    | case2 =>
        cases h
        exact ⟨[], .nil, rfl⟩
    | case3 => cases h
    | case4 => cases h
    | case5 =>
        rename_i hunit _ _ ih
        obtain ⟨digits, hdigits, rfl⟩ := codeUnit?_eq_some_iff.mp hunit
        obtain ⟨spelling, hspelling, rfl⟩ := ih h
        exact ⟨_, .unit hdigits hspelling, by simp⟩
    | case6 => cases h
    | case7 _ _ _ he _ _ ih =>
        obtain ⟨b, hb⟩ := Option.isSome_iff_exists.mp he
        obtain ⟨c, hc, -⟩ := escape?_eq_some_iff.mp hb
        obtain ⟨spelling, hspelling, rfl⟩ := ih h
        exact ⟨_, .short hc hspelling, rfl⟩
    | case8 => cases h
    | case9 _ _ hquote hprintable hbackslash ih =>
        obtain ⟨spelling, hspelling, rfl⟩ := ih h
        exact ⟨_, .raw ⟨UInt8.not_lt.mp hprintable, hquote, hbackslash⟩ hspelling, rfl⟩
  · rintro ⟨spelling, hspelling, rfl⟩
    induction hspelling with
    | nil =>
        rw [List.nil_append, skipString.eq_def]
        rfl
    | raw hb _ ih => rw [List.cons_append, skipString_ordinary hb, ih]
    | short he _ ih => rw [List.cons_append, List.cons_append, skipString_short he, ih]
    | unit hunit _ ih =>
        rw [List.cons_append, List.cons_append, List.append_assoc, skipString_unit hunit, ih]

theorem readTrail_eq_some_iff {input rest : List UInt8} {trail : Nat} :
    readTrail input = some (trail, rest) ↔
      ∃ digits, CodeUnit digits trail ∧ isTrail trail = true ∧
        input = backslash :: unitLetter :: (digits ++ rest) := by
  constructor
  · intro h
    unfold readTrail at h
    split at h
    · split at h
      · next hescape =>
          obtain ⟨rfl, rfl⟩ := hescape
          split at h
          · next hunit =>
              split at h
              · next htrail =>
                  cases h
                  obtain ⟨digits, hdigits, rfl⟩ := codeUnit?_eq_some_iff.mp hunit
                  exact ⟨digits, hdigits, htrail, rfl⟩
              · cases h
          · cases h
      · cases h
    · cases h
  · rintro ⟨digits, hdigits, htrail, rfl⟩
    simp [readTrail, hdigits.codeUnit?_append, htrail]

theorem readUnits_eq_some_iff {input rest : List UInt8} {c : Char} :
    readUnits input = some (c, rest) ↔
      ∃ digits, Escape (backslash :: unitLetter :: digits) c ∧ input = digits ++ rest := by
  constructor
  · intro h
    unfold readUnits at h
    split at h
    · cases h
    · next hunit =>
        obtain ⟨digits, hdigits, rfl⟩ := codeUnit?_eq_some_iff.mp hunit
        split at h
        · next hlead =>
            split at h
            · next hread =>
                simp only [Option.some.injEq, Prod.mk.injEq] at h
                obtain ⟨rfl, rfl⟩ := h
                obtain ⟨digits', hdigits', htrail, rfl⟩ := readTrail_eq_some_iff.mp hread
                exact ⟨_, .pair hdigits hlead hdigits' htrail, by simp⟩
            · cases h
        · next hlead =>
            split at h
            · cases h
            · next htrail =>
                simp only [Option.some.injEq, Prod.mk.injEq] at h
                obtain ⟨rfl, rfl⟩ := h
                exact ⟨digits, .unit hdigits (by simpa using hlead) (by simpa using htrail), rfl⟩
  · rintro ⟨digits, hescape, rfl⟩
    cases hescape with
    | short he => exact absurd rfl (ne_unitLetter he)
    | unit hdigits hlead htrail =>
        simp [readUnits, hdigits.codeUnit?_append, hlead, htrail]
    | @pair digits digits' lead trail hdigits hlead hdigits' htrail =>
        have htrail : readTrail (backslash :: unitLetter :: (digits' ++ rest)) = some (trail, rest) :=
          readTrail_eq_some_iff.mpr ⟨digits', hdigits', htrail, rfl⟩
        simp only [readUnits, List.append_assoc, List.cons_append, hdigits.codeUnit?_append, hlead,
          htrail, if_true]

/-- The bytes of a string with its escapes replaced by the bytes of their characters. -/
inductive Replaces : List UInt8 → List UInt8 → Prop
  | nil : Replaces [] []
  | raw {b : UInt8} {spelling result : List UInt8} : IsOrdinary b → Replaces spelling result →
      Replaces (b :: spelling) (b :: result)
  | escape {e spelling result : List UInt8} {c : Char} : Escape e c → Replaces spelling result →
      Replaces (e ++ spelling) (String.utf8EncodeChar c ++ result)

theorem readBytes_ordinary {b : UInt8} (h : IsOrdinary b) (done rest : List UInt8) :
    readBytes done (b :: rest) = readBytes (b :: done) rest := by
  obtain ⟨hprintable, hquote, hbackslash⟩ := h
  rw [readBytes.eq_def]
  dsimp only
  rw [if_neg hquote, if_neg (UInt8.not_lt.mpr hprintable), if_neg hbackslash]

theorem readBytes_escape {e : List UInt8} {c : Char} (h : Escape e c) (done rest : List UInt8) :
    readBytes done (e ++ rest) = readBytes ((String.utf8EncodeChar c).reverse ++ done) rest := by
  have hunits {digits : List UInt8} (hdigits : Escape (backslash :: unitLetter :: digits) c) :
      readBytes done (backslash :: unitLetter :: (digits ++ rest)) =
        readBytes ((String.utf8EncodeChar c).reverse ++ done) rest := by
    have hread := readUnits_eq_some_iff.mpr ⟨digits, hdigits, (rfl : digits ++ rest = _)⟩
    rw [readBytes.eq_def]
    dsimp only
    rw [if_neg (by decide), if_neg (by decide), if_pos rfl, if_pos rfl]
    split
    · next h =>
        rw [hread] at h
        cases h
        rfl
    · next h =>
        rw [hread] at h
        cases h
  cases h with
  | @short e c he =>
      have hbyte : ∃ b, String.utf8EncodeChar c = [b] := by
        have hall : ∀ pair ∈ shortEscapes, (String.utf8EncodeChar pair.2).length = 1 := by decide
        exact List.length_eq_one_iff.mp (hall _ he)
      obtain ⟨b, hb⟩ := hbyte
      have hescape := escape?_eq_some_iff.mpr ⟨c, he, hb⟩
      rw [List.cons_append, List.cons_append, readBytes.eq_def]
      dsimp only
      rw [if_neg (by decide), if_neg (by decide), if_pos rfl, if_neg (ne_unitLetter he), hescape, hb]
      rfl
  | unit hdigits hlead htrail => exact hunits (.unit hdigits hlead htrail)
  | pair hdigits hlead hdigits' htrail => exact hunits (.pair hdigits hlead hdigits' htrail)

theorem readBytes_eq_some_iff {done input result rest : List UInt8} :
    readBytes done input = some (result, rest) ↔
      ∃ spelling bytes, Replaces spelling bytes ∧ input = spelling ++ quote :: rest ∧
        result = done.reverse ++ bytes := by
  constructor
  · intro h
    fun_induction readBytes done input with
    | case1 => cases h
    | case2 =>
        cases h
        exact ⟨[], [], .nil, rfl, by simp⟩
    | case3 => cases h
    | case4 => cases h
    | case5 =>
        rename_i hunits _ _ ih
        obtain ⟨digits, hdigits, rfl⟩ := readUnits_eq_some_iff.mp hunits
        obtain ⟨spelling, bytes, hspelling, rfl, rfl⟩ := ih h
        exact ⟨_, _, .escape hdigits hspelling, by simp, by simp⟩
    | case6 => cases h
    | case7 _ _ _ _ _ he _ _ ih =>
        obtain ⟨c, hc, hbyte⟩ := escape?_eq_some_iff.mp he
        obtain ⟨spelling, bytes, hspelling, rfl, rfl⟩ := ih h
        exact ⟨_, _, .escape (.short hc) hspelling, rfl, by simp [hbyte]⟩
    | case8 => cases h
    | case9 _ _ _ hquote hprintable hbackslash ih =>
        obtain ⟨spelling, bytes, hspelling, rfl, rfl⟩ := ih h
        have hordinary : IsOrdinary _ := ⟨UInt8.not_lt.mp hprintable, hquote, hbackslash⟩
        exact ⟨_, _, .raw hordinary hspelling, rfl, by simp⟩
  · rintro ⟨spelling, bytes, hspelling, rfl, rfl⟩
    induction hspelling generalizing done with
    | nil =>
        rw [List.nil_append, List.append_nil, readBytes.eq_def]
        rfl
    | raw hb _ ih =>
        rw [List.cons_append, readBytes_ordinary hb, ih, List.reverse_cons, List.append_assoc]
        rfl
    | escape he _ ih =>
        rw [List.append_assoc, readBytes_escape he, ih, List.reverse_append, List.reverse_reverse,
          List.append_assoc]

/-- A character that may stand for itself is written in ordinary bytes, and only such
a character is. -/
theorem forall_isOrdinary_iff {c : Char} :
    (∀ b ∈ String.utf8EncodeChar c, IsOrdinary b) ↔ ' ' ≤ c ∧ c ≠ '"' ∧ c ≠ '\\' := by
  rw [Char.le_def, UInt32.le_iff_toNat_le, ← Char.toNat_inj.ne, ← Char.toNat_inj.ne]
  rcases Nat.lt_or_ge c.toNat 0x80 with hascii | hother
  · have hbyte : (UInt8.ofNat c.toNat).toNat = c.toNat := UInt8.toNat_ofNat_of_lt (Nat.lt_trans hascii (by decide))
    simp only [Text.utf8EncodeChar_of_lt hascii, List.forall_mem_singleton, IsOrdinary,
      UInt8.le_iff_toNat_le, ← UInt8.toNat_inj.ne, hbyte]
    rfl
  · have habove {n : Nat} (hn : n < 0x80) : n < c.toNat := Nat.lt_of_lt_of_le hn hother
    constructor
    · intro _
      exact ⟨Nat.le_of_lt (habove (by decide)), Nat.ne_of_gt (habove (by decide)),
        Nat.ne_of_gt (habove (by decide))⟩
    · intro _ b hb
      have hbyte : 0x80 ≤ b := Text.le_of_mem_utf8EncodeChar hother hb
      refine ⟨UInt8.le_trans (by decide) hbyte, ?_, ?_⟩ <;>
        exact UInt8.ne_of_lt (UInt8.lt_of_lt_of_le (by decide) hbyte) |>.symm

theorem Replaces.append_ordinary {run : List UInt8} (hrun : ∀ b ∈ run, IsOrdinary b)
    {spelling result : List UInt8} (h : Replaces spelling result) :
    Replaces (run ++ spelling) (run ++ result) := by
  induction run with
  | nil => exact h
  | cons b run ih =>
      rw [List.forall_mem_cons] at hrun
      exact .raw hrun.1 (ih hrun.2)

theorem Spells.replaces {spelling : List UInt8} {text : List Char} (h : Spells spelling text) :
    Replaces spelling (Text.bytes text) := by
  induction h with
  | nil => exact .nil
  | raw hprintable hquote hbackslash _ ih =>
      exact ih.append_ordinary (forall_isOrdinary_iff.mpr ⟨hprintable, hquote, hbackslash⟩)
  | escape he _ ih => exact .escape he ih

theorem Spells.append {spelling spelling' : List UInt8} {text text' : List Char}
    (h : Spells spelling text) (h' : Spells spelling' text') :
    Spells (spelling ++ spelling') (text ++ text') := by
  induction h with
  | nil => exact h'
  | raw hprintable hquote hbackslash _ ih =>
      rw [List.append_assoc]
      exact .raw hprintable hquote hbackslash ih
  | escape he _ ih =>
      rw [List.append_assoc]
      exact .escape he ih

theorem spells_bytes {text : List Char} (h : ∀ b ∈ Text.bytes text, IsOrdinary b) :
    Spells (Text.bytes text) text := by
  induction text with
  | nil => exact .nil
  | cons c text ih =>
      rw [Text.bytes_cons, List.forall_mem_append] at h
      obtain ⟨hprintable, hquote, hbackslash⟩ := forall_isOrdinary_iff.mp h.1
      exact .raw hprintable hquote hbackslash (ih h.2)

/-- The induction runs over the pieces of a string, with the ordinary bytes before them
that have not yet been decoded: an escape ends them at the end of a character. -/
theorem Replaces.spells_append {spelling result : List UInt8} (h : Replaces spelling result)
    {run : List UInt8} (hrun : ∀ b ∈ run, IsOrdinary b) {text : List Char}
    (htext : run ++ result = Text.bytes text) : Spells (run ++ spelling) text := by
  induction h generalizing run text with
  | nil =>
      rw [List.append_nil] at htext ⊢
      subst htext
      exact spells_bytes hrun
  | @raw b spelling result hb _ ih =>
      have hrun' : ∀ d ∈ run ++ [b], IsOrdinary d := by
        rw [List.forall_mem_append, List.forall_mem_singleton]
        exact ⟨hrun, hb⟩
      have hspells := ih hrun' (by simpa using htext)
      simpa using hspells
  | @escape e spelling result c he _ ih =>
      obtain ⟨before, behind, rfl, rfl, hbehind⟩ :=
        Text.exists_cut htext (Text.isUTF8FirstByte_head? c result)
      obtain ⟨tail, rfl, rfl⟩ := Text.exists_cons_of_append hbehind
      have htail : Spells ([] ++ spelling) tail := ih (by simp) rfl
      exact (spells_bytes hrun).append (.escape he htail)

/-- The reader finds the strings that spell texts, with the texts, and it ends at the
quote behind the string. -/
theorem readString_eq_some_iff {input rest : List UInt8} {s : String} :
    readString input = some (s, rest) ↔
      ∃ spelling, Spells spelling s.toList ∧ input = spelling ++ quote :: rest := by
  constructor
  · intro h
    unfold readString at h
    split at h
    · cases h
    · next hbytes =>
        split at h
        · next hdecode =>
            cases h
            obtain ⟨spelling, bytes, hreplaces, rfl, rfl⟩ := readBytes_eq_some_iff.mp hbytes
            have htext := Text.decode?_eq_some_iff.mp hdecode
            have hspells : Spells ([] ++ spelling) s.toList :=
              hreplaces.spells_append (by simp) htext
            exact ⟨spelling, hspells, rfl⟩
        · cases h
  · rintro ⟨spelling, hspelling, rfl⟩
    have hbytes : readBytes [] (spelling ++ quote :: rest) = some (Text.bytes s.toList, rest) :=
      readBytes_eq_some_iff.mpr ⟨spelling, _, hspelling.replaces, rfl, rfl⟩
    rw [readString, hbytes]
    simp only [Text.decode?_eq_some_iff.mpr rfl]

end Calculator.Json
