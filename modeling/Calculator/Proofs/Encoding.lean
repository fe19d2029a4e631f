import Calculator.Text.Lines
import Mathlib.Data.List.Basic

/-!
# Texts and their bytes

A text is the list of its characters, and its bytes are those of its characters in
UTF-8, one after another. Decoding gives back the only text that has given bytes.
A text that has more bytes than one for a character has none of these below the
first one outside ASCII, and its bytes can be cut wherever a character may start.
-/

namespace Calculator.Text

/-- The bytes of the characters of a text. -/
def bytes (text : List Char) : List UInt8 :=
  text.flatMap String.utf8EncodeChar

@[simp] theorem bytes_nil : bytes [] = [] := rfl

@[simp] theorem bytes_cons (c : Char) (text : List Char) :
    bytes (c :: text) = String.utf8EncodeChar c ++ bytes text := rfl

theorem toByteArray_bytes (s : String) : (bytes s.toList).toByteArray = s.toByteArray := by
  rw [bytes, ← List.utf8Encode, String.utf8Encode_toList]

theorem decode?_eq_some_iff {input : List UInt8} {s : String} :
    decode? input = some s ↔ input = bytes s.toList := by
  rw [← List.toByteArray_inj, toByteArray_bytes, decode?, String.fromUTF8?]
  split
  · rw [Option.some.injEq, ← String.toByteArray_inj]
    rfl
  · next hvalid =>
      refine ⟨fun h => absurd h (by simp), fun h => absurd ?_ hvalid⟩
      rw [h]
      exact s.isValidUTF8

/-- The bytes are listed from the front, behind those listed before, latest first. -/
theorem toList_loop (input : ByteArray) (i : Nat) (listed : List UInt8) :
    ByteArray.toList.loop input i listed = listed.reverse ++ input.data.toList.drop i := by
  fun_induction ByteArray.toList.loop input i listed with
  | case1 i listed hlt ih =>
      have hlt' : i < input.data.toList.length := hlt
      have hget : input.get! i = input.data.toList[i] := by
        change input.data[i]! = _
        rw [getElem!_pos input.data i hlt]
        rfl
      rw [ih, List.drop_eq_getElem_cons hlt', hget]
      simp
  | case2 i listed hge =>
      have hge' : input.data.toList.length ≤ i := Nat.not_lt.mp hge
      simp [List.drop_eq_nil_of_le hge']

theorem encode_eq_bytes (s : String) : encode s = bytes s.toList := by
  rw [encode, ByteArray.toList, toList_loop, String.toUTF8, ← toByteArray_bytes,
    List.data_toByteArray]
  rfl

theorem bytes_eq_nil_iff {text : List Char} : bytes text = [] ↔ text = [] := by
  cases text with
  | nil => simp
  | cons c text => simp [String.utf8EncodeChar_ne_nil]

theorem utf8EncodeChar_of_lt {c : Char} (h : c.toNat < 0x80) :
    String.utf8EncodeChar c = [UInt8.ofNat c.toNat] :=
  if_pos (Nat.le_of_lt_succ h)

theorem le_of_mem_utf8EncodeChar {c : Char} (h : 0x80 ≤ c.toNat) {b : UInt8}
    (hb : b ∈ String.utf8EncodeChar c) : 0x80 ≤ b := by
  have hmod {n : Nat} (hn : 0x80 ≤ n % 256) : 0x80 ≤ UInt8.ofNat n := by
    rw [UInt8.le_iff_toNat_le]
    simpa using hn
  have hc : ¬ c.val.toNat ≤ 0x7f := Nat.not_le_of_lt h
  rw [String.utf8EncodeChar, if_neg hc] at hb
  split at hb
  · simp only [List.mem_cons, List.not_mem_nil, or_false] at hb
    rcases hb with rfl | rfl <;> apply hmod <;> omega
  · split at hb
    · simp only [List.mem_cons, List.not_mem_nil, or_false] at hb
      rcases hb with rfl | rfl | rfl <;> apply hmod <;> omega
    · simp only [List.mem_cons, List.not_mem_nil, or_false] at hb
      rcases hb with rfl | rfl | rfl | rfl <;> apply hmod <;> omega

theorem isUTF8FirstByte_head? (c : Char) (rest : List UInt8) :
    ∀ b ∈ (String.utf8EncodeChar c ++ rest).head?, b.IsUTF8FirstByte := by
  intro b hb
  have hfirst := UInt8.isUTF8FirstByte_getElem_zero_utf8EncodeChar (c := c)
  rw [List.head?_append_of_ne_nil _ String.utf8EncodeChar_ne_nil,
    List.head?_eq_getElem?, Option.mem_def, List.getElem?_eq_some_iff] at hb
  obtain ⟨_, rfl⟩ := hb
  exact hfirst

theorem exists_cons_of_append {c : Char} {rest : List UInt8} {text : List Char}
    (h : String.utf8EncodeChar c ++ rest = bytes text) :
    ∃ tail, text = c :: tail ∧ rest = bytes tail := by
  cases text with
  | nil => exact absurd (List.append_eq_nil_iff.mp h).1 String.utf8EncodeChar_ne_nil
  | cons d tail =>
      have hdecode := congrArg (fun input => input.toByteArray.utf8DecodeChar? 0) h
      simp only [bytes_cons, List.toByteArray_append,
        ByteArray.utf8DecodeChar?_utf8EncodeChar_append, Option.some.injEq] at hdecode
      subst hdecode
      exact ⟨tail, rfl, List.append_cancel_left h⟩

/-- The bytes of a text can be cut before any byte that a character starts with. -/
theorem exists_cut {text : List Char} {left right : List UInt8} (h : left ++ right = bytes text)
    (hright : ∀ b ∈ right.head?, b.IsUTF8FirstByte) :
    ∃ before behind, text = before ++ behind ∧ left = bytes before ∧ right = bytes behind := by
  induction text generalizing left with
  | nil =>
      obtain ⟨rfl, rfl⟩ := List.append_eq_nil_iff.mp h
      exact ⟨[], [], rfl, rfl, rfl⟩
  | cons c text ih =>
      rw [bytes_cons, List.append_eq_append_iff] at h
      rcases h with ⟨middle, hc, rfl⟩ | ⟨left', rfl, htext⟩
      · cases left with
        | nil =>
            refine ⟨[], c :: text, rfl, rfl, ?_⟩
            rw [bytes_cons, hc]
            rfl
        | cons b left =>
            cases middle with
            | nil =>
                refine ⟨[c], text, rfl, ?_, rfl⟩
                simpa using hc.symm
            | cons d middle =>
                -- the byte `d` stands inside the character `c`, so no character starts there
                have hlt : (b :: left).length < (String.utf8EncodeChar c).length := by simp [hc]
                have hd : (String.utf8EncodeChar c)[(b :: left).length] = d := by simp [hc]
                have hfirst : d.IsUTF8FirstByte := hright d rfl
                rw [← hd, UInt8.isUTF8FirstByte_getElem_utf8EncodeChar] at hfirst
                cases hfirst
      · obtain ⟨before, behind, rfl, rfl, hbehind⟩ := ih htext.symm
        exact ⟨c :: before, behind, rfl, rfl, hbehind⟩

end Calculator.Text
