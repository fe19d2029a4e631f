import Calculator.Proofs.Panel.Typing

/-!
# Taking back what was typed

The delete key takes back the latest symbol key, except for the blanks at the end of the
entry, which it does not give back. It treats entries alike that differ in such blanks
only, and so as many strokes of it take back any number of keys.
-/

namespace Calculator

namespace Text

theorem dropWhile_dropWhile {p q : Char → Bool} (h : ∀ c, p c = true → q c = true)
    (text : List Char) : (text.dropWhile p).dropWhile q = text.dropWhile q := by
  induction text with
  | nil => rfl
  | cons c text ih =>
      rw [List.dropWhile_cons]
      split
      · next hc => rw [ih, List.dropWhile_cons_of_pos (h c hc)]
      · rfl

theorem dropTrailing_dropTrailing {p q : Char → Bool} (h : ∀ c, p c = true → q c = true)
    (s : String) : dropTrailing q (dropTrailing p s) = dropTrailing q s := by
  rw [dropTrailing, toList_dropTrailing, List.reverse_reverse, dropWhile_dropWhile h, dropTrailing]

theorem dropTrailing_push_of_pos {p : Char → Bool} {c : Char} (hc : p c = true) (s : String) :
    dropTrailing p (s.push c) = dropTrailing p s := by
  simp [dropTrailing, hc]

theorem dropTrailing_push_of_neg {p : Char → Bool} {c : Char} (hc : p c = false) (s : String) :
    dropTrailing p (s.push c) = s.push c := by
  apply String.toList_inj.mp
  simp [hc]

theorem exists_dropTrailing (p : Char → Bool) (s : String) :
    ∃ dropped : String, s = dropTrailing p s ++ dropped ∧ ∀ c ∈ dropped.toList, p c = true := by
  refine ⟨String.ofList (s.toList.reverse.takeWhile p).reverse, ?_, fun c hc => ?_⟩
  · apply String.toList_inj.mp
    rw [String.toList_append, toList_dropTrailing, String.toList_ofList, ← List.reverse_append,
      List.takeWhile_append_dropWhile, List.reverse_reverse]
  · rw [String.toList_ofList, List.mem_reverse] at hc
    exact List.mem_takeWhile_imp hc

end Text

namespace Panel

theorem withoutLast_dropTrailing (entry : String) :
    withoutLast (Text.dropTrailing Text.isBlank entry) = withoutLast entry := by
  rw [withoutLast, Text.dropTrailing_dropTrailing fun _ hc => hc, withoutLast]

theorem withoutLast_push_blank (entry : String) {c : Char} (hc : Text.isBlank c = true) :
    withoutLast (entry.push c) = withoutLast entry := by
  rw [withoutLast, Text.dropTrailing_push_of_pos hc, withoutLast]

theorem withoutLast_push (entry : String) {c : Char} (hc : Text.isBlank c = false) :
    withoutLast (entry.push c) = Text.dropTrailing Text.isBlank entry := by
  rw [withoutLast, Text.dropTrailing_push_of_neg hc]
  simp

/-- The delete key takes back a symbol key, but for the blanks at the end. -/
theorem withoutLast_typed (key : SymbolKey) (entry : String) :
    withoutLast (typed key entry) = Text.dropTrailing Text.isBlank entry := by
  have hspace : Text.isBlank ' ' = true := by decide
  have htrimmed := Text.dropTrailing_dropTrailing isBlank_of_eq_space entry
  obtain ⟨op, rfl⟩ | rfl | hkey := key.operator_or_closing_or_plain
  · rw [typed, withoutLast_push_blank _ hspace, withoutLast_push _ op.isBlank_symbol, ← htrimmed]
    split
    · next hempty => rw [String.isEmpty_iff.mp hempty]
    · exact Text.dropTrailing_push_of_pos hspace (Text.dropTrailing (· == ' ') entry)
  · have hclosing : Text.isBlank ')' = false := SymbolKey.isBlank_symbol .closing
    rw [typed, withoutLast_push _ hclosing, htrimmed]
  · rw [hkey.typed_eq]
    exact withoutLast_push entry key.isBlank_symbol

/-- The panel without the blanks at the end of its entry. -/
def trimmed (p : Panel) : Panel :=
  { p with entry := Text.dropTrailing Text.isBlank p.entry, focus := true }

theorem trimmed_trimmed (p : Panel) : p.trimmed.trimmed = p.trimmed := by
  simp only [trimmed, Text.dropTrailing_dropTrailing fun _ hc => hc]

theorem delete_trimmed (p : Panel) : p.trimmed.delete = p.delete := by
  simp only [trimmed, delete, withoutLast_dropTrailing]

theorem delete_type (p : Panel) (key : SymbolKey) : (p.type key).delete = p.trimmed := by
  simp only [delete, type, withoutLast_typed, trimmed]

/-- Types the keys, and then deletes as many times. -/
def typeAndDelete (keys : List SymbolKey) (p : Panel) : Panel :=
  (keys.map Key.symbol ++ List.replicate keys.length Key.delete).foldl press p

theorem typeAndDelete_cons (key : SymbolKey) (keys : List SymbolKey) (p : Panel) :
    typeAndDelete (key :: keys) p = (typeAndDelete keys (p.type key)).delete := by
  rw [typeAndDelete, List.length_cons, List.replicate_succ', List.map_cons, List.cons_append,
    ← List.append_assoc, List.foldl_cons, List.foldl_append]
  rfl

theorem trimmed_typeAndDelete (keys : List SymbolKey) (p : Panel) :
    (typeAndDelete keys p).trimmed = p.trimmed := by
  -- The first key is taken back last, by a delete key that knows the panel up to blanks only.
  induction keys generalizing p with
  | nil => rfl
  | cons key keys ih =>
      rw [typeAndDelete_cons, ← delete_trimmed, ih, delete_trimmed, delete_type, trimmed_trimmed]

theorem typeAndDelete_eq {keys : List SymbolKey} (hkeys : keys ≠ []) (p : Panel) :
    typeAndDelete keys p = p.trimmed := by
  cases keys with
  | nil => exact absurd rfl hkeys
  | cons key keys =>
      rw [typeAndDelete_cons, ← delete_trimmed, trimmed_typeAndDelete, delete_trimmed, delete_type]

/-- Any keys that are typed and then deleted one by one leave the entry as it was, without
the blanks at its end, and nothing else on the panel has changed. -/
theorem foldl_press_delete (p : Panel) {keys : List SymbolKey} (hkeys : keys ≠ []) :
    let kept := Text.dropTrailing Text.isBlank p.entry
    (keys.map Key.symbol ++ List.replicate keys.length Key.delete).foldl press p =
        { p with entry := kept, focus := true } ∧
      (∃ blanks : String, p.entry = kept ++ blanks ∧ ∀ c ∈ blanks.toList, Text.isBlank c = true) ∧
      ∀ c ∈ kept.toList.getLast?, Text.isBlank c = false :=
  ⟨typeAndDelete_eq hkeys p, Text.exists_dropTrailing Text.isBlank p.entry,
    Text.getLast?_dropTrailing Text.isBlank p.entry⟩

/-- A closing parenthesis and two operators, typed behind a product with blanks at its end. -/
theorem foldl_press_delete_operators :
    let keys : List SymbolKey := [.closing, .operator .add, .opening, .operator .subtract]
    let p : Panel := { Panel.fresh with entry := "2 *3\u00a0 \t", result := "6" }
    keys ≠ [] ∧
      (keys.map Key.symbol ++ List.replicate keys.length Key.delete).foldl press p =
        { p with entry := "2 *3", focus := true } := by
  dsimp only
  have hkeys : [.closing, .operator .add, .opening, .operator .subtract] ≠
      ([] : List SymbolKey) := List.cons_ne_nil _ _
  have hkept : Text.dropTrailing Text.isBlank "2 *3\u00a0 \t" = "2 *3" := by decide +kernel
  refine ⟨hkeys, ?_⟩
  have hundone :=
    (foldl_press_delete { Panel.fresh with entry := "2 *3\u00a0 \t", result := "6" } hkeys).1
  dsimp only at hundone
  rw [hkept] at hundone
  exact hundone

end Panel

end Calculator
