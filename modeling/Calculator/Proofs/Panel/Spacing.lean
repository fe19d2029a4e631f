import Calculator.Proofs.Panel.Undoing

/-!
# Spaces in a typed entry

The keypad puts spaces around operators, and every key looks at the end of the entry only.
Still the entries that the keys can leave are told by their text alone: each character fits
between its two neighbours. A space has a symbol before it and an operator on one side, and
an operator has a space before it. The delete key may leave an operator without the space
behind it, but no key leaves a space without an operator beside it.
-/

namespace Calculator

namespace Text

theorem eq_empty_or_push (s : String) : s = "" ∨ ∃ kept c, s = String.push kept c := by
  obtain hnil | ⟨kept, c, hconcat⟩ := List.eq_nil_or_concat' s.toList
  · exact .inl (String.toList_inj.mp hnil)
  · refine .inr ⟨String.ofList kept, c, String.toList_inj.mp ?_⟩
    rw [hconcat, String.toList_push, String.toList_ofList]

theorem dropTrailing_eq_self {p : Char → Bool} (hp : ∀ c, p c = true → isBlank c = true)
    {s : String} (hlast : ∀ c ∈ s.toList.getLast?, isBlank c = false) :
    dropTrailing p s = s := by
  obtain rfl | ⟨kept, c, rfl⟩ := eq_empty_or_push s
  · rfl
  · refine dropTrailing_push_of_neg (Bool.eq_false_iff.mpr fun hc => ?_) kept
    exact Bool.eq_false_iff.mp (hlast c (by simp)) (hp c hc)

theorem length_dropTrailing_le (p : Char → Bool) (s : String) :
    (dropTrailing p s).toList.length ≤ s.toList.length := by
  have hle := (List.dropWhile_suffix p (l := s.toList.reverse)).length_le
  rw [List.length_reverse] at hle
  rw [toList_dropTrailing, List.length_reverse]
  exact hle

end Text

theorem SymbolKey.symbol_ne_space (key : SymbolKey) : key.symbol ≠ ' ' := by
  intro h
  have hblank := key.isBlank_symbol
  rw [h] at hblank
  exact absurd hblank (by decide)

theorem Operator.symbol_ne_closing (op : Operator) : op.symbol ≠ ')' := by
  cases op <;> decide

namespace Panel

theorem typed_operator_of_eq_empty (op : Operator) {entry : String}
    (h : Text.dropTrailing (· == ' ') entry = "") :
    typed (.operator op) entry = (String.push "" op.symbol).push ' ' := by
  rw [typed, h]
  rfl

theorem typed_operator_of_ne_empty (op : Operator) {entry kept : String}
    (h : Text.dropTrailing (· == ' ') entry = kept) (hne : kept ≠ "") :
    typed (.operator op) entry = ((kept.push ' ').push op.symbol).push ' ' := by
  rw [typed, h, if_neg fun hempty => hne (String.isEmpty_iff.mp hempty)]
  rfl

/-- How the spaces of an entry stand. -/
structure Spacing (text : List Char) : Prop where
  /-- The entry does not begin with a blank. -/
  front : ∀ c ∈ text.head?, Text.isBlank c = false
  /-- No two blanks are adjacent. -/
  apart : ∀ before b c after, text = before ++ b :: c :: after →
    Text.isBlank b = true → Text.isBlank c = false
  /-- The only blank is the space. -/
  plain : ∀ c ∈ text, Text.isBlank c = true → c = ' '
  /-- An operator stands directly before or directly after every space. -/
  beside : ∀ before after, text = before ++ ' ' :: after →
    (∃ op : Operator, before.getLast? = some op.symbol) ∨
      ∃ op : Operator, after.head? = some op.symbol
  /-- A space stands directly before every operator that is not the first character. -/
  ahead : ∀ before (op : Operator) after, text = before ++ op.symbol :: after →
    before ≠ [] → before.getLast? = some ' '
  /-- A space at the end stands directly behind an operator. -/
  back : ∀ before, text = before ++ [' '] → ∃ op : Operator, before.getLast? = some op.symbol

/-- A character of an entry fits between its neighbours. -/
structure Fits (before : Option Char) (c : Char) (after : Option Char) : Prop where
  typable : c = ' ' ∨ ∃ key : SymbolKey, c = key.symbol
  behind_symbol : c = ' ' → ∃ b, before = some b ∧ Text.isBlank b = false
  before_symbol : c = ' ' → ∀ a ∈ after, Text.isBlank a = false
  beside_operator : c = ' ' →
    (∃ op : Operator, before = some op.symbol) ∨ ∃ op : Operator, after = some op.symbol
  behind_space : ∀ op : Operator, c = op.symbol → before = none ∨ before = some ' '
  closing : c = ')' → before ≠ some ' '

namespace Fits

variable {before after after' : Option Char} {c x : Char}

theorem change_after (h : Fits before c after) (hc : c ≠ ' ') : Fits before c after' :=
  { h with
    before_symbol := fun hspace => absurd hspace hc
    beside_operator := fun hspace => absurd hspace hc }

theorem followed (h : Fits before c none) (hx : Text.isBlank x = false) :
    Fits before c (some x) :=
  { h with
    before_symbol := by simpa using fun _ => hx
    beside_operator := fun hspace => .inl ((h.beside_operator hspace).resolve_right (by simp)) }

/-- A character still fits at the end, unless it was an operator that stood behind it. -/
theorem unfollowed (h : Fits before c (some x)) (hx : ∀ op : Operator, x ≠ op.symbol) :
    Fits before c none :=
  { h with
    before_symbol := by simp
    beside_operator := fun hspace =>
      .inl ((h.beside_operator hspace).resolve_right (by simpa using hx)) }

theorem of_symbol (key : SymbolKey)
    (hoperator : ∀ op : Operator, key.symbol = op.symbol → before = none ∨ before = some ' ')
    (hclosing : key.symbol = ')' → before ≠ some ' ') : Fits before key.symbol after where
  typable := .inr ⟨key, rfl⟩
  behind_symbol hspace := absurd hspace key.symbol_ne_space
  before_symbol hspace := absurd hspace key.symbol_ne_space
  beside_operator hspace := absurd hspace key.symbol_ne_space
  behind_space := hoperator
  closing := hclosing

theorem of_plain {key : SymbolKey} (hkey : key.IsPlain) : Fits before key.symbol after :=
  of_symbol key (fun op hop => absurd hop (hkey.ne_operator op))
    fun hclosing => absurd hclosing hkey.ne_closing

theorem of_closing (h : before ≠ some ' ') : Fits before ')' after :=
  of_symbol .closing (fun op hop => absurd hop.symm op.symbol_ne_closing) fun _ => h

theorem of_operator (op : Operator) (h : before = none ∨ before = some ' ') :
    Fits before op.symbol after :=
  of_symbol (.operator op) (fun _ _ => h) fun hclosing => absurd hclosing op.symbol_ne_closing

theorem of_space (hbefore : ∃ b, before = some b ∧ Text.isBlank b = false)
    (hafter : ∀ a ∈ after, Text.isBlank a = false)
    (hoperator : (∃ op : Operator, before = some op.symbol) ∨
      ∃ op : Operator, after = some op.symbol) : Fits before ' ' after where
  typable := .inl rfl
  behind_symbol _ := hbefore
  before_symbol _ := hafter
  beside_operator _ := hoperator
  behind_space op hop := absurd hop.symm (SymbolKey.symbol_ne_space (.operator op))
  closing hclosing := absurd hclosing (by decide)

theorem space_behind (op : Operator) (h : before = some op.symbol) : Fits before ' ' none :=
  of_space ⟨op.symbol, h, op.isBlank_symbol⟩ (by simp) (.inl ⟨op, h⟩)

theorem space_before (op : Operator) (h : ∃ b, before = some b ∧ Text.isBlank b = false) :
    Fits before ' ' (some op.symbol) :=
  of_space h (by simpa using op.isBlank_symbol) (.inr ⟨op, rfl⟩)

end Fits

/-- Every character of an entry fits, when `next` stands behind the entry. -/
def Orderly (next : Option Char) (entry : String) : Prop :=
  ∀ before c after, entry.toList = before ++ c :: after →
    Fits before.getLast? c (after.head?.or next)

theorem orderly_empty (next : Option Char) : Orderly next "" := by
  intro before c after h
  simp at h

/-- Characters are judged by their neighbours, and so an entry is orderly from one end to
the other. -/
theorem orderly_push {next : Option Char} {entry : String} {x : Char} :
    Orderly next (entry.push x) ↔
      Orderly (some x) entry ∧ Fits entry.toList.getLast? x next := by
  constructor
  · intro h
    refine ⟨fun before c after hsplit => ?_, ?_⟩
    · have hfits := h before c (after ++ [x]) (by simp [hsplit])
      simpa using hfits
    · exact h entry.toList x [] (String.toList_push x)
  · rintro ⟨hentry, hx⟩ before c after hsplit
    rw [String.toList_push] at hsplit
    obtain rfl | ⟨after, y, rfl⟩ := List.eq_nil_or_concat' after
    · obtain ⟨rfl, rfl⟩ := List.append_singleton_inj.mp hsplit
      exact hx
    · rw [← List.cons_append, ← List.append_assoc, List.append_singleton_inj] at hsplit
      obtain ⟨hsplit, rfl⟩ := hsplit
      have hfits := hentry before c after hsplit
      simpa using hfits

namespace Orderly

variable {next next' : Option Char} {entry : String}

theorem typable (h : Orderly next entry) {c : Char} (hc : c ∈ entry.toList) :
    c = ' ' ∨ ∃ key : SymbolKey, c = key.symbol := by
  obtain ⟨before, after, hsplit⟩ := List.append_of_mem hc
  exact (h before c after hsplit).typable

theorem eq_space (h : Orderly next entry) {c : Char} (hc : c ∈ entry.toList)
    (hblank : Text.isBlank c = true) : c = ' ' := by
  obtain hspace | ⟨key, rfl⟩ := h.typable hc
  · exact hspace
  · exact absurd hblank (Bool.eq_false_iff.mp key.isBlank_symbol)

theorem imp_next (h : Orderly next entry)
    (hlast : ∀ before, ∀ c ∈ entry.toList.getLast?, Fits before c next → Fits before c next') :
    Orderly next' entry := by
  obtain rfl | ⟨kept, c, rfl⟩ := Text.eq_empty_or_push entry
  · exact orderly_empty next'
  · rw [orderly_push] at h ⊢
    exact ⟨h.1, hlast _ c (by simp) h.2⟩

theorem change_next (h : Orderly next entry)
    (hlast : ∀ c ∈ entry.toList.getLast?, Text.isBlank c = false) : Orderly next' entry := by
  refine h.imp_next fun _ c hc hfits => hfits.change_after ?_
  rintro rfl
  exact absurd (hlast ' ' hc) (by decide)

/-- Only one space can stand at the end of an orderly entry. Without it, a symbol does. -/
theorem dropTrailing (h : Orderly next entry) (next' : Option Char) {p : Char → Bool}
    (hspace : p ' ' = true) (hp : ∀ c, p c = true → Text.isBlank c = true) :
    Orderly next' (Text.dropTrailing p entry) ∧
      ∀ c ∈ (Text.dropTrailing p entry).toList.getLast?, Text.isBlank c = false := by
  obtain rfl | ⟨kept, c, rfl⟩ := Text.eq_empty_or_push entry
  · exact ⟨orderly_empty next', by simp [Text.dropTrailing]⟩
  · obtain ⟨hkept, hc⟩ := orderly_push.mp h
    obtain rfl | ⟨key, rfl⟩ := hc.typable
    · obtain ⟨b, hb, hsymbol⟩ := hc.behind_symbol rfl
      have hlast : ∀ c ∈ kept.toList.getLast?, Text.isBlank c = false := by simp [hb, hsymbol]
      rw [Text.dropTrailing_push_of_pos hspace, Text.dropTrailing_eq_self hp hlast]
      exact ⟨hkept.change_next hlast, hlast⟩
    · have hlast : ∀ c ∈ (kept.push key.symbol).toList.getLast?, Text.isBlank c = false := by
        simp [key.isBlank_symbol]
      rw [Text.dropTrailing_eq_self hp hlast]
      exact ⟨h.change_next hlast, hlast⟩

theorem typed (h : Orderly none entry) (key : SymbolKey) :
    Orderly none (Panel.typed key entry) := by
  have htrimmed (next : Option Char) :=
    h.dropTrailing next (p := (· == ' ')) rfl isBlank_of_eq_space
  obtain ⟨op, rfl⟩ | rfl | hkey := key.operator_or_closing_or_plain
  · obtain ⟨hkept, hlast⟩ := htrimmed (some ' ')
    -- The space before the operator stands behind the last symbol, if there is one.
    obtain hempty | ⟨before, c, hpush⟩ := Text.eq_empty_or_push (Text.dropTrailing (· == ' ') entry)
    · rw [typed_operator_of_eq_empty op hempty, orderly_push, orderly_push]
      exact ⟨⟨orderly_empty _, .of_operator op (.inl rfl)⟩, .space_behind op (by simp)⟩
    · rw [hpush] at hkept hlast
      rw [typed_operator_of_ne_empty op hpush (by simp), orderly_push, orderly_push, orderly_push]
      refine ⟨⟨⟨hkept, .space_before op ⟨c, ?_, hlast c ?_⟩⟩, .of_operator op (.inr ?_)⟩,
        .space_behind op ?_⟩
      all_goals simp
  · obtain ⟨hkept, hlast⟩ := htrimmed (some ')')
    rw [Panel.typed, orderly_push]
    refine ⟨hkept, .of_closing fun hspace => ?_⟩
    exact absurd (hlast ' ' hspace) (by decide)
  · rw [hkey.typed_eq, orderly_push]
    exact ⟨h.imp_next fun _ _ _ hfits => hfits.followed key.isBlank_symbol, .of_plain hkey⟩

theorem withoutLast (h : Orderly none entry) : Orderly none (Panel.withoutLast entry) := by
  rw [← withoutLast_dropTrailing]
  -- The last symbol goes. If it was an operator, the space before it goes with it.
  obtain ⟨hkept, hlast⟩ := h.dropTrailing none rfl fun _ hc => hc
  generalize Text.dropTrailing Text.isBlank entry = kept at hkept hlast ⊢
  obtain rfl | ⟨before, c, rfl⟩ := Text.eq_empty_or_push kept
  · exact orderly_empty none
  · rw [withoutLast_push before (hlast c (by simp))]
    exact ((orderly_push.mp hkept).1.dropTrailing none rfl fun _ hc => hc).1

theorem press {p : Panel} (h : Orderly none p.entry) (key : Key) :
    Orderly none (p.press key).entry := by
  cases key with
  | symbol key => exact h.typed key
  | delete => exact h.withoutLast
  | clearEntry | clearAll => exact orderly_empty none
  | clearResults => exact h
  | equals =>
      rw [Panel.press, entry_evaluate]
      exact h

theorem foldl_press {p : Panel} (h : Orderly none p.entry) (keys : List Key) :
    Orderly none (keys.foldl Panel.press p).entry := by
  induction keys generalizing p with
  | nil => exact h
  | cons key keys ih => exact ih (h.press key)

end Orderly

/-- Some keys turn the entry of the panel into this one. -/
def Reaches (p : Panel) (entry : String) : Prop :=
  ∃ keys : List Key, (keys.foldl press p).entry = entry

namespace Reaches

variable {p : Panel} {entry : String}

theorem typed (h : p.Reaches entry) (key : SymbolKey) : p.Reaches (Panel.typed key entry) := by
  obtain ⟨keys, rfl⟩ := h
  refine ⟨keys ++ [.symbol key], ?_⟩
  rw [List.foldl_append]
  rfl

/-- A symbol that is typed and deleted takes the blanks at the end with it. -/
theorem dropTrailing (h : p.Reaches entry) :
    p.Reaches (Text.dropTrailing Text.isBlank entry) := by
  obtain ⟨keys, rfl⟩ := h
  refine ⟨keys ++ [.symbol .point, .delete], ?_⟩
  rw [List.foldl_append]
  exact withoutLast_typed .point _

end Reaches

/-- An operator key types the operator as it stands in an orderly entry, with the space that
parts it from what is before it. -/
theorem typed_operator_of_orderly {next : Option Char} {op : Operator} {before : String}
    (h : Orderly next (before.push op.symbol)) :
    typed (.operator op) (Text.dropTrailing Text.isBlank before) =
      (before.push op.symbol).push ' ' := by
  obtain ⟨hbefore, hop⟩ := orderly_push.mp h
  obtain rfl | ⟨kept, c, rfl⟩ := Text.eq_empty_or_push before
  · exact typed_operator_of_eq_empty op rfl
  · obtain rfl : c = ' ' := by simpa using hop.behind_space op rfl
    obtain ⟨b, hb, hsymbol⟩ := (orderly_push.mp hbefore).2.behind_symbol rfl
    have hne : kept ≠ "" := by
      rintro rfl
      simp at hb
    have hlast : ∀ c ∈ kept.toList.getLast?, Text.isBlank c = false := by simp [hb, hsymbol]
    rw [Text.dropTrailing_push_of_pos (by decide), Text.dropTrailing_eq_self (fun _ hc => hc) hlast]
    exact typed_operator_of_ne_empty op (Text.dropTrailing_eq_self isBlank_of_eq_space hlast) hne

theorem Orderly.symbol_before_closing {next : Option Char} {before : String}
    (h : Orderly next (before.push ')')) :
    ∀ c ∈ before.toList.getLast?, Text.isBlank c = false := by
  intro c hlast
  obtain ⟨hbefore, hclosing⟩ := orderly_push.mp h
  refine Bool.eq_false_iff.mpr fun hblank => hclosing.closing rfl ?_
  rw [← hbefore.eq_space (List.mem_of_getLast? hlast) hblank]
  exact hlast

theorem Orderly.reaches {p : Panel} (hp : p.entry = "") {entry : String}
    (h : Orderly none entry) : p.Reaches entry := by
  -- The last symbol is typed behind an orderly entry that is shorter. An operator comes with
  -- a space behind it, which a deleted symbol takes away.
  induction hlength : entry.toList.length using Nat.strong_induction_on generalizing entry with
  | _ length ih =>
    obtain rfl | ⟨before, c, rfl⟩ := Text.eq_empty_or_push entry
    · exact ⟨[], hp⟩
    have hshorter {s : String} (hs : Orderly none s)
        (hle : s.toList.length ≤ before.toList.length) : p.Reaches s := by
      refine ih _ ?_ hs rfl
      rw [← hlength, String.toList_push, List.length_append, List.length_singleton]
      omega
    have hoperator {next : Option Char} {op : Operator} {s : String}
        (hs : Orderly next (s.push op.symbol)) (hle : s.toList.length ≤ before.toList.length) :
        p.Reaches ((s.push op.symbol).push ' ') := by
      have hkept := (orderly_push.mp hs).1.dropTrailing none rfl fun _ hc => hc
      have hreaches := hshorter hkept.1 ((Text.length_dropTrailing_le _ s).trans hle)
      rw [← typed_operator_of_orderly hs]
      exact hreaches.typed (.operator op)
    obtain ⟨hbefore, hc⟩ := orderly_push.mp h
    obtain rfl | ⟨key, rfl⟩ := hc.typable
    · obtain ⟨op, hop⟩ := (hc.beside_operator rfl).resolve_right (by simp)
      obtain rfl | ⟨before, b, rfl⟩ := Text.eq_empty_or_push before
      · simp at hop
      · obtain rfl : b = op.symbol := by simpa using hop
        exact hoperator hbefore (by simp)
    · obtain ⟨op, rfl⟩ | rfl | hkey := key.operator_or_closing_or_plain
      · have hreaches := (hoperator h le_rfl).dropTrailing
        rw [Text.dropTrailing_push_of_pos (by decide),
          Text.dropTrailing_push_of_neg op.isBlank_symbol] at hreaches
        exact hreaches
      · have hlast := Orderly.symbol_before_closing h
        have hreaches := (hshorter (hbefore.change_next hlast) le_rfl).typed .closing
        rw [Panel.typed, Text.dropTrailing_eq_self isBlank_of_eq_space hlast] at hreaches
        exact hreaches
      · have hkept := hbefore.imp_next fun _ _ _ hfits => hfits.unfollowed hkey.ne_operator
        have hreaches := (hshorter hkept le_rfl).typed key
        rw [hkey.typed_eq] at hreaches
        exact hreaches

theorem Orderly.spacing {entry : String} (h : Orderly none entry) : Spacing entry.toList where
  front c hc := by
    obtain ⟨rest, hsplit⟩ := List.head?_eq_some_iff.mp hc
    refine Bool.eq_false_iff.mpr fun hblank => ?_
    obtain rfl := h.eq_space (List.mem_of_mem_head? hc) hblank
    obtain ⟨b, hb, -⟩ := (h [] ' ' rest hsplit).behind_symbol rfl
    cases hb
  apart before b c after hsplit hb := by
    obtain rfl := h.eq_space (by simp [hsplit]) hb
    exact (h before ' ' (c :: after) hsplit).before_symbol rfl c rfl
  plain _ := h.eq_space
  beside before after hsplit := by
    simpa using (h before ' ' after hsplit).beside_operator rfl
  ahead before op after hsplit hne := by
    simpa [hne] using (h before op.symbol after hsplit).behind_space op rfl
  back before hsplit := by
    simpa using (h before ' ' [] hsplit).beside_operator rfl

theorem Spacing.orderly {entry : String} (h : Spacing entry.toList)
    (htypable : ∀ c ∈ entry.toList, c = ' ' ∨ ∃ key : SymbolKey, c = key.symbol)
    (hclosing : ∀ before after, entry.toList = before ++ ')' :: after →
      before.getLast? ≠ some ' ') : Orderly none entry := by
  intro before c after hsplit
  refine ⟨htypable c (by simp [hsplit]), ?_, ?_, ?_, ?_, ?_⟩
  · rintro rfl
    obtain rfl | ⟨before, b, rfl⟩ := List.eq_nil_or_concat' before
    · exact absurd (h.front ' ' (by simp [hsplit])) (by decide)
    · refine ⟨b, by simp, Bool.eq_false_iff.mpr fun hb => ?_⟩
      exact absurd (h.apart before b ' ' after (by simpa using hsplit) hb) (by decide)
  · rintro rfl a ha
    obtain ⟨after, rfl⟩ := List.head?_eq_some_iff.mp (by simpa using ha)
    exact h.apart before ' ' a after hsplit (by decide)
  · rintro rfl
    simpa using h.beside before after hsplit
  · rintro op rfl
    obtain rfl | hne := eq_or_ne before []
    · exact .inl rfl
    · exact .inr (h.ahead before op after hsplit hne)
  · rintro rfl
    exact hclosing before after hsplit

/-- From an empty entry, any keys leave an entry whose spaces stand like this. They can leave
every such entry that holds symbols of the keypad besides and nothing else, and has no space
before a closing parenthesis. -/
theorem exists_keys_iff_spacing {p : Panel} (hp : p.entry = "") (entry : String) :
    (∃ keys : List Key, (keys.foldl press p).entry = entry) ↔
      Spacing entry.toList ∧
        (∀ c ∈ entry.toList, c = ' ' ∨ ∃ key : SymbolKey, c = key.symbol) ∧
        ∀ before after, entry.toList = before ++ ')' :: after → before.getLast? ≠ some ' ' := by
  constructor
  · rintro ⟨keys, rfl⟩
    have hempty : Orderly none p.entry := by
      rw [hp]
      exact orderly_empty none
    have h := hempty.foldl_press keys
    exact ⟨h.spacing, fun c => h.typable, fun before after hsplit =>
      (h before ')' after hsplit).closing rfl⟩
  · rintro ⟨hspacing, htypable, hclosing⟩
    exact (hspacing.orderly htypable hclosing).reaches hp

/-- The second of two operators is deleted and a number typed in its place. No keys leave two
numbers with nothing but a space between them. -/
theorem exists_keys_iff_spacing_deleted :
    let p : Panel := { Panel.fresh with result := "6" }
    let keys : List Key :=
      [.symbol .opening, .symbol (.operator .subtract), .symbol (.digit 1),
        .symbol (.operator .add), .symbol (.operator .multiply), .delete, .symbol (.digit 3),
        .equals]
    p.entry = "" ∧ (keys.foldl press p).entry = "( - 1 +3" ∧ Spacing "( - 1 +3".toList ∧
      ¬ ∃ keys : List Key, (keys.foldl press p).entry = "1 2" := by
  intro p keys
  have hp : p.entry = "" := rfl
  have hkeys : (keys.foldl press p).entry = "( - 1 +3" := by decide +kernel
  have hspacing := (exists_keys_iff_spacing hp "( - 1 +3").mp ⟨keys, hkeys⟩
  refine ⟨hp, hkeys, hspacing.1, fun h => ?_⟩
  have hbeside := ((exists_keys_iff_spacing hp "1 2").mp h).1.beside ['1'] ['2'] rfl
  obtain ⟨op, hop⟩ | ⟨op, hop⟩ := hbeside
  · cases op <;> exact absurd hop (by decide)
  · cases op <;> exact absurd hop (by decide)

end Panel

end Calculator
