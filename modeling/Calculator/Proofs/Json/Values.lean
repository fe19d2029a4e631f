import Calculator.Proofs.Json.Scalars

/-!
# The values of JSON

A value is a scalar or a container of values, to any depth. The reader keeps the
containers that are open in a list, so what it still has to find behind a value
is the rest of each of them. Passing over a value takes exactly its text, in
whatever containers it stands; and where the reader succeeds, it has passed over
a value and the rests of the open containers.
-/

namespace Calculator.Json

/-- What stands before a value in a container: in an object, its key. -/
inductive Before : Container → List UInt8 → Prop
  | array : Before .array []
  | object {ws spelling ws' : List UInt8} : Blanks ws → Passes spelling → Blanks ws' →
      Before .object (ws ++ quote :: (spelling ++ quote :: (ws' ++ [colon])))

/-- A value, an item of a container with the blanks around it, or one item or more with
commas between them. -/
inductive Form
  | value
  | item (c : Container)
  | items (c : Container)

inductive WellFormed : Form → List UInt8 → Prop
  | scalar {text : List UInt8} : Scalar text → WellFormed .value text
  | empty {c : Container} {ws : List UInt8} : Blanks ws →
      WellFormed .value (c.opening :: (ws ++ [c.closing]))
  | container {c : Container} {items : List UInt8} : WellFormed (.items c) items →
      WellFormed .value (c.opening :: (items ++ [c.closing]))
  | item {c : Container} {key ws text ws' : List UInt8} : Before c key → Blanks ws →
      WellFormed .value text → Blanks ws' → WellFormed (.item c) (key ++ (ws ++ (text ++ ws')))
  | one {c : Container} {item : List UInt8} : WellFormed (.item c) item →
      WellFormed (.items c) item
  | more {c : Container} {items item : List UInt8} : WellFormed (.items c) items →
      WellFormed (.item c) item → WellFormed (.items c) (items ++ comma :: item)

theorem Container.isBlank_opening (c : Container) : isBlank c.opening = false := by
  cases c <;> rfl

theorem Container.isBlank_closing (c : Container) : isBlank c.closing = false := by
  cases c <;> rfl

theorem Container.opening_ne_closing (c c' : Container) : c.opening ≠ c'.closing := by
  cases c <;> cases c' <;> decide

theorem Container.comma_ne_closing (c : Container) : comma ≠ c.closing := by
  cases c <;> decide

@[simp] theorem Container.ofOpening?_opening (c : Container) : ofOpening? c.opening = some c := by
  cases c <;> rfl

theorem Container.eq_opening {b : UInt8} {c : Container} (h : ofOpening? b = some c) :
    b = c.opening := by
  unfold ofOpening? at h
  split at h
  · next hb =>
      cases h
      exact hb
  · split at h
    · next hb =>
        cases h
        exact hb
    · cases h

theorem skipBefore_append {c : Container} {key : List UInt8} (h : Before c key)
    (rest : List UInt8) : c.skipBefore (key ++ rest) = some rest := by
  cases h with
  | array => rfl
  | @object ws spelling ws' hws hspelling hws' =>
      have hstring : skipString (spelling ++ quote :: (ws' ++ colon :: rest)) =
          some (ws' ++ colon :: rest) :=
        skipString_eq_some_iff.mpr ⟨spelling, hspelling, rfl⟩
      have hquote : isBlank quote = false := by decide
      have hcolon : isBlank colon = false := by decide
      simp only [List.append_assoc, List.cons_append, List.nil_append, Container.skipBefore, skipKey,
        skipMark_append hquote hws, Option.bind_some, hstring, skipMark_append hcolon hws']

theorem exists_before_of_skipBefore {c : Container} {input rest : List UInt8}
    (h : c.skipBefore input = some rest) : ∃ key, Before c key ∧ input = key ++ rest := by
  cases c with
  | array =>
      cases h
      exact ⟨[], .array, rfl⟩
  | object =>
      simp only [Container.skipBefore, skipKey, Option.bind_eq_some_iff] at h
      obtain ⟨_, hquote, _, hstring, hcolon⟩ := h
      obtain ⟨ws, hws, rfl⟩ := exists_blanks_of_skipMark hquote
      obtain ⟨spelling, hspelling, rfl⟩ := skipString_eq_some_iff.mp hstring
      obtain ⟨ws', hws', rfl⟩ := exists_blanks_of_skipMark hcolon
      exact ⟨_, .object hws hspelling hws', by simp⟩

section Steps

variable {c : Container} {containers : List Container} {input rest : List UInt8} {b : UInt8}

theorem skipFrom_before (hinput : skipBlanks input = b :: rest) :
    skipFrom .before containers input =
      match Container.ofOpening? b with
      | some c =>
        match skipMark c.closing rest with
        | some rest => skipFrom .behind containers rest
        | none => (c.skipBefore rest).bind (skipFrom .before (c :: containers))
      | none => (skipScalar (b :: rest)).bind (skipFrom .behind containers) := by
  rw [skipFrom]
  split
  · next h => simp [hinput] at h
  · next h =>
      rw [hinput] at h
      cases h
      cases Container.ofOpening? b with
      | some c =>
          dsimp only
          split
          · next h => rw [h]
          · next h =>
              rw [h]
              dsimp only
              split
              · next h => rw [h, Option.bind_some]
              · next h => rw [h, Option.bind_none]
      | none =>
          dsimp only
          split
          · next h => rw [h, Option.bind_some]
          · next h => rw [h, Option.bind_none]

theorem skipFrom_behind (hinput : skipBlanks input = b :: rest) :
    skipFrom .behind (c :: containers) input =
      if b = c.closing then skipFrom .behind containers rest
      else if b = comma then (c.skipBefore rest).bind (skipFrom .before (c :: containers))
      else none := by
  rw [skipFrom]
  split
  · next h => simp [hinput] at h
  · next h =>
      rw [hinput] at h
      cases h
      split
      · rfl
      · split
        · split
          · next h => rw [h, Option.bind_some]
          · next h => rw [h, Option.bind_none]
        · rfl

theorem skipFrom_before_nil (hinput : skipBlanks input = []) :
    skipFrom .before containers input = none := by
  rw [skipFrom]
  split
  · rfl
  · next h => simp [hinput] at h

theorem skipFrom_behind_nil (hinput : skipBlanks input = []) :
    skipFrom .behind (c :: containers) input = none := by
  rw [skipFrom]
  split
  · rfl
  · next h => simp [hinput] at h

theorem skipFrom_before_blanks {ws : List UInt8} (hws : Blanks ws) :
    skipFrom .before containers (ws ++ input) = skipFrom .before containers input := by
  have happend := skipBlanks_append hws input
  cases hinput : skipBlanks input with
  | nil => rw [skipFrom_before_nil hinput, skipFrom_before_nil (happend.trans hinput)]
  | cons b rest => rw [skipFrom_before hinput, skipFrom_before (happend.trans hinput)]

theorem skipFrom_behind_blanks {ws : List UInt8} (hws : Blanks ws) :
    skipFrom .behind (c :: containers) (ws ++ input) = skipFrom .behind (c :: containers) input := by
  have happend := skipBlanks_append hws input
  cases hinput : skipBlanks input with
  | nil => rw [skipFrom_behind_nil hinput, skipFrom_behind_nil (happend.trans hinput)]
  | cons b rest => rw [skipFrom_behind hinput, skipFrom_behind (happend.trans hinput)]

theorem skipFrom_scalar {text : List UInt8} (htext : Scalar text) (hinput : EndsNumber input) :
    skipFrom .before containers (text ++ input) = skipFrom .behind containers input := by
  have hskip := skipScalar_append htext hinput
  obtain ⟨b, tail, ⟨hblank, hopening, -⟩, rfl⟩ := htext.exists_cons
  rw [List.cons_append] at hskip ⊢
  rw [skipFrom_before (skipBlanks_cons hblank _), hopening]
  simp only [hskip, Option.bind_some]

theorem skipFrom_empty {ws : List UInt8} (hws : Blanks ws) :
    skipFrom .before containers (c.opening :: (ws ++ c.closing :: input)) =
      skipFrom .behind containers input := by
  rw [skipFrom_before (skipBlanks_cons c.isBlank_opening _), c.ofOpening?_opening]
  simp only [skipMark_append c.isBlank_closing hws]

theorem skipFrom_opening (hinput : skipMark c.closing input = none) :
    skipFrom .before containers (c.opening :: input) =
      (c.skipBefore input).bind (skipFrom .before (c :: containers)) := by
  rw [skipFrom_before (skipBlanks_cons c.isBlank_opening _), c.ofOpening?_opening]
  simp only [hinput]

theorem skipFrom_closing :
    skipFrom .behind (c :: containers) (c.closing :: input) = skipFrom .behind containers input := by
  rw [skipFrom_behind (skipBlanks_cons c.isBlank_closing _), if_pos rfl]

theorem skipFrom_comma :
    skipFrom .behind (c :: containers) (comma :: input) =
      (c.skipBefore input).bind (skipFrom .before (c :: containers)) := by
  have hcomma : isBlank comma = false := by decide
  rw [skipFrom_behind (skipBlanks_cons hcomma _), if_neg c.comma_ne_closing, if_pos rfl]

end Steps

theorem endsNumber_closing (c : Container) (rest : List UInt8) : EndsNumber (c.closing :: rest) := by
  intro b hb
  cases hb
  cases c <;> decide

theorem endsNumber_comma (rest : List UInt8) : EndsNumber (comma :: rest) := by
  intro b hb
  cases hb
  decide

/-- No value, item or list of items is taken for the end of a container. -/
theorem WellFormed.skipMark_closing {form : Form} {text : List UInt8} (h : WellFormed form text)
    (c : Container) (rest : List UInt8) : skipMark c.closing (text ++ rest) = none := by
  induction h generalizing rest with
  | scalar hscalar =>
      obtain ⟨b, tail, ⟨hblank, -, harray, hobject⟩, rfl⟩ := hscalar.exists_cons
      have hne : b ≠ c.closing := by cases c <;> assumption
      exact skipMark_of_ne hblank hne blanks_nil _
  | @empty c' ws _ => exact skipMark_of_ne c'.isBlank_opening (c'.opening_ne_closing c) blanks_nil _
  | @container c' _ _ => exact skipMark_of_ne c'.isBlank_opening (c'.opening_ne_closing c) blanks_nil _
  | @item c' key ws text ws' hkey hws _ _ ih =>
      cases hkey with
      | array =>
          have hskip := ih (ws' ++ rest)
          rw [skipMark] at hskip ⊢
          simpa [skipBlanks_append hws] using hskip
      | object hws' _ _ =>
          have hquote : quote ≠ c.closing := by cases c <;> decide
          rw [List.append_assoc, List.append_assoc]
          exact skipMark_of_ne (by decide) hquote hws' _
  | one _ ih => exact ih rest
  | more _ _ ih _ =>
      rw [List.append_assoc]
      exact ih _

/-- What passing over a text means: the reader behind a value goes on behind the text. -/
def Form.Skips : Form → List UInt8 → Prop
  | .value, text => ∀ containers rest, EndsNumber rest →
      skipFrom .before containers (text ++ rest) = skipFrom .behind containers rest
  | .item c, text | .items c, text => ∀ outer rest, EndsNumber rest →
      (c.skipBefore (text ++ rest)).bind (skipFrom .before (c :: outer)) =
        skipFrom .behind (c :: outer) rest

/-- What is well formed is passed over. -/
theorem WellFormed.skips {form : Form} {text : List UInt8} (h : WellFormed form text) :
    form.Skips text := by
  induction h with
  | scalar hscalar => exact fun containers rest hrest => skipFrom_scalar hscalar hrest
  | @empty c ws hws =>
      intro containers rest _
      rw [List.cons_append, List.append_assoc]
      exact skipFrom_empty hws
  | @container c items hitems ih =>
      intro containers rest _
      calc skipFrom .before containers (c.opening :: (items ++ [c.closing]) ++ rest)
          = skipFrom .before containers (c.opening :: (items ++ c.closing :: rest)) := by simp
        _ = (c.skipBefore (items ++ c.closing :: rest)).bind
              (skipFrom .before (c :: containers)) := skipFrom_opening (hitems.skipMark_closing c _)
        _ = skipFrom .behind (c :: containers) (c.closing :: rest) :=
            ih containers _ (endsNumber_closing c rest)
        _ = skipFrom .behind containers rest := skipFrom_closing
  | @item c key ws text ws' hkey hws _ hws' ih =>
      intro outer rest hrest
      calc (c.skipBefore (key ++ (ws ++ (text ++ ws')) ++ rest)).bind (skipFrom .before (c :: outer))
          = (c.skipBefore (key ++ (ws ++ (text ++ (ws' ++ rest))))).bind
              (skipFrom .before (c :: outer)) := by simp
        _ = skipFrom .before (c :: outer) (ws ++ (text ++ (ws' ++ rest))) := by
            rw [skipBefore_append hkey, Option.bind_some]
        _ = skipFrom .before (c :: outer) (text ++ (ws' ++ rest)) := skipFrom_before_blanks hws
        _ = skipFrom .behind (c :: outer) (ws' ++ rest) := ih _ _ (hrest.blanks_append hws')
        _ = skipFrom .behind (c :: outer) rest := skipFrom_behind_blanks hws'
  | one _ ih => exact ih
  | @more c items item _ _ ihitems ihitem =>
      intro outer rest hrest
      calc (c.skipBefore (items ++ comma :: item ++ rest)).bind (skipFrom .before (c :: outer))
          = (c.skipBefore (items ++ comma :: (item ++ rest))).bind
              (skipFrom .before (c :: outer)) := by simp
        _ = skipFrom .behind (c :: outer) (comma :: (item ++ rest)) :=
            ihitems outer _ (endsNumber_comma _)
        _ = (c.skipBefore (item ++ rest)).bind (skipFrom .before (c :: outer)) := skipFrom_comma
        _ = skipFrom .behind (c :: outer) rest := ihitem outer rest hrest

/-- The rest of a container behind an item: it may follow every well-formed beginning. -/
def Continues (c : Container) (rest : List UInt8) : Prop :=
  ∀ items, WellFormed (.items c) items → WellFormed (.items c) (items ++ rest)

theorem continues_blanks {c : Container} {ws : List UInt8} (hws : Blanks ws) : Continues c ws := by
  have hitem {item : List UInt8} (h : WellFormed (.item c) item) :
      WellFormed (.item c) (item ++ ws) := by
    cases h with
    | item hkey hbefore hvalue hbehind =>
        simp only [List.append_assoc]
        exact .item hkey hbefore hvalue (hbehind.append hws)
  intro items h
  cases h with
  | one h => exact .one (hitem h)
  | more hitems h =>
      rw [List.append_assoc, List.cons_append]
      exact .more hitems (hitem h)

theorem Continues.item {c : Container} {key ws text rest : List UInt8} (h : Continues c rest)
    (hkey : Before c key) (hws : Blanks ws) (htext : WellFormed .value text) {ws' : List UInt8}
    (hws' : Blanks ws') : Continues c (ws' ++ comma :: (key ++ (ws ++ (text ++ rest)))) := by
  intro items hitems
  have hmore := h _ (.more (continues_blanks hws' _ hitems) (.item hkey hws htext blanks_nil))
  simpa using hmore

/-- The rests of the open containers, innermost first, with the bytes that close them. -/
inductive Closes : List Container → List UInt8 → Prop
  | nil : Closes [] []
  | cons {c : Container} {outer : List Container} {rest text : List UInt8} : Continues c rest →
      Closes outer text → Closes (c :: outer) (rest ++ c.closing :: text)

/-- What the reader passes over where it succeeds: before a value, the value and the rests
of the open containers, and behind a value only these rests. -/
def Place.Passed : Place → List Container → List UInt8 → Prop
  | .before, containers, text => ∃ ws value rest, Blanks ws ∧ WellFormed .value value ∧
      Closes containers rest ∧ text = ws ++ (value ++ rest)
  | .behind, containers, text => Closes containers text

theorem exists_passed_of_skipFrom {place : Place} {containers : List Container}
    {input rest : List UInt8} (h : skipFrom place containers input = some rest) :
    ∃ text, place.Passed containers text ∧ input = text ++ rest := by
  fun_induction skipFrom place containers input with
  | case1 =>
      cases h
      exact ⟨[], .nil, rfl⟩
  | case2 => cases h
  | case3 input c outer tail hinput ih =>
      obtain ⟨ws, hws, rfl⟩ := exists_blanks_of_skipBlanks hinput
      obtain ⟨text, htext, rfl⟩ := ih h
      exact ⟨_, .cons (continues_blanks hws) htext, by simp⟩
  | case4 input c outer tail tail' hbefore hinput _ ih =>
      obtain ⟨ws, hws, rfl⟩ := exists_blanks_of_skipBlanks hinput
      obtain ⟨key, hkey, rfl⟩ := exists_before_of_skipBefore hbefore
      obtain ⟨_, ⟨ws', value, _, hws', hvalue, hcloses, rfl⟩, rfl⟩ := ih h
      cases hcloses with
      | cons hrest htext =>
          -- the item behind the comma belongs to the rest of the same container
          exact ⟨_, .cons (hrest.item hkey hws' hvalue hws) htext, by simp⟩
  | case5 => cases h
  | case6 => cases h
  | case7 => cases h
  | case8 input containers b tail hinput c hb tail' hclosing ih =>
      obtain ⟨ws, hws, rfl⟩ := exists_blanks_of_skipBlanks hinput
      obtain ⟨ws', hws', rfl⟩ := exists_blanks_of_skipMark hclosing
      obtain ⟨text, htext, rfl⟩ := ih h
      rw [Container.eq_opening hb]
      exact ⟨_, ⟨ws, _, _, hws, .empty (c := c) hws', htext, rfl⟩, by simp⟩
  | case9 input containers b tail hinput c hb _ tail' hbefore ih =>
      obtain ⟨ws, hws, rfl⟩ := exists_blanks_of_skipBlanks hinput
      obtain ⟨key, hkey, rfl⟩ := exists_before_of_skipBefore hbefore
      obtain ⟨_, ⟨ws', value, _, hws', hvalue, hcloses, rfl⟩, rfl⟩ := ih h
      rw [Container.eq_opening hb]
      cases hcloses with
      | cons hrest htext =>
          -- the first item and the rest behind it make up the container opened here
          have hitems := hrest _ (.one (.item hkey hws' hvalue blanks_nil))
          exact ⟨_, ⟨ws, _, _, hws, .container hitems, htext, rfl⟩, by simp⟩
  | case10 => cases h
  | case11 input containers b tail hinput _ tail' hscalar ih =>
      obtain ⟨ws, hws, rfl⟩ := exists_blanks_of_skipBlanks hinput
      obtain ⟨value, hvalue, hsplit⟩ := exists_scalar_of_skipScalar hscalar
      obtain ⟨text, htext, rfl⟩ := ih h
      refine ⟨_, ⟨ws, value, text, hws, .scalar hvalue, htext, rfl⟩, ?_⟩
      rw [hsplit]
      simp
  | case12 => cases h

theorem exists_value_of_skipValue {input rest : List UInt8} (h : skipValue input = some rest) :
    ∃ ws value, Blanks ws ∧ WellFormed .value value ∧ input = ws ++ (value ++ rest) := by
  obtain ⟨_, ⟨ws, value, _, hws, hvalue, hcloses, rfl⟩, rfl⟩ := exists_passed_of_skipFrom h
  cases hcloses
  exact ⟨ws, value, hws, hvalue, by simp⟩

theorem skipValue_append {ws value rest : List UInt8} (hws : Blanks ws)
    (hvalue : WellFormed .value value) (hrest : EndsNumber rest) :
    skipValue (ws ++ (value ++ rest)) = some rest := by
  have hskips : skipFrom .before [] (value ++ rest) = skipFrom .behind [] rest :=
    hvalue.skips [] rest hrest
  rw [skipValue, skipFrom_before_blanks hws, hskips, skipFrom]

end Calculator.Json
