import Calculator.Json.Request
import Calculator.Proofs.Json.Values

/-!
# The bodies of requests

A body that is read is an object that asks one thing, or an array of one string.
The other members of the object have to be well formed but do not matter. The
reader goes through the members with the expression it has found so far, and it
succeeds exactly on the bodies, with the text that the string spells.
-/

namespace Calculator.Json

/-- A string in its quotes, and the text that it spells. -/
inductive Quoted : List UInt8 → String → Prop
  | mk {spelling : List UInt8} {s : String} : Spells spelling s.toList →
      Quoted (quote :: (spelling ++ [quote])) s

/-- A member of an object: its key, and the bytes of its value. -/
structure Member where
  key : String
  value : List UInt8

inductive Member.Writes (m : Member) : List UInt8 → Prop
  | mk {ws key ws' ws'' : List UInt8} : Blanks ws → Quoted key m.key → Blanks ws' → Blanks ws'' →
      m.Writes (ws ++ (key ++ (ws' ++ colon :: (ws'' ++ m.value))))

/-- The members of an object, with commas between them. -/
inductive Members : List Member → List UInt8 → Prop
  | one {m : Member} {text : List UInt8} : m.Writes text → Members [m] text
  | more {m : Member} {members : List Member} {text ws texts : List UInt8} : m.Writes text →
      Blanks ws → Members members texts → Members (m :: members) (text ++ (ws ++ comma :: texts))

/-- A member that is passed over. -/
structure Member.IsOther (m : Member) : Prop where
  key_ne : m.key ≠ expressionKey
  wellFormed : WellFormed .value m.value

/-- Exactly one member is the expression, and it spells the text. -/
def Asks (members : List Member) (s : String) : Prop :=
  ∃ before m behind, members = before ++ m :: behind ∧ m.key = expressionKey ∧
    Quoted m.value s ∧ ∀ o ∈ before ++ behind, o.IsOther

/-- The bodies, and the texts that they ask about. -/
inductive Body : List UInt8 → String → Prop
  | object {ws text ws' ws'' : List UInt8} {members : List Member} {s : String} : Blanks ws →
      Members members text → Asks members s → Blanks ws' → Blanks ws'' →
      Body (ws ++ Container.object.opening :: (text ++ (ws' ++ Container.object.closing :: ws''))) s
  | array {ws ws' text ws'' ws''' : List UInt8} {s : String} : Blanks ws → Blanks ws' →
      Quoted text s → Blanks ws'' → Blanks ws''' →
      Body (ws ++ Container.array.opening ::
        (ws' ++ (text ++ (ws'' ++ Container.array.closing :: ws''')))) s

theorem Body.append_blanks {b ws : List UInt8} {s : String} (h : Body b s) (hws : Blanks ws) :
    Body (b ++ ws) s := by
  cases h with
  | object hws' hmembers hasks hbehind hend =>
      simpa using Body.object hws' hmembers hasks hbehind (hend.append hws)
  | array hws' hbefore hquoted hbehind hend =>
      simpa using Body.array hws' hbefore hquoted hbehind (hend.append hws)

theorem readQuoted_eq_some_iff {input rest : List UInt8} {s : String} :
    readQuoted input = some (s, rest) ↔
      ∃ ws text, Blanks ws ∧ Quoted text s ∧ input = ws ++ (text ++ rest) := by
  simp only [readQuoted, Option.bind_eq_some_iff]
  constructor
  · rintro ⟨_, hquote, hstring⟩
    obtain ⟨ws, hws, rfl⟩ := exists_blanks_of_skipMark hquote
    obtain ⟨spelling, hspelling, rfl⟩ := readString_eq_some_iff.mp hstring
    exact ⟨ws, _, hws, .mk hspelling, by simp⟩
  · rintro ⟨ws, _, hws, ⟨hspelling⟩, rfl⟩
    have hquote : isBlank quote = false := by decide
    refine ⟨_, skipMark_append hquote hws _, ?_⟩
    exact readString_eq_some_iff.mpr ⟨_, hspelling, by simp⟩

/-- What one member makes of the expression found so far. -/
inductive Step : Option String → Member → Option String → Prop
  | asked {m : Member} {s : String} : m.key = expressionKey → Quoted m.value s →
      Step none m (some s)
  | other {found : Option String} {m : Member} : m.IsOther → Step found m found

theorem exists_step_of_readMember {found result : Option String} {input rest : List UInt8}
    (h : readMember found input = some (result, rest)) :
    ∃ m text, m.Writes text ∧ Step found m result ∧ input = text ++ rest := by
  unfold readMember at h
  split at h
  · cases h
  · next key tail hkey =>
      obtain ⟨ws, keyText, hws, hkeyText, rfl⟩ := readQuoted_eq_some_iff.mp hkey
      split at h
      · cases h
      · next hcolon =>
          obtain ⟨ws', hws', rfl⟩ := exists_blanks_of_skipMark hcolon
          split at h
          · next hasked =>
              split at h
              · cases h
              · next hfound =>
                  simp only [Option.map_eq_some_iff, Prod.mk.injEq] at h
                  obtain ⟨⟨s, _⟩, hvalue, rfl, rfl⟩ := h
                  obtain ⟨ws'', text, hws'', htext, rfl⟩ := readQuoted_eq_some_iff.mp hvalue
                  obtain rfl : found = none := by simpa using hfound
                  exact ⟨⟨key, text⟩, _, .mk hws hkeyText hws' hws'', .asked hasked htext, by simp⟩
          · next hother =>
              simp only [Option.map_eq_some_iff, Prod.mk.injEq] at h
              obtain ⟨_, hskip, rfl, rfl⟩ := h
              obtain ⟨ws'', value, hws'', hvalue, rfl⟩ := exists_value_of_skipValue hskip
              exact ⟨⟨key, value⟩, _, .mk hws hkeyText hws' hws'', .other ⟨hother, hvalue⟩, by simp⟩

theorem readMember_append {found result : Option String} {m : Member} {text rest : List UInt8}
    (htext : m.Writes text) (h : Step found m result) (hrest : EndsNumber rest) :
    readMember found (text ++ rest) = some (result, rest) := by
  cases htext with
  | @mk ws key ws' ws'' hws hkey hws' hws'' =>
      have hread : readQuoted (ws ++ (key ++ (ws' ++ colon :: (ws'' ++ m.value))) ++ rest) =
          some (m.key, ws' ++ colon :: (ws'' ++ (m.value ++ rest))) :=
        readQuoted_eq_some_iff.mpr ⟨ws, key, hws, hkey, by simp⟩
      have hblank : isBlank colon = false := by decide
      have hcolon := skipMark_append hblank hws' (ws'' ++ (m.value ++ rest))
      simp only [readMember, hread, hcolon]
      cases h with
      | asked hasked hvalue =>
          have hquoted := readQuoted_eq_some_iff.mpr
            ⟨ws'', m.value, hws'', hvalue, (rfl : ws'' ++ (m.value ++ rest) = _)⟩
          simp [hasked, hquoted]
      | other hother => simp [hother.key_ne, skipValue_append hws'' hother.wellFormed hrest]

/-- What the members make of the expression found so far. -/
inductive Steps : Option String → List Member → String → Prop
  | nil {s : String} : Steps (some s) [] s
  | cons {found found' : Option String} {m : Member} {members : List Member} {s : String} :
      Step found m found' → Steps found' members s → Steps found (m :: members) s

theorem steps_some_iff {found s : String} {members : List Member} :
    Steps (some found) members s ↔ s = found ∧ ∀ m ∈ members, m.IsOther := by
  constructor
  · intro h
    induction members with
    | nil =>
        cases h
        exact ⟨rfl, List.forall_mem_nil _⟩
    | cons m members ih =>
        cases h with
        | cons hstep h =>
            cases hstep with
            | other hm =>
                obtain ⟨hs, hmembers⟩ := ih h
                exact ⟨hs, List.forall_mem_cons.mpr ⟨hm, hmembers⟩⟩
  · rintro ⟨rfl, h⟩
    induction members with
    | nil => exact .nil
    | cons m members ih =>
        rw [List.forall_mem_cons] at h
        exact .cons (.other h.1) (ih h.2)

theorem steps_none_iff {members : List Member} {s : String} :
    Steps none members s ↔ Asks members s := by
  constructor
  · intro h
    induction members with
    | nil => cases h
    | cons m members ih =>
        cases h with
        | cons hstep h =>
            cases hstep with
            | asked hkey hvalue =>
                obtain ⟨rfl, hmembers⟩ := steps_some_iff.mp h
                exact ⟨[], m, members, rfl, hkey, hvalue, hmembers⟩
            | other hm =>
                obtain ⟨before, asked, behind, rfl, hkey, hvalue, hothers⟩ := ih h
                exact ⟨m :: before, asked, behind, rfl, hkey, hvalue,
                  List.forall_mem_cons.mpr ⟨hm, hothers⟩⟩
  · rintro ⟨before, m, behind, rfl, hkey, hvalue, hothers⟩
    induction before with
    | nil => exact .cons (.asked hkey hvalue) (steps_some_iff.mpr ⟨rfl, hothers⟩)
    | cons other before ih =>
        rw [List.cons_append, List.forall_mem_cons] at hothers
        exact .cons (.other hothers.1) (ih hothers.2)

theorem exists_members_of_readMembers {found : Option String} {input rest : List UInt8} {s : String}
    (h : readMembers found input = some (s, rest)) :
    ∃ members text ws, Members members text ∧ Steps found members s ∧ Blanks ws ∧
      input = text ++ (ws ++ Container.object.closing :: rest) := by
  fun_induction readMembers found input with
  | case1 => cases h
  | case2 found input found' tail hmember tail' hcomma ih =>
      obtain ⟨m, mtext, hm, hstep, rfl⟩ := exists_step_of_readMember hmember
      obtain ⟨ws, hws, rfl⟩ := exists_blanks_of_skipMark hcomma
      obtain ⟨members, text, ws', hmembers, hsteps, hws', rfl⟩ := ih h
      exact ⟨_, _, ws', .more hm hws hmembers, .cons hstep hsteps, hws', by simp⟩
  | case3 found input tail _ value tail' hmember hclosing =>
      cases h
      obtain ⟨m, mtext, hm, hstep, rfl⟩ := exists_step_of_readMember hmember
      obtain ⟨ws, hws, rfl⟩ := exists_blanks_of_skipMark hclosing
      exact ⟨[m], mtext, ws, .one hm, .cons hstep .nil, hws, rfl⟩
  | case4 => cases h

theorem readMembers_comma {found result : Option String} {input tail rest : List UInt8}
    (hmember : readMember found input = some (result, tail))
    (hcomma : skipMark comma tail = some rest) :
    readMembers found input = readMembers result rest := by
  rw [readMembers]
  split
  · next h => simp [hmember] at h
  · next h =>
      rw [hmember] at h
      cases h
      split
      · next h =>
          rw [hcomma] at h
          cases h
          rfl
      · next h => simp [hcomma] at h

theorem readMembers_closing {found : Option String} {s : String} {input tail rest : List UInt8}
    (hmember : readMember found input = some (some s, tail))
    (hcomma : skipMark comma tail = none)
    (hclosing : skipMark Container.object.closing tail = some rest) :
    readMembers found input = some (s, rest) := by
  rw [readMembers]
  split
  · next h => simp [hmember] at h
  · next h =>
      rw [hmember] at h
      cases h
      split
      · next h => simp [hcomma] at h
      · simp only [hclosing]

theorem readMembers_append {found : Option String} {members : List Member}
    {text ws rest : List UInt8} {s : String} (htext : Members members text)
    (h : Steps found members s) (hws : Blanks ws) :
    readMembers found (text ++ (ws ++ Container.object.closing :: rest)) = some (s, rest) := by
  have hblank : isBlank comma = false := by decide
  induction htext generalizing found with
  | one hm =>
      cases h with
      | cons hstep hnil =>
          cases hnil
          have hend : EndsNumber (ws ++ Container.object.closing :: rest) :=
            (endsNumber_closing .object rest).blanks_append hws
          exact readMembers_closing (readMember_append hm hstep hend)
            (skipMark_of_ne (Container.isBlank_closing _) (Container.comma_ne_closing _).symm hws rest)
            (skipMark_append (Container.isBlank_closing _) hws rest)
  | @more m members text ws' texts hm hws' _ ih =>
      cases h with
      | cons hstep hsteps =>
          have hend : EndsNumber (ws' ++ comma ::
              (texts ++ (ws ++ Container.object.closing :: rest))) :=
            (endsNumber_comma _).blanks_append hws'
          have hmember := readMember_append hm hstep hend
          rw [← ih hsteps, ← readMembers_comma hmember (skipMark_append hblank hws' _)]
          simp

theorem readMembers_eq_some_iff {input rest : List UInt8} {s : String} :
    readMembers none input = some (s, rest) ↔
      ∃ members text ws, Members members text ∧ Asks members s ∧ Blanks ws ∧
        input = text ++ (ws ++ Container.object.closing :: rest) := by
  constructor
  · intro h
    obtain ⟨members, text, ws, hmembers, hsteps, hws, hinput⟩ := exists_members_of_readMembers h
    exact ⟨members, text, ws, hmembers, steps_none_iff.mp hsteps, hws, hinput⟩
  · rintro ⟨members, text, ws, hmembers, hasks, hws, rfl⟩
    exact readMembers_append hmembers (steps_none_iff.mpr hasks) hws

theorem readElement_eq_some_iff {input rest : List UInt8} {s : String} :
    readElement input = some (s, rest) ↔
      ∃ ws text ws', Blanks ws ∧ Quoted text s ∧ Blanks ws' ∧
        input = ws ++ (text ++ (ws' ++ Container.array.closing :: rest)) := by
  constructor
  · intro h
    unfold readElement at h
    split at h
    · cases h
    · next hquoted =>
        simp only [Option.map_eq_some_iff, Prod.mk.injEq] at h
        obtain ⟨_, hclosing, rfl, rfl⟩ := h
        obtain ⟨ws, text, hws, htext, rfl⟩ := readQuoted_eq_some_iff.mp hquoted
        obtain ⟨ws', hws', rfl⟩ := exists_blanks_of_skipMark hclosing
        exact ⟨ws, text, ws', hws, htext, hws', rfl⟩
  · rintro ⟨ws, text, ws', hws, htext, hws', rfl⟩
    have hclosing := skipMark_append (Container.isBlank_closing .array) hws' rest
    rw [readElement, readQuoted_eq_some_iff.mpr ⟨ws, text, hws, htext, rfl⟩]
    simp only [hclosing, Option.map_some]

theorem isEmpty_skipBlanks_iff {input : List UInt8} :
    (skipBlanks input).isEmpty = true ↔ Blanks input := by
  rw [List.isEmpty_iff, skipBlanks, List.dropWhile_eq_nil_iff]
  rfl

theorem body_of_expression? {input : List UInt8} {s : String} (h : expression? input = some s) :
    Body input s := by
  unfold expression? at h
  split at h
  · cases h
  · next b rest hinput =>
      obtain ⟨ws, hws, rfl⟩ := exists_blanks_of_skipBlanks hinput
      dsimp only at h
      split at h
      · next hread =>
          split at h
          · next hend =>
              rw [isEmpty_skipBlanks_iff] at hend
              cases h
              split at hread
              · next hopening =>
                  obtain ⟨members, text, ws', hmembers, hasks, hws', rfl⟩ :=
                    readMembers_eq_some_iff.mp hread
                  rw [Container.eq_opening hopening]
                  exact .object hws hmembers hasks hws' hend
              · next hopening =>
                  obtain ⟨ws', text, ws'', hws', htext, hws'', rfl⟩ :=
                    readElement_eq_some_iff.mp hread
                  rw [Container.eq_opening hopening]
                  exact .array hws hws' htext hws'' hend
              · cases hread
          · cases h
      · cases h

theorem Body.expression? {input : List UInt8} {s : String} (h : Body input s) :
    Json.expression? input = some s := by
  cases h with
  | @object ws text ws' ws'' members s hws hmembers hasks hws' hws'' =>
      have hread : readMembers none (text ++ (ws' ++ Container.object.closing :: ws'')) =
          some (s, ws'') :=
        readMembers_eq_some_iff.mpr ⟨members, text, ws', hmembers, hasks, hws', rfl⟩
      rw [Json.expression?, skipBlanks_append hws, skipBlanks_cons (Container.isBlank_opening _)]
      simp only [Container.ofOpening?_opening, hread, isEmpty_skipBlanks_iff.mpr hws'', if_true]
  | @array ws ws' text ws'' ws''' s hws hws' htext hws'' hws''' =>
      have hread : readElement (ws' ++ (text ++ (ws'' ++ Container.array.closing :: ws'''))) =
          some (s, ws''') :=
        readElement_eq_some_iff.mpr ⟨ws', text, ws'', hws', htext, hws'', rfl⟩
      rw [Json.expression?, skipBlanks_append hws, skipBlanks_cons (Container.isBlank_opening _)]
      simp only [Container.ofOpening?_opening, hread, isEmpty_skipBlanks_iff.mpr hws''', if_true]

/-- The reader accepts exactly the bodies, and gives the text that is asked about. -/
theorem expression?_eq_some_iff {input : List UInt8} {s : String} :
    expression? input = some s ↔ Body input s :=
  ⟨body_of_expression?, Body.expression?⟩

end Calculator.Json
