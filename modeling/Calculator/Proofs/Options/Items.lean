import Calculator.Options.Reader
import Mathlib.Data.List.Basic

/-!
# What the arguments give

However they are written, arguments give a list of items: flags, and settings with their values.
The items are taken up one after another. What is given for a switch is kept under it, and an
item for a switch that something was given for is a conflict. Items for different switches
therefore give all that they say, and any others are refused.
-/

namespace Calculator.Options

/-- An option, with the value that is given for it. -/
inductive Item
  | flag (f : Flag)
  | setting (s : Setting) (value : String)
  deriving DecidableEq

/-- The spellings of a socket, in digits with a plus sign perhaps; zero has one with a minus
sign too. -/
inductive SpellsSocket : List Char → UInt16 → Prop
  | plain {ds : List Char} {n : UInt16} : ds ≠ [] → (∀ c ∈ ds, c.isDigit = true) →
      Number.ofDigits ds = n.toNat → SpellsSocket ds n
  | plus {ds : List Char} {n : UInt16} : ds ≠ [] → (∀ c ∈ ds, c.isDigit = true) →
      Number.ofDigits ds = n.toNat → SpellsSocket ('+' :: ds) n
  | minus {ds : List Char} : ds ≠ [] → (∀ c ∈ ds, c.isDigit = true) →
      Number.ofDigits ds = 0 → SpellsSocket ('-' :: ds) 0

namespace Item

def switch : Item → Switch
  | .flag f => .flag f
  | .setting s _ => .setting s

/-- The item asks for no text about the program, and spells a socket where it gives one. -/
def Valid : Item → Prop
  | .flag f => f ≠ .help ∧ f ≠ .version
  | .setting .socket value => ∃ n, SpellsSocket value.toList n
  | .setting _ _ => True

end Item

/-- The number of a socket without its sign. -/
def unsigned? (negative : Bool) (digits : List Char) : Option UInt16 :=
  if digits.isEmpty || !digits.all Char.isDigit then none
  else if 65535 < Number.ofDigits digits || (negative && 0 < Number.ofDigits digits) then none
  else some (UInt16.ofNat (Number.ofDigits digits))

theorem unsigned?_eq_some_iff {negative : Bool} {ds : List Char} {n : UInt16} :
    unsigned? negative ds = some n ↔ ds ≠ [] ∧ (∀ c ∈ ds, c.isDigit = true) ∧
      Number.ofDigits ds = n.toNat ∧ (negative = true → n = 0) := by
  have hrun : ¬ (ds.isEmpty || !ds.all Char.isDigit) = true ↔
      ds ≠ [] ∧ ∀ c ∈ ds, c.isDigit = true := by simp
  have hbound : ¬ (decide (65535 < Number.ofDigits ds) || negative && decide (0 < Number.ofDigits ds)) =
      true ↔ Number.ofDigits ds < 2 ^ 16 ∧ (negative = true → Number.ofDigits ds = 0) := by
    simp
    omega
  rw [unsigned?]
  constructor
  · intro h
    split at h
    · cases h
    · next hdigits =>
        obtain ⟨hne, hdigits⟩ := hrun.mp hdigits
        split at h
        · cases h
        · next hvalue =>
            obtain ⟨hlt, hzero⟩ := hbound.mp hvalue
            cases h
            refine ⟨hne, hdigits, (UInt16.toNat_ofNat_of_lt hlt).symm, fun hnegative => ?_⟩
            rw [hzero hnegative]
            rfl
  · rintro ⟨hne, hdigits, hvalue, hzero⟩
    rw [if_neg (hrun.mpr ⟨hne, hdigits⟩), if_neg (hbound.mpr ?_), hvalue, UInt16.ofNat_toNat]
    rw [hvalue]
    refine ⟨n.toNat_lt, fun hnegative => ?_⟩
    rw [hzero hnegative]
    rfl

theorem socket?_eq (text : String) : socket? text =
    match text.toList with
    | '-' :: digits => unsigned? true digits
    | '+' :: digits => unsigned? false digits
    | digits => unsigned? false digits := by
  unfold socket?
  generalize text.toList = t
  cases t with
  | nil => rfl
  | cons c t =>
      obtain rfl | hminus := eq_or_ne c '-'
      · rfl
      · obtain rfl | hplus := eq_or_ne c '+'
        · rfl
        · simp [hminus, hplus, unsigned?]

/-- A text is read as a socket exactly where it spells it. -/
theorem socket?_eq_some_iff {text : String} {n : UInt16} :
    socket? text = some n ↔ SpellsSocket text.toList n := by
  rw [socket?_eq]
  generalize text.toList = t
  constructor
  · intro h
    split at h
    · obtain ⟨hne, hdigits, hvalue, hzero⟩ := unsigned?_eq_some_iff.mp h
      obtain rfl := hzero rfl
      exact .minus hne hdigits hvalue
    · obtain ⟨hne, hdigits, hvalue, -⟩ := unsigned?_eq_some_iff.mp h
      exact .plus hne hdigits hvalue
    · obtain ⟨hne, hdigits, hvalue, -⟩ := unsigned?_eq_some_iff.mp h
      exact .plain hne hdigits hvalue
  · intro h
    cases h with
    | plain hne hdigits hvalue =>
        have hsign {c : Char} (hc : c.isDigit = false) : t.head? ≠ some c := by
          intro hhead
          have := hdigits c (List.mem_of_mem_head? hhead)
          rw [hc] at this
          cases this
        split
        · exact (hsign (by decide) rfl).elim
        · exact (hsign (by decide) rfl).elim
        · exact unsigned?_eq_some_iff.mpr ⟨hne, hdigits, hvalue, fun h => absurd h (by decide)⟩
    | plus hne hdigits hvalue =>
        exact unsigned?_eq_some_iff.mpr ⟨hne, hdigits, hvalue, fun h => absurd h (by decide)⟩
    | minus hne hdigits hvalue =>
        exact unsigned?_eq_some_iff.mpr ⟨hne, hdigits, hvalue, fun _ => rfl⟩

/-- What is given for a switch. -/
inductive Value
  | raised
  | text (s : String)
  | socket (n : UInt16)
  deriving DecidableEq

def Given.value (g : Given) : Switch → Option Value
  | .flag .console => if g.console then some .raised else none
  | .flag .service => if g.service then some .raised else none
  | .flag .trace => if g.trace then some .raised else none
  | .flag .verbose => if g.verbose then some .raised else none
  | .flag .help => none
  | .flag .version => none
  | .setting .expression => g.expression.map .text
  | .setting .socket => g.socket.map .socket
  | .setting .log => g.log.map .text

/-- What an item gives for its switch. -/
def Item.value : Item → Option Value
  | .flag .help => none
  | .flag .version => none
  | .flag _ => some .raised
  | .setting .socket s => (socket? s).map .socket
  | .setting _ s => some (.text s)

namespace Given

def apply (g : Given) : Item → Except Refusal Given
  | .flag f => g.raise f
  | .setting s value => g.assign value s

/-- The item taken up, whatever was given before. -/
def set (g : Given) : Item → Given
  | .flag .console => { g with console := true }
  | .flag .service => { g with service := true }
  | .flag .trace => { g with trace := true }
  | .flag .verbose => { g with verbose := true }
  | .flag .help => g
  | .flag .version => g
  | .setting .expression s => { g with expression := some s }
  | .setting .socket s => { g with socket := socket? s }
  | .setting .log s => { g with log := some s }

theorem isSome_value {i : Item} (h : i.Valid) : i.value.isSome = true := by
  cases i with
  | flag f =>
      cases f with
      | help => exact (h.1 rfl).elim
      | version => exact (h.2 rfl).elim
      | _ => rfl
  | setting s text =>
      cases s with
      | socket =>
          obtain ⟨n, hn⟩ := h
          rw [Item.value, socket?_eq_some_iff.mpr hn]
          rfl
      | _ => rfl

theorem apply_eq {i : Item} (h : i.Valid) (g : Given) :
    g.apply i = if (g.value i.switch).isSome then .error .conflict else .ok (g.set i) := by
  cases i with
  | flag f =>
      cases f with
      | console | service | trace | verbose =>
          simp only [apply, raise, Item.switch, value]
          split <;> rfl
      | help => exact (h.1 rfl).elim
      | version => exact (h.2 rfl).elim
  | setting s text =>
      cases s with
      | expression | log => simp only [apply, assign, Item.switch, value, Option.isSome_map]; rfl
      | socket =>
          obtain ⟨n, hn⟩ := h
          simp only [apply, assign, Item.switch, value, Option.isSome_map, set, socket?_eq_some_iff.mpr hn]

theorem value_set (g : Given) (i : Item) (s : Switch) :
    (g.set i).value s = if s = i.switch then i.value else g.value s := by
  cases i with
  | flag f => cases f <;> rcases s with (_ | _) | (_ | _) <;> rfl
  | setting s' text => cases s' <;> rcases s with (_ | _) | (_ | _) <;> rfl

section Lists
variable {items : List Item}

theorem isSome_value_set {i : Item} (h : i.Valid) (g : Given) (s : Switch) :
    ((g.set i).value s).isSome = true ↔ s = i.switch ∨ (g.value s).isSome = true := by
  rw [value_set]
  split
  · next hs => simp [hs, isSome_value h]
  · next hs => simp [hs]

theorem foldlM_apply (hvalid : ∀ i ∈ items, i.Valid) (hdistinct : (items.map Item.switch).Nodup)
    {g : Given} (hfresh : ∀ i ∈ items, g.value i.switch = none) :
    items.foldlM apply g = .ok (items.foldl set g) := by
  induction items generalizing g with
  | nil => rfl
  | cons i items ih =>
      obtain ⟨hi, hvalid⟩ := List.forall_mem_cons.mp hvalid
      obtain ⟨hnew, hfresh⟩ := List.forall_mem_cons.mp hfresh
      obtain ⟨hne, hdistinct⟩ := List.nodup_cons.mp hdistinct
      have hnone : ∀ j ∈ items, (g.set i).value j.switch = none := by
        intro j hj
        rw [value_set, if_neg, hfresh j hj]
        rintro heq
        exact hne (heq ▸ List.mem_map_of_mem hj)
      rw [List.foldlM_cons, apply_eq hi, hnew]
      exact ih hvalid hdistinct hnone

theorem foldlM_apply_conflict (hvalid : ∀ i ∈ items, i.Valid) {g : Given}
    (h : ¬ (items.map Item.switch).Nodup ∨ ∃ i ∈ items, (g.value i.switch).isSome = true) :
    items.foldlM apply g = .error .conflict := by
  induction items generalizing g with
  | nil => simp at h
  | cons i items ih =>
      obtain ⟨hi, hvalid⟩ := List.forall_mem_cons.mp hvalid
      rw [List.foldlM_cons, apply_eq hi]
      split
      · rfl
      · next hnew =>
          apply ih hvalid
          rcases h with hrepeated | ⟨j, hj, hgiven⟩
          · by_cases hmem : i.switch ∈ items.map Item.switch
            · obtain ⟨j, hj, heq⟩ := List.mem_map.mp hmem
              exact .inr ⟨j, hj, (isSome_value_set hi g _).mpr (.inl heq)⟩
            · exact .inl fun hdistinct => hrepeated (List.nodup_cons.mpr ⟨hmem, hdistinct⟩)
          · obtain rfl | hj := List.mem_cons.mp hj
            · exact (hnew hgiven).elim
            · exact .inr ⟨j, hj, (isSome_value_set hi g _).mpr (.inr hgiven)⟩

theorem value_foldl_set (hdistinct : (items.map Item.switch).Nodup) (g : Given) :
    (∀ i ∈ items, (items.foldl set g).value i.switch = i.value) ∧
      ∀ s, s ∉ items.map Item.switch → (items.foldl set g).value s = g.value s := by
  induction items generalizing g with
  | nil => exact ⟨nofun, fun _ _ => rfl⟩
  | cons i items ih =>
      obtain ⟨hne, hdistinct⟩ := List.nodup_cons.mp hdistinct
      obtain ⟨hgiven, hother⟩ := ih hdistinct (g.set i)
      refine ⟨List.forall_mem_cons.mpr ⟨?_, hgiven⟩, fun s hs => ?_⟩
      · rw [List.foldl_cons, hother _ hne, value_set, if_pos rfl]
      · rw [List.map_cons, List.mem_cons, not_or] at hs
        rw [List.foldl_cons, hother _ hs.2, value_set, if_neg hs.1]

theorem value_nothing (s : Switch) : nothing.value s = none := by
  rcases s with (_ | _) | (_ | _) <;> rfl

theorem value_foldl_set_nothing_eq_some_iff (hdistinct : (items.map Item.switch).Nodup) {s : Switch}
    {v : Value} : (items.foldl set nothing).value s = some v ↔
      ∃ i ∈ items, i.switch = s ∧ i.value = some v := by
  obtain ⟨hgiven, hother⟩ := value_foldl_set hdistinct nothing
  constructor
  · intro h
    by_cases hs : s ∈ items.map Item.switch
    · obtain ⟨i, hi, rfl⟩ := List.mem_map.mp hs
      rw [hgiven i hi] at h
      exact ⟨i, hi, rfl, h⟩
    · rw [hother s hs, value_nothing] at h
      cases h
  · rintro ⟨i, hi, rfl, hv⟩
    rw [hgiven i hi, hv]

end Lists

end Given

/-- The items give each option once, and those that they do not give are left at their defaults. -/
structure Describes (items : List Item) (o : Options) : Prop where
  distinct : (items.map Item.switch).Nodup
  no_help : .flag .help ∉ items
  no_version : .flag .version ∉ items
  console : o.console = true ↔ .flag .console ∈ items
  service : o.service = true ↔ .flag .service ∈ items
  trace : o.trace = true ↔ .flag .trace ∈ items
  verbose : o.verbose = true ↔ .flag .verbose ∈ items
  expression : ∀ s, o.expression = some s ↔ .setting .expression s ∈ items
  log : ∀ s, o.log = some s ↔ .setting .log s ∈ items
  socket : ∀ s, .setting .socket s ∈ items → SpellsSocket s.toList o.socket
  default_socket : (∀ s, .setting .socket s ∉ items) → o.socket = 8080

theorem Describes.valid {items : List Item} {o : Options} (h : Describes items o) :
    ∀ i ∈ items, i.Valid := by
  intro i hi
  cases i with
  | flag f =>
      refine ⟨?_, ?_⟩
      · rintro rfl
        exact h.no_help hi
      · rintro rfl
        exact h.no_version hi
  | setting s text =>
      cases s with
      | socket => exact ⟨o.socket, h.socket text hi⟩
      | _ => trivial

theorem Item.value_flag {f : Flag} (hf : f ≠ .help ∧ f ≠ .version) :
    (Item.flag f).value = some .raised := by
  cases f with
  | help => exact (hf.1 rfl).elim
  | version => exact (hf.2 rfl).elim
  | _ => rfl

theorem Item.value_setting {s : Setting} (hs : s ≠ .socket) (text : String) :
    (Item.setting s text).value = some (.text text) := by
  cases s with
  | socket => exact (hs rfl).elim
  | _ => rfl

section Fields
variable {items : List Item} (hdistinct : (items.map Item.switch).Nodup)

include hdistinct in
theorem value_flag_iff {f : Flag} (hf : f ≠ .help ∧ f ≠ .version) :
    (items.foldl Given.set .nothing).value (.flag f) = some .raised ↔ .flag f ∈ items := by
  rw [Given.value_foldl_set_nothing_eq_some_iff hdistinct]
  constructor
  · rintro ⟨i, hi, hswitch, -⟩
    cases i with
    | flag f' => rwa [← Switch.flag.inj hswitch]
    | setting => cases hswitch
  · intro h
    exact ⟨_, h, rfl, Item.value_flag hf⟩

include hdistinct in
theorem value_setting_iff {s : Setting} (hs : s ≠ .socket) {text : String} :
    (items.foldl Given.set .nothing).value (.setting s) = some (.text text) ↔
      .setting s text ∈ items := by
  rw [Given.value_foldl_set_nothing_eq_some_iff hdistinct]
  constructor
  · rintro ⟨i, hi, hswitch, hvalue⟩
    cases i with
    | flag => cases hswitch
    | setting s' text' =>
        cases hswitch
        rw [Item.value_setting hs] at hvalue
        cases hvalue
        exact hi
  · intro h
    exact ⟨_, h, rfl, Item.value_setting hs text⟩

end Fields

theorem Describes.socket_eq {items : List Item} {o : Options} (h : Describes items o) :
    (items.foldl Given.set .nothing).socket.getD default.socket = o.socket := by
  obtain ⟨hgiven, hother⟩ := Given.value_foldl_set h.distinct .nothing
  by_cases hmem : ∃ s, .setting .socket s ∈ items
  · obtain ⟨s, hs⟩ := hmem
    have hvalue := hgiven _ hs
    rw [Item.switch, Item.value, socket?_eq_some_iff.mpr (h.socket s hs)] at hvalue
    have hsocket : (items.foldl Given.set .nothing).socket = some o.socket := by
      simpa [Given.value] using hvalue
    rw [hsocket, Option.getD_some]
  · have hnone : ∀ s, .setting .socket s ∉ items := fun s hs => hmem ⟨s, hs⟩
    have hvalue : (items.foldl Given.set .nothing).value (.setting .socket) = none := by
      rw [hother, Given.value_nothing]
      intro hswitch
      obtain ⟨i, hi, his⟩ := List.mem_map.mp hswitch
      cases i with
      | flag => cases his
      | setting s text =>
          cases his
          exact hnone text hi
    have hsocket : (items.foldl Given.set .nothing).socket = none := by
      simpa [Given.value] using hvalue
    rw [hsocket, Option.getD_none, h.default_socket hnone]
    rfl

/-- The items of some options with one mode at most give these options. -/
theorem Describes.options_eq {items : List Item} {o : Options} (h : Describes items o)
    (hmodes : o.modes ≤ 1) : (items.foldl Given.set .nothing).options = .ok o := by
  obtain ⟨g, hg⟩ : ∃ g, g = items.foldl Given.set .nothing := ⟨_, rfl⟩
  have hsocket := h.socket_eq
  have hflag {f : Flag} (hf : f ≠ .help ∧ f ≠ .version) := value_flag_iff h.distinct hf
  have hsetting {s : Setting} (hs : s ≠ .socket) (text : String) :
      (items.foldl Given.set .nothing).value (.setting s) = some (.text text) ↔
        .setting s text ∈ items := value_setting_iff h.distinct hs
  rw [← hg] at hsocket
  have hconsole : g.console = o.console := by
    rw [Bool.eq_iff_iff, h.console, ← hflag (by decide), ← hg]
    simp [Given.value]
  have hservice : g.service = o.service := by
    rw [Bool.eq_iff_iff, h.service, ← hflag (by decide), ← hg]
    simp [Given.value]
  have htrace : g.trace = o.trace := by
    rw [Bool.eq_iff_iff, h.trace, ← hflag (by decide), ← hg]
    simp [Given.value]
  have hverbose : g.verbose = o.verbose := by
    rw [Bool.eq_iff_iff, h.verbose, ← hflag (by decide), ← hg]
    simp [Given.value]
  have hexpression : g.expression = o.expression := by
    ext s
    rw [h.expression, ← hsetting (by decide), ← hg]
    simp [Given.value]
  have hlog : g.log = o.log := by
    ext s
    rw [h.log, ← hsetting (by decide), ← hg]
    simp [Given.value]
  rw [← hg, Given.options, hconsole, hservice, htrace, hverbose, hexpression, hlog, hsocket]
  exact if_neg (Nat.not_lt.mpr hmodes)

/-- The switches that name a mode. -/
def IsMode (s : Switch) : Prop :=
  s = .setting .expression ∨ s = .flag .console ∨ s = .flag .service

/-- The list names two of the modes. -/
def NamesTwoModes (items : List Item) : Prop :=
  ∃ x ∈ items, ∃ y ∈ items, x.switch ≠ y.switch ∧ IsMode x.switch ∧ IsMode y.switch

theorem options_conflict {items : List Item} (hvalid : ∀ i ∈ items, i.Valid)
    (hdistinct : (items.map Item.switch).Nodup) (h : NamesTwoModes items) :
    (items.foldl Given.set .nothing).options = .error .conflict := by
  obtain ⟨x, hx, y, hy, hne, hxmode, hymode⟩ := h
  obtain ⟨g, hg⟩ : ∃ g, g = items.foldl Given.set .nothing := ⟨_, rfl⟩
  obtain ⟨hgiven, -⟩ := Given.value_foldl_set hdistinct .nothing
  have hxvalue : (g.value x.switch).isSome = true := by
    rw [hg, hgiven x hx, Given.isSome_value (hvalid x hx)]
  have hyvalue : (g.value y.switch).isSome = true := by
    rw [hg, hgiven y hy, Given.isSome_value (hvalid y hy)]
  have hexpression : (g.value (.setting .expression)).isSome = g.expression.isSome :=
    Option.isSome_map
  have hconsole : (g.value (.flag .console)).isSome = g.console := by
    cases hc : g.console <;> simp [Given.value, hc]
  have hservice : (g.value (.flag .service)).isSome = g.service := by
    cases hc : g.service <;> simp [Given.value, hc]
  have hmodes : 1 < g.expression.isSome.toNat + g.console.toNat + g.service.toNat := by
    rcases hxmode with hxs | hxs | hxs <;> rcases hymode with hys | hys | hys <;>
      simp only [hxs, hys, ne_eq, not_true_eq_false, hexpression, hconsole, hservice]
        at hne hxvalue hyvalue <;>
      simp only [hxvalue, hyvalue, Bool.toNat_true] <;> omega
  rw [← hg, Given.options]
  exact if_pos hmodes

end Calculator.Options
