import Calculator.Proofs.Lexeme
import Calculator.Proofs.Options.Items

/-!
# Writing options as arguments

An option is written by its name or by its letter. The value of a setting stands in the next
argument, behind an equals sign, or directly behind a letter, as far as it can be told from what
else may stand there. Flags by letter may share a dash with one another and with a setting
behind them. However items are written, reading the arguments takes them up one after another.
-/

namespace Calculator.Options

/-- A value may stand in an argument of its own: it is empty, a single dash, or does not begin
with a dash. -/
def IsSeparate (value : String) : Prop :=
  value = "-" ∨ value.toList.head? ≠ some '-'

/-- What stands behind one dash, the value that stands in the next argument if one does, and
the items that these give. -/
inductive Cluster : List Char → List String → List Item → Prop
  | nil : Cluster [] [] []
  | flag {f : Flag} {c : Char} {text : List Char} {behind : List String} {items : List Item} :
      (Switch.flag f).letter? = some c → Cluster text behind items →
      Cluster (c :: text) behind (.flag f :: items)
  | separate {s : Setting} {c : Char} {value : String} : (Switch.setting s).letter? = some c →
      IsSeparate value → Cluster [c] [value] [.setting s value]
  | equals {s : Setting} {c : Char} {value : String} : (Switch.setting s).letter? = some c →
      value ≠ "" → Cluster (c :: '=' :: value.toList) [] [.setting s value]
  | direct {s : Setting} {c : Char} {value : String} : (Switch.setting s).letter? = some c →
      value ≠ "" → value.toList.head? ≠ some '=' →
      Cluster (c :: value.toList) [] [.setting s value]

/-- The arguments that items may be written as. -/
inductive Writes : List String → List Item → Prop
  | nil : Writes [] []
  | flag {f : Flag} {args : List String} {items : List Item} : Writes args items →
      Writes (("--" ++ (Switch.flag f).name) :: args) (.flag f :: items)
  | separate {s : Setting} {value : String} {args : List String} {items : List Item} :
      IsSeparate value → Writes args items →
      Writes (("--" ++ (Switch.setting s).name) :: value :: args) (.setting s value :: items)
  | equals {s : Setting} {value : String} {args : List String} {items : List Item} :
      value ≠ "" → Writes args items →
      Writes (("--" ++ (Switch.setting s).name ++ "=" ++ value) :: args) (.setting s value :: items)
  | cluster {text : List Char} {behind args : List String} {items items' : List Item} :
      text ≠ [] → Cluster text behind items → Writes args items' →
      Writes (String.ofList ('-' :: text) :: (behind ++ args)) (items ++ items')

namespace Reading

theorem ofName?_name (s : Switch) : Switch.ofName? s.name.toList = some s := by
  rcases s with (_ | _) | (_ | _) <;> decide

theorem ofLetter?_letter {s : Switch} {c : Char} (h : s.letter? = some c) :
    Switch.ofLetter? c = some s := by
  rcases s with (_ | _) | (_ | _) <;> cases h <;> decide

theorem letter_ne_dash {s : Switch} {c : Char} (h : s.letter? = some c) : c ≠ '-' := by
  rcases s with (_ | _) | (_ | _) <;> cases h <;> decide

theorem name_ne_nil (s : Switch) : s.name.toList ≠ [] := by
  rcases s with (_ | _) | (_ | _) <;> decide

theorem ne_equals_of_mem_name {s : Switch} : ∀ c ∈ s.name.toList, (c != '=') = true := by
  have hall : s.name.toList.all (· != '=') = true := by
    rcases s with (_ | _) | (_ | _) <;> decide
  exact List.all_eq_true.mp hall

variable (r : Reading)

theorem run_cons {argument : String} (h : argument ≠ "--") (rest : List String) :
    r.run (argument :: rest) = r.readArgument argument >>= fun r => r.run rest := by
  rw [run.eq_def]
  dsimp only
  rw [if_neg h]
  cases r.readArgument argument <;> rfl

theorem ne_of_toList_ne {argument : String} (h : argument.toList ≠ ['-', '-']) : argument ≠ "--" := by
  rintro rfl
  exact h rfl

theorem run_name {argument : String} {text : List Char} (h : argument.toList = '-' :: '-' :: text)
    (htext : text ≠ []) (rest : List String) :
    r.run (argument :: rest) = r.readName text >>= fun r => r.run rest := by
  have hne : argument ≠ "--" := ne_of_toList_ne (by simpa [h] using htext)
  rw [r.run_cons hne, readArgument, h]
  rfl

theorem run_cluster {c : Char} {text : List Char} (hc : c ≠ '-') (rest : List String) :
    r.run (String.ofList ('-' :: c :: text) :: rest) =
      r.readCluster (c :: text) >>= fun r => r.run rest := by
  have hne : String.ofList ('-' :: c :: text) ≠ "--" := ne_of_toList_ne (by simp [hc])
  rw [r.run_cons hne, readArgument, String.toList_ofList]
  split
  · next heq => exact (hc (List.cons.inj (List.cons.inj heq).2).1).elim
  · next heq => cases heq
  · next heq => rw [(List.cons.inj heq).2]
  · next hdash => exact (hdash _ rfl).elim

theorem run_value {value : String} (h : IsSeparate value) (rest : List String) :
    r.run (value :: rest) = r.readValue value >>= fun r => r.run rest := by
  obtain rfl | hhead := h
  · rw [r.run_cons (by decide)]
    rfl
  · have hdash {text : List Char} : value.toList ≠ '-' :: text := by
      intro htext
      rw [htext] at hhead
      exact hhead rfl
    rw [r.run_cons (ne_of_toList_ne hdash), readArgument]
    split
    · next htext => exact (hdash htext).elim
    · next htext => exact (hdash htext).elim
    · next htext => exact (hdash htext).elim
    · rfl

/-- A way to go on with a reading that takes up these items. -/
def TakesUp (k : Reading → Except Refusal Given) (items : List Item) : Prop :=
  ∀ r, k r = r.settle >>= fun g => items.foldlM Given.apply g

section TakesUp
variable {k : Reading → Except Refusal Given} {items : List Item}

theorem TakesUp.of_settled (h : TakesUp k items) (g : Given) :
    k ⟨g, none⟩ = items.foldlM Given.apply g :=
  h ⟨g, none⟩

theorem TakesUp.of_waiting (h : TakesUp k items) (g : Given) (s : Setting) (value : String) :
    k ⟨g, some ⟨s, some value⟩⟩ = (.setting s value :: items).foldlM Given.apply g :=
  h ⟨g, some ⟨s, some value⟩⟩

theorem TakesUp.flag (h : TakesUp k items) (f : Flag) :
    TakesUp (fun r => r.raise f >>= k) (.flag f :: items) := by
  intro r
  simp only [raise, bind_assoc, pure_bind, h.of_settled, List.foldlM_cons]
  rfl

theorem TakesUp.attached (h : TakesUp k items) (s : Setting) (value : String) :
    TakesUp (fun r => r.assign s (some value) >>= k) (.setting s value :: items) := by
  intro r
  simp only [assign, bind_assoc, pure_bind, h.of_settled, List.foldlM_cons]
  rfl

theorem TakesUp.separate (h : TakesUp k items) (s : Setting) (value : String) :
    TakesUp (fun r => r.assign s none >>= fun r => r.readValue value >>= k)
      (.setting s value :: items) := by
  intro r
  simp only [assign, bind_assoc, pure_bind, readValue, ← h.of_waiting]
  rfl

end TakesUp

theorem readCluster_flag {f : Flag} {c : Char} (h : (Switch.flag f).letter? = some c)
    (text : List Char) :
    r.readCluster (c :: text) = r.raise f >>= fun r => r.readCluster text := by
  rw [readCluster.eq_def]
  simp only [ofLetter?_letter h]
  cases r.raise f <;> rfl

theorem readCluster_setting {s : Setting} {c : Char} (h : (Switch.setting s).letter? = some c)
    (text : List Char) : r.readCluster (c :: text) = r.assign s (attachedValue? text) := by
  rw [readCluster.eq_def]
  simp only [ofLetter?_letter h]

theorem attachedValue?_equals (value : String) :
    attachedValue? ('=' :: value.toList) = some value := by
  rw [attachedValue?, String.ofList_toList]

theorem attachedValue?_direct {value : String} (hne : value ≠ "")
    (hhead : value.toList.head? ≠ some '=') : attachedValue? value.toList = some value := by
  unfold attachedValue?
  split
  · next htext => exact (hne (String.toList_eq_nil_iff.mp htext)).elim
  · next htext =>
      rw [htext] at hhead
      exact (hhead rfl).elim
  · rw [String.ofList_toList]

theorem TakesUp.cluster {text : List Char} {behind rest : List String} {items items' : List Item}
    (hc : Cluster text behind items) (h : TakesUp (fun r => r.run rest) items') :
    TakesUp (fun r => r.readCluster text >>= fun r => r.run (behind ++ rest)) (items ++ items') := by
  induction hc with
  | nil => exact h
  | @flag f c text behind items hletter _ ih =>
      intro r
      dsimp only
      rw [readCluster_flag r hletter, bind_assoc]
      exact ih.flag f r
  | @separate s c value hletter hvalue =>
      intro r
      dsimp only
      rw [readCluster_setting r hletter, attachedValue?]
      simp only [List.singleton_append, run_value _ hvalue]
      exact h.separate s value r
  | @equals s c value hletter _ =>
      intro r
      dsimp only
      rw [readCluster_setting r hletter, attachedValue?_equals]
      exact h.attached s value r
  | @direct s c value hletter hne hhead =>
      intro r
      dsimp only
      rw [readCluster_setting r hletter, attachedValue?_direct hne hhead]
      exact h.attached s value r

theorem readName_eq (s : Switch) (value : Option String) :
    r.readName (s.name.toList ++ (value.elim [] fun value => '=' :: value.toList)) =
      match s, value with
      | .flag _, some _ => .error .unwantedValue
      | .flag f, none => r.raise f
      | .setting s, value => r.assign s value := by
  have hstop : ∀ c ∈ (value.elim [] fun value => '=' :: value.toList).head?, (c != '=') = false := by
    cases value with
    | none => nofun
    | some value =>
        rintro c hc
        cases hc
        rfl
  have hname := Text.takeWhile_append_run (ne_equals_of_mem_name (s := s)) hstop
  rw [readName]
  simp only [hname, ofName?_name]
  cases s <;> cases value <;> simp

theorem run_option (s : Switch) (value : Option String) (rest : List String) :
    r.run (("--" ++ s.name ++ (value.elim "" fun value => "=" ++ value)) :: rest) =
      r.readName (s.name.toList ++ (value.elim [] fun value => '=' :: value.toList)) >>=
        fun r => r.run rest := by
  have hdashes : "--".toList = ['-', '-'] := by decide
  have hequals : "=".toList = ['='] := by decide
  apply run_name
  · cases value <;> simp [hdashes, hequals]
  · exact List.append_ne_nil_of_left_ne_nil (name_ne_nil s) _

theorem letter_of_cluster {c : Char} {text : List Char} {behind : List String} {items : List Item}
    (h : Cluster (c :: text) behind items) : c ≠ '-' := by
  cases h with
  | flag hletter _ => exact letter_ne_dash hletter
  | separate hletter _ => exact letter_ne_dash hletter
  | equals hletter _ => exact letter_ne_dash hletter
  | direct hletter _ _ => exact letter_ne_dash hletter

/-- Reading the arguments takes up the items that they write. -/
theorem TakesUp.run {args : List String} {items : List Item} (h : Writes args items) :
    TakesUp (fun r => r.run args) items := by
  induction h with
  | nil =>
      intro r
      dsimp only
      rw [run.eq_def]
      simp
  | @flag f args items _ ih =>
      intro r
      have hrun := r.run_option (.flag f) none args
      rw [readName_eq, Option.elim_none, String.append_empty] at hrun
      dsimp only
      rw [hrun]
      exact ih.flag f r
  | @separate s value args items hvalue _ ih =>
      intro r
      have hrun := r.run_option (.setting s) none (value :: args)
      rw [readName_eq, Option.elim_none, String.append_empty] at hrun
      dsimp only
      rw [hrun]
      simp only [run_value _ hvalue]
      exact ih.separate s value r
  | @equals s value args items _ _ ih =>
      intro r
      have hrun := r.run_option (.setting s) (some value) args
      rw [readName_eq, Option.elim_some, ← String.append_assoc] at hrun
      dsimp only
      rw [hrun]
      exact ih.attached s value r
  | @cluster text behind args items items' htext hc _ ih =>
      intro r
      obtain ⟨c, tail, rfl⟩ := List.exists_cons_of_ne_nil htext
      dsimp only
      rw [r.run_cluster (letter_of_cluster hc)]
      exact TakesUp.cluster hc ih r

end Reading

/-- Reading arguments that write items takes these up and then compares the modes. -/
theorem Writes.ofArguments_eq {args : List String} {items : List Item} (h : Writes args items) :
    ofArguments args = items.foldlM Given.apply .nothing >>= Given.options := by
  have hrun : Reading.start.run args = items.foldlM Given.apply .nothing :=
    (Reading.TakesUp.run h).of_settled .nothing
  rw [ofArguments, hrun]
  cases items.foldlM Given.apply .nothing <;> rfl

/-- However some options with one mode at most are written, they are read as these options; and
arguments that give an option twice or name two modes are refused. -/
theorem ofArguments_writes {args : List String} {items : List Item} (h : Writes args items) :
    (∀ o : Options, o.modes ≤ 1 → Describes items o → ofArguments args = .ok o) ∧
    ((∀ i ∈ items, i.Valid) → ¬ (items.map Item.switch).Nodup ∨ NamesTwoModes items →
      ofArguments args = .error .conflict) := by
  rw [h.ofArguments_eq]
  have hfresh : ∀ i ∈ items, Given.nothing.value i.switch = none := fun i _ => Given.value_nothing _
  refine ⟨fun o hmodes ho => ?_, fun hvalid hconflict => ?_⟩
  · rw [Given.foldlM_apply ho.valid ho.distinct hfresh]
    exact ho.options_eq hmodes
  · by_cases hdistinct : (items.map Item.switch).Nodup
    · rw [Given.foldlM_apply hvalid hdistinct hfresh]
      exact options_conflict hvalid hdistinct (hconflict.resolve_left (not_not.mpr hdistinct))
    · rw [Given.foldlM_apply_conflict hvalid (.inl hdistinct)]
      rfl

/-- Two flags that share a dash with a socket, an expression that begins with a dash, and an
empty filter; and a flag that is given by its letter and by its name. -/
theorem ofArguments_writes_cluster :
    ofArguments ["-dvp+80", "--expr=-3", "--log", ""] =
      .ok ⟨some "-3", false, false, 80, true, true, some ""⟩ ∧
    ofArguments ["-d", "--demarche"] = .error .conflict := by
  have hcluster : Cluster ('d' :: 'v' :: 'p' :: "+80".toList) []
      [.flag .trace, .flag .verbose, .setting .socket "+80"] :=
    .flag rfl (.flag rfl (.direct rfl (by decide) (by decide)))
  have hlong : Writes [("--" ++ (Switch.setting .expression).name ++ "=" ++ "-3"),
      ("--" ++ (Switch.setting .log).name), ""] [.setting .expression "-3", .setting .log ""] :=
    .equals (by decide) (.separate (.inr (by decide)) .nil)
  have hwrites := Writes.cluster (List.cons_ne_nil _ _) hcluster hlong
  have hargs : String.ofList ('-' :: 'd' :: 'v' :: 'p' :: "+80".toList) :: ([] ++
      [("--" ++ (Switch.setting .expression).name ++ "=" ++ "-3"),
        ("--" ++ (Switch.setting .log).name), ""]) = ["-dvp+80", "--expr=-3", "--log", ""] := by
    decide +kernel
  have hsocket : SpellsSocket "+80".toList 80 := socket?_eq_some_iff.mp (by decide +kernel)
  have hdescribes : Describes ([.flag .trace, .flag .verbose, .setting .socket "+80"] ++
      [.setting .expression "-3", .setting .log ""])
      ⟨some "-3", false, false, 80, true, true, some ""⟩ := by
    refine ⟨by decide, by decide, by decide, by decide, by decide, by decide, by decide,
      by simp [eq_comm], by simp [eq_comm], fun s hs => ?_, fun hnone => ?_⟩
    · obtain rfl : s = "+80" := by simpa using hs
      exact hsocket
    · exact (hnone "+80" (by decide)).elim
  have hname : Writes [("--" ++ (Switch.flag .trace).name)] [.flag .trace] := .flag .nil
  have hrepeated := Writes.cluster (List.cons_ne_nil _ _) (.flag (f := .trace) rfl .nil) hname
  have hargs' : String.ofList ['-', 'd'] :: ([] ++ [("--" ++ (Switch.flag .trace).name)]) =
      ["-d", "--demarche"] := by decide +kernel
  rw [hargs] at hwrites
  rw [hargs'] at hrepeated
  refine ⟨(ofArguments_writes hwrites).1 _ (by decide) hdescribes,
    (ofArguments_writes hrepeated).2 (fun i hi => ?_) (.inl (by decide))⟩
  obtain rfl : i = .flag .trace := by simpa using hi
  exact ⟨by decide, by decide⟩

end Calculator.Options
