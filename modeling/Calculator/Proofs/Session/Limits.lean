import Calculator.Proofs.Encoding
import Calculator.Proofs.Session.Console

/-!
# Sessions with a limit

A writer takes a number of bytes and fails at the write that goes past it, which ends the call.
What a session writes on one channel is then cut off behind this number of bytes, however the
text is divided into writes. The session of one expression writes its value behind everything
else, so that a failure on the channel of complaints leaves the other one empty.
-/

namespace Calculator.Session

theorem length_bytes (s : String) : (Text.bytes s.toList).length = s.utf8ByteSize := by
  rw [← List.size_toByteArray, Text.toByteArray_bytes, String.size_toByteArray]

theorem fittingFrom_eq (taken : List Char) (room : Nat) (text : List Char) :
    fittingFrom taken room text = taken.reverse ++ fittingFrom [] room text := by
  induction text generalizing taken room with
  | nil => simp [fittingFrom]
  | cons c rest ih =>
      rw [fittingFrom, fittingFrom]
      split
      · rw [ih, ih [c]]
        simp
      · simp

section Fitting
variable {room : Nat} {s t : List Char}

theorem fittingFrom_append_of_le (h : (Text.bytes s).length ≤ room) :
    fittingFrom [] room (s ++ t) = s ++ fittingFrom [] (room - (Text.bytes s).length) t := by
  induction s generalizing room with
  | nil => rfl
  | cons c s ih =>
      rw [Text.bytes_cons, List.length_append, String.length_utf8EncodeChar] at h ⊢
      rw [List.cons_append, fittingFrom, if_pos (by omega), fittingFrom_eq, ih (by omega),
        Nat.sub_sub]
      rfl

theorem fittingFrom_append_of_lt (h : room < (Text.bytes s).length) :
    fittingFrom [] room (s ++ t) = fittingFrom [] room s := by
  induction s generalizing room with
  | nil => exact absurd h (Nat.not_lt_zero _)
  | cons c s ih =>
      rw [Text.bytes_cons, List.length_append, String.length_utf8EncodeChar] at h
      rw [List.cons_append, fittingFrom, fittingFrom]
      split
      · rw [fittingFrom_eq, fittingFrom_eq [c], ih (by omega)]
      · rfl

theorem fittingFrom_zero : fittingFrom [] 0 s = [] := by
  cases s with
  | nil => rfl
  | cons c s => rw [fittingFrom, if_neg (Nat.not_le.mpr c.utf8Size_pos), List.reverse_nil]

end Fitting

section Texts
variable {room : Nat} {s t : String}

theorem fitting_append_of_le (h : s.utf8ByteSize ≤ room) :
    fitting room (s ++ t) = s ++ fitting (room - s.utf8ByteSize) t := by
  rw [← length_bytes] at h ⊢
  rw [fitting, String.toList_append, fittingFrom_append_of_le h, String.ofList_append,
    String.ofList_toList, fitting]

theorem fitting_append_of_lt (h : room < s.utf8ByteSize) :
    fitting room (s ++ t) = fitting room s := by
  rw [← length_bytes] at h
  rw [fitting, String.toList_append, fittingFrom_append_of_lt h, fitting]

theorem fitting_of_le (h : s.utf8ByteSize ≤ room) : fitting room s = s := by
  have happend := fitting_append_of_le (t := "") h
  rw [String.append_empty] at happend
  rw [happend]
  exact String.append_empty

theorem length_encode (s : String) : (Text.encode s).length = s.utf8ByteSize := by
  rw [Text.encode_eq_bytes, length_bytes]

/-- The limit is past the text or between two of its characters. -/
def OnBoundary (limit : Nat) (s : String) : Prop :=
  s.utf8ByteSize ≤ limit ∨ String.Pos.Raw.IsValid s ⟨limit⟩

theorem encode_fitting (h : OnBoundary room s) :
    Text.encode (fitting room s) = (Text.encode s).take room := by
  rcases h with h | h
  · rw [fitting_of_le h, List.take_of_length_le]
    rwa [length_encode]
  · obtain ⟨front, rest, rfl, hroom⟩ := String.Pos.Raw.isValid_iff_exists_append.mp h
    obtain rfl : room = front.utf8ByteSize := congrArg String.Pos.Raw.byteIdx hroom
    have hnone : fitting 0 rest = "" := by rw [fitting, fittingFrom_zero, String.ofList_nil]
    have hbytes : Text.encode (front ++ rest) = Text.encode front ++ Text.encode rest := by
      rw [Text.encode_eq_bytes, Text.encode_eq_bytes, Text.encode_eq_bytes, String.toList_append]
      exact List.flatMap_append
    rw [fitting_append_of_le (Nat.le_refl _), Nat.sub_self, hnone, String.append_empty, hbytes,
      List.take_left' (length_encode front)]

end Texts

/-- All that the actions write on a channel. -/
def textOn (channel : Channel) (actions : List Action) : String :=
  match channel with
  | .answers => answers actions
  | .complaints => complaints actions

/-- The action writes on no other channel. -/
def Action.WritesOn (channel : Channel) : Action → Prop
  | .write c _ => c = channel
  | .announce _ => True

@[simp] theorem textOn_nil (channel : Channel) : textOn channel [] = "" := by
  cases channel <;> rfl

@[simp] theorem textOn_append (channel : Channel) (actions actions' : List Action) :
    textOn channel (actions ++ actions') = textOn channel actions ++ textOn channel actions' := by
  cases channel with
  | answers => exact answers_append _ _
  | complaints => exact complaints_append _ _

theorem textOn_write (channel c : Channel) (text : String) :
    textOn c [.write channel text] = if c = channel then text else "" := by
  cases c <;> cases channel <;> simp [textOn, Action.answer, Action.complaint]

theorem textOn_announce (channel : Channel) (occurrence : Occurrence) :
    textOn channel [.announce occurrence] = "" := by
  cases channel <;> simp [textOn, Action.answer, Action.complaint]

theorem Action.WritesOn.textOn_eq {channel c : Channel} {action : Action}
    (h : action.WritesOn channel) (hc : c ≠ channel) : textOn c [action] = "" := by
  cases action with
  | write d text =>
      obtain rfl : d = channel := h
      rw [textOn_write, if_neg hc]
  | announce occurrence => exact textOn_announce _ _

theorem textOn_of_writesOn {channel c : Channel} {actions : List Action}
    (h : ∀ action ∈ actions, action.WritesOn channel) (hc : c ≠ channel) :
    textOn c actions = "" := by
  induction actions with
  | nil => exact textOn_nil c
  | cons action rest ih =>
      rw [List.forall_mem_cons] at h
      rw [← List.singleton_append, textOn_append, h.1.textOn_eq hc, ih h.2, String.empty_append]

/-- The session comes to a write that goes past the limit, behind writes that do not. -/
def Overflows (limit : Nat) (actions : List Action) : Prop :=
  ∃ before channel text behind, actions = before ++ .write channel text :: behind ∧
    (∀ c, (textOn c before).utf8ByteSize ≤ limit) ∧
    limit < (textOn channel before ++ text).utf8ByteSize

/-- A sink that is not past its limit takes all that fits. -/
theorem Sink.write_eq {limit : Nat} {written : String} (h : written.utf8ByteSize ≤ limit)
    (text : String) :
    (⟨some limit, written⟩ : Sink).write text = ⟨some limit, fitting limit (written ++ text)⟩ ∧
      ((⟨some limit, written⟩ : Sink).fits text = true ↔
        (written ++ text).utf8ByteSize ≤ limit) := by
  have hfits : (⟨some limit, written⟩ : Sink).fits text =
      decide ((written ++ text).utf8ByteSize ≤ limit) := by
    rw [fits, String.utf8ByteSize_append]
  refine ⟨?_, by rw [hfits, decide_eq_true_iff]⟩
  rw [write, hfits]
  split
  · next hle => rw [fitting_of_le (of_decide_eq_true hle)]
  · rw [fitting_append_of_le h]
    rfl

namespace Performance

/-- The sink of a channel. -/
def sink (p : Performance) : Channel → Sink
  | .answers => p.answers
  | .complaints => p.complaints

/-- The session may go on, and its sinks hold all that was written, which is not past the
limit. -/
structure Holds (p : Performance) (limit : Nat) (done : List Action) : Prop where
  overflowed : p.overflowed = false
  sink_eq (c : Channel) : p.sink c = ⟨some limit, textOn c done⟩
  size_le (c : Channel) : (textOn c done).utf8ByteSize ≤ limit

/-- The session was stopped by a write that went past the limit, and left what fits of it. -/
structure Stopped (p : Performance) (limit : Nat) (before : List Action) (channel : Channel)
    (text : String) : Prop where
  overflowed : p.overflowed = true
  size_le (c : Channel) : (textOn c before).utf8ByteSize ≤ limit
  past : limit < (textOn channel before ++ text).utf8ByteSize
  written : (p.sink channel).written = fitting limit (textOn channel before ++ text)
  other (c : Channel) : c ≠ channel → (p.sink c).written = textOn c before

theorem holds_start (limit : Nat) : (start (some limit)).Holds limit [] where
  overflowed := rfl
  sink_eq c := by cases c <;> rfl
  size_le c := by cases c <;> exact Nat.zero_le _

variable {p : Performance} {limit : Nat} {done : List Action}

theorem sink_step_write (p : Performance) (channel : Channel) (text : String) :
    (∀ c, (p.step (.write channel text)).sink c =
        if c = channel then (p.sink c).write text else p.sink c) ∧
      (p.step (.write channel text)).overflowed = !(p.sink channel).fits text := by
  obtain ⟨answers, complaints, announced, overflowed⟩ := p
  cases channel with
  | answers => exact ⟨fun c => by cases c <;> rfl, rfl⟩
  | complaints => exact ⟨fun c => by cases c <;> rfl, rfl⟩

theorem Holds.step_write (h : p.Holds limit done) (channel : Channel) (text : String) :
    (p.step (.write channel text)).Holds limit (done ++ [.write channel text]) ∨
      (p.step (.write channel text)).Stopped limit done channel text := by
  obtain ⟨hsink, hoverflowed⟩ := p.sink_step_write channel text
  obtain ⟨hwrite, hfits⟩ := Sink.write_eq (h.size_le channel) text
  rw [h.sink_eq] at hoverflowed
  by_cases hle : (textOn channel done ++ text).utf8ByteSize ≤ limit
  · refine .inl ⟨by rw [hoverflowed, hfits.mpr hle, Bool.not_true], fun c => ?_, fun c => ?_⟩
    · rw [hsink, textOn_append, textOn_write, h.sink_eq]
      split
      · next hc => rw [hc, hwrite, fitting_of_le hle]
      · rw [String.append_empty]
    · rw [textOn_append, textOn_write]
      split
      · next hc => rwa [hc]
      · rw [String.append_empty]
        exact h.size_le c
  · refine .inr ⟨?_, h.size_le, Nat.not_le.mp hle, ?_, fun c hc => ?_⟩
    · rw [hoverflowed, Bool.eq_false_iff.mpr (hfits.not.mpr hle), Bool.not_false]
    · rw [hsink, if_pos rfl, h.sink_eq, hwrite]
    · rw [hsink, if_neg hc, h.sink_eq]

theorem Holds.step_announce (h : p.Holds limit done) (occurrence : Occurrence) :
    (p.step (.announce occurrence)).Holds limit (done ++ [.announce occurrence]) where
  overflowed := h.overflowed
  sink_eq c := by
    rw [textOn_append, textOn_announce, String.append_empty, ← h.sink_eq]
    cases c <;> rfl
  size_le c := by
    rw [textOn_append, textOn_announce, String.append_empty]
    exact h.size_le c

/-- The actions are carried out to the end, or up to a write that goes past the limit. -/
theorem Holds.run (h : p.Holds limit done) (actions : List Action) :
    (p.run actions).Holds limit (done ++ actions) ∨
      ∃ before channel text behind, done ++ actions = before ++ .write channel text :: behind ∧
        (p.run actions).Stopped limit before channel text := by
  induction actions generalizing p done with
  | nil =>
      rw [List.append_nil]
      exact .inl h
  | cons action rest ih =>
      have hgoes {next : Performance} (hnext : next.Holds limit (done ++ [action])) :
          (next.run rest).Holds limit (done ++ action :: rest) ∨
            ∃ before channel text behind,
              done ++ action :: rest = before ++ .write channel text :: behind ∧
                (next.run rest).Stopped limit before channel text := by
        rw [List.append_cons]
        exact ih hnext
      rw [Performance.run]
      cases action with
      | announce occurrence =>
          have hnext := h.step_announce occurrence
          rw [if_neg (Bool.not_eq_true _ ▸ hnext.overflowed)]
          exact hgoes hnext
      | write channel text =>
          rcases h.step_write channel text with hnext | hstopped
          · rw [if_neg (Bool.not_eq_true _ ▸ hnext.overflowed)]
            exact hgoes hnext
          · rw [if_pos hstopped.overflowed]
            exact .inr ⟨done, channel, text, rest, rfl, hstopped⟩

end Performance

theorem perform_some (limit : Nat) (actions : List Action) :
    (perform (some limit) actions).Holds limit actions ∨
      ∃ before channel text behind, actions = before ++ .write channel text :: behind ∧
        (perform (some limit) actions).Stopped limit before channel text :=
  (Performance.holds_start limit).run actions

theorem textOn_append_write (channel : Channel) (text : String) (before behind : List Action) :
    textOn channel (before ++ .write channel text :: behind) =
      textOn channel before ++ text ++ textOn channel behind := by
  rw [List.append_cons, textOn_append, textOn_append, textOn_write, if_pos rfl]

section Runs
variable {limit : Nat} {actions : List Action}

/-- A channel on which too much is written overflows sooner or later, unless the other one does
so before. -/
theorem overflows_iff :
    Overflows limit actions ↔ ∃ c, limit < (textOn c actions).utf8ByteSize := by
  constructor
  · rintro ⟨before, channel, text, behind, rfl, -, hpast⟩
    refine ⟨channel, ?_⟩
    rw [textOn_append_write, String.utf8ByteSize_append]
    exact Nat.lt_add_right _ hpast
  · rintro ⟨c, hc⟩
    rcases perform_some limit actions with hholds | ⟨before, channel, text, behind, h, hstopped⟩
    · exact absurd (hholds.size_le c) (Nat.not_le.mpr hc)
    · exact ⟨before, channel, text, behind, h, hstopped.size_le, hstopped.past⟩

theorem overflowed_perform_iff :
    (perform (some limit) actions).overflowed = true ↔ Overflows limit actions := by
  rcases perform_some limit actions with hholds | ⟨before, channel, text, behind, h, hstopped⟩
  · rw [hholds.overflowed, overflows_iff]
    refine iff_of_false Bool.false_ne_true ?_
    rintro ⟨c, hc⟩
    exact absurd (hholds.size_le c) (Nat.not_le.mpr hc)
  · exact iff_of_true hstopped.overflowed
      ⟨before, channel, text, behind, h, hstopped.size_le, hstopped.past⟩

/-- What stopped the session is as good as all that would follow on its channel. -/
theorem Performance.Stopped.written_eq {p : Performance} {before : List Action}
    {channel : Channel} {text : String} (h : p.Stopped limit before channel text)
    (behind : List Action) :
    (p.sink channel).written =
      fitting limit (textOn channel (before ++ .write channel text :: behind)) := by
  rw [textOn_append_write, fitting_append_of_lt h.past, h.written]

theorem written_perform {channel : Channel} (hon : ∀ action ∈ actions, action.WritesOn channel) :
    ((perform (some limit) actions).sink channel).written =
      fitting limit (textOn channel actions) := by
  rcases perform_some limit actions with hholds | ⟨before, c, text, behind, rfl, hstopped⟩
  · rw [hholds.sink_eq, fitting_of_le (hholds.size_le channel)]
  · obtain rfl : c = channel := hon (.write c text) (by simp)
    exact hstopped.written_eq behind

theorem subset_of_append_eq {α : Type} {before behind front : List α} {a last : α}
    (h : before ++ a :: behind = front ++ [last]) :
    before ⊆ front ∧ (a ∈ front ∨ behind = []) := by
  rcases List.eq_nil_or_concat behind with rfl | ⟨behind, final, rfl⟩
  · obtain ⟨rfl, -⟩ := List.append_inj' h rfl
    exact ⟨List.Subset.refl _, .inr rfl⟩
  · rw [List.concat_eq_append, ← List.cons_append, ← List.append_assoc] at h
    obtain ⟨rfl, -⟩ := List.append_inj' h rfl
    exact ⟨List.subset_append_left _ _, .inl (by simp)⟩

/-- Complaints, and a write at the end. If a complaint does not fit, nothing is written on the
other channel. -/
theorem written_perform_last (limit : Nat) {quiet : List Action} {channel : Channel} {text : String}
    (hquiet : ∀ action ∈ quiet, action.WritesOn .complaints)
    (hactions : actions = quiet ++ [.write channel text]) :
    ((perform (some limit) actions).sink .complaints).written =
        fitting limit (textOn .complaints actions) ∧
      ((perform (some limit) actions).sink .answers).written =
        if limit < (textOn .complaints actions).utf8ByteSize then ""
        else fitting limit (textOn .answers actions) := by
  rcases perform_some limit actions with hholds | ⟨before, c, text', behind, h, hstopped⟩
  · have hle := hholds.size_le
    rw [if_neg (Nat.not_lt.mpr (hle _)), fitting_of_le (hle _), fitting_of_le (hle _),
      hholds.sink_eq, hholds.sink_eq]
    exact ⟨rfl, rfl⟩
  · have hwritten := hstopped.written_eq behind
    rw [← h] at hwritten
    -- Only the write at the end may be an answer, and everything before it is a complaint.
    obtain ⟨hsubset, hlast⟩ := subset_of_append_eq (h.symm.trans hactions)
    have hbefore : ∀ action ∈ before, action.WritesOn .complaints :=
      fun action hmem => hquiet action (hsubset hmem)
    have hc : c = .complaints ∨ behind = [] := hlast.imp_left (hquiet (.write c text'))
    cases c with
    | complaints =>
        have hpast : limit < (textOn .complaints actions).utf8ByteSize := by
          rw [h, textOn_append_write, String.utf8ByteSize_append]
          exact Nat.lt_add_right _ hstopped.past
        rw [if_pos hpast, hstopped.other .answers (by decide),
          textOn_of_writesOn hbefore (by decide)]
        exact ⟨hwritten, rfl⟩
    | answers =>
        obtain rfl := hc.resolve_left (by decide)
        have hle := hstopped.size_le .complaints
        have hcomplaints : textOn .complaints actions = textOn .complaints before := by
          rw [h, textOn_append, textOn_write, if_neg (by decide), String.append_empty]
        rw [hcomplaints, if_neg (Nat.not_lt.mpr hle), fitting_of_le hle,
          hstopped.other .complaints (by decide)]
        exact ⟨rfl, hwritten⟩

end Runs

/-- What a call comes to: a write that goes past the limit makes it fail. -/
inductive Return (α : Type)
  | writeFailed
  | value (a : α)
  deriving DecidableEq

/-- What a call leaves on its channels, and what it comes to. -/
structure Call (α : Type) where
  written : Channel → String
  result : Return α

/-- Carries out a session whose sinks have a limit. -/
def call {α : Type} (limit : Option Nat) (session : List Action × α) : Call α :=
  let p := perform limit session.1
  ⟨fun c => (p.sink c).written, if p.overflowed then .writeFailed else .value session.2⟩

section Calls
variable {α : Type} {limit : Nat} {session : List Action × α}

theorem written_call (limit : Option Nat) (session : List Action × α) (c : Channel) :
    (call limit session).written c = ((perform limit session.1).sink c).written :=
  rfl

theorem call_none (session : List Action × α) :
    call none session = ⟨(textOn · session.1), .value session.2⟩ := by
  obtain ⟨hunlimited, hanswers, hcomplaints⟩ := perform_none session.1
  have hwritten (c : Channel) : ((perform none session.1).sink c).written = textOn c session.1 := by
    cases c with
    | answers => exact hanswers
    | complaints => exact hcomplaints
  simp only [call, hwritten, hunlimited.overflowed, Bool.false_eq_true, if_false]

theorem result_call_iff :
    (call (some limit) session).result = .writeFailed ↔ Overflows limit session.1 := by
  rw [← overflowed_perform_iff, call]
  split
  · next h => exact iff_of_true rfl h
  · next h => exact iff_of_false nofun h

theorem call_eq_of_result (h : (call (some limit) session).result ≠ .writeFailed) :
    call (some limit) session = call none session := by
  rw [ne_eq, result_call_iff, ← overflowed_perform_iff] at h
  rcases perform_some limit session.1 with hholds | ⟨_, _, _, _, -, hstopped⟩
  · rw [call_none]
    simp only [call, hholds.sink_eq, if_neg h]
  · exact absurd hstopped.overflowed h

theorem call_of_answers (hon : ∀ action ∈ session.1, action.WritesOn .answers) :
    (OnBoundary limit ((call none session).written .answers) →
      Text.encode ((call (some limit) session).written .answers) =
        (Text.encode ((call none session).written .answers)).take limit) ∧
    ((call (some limit) session).result = .writeFailed ↔
      limit < (Text.encode ((call none session).written .answers)).length) := by
  rw [call_none, written_call, written_perform hon, result_call_iff, overflows_iff, length_encode]
  refine ⟨encode_fitting, ?_, fun h => ⟨.answers, h⟩⟩
  rintro ⟨c, hc⟩
  cases c with
  | answers => exact hc
  | complaints =>
      rw [textOn_of_writesOn hon (by decide)] at hc
      exact absurd hc (Nat.not_lt_zero _)

theorem call_of_last {quiet : List Action} {channel : Channel} {text : String}
    (hquiet : ∀ action ∈ quiet, action.WritesOn .complaints)
    (hactions : session.1 = quiet ++ [.write channel text]) :
    (OnBoundary limit ((call none session).written .complaints) →
      Text.encode ((call (some limit) session).written .complaints) =
        (Text.encode ((call none session).written .complaints)).take limit) ∧
    (limit < (Text.encode ((call none session).written .complaints)).length →
      (call (some limit) session).written .answers = "") ∧
    ((Text.encode ((call none session).written .complaints)).length ≤ limit →
      OnBoundary limit ((call none session).written .answers) →
      Text.encode ((call (some limit) session).written .answers) =
        (Text.encode ((call none session).written .answers)).take limit) := by
  obtain ⟨hcomplaints, hanswers⟩ := written_perform_last limit hquiet hactions
  rw [call_none, written_call, written_call, hcomplaints, hanswers, length_encode]
  refine ⟨encode_fitting, fun hlt => if_pos hlt, fun hle hboundary => ?_⟩
  rw [if_neg (Nat.not_lt.mpr hle), encode_fitting hboundary]

end Calls

theorem writesOn_announcements (e : Evaluation) (channel : Channel) :
    ∀ action ∈ announcements e, action.WritesOn channel := by
  rw [announcements, List.forall_mem_map]
  exact fun _ _ => trivial

theorem writesOn_traceActions (e : Evaluation) (channel : Channel) (traced : Bool) :
    ∀ action ∈ traceActions e channel traced, action.WritesOn channel := by
  cases traced with
  | false => exact List.forall_mem_nil _
  | true =>
      rw [traceActions, if_pos rfl, List.forall_mem_map]
      exact fun _ _ => rfl

theorem writesOn_reply (traced : Bool) (line : Option String) :
    ∀ action ∈ (reply traced line).actions, action.WritesOn .answers := by
  cases line with
  | none => exact List.forall_mem_nil _
  | some line =>
      rw [reply]
      split
      · exact List.forall_mem_singleton.mpr trivial
      · dsimp only
        split
        · exact List.forall_mem_nil _
        · rw [consoleAnswer, List.forall_mem_append, List.forall_mem_cons]
          exact ⟨writesOn_announcements _ _, rfl, writesOn_traceActions _ _ _⟩

theorem writesOn_consoleFrom {traced : Bool} {done : List Action}
    (hdone : ∀ action ∈ done, action.WritesOn .answers) (lines : List (Option String)) :
    ∀ action ∈ (consoleFrom traced done lines).1, action.WritesOn .answers := by
  induction lines generalizing done with
  | nil =>
      have hclosed : ∀ action ∈ closing.reverse ++ prompt :: done, action.WritesOn .answers := by
        rw [List.forall_mem_append, List.forall_mem_cons]
        exact ⟨by simp [closing, Action.WritesOn], rfl, hdone⟩
      exact fun action h => hclosed action (List.mem_reverse.mp h)
  | cons line rest ih =>
      have hreply := writesOn_reply traced line
      have hnext : ∀ action ∈ (reply traced line).actions.reverse ++ prompt :: done,
          action.WritesOn .answers := by
        rw [List.forall_mem_append, List.forall_mem_cons]
        exact ⟨fun action h => hreply action (List.mem_reverse.mp h), rfl, hdone⟩
      rw [consoleFrom]
      split
      · exact fun action h => hnext action (List.mem_reverse.mp h)
      · exact ih hnext

/-- Everything but the last action of the session of one expression is a complaint. -/
theorem exists_oneShot_eq (expression : String) (traced : Bool) :
    ∃ quiet channel text, (∀ action ∈ quiet, action.WritesOn .complaints) ∧
      (oneShot expression traced).1 = quiet ++ [.write channel text] := by
  have hquiet : ∀ action ∈ announcements (Evaluation.ofExpression expression) ++
      traceActions (Evaluation.ofExpression expression) .complaints traced,
      action.WritesOn .complaints := by
    rw [List.forall_mem_append]
    exact ⟨writesOn_announcements _ _, writesOn_traceActions _ _ _⟩
  rw [oneShot]
  split
  · exact ⟨_, _, _, hquiet, rfl⟩
  · exact ⟨_, _, _, hquiet, rfl⟩

/-- A limit cuts off what a session writes on a channel behind this number of bytes, and makes
the call fail if a write goes past it; otherwise it makes no difference. Of the two channels on
which one expression is answered, the channel of answers stays empty if a complaint does not
fit. -/
theorem call_cuts_at_limit (limit : Nat) :
    (∀ (traced : Bool) (input : List UInt8),
      let full := call none (console traced input)
      let cut := call (some limit) (console traced input)
      (OnBoundary limit (full.written .answers) →
        Text.encode (cut.written .answers) = (Text.encode (full.written .answers)).take limit) ∧
      (cut.result = .writeFailed ↔ limit < (Text.encode (full.written .answers)).length) ∧
      (cut.result ≠ .writeFailed → cut = full)) ∧
    ∀ (expression : String) (traced : Bool),
      let full := call none (oneShot expression traced)
      let cut := call (some limit) (oneShot expression traced)
      (OnBoundary limit (full.written .complaints) →
        Text.encode (cut.written .complaints) =
          (Text.encode (full.written .complaints)).take limit) ∧
      (limit < (Text.encode (full.written .complaints)).length → cut.written .answers = "") ∧
      ((Text.encode (full.written .complaints)).length ≤ limit →
        OnBoundary limit (full.written .answers) →
        Text.encode (cut.written .answers) = (Text.encode (full.written .answers)).take limit) ∧
      (cut.result = .writeFailed ↔ Overflows limit (oneShot expression traced).1) ∧
      (cut.result ≠ .writeFailed → cut = full) := by
  refine ⟨fun traced input => ?_, fun expression traced => ?_⟩
  · have hon : ∀ action ∈ (console traced input).1, action.WritesOn .answers :=
      writesOn_consoleFrom (List.forall_mem_nil _) _
    obtain ⟨hanswers, hresult⟩ := call_of_answers hon
    exact ⟨hanswers, hresult, call_eq_of_result⟩
  · obtain ⟨quiet, channel, text, hquiet, hactions⟩ := exists_oneShot_eq expression traced
    obtain ⟨hcomplaints, hempty, hanswers⟩ := call_of_last hquiet hactions
    exact ⟨hcomplaints, hempty, hanswers, result_call_iff, call_eq_of_result⟩

/-- The answer to a sum in the console is cut off behind its sign, and the trace of the same sum
in front of the end of its first line. -/
theorem call_cuts_at_fifteen :
    let console := console false (Text.encode "1+1\n")
    let traced := oneShot "1+1" true
    let plain := oneShot "1+1" false
    (OnBoundary 15 ((call none console).written .answers) ∧
      Text.encode ((call (some 15) console).written .answers) = Text.encode "Expression : = " ∧
      (call (some 15) console).result = .writeFailed) ∧
    (OnBoundary 15 ((call none traced).written .complaints) ∧
      Text.encode ((call (some 15) traced).written .complaints) = Text.encode "  entrée : 1+1" ∧
      15 < (Text.encode ((call none traced).written .complaints)).length ∧
      (call (some 15) traced).written .answers = "") ∧
    (Text.encode ((call none plain).written .complaints)).length ≤ 15 ∧
    OnBoundary 15 ((call none plain).written .answers) ∧
    Text.encode ((call (some 15) plain).written .answers) = Text.encode "2\n" ∧
    (call (some 15) plain).result ≠ .writeFailed ∧ call (some 15) plain = call none plain := by
  obtain ⟨hconsole, honeShot⟩ := call_cuts_at_limit 15
  obtain ⟨hconsole, hfailed, -⟩ := hconsole false (Text.encode "1+1\n")
  obtain ⟨htraced, hempty, -⟩ := honeShot "1+1" true
  obtain ⟨-, -, hplain, -, hsame⟩ := honeShot "1+1" false
  have hanswer :
      OnBoundary 15 ((call none (console false (Text.encode "1+1\n"))).written .answers) :=
    .inr (by decide +kernel)
  have hentry : OnBoundary 15 ((call none (oneShot "1+1" true)).written .complaints) :=
    .inr (by decide +kernel)
  have hvalue : OnBoundary 15 ((call none (oneShot "1+1" false)).written .answers) :=
    .inl (by decide +kernel)
  have hlong :
      15 < (Text.encode ((call none (oneShot "1+1" true)).written .complaints)).length := by
    decide +kernel
  have hquiet :
      (Text.encode ((call none (oneShot "1+1" false)).written .complaints)).length ≤ 15 := by
    decide +kernel
  have hwell : (call (some 15) (oneShot "1+1" false)).result ≠ .writeFailed := by decide +kernel
  refine ⟨⟨hanswer, (hconsole hanswer).trans ?_, hfailed.mpr ?_⟩,
    ⟨hentry, (htraced hentry).trans ?_, hlong, hempty hlong⟩, hquiet, hvalue,
    (hplain hquiet hvalue).trans ?_, hwell, hsame hwell⟩
  all_goals decide +kernel

end Calculator.Session
