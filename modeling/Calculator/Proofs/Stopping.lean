import Calculator.Proofs.Emitting
import Calculator.Proofs.Lexeme

/-!
# Where reading stops

What is read at a place of a text depends on the text behind it by one character at most,
and so a part of the text is read as the whole is, up to where it ends. A text that cannot
be read is therefore read up to the end of its longest beginning that has tokens. What is
announced is the place behind this beginning, and the character that stands there.
-/

namespace Calculator

open Number (Literal)

namespace Text

theorem mem_head?_of_prefix {part rest : List Char} (h : part <+: rest) :
    ∀ c ∈ part.head?, c ∈ rest.head? := by
  obtain ⟨tail, rfl⟩ := h
  intro c hc
  cases part with
  | nil => cases hc
  | cons d part => exact hc

end Text

namespace Number.Literal

theorem front?_eq_none_iff {negative : Bool} {text : List Char} :
    front? negative text = none ↔ ∃ behind, text.dropWhile Char.isDigit = '.' :: behind ∧
      ∀ d ∈ behind.head?, d.isDigit = false := by
  have hempty (rest : List Char) : (rest.takeWhile Char.isDigit).isEmpty = true ↔
      ∀ d ∈ rest.head?, d.isDigit = false := by
    cases rest with
    | nil => simp
    | cons d rest => cases hd : d.isDigit <;> simp [hd]
  unfold front?
  dsimp only
  split
  · next rest hrest =>
      rw [hrest, ite_eq_left_iff]
      simp [hempty]
  · next hpoint =>
      constructor
      · intro h
        cases h
      · rintro ⟨behind, hrest, -⟩
        exact (hpoint behind hrest).elim

end Number.Literal

namespace Lexeme

theorem Fits.of_prefix {signed : Bool} {rest part : List Char} {x : Lexeme}
    (hx : x.Fits signed rest) (h : part <+: rest) : x.Fits signed part := by
  have hhead := Text.mem_head?_of_prefix h
  cases x with
  | literal l => exact ⟨hx.1, hx.2.1, fun c hc => hx.2.2 c (hhead c hc)⟩
  | operator op => exact fun hop hsigned c hc => hx hop hsigned c (hhead c hc)
  | leftParen => exact fun c hc => hx c (hhead c hc)
  | rightParen => trivial
  | emptyGroup => trivial

end Lexeme

namespace Token

theorem Front.ofNumber_eq_barePoint_iff {negative : Bool} {c : Char} {text : List Char} {n : Nat}
    (hc : c.isDigit = true) :
    Front.ofNumber negative (c :: text) = .barePoint n ↔
      ∃ (l : Literal) (behind : List Char), l.negative = negative ∧ l.WellFormed ∧
        l.fraction = [] ∧ c :: text = l.digits ++ '.' :: behind ∧
          (∀ d ∈ behind.head?, d.isDigit = false) ∧ n = l.text.length + 1 := by
  have hlength (whole : List Char) : whole.length + 1 + (if negative then 1 else 0) =
      (Literal.text ⟨negative, whole, []⟩).length + 1 := by
    cases negative <;> simp [Literal.text]
  unfold Front.ofNumber
  constructor
  · intro h
    split at h
    · cases h
    · next hnone =>
        cases h
        obtain ⟨behind, hrest, hbehind⟩ := Literal.front?_eq_none_iff.mp hnone
        have hsplit := List.takeWhile_append_dropWhile (p := Char.isDigit) (l := c :: text)
        have hwhole : (c :: text).takeWhile Char.isDigit ≠ [] := by simp [hc]
        refine ⟨⟨negative, (c :: text).takeWhile Char.isDigit, []⟩, behind, rfl,
          ⟨hwhole, fun d hd => List.mem_takeWhile_imp hd, by simp⟩, rfl, ?_, hbehind, hlength _⟩
        rw [hrest] at hsplit
        simpa [Literal.digits] using hsplit.symm
  · rintro ⟨⟨_, whole, fraction⟩, behind, rfl, hl, rfl, htext, hbehind, rfl⟩
    have hpoint : ∀ d ∈ ('.' :: behind).head?, d.isDigit = false := by simp
    obtain ⟨htake, hdrop⟩ := Text.takeWhile_append_run hl.whole_digits hpoint
    rw [Literal.digits] at htext
    simp only [List.isEmpty_nil, if_true, List.append_nil] at htext
    dsimp only at htake hdrop
    rw [htext, Literal.front?_eq_none_iff.mpr ⟨behind, hdrop, hbehind⟩, htake, ← hlength]

theorem exists_literal_of_barePoint {signed : Bool} {c : Char} {text : List Char} {n : Nat}
    (h : front signed c text = .barePoint n) :
    ∃ (l : Literal) (behind : List Char), l.WellFormed ∧ l.fraction = [] ∧
      (l.negative = true → signed = true) ∧ c :: text = l.text ++ '.' :: behind ∧
        (∀ d ∈ behind.head?, d.isDigit = false) ∧ n = l.text.length + 1 := by
  rcases front_cases signed c text with ⟨x, rest, -, -, hfront⟩ |
    ⟨negative, d, tail, hd, hsign, htext, hfront⟩ | hstray
  · rw [hfront] at h
    cases h
  · rw [hfront] at h
    obtain ⟨l, behind, rfl, hl, hfraction, hdigits, hbehind, hn⟩ :=
      (Front.ofNumber_eq_barePoint_iff hd).mp h
    refine ⟨l, behind, hl, hfraction, hsign, ?_, hbehind, hn⟩
    rw [htext, hdigits, Literal.text_eq, List.append_assoc]
  · rw [hstray text] at h
    cases h

theorem front_barePoint {signed : Bool} {c : Char} {text behind : List Char} {l : Literal}
    (hl : l.WellFormed) (hfraction : l.fraction = []) (hsign : l.negative = true → signed = true)
    (hbehind : ∀ d ∈ behind.head?, d.isDigit = false) (htext : c :: text = l.text ++ '.' :: behind) :
    front signed c text = .barePoint (l.text.length + 1) := by
  obtain ⟨d, tail, hd, hdigits⟩ := hl.digits_eq_cons
  rw [front_literal hl hsign htext, hdigits]
  refine (Front.ofNumber_eq_barePoint_iff hd).mpr ⟨l, behind, rfl, hl, hfraction, ?_, hbehind, rfl⟩
  rw [hdigits]
  rfl

theorem stray_of_front {signed : Bool} {c d : Char} {text : List Char}
    (h : front signed c text = .stray d) : d = c ∧ ∀ rest, front signed c rest = .stray c := by
  rcases front_cases signed c text with ⟨x, rest, -, -, hfront⟩ |
    ⟨negative, e, tail, -, -, -, hfront⟩ | hstray
  · rw [hfront] at h
    cases h
  · rw [hfront] at h
    exact absurd h (Front.ofNumber_ne_stray negative (e :: tail) d)
  · rw [hstray text] at h
    exact ⟨(Front.stray.inj h).symm, hstray⟩

/-- A defect tells that reading stopped behind so many characters, in front of this one. -/
inductive StopsBehind : Nat → Char → Defect → Prop
  | stray (n : Nat) (c : Char) : StopsBehind n c (.strayCharacter n c)
  | barePoint (n : Nat) : StopsBehind n '.' (.barePoint (n + 1))

/-- A point that no digit follows is not read behind a literal, whatever else follows it. -/
theorem exists_error_of_barePoint {read : List Token} {part : List Char} {l : Literal}
    (hl : l.WellFormed) (hfraction : l.fraction = [])
    (hsign : l.negative = true → signAllowed read = true)
    (hpart : ∀ d ∈ part.head?, d.isDigit = false) (n : Nat) :
    ∃ defect, scanFrom n read (l.text ++ '.' :: part) = .error defect := by
  have hfits : (Lexeme.literal l).Fits (signAllowed read) [] :=
    ⟨hl, hsign, by simp [Literal.StopsAt]⟩
  obtain ⟨d, tail, hd⟩ := hfits.exists_cons
  rw [Lexeme.text] at hd
  have hfront : front (signAllowed read) d (tail ++ '.' :: part) = .barePoint (l.text.length + 1) :=
    front_barePoint hl hfraction hsign hpart (by rw [hd]; rfl)
  rw [hd, List.cons_append]
  exact ⟨_, scanFrom_of_barePoint hfront⟩

/-- The text is read up to the end of some lexemes, and no part of it that goes on is read. -/
theorem exists_stop_of_scanFrom {size : Nat} {read : List Token} {text : List Char}
    {defect : Defect} (hsize : text.length ≤ size) (h : scanFrom size read text = .error defect) :
    ∃ (xs : List Lexeme) (c : Char) (behind : List Char),
      Lexeme.Chain (signAllowed read) xs ∧ text = Lexeme.texts xs ++ c :: behind ∧
      StopsBehind (size - (behind.length + 1)) c defect ∧
      ∀ part, part <+: behind → ∀ n, ∃ other,
        scanFrom n read (Lexeme.texts xs ++ c :: part) = .error other := by
  -- A lexeme in front is read the same way before any part of the text behind it.
  fun_induction scanFrom size read text with
  | case1 read => cases h
  | case2 read c text t rest hfront ih =>
      obtain ⟨x, hx, htext, rfl⟩ := exists_lexeme_of_front hfront
      have hlt := length_lt_of_front hfront
      obtain ⟨xs, e, behind, hxs, rfl, hdefect, hstop⟩ := ih (by omega) h
      rw [signAllowed_cons] at hxs
      refine ⟨x :: xs, e, behind, ⟨hx.of_prefix (List.prefix_append _ _), hxs⟩, ?_, hdefect,
        fun part hpart n => ?_⟩
      · rw [htext, Lexeme.texts_cons, List.append_assoc]
      · have hfits : x.Fits (signAllowed read) (Lexeme.texts xs ++ e :: part) :=
          hx.of_prefix ((List.prefix_append_right_inj _).mpr (List.cons_prefix_cons.mpr ⟨rfl, hpart⟩))
        rw [Lexeme.texts_cons, List.append_assoc, scanFrom_lexeme hfits]
        exact hstop part hpart n
  | case3 read c text length hfront =>
      obtain ⟨l, behind, hl, hfraction, hsign, htext, hbehind, rfl⟩ :=
        exists_literal_of_barePoint hfront
      have htexts : Lexeme.texts [.literal l] = l.text := by simp [Lexeme.text]
      have hlength := congrArg List.length htext
      simp only [List.length_cons, List.length_append] at hlength hsize
      have hplace : size - (text.length + 1) + (l.text.length + 1) =
          size - (behind.length + 1) + 1 := by omega
      cases h
      -- What stands in front of the point is a lexeme of its own.
      rw [hplace]
      refine ⟨[.literal l], '.', behind, ⟨⟨hl, hsign, by simp [Literal.StopsAt]⟩, trivial⟩,
        by rw [htext, htexts], .barePoint _, fun part hpart n => ?_⟩
      rw [htexts]
      exact exists_error_of_barePoint hl hfraction hsign
        (fun d hd => hbehind d (Text.mem_head?_of_prefix hpart d hd)) n
  | case4 read c text d hfront =>
      obtain ⟨rfl, hstray⟩ := stray_of_front hfront
      cases h
      exact ⟨[], d, text, trivial, rfl, .stray _ _, fun part _ n => ⟨_, scanFrom_of_stray (hstray part)⟩⟩

/-- A text that cannot be read is announced by one event. The place in it is that behind the
longest beginning of the text that has tokens, or one behind it at a bare point, and the
character behind this beginning is the one announced, or the point. -/
theorem scan_stops_behind_longest {text : String} {defect : Defect}
    (h : scan text = .error defect) :
    ∃ (kept : List Char) (c : Char) (behind : List Char), text.toList = kept ++ c :: behind ∧
      ((defect = .strayCharacter kept.length c) ∨
        (defect = .barePoint (kept.length + 1) ∧ c = '.')) ∧
      (∃ tokens, scan (String.ofList kept) = .ok tokens) ∧
      (∀ longer : String, longer.toList <+: text.toList → kept.length < longer.toList.length →
        ∃ other, scan longer = .error other) ∧
      (∀ before : List Event, (announceScan text).run.run before =
        pure (.error .invalidExpression, .defectFound defect :: before)) ∧
      (isValid text = true → ∀ before : List Event, (announceStages text).run.run before =
        pure (.error .invalidExpression, .defectFound defect :: before)) := by
  obtain ⟨xs, c, behind, hxs, htext, hdefect, hstop⟩ := exists_stop_of_scanFrom (Nat.le_refl _) h
  have hlength : text.toList.length - (behind.length + 1) = (Lexeme.texts xs).length := by
    rw [htext, List.length_append, List.length_cons]
    omega
  rw [hlength] at hdefect
  refine ⟨Lexeme.texts xs, c, behind, htext, ?_, ?_, fun longer hlonger hlt => ?_,
    fun before => ?_, fun hvalid before => ?_⟩
  · generalize (Lexeme.texts xs).length = n at hdefect
    cases hdefect with
    | stray => exact .inl rfl
    | barePoint => exact .inr ⟨rfl, rfl⟩
  · exact ⟨_, scan_eq_ok_iff.mpr ⟨xs, hxs, String.toList_ofList, rfl⟩⟩
  · -- Both `longer` and what is kept with the next character begin the text.
    have hnext : Lexeme.texts xs ++ [c] <+: text.toList := ⟨behind, by rw [htext]; simp⟩
    have hle : (Lexeme.texts xs ++ [c]).length ≤ longer.toList.length := by
      rw [List.length_append, List.length_singleton]
      omega
    obtain ⟨part, hpart⟩ := List.prefix_of_prefix_length_le hnext hlonger hle
    rw [List.append_assoc, List.singleton_append] at hpart
    rw [htext, ← hpart, List.prefix_append_right_inj, List.cons_prefix_cons] at hlonger
    rw [scan, ← hpart]
    exact hstop part hlonger.2 _
  · rw [run_announceScan, h]
  · exact (Progress.OfEntry.checked hvalid h).run_announceStages before

/-- The sign and the digits in front of a point without digits are read, and the point is not. -/
theorem scan_stops_behind_longest_sign :
    scan "2*-15.+3" = .error (.barePoint 6) ∧
      ∃ (kept : List Char) (c : Char) (behind : List Char), "2*-15.+3".toList = kept ++ c :: behind ∧
        kept.length = 5 ∧ c = '.' ∧ (∃ tokens, scan (String.ofList kept) = .ok tokens) ∧
        (announceStages "2*-15.+3").run.run [] =
          pure (.error .invalidExpression, [.defectFound (.barePoint 6)]) := by
  have hscan : scan "2*-15.+3" = .error (.barePoint 6) := by decide +kernel
  have hvalid : isValid "2*-15.+3" = true := by decide +kernel
  obtain ⟨kept, c, behind, htext, hdefect, hkept, -, -, hevents⟩ := scan_stops_behind_longest hscan
  rcases hdefect with hstray | ⟨hpoint, hc⟩
  · cases hstray
  · have hlength := Nat.succ.inj (Defect.barePoint.inj hpoint)
    exact ⟨hscan, kept, c, behind, htext, hlength.symm, hc, hkept, hevents hvalid []⟩

end Token

end Calculator
