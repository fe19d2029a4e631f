import Calculator.Proofs.Json.Numerals
import Calculator.Proofs.Rendering
import Calculator.Proofs.Service

/-!
# Numbers in the answers of the service

A served value is written in JSON, which has no numbers for infinities and undefined values. An
answer to a calculation therefore holds a number exactly where the value is finite, and a literal
beyond the doubles is answered without one.
-/

namespace Calculator

open Number (Literal)

namespace Json

/-- A character that is its own spelling. -/
def isPlain (c : Char) : Bool :=
  ' ' ≤ c && c ≠ '"' && c ≠ '\\'

theorem spells_plain {text : List Char} (h : text.all isPlain = true) :
    Spells (Text.bytes text) text := by
  induction text with
  | nil => exact .nil
  | cons c text ih =>
      rw [List.all_cons, Bool.and_eq_true] at h
      obtain ⟨hc, htext⟩ := h
      simp only [isPlain, Bool.and_eq_true, decide_eq_true_eq] at hc
      exact .raw hc.1.1 hc.1.2 hc.2 (ih htext)

/-- The body of an expression without blanks, other members and escapes. -/
def plainBody (text : List Char) : List UInt8 :=
  Text.bytes ("\x7b\"expression\":\"".toList ++ (text ++ "\"\x7d".toList))

theorem body_plainBody {text : List Char} (h : text.all isPlain = true) :
    Body (plainBody text) (String.ofList text) := by
  have hkey : Quoted (quote :: (Text.bytes expressionKey.toList ++ [quote])) expressionKey :=
    .mk (spells_plain (by decide +kernel))
  have hvalue : Quoted (quote :: (Text.bytes text ++ [quote])) (String.ofList text) := by
    refine .mk ?_
    rw [String.toList_ofList]
    exact spells_plain h
  obtain ⟨m, hm⟩ : ∃ m : Member, m = ⟨expressionKey, quote :: (Text.bytes text ++ [quote])⟩ :=
    ⟨_, rfl⟩
  have hmember : m.Writes ([] ++ ((quote :: (Text.bytes expressionKey.toList ++ [quote])) ++
      ([] ++ colon :: ([] ++ m.value)))) := by
    refine .mk blanks_nil ?_ blanks_nil blanks_nil
    rw [hm]
    exact hkey
  have hasks : Asks [m] (String.ofList text) :=
    ⟨[], m, [], rfl, by rw [hm], by rwa [hm], by simp⟩
  have hbody := Body.object blanks_nil (.one hmember) hasks blanks_nil blanks_nil
  have hopening : Text.bytes "\x7b\"expression\":\"".toList = Container.object.opening :: quote ::
      (Text.bytes expressionKey.toList ++ [quote, colon, quote]) := by decide +kernel
  have hclosing : Text.bytes "\"\x7d".toList = [quote, Container.object.closing] := by decide +kernel
  have hplain : plainBody text = Text.bytes "\x7b\"expression\":\"".toList ++
      (Text.bytes text ++ Text.bytes "\"\x7d".toList) := by
    rw [plainBody, Text.bytes, List.flatMap_append, List.flatMap_append]
    rfl
  rw [hplain, hopening, hclosing]
  simpa [hm] using hbody

end Json

namespace Service

theorem response_plainBody {text : List Char} (h : text.all Json.isPlain = true)
    (hlength : (Json.plainBody text).length ≤ bodyLimit) :
    (respond ⟨method, servicePath, Json.plainBody text⟩).response =
      .ofOutcome (evaluate (String.ofList text)) :=
  response_body hlength (Json.body_plainBody h)

/-- The answer to a calculation, with a number as its result. -/
def Response.HasNumber (r : Response) : Prop :=
  ∃ text v, Json.Numeral text v ∧ r = .json 200 "result" (String.ofList text)

theorem Response.json_injective {status : Nat} {key value value' : String}
    (h : json status key value = json status key value') : value = value' := by
  have hbody := congrArg (fun r => r.body.toList) h
  simp only [json, String.toList_append] at hbody
  exact String.toList_inj.mp (List.append_cancel_left (List.append_cancel_right hbody))

theorem Response.hasNumber_json_iff {value : String} :
    (json 200 "result" value).HasNumber ↔ ∃ v, Json.Numeral value.toList v := by
  constructor
  · rintro ⟨text, v, hnumeral, h⟩
    rw [json_injective h, String.toList_ofList]
    exact ⟨v, hnumeral⟩
  · rintro ⟨v, hnumeral⟩
    exact ⟨value.toList, v, hnumeral, by rw [String.ofList_toList]⟩

/-- A calculation that succeeds is the only thing that is answered with this status. -/
theorem exists_value_of_status {request : Request} (h : (respond request).response.status = 200) :
    ∃ s v, Json.Body request.body s ∧ evaluate s = .ok v ∧
      (respond request).response = .json 200 "result" (Number.json.write v) := by
  unfold respond at h ⊢
  split at h
  · cases h
  · next hpath =>
      split at h
      · cases h
      · next hmethod =>
          split at h
          · cases h
          · next hlength =>
              rw [if_neg hpath, if_neg hmethod, if_neg hlength]
              split at h
              · cases h
              · next s hread =>
                  rw [response_calculate] at h ⊢
                  obtain ⟨v, hv⟩ := (Response.ofOutcome_separates _).2.1.mp h
                  exact ⟨s, v, Json.expression?_eq_some_iff.mp hread, hv, by rw [hv]; rfl⟩

/-- An answer with this status holds a number exactly where the expression that was asked about
has a finite value. -/
theorem respond_hasNumber_iff {request : Request}
    (h : (respond request).response.status = 200) :
    ∃ s v, Json.Body request.body s ∧ evaluate s = .ok v ∧
      ((respond request).response.HasNumber ↔ v.isFinite = true) ∧
      (v.isFinite = false → (respond request).response = .json 200 "result" "null") := by
  obtain ⟨s, v, hbody, hv, hresponse⟩ := exists_value_of_status h
  refine ⟨s, v, hbody, hv, ?_, fun hinfinite => ?_⟩
  · rw [hresponse, Response.hasNumber_json_iff, Json.exists_numeral_write_iff]
  · rw [hresponse, Json.write_of_not_isFinite hinfinite]

theorem respond_hasNumber_sum :
    (respond ⟨"POST", "/api/v1/calculate", Json.plainBody "1+1".toList⟩).response.status = 200 ∧
    (respond ⟨"POST", "/api/v1/calculate", Json.plainBody "1+1".toList⟩).response.HasNumber := by
  have hplain : "1+1".toList.all Json.isPlain = true := by decide +kernel
  have hvalue : evaluate (String.ofList "1+1".toList) = .ok 2 := by decide +kernel
  have hstatus : (respond ⟨"POST", "/api/v1/calculate",
      Json.plainBody "1+1".toList⟩).response.status = 200 := by
    have hresponse := response_plainBody hplain (by decide +kernel)
    rw [hvalue, method, servicePath] at hresponse
    rw [hresponse]
    rfl
  obtain ⟨s, v, hbody, hv, hnumber, -⟩ := respond_hasNumber_iff hstatus
  obtain rfl : String.ofList "1+1".toList = s :=
    Option.some.inj ((Json.body_plainBody hplain).expression?.symm.trans hbody.expression?)
  obtain rfl : 2 = v := Except.ok.inj (hvalue.symm.trans hv)
  exact ⟨hstatus, hnumber.mpr (by decide +kernel)⟩

end Service

theorem Text.Spaced.refl (text : List Char) : Spaced text text := by
  induction text with
  | nil => exact .nil
  | cons c text ih => exact .keep c ih

theorem strip_literal {l : Literal} (hl : l.WellFormed) :
    Text.strip (String.ofList l.text) = String.ofList l.text := by
  have hderives : Derives .factor l.text (.leaf l) := .literal hl
  rw [← String.toList_inj, String.toList_ofList]
  apply hderives.toList_strip
  rw [String.toList_ofList]
  exact .refl _

theorem evaluate_literal {l : Literal} (hl : l.WellFormed) :
    evaluate (String.ofList l.text) = .ok l.value := by
  have hderives : Derives .factor l.text (.leaf l) := .literal hl
  exact Derives.evaluate (p := .factor) (by rwa [strip_literal hl, String.toList_ofList])

namespace Service

/-- A one with 309 zeros behind it. -/
def longLiteral : Literal :=
  ⟨false, ['1'] ++ List.replicate 309 '0', []⟩

theorem wellFormed_longLiteral : longLiteral.WellFormed := by
  refine ⟨List.append_ne_nil_of_left_ne_nil (List.cons_ne_nil _ _) _, fun c hc => ?_, nofun⟩
  rcases List.mem_append.mp hc with hc | hc
  · rw [List.mem_singleton.mp hc]
    decide
  · exact Number.isDigit_of_mem_zeros hc

theorem isFinite_longLiteral : longLiteral.value.isFinite = false := by
  have hnumerator : longLiteral.numerator = 10 ^ 309 := by
    rw [longLiteral, Literal.numerator, List.append_nil, Number.ofDigits_append_zeros]
    decide +kernel
  have hpattern : Number.pattern longLiteral.value = Number.infinity := by
    rw [Literal.value, hnumerator, Number.pattern_ofPattern _ (Number.nearest_le_infinity _ _)]
    decide +kernel
  rw [← Bool.not_eq_true, Number.isFinite_iff, hpattern]
  exact Nat.lt_irrefl _

/-- A literal beyond the doubles is answered without a number. -/
theorem respond_longLiteral :
    (respond ⟨"POST", "/api/v1/calculate", Json.plainBody longLiteral.text⟩).response =
      .json 200 "result" "null" ∧
    ¬ (respond ⟨"POST", "/api/v1/calculate", Json.plainBody longLiteral.text⟩).response.HasNumber := by
  have hplain : longLiteral.text.all Json.isPlain = true := by decide +kernel
  have hresponse := response_plainBody hplain (by decide +kernel)
  rw [evaluate_literal wellFormed_longLiteral, Response.ofOutcome,
    Json.write_of_not_isFinite isFinite_longLiteral, method, servicePath] at hresponse
  rw [hresponse, Response.hasNumber_json_iff, not_exists]
  exact ⟨rfl, Json.not_numeral_null⟩

end Service

end Calculator
