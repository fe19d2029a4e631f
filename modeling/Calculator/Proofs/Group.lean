import Calculator.Proofs.Outcome
import Calculator.Proofs.Splitting

/-!
# Groups and what stands around them

A parenthesised expression that has a value is read, converted and calculated in
one piece: its tokens do not depend on the text around it, its list in reverse
Polish notation stands unbroken in the list of the whole, and the calculation
puts its value on the stack and changes nothing else. So the text around it, well
formed or not, knows the expression by its value alone.
-/

namespace Calculator

namespace Token

/-- The text can be put into parentheses: neither parenthesis forms a lexeme with a
character of the text. -/
structure Enclosable (text : List Char) : Prop where
  ne_nil : text ≠ []
  head : text.head? ≠ some ')'
  last : text.getLast? ≠ some '('

/-- What is scanned does not depend on the tokens before it, if a minus sign may be a
sign at its start. -/
theorem scanFrom_of_scan {size n : Nat} {text : List Char} {tokens read : List Token}
    (h : scanFrom n [] text = .ok tokens) (hread : signAllowed read = true) :
    scanFrom size read text = .ok (read.reverse ++ tokens) := by
  obtain ⟨xs, hxs, rfl, rfl⟩ := exists_chain_of_scanFrom h
  exact scanFrom_chain (by rwa [hread])

theorem scanFrom_closing {text : List Char} {tokens read : List Token} (hlast : text.getLast? ≠ some '(')
    (h : scanFrom text.length [] text = .ok tokens) (hread : signAllowed read = true) (n : Nat)
    (behind : List Char) :
    scanFrom (n + (')' :: behind).length) read (text ++ ')' :: behind) =
      scanFrom (n + (')' :: behind).length) (.rightParen :: (tokens.reverse ++ read)) behind := by
  have hclose : ')' = ')' → text.getLast? ≠ some '(' := fun _ => hlast
  rw [scanFrom_append (by decide) (by decide) hclose, scanFrom_of_scan h hread]
  dsimp only
  rw [List.reverse_append, List.reverse_reverse]
  exact scanFrom_of_token rfl

theorem scanFrom_group {before text : List Char} {tokens : List Token} (htext : Enclosable text)
    (h : scanFrom text.length [] text = .ok tokens) (behind : List Char) :
    scanFrom (before.length + ('(' :: (text ++ ')' :: behind)).length) []
        (before ++ '(' :: (text ++ ')' :: behind)) =
      match scanFrom before.length [] before with
      | .ok first =>
        scanFrom (before.length + ('(' :: (text ++ ')' :: behind)).length)
          (.rightParen :: (tokens.reverse ++ .leftParen :: first.reverse)) behind
      | .error defect => .error defect := by
  have hopen : '(' = ')' → before.getLast? ≠ some '(' := fun h => absurd h (by decide)
  rw [scanFrom_append (by decide) (by decide) hopen]
  cases scanFrom before.length [] before with
  | error defect => rfl
  | ok first =>
      have hsize : before.length + ('(' :: (text ++ ')' :: behind)).length =
          before.length + 1 + text.length + (')' :: behind).length := by
        simp only [List.length_cons, List.length_append]
        omega
      have hfits : Lexeme.leftParen.Fits (signAllowed first.reverse) (text ++ ')' :: behind) := by
        obtain ⟨c, tail, hc⟩ := List.exists_cons_of_ne_nil htext.ne_nil
        rintro d hd rfl
        apply htext.head
        simpa [hc] using hd
      dsimp only
      rw [hsize]
      exact (scanFrom_lexeme hfits).trans (scanFrom_closing htext.last h rfl _ behind)

theorem scan_parenthesised (u s w : String) :
    scan (u ++ "(" ++ s ++ ")" ++ w) =
      scanFrom (u.toList.length + ('(' :: (s.toList ++ ')' :: w.toList)).length) []
        (u.toList ++ '(' :: (s.toList ++ ')' :: w.toList)) := by
  have htext : (u ++ "(" ++ s ++ ")" ++ w).toList =
      u.toList ++ '(' :: (s.toList ++ ')' :: w.toList) := by simp
  rw [scan, htext, List.length_append]

/-- The tokens of a text in parentheses stand between the same tokens whatever the
text is, or there are never any. -/
theorem scan_group (u w : String) :
    (∃ before behind, ∀ (s : String) (tokens : List Token), Enclosable s.toList →
        scan s = .ok tokens →
        scan (u ++ "(" ++ s ++ ")" ++ w) =
          .ok (before ++ .leftParen :: tokens ++ .rightParen :: behind)) ∨
      ∀ (s : String) (tokens : List Token), Enclosable s.toList → scan s = .ok tokens →
        ∃ defect, scan (u ++ "(" ++ s ++ ")" ++ w) = .error defect := by
  cases hu : scanFrom u.toList.length [] u.toList with
  | error defect =>
      refine .inr fun s tokens hs hscan => ⟨defect, ?_⟩
      rw [scan_parenthesised, scanFrom_group hs hscan, hu]
  | ok before =>
      by_cases hw : ∃ xs : List Lexeme, Lexeme.Chain false xs ∧ w.toList = Lexeme.texts xs
      · obtain ⟨xs, hxs, hw⟩ := hw
        refine .inl ⟨before, xs.map Lexeme.token, fun s tokens hs hscan => ?_⟩
        rw [scan_parenthesised, scanFrom_group hs hscan, hu]
        dsimp only
        rw [hw, scanFrom_chain (by exact hxs)]
        simp
      · refine .inr fun s tokens hs hscan => ?_
        rw [scan_parenthesised, scanFrom_group hs hscan, hu]
        dsimp only
        cases hrest : scanFrom _ _ w.toList with
        | error defect => exact ⟨defect, rfl⟩
        | ok all =>
            obtain ⟨xs, hxs, hchain, -⟩ := exists_chain_of_scanFrom hrest
            exact (hw ⟨xs, hxs, hchain⟩).elim

end Token

namespace Rpn

/-- The list of a group stands unbroken in the list of the whole. -/
theorem ofTokens_group {tokens rpn : List Token} (h : ofTokens tokens = .ok rpn)
    (before behind : List Token) :
    ofTokens (before ++ .leftParen :: tokens ++ .rightParen :: behind) =
      match Conversion.start.run before with
      | .ok c => (convert ⟨[], c.pending⟩ behind).map (c.output.reverse ++ rpn ++ ·)
      | .error defect => .error defect := by
  have hsplit : before ++ .leftParen :: tokens ++ .rightParen :: behind =
      before ++ ((.leftParen :: tokens ++ [.rightParen]) ++ behind) := by simp
  rw [ofTokens_eq_convert, hsplit]
  cases hr : Conversion.start.run before with
  | error defect => rw [convert, Conversion.run_append_of_error hr]
  | ok c =>
      rw [convert, Conversion.run_append_of_ok hr,
        Conversion.run_append_of_ok (Conversion.run_group h c)]
      have honto := convert_onto ⟨[], c.pending⟩ (rpn.reverse ++ c.output) behind
      simpa [convert, Conversion.onto] using honto

/-- Two groups of the same value are worth the same to the tokens around them. -/
theorem outcome_group_congr {tokens tokens' : List Token} {v : Float}
    (h : Token.outcome tokens = .ok v) (h' : Token.outcome tokens' = .ok v)
    (before behind : List Token) :
    Token.outcome (before ++ .leftParen :: tokens ++ .rightParen :: behind) =
      Token.outcome (before ++ .leftParen :: tokens' ++ .rightParen :: behind) := by
  obtain ⟨rpn, hrpn, hv⟩ := Token.outcome_eq_ok_iff.mp h
  obtain ⟨rpn', hrpn', hv'⟩ := Token.outcome_eq_ok_iff.mp h'
  rw [value_eq_valueFrom] at hv hv'
  rw [Token.outcome, Token.outcome, ofTokens_group hrpn, ofTokens_group hrpn']
  cases Conversion.start.run before with
  | error defect => rfl
  | ok c =>
      dsimp only
      cases convert ⟨[], c.pending⟩ behind with
      | error defect => rfl
      | ok last =>
          have hlast (stack : List Float) :
              valueFrom stack (rpn ++ last) = valueFrom stack (rpn' ++ last) :=
            (valueFrom_append hv stack last).trans (valueFrom_append hv' stack last).symm
          have hvalue : value (c.output.reverse ++ rpn ++ last) =
              value (c.output.reverse ++ rpn' ++ last) := by
            simp only [value_eq_valueFrom, List.append_assoc]
            exact valueFrom_append_congr hlast _ _
          simp only [Except.map, hvalue]

theorem not_nested_append_leftParen (depth : Nat) (tokens : List Token) :
    ¬ Nested depth (tokens ++ [.leftParen]) := by
  induction tokens generalizing depth with
  | nil => simp [Nested]
  | cons t tokens ih =>
      cases t with
      | number value => exact ih depth
      | operator op => exact ih depth
      | leftParen => exact ih (depth + 1)
      | rightParen => exact fun h => ih (depth - 1) h.2
      | emptyGroup => exact id

end Rpn

namespace Token

theorem enclosable_of_nested {text : String} {tokens : List Token} (h : scan text = .ok tokens)
    (hnested : Rpn.Nested 0 tokens) (hne : tokens ≠ []) : Enclosable text.toList := by
  obtain ⟨xs, hxs, htext, rfl⟩ := scan_eq_ok_iff.mp h
  rw [htext]
  have hxsne : xs ≠ [] := by
    rintro rfl
    exact hne rfl
  constructor
  · intro hnil
    obtain ⟨x, xs, rfl⟩ := List.exists_cons_of_ne_nil hxsne
    obtain ⟨c, tail, hc⟩ := hxs.1.exists_cons
    simp [hc] at hnil
  · intro hhead
    obtain ⟨x, xs, rfl⟩ := List.exists_cons_of_ne_nil hxsne
    obtain ⟨c, tail, hc⟩ := hxs.1.exists_cons
    have hx : x.text.head? = some ')' := by simpa [hc] using hhead
    have hright := hxs.1.eq_rightParen hx
    subst hright
    exact Nat.lt_irrefl 0 hnested.1
  · intro hlast
    obtain ⟨ys, y, rfl⟩ := (List.eq_nil_or_concat' xs).resolve_left hxsne
    obtain ⟨signed, hy⟩ := hxs.fits
    obtain ⟨c, tail, hc⟩ := hy.exists_cons
    have hyl : y.text.getLast? = some '(' := by
      rw [Lexeme.texts_append, Lexeme.texts_cons, Lexeme.texts_nil, List.append_nil,
        List.getLast?_append, hc, List.getLast?_cons] at hlast
      rw [hc, List.getLast?_cons]
      simpa using hlast
    have hleft := hy.eq_leftParen hyl
    subst hleft
    rw [List.map_append] at hnested
    exact Rpn.not_nested_append_leftParen 0 _ hnested

end Token

/-- A parenthesised expression matters to the text around it by its value only, also
where that text is malformed and where the outcome is a failure. -/
theorem evaluate_group_congr {s s' : String} {v : Float} (h : evaluate s = .ok v)
    (h' : evaluate s' = .ok v) (u w : String) :
    evaluate (u ++ "(" ++ s ++ ")" ++ w) = evaluate (u ++ "(" ++ s' ++ ")" ++ w) := by
  have hopen : Text.strip "(" = "(" := by decide +kernel
  have hclose : Text.strip ")" = ")" := by decide +kernel
  have houtcome {r : String} (hr : evaluate r = .ok v) :
      ∃ tokens, Token.scan (Text.strip r) = .ok tokens ∧ Token.outcome tokens = .ok v ∧
        Token.Enclosable (Text.strip r).toList := by
    obtain ⟨tokens, rpn, hscan, hrpn, hv⟩ := evaluate_eq_ok_iff.mp hr
    have hnested := (Rpn.exists_ofTokens_iff tokens).mp ⟨rpn, hrpn⟩
    refine ⟨tokens, hscan, Token.outcome_eq_ok_iff.mpr ⟨rpn, hrpn, hv⟩,
      Token.enclosable_of_nested hscan hnested ?_⟩
    rintro rfl
    cases hrpn
    cases hv
  obtain ⟨tokens, hscan, hv, htext⟩ := houtcome h
  obtain ⟨tokens', hscan', hv', htext'⟩ := houtcome h'
  simp only [evaluate_eq, Text.strip_append, hopen, hclose]
  rcases Token.scan_group (Text.strip u) (Text.strip w) with ⟨before, behind, hok⟩ | herror
  · rw [hok _ _ htext hscan, hok _ _ htext' hscan']
    exact Rpn.outcome_group_congr hv hv' before behind
  · obtain ⟨defect, hd⟩ := herror _ _ htext hscan
    obtain ⟨defect', hd'⟩ := herror _ _ htext' hscan'
    rw [hd, hd']

/-- A group stands for its value also between an operator that waits for it and a
division by zero behind it. -/
theorem evaluate_group_one_plus_two :
    evaluate "1+2" = .ok 3 ∧ evaluate "(1)(2)+" = .ok 3 ∧
      evaluate ("2*" ++ "(" ++ "1+2" ++ ")" ++ "/0") =
        evaluate ("2*" ++ "(" ++ "(1)(2)+" ++ ")" ++ "/0") := by
  have h : evaluate "1+2" = .ok 3 := by decide +kernel
  have h' : evaluate "(1)(2)+" = .ok 3 := by decide +kernel
  exact ⟨h, h', evaluate_group_congr h h' "2*" "/0"⟩

end Calculator
