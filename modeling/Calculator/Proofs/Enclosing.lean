import Calculator.Proofs.Balance
import Calculator.Proofs.Group
import Calculator.Proofs.Slices

/-!
# Parentheses around an expression

An expression whose own parentheses are balanced may be put into parentheses, and one
that is in parentheses may be put into a second pair, whether it is well formed or not
and whatever stands around it. Its tokens are the same in each place, or it has none in
either; a conversion puts out the same list for it, or finds the same empty group.
-/

namespace Calculator

namespace Text

theorem MaximalRun.between {p : Char → Bool} {run text : List Char} (h : MaximalRun p run text)
    {c d : Char} (hc : p c = false) (hd : p d = false) (front rest : List Char) :
    MaximalRun p run (front ++ c :: (text ++ d :: rest)) := by
  obtain ⟨hne, hrun, before, behind, htext, hbefore, hbehind⟩ := h
  refine ⟨hne, hrun, front ++ c :: before, behind ++ d :: rest, by simp [htext],
    forall_getLast?_of_cons hc hbefore front, fun e he => ?_⟩
  cases behind with
  | nil =>
      cases he
      exact hd
  | cons b behind => exact hbehind e he

end Text

namespace Lexeme

theorem Chain.nested_of_balanced {signed : Bool} {depth : Nat} {xs : List Lexeme}
    (h : Chain signed xs) (hbalanced : Balanced '(' ')' depth (texts xs))
    (hempty : .emptyGroup ∉ xs.map token) : Rpn.Nested depth (xs.map token) := by
  have hne : '(' ≠ ')' := by decide
  induction xs generalizing signed depth with
  | nil => exact Balanced.nil_iff.mp hbalanced
  | cons x xs ih =>
      obtain ⟨hx, hxs⟩ := h
      have hempty' : .emptyGroup ∉ xs.map token := fun he => hempty (List.mem_cons_of_mem _ he)
      rw [texts_cons] at hbalanced
      cases x with
      | literal l =>
          exact ih hxs ((Balanced.append_iff hx.1.no_parens).mp hbalanced) hempty'
      | operator op =>
          exact ih hxs ((Balanced.cons_iff op.symbol_ne_paren.1 op.symbol_ne_paren.2).mp hbalanced)
            hempty'
      | leftParen => exact ih hxs ((Balanced.left_cons_iff hne).mp hbalanced) hempty'
      | rightParen =>
          obtain ⟨hdepth, hrest⟩ := (Balanced.right_cons_iff hne).mp hbalanced
          exact ⟨hdepth, ih hxs hrest hempty'⟩
      | emptyGroup => exact (hempty (by simp [token])).elim

end Lexeme

namespace Token

theorem enclosable_of_balanced {text : List Char} (h : Balanced '(' ')' 0 text) (hne : text ≠ []) :
    Enclosable text where
  ne_nil := hne
  head := by
    intro hhead
    obtain ⟨tail, htail⟩ := List.head?_eq_some_iff.mp hhead
    rw [htail, Balanced.right_cons_iff (by decide)] at h
    exact Nat.lt_irrefl 0 h.1
  last := by
    intro hlast
    obtain ⟨front, hfront⟩ := List.getLast?_eq_some_iff.mp hlast
    have hle := h.prefix_le front ⟨['('], hfront.symm⟩
    have hcount := h.count_eq
    rw [hfront, List.count_append, List.count_append] at hcount
    simp at hcount
    omega

theorem enclosable_enclosed (text : String) : Enclosable ("(" ++ text ++ ")").toList where
  ne_nil := by simp
  head := by simp
  last := by
    have htext : ("(" ++ text ++ ")").toList = '(' :: text.toList ++ [')'] := by simp
    rw [htext, List.getLast?_concat]
    simp

theorem exists_scan_of_parenthesised {u s w : String} {tokens : List Token}
    (h : scan (u ++ "(" ++ s ++ ")" ++ w) = .ok tokens) : ∃ inner, scan s = .ok inner := by
  have htext : (u ++ "(" ++ s ++ ")" ++ w).toList =
      u.toList ++ '(' :: (s.toList ++ ')' :: w.toList) := by simp
  obtain ⟨hallowed, hruns⟩ := (exists_scan_iff _).mp ⟨tokens, h⟩
  rw [htext] at hallowed hruns
  refine (exists_scan_iff s).mpr ⟨fun c hc => hallowed c (by simp [hc]), fun run hrun => ?_⟩
  exact hruns run (hrun.between (by decide) (by decide) _ _)

theorem scan_enclosed {text : String} {tokens : List Token} (htext : Enclosable text.toList)
    (h : scan text = .ok tokens) :
    scan ("(" ++ text ++ ")") = .ok (.leftParen :: tokens ++ [.rightParen]) := by
  have hparts := scan_parenthesised "" text ""
  simp only [String.empty_append, String.append_empty] at hparts
  rw [hparts, scanFrom_group htext h]
  simp [scanFrom]

end Token

namespace Rpn

theorem ofTokens_enclosed {tokens rpn : List Token} (h : ofTokens tokens = .ok rpn) :
    ofTokens (.leftParen :: tokens ++ [.rightParen]) = .ok rpn := by
  rw [ofTokens_eq_convert, convert, Conversion.run_group h Conversion.start]
  simp [Conversion.finish, Conversion.start]

end Rpn

namespace Token

theorem outcome_of_emptyGroup {tokens : List Token} (h : .emptyGroup ∈ tokens) :
    outcome tokens = .error .invalidExpression := by
  rw [outcome]
  cases hrpn : Rpn.ofTokens tokens with
  | error defect => rfl
  | ok rpn =>
      have hnested := (Rpn.exists_ofTokens_iff tokens).mp ⟨rpn, hrpn⟩
      exact ((Rpn.nested_iff_balanced.mp hnested).1 h).elim

/-- The list of a group is all that the tokens around it see of it. -/
theorem outcome_group_of_ofTokens {tokens tokens' rpn : List Token}
    (h : Rpn.ofTokens tokens = .ok rpn) (h' : Rpn.ofTokens tokens' = .ok rpn)
    (before behind : List Token) :
    outcome (before ++ .leftParen :: tokens ++ .rightParen :: behind) =
      outcome (before ++ .leftParen :: tokens' ++ .rightParen :: behind) := by
  rw [outcome, outcome, Rpn.ofTokens_group h, Rpn.ofTokens_group h']

/-- The tokens of a text with balanced parentheses can be converted, but for empty groups. -/
theorem emptyGroup_mem_or_exists_ofTokens {text : String} {tokens : List Token}
    (hbalanced : Balanced '(' ')' 0 text.toList) (h : scan text = .ok tokens) :
    .emptyGroup ∈ tokens ∨ ∃ rpn, Rpn.ofTokens tokens = .ok rpn := by
  obtain ⟨xs, hxs, htext, htokens⟩ := scan_eq_ok_iff.mp h
  rw [htext] at hbalanced
  rw [htokens]
  by_cases hempty : .emptyGroup ∈ xs.map Lexeme.token
  · exact .inl hempty
  · exact .inr ((Rpn.exists_ofTokens_iff _).mpr (hxs.nested_of_balanced hbalanced hempty))

theorem outcome_enclosed {text : String} {tokens : List Token}
    (hbalanced : Balanced '(' ')' 0 text.toList) (h : scan text = .ok tokens) :
    outcome (.leftParen :: tokens ++ [.rightParen]) = outcome tokens := by
  rcases emptyGroup_mem_or_exists_ofTokens hbalanced h with hempty | ⟨rpn, hrpn⟩
  · rw [outcome_of_emptyGroup hempty, outcome_of_emptyGroup (by simp [hempty])]
  · rw [outcome, outcome, hrpn, Rpn.ofTokens_enclosed hrpn]

theorem outcome_enclosed_twice {text : String} {tokens : List Token}
    (hbalanced : Balanced '(' ')' 0 text.toList) (h : scan text = .ok tokens)
    (before behind : List Token) :
    outcome (before ++ .leftParen :: (.leftParen :: tokens ++ [.rightParen]) ++
        .rightParen :: behind) =
      outcome (before ++ .leftParen :: tokens ++ .rightParen :: behind) := by
  rcases emptyGroup_mem_or_exists_ofTokens hbalanced h with hempty | ⟨rpn, hrpn⟩
  · rw [outcome_of_emptyGroup (by simp [hempty]), outcome_of_emptyGroup (by simp [hempty])]
  · exact outcome_group_of_ofTokens (Rpn.ofTokens_enclosed hrpn) hrpn before behind

end Token

theorem evaluate_of_emptyGroup {s : String} {before behind : List Char}
    (h : (Text.strip s).toList = before ++ '(' :: ')' :: behind) :
    evaluate s = .error .invalidExpression := by
  rw [evaluate_eq]
  cases hscan : Token.scan (Text.strip s) with
  | error defect => rfl
  | ok tokens =>
      obtain ⟨xs, hxs, htext, htokens⟩ := Token.scan_eq_ok_iff.mp hscan
      obtain ⟨ys, zs, hsplit, -⟩ := hxs.emptyGroup (htext.symm.trans h)
      apply Token.outcome_of_emptyGroup
      rw [htokens, hsplit]
      simp [Lexeme.token]

theorem strip_enclosed (s : String) :
    Text.strip ("(" ++ s ++ ")") = "(" ++ Text.strip s ++ ")" := by
  have hopen : Text.strip "(" = "(" := by decide +kernel
  have hclose : Text.strip ")" = ")" := by decide +kernel
  rw [Text.strip_append, Text.strip_append, hopen, hclose]

theorem strip_parenthesised (u s w : String) :
    Text.strip (u ++ "(" ++ s ++ ")" ++ w) =
      Text.strip u ++ "(" ++ Text.strip s ++ ")" ++ Text.strip w := by
  have hgroup : u ++ "(" ++ s ++ ")" ++ w = u ++ ("(" ++ s ++ ")") ++ w := by
    simp only [String.append_assoc]
  rw [hgroup, Text.strip_append, Text.strip_append, strip_enclosed]
  simp only [String.append_assoc]

theorem evaluate_parenthesised_of_blank {s : String} (h : Text.strip s = "") (u w : String) :
    evaluate (u ++ "(" ++ s ++ ")" ++ w) = .error .invalidExpression := by
  have htext : (Text.strip (u ++ "(" ++ s ++ ")" ++ w)).toList =
      (Text.strip u).toList ++ '(' :: ')' :: (Text.strip w).toList := by
    rw [strip_parenthesised, h]
    simp
  exact evaluate_of_emptyGroup htext

theorem evaluate_parenthesised_of_scan {s : String} {defect : Defect}
    (h : Token.scan (Text.strip s) = .error defect) (u w : String) :
    evaluate (u ++ "(" ++ s ++ ")" ++ w) = .error .invalidExpression := by
  rw [evaluate_eq, strip_parenthesised]
  cases hscan : Token.scan (Text.strip u ++ "(" ++ Text.strip s ++ ")" ++ Text.strip w) with
  | error defect => rfl
  | ok tokens =>
      obtain ⟨inner, hinner⟩ := Token.exists_scan_of_parenthesised hscan
      rw [h] at hinner
      cases hinner

/-- An expression with balanced parentheses has tokens that can be put into parentheses, or
it is malformed, alone and in parentheses wherever it stands. -/
theorem exists_scan_or_invalid {s : String} (h : Balanced '(' ')' 0 (Text.strip s).toList) :
    (∃ tokens, Token.scan (Text.strip s) = .ok tokens ∧
        Token.Enclosable (Text.strip s).toList) ∨
      evaluate s = .error .invalidExpression ∧
        ∀ u w, evaluate (u ++ "(" ++ s ++ ")" ++ w) = .error .invalidExpression := by
  by_cases hblank : Text.strip s = ""
  · refine .inr ⟨?_, evaluate_parenthesised_of_blank hblank⟩
    have hscan : Token.scan "" = .ok [] := by simp [Token.scan, Token.scanFrom]
    rw [evaluate_eq, hblank, hscan]
    rfl
  · cases hscan : Token.scan (Text.strip s) with
    | error defect =>
        refine .inr ⟨?_, evaluate_parenthesised_of_scan hscan⟩
        rw [evaluate_eq, hscan]
    | ok tokens =>
        have hne : (Text.strip s).toList ≠ [] := fun hnil => hblank (String.toList_inj.1 hnil)
        exact .inl ⟨tokens, rfl, Token.enclosable_of_balanced h hne⟩

theorem evaluate_parenthesised_twice {s : String} {tokens : List Token}
    (hbalanced : Balanced '(' ')' 0 (Text.strip s).toList)
    (htext : Token.Enclosable (Text.strip s).toList) (hscan : Token.scan (Text.strip s) = .ok tokens)
    (u w : String) :
    evaluate (u ++ "(" ++ ("(" ++ s ++ ")") ++ ")" ++ w) =
      evaluate (u ++ "(" ++ s ++ ")" ++ w) := by
  have hinner := Token.scan_enclosed htext hscan
  have houter := Token.enclosable_enclosed (Text.strip s)
  rw [evaluate_eq, evaluate_eq, strip_parenthesised, strip_parenthesised, strip_enclosed]
  rcases Token.scan_group (Text.strip u) (Text.strip w) with ⟨before, behind, hok⟩ | herror
  · rw [hok _ _ houter hinner, hok _ _ htext hscan]
    exact Token.outcome_enclosed_twice hbalanced hscan before behind
  · obtain ⟨defect, hd⟩ := herror _ _ houter hinner
    obtain ⟨defect', hd'⟩ := herror _ _ htext hscan
    rw [hd, hd']

/-- Parentheses around an expression whose own parentheses are balanced change nothing, nor
does a second pair around a first one, wherever it stands. -/
theorem evaluate_enclosed {s : String} (h : Balanced '(' ')' 0 s.toList) :
    evaluate ("(" ++ s ++ ")") = evaluate s ∧
      ∀ u w : String,
        evaluate (u ++ "((" ++ s ++ "))" ++ w) = evaluate (u ++ "(" ++ s ++ ")" ++ w) := by
  have hbalanced : Balanced '(' ')' 0 (Text.strip s).toList := by
    rw [Text.toList_strip]
    exact (Balanced.filter_iff (by decide) (by decide) (by decide)).mpr h
  rcases exists_scan_or_invalid hbalanced with ⟨tokens, hscan, htext⟩ | ⟨halone, hinside⟩
  · constructor
    · rw [evaluate_eq, evaluate_eq, strip_enclosed, Token.scan_enclosed htext hscan, hscan]
      exact Token.outcome_enclosed hbalanced hscan
    · intro u w
      have hpairs : u ++ "((" ++ s ++ "))" ++ w = u ++ "(" ++ ("(" ++ s ++ ")") ++ ")" ++ w := by
        apply String.toList_inj.1
        simp
      rw [hpairs, evaluate_parenthesised_twice hbalanced htext hscan]
  · constructor
    · have hpair : "(" ++ s ++ ")" = "" ++ "(" ++ s ++ ")" ++ "" := by simp
      rw [hpair, hinside, halone]
    · intro u w
      have hpairs : u ++ "((" ++ s ++ "))" ++ w = (u ++ "(") ++ "(" ++ s ++ ")" ++ (")" ++ w) := by
        apply String.toList_inj.1
        simp
      rw [hpairs, hinside, hinside]

/-- A division by zero stays one in parentheses, and a second pair changes nothing between
an operator that waits and one that lacks an operand. -/
theorem evaluate_enclosed_division :
    Balanced '(' ')' 0 "-1/(0)".toList ∧
      evaluate "-1/(0)" = .error .divisionByZero ∧
      evaluate ("(" ++ "-1/(0)" ++ ")") = evaluate "-1/(0)" ∧
      evaluate ("2*" ++ "((" ++ "-1/(0)" ++ "))" ++ "+") =
        evaluate ("2*" ++ "(" ++ "-1/(0)" ++ ")" ++ "+") := by
  have hbalanced : Balanced '(' ')' 0 "-1/(0)".toList := by decide +kernel
  have hdivision : evaluate "-1/(0)" = .error .divisionByZero := by decide +kernel
  obtain ⟨hsingle, hdouble⟩ := evaluate_enclosed hbalanced
  exact ⟨hbalanced, hdivision, hsingle, hdouble "2*" "+"⟩

end Calculator
