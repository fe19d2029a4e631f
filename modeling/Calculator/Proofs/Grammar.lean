import Calculator.Proofs.Outcome
import Calculator.Proofs.Phrase

/-!
# The grammar of expressions

An expression is a term, or an expression and a term with an additive operator
between them; a term is a factor, or a term and a factor with a multiplicative
operator between them; a factor is a literal, or an expression in parentheses.
A derivation gives the tree that the text stands for. Every text that can be
derived is read, converted to the postorder list of its tree, and evaluated to
the value of the tree.
-/

namespace Calculator

open Number (Literal)

inductive Symbol
  | expression
  | term
  | factor
  deriving DecidableEq

/-- The lowest precedence that an operator outside all parentheses can have. -/
def Symbol.precedence : Symbol → Nat
  | .expression => 1
  | .term => 2
  | .factor => 3

/-- The texts that can be derived from a symbol, with the trees they stand for. -/
inductive Derives : Symbol → List Char → Tree Literal → Prop
  | term {s : List Char} {t : Tree Literal} : Derives .term s t → Derives .expression s t
  | sum {op : Operator} {a b : List Char} {l r : Tree Literal} : op = .add ∨ op = .subtract →
      Derives .expression a l → Derives .term b r →
      Derives .expression (a ++ op.symbol :: b) (.node op l r)
  | factor {s : List Char} {t : Tree Literal} : Derives .factor s t → Derives .term s t
  | product {op : Operator} {a b : List Char} {l r : Tree Literal} : op = .multiply ∨ op = .divide →
      Derives .term a l → Derives .factor b r →
      Derives .term (a ++ op.symbol :: b) (.node op l r)
  | literal {l : Literal} : l.WellFormed → Derives .factor l.text (.leaf l)
  | group {s : List Char} {t : Tree Literal} : Derives .expression s t →
      Derives .factor ('(' :: (s ++ [')'])) t

/-- Where a minus sign may be a sign, the scanner reads these tokens from the text and
stands behind an operand, whatever follows that does not go on with a number. -/
structure Scans (text : List Char) (tokens : List Token) : Prop where
  head : ∀ c ∈ text.head?, c ≠ ')'
  ne_nil : text ≠ []
  operand (read : List Token) : Token.signAllowed (tokens.reverse ++ read) = false
  steps (size : Nat) (read : List Token) (rest : List Char) : Token.signAllowed read = true →
    (∀ c ∈ rest.head?, c.isDigit = false ∧ c ≠ '.') →
    Token.scanFrom size read (text ++ rest) = Token.scanFrom size (tokens.reverse ++ read) rest

namespace Scans

theorem literal {l : Literal} (hl : l.WellFormed) : Scans l.text [.number l.value] where
  head := by
    obtain ⟨c, tail, hc, hdigits⟩ := hl.digits_eq_cons
    rw [Literal.text_eq, hdigits]
    cases l.negative with
    | true => simp
    | false =>
        rintro d hd rfl
        have hc' : c = ')' := by simpa using hd
        simp [hc'] at hc
  ne_nil := by
    obtain ⟨c, tail, -, hdigits⟩ := hl.digits_eq_cons
    simp [Literal.text_eq, hdigits]
  operand _ := rfl
  steps size read rest hread hrest :=
    Token.scanFrom_lexeme (x := .literal l)
      ⟨hl, fun _ => hread, fun c hc => ⟨(hrest c hc).1, fun _ => (hrest c hc).2⟩⟩

theorem operation {op : Operator} {a b : List Char} {as bs : List Token} (ha : Scans a as)
    (hb : Scans b bs) : Scans (a ++ op.symbol :: b) (as ++ .operator op :: bs) where
  head := by
    obtain ⟨c, tail, hc⟩ := List.exists_cons_of_ne_nil ha.ne_nil
    have hhead := ha.head
    simpa [hc] using hhead
  ne_nil := by simp
  operand read := by
    have h := hb.operand (.operator op :: (as.reverse ++ read))
    simpa using h
  steps size read rest hread hrest := by
    have hop : ∀ c ∈ (op.symbol :: (b ++ rest)).head?, c.isDigit = false ∧ c ≠ '.' := by
      intro c hc
      cases hc
      exact ⟨op.isDigit_symbol, op.symbol_ne_point⟩
    have hfits : (Lexeme.operator op).Fits (Token.signAllowed (as.reverse ++ read)) (b ++ rest) := by
      rw [ha.operand]
      intro _ hsigned
      cases hsigned
    calc Token.scanFrom size read (a ++ op.symbol :: b ++ rest)
        = Token.scanFrom size read (a ++ op.symbol :: (b ++ rest)) := by simp
      _ = Token.scanFrom size (as.reverse ++ read) (op.symbol :: (b ++ rest)) :=
          ha.steps size read _ hread hop
      _ = Token.scanFrom size (.operator op :: (as.reverse ++ read)) (b ++ rest) :=
          Token.scanFrom_lexeme hfits
      _ = Token.scanFrom size (bs.reverse ++ .operator op :: (as.reverse ++ read)) rest :=
          hb.steps size _ rest rfl hrest
      _ = Token.scanFrom size ((as ++ .operator op :: bs).reverse ++ read) rest := by simp

theorem group {s : List Char} {tokens : List Token} (h : Scans s tokens) :
    Scans ('(' :: (s ++ [')'])) (.leftParen :: tokens ++ [.rightParen]) where
  head := by simp
  ne_nil := by simp
  operand read := by simp [Token.signAllowed]
  steps size read rest hread hrest := by
    have hfits : Lexeme.leftParen.Fits (Token.signAllowed read) (s ++ ')' :: rest) := by
      obtain ⟨c, tail, hc⟩ := List.exists_cons_of_ne_nil h.ne_nil
      intro d hd
      apply h.head d
      simpa [hc] using hd
    have hclose : ∀ c ∈ (')' :: rest).head?, c.isDigit = false ∧ c ≠ '.' := by
      intro c hc
      cases hc
      decide
    calc Token.scanFrom size read ('(' :: (s ++ [')']) ++ rest)
        = Token.scanFrom size read ('(' :: (s ++ ')' :: rest)) := by simp
      _ = Token.scanFrom size (.leftParen :: read) (s ++ ')' :: rest) :=
          Token.scanFrom_lexeme hfits
      _ = Token.scanFrom size (tokens.reverse ++ .leftParen :: read) (')' :: rest) :=
          h.steps size _ _ rfl hclose
      _ = Token.scanFrom size (.rightParen :: (tokens.reverse ++ .leftParen :: read)) rest :=
          Token.scanFrom_of_token rfl
      _ = Token.scanFrom size ((.leftParen :: tokens ++ [Token.rightParen]).reverse ++ read) rest := by
          simp

theorem scan_eq {s : String} {tokens : List Token} (h : Scans s.toList tokens) :
    Token.scan s = .ok tokens := by
  have hsteps := h.steps s.toList.length [] [] rfl (by simp)
  rw [Token.scan]
  simpa [Token.scanFrom] using hsteps

end Scans

namespace Derives

/-- Every text that can be derived has tokens, and these are taken in as its tree. -/
theorem exists_tokens {p : Symbol} {s : List Char} {t : Tree Literal} (h : Derives p s t) :
    ∃ tokens, Scans s tokens ∧
      Rpn.Conversion.Takes p.precedence tokens (t.map Literal.value) := by
  induction h with
  | term _ ih =>
      obtain ⟨tokens, hscans, htakes⟩ := ih
      exact ⟨tokens, hscans, htakes.mono (by decide)⟩
  | @sum op a b l r hop _ _ iha ihb =>
      obtain ⟨as, hsa, hta⟩ := iha
      obtain ⟨bs, hsb, htb⟩ := ihb
      have hprec : op.precedence = 1 := by rcases hop with rfl | rfl <;> rfl
      exact ⟨as ++ .operator op :: bs, hsa.operation hsb, .operation hprec hta htb⟩
  | factor _ ih =>
      obtain ⟨tokens, hscans, htakes⟩ := ih
      exact ⟨tokens, hscans, htakes.mono (by decide)⟩
  | @product op a b l r hop _ _ iha ihb =>
      obtain ⟨as, hsa, hta⟩ := iha
      obtain ⟨bs, hsb, htb⟩ := ihb
      have hprec : op.precedence = 2 := by rcases hop with rfl | rfl <;> rfl
      exact ⟨as ++ .operator op :: bs, hsa.operation hsb, .operation hprec hta htb⟩
  | literal hl => exact ⟨_, .literal hl, .number _ _⟩
  | group _ ih =>
      obtain ⟨tokens, hscans, htakes⟩ := ih
      exact ⟨_, hscans.group, htakes.group _⟩

theorem ofTokens_scan {p : Symbol} {s : String} {t : Tree Literal} (h : Derives p s.toList t) :
    ∃ tokens, Token.scan s = .ok tokens ∧
      Rpn.ofTokens tokens = .ok (t.map Literal.value).postorder := by
  obtain ⟨tokens, hscans, htakes⟩ := h.exists_tokens
  exact ⟨tokens, hscans.scan_eq, Rpn.ofTokens_of_takes htakes⟩

end Derives

theorem Derives.evaluate {p : Symbol} {s : String} {t : Tree Literal}
    (h : Derives p (Text.strip s).toList t) :
    Calculator.evaluate s = (t.map Literal.value).outcome := by
  obtain ⟨tokens, hscan, hrpn⟩ := h.ofTokens_scan
  rw [evaluate_eq, hscan]
  simp only [Token.outcome, hrpn, Rpn.value_postorder, Tree.outcome]
  cases (t.map Literal.value).value <;> rfl

end Calculator
