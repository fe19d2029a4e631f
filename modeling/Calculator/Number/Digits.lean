/-!
# Runs of digits

A run of decimal digits writes a natural number, the first digit being the highest.
-/

namespace Calculator.Number

def digit (c : Char) : Nat :=
  c.toNat - '0'.toNat

/-- The number that a run of digits writes, after the number `n` of the digits before it. -/
def digitsFrom (n : Nat) : List Char → Nat
  | [] => n
  | c :: rest => digitsFrom (10 * n + digit c) rest

theorem digitsFrom_eq (n : Nat) (ds : List Char) :
    digitsFrom n ds = n * Nat.pow 10 ds.length + digitsFrom 0 ds := by
  induction ds generalizing n with
  | nil => exact (Nat.mul_one n).symm
  | cons c ds ih =>
    have h (m : Nat) :
        digitsFrom m (c :: ds) = (10 * m + digit c) * Nat.pow 10 ds.length + digitsFrom 0 ds := ih _
    have hstep : Nat.pow 10 (c :: ds).length = 10 * Nat.pow 10 ds.length := Nat.mul_comm _ _
    rw [h n, h 0, hstep, ← Nat.mul_assoc, Nat.mul_comm n 10, Nat.add_mul, Nat.mul_zero, Nat.zero_add,
      Nat.add_assoc]

theorem digitsFrom_append (n : Nat) (ds es : List Char) :
    digitsFrom n (ds ++ es) = digitsFrom (digitsFrom n ds) es := by
  induction ds generalizing n with
  | nil => rfl
  | cons c ds ih => exact ih _

/-- The number that a run of digits writes. A long run is read in halves, which costs
less than one digit after the other. -/
def ofDigits (ds : List Char) : Nat :=
  if ds.length ≤ 64 then digitsFrom 0 ds
  else
    let half := ds.length / 2
    ofDigits (ds.take half) * Nat.pow 10 (ds.length - half) + ofDigits (ds.drop half)
  termination_by ds.length

theorem ofDigits_eq_digitsFrom (ds : List Char) : ofDigits ds = digitsFrom 0 ds := by
  fun_induction ofDigits ds with
  | case1 => rfl
  | case2 ds _ half ihs ihd =>
    have happend := digitsFrom_append 0 (ds.take half) (ds.drop half)
    rw [List.take_append_drop] at happend
    rw [ihs, ihd, happend, digitsFrom_eq (digitsFrom 0 (ds.take half)), List.length_drop]

end Calculator.Number
