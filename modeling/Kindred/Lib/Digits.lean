import Mathlib.Data.Rat.Floor

/-! Numbers written in decimal digits, with a point among them. -/

namespace Kindred.Lib

def truncated (q : ℚ) : Int := if q < 0 then -⌊-q⌋ else ⌊q⌋

theorem truncated_neg (q : ℚ) : truncated (-q) = -truncated q := by
  unfold truncated
  rcases lt_trichotomy q 0 with h | rfl | h
  · have h' : ¬-q < 0 := by linarith
    rw [if_pos h, if_neg h', neg_neg]
  · simp
  · have h' : -q < 0 := by linarith
    have h'' : ¬q < 0 := by linarith
    rw [if_pos h', if_neg h'', neg_neg]

theorem truncated_div (m n : ℕ) : truncated ((m : ℚ) / n) = ((m / n : ℕ) : Int) := by
  have h : ¬(m : ℚ) / n < 0 := not_lt.mpr (by positivity)
  rw [truncated, if_neg h]
  exact_mod_cast Rat.floor_natCast_div_natCast m n

def digitsVal (cs : List Char) : ℕ := Nat.ofDigitChars 10 cs 0

theorem digitsVal_append (cs ds : List Char) :
    digitsVal (cs ++ ds) = digitsVal cs * 10 ^ ds.length + digitsVal ds := by
  unfold digitsVal
  rw [Nat.ofDigitChars_append, Nat.ofDigitChars_eq_ofDigitChars_zero, Nat.mul_comm]

theorem digitsVal_replicate (n : ℕ) : digitsVal (List.replicate n '0') = 0 := by
  unfold digitsVal
  rw [Nat.ofDigitChars_replicate_zero, Nat.mul_zero]

theorem digitsVal_zeros (cs : List Char) (n : ℕ) :
    digitsVal (cs ++ List.replicate n '0') = digitsVal cs * 10 ^ n := by
  rw [digitsVal_append, digitsVal_replicate, List.length_replicate, Nat.add_zero]

theorem digitsVal_leading (cs : List Char) (n : ℕ) :
    digitsVal (List.replicate n '0' ++ cs) = digitsVal cs := by
  rw [digitsVal_append, digitsVal_replicate, Nat.zero_mul, Nat.zero_add]

theorem digitsVal_toDigits (n : ℕ) : digitsVal (Nat.toDigits 10 n) = n :=
  Nat.ofDigitChars_ten_toDigits

variable {cs int frac : List Char}

theorem digitsVal_lt (h : cs.all Char.isDigit) : digitsVal cs < 10 ^ cs.length := by
  induction cs with
  | nil => decide
  | cons c cs ih =>
    rw [List.all_cons, Bool.and_eq_true] at h
    have hc : digitsVal [c] ≤ 9 := by
      have hdigit := h.1
      simp only [Char.isDigit, Bool.and_eq_true, decide_eq_true_eq] at hdigit
      have hle : c.toNat ≤ 57 := hdigit.2
      simp only [digitsVal, Nat.ofDigitChars_cons, Nat.ofDigitChars_nil]
      have hzero : '0'.toNat = 48 := rfl
      omega
    have hcs := ih h.2
    rw [← List.singleton_append, digitsVal_append, List.length_append, List.length_singleton,
      Nat.pow_add]
    generalize 10 ^ cs.length = m at *
    nlinarith

/-- The first digits of a number. -/
theorem digitsVal_take (h : cs.all Char.isDigit) (n : ℕ) :
    digitsVal (cs.take n) = digitsVal cs / 10 ^ (cs.length - n) := by
  have hdrop : (cs.drop n).all Char.isDigit := by
    rw [List.all_eq_true] at h ⊢
    exact fun c hc => h c (List.mem_of_mem_drop hc)
  have hlt := digitsVal_lt hdrop
  rw [List.length_drop] at hlt
  have hsplit := digitsVal_append (cs.take n) (cs.drop n)
  rw [List.take_append_drop, List.length_drop] at hsplit
  rw [hsplit, Nat.mul_comm, Nat.mul_add_div (by positivity), Nat.div_eq_of_lt hlt, Nat.add_zero]

def pointed (int frac : List Char) : ℚ := digitsVal (int ++ frac) / 10 ^ frac.length

/-- The same digits, up to zeros behind them, with the point moved by `exp`. -/
theorem pointed_move {int' frac' : List Char} {exp : Int} (zeros : ℕ)
    (hdigits : digitsVal (int' ++ frac') = digitsVal (int ++ frac) * 10 ^ zeros)
    (hpoint : (zeros : Int) - frac'.length = exp - frac.length) :
    pointed int' frac' = pointed int frac * 10 ^ exp := by
  have hten : (10 : ℚ) ≠ 0 := by norm_num
  have hexp : exp = zeros + (-(frac'.length : Int) + frac.length) := by omega
  rw [pointed, pointed, hdigits, hexp, zpow_add₀ hten, zpow_add₀ hten, zpow_neg]
  simp only [zpow_natCast]
  push_cast
  field_simp

/-- A number cut off after `n` digits behind its point. -/
theorem truncated_pointed (h : frac.all Char.isDigit) (n : ℕ) :
    truncated (pointed int frac * 10 ^ n) =
      (digitsVal int * 10 ^ n + digitsVal ((frac ++ List.replicate n '0').take n) : ℕ) := by
  have hall : (frac ++ List.replicate n '0').all Char.isDigit := by
    rw [List.all_append, h, Bool.true_and, List.all_eq_true]
    intro c hc
    rw [List.eq_of_mem_replicate hc]
    rfl
  have hvalue : pointed int frac * 10 ^ n =
      ((digitsVal (int ++ frac) * 10 ^ n : ℕ) : ℚ) / (10 ^ frac.length : ℕ) := by
    push_cast
    rw [pointed]
    ring
  rw [hvalue, truncated_div, digitsVal_take hall, digitsVal_zeros, digitsVal_append,
    List.length_append, List.length_replicate, Nat.add_sub_cancel, Nat.add_mul,
    Nat.mul_right_comm, Nat.mul_comm _ (10 ^ frac.length), Nat.mul_add_div (by positivity)]

end Kindred.Lib
