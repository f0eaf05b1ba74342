import Mathlib.Tactic.Linarith

/-! Integers as doubles keep them: 53 significant bits, the nearest one, ties to even. -/

namespace Kindred.Lib

/-- The multiple of `u` nearest to `n`, of two equally near ones the even multiple. -/
def nearestMultiple (u n : ℕ) : ℕ :=
  let q := n / u
  let r := 2 * (n % u)
  if u < r ∨ r = u ∧ q % 2 = 1 then (q + 1) * u else q * u

variable {u m n k : ℕ}

theorem nearestMultiple_mul (hu : 0 < u) (k : ℕ) : nearestMultiple u (k * u) = k * u := by
  have hq : k * u / u = k := Nat.mul_div_cancel k hu
  have hr : k * u % u = 0 := Nat.mul_mod_left k u
  have hnot : ¬ (u < 2 * 0 ∨ 2 * 0 = u ∧ k % 2 = 1) := by omega
  simp only [nearestMultiple, hq, hr, if_neg hnot]

theorem nearestMultiple_mono (h : m ≤ n) : nearestMultiple u m ≤ nearestMultiple u n := by
  have hm := Nat.div_add_mod m u
  have hn := Nat.div_add_mod n u
  rcases Nat.lt_or_eq_of_le (Nat.div_le_div_right (c := u) h) with hq | hq
  · -- the next multiple is still no more than what `n` holds
    have hstep : (m / u + 1) * u ≤ n / u * u := Nat.mul_le_mul_right u hq
    have hlow : m / u * u ≤ (m / u + 1) * u := Nat.mul_le_mul_right u (by omega)
    have hhigh : n / u * u ≤ (n / u + 1) * u := Nat.mul_le_mul_right u (by omega)
    unfold nearestMultiple
    dsimp only
    split <;> split <;> omega
  · have hr : m % u ≤ n % u := by
      rw [hq] at hm
      omega
    have hstep : n / u * u ≤ (n / u + 1) * u := Nat.mul_le_mul_right u (by omega)
    unfold nearestMultiple
    dsimp only
    rw [hq]
    split <;> split <;> omega

def ulp (n : ℕ) : ℕ := 2 ^ (n.log2 + 1 - 53)

theorem ulp_pos (n : ℕ) : 0 < ulp n := Nat.two_pow_pos _

def rounded (n : ℕ) : ℕ := nearestMultiple (ulp n) n

theorem lt_ulp (n : ℕ) : n < 2 ^ 53 * ulp n := by
  have hbits : n < 2 ^ (n.log2 + 1) := Nat.lt_log2_self
  have hwidth : 2 ^ (n.log2 + 1) ≤ 2 ^ (53 + (n.log2 + 1 - 53)) :=
    Nat.pow_le_pow_right (by decide) (by omega)
  calc n < 2 ^ (53 + (n.log2 + 1 - 53)) := lt_of_lt_of_le hbits hwidth
    _ = 2 ^ 53 * ulp n := Nat.pow_add 2 53 _

/-- Numbers with a longer step lie beyond the ones with a shorter one. -/
theorem ulp_step (h : ulp m < ulp n) : 2 ^ 53 * ulp m ≤ 2 ^ 52 * ulp n ∧ 2 ^ 52 * ulp n ≤ n := by
  have hlt : m.log2 + 1 - 53 < n.log2 + 1 - 53 := (Nat.pow_lt_pow_iff_right (by decide)).mp h
  have hn : n ≠ 0 := by
    rintro rfl
    simp at hlt
  unfold ulp
  constructor
  · rw [← Nat.pow_add, ← Nat.pow_add]
    exact Nat.pow_le_pow_right (by decide) (by omega)
  · rw [← Nat.pow_add]
    exact le_trans (Nat.pow_le_pow_right (by decide) (by omega)) (Nat.log2_self_le hn)

theorem ulp_mono (h : m ≤ n) : ulp m ≤ ulp n := by
  have hlog : m.log2 ≤ n.log2 := by
    by_cases hm : m = 0
    · simp [hm]
    · exact (Nat.le_log2 (by omega)).mpr (le_trans (Nat.log2_self_le hm) h)
  exact Nat.pow_le_pow_right (by decide) (by omega)

theorem rounded_mono (h : m ≤ n) : rounded m ≤ rounded n := by
  unfold rounded
  rcases Nat.lt_or_eq_of_le (ulp_mono h) with hulp | hulp
  · obtain ⟨hstep, hn⟩ := ulp_step hulp
    calc nearestMultiple (ulp m) m
        ≤ nearestMultiple (ulp m) (2 ^ 53 * ulp m) :=
          nearestMultiple_mono (lt_ulp m).le
      _ = 2 ^ 53 * ulp m := nearestMultiple_mul (ulp_pos m) _
      _ ≤ 2 ^ 52 * ulp n := hstep
      _ = nearestMultiple (ulp n) (2 ^ 52 * ulp n) := (nearestMultiple_mul (ulp_pos n) _).symm
      _ ≤ nearestMultiple (ulp n) n := nearestMultiple_mono hn
  · rw [hulp]
    exact nearestMultiple_mono h

/-- A number of 53 bits and trailing zeros is kept. -/
theorem rounded_eq (hn : n < 2 ^ (53 + k)) (hk : 2 ^ k ∣ n) : rounded n = n := by
  have hlog : n.log2 + 1 - 53 ≤ k := by
    by_cases h0 : n = 0
    · simp [h0]
    · have := (Nat.log2_lt h0).mpr hn
      omega
  obtain ⟨q, hq⟩ : ulp n ∣ n := Nat.dvd_trans (Nat.pow_dvd_pow 2 hlog) hk
  have hkept := nearestMultiple_mul (ulp_pos n) q
  rwa [Nat.mul_comm, ← hq] at hkept

def asDouble (n : Int) : Int := if 0 ≤ n then rounded n.natAbs else -(rounded n.natAbs : Int)

theorem asDouble_mono {m n : Int} (h : m ≤ n) : asDouble m ≤ asDouble n := by
  unfold asDouble
  by_cases hm : 0 ≤ m
  · have hn : 0 ≤ n := by omega
    have := rounded_mono (m := m.natAbs) (n := n.natAbs) (by omega)
    rw [if_pos hm, if_pos hn]
    omega
  · by_cases hn : 0 ≤ n
    · rw [if_neg hm, if_pos hn]
      omega
    · have := rounded_mono (m := n.natAbs) (n := m.natAbs) (by omega)
      rw [if_neg hm, if_neg hn]
      omega

/-- Integers of 53 bits and trailing zeros are doubles. -/
theorem asDouble_eq {n : Int} (hn : n.natAbs < 2 ^ (53 + k)) (hk : 2 ^ k ∣ n.natAbs) :
    asDouble n = n := by
  unfold asDouble
  rw [rounded_eq hn hk]
  split <;> omega

/-- In the years 1684 to 2255 every microsecond is one. -/
example : asDouble 9007199254740991 = 9007199254740991 := by decide

example : asDouble 9007199254740993 = 9007199254740992 := by decide

end Kindred.Lib
