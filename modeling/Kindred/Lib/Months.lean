import Kindred.Lib.Calendar

/-! The order of months, and what adding them keeps of it. -/

namespace Kindred.Lib.Calendar

theorem day_pos : 0 < day := by decide

variable {z k a b d m n : Int}

theorem monthOf_mono {y : Int} (h : y ≤ z) : monthOf y ≤ monthOf z := by
  have hy := (monthOf_spec y).1
  have hz := (monthOf_spec z).2
  by_contra hlt
  have := monthStart_mono (show monthOf z + 1 ≤ monthOf y by omega)
  omega

theorem monthOf_eq (hlo : monthStart k ≤ z) (hhi : z < monthStart (k + 1)) : monthOf z = k := by
  obtain ⟨hlo', hhi'⟩ := monthOf_spec z
  rcases lt_trichotomy (monthOf z) k with h | h | h
  · have := monthStart_mono (show monthOf z + 1 ≤ k by omega)
    omega
  · exact h
  · have := monthStart_mono (show k + 1 ≤ monthOf z by omega)
    omega

theorem dateOf_mono (h : a ≤ b) : dateOf a ≤ dateOf b :=
  Int.ediv_le_ediv day_pos h

/-- The instant of a date and a time of day. -/
theorem instant_eq (t : Int) : t = dateOf t * day + timeOfDay t :=
  (Int.ediv_mul_add_emod t day).symm

theorem timeOfDay_bounds (t : Int) : 0 ≤ timeOfDay t ∧ timeOfDay t < day :=
  ⟨Int.emod_nonneg t day_pos.ne', Int.emod_lt_of_pos t day_pos⟩

/-- Of a later instant, no fewer whole months. -/
theorem wholeMonths_nonneg (h : a ≤ b) : 0 ≤ wholeMonths a b := by
  have hdate := dateOf_mono h
  have hmonth := monthOf_mono hdate
  unfold wholeMonths
  dsimp only
  split
  · rename_i hbefore
    by_contra hneg
    have hsame : monthOf (dateOf b) = monthOf (dateOf a) := by omega
    have hday : dayInMonth (dateOf a) ≤ dayInMonth (dateOf b) := by
      unfold dayInMonth
      rw [hsame]
      omega
    rcases hbefore with hlt | ⟨hday', htime⟩
    · omega
    · have hd : dateOf a = dateOf b := by
        unfold dayInMonth at hday'
        rw [hsame] at hday'
        omega
      have ha := instant_eq a
      have hb := instant_eq b
      rw [hd] at ha
      omega
  · omega

def dayOf (k d : Int) : Int := monthStart k + min d (monthLength k - 1)

theorem dayOf_bounds (k : Int) (hd : 0 ≤ d) :
    monthStart k ≤ dayOf k d ∧ dayOf k d < monthStart (k + 1) := by
  have hlen := (monthLength_bounds k).1
  unfold dayOf
  unfold monthLength at *
  omega

theorem dayOf_lt {j : Int} (hd : 0 ≤ d) (h : j < k) : dayOf j d < dayOf k d :=
  lt_of_lt_of_le (dayOf_bounds j hd).2
    ((monthStart_mono (show j + 1 ≤ k by omega)).trans (dayOf_bounds k hd).1)

theorem addMonths_eq (t n : Int) : addMonths t n =
      dayOf (monthOf (dateOf t) + n) (dayInMonth (dateOf t)) * day + timeOfDay t := rfl

@[simp] theorem addMonths_zero (t : Int) : addMonths t 0 = t := by
  have hlt := dayInMonth_lt (dateOf t)
  rw [addMonths_eq, Int.add_zero]
  unfold dayOf
  rw [min_eq_left (by omega)]
  have hdate : monthStart (monthOf (dateOf t)) + dayInMonth (dateOf t) = dateOf t := by
    unfold dayInMonth
    omega
  rw [hdate]
  exact (instant_eq t).symm

theorem addMonths_lt (t : Int) (h : m < n) : addMonths t m < addMonths t n := by
  have hd := dayInMonth_nonneg (dateOf t)
  have hlt := dayOf_lt hd (show monthOf (dateOf t) + m < monthOf (dateOf t) + n by omega)
  have := Int.mul_lt_mul_of_pos_right hlt day_pos
  rw [addMonths_eq, addMonths_eq]
  omega

theorem addMonths_le (t : Int) (h : m ≤ n) : addMonths t m ≤ addMonths t n := by
  rcases h.lt_or_eq with h | rfl
  · exact (addMonths_lt t h).le
  · exact le_rfl

theorem dateOf_addMonths (t n : Int) :
    dateOf (addMonths t n) = dayOf (monthOf (dateOf t) + n) (dayInMonth (dateOf t)) := by
  obtain ⟨hlo, hhi⟩ := timeOfDay_bounds t
  rw [addMonths_eq, dateOf, Int.add_comm, Int.add_mul_ediv_right _ _ day_pos.ne',
    Int.ediv_eq_zero_of_lt hlo hhi, Int.zero_add]

theorem monthOf_addMonths (t n : Int) :
    monthOf (dateOf (addMonths t n)) = monthOf (dateOf t) + n := by
  rw [dateOf_addMonths]
  exact monthOf_eq (dayOf_bounds _ (dayInMonth_nonneg _)).1 (dayOf_bounds _ (dayInMonth_nonneg _)).2

end Kindred.Lib.Calendar
