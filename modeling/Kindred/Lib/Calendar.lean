import Mathlib.Tactic.IntervalCases

/-!
The proleptic Gregorian calendar over whole days and microseconds since
1970-01-01 UTC. Months are counted from year 0: month `k` is month `k % 12` of
year `k / 12`, January being 0.
-/

namespace Kindred.Lib.Calendar

def leap (y : Int) : Bool := y % 4 = 0 ∧ (y % 100 ≠ 0 ∨ y % 400 = 0)

def yearStart (y : Int) : Int := 365 * y + (y + 3) / 4 - (y + 99) / 100 + (y + 399) / 400 - 719528

def daysBeforeMonth (m : Int) : Int :=
  if m < 6 then
    if m < 3 then if m < 1 then 0 else if m < 2 then 31 else 59
    else if m < 4 then 90 else if m < 5 then 120 else 151
  else
    if m < 9 then if m < 7 then 181 else if m < 8 then 212 else 243
    else if m < 10 then 273 else if m < 11 then 304 else 334

def monthStart (k : Int) : Int :=
  yearStart (k / 12) + daysBeforeMonth (k % 12) + if 2 ≤ k % 12 ∧ leap (k / 12) then 1 else 0

def monthLength (k : Int) : Int := monthStart (k + 1) - monthStart k

def yearOf (z : Int) : Int :=
  let y := (z + 719528) * 400 / 146097
  if z < yearStart y then y - 1 else if yearStart (y + 1) ≤ z then y + 1 else y

/-- The last of the months `k` to `k + n` that has started by day `z`. -/
def lastStarted (z k : Int) : Nat → Int
  | 0 => k
  | n + 1 => if monthStart (k + (n + 1 : Nat)) ≤ z then k + (n + 1 : Nat) else lastStarted z k n

def monthOf (z : Int) : Int := lastStarted z (12 * yearOf z) 11

def dayInMonth (z : Int) : Int := z - monthStart (monthOf z)

theorem yearStart_step (y : Int) :
    yearStart (y + 1) = yearStart y + if leap y then 366 else 365 := by
  unfold yearStart leap
  split <;> rename_i h <;> simp only [decide_eq_true_eq] at h <;> omega

theorem yearOf_spec (z : Int) : yearStart (yearOf z) ≤ z ∧ z < yearStart (yearOf z + 1) := by
  unfold yearOf
  dsimp only
  generalize hy : (z + 719528) * 400 / 146097 = y
  split
  · rw [Int.sub_add_cancel]
    unfold yearStart at *
    omega
  · split <;> (unfold yearStart at *; omega)

theorem monthStart_year (y : Int) : monthStart (12 * y) = yearStart y := by
  have hd : 12 * y / 12 = y := by omega
  have hm : 12 * y % 12 = 0 := by omega
  simp [monthStart, hd, hm, daysBeforeMonth]

/-- Every month has 28 to 31 days. -/
theorem monthLength_bounds (k : Int) : 28 ≤ monthLength k ∧ monthLength k ≤ 31 := by
  have hk : k = 12 * (k / 12) + k % 12 := by omega
  have hlo : 0 ≤ k % 12 := by omega
  have hhi : k % 12 < 12 := by omega
  generalize hy : k / 12 = y at *
  generalize hm : k % 12 = m at *
  have hstep := yearStart_step y
  unfold monthLength monthStart
  rw [hy, hm]
  by_cases hlast : m = 11
  · have hd : (k + 1) / 12 = y + 1 := by omega
    have hr : (k + 1) % 12 = 0 := by omega
    rw [hd, hr, hstep, hlast]
    cases leap y <;> simp [daysBeforeMonth]
    omega
  · have hd : (k + 1) / 12 = y := by omega
    have hr : (k + 1) % 12 = m + 1 := by omega
    rw [hd, hr]
    interval_cases m <;> cases leap y <;> simp_all [daysBeforeMonth] <;> omega

theorem monthStart_add (k : Int) (n : Nat) : monthStart k + 28 * n ≤ monthStart (k + n) := by
  induction n with
  | zero => simp
  | succ n ih =>
    have h := (monthLength_bounds (k + n)).1
    unfold monthLength at h
    rw [Nat.cast_succ, ← Int.add_assoc]
    omega

theorem monthStart_mono {j k : Int} (h : j ≤ k) : monthStart j ≤ monthStart k := by
  obtain ⟨n, rfl⟩ := Int.le.dest h
  have := monthStart_add j n
  omega

variable {n : Nat}

theorem lastStarted_spec {z k : Int} (hlo : monthStart k ≤ z) (hhi : z < monthStart (k + n + 1)) :
    monthStart (lastStarted z k n) ≤ z ∧ z < monthStart (lastStarted z k n + 1) := by
  induction n with
  | zero => simpa [lastStarted] using And.intro hlo hhi
  | succ n ih =>
    unfold lastStarted
    split
    · rename_i h
      exact ⟨h, hhi⟩
    · rename_i h
      apply ih
      rw [Nat.cast_succ, ← Int.add_assoc] at h
      omega

theorem monthOf_spec (z : Int) : monthStart (monthOf z) ≤ z ∧ z < monthStart (monthOf z + 1) := by
  have hy := yearOf_spec z
  apply lastStarted_spec
  · rw [monthStart_year]; exact hy.1
  · have h : 12 * yearOf z + (11 : Nat) + 1 = 12 * (yearOf z + 1) := by omega
    rw [h, monthStart_year]
    exact hy.2

theorem dayInMonth_nonneg (z : Int) : 0 ≤ dayInMonth z := by
  have := (monthOf_spec z).1
  unfold dayInMonth
  omega

theorem dayInMonth_lt (z : Int) : dayInMonth z < monthLength (monthOf z) := by
  have := (monthOf_spec z).2
  unfold dayInMonth monthLength
  omega

def second : Int := 1000000
def day : Int := 86400 * second

def dateOf (t : Int) : Int := t / day
def timeOfDay (t : Int) : Int := t % day

/-- `n` months later at the same time of day; a day its month does not have
becomes the last one it has. -/
def addMonths (t n : Int) : Int :=
  let k := monthOf (dateOf t) + n
  (monthStart k + min (dayInMonth (dateOf t)) (monthLength k - 1)) * day + timeOfDay t

def wholeMonths (a b : Int) : Int :=
  let k := monthOf (dateOf b) - monthOf (dateOf a)
  if dayInMonth (dateOf b) < dayInMonth (dateOf a) ∨
      dayInMonth (dateOf b) = dayInMonth (dateOf a) ∧ timeOfDay b < timeOfDay a then k - 1 else k

/-- Start of the month of an instant, and of the month `n` later. -/
def monthFloor (t n : Int) : Int := monthStart (monthOf (dateOf t) + n) * day

/-- At least 28 days pass in a positive number of months. -/
theorem addMonths_ge (t : Int) (hn : 0 < n) : t + 28 * day ≤ addMonths t n := by
  have ht : t = dateOf t * day + timeOfDay t := (Int.ediv_mul_add_emod t day).symm
  have hz : dateOf t = monthStart (monthOf (dateOf t)) + dayInMonth (dateOf t) := by
    unfold dayInMonth
    omega
  obtain ⟨m, rfl⟩ : ∃ m, n = m + 1 := ⟨n - 1, by omega⟩
  have hlen := dayInMonth_lt (dateOf t)
  have hd := dayInMonth_nonneg (dateOf t)
  have hlast := (monthLength_bounds (monthOf (dateOf t) + (m + 1 : Nat))).1
  have hstep := monthStart_add (monthOf (dateOf t) + 1) m
  have hk : monthOf (dateOf t) + 1 + (m : Int) = monthOf (dateOf t) + (m + 1 : Nat) := by
    rw [Nat.cast_succ]
    omega
  rw [hk] at hstep
  have hdays : dateOf t + 28 ≤ monthStart (monthOf (dateOf t) + (m + 1 : Nat)) +
      min (dayInMonth (dateOf t)) (monthLength (monthOf (dateOf t) + (m + 1 : Nat)) - 1) := by
    have hfirst := (monthLength_bounds (monthOf (dateOf t))).1
    unfold monthLength at hfirst hlen
    rcases le_total (dayInMonth (dateOf t))
        (monthLength (monthOf (dateOf t) + (m + 1 : Nat)) - 1) with h | h
    · rw [min_eq_left h]
      omega
    · rw [min_eq_right h]
      omega
  have hday : (0 : Int) < day := by decide
  have := Int.mul_le_mul_of_nonneg_right hdays hday.le
  unfold addMonths
  rw [Int.add_mul] at this
  dsimp only
  omega

end Kindred.Lib.Calendar
