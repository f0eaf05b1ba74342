import Mathlib.Data.Nat.Notation

/-! Clocks that show the time ahead of the instant by an offset that changes now and then. A time on
the clock may be shown at no instant, at one or at two; the search for one corrects a guess by how far
the clock is from the time. -/

namespace Kindred.Lib.WallClock

variable (offset : Int → Int) {w t : Int} {n : ℕ}

def wall (t : Int) : Int := t + offset t

/-- The guess `t`, corrected up to `n` times by what the clock shows. -/
def correct (w : Int) : ℕ → Int → Option Int
  | 0, _ => none
  | n + 1, t => if wall offset t = w then some t else correct w n (t + (w - wall offset t))

def search (n : ℕ) (w : Int) : Option Int := correct offset w n (w - offset w)

/-- The offset is below `L` either way, and changes at most once within `4 * L`. -/
structure Steady (L : Int) : Prop where
  bound : ∀ t, -L < offset t ∧ offset t < L
  once : ∀ s, ∃ change before after, ∀ t, s ≤ t → t ≤ s + 4 * L →
    offset t = if t < change then before else after

variable {offset}

variable {t' L : Int}

theorem correct_sound (h : correct offset w n t = some t') : wall offset t' = w := by
  induction n generalizing t with
  | zero => cases h
  | succ n ih =>
    unfold correct at h
    split at h
    · rename_i hw
      cases h
      exact hw
    · exact ih h

theorem search_sound (h : search offset n w = some t) : wall offset t = w :=
  correct_sound h

theorem correct_found (h : wall offset t = w) : correct offset w (n + 1) t = some t := if_pos h

theorem correct_next {d : Int} (ho : offset t = d) (h : t + d ≠ w) :
    correct offset w (n + 1) t = correct offset w n (w - d) := by
  have hwall : wall offset t = t + d := by rw [wall, ho]
  have hnext : t + (w - (t + d)) = w - d := by omega
  rw [correct, hwall, if_neg h, hnext]

/-- Around the one change near a time, the search takes the guess with the offset that it starts
from if that guess is on the right side, and otherwise the other one. -/
theorem search_cases (h : Steady offset L) {s : Int} (hlo : s + L ≤ w) (hhi : w ≤ s + 3 * L)
    {change before after : Int}
    (ho : ∀ t, s ≤ t → t ≤ s + 4 * L → offset t = if t < change then before else after) :
    search offset 3 w = if w < change then if w - before < change then some (w - before)
        else if change ≤ w - after then some (w - after) else none
      else if change ≤ w - after then some (w - after)
        else if w - before < change then some (w - before) else none := by
  have hbound := h.bound w
  have hw := ho w (by omega) (by omega)
  unfold search
  by_cases hside : w < change
  · rw [if_pos hside] at hw ⊢
    rw [hw] at hbound ⊢
    have hguess := ho (w - before) (by omega) (by omega)
    by_cases hfound : w - before < change
    · rw [if_pos hfound] at hguess ⊢
      exact correct_found (by unfold wall; omega)
    · rw [if_neg hfound] at hguess ⊢
      have hbound' := h.bound (w - before)
      rw [hguess] at hbound'
      by_cases heq : before = after
      · rw [if_pos (by omega), ← heq]
        exact correct_found (by unfold wall; omega)
      · rw [correct_next hguess (by omega)]
        have hother := ho (w - after) (by omega) (by omega)
        by_cases hreach : change ≤ w - after
        · rw [if_neg (by omega)] at hother
          rw [if_pos hreach]
          exact correct_found (by unfold wall; omega)
        · rw [if_pos (by omega)] at hother
          rw [if_neg hreach, correct_next hother (by omega), correct_next hguess (by omega)]
          rfl
  · rw [if_neg hside] at hw ⊢
    rw [hw] at hbound ⊢
    have hguess := ho (w - after) (by omega) (by omega)
    by_cases hfound : change ≤ w - after
    · rw [if_neg (by omega)] at hguess
      rw [if_pos hfound]
      exact correct_found (by unfold wall; omega)
    · rw [if_pos (by omega)] at hguess
      rw [if_neg hfound]
      have hbound' := h.bound (w - after)
      rw [hguess] at hbound'
      by_cases heq : before = after
      · rw [if_pos (by omega), heq]
        exact correct_found (by unfold wall; omega)
      · rw [correct_next hguess (by omega)]
        have hother := ho (w - before) (by omega) (by omega)
        by_cases hreach : w - before < change
        · rw [if_pos hreach] at hother ⊢
          exact correct_found (by unfold wall; omega)
        · rw [if_neg hreach] at hother ⊢
          rw [correct_next hother (by omega), correct_next hguess (by omega)]
          rfl

/-- Every time that the clock shows is found. -/
theorem search_complete (h : Steady offset L) (hw : wall offset t = w) :
    ∃ t', search offset 3 w = some t' := by
  obtain ⟨change, before, after, ho⟩ := h.once (w - 2 * L)
  have hL := h.bound t
  unfold wall at hw
  have hot := ho t (by omega) (by omega)
  rw [search_cases h (by omega) (by omega) ho]
  split at hot
  all_goals
    split
    · split
      · exact ⟨_, rfl⟩
      · rw [if_pos (by omega)]
        exact ⟨_, rfl⟩
    · split
      · exact ⟨_, rfl⟩
      · rw [if_pos (by omega)]
        exact ⟨_, rfl⟩

/-- An offset that changes back and forth hides a time that the clock shows. -/
example :
    let offset : Int → Int := fun t => if t = -1 then 2 else if t = -3 then 3 else 1
    wall offset (-3) = 0 ∧ search offset 3 0 = none := by decide

/-- The instants found are in the order of the times. -/
theorem search_lt (h : Steady offset L) {w' : Int} (hlt : w < w') (ht : search offset 3 w = some t)
    (ht' : search offset 3 w' = some t') : t < t' := by
  have hw := search_sound ht
  have hw' := search_sound ht'
  have hb := h.bound t
  have hb' := h.bound t'
  unfold wall at hw hw'
  by_cases hfar : w + 2 * L ≤ w'
  · omega
  · obtain ⟨change, before, after, ho⟩ := h.once (w - L)
    have hot := ho t (by omega) (by omega)
    have hot' := ho t' (by omega) (by omega)
    rw [search_cases h (by omega) (by omega) ho] at ht ht'
    split at ht <;> split at ht' <;> split at ht <;> split at ht' <;> grind

end Kindred.Lib.WallClock
