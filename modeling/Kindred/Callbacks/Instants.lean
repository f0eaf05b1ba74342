import Kindred.Callbacks.Slots

/-! The instants of wall times: fields and minutes of the calendar, and what the passes of
`wallInstant` find. -/

namespace Kindred.Callbacks
open Lib.Calendar (monthOf monthStart dayInMonth)
open Lib.WallClock (wall correct search)

theorem dateUtc_date (date h min : Int) :
    dateUtc (monthOf date / 12) (monthOf date % 12 + 1) (dayInMonth date + 1) h min =
      date * day + h * (60 * minute) + min * minute := by
  have hmonth : 12 * (monthOf date / 12) + (monthOf date % 12 + 1 - 1) = monthOf date := by omega
  have hdate : monthStart (monthOf date) + (dayInMonth date + 1 - 1) = date := by
    unfold dayInMonth
    omega
  rw [dateUtc, hmonth, hdate]

theorem dateUtc_partsOf (t : Int) :
    dateUtc (partsOf t).y (partsOf t).mo (partsOf t).d (partsOf t).h (partsOf t).min =
      t / minute * minute := by
  simp only [partsOf]
  rw [dateUtc_date]
  unfold day minute
  omega

theorem dateUtc_partsInTz (t : Int) (tz : Zone) :
    dateUtc (partsInTz t tz).y (partsInTz t tz).mo (partsInTz t tz).d (partsInTz t tz).h
      (partsInTz t tz).min = wall tz.offset (t / minute) * minute := by
  rw [partsInTz, dateUtc_partsOf, wall]
  unfold minute
  omega

theorem dateUtc_midnight (y mo d : Int) (k : ℕ) :
    dateUtc y mo (d + k) 0 0 = (dateUtc y mo d 0 0 / day + k) * day := by
  unfold dateUtc day minute
  omega

theorem wallPass_eq (w : Int) (tz : Zone) (n : ℕ) (t : Int) :
    wallPass (w * minute) tz n (t * minute) =
      (correct tz.offset w n t).map fun t => t * minute := by
  induction n generalizing t with
  | zero => rfl
  | succ n ih =>
    have hwhole : t * minute / minute = t := by
      unfold minute
      omega
    have hshown := dateUtc_partsInTz (t * minute) tz
    rw [hwhole] at hshown
    unfold wallPass correct
    dsimp only
    rw [hshown]
    by_cases hw : wall tz.offset t = w
    · rw [if_pos (by rw [hw]; omega), if_pos hw]
      rfl
    · have hnext : t * minute + (w * minute - wall tz.offset t * minute) =
          (t + (w - wall tz.offset t)) * minute := by
        unfold minute
        omega
      rw [if_neg (by unfold minute; omega), if_neg hw, hnext]
      exact ih _

variable {offset m j k n : ℕ} {t : Int}

namespace Plan

def date (p : Plan) : Int := dateUtc p.today.y p.today.mo p.today.d 0 0 / day

def wallOf (p : Plan) (offset m : ℕ) : Int := (p.date + offset) * 1440 + m

theorem dayAt_eq (p : Plan) (offset : ℕ) : p.dayAt offset = partsOf ((p.date + offset) * day) := by
  rw [dayAt, dateUtc_midnight, date]

theorem instantOf_eq (p : Plan) (offset m : ℕ) : p.instantOf offset m =
      (search p.tz.offset 3 (p.wallOf offset m)).map fun t => t * minute := by
  have hdate : (p.date + offset) * day / day = p.date + offset := by
    unfold day minute
    omega
  have htarget : (p.date + offset) * day + (m / 60 : ℕ) * (60 * minute) + (m % 60 : ℕ) * minute =
      p.wallOf offset m * minute := by
    unfold wallOf day minute
    omega
  have hwhole : p.wallOf offset m * minute / minute = p.wallOf offset m := by
    unfold minute
    omega
  have hguess : p.wallOf offset m * minute + (p.wallOf offset m * minute -
      wall p.tz.offset (p.wallOf offset m) * minute) =
        (p.wallOf offset m - p.tz.offset (p.wallOf offset m)) * minute := by
    unfold wall minute
    omega
  simp only [instantOf, wallInstant, tzWallToUtc, dayAt_eq]
  rw [dateUtc_partsInTz]
  simp only [partsOf]
  rw [hdate, dateUtc_date, htarget, hwhole, hguess, wallPass_eq, search]

theorem instantOf_sound {p : Plan} (h : p.instantOf offset m = some t) :
    wall p.tz.offset (t / minute) = p.wallOf offset m ∧ t / minute * minute = t := by
  rw [instantOf_eq] at h
  obtain ⟨τ, hτ, rfl⟩ := Option.map_eq_some_iff.mp h
  have hwhole : τ * minute / minute = τ := by
    unfold minute
    omega
  rw [hwhole]
  exact ⟨Lib.WallClock.search_sound hτ, rfl⟩

theorem instant_isoWithOffset {tz : Zone} (h : t / minute * minute = t) :
    (isoWithOffset t tz).instant = t := by
  simp only [isoWithOffset, Iso.instant]
  rw [dateUtc_partsInTz, h]
  unfold wall at *
  unfold minute at *
  omega

end Plan

def Zone.Steady (tz : Zone) : Prop := Lib.WallClock.Steady tz.offset 1440

namespace Plan

variable {p : Plan}

theorem wallOf_lt (hm : m < 1440) (h : j < k ∨ j = k ∧ m < n) : p.wallOf j m < p.wallOf k n := by
  unfold wallOf
  omega

theorem instantOf_lt (hz : p.tz.Steady) {u : Int} (hw : p.wallOf j m < p.wallOf k n)
    (ht : p.instantOf j m = some t) (hu : p.instantOf k n = some u) : t < u := by
  rw [instantOf_eq] at ht hu
  obtain ⟨τ, hτ, rfl⟩ := Option.map_eq_some_iff.mp ht
  obtain ⟨υ, hυ, rfl⟩ := Option.map_eq_some_iff.mp hu
  have hlt := Lib.WallClock.search_lt hz hw hτ hυ
  unfold minute
  omega

theorem instantOf_complete (hz : p.tz.Steady) (h : wall p.tz.offset t = p.wallOf offset m)
    : ∃ t, p.instantOf offset m = some t := by
  obtain ⟨τ, hτ⟩ := Lib.WallClock.search_complete hz h
  exact ⟨_, by rw [instantOf_eq, hτ]; rfl⟩

end Plan

end Kindred.Callbacks
