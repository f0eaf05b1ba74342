import Kindred.Database
import Kindred.Lib.WallClock
import Kindred.Rest.Text
import Mathlib.Data.List.Sort

/-! Business hours: a week of intervals with exceptions by date, on the clock of a time zone. -/

namespace Kindred.Callbacks
open Lib.Calendar (monthOf monthStart dayInMonth)

structure Clock where
  h : ℕ
  m : ℕ

def Clock.minutes (t : Clock) : ℕ := t.h * 60 + t.m

/-- The ends are as stored: `none` is anything but a text. -/
structure HoursInterval where
  from_ : Option String
  to_ : Option String

inductive DayKey where
  | sun | mon | tue | wed | thu | fri | sat
  deriving DecidableEq

/-- `closed`: it is `true`, and nothing else; `intervals`: they are a list. -/
structure HoursOverride where
  date : Option String := none
  closed : Bool := false
  intervals : Option (List HoursInterval) := none

/-- A weekday without a list has `none`. -/
structure BusinessHours where
  timezone : Option String := none
  weekly : DayKey → Option (List HoursInterval) := fun _ => none
  overrides : List (Option HoursOverride) := []

def number (cs : List Char) : Option ℕ :=
  if cs.all Char.isDigit then some (Nat.ofDigitChars 10 cs 0) else none

def parseHHMM (v : Option String) : Option Clock :=
  let ofFields (h m : Option ℕ) : Option Clock :=
    match h, m with
    | some h, some m => if h ≤ 23 ∧ m ≤ 59 then some { h, m } else none
    | _, _ => none
  match v with
  | none => none
  | some s =>
    match (Rest.trim s).toList with
    | [a, ':', c, d] => ofFields (number [a]) (number [c, d])
    | [a, b, ':', c, d] => ofFields (number [a, b]) (number [c, d])
    | _ => none

def hhmm (t : Clock) : String := pad 2 t.h ++ ":" ++ pad 2 t.m

def maxIntervalsPerDay : ℕ := 6

def usableIntervals (list : List HoursInterval) : List HoursInterval :=
  let usable := list.filterMap fun raw =>
    match parseHHMM raw.from_, parseHHMM raw.to_ with
    | some f, some t =>
      if f.minutes ≥ t.minutes then none
      else some (f.minutes, ({ from_ := some (hhmm f), to_ := some (hhmm t) } : HoursInterval))
    | _, _ => none
  ((usable.insertionSort fun a b => a.1 ≤ b.1).take maxIntervalsPerDay).map fun x => x.2

structure Zone where
  offset : Int → Int

def utc : Zone := { offset := fun _ => 0 }

/-- What `Intl` knows of the zones: `none` is a name that it does not accept. -/
abbrev Zones := String → Option Zone

def minute : Int := 60000

def day : Int := 24 * 60 * minute

structure Parts where
  y : Int
  mo : Int
  d : Int
  h : Int
  min : Int
  dow : Int

/-- `Date.UTC`, which takes a day beyond the end of its month; `mo` counts from 1. -/
def dateUtc (y mo d h min : Int) : Int :=
  (monthStart (12 * y + (mo - 1)) + (d - 1)) * day + h * (60 * minute) + min * minute

def partsOf (t : Int) : Parts :=
  let date := t / day
  let left := t % day / minute
  { y := monthOf date / 12, mo := monthOf date % 12 + 1, d := dayInMonth date + 1,
    h := left / 60, min := left % 60, dow := (date + 4) % 7 }

def partsInTz (t : Int) (tz : Zone) : Parts := partsOf (t + tz.offset (t / minute) * minute)

def tzWallToUtc (y mo d h min : Int) (tz : Zone) : Int :=
  let guess := dateUtc y mo d h min
  let observed := partsInTz guess tz
  guess + (dateUtc y mo d h min - dateUtc observed.y observed.mo observed.d observed.h observed.min)

def wallPass (target : Int) (tz : Zone) : ℕ → Int → Option Int
  | 0, _ => none
  | n + 1, t =>
    let p := partsInTz t tz
    let diff := target - dateUtc p.y p.mo p.d p.h p.min
    if diff = 0 then some t else wallPass target tz n (t + diff)

def wallInstant (y mo d h min : Int) (tz : Zone) : Option Int :=
  wallPass (dateUtc y mo d h min) tz 3 (tzWallToUtc y mo d h min tz)

def dateKey (y mo d : Int) : String :=
  pad 4 y.toNat ++ "-" ++ pad 2 mo.toNat ++ "-" ++ pad 2 d.toNat

def dayKey (dow : Int) : DayKey :=
  [.sun, .mon, .tue, .wed, .thu, .fri, .sat][dow.toNat]?.getD .mon

def intervalsForDate (weekly : DayKey → Option (List HoursInterval))
    (overrides : List (Option HoursOverride)) (y mo d dow : Int) : List HoursInterval × Bool :=
  let ofWeek := ((weekly (dayKey dow)).getD [], false)
  match overrides.find? fun o => o.any fun o => o.date = some (dateKey y mo d) with
  | some (some hit) =>
    if hit.closed then ([], true)
    else
      match hit.intervals with
      | some intervals => (intervals, false)
      | none => ofWeek
  | _ => ofWeek

/-- An instant as it is written: the wall time of a zone and its offset in minutes, as in
`2026-10-23T16:30:00+03:30`. -/
structure Iso where
  y : Int
  mo : Int
  d : Int
  h : Int
  min : Int
  offset : Int

namespace Iso

def text (i : Iso) : String :=
  let sign := if i.offset < 0 then "-" else "+"
  let abs := i.offset.natAbs
  dateKey i.y i.mo i.d ++ "T" ++ hhmm { h := i.h.toNat, m := i.min.toNat } ++ ":00" ++ sign ++
    hhmm { h := abs / 60, m := abs % 60 }

def instant (i : Iso) : Int := dateUtc i.y i.mo i.d i.h i.min - i.offset * minute

end Iso

def isoWithOffset (t : Int) (tz : Zone) : Iso :=
  let p := partsInTz t tz
  let wall := dateUtc p.y p.mo p.d p.h p.min
  { y := p.y, mo := p.mo, d := p.d, h := p.h, min := p.min
    offset := (wall - t / minute * minute) / minute }

def isValidTimeZone (zones : Zones) (name : Option String) : Bool :=
  name.any fun name => 0 < name.length ∧ name.length ≤ 64 ∧ (zones name).isSome

def callbackHoursTimeZone (zones : Zones) (hours : BusinessHours) (fallback : Option String) :
    String :=
  if isValidTimeZone zones hours.timezone then hours.timezone.getD "UTC"
  else if isValidTimeZone zones fallback then fallback.getD "UTC"
  else "UTC"

def zoneOf (zones : Zones) (name : String) : Zone := (zones name).getD utc

example : hhmm { h := 9, m := 5 } = "09:05" := by decide
example : (isoWithOffset 1792760400000 { offset := fun _ => 210 }).text =
    "2026-10-23T16:30:00+03:30" := by decide +kernel

end Kindred.Callbacks
