import Kindred.Callbacks.Hours

/-! The times that a visitor may book a callback for. -/

namespace Kindred.Callbacks

structure CallbackSlot where
  at_ : Iso
  available : Bool

def callbackSlotLeadMs : Int := 5 * minute
def callbackSlotToleranceMs : Int := minute
def maxCallbackSlotsPerDay : ℕ := 32
def maxCallbackSlots : ℕ := 4 * maxCallbackSlotsPerDay
def maxWalkDays : ℕ := 62
def callbackBookingMaxAheadMs : Int := 30 * day

/-- A number as its whole part; `none` is no finite number. -/
def clampInt (value : Option Int) (min max default : Int) : Int :=
  match value with
  | none => default
  | some n => Min.min max (Max.max min n)

/-- `hours`: `none` is no object; `booked`: the texts as instants, `none` where a text is none. -/
structure Input where
  hours : Option BusinessHours
  slotMinutes : Option Int
  daysAhead : Option Int
  capacity : Option Int := none
  booked : List (Option Int) := []
  now : Int
  defaultTimeZone : Option String := none

structure Plan where
  tz : Zone
  slotMinutes : ℕ
  daysAhead : ℕ
  capacity : Option Int
  earliest : Int
  horizon : Int
  weekly : DayKey → Option (List HoursInterval)
  overrides : List (Option HoursOverride)
  booked : List Int
  today : Parts

def plan (zones : Zones) (hours : BusinessHours) (input : Input) : Plan :=
  let tz := zoneOf zones (callbackHoursTimeZone zones hours input.defaultTimeZone)
  let capacity := input.capacity.filter fun n => 1 ≤ n
  { tz
    slotMinutes := (clampInt input.slotMinutes 10 240 30).toNat
    daysAhead := (clampInt input.daysAhead 1 14 4).toNat
    capacity
    earliest := input.now + callbackSlotLeadMs
    horizon := input.now + callbackBookingMaxAheadMs
    weekly := hours.weekly
    overrides := hours.overrides
    booked := if capacity = none then [] else input.booked.reduceOption
    today := partsInTz input.now tz }

/-- The minutes from `from_` in steps of a slot that come before `to_`. -/
def startsOf (slotMinutes : ℕ) (it : HoursInterval) : List ℕ :=
  match parseHHMM it.from_, parseHHMM it.to_ with
  | some f, some t =>
    (List.range ((t.minutes - f.minutes + (slotMinutes - 1)) / slotMinutes)).map fun k =>
      f.minutes + slotMinutes * k
  | _, _ => []

def walkStarts (horizon : Int) (instantOf : ℕ → Option Int) :
    List ℕ → List Int × ℕ → List Int × ℕ
  | [], s => s
  | m :: ms, (instants, inDay) =>
    if inDay < maxCallbackSlotsPerDay then
      match instantOf m with
      | none => walkStarts horizon instantOf ms (instants, inDay)
      | some t =>
        if t ∈ instants then walkStarts horizon instantOf ms (instants, inDay)
        else if t > horizon then (instants, inDay)
        else walkStarts horizon instantOf ms (instants ++ [t], inDay + 1)
    else (instants, inDay)

/-- `seen` of the source holds what is in `instants`. -/
structure Walk where
  instants : List Int := []
  openDays : ℕ := 0

namespace Plan

def dayAt (p : Plan) (offset : ℕ) : Parts :=
  partsOf (dateUtc p.today.y p.today.mo (p.today.d + offset) 0 0)

def usable (p : Plan) (offset : ℕ) : List HoursInterval :=
  let date := p.dayAt offset
  usableIntervals (intervalsForDate p.weekly p.overrides date.y date.mo date.d date.dow).1

def instantOf (p : Plan) (offset m : ℕ) : Option Int :=
  let date := p.dayAt offset
  wallInstant date.y date.mo date.d (m / 60 : ℕ) (m % 60 : ℕ) p.tz

def walkIntervals (p : Plan) (offset : ℕ) : List HoursInterval → List Int × ℕ → List Int × ℕ
  | [], s => s
  | it :: its, s =>
    walkIntervals p offset its
      (walkStarts p.horizon (p.instantOf offset) (startsOf p.slotMinutes it) s)

def walkDay (p : Plan) (offset : ℕ) (w : Walk) : Walk :=
  let list := p.usable offset
  if list = [] then w
  else
    { instants := (p.walkIntervals offset list (w.instants, 0)).1, openDays := w.openDays + 1 }

def walkDays (p : Plan) : List ℕ → Walk → Walk
  | [], w => w
  | offset :: offsets, w =>
    if w.openDays < p.daysAhead ∧ w.instants.length < maxCallbackSlots then
      walkDays p offsets (p.walkDay offset w)
    else w

def offered (p : Plan) : List Int :=
  (((p.walkDays (List.range maxWalkDays) {}).instants).insertionSort fun a b => a ≤ b).take
    maxCallbackSlots

def slot (p : Plan) (t : Int) : CallbackSlot :=
  let full := p.capacity.any fun capacity =>
    let end_ := t + p.slotMinutes * minute - callbackSlotToleranceMs
    capacity ≤ ((p.booked.filter fun b => t - callbackSlotToleranceMs ≤ b ∧ b < end_).length : Int)
  { at_ := isoWithOffset t p.tz, available := p.earliest ≤ t ∧ !full }

end Plan

def computeCallbackSlots (zones : Zones) (input : Input) : List CallbackSlot :=
  match input.hours with
  | none => []
  | some hours => (plan zones hours input).offered.map (plan zones hours input).slot

end Kindred.Callbacks
