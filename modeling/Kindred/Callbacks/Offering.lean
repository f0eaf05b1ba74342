import Kindred.Callbacks.Offered
import Kindred.Lib.Smallest

/-! What is promised of the offered slots, and when the cap of a day keeps it. -/

namespace Kindred.Callbacks
open Lib (smallest smallest_lt mem_of_mem_smallest length_smallest countP_smallest_le mem_smallest_of_lt exists_le_smallest smallest_lt_of_countP nodup_fresh)
open Lib.WallClock (wall)

def CallbackSlot.instant (s : CallbackSlot) : Int := s.at_.instant

variable {j k : ℕ} {t : Int} {days : List ℕ}

namespace Plan

def shown (p : Plan) (t : Int) : Int := wall p.tz.offset (t / minute)

def earlier (p : Plan) (offset : ℕ) (t : Int) : ℕ := (p.reach offset).countP (· < t)

/-- The slots are those of the hours, in order and once each, and none is left out before the last
but by the caps: of a day its first 32. -/
structure Offers (p : Plan) (slots : List CallbackSlot) : Prop where
  increasing : (slots.map CallbackSlot.instant).Pairwise (· < ·)
  total : slots.length ≤ maxCallbackSlots
  perDay : ∀ date : Int,
    (slots.map CallbackSlot.instant).countP (fun t => p.shown t / 1440 = date) ≤
      maxCallbackSlotsPerDay
  starts : ∀ s ∈ slots, s.instant ≤ p.horizon ∧
    ∃ offset ∈ p.openDays, ∃ m ∈ p.starts offset, p.shown s.instant = p.wallOf offset m
  available : ∀ s ∈ slots, s.available = true → p.earliest ≤ s.instant
  complete : ∀ offset ∈ p.openDays, ∀ m ∈ p.starts offset,
    (∃ t, wall p.tz.offset t = p.wallOf offset m) → ∃ t, p.instantOf offset m = some t ∧
      (t ≤ p.horizon → p.earlier offset t < maxCallbackSlotsPerDay →
        (∃ s ∈ slots, t < s.instant) → ∃ s ∈ slots, s.instant = t)

/-- Where the cap of a day leaves a slot out, 32 of the day or 128 in all come before it. -/
def CapsInOrder (p : Plan) : Prop :=
  ∀ offset ∈ p.openDays, ∀ t ∈ p.reach offset, p.earlier offset t < maxCallbackSlotsPerDay →
    t ∈ p.ofDay offset ∨ maxCallbackSlots ≤ (p.openDays.flatMap p.ofDay).countP (· < t)

variable {p : Plan}

theorem gathered_cases (hz : p.tz.Steady) (hpos : 0 < p.slotMinutes) :
    ∃ first rest, p.openDays = first ++ rest ∧
      (p.walkDays (List.range maxWalkDays) {}).instants = first.flatMap p.ofDay ∧
      (rest = [] ∨ maxCallbackSlots ≤ (first.flatMap p.ofDay).length) := by
  obtain ⟨n, heq, hend⟩ := walkDays_eq (w := {}) hz hpos List.pairwise_lt_range
    (fun t ht => (List.not_mem_nil ht).elim)
  have hopen : p.openAmong (List.range maxWalkDays) (p.daysAhead - 0) = p.openDays := rfl
  rw [show ({} : Walk).openDays = 0 from rfl, hopen] at heq hend
  rw [List.nil_append] at heq
  refine ⟨p.openDays.take n, p.openDays.drop n, (List.take_append_drop n _).symm, heq, ?_⟩
  rw [heq] at hend
  exact hend.imp List.drop_eq_nil_of_le id

theorem openDays_lt : p.openDays.Pairwise (· < ·) :=
  (List.pairwise_lt_range.sublist List.filter_sublist).sublist (List.take_sublist _ _)

theorem ofDay_lt (hz : p.tz.Steady) (hpos : 0 < p.slotMinutes) (hjk : j < k) {u : Int}
    (ht : t ∈ p.ofDay j) (hu : u ∈ p.ofDay k) : t < u := by
  obtain ⟨m, hm, -, htm, -⟩ := mem_ofDay hpos ht
  obtain ⟨n, hn, -, hun, -⟩ := mem_ofDay hpos hu
  exact instantOf_lt hz (wallOf_lt hm (.inl hjk)) htm hun

theorem reach_ofDay (hz : p.tz.Steady) (hpos : 0 < p.slotMinutes) (ht : t ∈ p.reach j)
    (ht' : t ∈ p.ofDay k) : j = k := by
  obtain ⟨m, hm, htm, -⟩ := mem_reach.mp ht
  obtain ⟨n, hn, -, htn, -⟩ := mem_ofDay hpos ht'
  have hday := starts_day hpos hm
  rcases Nat.lt_trichotomy j k with hlt | heq | hlt
  · exact absurd (instantOf_lt hz (wallOf_lt hday (.inl hlt)) htm htn) (Int.lt_irrefl _)
  · exact heq
  · exact absurd (instantOf_lt hz (wallOf_lt hn (.inl hlt)) htn htm) (Int.lt_irrefl _)

theorem nodup_gathered (hz : p.tz.Steady) (hpos : 0 < p.slotMinutes) (hdays : days.Pairwise (· < ·))
    : (days.flatMap p.ofDay).Nodup := by
  refine List.nodup_flatMap.mpr ⟨fun k _ => (nodup_fresh _ _).sublist (List.take_sublist _ _), ?_⟩
  refine hdays.imp fun {j k} hjk t ht ht' => ?_
  exact Int.lt_irrefl _ (ofDay_lt hz hpos hjk ht ht')

theorem shown_ofDay (hpos : 0 < p.slotMinutes) (ht : t ∈ p.ofDay k) :
    p.shown t / 1440 = p.date + k := by
  obtain ⟨m, hm, -, htm, -⟩ := mem_ofDay hpos ht
  rw [shown, (instantOf_sound htm).1]
  unfold wallOf
  omega

theorem countP_date (hpos : 0 < p.slotMinutes) (date : Int) (hdays : days.Pairwise (· < ·)) :
    (days.flatMap p.ofDay).countP (fun t => p.shown t / 1440 = date) ≤ maxCallbackSlotsPerDay := by
  induction days with
  | nil => exact Nat.zero_le _
  | cons k days ih =>
    rw [List.flatMap_cons, List.countP_append]
    have hcap : (p.ofDay k).length ≤ maxCallbackSlotsPerDay := List.length_take_le _ _
    by_cases hk : p.date + k = date
    · have hrest : (days.flatMap p.ofDay).countP (fun t => p.shown t / 1440 = date) = 0 := by
        refine List.countP_eq_zero.mpr fun t ht htd => ?_
        obtain ⟨j, hj, htj⟩ := List.mem_flatMap.mp ht
        have hlt := List.rel_of_pairwise_cons hdays hj
        have hshown := shown_ofDay hpos htj
        have htd' : p.shown t / 1440 = date := by simpa using htd
        omega
      rw [hrest]
      exact Nat.le_trans List.countP_le_length hcap
    · have hnone : (p.ofDay k).countP (fun t => p.shown t / 1440 = date) = 0 := by
        refine List.countP_eq_zero.mpr fun t ht htd => ?_
        have hshown := shown_ofDay hpos ht
        have htd' : p.shown t / 1440 = date := by simpa using htd
        omega
      rw [hnone, Nat.zero_add]
      exact ih (List.Pairwise.of_cons hdays)

theorem instant_slot (hz : p.tz.Steady) (hpos : 0 < p.slotMinutes) (ht : t ∈ p.offered) :
    (p.slot t).instant = t := by
  obtain ⟨first, rest, -, hS, -⟩ := gathered_cases hz hpos
  have hmem : t ∈ (p.walkDays (List.range maxWalkDays) {}).instants := mem_of_mem_smallest ht
  rw [hS] at hmem
  obtain ⟨k, -, hk⟩ := List.mem_flatMap.mp hmem
  obtain ⟨m, -, -, htm, -⟩ := mem_ofDay hpos hk
  exact instant_isoWithOffset (instantOf_sound htm).2

theorem instants_offered (hz : p.tz.Steady) (hpos : 0 < p.slotMinutes) :
    (p.offered.map p.slot).map CallbackSlot.instant = p.offered := by
  rw [List.map_map]
  exact (List.map_congr_left fun t ht => instant_slot hz hpos ht).trans (List.map_id _)

theorem exists_instant {slots : List CallbackSlot} {l : List Int}
    (hl : slots.map CallbackSlot.instant = l) (P : Int → Prop) :
    (∃ s ∈ slots, P s.instant) ↔ ∃ r ∈ l, P r := by
  subst hl
  constructor
  · rintro ⟨s, hs, hp⟩
    exact ⟨s.instant, List.mem_map_of_mem hs, hp⟩
  · rintro ⟨r, hr, hp⟩
    obtain ⟨s, hs, rfl⟩ := List.mem_map.mp hr
    exact ⟨s, hs, hp⟩

theorem mem_offered (hz : p.tz.Steady) (hpos : 0 < p.slotMinutes) (hc : p.CapsInOrder) {offset : ℕ}
    (hoffset : offset ∈ p.openDays) {r : Int} (ht : t ∈ p.reach offset)
    (hearly : p.earlier offset t < maxCallbackSlotsPerDay) (hr : r ∈ p.offered) (hlt : t < r) :
    t ∈ p.offered := by
  obtain ⟨first, rest, hdays, hS, -⟩ := gathered_cases hz hpos
  have hordered := openDays_lt (p := p)
  rw [hdays] at hordered hoffset
  change r ∈ smallest maxCallbackSlots (p.walkDays (List.range maxWalkDays) {}).instants at hr
  change t ∈ smallest maxCallbackSlots (p.walkDays (List.range maxWalkDays) {}).instants
  rw [hS] at hr ⊢
  obtain ⟨k, hk, hrk⟩ := List.mem_flatMap.mp (mem_of_mem_smallest hr)
  -- the days that the walk does not come to lie behind `r`
  have hbehind : ∀ j ∈ rest, ∀ u ∈ p.ofDay j, t < u := by
    intro j hj u hu
    have hjk := (List.pairwise_append.mp hordered).2.2 k hk j hj
    exact Int.lt_trans hlt (ofDay_lt hz hpos hjk hrk hu)
  rcases hc offset (hdays ▸ hoffset) t ht hearly with hin | hmany
  · rcases List.mem_append.mp hoffset with hfirst | hrest
    · exact mem_smallest_of_lt (List.mem_flatMap.mpr ⟨offset, hfirst, hin⟩) hr hlt
    · exact absurd (hbehind offset hrest t hin) (Int.lt_irrefl t)
  · rw [hdays, List.flatMap_append, List.countP_append] at hmany
    have hnone : (rest.flatMap p.ofDay).countP (· < t) = 0 := by
      refine List.countP_eq_zero.mpr fun u hu hut => ?_
      obtain ⟨j, hj, huj⟩ := List.mem_flatMap.mp hu
      have := hbehind j hj u huj
      simp only [decide_eq_true_eq] at hut
      omega
    rw [hnone, Nat.add_zero] at hmany
    have := smallest_lt_of_countP hmany r hr
    omega

theorem offers_of_capsInOrder (hz : p.tz.Steady) (hpos : 0 < p.slotMinutes) (hc : p.CapsInOrder) :
    p.Offers (p.offered.map p.slot) := by
  have hinstants := instants_offered hz hpos
  obtain ⟨first, rest, hdays, hS, -⟩ := gathered_cases hz hpos
  have hordered := openDays_lt (p := p)
  rw [hdays] at hordered
  have hfirst := (List.pairwise_append.mp hordered).1
  have hoffered : p.offered = smallest maxCallbackSlots (first.flatMap p.ofDay) :=
    congrArg (smallest maxCallbackSlots) hS
  refine ⟨?_, ?_, fun date => ?_, fun s hs => ?_, fun s hs ha => ?_, ?_⟩
  · rw [hinstants, hoffered]
    exact smallest_lt (nodup_gathered hz hpos hfirst)
  · rw [List.length_map, hoffered, length_smallest]
    exact Nat.min_le_left _ _
  · rw [hinstants, hoffered]
    exact Nat.le_trans (countP_smallest_le _) (countP_date hpos date hfirst)
  · have hmem : s.instant ∈ p.offered := by
      rw [← hinstants]
      exact List.mem_map_of_mem hs
    rw [hoffered] at hmem
    obtain ⟨k, hk, hsk⟩ := List.mem_flatMap.mp (mem_of_mem_smallest hmem)
    obtain ⟨m, -, hm, hsm, hle⟩ := mem_ofDay hpos hsk
    refine ⟨hle, k, ?_, m, hm, (instantOf_sound hsm).1⟩
    rw [hdays]
    exact List.mem_append_left _ hk
  · obtain ⟨t, ht, rfl⟩ := List.mem_map.mp hs
    rw [instant_slot hz hpos ht]
    simp only [slot, Bool.decide_and, Bool.and_eq_true, decide_eq_true_eq] at ha
    exact ha.1
  · intro offset hoffset m hm hshown
    obtain ⟨u, hu⟩ := hshown
    obtain ⟨t, ht⟩ := instantOf_complete hz hu
    refine ⟨t, ht, fun hle hearly hlast => ?_⟩
    obtain ⟨r, hr, hlt⟩ := (exists_instant hinstants fun r => t < r).mp hlast
    refine (exists_instant hinstants fun r => r = t).mpr ⟨t, ?_, rfl⟩
    exact mem_offered hz hpos hc hoffset (mem_reach.mpr ⟨m, hm, ht, hle⟩) hearly hr hlt

/-- A slot that the cap leaves out of its day is left out before the last. -/
theorem capsInOrder_of_offers (hz : p.tz.Steady) (hpos : 0 < p.slotMinutes)
    (h : p.Offers (p.offered.map p.slot)) : p.CapsInOrder := by
  intro offset hoffset t ht hearly
  by_contra hno
  obtain ⟨hout, hfew⟩ := not_or.mp hno
  have hinstants := instants_offered hz hpos
  obtain ⟨first, rest, hdays, hS, hend⟩ := gathered_cases hz hpos
  have hordered := openDays_lt (p := p)
  have hoffered : p.offered = smallest maxCallbackSlots (first.flatMap p.ofDay) :=
    congrArg (smallest maxCallbackSlots) hS
  have hgathered : t ∉ first.flatMap p.ofDay := by
    intro hin
    obtain ⟨k, -, hk⟩ := List.mem_flatMap.mp hin
    exact hout (reach_ofDay hz hpos ht hk ▸ hk)
  have hcount : (first.flatMap p.ofDay).countP (· < t) < maxCallbackSlots := by
    refine Nat.lt_of_le_of_lt ?_ (Nat.lt_of_not_le hfew)
    rw [hdays, List.flatMap_append, List.countP_append]
    exact Nat.le_add_right _ _
  -- the walk comes to the day
  have hfirst : offset ∈ first := by
    rw [hdays] at hoffset hordered
    rcases List.mem_append.mp hoffset with hin | hin
    · exact hin
    · exfalso
      rcases hend with hnil | hmany
      · rw [hnil] at hin
        exact List.not_mem_nil hin
      · have hall : (first.flatMap p.ofDay).countP (· < t) = (first.flatMap p.ofDay).length := by
          refine List.countP_eq_length.mpr fun u hu => ?_
          obtain ⟨k, hk, huk⟩ := List.mem_flatMap.mp hu
          obtain ⟨m, hm, htm, -⟩ := mem_reach.mp ht
          obtain ⟨n, hn, -, hun, -⟩ := mem_ofDay hpos huk
          have hkoff := (List.pairwise_append.mp hordered).2.2 k hk offset hin
          simpa using instantOf_lt hz (wallOf_lt hn (.inl hkoff)) hun htm
        omega
  -- the day is full, and not all of its slots come before `t`
  have hlate : ∃ u ∈ p.ofDay offset, t < u := by
    by_contra hnone
    have hall : ∀ u ∈ p.ofDay offset, decide (u < t) = true := by
      intro u hu
      have hle : u ≤ t := Int.not_lt.mp fun hlt => hnone ⟨u, hu, hlt⟩
      have hne : u ≠ t := fun he => hout (he ▸ hu)
      simp only [decide_eq_true_eq]
      omega
    have hfull : (p.ofDay offset).length = maxCallbackSlotsPerDay := by
      refine List.length_take_of_le (Nat.le_of_not_lt fun hshort => hout ?_)
      rwa [ofDay, List.take_of_length_le (Nat.le_of_lt hshort)]
    have hbelow : (p.ofDay offset).countP (· < t) ≤ p.earlier offset t :=
      (List.take_sublist _ _).countP_le
    rw [List.countP_eq_length.mpr hall, hfull] at hbelow
    omega
  obtain ⟨u, hu, htu⟩ := hlate
  obtain ⟨r, hr, hler⟩ := exists_le_smallest hcount
    (List.mem_flatMap.mpr ⟨offset, hfirst, hu⟩) (Int.le_of_lt htu)
  have hne : t ≠ r := fun he => hgathered (he ▸ mem_of_mem_smallest hr)
  obtain ⟨m, hm, htm, hle⟩ := mem_reach.mp ht
  obtain ⟨t', ht', hoffers⟩ := h.complete offset hoffset m hm ⟨_, (instantOf_sound htm).1⟩
  rw [htm] at ht'
  cases ht'
  have hfound := hoffers hle hearly ((exists_instant hinstants fun r => t < r).mpr
    ⟨r, hoffered ▸ hr, by omega⟩)
  obtain ⟨s, hs, rfl⟩ := (exists_instant hinstants fun r => r = t).mp hfound
  rw [hoffered] at hs
  exact hgathered (mem_of_mem_smallest hs)

end Plan

/-- What is promised of the slots for an input. -/
def Offers (zones : Zones) (input : Input) : Prop :=
  match input.hours with
  | none => computeCallbackSlots zones input = []
  | some hours => (plan zones hours input).Offers (computeCallbackSlots zones input)

def CapsInOrder (zones : Zones) (input : Input) : Prop :=
  ∀ hours ∈ input.hours, (plan zones hours input).CapsInOrder

theorem slotMinutes_pos (zones : Zones) (hours : BusinessHours) (input : Input) :
    0 < (plan zones hours input).slotMinutes := by
  simp only [plan, clampInt]
  split <;> omega

theorem callback_slots_offered (zones : Zones) (hz : ∀ name, (zoneOf zones name).Steady)
    (input : Input) : Offers zones input ↔ CapsInOrder zones input := by
  unfold Offers CapsInOrder computeCallbackSlots
  cases input.hours with
  | none => simp
  | some hours =>
    have hpos := slotMinutes_pos zones hours input
    constructor
    · intro h hours' hhours
      cases hhours
      exact Plan.capsInOrder_of_offers (hz _) hpos h
    · intro h
      exact Plan.offers_of_capsInOrder (hz _) hpos (h hours rfl)

instance (p : Plan) : Decidable p.CapsInOrder := by
  unfold Plan.CapsInOrder
  infer_instance

instance (zones : Zones) (input : Input) : Decidable (CapsInOrder zones input) := by
  unfold CapsInOrder
  infer_instance

def berlin : Zone := { offset := fun t => if t < 29579100 then 60 else 120 }

theorem steady_utc : utc.Steady := ⟨by simp [utc], fun _ => ⟨0, 0, 0, by simp [utc]⟩⟩

theorem steady_berlin : berlin.Steady := by
  refine ⟨fun t => ?_, fun _ => ⟨29579100, 60, 120, fun t _ _ => rfl⟩⟩
  unfold berlin
  dsimp only
  split <;> decide

def someZones : Zones := fun name =>
  if name = "Europe/Berlin" then some berlin else if name = "UTC" then some utc else none

theorem steady_someZones (name : String) : (zoneOf someZones name).Steady := by
  unfold zoneOf someZones
  split
  · exact steady_berlin
  · split <;> exact steady_utc

def onSunday : BusinessHours :=
  { timezone := some "Europe/Berlin"
    weekly := fun key => if key = .sun then some [⟨some "01:00", some "04:00"⟩] else none }

def springForward : Input :=
  { hours := some onSunday, slotMinutes := some 30, daysAhead := some 1, now := 1774738800000 }

theorem callback_slots_offered_sunday :
    Offers someZones springForward ↔ CapsInOrder someZones springForward :=
  callback_slots_offered someZones steady_someZones springForward

example : (computeCallbackSlots someZones springForward).map (fun s => s.at_.text) =
    ["2026-03-29T01:00:00+01:00", "2026-03-29T01:30:00+01:00", "2026-03-29T03:00:00+02:00",
      "2026-03-29T03:30:00+02:00"] := by decide +kernel

def overlapping : BusinessHours :=
  { timezone := some "UTC"
    weekly := fun _ => some [⟨some "09:00", some "14:20"⟩, ⟨some "09:05", some "09:15"⟩] }

def longDay : Input :=
  { hours := some overlapping, slotMinutes := some 10, daysAhead := some 1, now := 1792389600000 }

/-- The first interval fills the day up to 14:10, and 09:05 is left out. -/
theorem slot_left_out : ¬Offers someZones longDay := by
  intro h
  have hopen : 0 ∈ (plan someZones overlapping longDay).openDays := by decide +kernel
  have hstart : 545 ∈ (plan someZones overlapping longDay).starts 0 := by decide +kernel
  have hinstant : (plan someZones overlapping longDay).instantOf 0 545 = some 1792400700000 := by
    decide +kernel
  have hearly : (plan someZones overlapping longDay).earlier 0 1792400700000 < 32 := by
    decide +kernel
  have hslots : (computeCallbackSlots someZones longDay).map CallbackSlot.instant =
      (List.range 32).map fun k => 1792400400000 + 600000 * (k : Int) := by decide +kernel
  have hshown : wall (plan someZones overlapping longDay).tz.offset 29873345 =
      (plan someZones overlapping longDay).wallOf 0 545 := by decide +kernel
  obtain ⟨t, ht, hoffers⟩ := Plan.Offers.complete h 0 hopen 545 hstart ⟨_, hshown⟩
  rw [hinstant] at ht
  cases ht
  have hfound := hoffers (by decide +kernel) hearly
    ((Plan.exists_instant hslots fun r => 1792400700000 < r).mpr (by decide))
  exact absurd ((Plan.exists_instant hslots fun r => r = 1792400700000).mp hfound) (by decide)

end Kindred.Callbacks
