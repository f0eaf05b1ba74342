import Kindred.Callbacks.Instants
import Kindred.Lib.Fresh

/-! What the walk over the days offers. -/

namespace Kindred.Callbacks
open Lib (fresh mem_fresh fresh_append fresh_of_disjoint)

theorem parseHHMM_bounds {v : Option String} {t : Clock} (h : parseHHMM v = some t) :
    t.h ≤ 23 ∧ t.m ≤ 59 := by
  unfold parseHHMM at h
  dsimp only at h
  repeat' split at h
  all_goals cases h
  all_goals assumption

variable {slotMinutes m : ℕ}

variable {it : HoursInterval} {w : Walk}

theorem mem_startsOf (hpos : 0 < slotMinutes) :
    m ∈ startsOf slotMinutes it ↔ ∃ f t, parseHHMM it.from_ = some f ∧ parseHHMM it.to_ = some t ∧
      (∃ k, m = f.minutes + slotMinutes * k) ∧ m < t.minutes := by
  unfold startsOf
  cases hf : parseHHMM it.from_ with
  | none => simp
  | some f =>
    cases ht : parseHHMM it.to_ with
    | none => simp
    | some t =>
      simp only [List.mem_map, List.mem_range, Option.some.injEq]
      have hcount : ∀ k, k < (t.minutes - f.minutes + (slotMinutes - 1)) / slotMinutes ↔
          f.minutes + slotMinutes * k < t.minutes := by
        intro k
        rw [← Nat.succ_le_iff, Nat.le_div_iff_mul_le hpos, Nat.succ_mul, Nat.mul_comm k]
        omega
      constructor
      · rintro ⟨k, hk, rfl⟩
        exact ⟨f, t, rfl, rfl, ⟨k, rfl⟩, (hcount k).mp hk⟩
      · rintro ⟨_, _, rfl, rfl, ⟨k, rfl⟩, hlt⟩
        exact ⟨k, (hcount k).mpr hlt, rfl⟩

theorem startsOf_lt (hpos : 0 < slotMinutes) (it : HoursInterval) :
    (startsOf slotMinutes it).Pairwise (· < ·) := by
  unfold startsOf
  split
  · rw [List.pairwise_map]
    refine List.pairwise_lt_range.imp fun hlt => ?_
    exact Nat.add_lt_add_left (Nat.mul_lt_mul_of_pos_left hlt hpos) _
  · exact .nil

theorem startsOf_day (hpos : 0 < slotMinutes) (h : m ∈ startsOf slotMinutes it) : m < 1440 := by
  obtain ⟨f, t, -, ht, -, hlt⟩ := (mem_startsOf hpos).mp h
  have := parseHHMM_bounds ht
  unfold Clock.minutes at hlt
  omega

namespace Plan

def starts (p : Plan) (offset : ℕ) : List ℕ := (p.usable offset).flatMap (startsOf p.slotMinutes)

def within (p : Plan) (offset : ℕ) (ms : List ℕ) : List Int :=
  (ms.filterMap (p.instantOf offset)).filter fun t => t ≤ p.horizon

def reach (p : Plan) (offset : ℕ) : List Int := fresh [] (p.within offset (p.starts offset))

def ofDay (p : Plan) (offset : ℕ) : List Int := (p.reach offset).take maxCallbackSlotsPerDay

def isOpen (p : Plan) (offset : ℕ) : Bool := p.usable offset ≠ []

def openDays (p : Plan) : List ℕ := ((List.range maxWalkDays).filter p.isOpen).take p.daysAhead

variable {p : Plan} {t : Int} {offset : ℕ} {ms : List ℕ}

theorem within_append (offset : ℕ) (ms ns : List ℕ) :
    p.within offset (ms ++ ns) = p.within offset ms ++ p.within offset ns := by
  simp [within]

theorem mem_within :
    t ∈ p.within offset ms ↔ ∃ m ∈ ms, p.instantOf offset m = some t ∧ t ≤ p.horizon := by
  simp only [within, List.mem_filter, List.mem_filterMap, decide_eq_true_eq]
  constructor
  · rintro ⟨⟨m, hm, ht⟩, hle⟩
    exact ⟨m, hm, ht, hle⟩
  · rintro ⟨m, hm, ht, hle⟩
    exact ⟨⟨m, hm, ht⟩, hle⟩

theorem mem_reach : t ∈ p.reach offset ↔
    ∃ m ∈ p.starts offset, p.instantOf offset m = some t ∧ t ≤ p.horizon := by
  simp [reach, mem_fresh, mem_within]

theorem starts_day (hpos : 0 < p.slotMinutes) (h : m ∈ p.starts offset) : m < 1440 := by
  obtain ⟨it, -, hm⟩ := List.mem_flatMap.mp h
  exact startsOf_day hpos hm

theorem within_of_past (hz : p.tz.Steady) (hms : ∀ n ∈ ms, m < n) (hday : m < 1440)
    (ht : p.instantOf offset m = some t) (hpast : p.horizon < t) : p.within offset ms = [] := by
  refine List.eq_nil_iff_forall_not_mem.mpr fun u hu => ?_
  obtain ⟨n, hn, hun, hle⟩ := mem_within.mp hu
  have hlt := instantOf_lt hz (wallOf_lt hday (.inr ⟨rfl, hms n hn⟩)) ht hun
  omega

theorem walkStarts_eq (hz : p.tz.Steady) (offset : ℕ) (hlt : ms.Pairwise (· < ·))
    (hday : ∀ m ∈ ms, m < 1440) (instants : List Int) (n : ℕ) :
    walkStarts p.horizon (p.instantOf offset) ms (instants, n) =
      let new := (fresh instants (p.within offset ms)).take (maxCallbackSlotsPerDay - n)
      (instants ++ new, n + new.length) := by
  induction ms generalizing instants n with
  | nil => simp [walkStarts, within, fresh]
  | cons m ms ih =>
    have hih := ih (List.Pairwise.of_cons hlt) fun n hn => hday n (List.mem_cons_of_mem _ hn)
    unfold walkStarts
    by_cases hcap : n < maxCallbackSlotsPerDay
    · rw [if_pos hcap]
      cases ht : p.instantOf offset m with
      | none =>
        have hskip : p.within offset (m :: ms) = p.within offset ms := by simp [within, ht]
        rw [hskip]
        exact hih instants n
      | some t =>
        dsimp only
        by_cases hseen : t ∈ instants
        · have hskip : fresh instants (p.within offset (m :: ms)) =
              fresh instants (p.within offset ms) := by
            by_cases hle : t ≤ p.horizon <;> simp [within, ht, hle, fresh, hseen]
          rw [if_pos hseen, hskip]
          exact hih instants n
        · rw [if_neg hseen]
          by_cases hpast : t > p.horizon
          · have hnone : p.within offset (m :: ms) = [] := by
              have hrest := within_of_past hz (fun n hn => List.rel_of_pairwise_cons hlt hn)
                (hday m List.mem_cons_self) ht hpast
              unfold within at hrest ⊢
              simp only [List.filterMap_cons, ht]
              rw [List.filter_cons_of_neg (by simpa using hpast), hrest]
            rw [if_pos hpast, hnone]
            simp [fresh]
          · have hkeep : fresh instants (p.within offset (m :: ms)) =
                t :: fresh (instants ++ [t]) (p.within offset ms) := by
              have hle : t ≤ p.horizon := Int.not_lt.mp hpast
              simp [within, ht, hle, fresh, hseen]
            have hroom : maxCallbackSlotsPerDay - n = maxCallbackSlotsPerDay - (n + 1) + 1 := by
              omega
            rw [if_neg hpast, hkeep, hih, hroom, List.take_succ_cons]
            simp only [List.append_assoc, List.cons_append, List.nil_append, List.length_cons]
            rw [Nat.add_right_comm, Nat.add_assoc]
    · have hfull : maxCallbackSlotsPerDay - n = 0 := by omega
      rw [if_neg hcap, hfull]
      simp

theorem walkIntervals_eq (hz : p.tz.Steady) (hpos : 0 < p.slotMinutes) (offset : ℕ)
    (its : List HoursInterval) (instants : List Int) (n : ℕ) :
    p.walkIntervals offset its (instants, n) = let ms := its.flatMap (startsOf p.slotMinutes)
      let new := (fresh instants (p.within offset ms)).take (maxCallbackSlotsPerDay - n)
      (instants ++ new, n + new.length) := by
  induction its generalizing instants n with
  | nil => simp [walkIntervals, within, fresh]
  | cons it its ih =>
    have hstarts := walkStarts_eq hz offset (startsOf_lt hpos it)
      (fun m hm => startsOf_day hpos hm) instants n
    rw [walkIntervals, hstarts]
    dsimp only
    rw [ih, List.flatMap_cons, within_append, fresh_append, List.take_append]
    generalize fresh instants (p.within offset (startsOf p.slotMinutes it)) = first
    -- either the first interval fills the day, or all of it is taken
    by_cases hfull : maxCallbackSlotsPerDay - n ≤ first.length
    · have hlen : (first.take (maxCallbackSlotsPerDay - n)).length = maxCallbackSlotsPerDay - n :=
        List.length_take_of_le hfull
      have hnone : maxCallbackSlotsPerDay - (n + (maxCallbackSlotsPerDay - n)) = 0 := by omega
      have hnone' : maxCallbackSlotsPerDay - n - first.length = 0 := by omega
      rw [hlen, hnone, hnone']
      simp [hlen]
    · have hall : first.take (maxCallbackSlotsPerDay - n) = first :=
        List.take_of_length_le (by omega)
      rw [hall, Nat.sub_add_eq]
      simp [Nat.add_assoc]

theorem walkDay_eq (hz : p.tz.Steady) (hpos : 0 < p.slotMinutes)
    (hnew : ∀ t ∈ w.instants, ∀ m < 1440, p.instantOf offset m ≠ some t) : p.walkDay offset w =
      if p.isOpen offset then
        { instants := w.instants ++ p.ofDay offset, openDays := w.openDays + 1 }
      else w := by
  unfold walkDay isOpen
  by_cases hclosed : p.usable offset = []
  · simp [hclosed]
  · have hdisjoint : fresh (w.instants ++ []) (p.within offset (p.starts offset)) =
        fresh [] (p.within offset (p.starts offset)) := by
      refine fresh_of_disjoint fun t ht hold => ?_
      obtain ⟨m, hm, htm, -⟩ := mem_within.mp ht
      exact hnew t hold m (starts_day hpos hm) htm
    rw [List.append_nil] at hdisjoint
    rw [if_neg hclosed, walkIntervals_eq hz hpos]
    simp only [hclosed, ne_eq, not_false_eq_true, decide_true, if_true, ofDay, reach]
    rw [← hdisjoint]
    rfl

def openAmong (p : Plan) (offsets : List ℕ) (c : ℕ) : List ℕ := (offsets.filter p.isOpen).take c

theorem mem_ofDay (hpos : 0 < p.slotMinutes) (h : t ∈ p.ofDay offset) :
    ∃ m < 1440, m ∈ p.starts offset ∧ p.instantOf offset m = some t ∧ t ≤ p.horizon := by
  obtain ⟨m, hm, htm, hle⟩ := mem_reach.mp (List.mem_of_mem_take h)
  exact ⟨m, starts_day hpos hm, hm, htm, hle⟩

/-- The walk gathers the slots of the open days in turn, until there are enough of either. -/
theorem walkDays_eq (hz : p.tz.Steady) (hpos : 0 < p.slotMinutes) {offsets : List ℕ}
    (hlt : offsets.Pairwise (· < ·))
    (hnew : ∀ t ∈ w.instants, ∀ k ∈ offsets, ∀ m < 1440, p.instantOf k m ≠ some t) :
    ∃ n, (p.walkDays offsets w).instants =
        w.instants ++ ((p.openAmong offsets (p.daysAhead - w.openDays)).take n).flatMap p.ofDay ∧
      ((p.openAmong offsets (p.daysAhead - w.openDays)).length ≤ n ∨
        maxCallbackSlots ≤ (p.walkDays offsets w).instants.length) := by
  induction offsets generalizing w with
  | nil => exact ⟨0, by simp [walkDays, openAmong], .inl (by simp [openAmong])⟩
  | cons offset offsets ih =>
    unfold walkDays
    by_cases hgo : w.openDays < p.daysAhead ∧ w.instants.length < maxCallbackSlots
    · rw [if_pos hgo, walkDay_eq hz hpos fun t ht => hnew t ht offset List.mem_cons_self]
      have hrest : ∀ t ∈ w.instants, ∀ k ∈ offsets, ∀ m < 1440, p.instantOf k m ≠ some t :=
        fun t ht k hk => hnew t ht k (List.mem_cons_of_mem _ hk)
      by_cases hopen : p.isOpen offset = true
      · rw [if_pos hopen]
        obtain ⟨n, heq, hend⟩ := ih (w := ⟨w.instants ++ p.ofDay offset, w.openDays + 1⟩)
          (List.Pairwise.of_cons hlt) (by
            intro t ht k hk m hm htm
            rcases List.mem_append.mp ht with hold | hday
            · exact hrest t hold k hk m hm htm
            · obtain ⟨m', hm', -, htm', -⟩ := mem_ofDay hpos hday
              have hoff := List.rel_of_pairwise_cons hlt hk
              have := instantOf_lt hz (wallOf_lt hm' (.inl hoff)) htm' htm
              omega)
        have hopenAmong : p.openAmong (offset :: offsets) (p.daysAhead - w.openDays) =
            offset :: p.openAmong offsets (p.daysAhead - (w.openDays + 1)) := by
          have hroom : p.daysAhead - w.openDays = p.daysAhead - (w.openDays + 1) + 1 := by omega
          rw [openAmong, List.filter_cons_of_pos hopen, hroom, List.take_succ_cons, openAmong]
        refine ⟨n + 1, ?_, ?_⟩
        · rw [heq, hopenAmong, List.take_succ_cons, List.flatMap_cons, List.append_assoc]
        · rw [hopenAmong, List.length_cons]
          exact hend.imp Nat.succ_le_succ id
      · rw [if_neg hopen]
        obtain ⟨n, heq, hend⟩ := ih (List.Pairwise.of_cons hlt) hrest
        have hopenAmong : p.openAmong (offset :: offsets) (p.daysAhead - w.openDays) =
            p.openAmong offsets (p.daysAhead - w.openDays) := by
          rw [openAmong, List.filter_cons_of_neg hopen, openAmong]
        rw [hopenAmong]
        exact ⟨n, heq, hend⟩
    · rw [if_neg hgo]
      refine ⟨0, by simp, ?_⟩
      by_cases hdays : w.openDays < p.daysAhead
      · exact .inr (Nat.le_of_not_lt fun hlen => hgo ⟨hdays, hlen⟩)
      · have hnone : p.daysAhead - w.openDays = 0 := by omega
        exact .inl (by simp [openAmong, hnone])

end Plan

end Kindred.Callbacks
