import Kindred.Monitoring.Incidents

/-! The life of an incident: when a pass opens and resolves one, and that the index of a pass and the
table tell the same. -/

namespace Kindred.Monitoring.Evaluator
open Lib (Table)
variable {V : Type} {index : Table Id (OpenAlert V)} {events : Table Id (AlertEvent V)}
  {ruleId : Id} {rule : AlertRule V} {result : RuleEvalResult V} {now : Int} {slug : String}
  {flap flap' : FlapState} {open_ : Option (OpenAlert V)} {c : Change V}

def OneOpen (events : Table Id (AlertEvent V)) : Prop :=
  ∀ id id' e e', events.get id = some e → events.get id' = some e' → e.state = .open_ →
    e'.state = .open_ → e.ruleId = e'.ruleId → id = id'

def Mirrors (index : Table Id (OpenAlert V)) (events : Table Id (AlertEvent V)) : Prop :=
  ∀ ruleId entry, index.get ruleId = some entry ↔
    ∃ e, events.get entry.id = some e ∧ e.state = .open_ ∧ e.ruleId = ruleId ∧
      e.openAlert entry.id = entry

def breaches (seen : List Bool) : ℕ := (seen.takeWhile fun breached => breached).length

def clears (seen : List Bool) : ℕ := (seen.takeWhile fun breached => !breached).length

def Streak (flap : FlapState) (seen : List Bool) : Prop :=
  flap.breach ≤ breaches seen ∧ flap.clear ≤ clears seen

theorem oneOpen_of_mirrors (h : Mirrors index events) : OneOpen events := by
  intro id id' e e' he he' ho ho' hrule
  have hentry := (h e.ruleId (e.openAlert id)).mpr ⟨e, he, ho, rfl, rfl⟩
  have hentry' := (h e.ruleId (e'.openAlert id')).mpr ⟨e', he', ho', hrule.symm, rfl⟩
  rw [hentry] at hentry'
  exact congrArg OpenAlert.id (Option.some.inj hentry')

/-- The change that a result asks for, where the rule has the incident `open_` or none. -/
inductive Asked (ruleId : Id) (slug : String) (flap : FlapState) (open_ : Option (OpenAlert V)) :
    Change V → Prop
  | opened (e : AlertEvent V) (ho : open_ = none) (hr : e.ruleId = ruleId) (hs : e.state = .open_)
      (hslug : e.ruleSlug = slug) (hf : openStreak ≤ flap.breach) :
    Asked ruleId slug flap open_ (.opened e)
  | changed (old entry : OpenAlert V) (ho : open_ = some old) (hid : entry.id = old.id)
      (hr : entry.ruleId = old.ruleId) (hslug : entry.ruleSlug = old.ruleSlug) :
    Asked ruleId slug flap open_ (.changed entry)
  | resolved (old : OpenAlert V) (r : Resolution V) (ho : open_ = some old)
      (hf : clearStreak ≤ flap.clear) : Asked ruleId slug flap open_ (.resolved old.id r)

theorem asked_of_result (h : applyRuleResult ruleId rule result now flap open_ = (flap', some c)) :
    Asked ruleId rule.slug flap' open_ c := by
  unfold applyRuleResult at h
  split at h
  · rename_i severity _
    split at h
    · dsimp only at h
      split at h
      · cases h
      · rename_i hstreak
        cases h
        exact .opened _ rfl rfl rfl rfl (Nat.le_of_not_lt hstreak)
    · dsimp only at h
      split at h
      · cases h
        exact .changed _ _ rfl rfl rfl rfl
      · cases h
  · split at h
    · dsimp only at h
      split at h
      · cases h
      · rename_i hstreak
        cases h
        exact .resolved _ _ rfl (Nat.le_of_not_lt hstreak)
    · cases h

variable {seen : List Bool} {s s' : Evaluator V} {e : AlertEvent V} {id : Id}

theorem streak_of_result (hs : Streak flap seen) {change : Option (Change V)}
    (h : applyRuleResult ruleId rule result now flap open_ = (flap', change)) :
    Streak flap' (result.severity.isSome :: seen) := by
  obtain ⟨hbreach, hclear⟩ := hs
  unfold applyRuleResult at h
  split at h
  · rename_i severity hseverity
    have hnew : Streak { breach := flap.breach + 1, clear := 0 } (true :: seen) :=
      ⟨by simpa [breaches] using hbreach, Nat.zero_le _⟩
    rw [hseverity]
    split at h
    · dsimp only at h
      split at h <;> cases h <;> exact hnew
    · dsimp only at h
      split at h <;> cases h <;> exact hnew
  · rename_i hseverity
    rw [hseverity]
    split at h
    · have hnew : Streak { breach := 0, clear := flap.clear + 1 } (false :: seen) :=
        ⟨Nat.zero_le _, by simpa [clears] using hclear⟩
      dsimp only at h
      split at h <;> cases h <;> exact hnew
    · cases h
      exact ⟨Nat.zero_le _, Nat.zero_le _⟩

theorem Streak.settled (h : Streak flap seen) (c : Change V) : Streak (settled c flap) seen := by
  cases c with
  | opened e => exact h
  | changed entry => exact h
  | resolved id r => exact ⟨h.1, Nat.zero_le _⟩

theorem mirrors_opened (hfresh : s.events.get s.made = none) (hm : Mirrors index s.events)
    (ho : index.get e.ruleId = none) (hs : e.state = .open_) :
    Mirrors (index.put e.ruleId (e.openAlert s.made)) (s.events.put s.made e) := by
  intro k entry
  rw [Table.get_put, Table.get_put]
  constructor
  · intro h
    split at h
    · rename_i hk
      cases h
      exact ⟨e, if_pos rfl, hs, hk.symm, rfl⟩
    · obtain ⟨e', he', hopen, hrule, halert⟩ := (hm k entry).mp h
      have hid : entry.id ≠ s.made := by
        intro hid
        rw [hid, hfresh] at he'
        cases he'
      exact ⟨e', (if_neg hid).trans he', hopen, hrule, halert⟩
  · rintro ⟨e', he', hopen, hrule, halert⟩
    split at he'
    · rename_i hid
      cases he'
      rw [if_pos hrule.symm, ← halert, hid]
    · have hentry := (hm k entry).mpr ⟨e', he', hopen, hrule, halert⟩
      rw [if_neg, hentry]
      rintro rfl
      rw [ho] at hentry
      cases hentry

/-- A change to the incident that the index has under a rule, which stays open or does not. -/
theorem mirrors_updated {index' : Table Id (OpenAlert V)} (hm : Mirrors index events)
    {old : OpenAlert V} {f : AlertEvent V → AlertEvent V} (ho : index.get e.ruleId = some old)
    (he : events.get old.id = some e) (hrule : (f e).ruleId = e.ruleId)
    (hself : ∀ entry, index'.get e.ruleId = some entry ↔
      (f e).state = .open_ ∧ (f e).openAlert old.id = entry)
    (hother : ∀ k, k ≠ e.ruleId → index'.get k = index.get k) :
    Mirrors index' (events.update old.id f) := by
  have hid : ∀ k entry e', index.get k = some entry → events.get entry.id = some e' →
      e'.ruleId = k → k ≠ e.ruleId → entry.id ≠ old.id := by
    rintro k entry e' - he' rfl hk hid
    rw [hid, he] at he'
    cases he'
    exact hk rfl
  intro k entry
  rw [Table.get_update]
  by_cases hk : k = e.ruleId
  · subst hk
    rw [hself]
    constructor
    · rintro ⟨hopen, rfl⟩
      exact ⟨f e, by simp [AlertEvent.openAlert, he], hopen, hrule, rfl⟩
    · rintro ⟨e', he', hopen, hrule', halert⟩
      split at he'
      · rename_i hsame
        rw [he] at he'
        cases he'
        rw [hsame] at halert
        exact ⟨hopen, halert⟩
      · rename_i hdiff
        have hentry := (hm e.ruleId entry).mpr ⟨e', he', hopen, hrule', halert⟩
        rw [ho] at hentry
        cases hentry
        exact absurd rfl hdiff
  · rw [hother k hk]
    constructor
    · intro h
      obtain ⟨e', he', hopen, hrule', halert⟩ := (hm k entry).mp h
      exact ⟨e', (if_neg (hid k entry e' h he' hrule' hk)).trans he', hopen, hrule', halert⟩
    · rintro ⟨e', he', hopen, hrule', halert⟩
      split at he'
      · rw [he] at he'
        cases he'
        exact absurd (hrule'.symm.trans hrule) hk
      · exact (hm k entry).mpr ⟨e', he', hopen, hrule', halert⟩

theorem mirrors_write (hfresh : s.events.get s.made = none) (hm : Mirrors index s.events)
    (ha : Asked ruleId slug flap (index.get ruleId) c) :
    Mirrors (mirrored ruleId s.made c index) (s.write ruleId c).events := by
  generalize ho : index.get ruleId = o at ha
  cases ha with
  | opened e hnone hr hs hslug hf =>
    subst hr hnone
    exact mirrors_opened hfresh hm ho hs
  | changed old entry hold hid hr hslug =>
    subst hold
    obtain ⟨e, he, hopen, rfl, halert⟩ := (hm ruleId old).mp ho
    have hrule : entry.ruleId = e.ruleId := hr.trans (congrArg OpenAlert.ruleId halert).symm
    have hslug' : entry.ruleSlug = e.ruleSlug := hslug.trans (congrArg OpenAlert.ruleSlug halert).symm
    rw [show (s.write e.ruleId (.changed entry)).events = s.events.update old.id _ by
      rw [← hid]; rfl]
    refine mirrors_updated hm ho he rfl (fun entry' => ?_) fun k hk => Table.get_put_ne _ _ hk
    rw [mirrored, Table.get_put_self]
    constructor
    · rintro h
      cases h
      refine ⟨hopen, ?_⟩
      cases entry
      simp_all [AlertEvent.openAlert]
    · rintro ⟨-, rfl⟩
      cases entry
      simp_all [AlertEvent.openAlert]
  | resolved old r hold hf =>
    subst hold
    obtain ⟨e, he, hopen, rfl, halert⟩ := (hm ruleId old).mp ho
    refine mirrors_updated hm ho he rfl (fun entry' => ?_) fun k hk => ?_
    · simp [mirrored, Table.get_erase]
    · simp [mirrored, Table.get_erase, hk]

theorem get_foldl_indexed (rows : List (Id × AlertEvent V)) (index : Table Id (OpenAlert V))
    (ruleId : Id) : (rows.foldl indexed index).get ruleId = (index.get ruleId).or
      ((rows.find? fun r => r.2.ruleId = ruleId).map fun r => r.2.openAlert r.1) := by
  induction rows generalizing index with
  | nil => simp
  | cons row rows ih =>
    rw [List.foldl_cons, ih, indexed]
    by_cases hrule : row.2.ruleId = ruleId
    · cases hget : index.get ruleId with
      | none => simp [hrule, hget]
      | some entry => simp [hrule, hget]
    · split
      · simp [hrule]
      · rw [Table.get_put_ne _ _ (Ne.symm hrule)]
        simp [hrule]

theorem mem_openEvents {row : Id × AlertEvent V} :
    row ∈ openEvents events ↔ events.get row.1 = some row.2 ∧ row.2.state = .open_ := by
  rw [Table.get_eq_some_iff_mem, openEvents, List.mem_reverse, List.mem_filter]
  simp

theorem mirrors_load {maxRows : ℕ} (ho : OneOpen events)
    (hcap : (openEvents events).length ≤ maxRows) :
    Mirrors (loadOpenAlertIndex maxRows events) events := by
  intro k entry
  rw [loadOpenAlertIndex, List.take_of_length_le hcap, get_foldl_indexed, Table.get_empty,
    Option.none_or]
  constructor
  · intro h
    obtain ⟨row, hfind, rfl⟩ := Option.map_eq_some_iff.mp h
    obtain ⟨hget, hopen⟩ := mem_openEvents.mp (List.mem_of_find?_eq_some hfind)
    have hrule := List.find?_some hfind
    exact ⟨row.2, hget, hopen, by simpa using hrule, rfl⟩
  · rintro ⟨e, he, hopen, hrule, halert⟩
    have hmem : (entry.id, e) ∈ openEvents events := mem_openEvents.mpr ⟨he, hopen⟩
    cases hfind : (openEvents events).find? fun r => r.2.ruleId = k with
    | none => simpa [hrule] using List.find?_eq_none.mp hfind _ hmem
    | some row =>
      obtain ⟨hget, hopen'⟩ := mem_openEvents.mp (List.mem_of_find?_eq_some hfind)
      have hrow : row.2.ruleId = k := by simpa using List.find?_some hfind
      have hid := ho row.1 entry.id row.2 e hget he hopen' hopen (hrow.trans hrule.symm)
      rw [hid, he] at hget
      cases hget
      rw [Option.map_some, hid, halert]

section Writes
variable {s : Evaluator V} {k : Id} {e e' : AlertEvent V}

theorem opened_write (ha : Asked ruleId slug flap open_ c) (he : (s.write ruleId c).events.get k = some e')
    (ho : e'.state = .open_) :
    (∃ e, s.events.get k = some e ∧ e.state = .open_ ∧ e.ruleId = e'.ruleId) ∨
      e'.ruleId = ruleId ∧ openStreak ≤ flap.breach := by
  cases ha with
  | opened e hnone hr hs hslug hf =>
    rw [write, Table.get_put] at he
    split at he
    · cases he
      exact .inr ⟨hr, hf⟩
    · exact .inl ⟨e', he, ho, rfl⟩
  | changed old entry hold hid hr hslug =>
    rw [write, Table.get_update] at he
    split at he
    · rename_i hk
      subst hk
      obtain ⟨e, hget, rfl⟩ := Option.map_eq_some_iff.mp he
      exact .inl ⟨e, hget, ho, rfl⟩
    · exact .inl ⟨e', he, ho, rfl⟩
  | resolved old r hold hf =>
    rw [write, Table.get_update] at he
    split at he
    · obtain ⟨e, hget, rfl⟩ := Option.map_eq_some_iff.mp he
      cases ho
    · exact .inl ⟨e', he, ho, rfl⟩

theorem resolved_write (hfresh : s.events.get s.made = none) (hm : Mirrors index s.events)
    (ha : Asked ruleId slug flap (index.get ruleId) c) (he : s.events.get k = some e)
    (ho : e.state = .open_) :
    (∃ e', (s.write ruleId c).events.get k = some e' ∧ e'.state = .open_) ∨
      e.ruleId = ruleId ∧ clearStreak ≤ flap.clear := by
  generalize hget : index.get ruleId = o at ha
  cases ha with
  | opened e₀ hnone hr hs hslug hf =>
    have hk : k ≠ s.made := by
      rintro rfl
      rw [hfresh] at he
      cases he
    exact .inl ⟨e, by rw [write, Table.get_put_ne _ _ hk, he], ho⟩
  | changed old entry hold hid hr hslug =>
    refine .inl ?_
    rw [write, Table.get_update]
    split
    · rename_i hk
      subst hk
      rw [he]
      exact ⟨_, rfl, ho⟩
    · exact ⟨e, he, ho⟩
  | resolved old r hold hf =>
    rw [write, Table.get_update]
    split
    · rename_i hk
      subst hk hold
      obtain ⟨e₀, he₀, -, hrule, -⟩ := (hm ruleId old).mp hget
      rw [he] at he₀
      cases he₀
      exact .inr ⟨hrule, hf⟩
    · exact .inl ⟨e, he, ho⟩

theorem fresh_write (hfresh : ∀ id, s.made ≤ id → s.events.get id = none) (ruleId : Id)
    (c : Change V) :
    ∀ id, (s.write ruleId c).made ≤ id → (s.write ruleId c).events.get id = none := by
  intro id hid
  cases c with
  | opened e =>
    have hlt : s.made < id := hid
    rw [write, Table.get_put_ne _ _ (Nat.ne_of_gt hlt)]
    exact hfresh id (Nat.le_of_lt hlt)
  | changed entry =>
    rw [write, Table.get_update]
    have hnone := hfresh id hid
    split
    · rename_i hk
      rw [← hk, hnone]
      rfl
    · exact hnone
  | resolved id' r =>
    rw [write, Table.get_update]
    have hnone := hfresh id hid
    split
    · rename_i hk
      rw [← hk, hnone]
      rfl
    · exact hnone

theorem events_write_noted (id : Id) (breached : Bool) :
    ((s.noted id flap breached).write ruleId c).events = (s.write ruleId c).events := by
  cases c <;> rfl

theorem made_write_noted (id : Id) (breached : Bool) :
    ((s.noted id flap breached).write ruleId c).made = (s.write ruleId c).made := by
  cases c <;> rfl

theorem flaps_write : (s.write ruleId c).flaps = s.flaps := by
  cases c <;> rfl

theorem seen_write : (s.write ruleId c).seen = s.seen := by
  cases c <;> rfl

theorem streak_noted (h : ∀ id, Streak (s.flapOf id) (s.seenOf id)) {breached : Bool}
    (hs : Streak flap (breached :: s.seenOf id)) (k : Id) :
    Streak ((s.noted id flap breached).flapOf k) ((s.noted id flap breached).seenOf k) := by
  by_cases hk : k = id
  · subst hk
    simpa [noted, flapOf, seenOf] using hs
  · have hget := h k
    simpa [noted, flapOf, seenOf, Table.get_put_ne _ _ hk] using hget

end Writes

inductive Evaluated (s : Evaluator V) (p : Pass V) (id : Id) (rest : List (Id × AlertRule V)) :
    Evaluator V → Prop
  | quiet (flap : FlapState) (breached : Bool)
      (hs : Streak flap (breached :: s.seenOf id)) :
    Evaluated s p id rest
      { s.noted id flap breached with pass := some { p with remaining := rest } }
  | refused (flap : FlapState) (breached : Bool)
      (hs : Streak flap (breached :: s.seenOf id)) :
    Evaluated s p id rest { s.noted id flap breached with pass := none }
  | lost (slug : String) (flap : FlapState) (breached : Bool) (c : Change V)
      (hs : Streak flap (breached :: s.seenOf id)) (ha : Asked id slug flap (p.openIndex.get id) c) :
    Evaluated s p id rest { (s.noted id flap breached).write id c with pass := none }
  | written (slug : String) (flap : FlapState) (breached : Bool) (c : Change V)
      (hs : Streak flap (breached :: s.seenOf id)) (ha : Asked id slug flap (p.openIndex.get id) c) :
    Evaluated s p id rest { (s.noted id flap breached).write id c with
      flaps := (s.noted id flap breached).flaps.put id (settled c flap)
      pass := some { p with remaining := rest, openIndex := mirrored id s.made c p.openIndex } }

structure Sound (s : Evaluator V) : Prop where
  fresh : ∀ id, s.made ≤ id → s.events.get id = none
  oneOpen : OneOpen s.events
  streak : ∀ id, Streak (s.flapOf id) (s.seenOf id)
  mirrors : ∀ p, s.pass = some p → Mirrors p.openIndex s.events

theorem sound_start (maxRows : ℕ) : Sound ({ maxRows } : Evaluator V) where
  fresh := fun _ _ => rfl
  oneOpen := by
    intro id id' e e' he
    rw [Table.get_empty] at he
    cases he
  streak := fun _ => ⟨Nat.zero_le _, Nat.zero_le _⟩
  mirrors := nofun

/-- What a step leaves in the table and in the index. -/
structure Kept (s s' : Evaluator V) : Prop where
  oneOpen : OneOpen s'.events
  opened : ∀ id e', s'.events.get id = some e' → e'.state = .open_ →
    (∃ e, s.events.get id = some e ∧ e.state = .open_ ∧ e.ruleId = e'.ruleId) ∨
      openStreak ≤ breaches (s'.seenOf e'.ruleId)
  resolved : ∀ id e, s.events.get id = some e → e.state = .open_ →
    (∃ e', s'.events.get id = some e' ∧ e'.state = .open_) ∨
      clearStreak ≤ clears (s'.seenOf e.ruleId)
  mirrors : ∀ p, s'.pass = some p → Mirrors p.openIndex s'.events

theorem kept_of_events (ho : OneOpen s.events) (he : s'.events = s.events)
    (hm : ∀ p, s'.pass = some p → Mirrors p.openIndex s'.events) : Kept s s' where
  oneOpen := he ▸ ho
  opened := fun _ e' hget hopen => .inl ⟨e', he ▸ hget, hopen, rfl⟩
  resolved := fun _ e hget hopen => .inl ⟨e, he ▸ hget, hopen⟩
  mirrors := hm

theorem written_step (h : Sound s) (hm : Mirrors index s.events)
    (ha : Asked ruleId slug flap (index.get ruleId) c) (he : s'.events = (s.write ruleId c).events)
    (hmade : s'.made = (s.write ruleId c).made)
    (hstreak : ∀ id, Streak (s'.flapOf id) (s'.seenOf id)) (hs : Streak flap (s'.seenOf ruleId))
    (hpass : ∀ p, s'.pass = some p → p.openIndex = mirrored ruleId s.made c index) :
    Sound s' ∧ Kept s s' := by
  have hfresh := h.fresh s.made le_rfl
  have hm' := mirrors_write hfresh hm ha
  have hmirrors : ∀ p, s'.pass = some p → Mirrors p.openIndex s'.events := by
    intro p hp
    rw [hpass p hp, he]
    exact hm'
  have hone : OneOpen s'.events := he ▸ oneOpen_of_mirrors hm'
  refine ⟨⟨?_, hone, hstreak, hmirrors⟩, ⟨hone, ?_, ?_, hmirrors⟩⟩
  · rw [hmade, he]
    exact fresh_write h.fresh ruleId c
  · intro id e' hget hopen
    obtain hold | ⟨hrule, hf⟩ := opened_write ha (he ▸ hget) hopen
    · exact .inl hold
    · exact .inr (hrule ▸ hf.trans hs.1)
  · intro id e hget hopen
    obtain hnew | ⟨hrule, hf⟩ := resolved_write hfresh hm ha hget hopen
    · exact .inl (he ▸ hnew)
    · exact .inr (hrule ▸ hf.trans hs.2)

theorem Evaluated.step {p : Pass V} {rest : List (Id × AlertRule V)} (h : Sound s)
    (hp : s.pass = some p) (he : Evaluated s p id rest s') : Sound s' ∧ Kept s s' := by
  have hm := h.mirrors p hp
  cases he with
  | quiet flap breached hs =>
    have hmirrors : ∀ p', some { p with remaining := rest } = some p' →
        Mirrors p'.openIndex s.events := by
      intro p' hp'
      cases hp'
      exact hm
    exact ⟨⟨h.fresh, h.oneOpen, streak_noted h.streak hs, hmirrors⟩,
      kept_of_events h.oneOpen rfl hmirrors⟩
  | refused flap breached hs =>
    exact ⟨⟨h.fresh, h.oneOpen, streak_noted h.streak hs, nofun⟩,
      kept_of_events h.oneOpen rfl nofun⟩
  | lost slug flap breached c hs ha =>
    have hnoted := streak_noted h.streak hs
    refine written_step h hm ha (events_write_noted id breached) (made_write_noted id breached)
      (fun k => ?_) ?_ nofun
    · simpa only [flapOf, seenOf, flaps_write, seen_write] using hnoted k
    · simpa [seenOf, seen_write, noted] using hs
  | written slug flap breached c hs ha =>
    have hnoted := streak_noted h.streak hs
    refine written_step h hm ha (events_write_noted id breached) (made_write_noted id breached)
      (fun k => ?_) ?_ ?_
    · by_cases hk : k = id
      · subst hk
        simpa [flapOf, seenOf, seen_write, noted] using hs.settled c
      · have hget := hnoted k
        simpa only [flapOf, seenOf, seen_write, Table.get_put_ne _ _ hk] using hget
    · simpa [seenOf, seen_write, noted] using hs
    · intro p' hp'
      cases hp'
      rfl

section Steps
variable [LE V] [DecidableLE V] [NatCast V] [Div V]

theorem evaluated_evaluateRule (p : Pass V) (id : Id) (rule : AlertRule V)
    (rest : List (Id × AlertRule V)) (hs : Streak (s.flapOf id) (s.seenOf id)) :
    Evaluated s p id rest (s.evaluateRule p id rule rest) := by
  unfold evaluateRule
  dsimp only
  generalize hr : applyRuleResult id rule (evaluate p id rule) p.now (s.flapOf id)
    (p.openIndex.get id) = r
  obtain ⟨flap, change⟩ := r
  have hstreak := streak_of_result hs hr
  unfold carryOut
  cases change with
  | none => exact .quiet flap _ hstreak
  | some c =>
    have hasked := asked_of_result hr
    dsimp only
    split
    · exact .refused flap _ hstreak
    · exact .lost _ flap _ c hstreak hasked
    · exact .written _ flap _ c hstreak hasked

/-- A read at the start of a pass gets every open incident. -/
def Capped (s : Evaluator V) : Action V → Prop
  | .begin _ => (openEvents s.events).length ≤ s.maxRows
  | _ => True

instance (s : Evaluator V) : (a : Action V) → Decidable (s.Capped a)
  | .editRule _ _ => isTrue trivial
  | .begin _ => inferInstanceAs (Decidable (_ ≤ _))
  | .round => isTrue trivial

theorem kept_act {a : Action V} (h : Sound s) (hc : s.Capped a) :
    Sound (s.act a) ∧ Kept s (s.act a) := by
  cases a with
  | editRule id rule =>
    exact ⟨⟨h.fresh, h.oneOpen, h.streak, h.mirrors⟩, kept_of_events h.oneOpen rfl h.mirrors⟩
  | begin r =>
    simp only [act, begin]
    split
    · have hmirrors := mirrors_load h.oneOpen hc
      refine ⟨⟨h.fresh, h.oneOpen, h.streak, ?_⟩, kept_of_events h.oneOpen rfl ?_⟩
      · intro p hp
        cases hp
        exact hmirrors
      · intro p hp
        cases hp
        exact hmirrors
    · exact ⟨h, kept_of_events h.oneOpen rfl h.mirrors⟩
  | round =>
    simp only [act, round]
    split
    · exact ⟨h, kept_of_events h.oneOpen rfl h.mirrors⟩
    · rename_i p hp
      split
      · exact ⟨⟨h.fresh, h.oneOpen, h.streak, nofun⟩, kept_of_events h.oneOpen rfl nofun⟩
      · rename_i id rule rest hrest
        exact (evaluated_evaluateRule p id rule rest (h.streak id)).step h hp

end Steps

end Kindred.Monitoring.Evaluator
