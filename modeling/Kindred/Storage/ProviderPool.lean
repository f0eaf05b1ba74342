import Kindred.Database

/-!
The pool of storage providers: one primary, and replicas that are filled from
it. Four functions write it, each under one lock and in one transaction; the
audit keeps the gaps and the walks, which is no part of the program.
-/

namespace Kindred.Storage
open Lib (Table Meets)

abbrev Millis := ℤ

/-- `K`: what a configuration is, `S`: the state of a walk. -/
structure Entry (K S : Type) where
  enabled : Bool := true
  config : K
  syncedAt : Option Millis := none
  syncedFrom : Option String := none
  dirtyAt : Option Millis := none
  dirtyReason : Option String := none
  sync : Option S := none

structure Pool (K S : Type) where
  primary : Option String := none
  providers : Table String (Entry K S) := .empty
  revision : ℕ := 0

/-- `storage_provider_pool` and `default_storage_provider` of `app_runtime_config`. -/
structure RuntimeConfig (K S : Type) where
  pool : Option (Pool K S) := none
  defaultProvider : Option (String × K) := none

structure Outcome where
  ok : Bool
  error : Option String := none
  skipped : Option String := none
  marked : Option ℕ := none
  revision : Option ℕ := none

structure ReplicaSync (K S : Type) where
  provider : String
  sync : Option S
  markSynced : Bool
  expectedConfig : K
  expectedPrimary : Option String
  walkStartedAt : Option Millis

section Functions
variable {K S : Type} [DecidableEq K] [DecidableEq S]

namespace RuntimeConfig

def revision (c : RuntimeConfig K S) : ℕ := (c.pool.map Pool.revision).getD 0

def setStorageProviderPool (pool : Pool K S) (defaultProvider : Option (String × K))
    (expectedRevision : Option ℕ) (c : RuntimeConfig K S) : RuntimeConfig K S × Outcome :=
  if expectedRevision.any (· ≠ c.revision) then
    (c, { ok := false, error := some "revision_conflict", revision := some c.revision })
  else
    ({ pool := some { pool with revision := c.revision + 1 }, defaultProvider },
      { ok := true, revision := some (c.revision + 1) })

end RuntimeConfig

def Pool.syncRefusal (p : Pool K S) (entry : Entry K S) (r : ReplicaSync K S) : Option String :=
  if entry.config ≠ r.expectedConfig then some "config_changed"
  else if p.primary.getD "" ≠ r.expectedPrimary.getD "" then some "primary_changed"
  else if r.markSynced ∧ entry.dirtyAt.any fun d => r.walkStartedAt.any fun b => b ≤ d then
    some "replication_gap_during_walk"
  else none

def Entry.synced (entry : Entry K S) (r : ReplicaSync K S) (now : Millis) : Entry K S :=
  if r.markSynced then
    { entry with
      sync := r.sync, syncedAt := some now, syncedFrom := r.expectedPrimary
      dirtyAt := none, dirtyReason := none }
  else { entry with sync := r.sync }

def Entry.dirty (entry : Entry K S) (reason : String) (now : Millis) : Entry K S :=
  { entry with
    syncedAt := none, syncedFrom := none, dirtyAt := some now, dirtyReason := some reason }

namespace RuntimeConfig

/-- Readiness without a primary makes the whole value null, which the column does not take. -/
def setStorageReplicaSync (r : ReplicaSync K S) (now : Millis) (c : RuntimeConfig K S) :
    RuntimeConfig K S × Except String Outcome :=
  match c.pool with
  | none => (c, .ok { ok := false, error := some "pool_missing" })
  | some p =>
    match p.providers.get r.provider with
    | none => (c, .ok { ok := false, error := some "provider_missing" })
    | some entry =>
      match p.syncRefusal entry r with
      | some error => (c, .ok { ok := false, error := some error })
      | none =>
        if r.markSynced ∧ r.expectedPrimary = none then
          (c, .error "null value in column \"value\" violates not-null constraint")
        else
          ({ c with pool := some { p with
              providers := p.providers.put r.provider (entry.synced r now)
              revision := p.revision + 1 } },
            .ok { ok := true, revision := some (p.revision + 1) })

def markStorageReplicaDirty (provider : String) (reason : Option String) (now : Millis)
    (c : RuntimeConfig K S) : RuntimeConfig K S × Outcome :=
  match c.pool with
  | none => (c, { ok := true, skipped := some "pool_missing" })
  | some p =>
    match p.providers.get provider with
    | none => (c, { ok := true, skipped := some "provider_missing" })
    | some entry =>
      ({ c with pool := some { p with
          providers := p.providers.put provider
            (entry.dirty (reason.getD "replication_failed") now)
          revision := p.revision + 1 } },
        { ok := true, revision := some (p.revision + 1) })

def markStorageReplicationUncertain (reason : Option String) (now : Millis)
    (c : RuntimeConfig K S) : RuntimeConfig K S × Outcome :=
  match c.pool with
  | none => (c, { ok := true, marked := some 0 })
  | some p =>
    let marked := p.providers.rows.countP fun r => p.primary ≠ some r.1
    if marked = 0 then (c, { ok := true, marked := some 0 })
    else
      ({ c with pool := some { p with
          providers := p.providers.mapKeyed fun name entry =>
            if p.primary = some name then entry
            else entry.dirty (reason.getD "replication_unresolved") now
          revision := p.revision + 1 } },
        { ok := true, marked := some marked, revision := some (p.revision + 1) })

def entry (c : RuntimeConfig K S) (name : String) : Option (Entry K S) :=
  c.pool.bind fun p => p.providers.get name

def accepts (c : RuntimeConfig K S) (r : ReplicaSync K S) : Bool :=
  c.pool.any fun p => (p.providers.get r.provider).any fun entry =>
    (p.syncRefusal entry r).isNone && !(r.markSynced && r.expectedPrimary.isNone)

def replicas (c : RuntimeConfig K S) : List String :=
  (c.pool.map fun p => (p.providers.rows.map Prod.fst).filter fun name => p.primary ≠ some name)
    |>.getD []

end RuntimeConfig

/-- `gaps`: the replication gaps, with the provider that has one; `earned`: the last batch that made
a provider ready; of the walks and of the readiness it is kept which revision changed them last. -/
structure Audit (K S : Type) where
  config : RuntimeConfig K S := {}
  gaps : List (String × Millis) := []
  earned : Table String (ReplicaSync K S) := .empty
  syncChanged : String → ℕ := fun _ => 0
  readinessChanged : String → ℕ := fun _ => 0

/-- `read` is the revision that a batch started from. -/
inductive PoolEvent (K S : Type) where
  | write (pool : Pool K S) (defaultProvider : Option (String × K)) (expectedRevision : ℕ)
  | replicaSync (r : ReplicaSync K S) (now : Millis) (read : ℕ)
  | dirty (provider : String) (reason : Option String) (now : Millis)
  | uncertain (reason : Option String) (now : Millis)

def Entry.readiness (entry : Entry K S) :
    Option Millis × Option String × Option Millis × Option String :=
  (entry.syncedAt, entry.syncedFrom, entry.dirtyAt, entry.dirtyReason)

namespace Audit

def written (a : Audit K S) : PoolEvent K S → RuntimeConfig K S
  | .write pool defaultProvider expectedRevision =>
    (a.config.setStorageProviderPool pool defaultProvider (some expectedRevision)).1
  | .replicaSync r now _ => (a.config.setStorageReplicaSync r now).1
  | .dirty provider reason now => (a.config.markStorageReplicaDirty provider reason now).1
  | .uncertain reason now => (a.config.markStorageReplicationUncertain reason now).1

def recorded (a : Audit K S) : PoolEvent K S → List (String × Millis)
  | .dirty provider _ now => if (a.config.entry provider).isSome then [(provider, now)] else []
  | .uncertain _ now => a.config.replicas.map fun name => (name, now)
  | _ => []

def step (a : Audit K S) (e : PoolEvent K S) : Audit K S where
  config := a.written e
  gaps := a.gaps ++ a.recorded e
  earned :=
    match e with
    | .replicaSync r _ _ =>
      if r.markSynced && a.config.accepts r then a.earned.put r.provider r else a.earned
    | _ => a.earned
  syncChanged := fun name =>
    if ((a.written e).entry name).map Entry.sync = (a.config.entry name).map Entry.sync then
      a.syncChanged name
    else (a.written e).revision
  readinessChanged := fun name =>
    if ((a.written e).entry name).map Entry.readiness =
        (a.config.entry name).map Entry.readiness then
      a.readinessChanged name
    else (a.written e).revision

/-- The walk of `w` covers every gap that the provider has had. -/
def Covers (a : Audit K S) (w : ReplicaSync K S) (name : String) : Prop :=
  ∀ g, (name, g) ∈ a.gaps → ∃ b, w.walkStartedAt = some b ∧ g < b

/-- Whoever counts as synced from the primary has earned it. -/
def Ready (a : Audit K S) : Prop :=
  ∀ p name entry primary, a.config.pool = some p → p.primary = some primary → name ≠ primary →
    p.providers.get name = some entry → entry.syncedAt.isSome → entry.syncedFrom = some primary →
    ∃ w, a.earned.get name = some w ∧ w.expectedPrimary = some primary ∧
      w.expectedConfig = entry.config ∧ a.Covers w name

/-- Nothing is overwritten that was changed after the revision an operation started from. -/
def Unlost (a : Audit K S) : PoolEvent K S → Prop
  | .write pool defaultProvider expectedRevision =>
    (a.config.setStorageProviderPool pool defaultProvider (some expectedRevision)).2.ok →
      expectedRevision = a.config.revision
  | .replicaSync r _ read => a.config.accepts r →
      a.syncChanged r.provider ≤ read ∧ (r.markSynced → a.readinessChanged r.provider ≤ read)
  | .dirty .. | .uncertain .. => True

def carries (a : Audit K S) (name : String) (entry : Entry K S) : Bool :=
  (a.config.entry name).any fun old =>
    old.syncedAt.isSome && old.syncedFrom = entry.syncedFrom && old.config = entry.config

/-- A whole pool brings no marks of its own; no batch runs beside another writer of its provider's
state; and a gap since the start of a walk still stands when the walk ends. -/
def Careful (a : Audit K S) : PoolEvent K S → Prop
  | .write pool _ expectedRevision => expectedRevision = a.config.revision →
      ∀ r ∈ pool.providers.rows, r.2.syncedAt.isSome → a.carries r.1 r.2
  | .replicaSync r _ read => a.config.accepts r →
      a.syncChanged r.provider ≤ read ∧ (r.markSynced →
        a.readinessChanged r.provider ≤ read ∧ r.walkStartedAt.isSome ∧
        ∀ g ∈ a.gaps, g.1 = r.provider → r.walkStartedAt.all (· ≤ g.2) →
          (a.config.entry r.provider).any fun entry => entry.dirtyAt.any (g.2 ≤ ·))
  | .dirty .. | .uncertain .. => True

instance (a : Audit K S) : (e : PoolEvent K S) → Decidable (a.Careful e)
  | .write .. | .replicaSync .. => by unfold Careful; infer_instance
  | .dirty .. | .uncertain .. => .isTrue trivial

end Audit

end Functions

section Facts
variable {K S : Type}

theorem RuntimeConfig.dirty_cases (provider : String) (reason : Option String) (now : Millis)
    (c : RuntimeConfig K S) :
    (c.entry provider = none ∧ (c.markStorageReplicaDirty provider reason now).1 = c) ∨
      ∃ p entry text, c.pool = some p ∧ p.providers.get provider = some entry ∧
        (c.markStorageReplicaDirty provider reason now).1 = { c with
          pool := some { p with
            providers := p.providers.put provider (entry.dirty text now)
            revision := p.revision + 1 } } := by
  unfold markStorageReplicaDirty RuntimeConfig.entry
  cases hpool : c.pool with
  | none => exact .inl ⟨rfl, rfl⟩
  | some p =>
    dsimp only [Option.bind_some]
    cases hentry : p.providers.get provider with
    | none => exact .inl ⟨rfl, rfl⟩
    | some entry => exact .inr ⟨p, entry, _, rfl, hentry, rfl⟩

theorem RuntimeConfig.uncertain_cases (reason : Option String) (now : Millis)
    (c : RuntimeConfig K S) :
    (c.replicas = [] ∧ (c.markStorageReplicationUncertain reason now).1 = c) ∨
      ∃ p text, c.pool = some p ∧ (c.markStorageReplicationUncertain reason now).1 = { c with
        pool := some { p with
          providers := p.providers.mapKeyed fun name entry =>
            if p.primary = some name then entry else entry.dirty text now
          revision := p.revision + 1 } } := by
  unfold markStorageReplicationUncertain replicas
  cases hpool : c.pool with
  | none => exact .inl ⟨rfl, rfl⟩
  | some p =>
    dsimp only
    split
    · rename_i hnone
      refine .inl ⟨?_, rfl⟩
      rw [Option.map_some, Option.getD_some, List.filter_eq_nil_iff]
      intro name hname
      obtain ⟨row, hrow, rfl⟩ := List.mem_map.mp hname
      exact List.countP_eq_zero.mp hnone row hrow
    · exact .inr ⟨p, _, rfl, rfl⟩

namespace Audit

/-- Every mark was earned by a walk that covers the gaps of its provider. -/
def Sound (a : Audit K S) : Prop :=
  ∀ name entry, a.config.entry name = some entry → entry.syncedAt.isSome →
    ∃ w, a.earned.get name = some w ∧ w.expectedPrimary = entry.syncedFrom ∧
      w.expectedConfig = entry.config ∧ a.Covers w name

theorem ready_of_sound {a : Audit K S} (h : a.Sound) : a.Ready := by
  intro p name entry primary hpool _ _ hentry hsynced hfrom
  have hget : a.config.entry name = some entry := by
    rw [RuntimeConfig.entry, hpool]
    exact hentry
  obtain ⟨w, hw, hprimary, hconfig, hcovers⟩ := h name entry hget hsynced
  exact ⟨w, hw, hprimary.trans hfrom, hconfig, hcovers⟩

theorem sound_start : Sound ({} : Audit K S) := by
  intro name entry hentry
  cases hentry

end Audit

variable [DecidableEq K]

theorem RuntimeConfig.sync_cases (r : ReplicaSync K S) (now : Millis) (c : RuntimeConfig K S) :
    (c.accepts r = false ∧ (c.setStorageReplicaSync r now).1 = c) ∨
      c.accepts r ∧ ∃ p entry, c.pool = some p ∧ p.providers.get r.provider = some entry ∧
        p.syncRefusal entry r = none ∧ (c.setStorageReplicaSync r now).1 = { c with
          pool := some { p with
            providers := p.providers.put r.provider (entry.synced r now)
            revision := p.revision + 1 } } := by
  unfold setStorageReplicaSync accepts
  cases hpool : c.pool with
  | none => exact .inl ⟨rfl, rfl⟩
  | some p =>
    dsimp only [Option.any_some]
    cases hentry : p.providers.get r.provider with
    | none => exact .inl ⟨rfl, rfl⟩
    | some entry =>
      dsimp only [Option.any_some]
      cases hrefusal : p.syncRefusal entry r with
      | some error => exact .inl ⟨rfl, rfl⟩
      | none =>
        dsimp only
        split
        · rename_i hnull
          exact .inl ⟨by simp [hnull.1, hnull.2], rfl⟩
        · rename_i hnull
          refine .inr ⟨?_, p, entry, rfl, hentry, hrefusal, rfl⟩
          cases hmark : r.markSynced <;> cases hprimary : r.expectedPrimary <;> simp_all

theorem syncRefusal_none {p : Pool K S} {entry : Entry K S} {r : ReplicaSync K S}
    (h : p.syncRefusal entry r = none) : entry.config = r.expectedConfig ∧
      (r.markSynced → ∀ d ∈ entry.dirtyAt, ∀ b ∈ r.walkStartedAt, d < b) := by
  unfold Pool.syncRefusal at h
  split at h
  · cases h
  · rename_i hconfig
    split at h
    · cases h
    · split at h
      · cases h
      · rename_i hgap
        refine ⟨not_not.mp hconfig, fun hmark d hd b hb => ?_⟩
        by_contra hle
        refine hgap ⟨hmark, ?_⟩
        rw [Option.mem_def] at hd hb
        simp [hd, hb, not_lt.mp hle]

namespace Audit

theorem unlost_of_careful {a : Audit K S} {e : PoolEvent K S} (hc : a.Careful e) : a.Unlost e := by
  cases e with
  | write pool defaultProvider expectedRevision =>
    intro hok
    by_contra hne
    simp [RuntimeConfig.setStorageProviderPool, hne] at hok
  | replicaSync r now read =>
    intro hyes
    exact ⟨(hc hyes).1, fun hmark => ((hc hyes).2 hmark).1⟩
  | dirty | uncertain => trivial

end Audit

variable [DecidableEq S]

namespace Audit

variable {a : Audit K S}

theorem sound_of_marks (h : a.Sound) {e : PoolEvent K S} (hearned : (a.step e).earned = a.earned)
    (hmarks : ∀ name entry, (a.written e).entry name = some entry → entry.syncedAt.isSome →
      (∃ old, a.config.entry name = some old ∧ old.syncedAt.isSome ∧
        old.syncedFrom = entry.syncedFrom ∧ old.config = entry.config) ∧
      ∀ g, (name, g) ∉ a.recorded e) : (a.step e).Sound := by
  intro name entry hentry hsynced
  obtain ⟨⟨old, hold, hsome, hfrom, hconfig⟩, hgaps⟩ := hmarks name entry hentry hsynced
  obtain ⟨w, hw, hprimary, hwconfig, hcovers⟩ := h name old hold hsome
  refine ⟨w, hearned ▸ hw, hprimary.trans hfrom, hwconfig.trans hconfig, fun g hg => ?_⟩
  exact hcovers g ((List.mem_append.mp hg).resolve_right (hgaps g))

theorem sound_write (h : a.Sound) {pool : Pool K S} {defaultProvider : Option (String × K)}
    {expectedRevision : ℕ} (hc : a.Careful (.write pool defaultProvider expectedRevision)) :
    (a.step (.write pool defaultProvider expectedRevision)).Sound := by
  refine sound_of_marks h rfl fun name entry hentry hsynced => ⟨?_, fun g hg => by cases hg⟩
  simp only [written, RuntimeConfig.setStorageProviderPool, Option.any_some,
    decide_eq_true_eq] at hentry
  split at hentry
  · exact ⟨entry, hentry, hsynced, rfl, rfl⟩
  · rename_i hrevision
    have hrow : (name, entry) ∈ pool.providers.rows := Table.get_eq_some_iff_mem.mp hentry
    have hcarries := hc (not_not.mp hrevision) (name, entry) hrow hsynced
    rw [carries, Option.any_eq_true] at hcarries
    obtain ⟨old, hold, hsame⟩ := hcarries
    simp only [Bool.and_eq_true, decide_eq_true_eq] at hsame
    exact ⟨old, hold, hsame.1.1, hsame.1.2, hsame.2⟩

theorem sound_dirty (h : a.Sound) (provider : String) (reason : Option String) (now : Millis) :
    (a.step (.dirty provider reason now)).Sound := by
  refine sound_of_marks h rfl fun name entry hentry hsynced => ?_
  simp only [written] at hentry
  obtain ⟨hnone, hsame⟩ | ⟨p, old, text, hpool, hold, hsame⟩ :=
    RuntimeConfig.dirty_cases provider reason now a.config
  · rw [hsame] at hentry
    refine ⟨⟨entry, hentry, hsynced, rfl, rfl⟩, fun g hg => ?_⟩
    simp [recorded, hnone] at hg
  · rw [hsame] at hentry
    have hget : (p.providers.put provider (old.dirty text now)).get name = some entry := hentry
    rw [Table.get_put] at hget
    split at hget
    · cases hget
      cases hsynced
    · rename_i hne
      refine ⟨⟨entry, ?_, hsynced, rfl, rfl⟩, fun g hg => ?_⟩
      · rw [RuntimeConfig.entry, hpool]
        exact hget
      · simp only [recorded] at hg
        split at hg
        · exact hne (congrArg Prod.fst (List.mem_singleton.mp hg))
        · cases hg

theorem sound_uncertain (h : a.Sound) (reason : Option String) (now : Millis) :
    (a.step (.uncertain reason now)).Sound := by
  refine sound_of_marks h rfl fun name entry hentry hsynced => ?_
  simp only [written] at hentry
  obtain ⟨hnone, hsame⟩ | ⟨p, text, hpool, hsame⟩ :=
    RuntimeConfig.uncertain_cases reason now a.config
  · rw [hsame] at hentry
    refine ⟨⟨entry, hentry, hsynced, rfl, rfl⟩, fun g hg => ?_⟩
    simp [recorded, hnone] at hg
  · rw [hsame] at hentry
    have hget : (p.providers.mapKeyed fun name entry =>
      if p.primary = some name then entry else entry.dirty text now).get name = some entry := hentry
    rw [Table.get_mapKeyed] at hget
    obtain ⟨old, hold, rfl⟩ := Option.map_eq_some_iff.mp hget
    split at hsynced
    · rename_i hprimary
      refine ⟨⟨old, ?_, hsynced, ?_, ?_⟩, fun g hg => ?_⟩
      · rw [RuntimeConfig.entry, hpool]
        exact hold
      · rw [if_pos hprimary]
      · rw [if_pos hprimary]
      · simp [recorded, RuntimeConfig.replicas, hpool, hprimary] at hg
    · cases hsynced

theorem sound_replicaSync (h : a.Sound) {r : ReplicaSync K S} {now : Millis} {read : ℕ}
    (hc : a.Careful (.replicaSync r now read)) : (a.step (.replicaSync r now read)).Sound := by
  obtain ⟨hno, hsame⟩ | ⟨hyes, p, old, hpool, hold, hrefusal, hsame⟩ :=
    RuntimeConfig.sync_cases r now a.config
  · refine sound_of_marks h (by simp [step, hno]) fun name entry hentry hsynced => ?_
    simp only [written, hsame] at hentry
    exact ⟨⟨entry, hentry, hsynced, rfl, rfl⟩, fun g hg => by cases hg⟩
  · have hprovider : a.config.entry r.provider = some old := by
      rw [RuntimeConfig.entry, hpool]
      exact hold
    have hput : ∀ name entry, (a.written (.replicaSync r now read)).entry name = some entry →
        (p.providers.put r.provider (old.synced r now)).get name = some entry := by
      intro name entry hentry
      simp only [written, hsame] at hentry
      exact hentry
    obtain ⟨hconfig, hgap⟩ := syncRefusal_none hrefusal
    cases hmark : r.markSynced with
    | false =>
      refine sound_of_marks h (by simp [step, hmark]) fun name entry hentry hsynced =>
        ⟨?_, fun g hg => by cases hg⟩
      have hget := hput name entry hentry
      rw [Table.get_put] at hget
      split at hget
      · rename_i hname
        cases hget
        rw [Entry.synced, hmark] at hsynced ⊢
        exact ⟨old, hname ▸ hprovider, hsynced, rfl, rfl⟩
      · refine ⟨entry, ?_, hsynced, rfl, rfl⟩
        rw [RuntimeConfig.entry, hpool]
        exact hget
    | true =>
      obtain ⟨-, hready⟩ := hc hyes
      obtain ⟨-, hstarted, hstands⟩ := hready hmark
      obtain ⟨b, hb⟩ := Option.isSome_iff_exists.mp hstarted
      intro name entry hentry hsynced
      have hget := hput name entry hentry
      rw [Table.get_put] at hget
      have hgaps : (a.step (.replicaSync r now read)).gaps = a.gaps := List.append_nil _
      split at hget
      · rename_i hname
        subst hname
        cases hget
        refine ⟨r, by simp [step, hmark, hyes], by simp [Entry.synced, hmark],
          by simp [Entry.synced, hmark, hconfig], fun g hg => ⟨b, hb, ?_⟩⟩
        rw [hgaps] at hg
        by_contra hle
        have hshown := hstands _ hg rfl (by simpa [hb] using hle)
        simp only [hprovider, Option.any_some, Option.any_eq_true, decide_eq_true_eq] at hshown
        obtain ⟨d, hd, hgd⟩ := hshown
        exact hle (lt_of_le_of_lt hgd (hgap hmark d hd b hb))
      · rename_i hname
        have hbefore : a.config.entry name = some entry := by
          rw [RuntimeConfig.entry, hpool]
          exact hget
        obtain ⟨w, hw, hprimary, hwconfig, hcovers⟩ := h name entry hbefore hsynced
        refine ⟨w, ?_, hprimary, hwconfig, fun g hg => hcovers g (hgaps ▸ hg)⟩
        simp only [step, hmark, hyes, Bool.and_self, if_true]
        rw [Table.get_put_ne _ _ hname]
        exact hw

theorem Sound.step (h : a.Sound) (e : PoolEvent K S) (hc : a.Careful e) : (a.step e).Sound := by
  cases e with
  | write pool defaultProvider expectedRevision => exact sound_write h hc
  | replicaSync r now read => exact sound_replicaSync h hc
  | dirty provider reason now => exact sound_dirty h provider reason now
  | uncertain reason now => exact sound_uncertain h reason now

theorem readiness_of_sound (h : a.Sound) (es : List (PoolEvent K S))
    (hc : Meets step Careful a es) :
    Meets step (fun a e => a.Unlost e ∧ (a.step e).Ready) a es := by
  induction es generalizing a with
  | nil => trivial
  | cons e es ih =>
    have hstep := h.step e hc.1
    exact ⟨⟨unlost_of_careful hc.1, ready_of_sound hstep⟩, ih hstep hc.2⟩

/-- Where a gap stands until a walk that began after it has ended, no batch runs beside another
writer of its provider's state and whole pools bring no marks of their own, whoever counts as synced
from the primary has earned it, and no change is overwritten unseen. -/
theorem readiness_earned (es : List (PoolEvent K S)) (hc : Meets step Careful {} es) :
    Meets step (fun a e => a.Unlost e ∧ (a.step e).Ready) {} es :=
  readiness_of_sound sound_start es hc

end Audit

end Facts

namespace Audit

def twoProviders : Pool ℕ ℕ where
  primary := some "r2"
  providers := (Table.empty.put "r2" { config := 1 }).put "s3" { config := 2 }

def batch (started : Millis) : ReplicaSync ℕ ℕ where
  provider := "s3"
  sync := some 0
  markSynced := true
  expectedConfig := 2
  expectedPrimary := some "r2"
  walkStartedAt := some started

def overtakenRun : List (PoolEvent ℕ ℕ) :=
  [.write twoProviders (some ("r2", 1)) 0, .dirty "s3" none 20, .replicaSync (batch 30) 40 2,
    .replicaSync (batch 10) 50 1]

theorem overtakenRun_ready :
    ¬Meets step (fun a e => a.Unlost e ∧ (a.step e).Ready) {} overtakenRun := by
  intro h
  have hsplit : Meets step (fun a e => a.Unlost e ∧ (a.step e).Ready) {}
    (overtakenRun.take 3 ++ overtakenRun.drop 3) := h
  have hready := hsplit.append_right.1.2
  obtain ⟨w, hw, -, -, hcovers⟩ := hready _ "s3" _ "r2" rfl rfl (by decide) rfl rfl rfl
  obtain rfl : batch 10 = w := Option.some.inj hw
  obtain ⟨b, hb, hlt⟩ := hcovers 20 (by decide)
  cases hb
  exact absurd hlt (by decide)

def repeatedRun : List (PoolEvent ℕ ℕ) :=
  [.write twoProviders (some ("r2", 1)) 0, .dirty "s3" none 20, .replicaSync (batch 10) 25 2,
    .replicaSync (batch 30) 40 2, .uncertain none 50]

theorem repeatedRun_ready :
    Meets step (fun a e => a.Unlost e ∧ (a.step e).Ready) {} repeatedRun :=
  readiness_earned repeatedRun (by decide)

end Audit

end Kindred.Storage
