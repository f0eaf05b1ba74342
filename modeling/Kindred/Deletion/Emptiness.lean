import Kindred.Deletion.ScopeCleanup

/-!
When the walk is over every location was seen to be empty, or is known to be
out of reach; unless a scope moved elsewhere before its first record was saved.
-/

namespace Kindred.Deletion
open Lib (Table Dialogue run Meets)
open Lib.Dialogue (Obeys Setting upon)

abbrev Event := (q : Query) × Answer q

structure Storage where
  saved : ScopeCleanupState := .empty
  trace : List Event := []

def savedAfter (saved : ScopeCleanupState) : (q : Query) → Answer q → ScopeCleanupState
  | .persist state, .saved => state
  | .persist state, .lost _ => state
  | _, _ => saved

def Storage.after (k : Storage) (q : Query) (a : Answer q) : Storage where
  saved := savedAfter k.saved q a
  trace := k.trace ++ [⟨q, a⟩]

structure Cleanup where
  store : Storage := {}
  tick : Option (Dialogue Query Answer (Except Thrown (Outcome × ScopeCleanupState))) := none

inductive Action where
  | begin
  | answer (world : (q : Query) → Answer q)
  | save
  | drop

def step (ctx : ScopeCleanupContext) (s : Cleanup) : Action → Cleanup
  | .begin =>
    match s.tick with
    | none => { s with tick := some (runScopeCleanupTick ctx (reloaded s.store.saved)).run }
    | some _ => s
  | .answer world =>
    match s.tick with
    | some (.ask q k) => { store := s.store.after q (world q), tick := some (k (world q)) }
    | _ => s
  | .save =>
    match s.tick with
    | some (.done (.ok (_, state))) => { store.saved := state, store.trace := s.store.trace }
    | _ => s
  | .drop => { s with tick := none }

def reached (ctx : ScopeCleanupContext) (as : List Action) : Cleanup := run (step ctx) {} as

def Resolution.location : Resolution → Option String
  | .configured config => some (storageConfigFingerprint config)
  | .unconfigured _ => none

def Event.resolution (scope : String) : Event → Option Resolution
  | ⟨.resolve scope', .ok resolution⟩ => if scope' = scope then some resolution else none
  | _ => none

def firstResolution (scope : String) (trace : List Event) : Option Resolution :=
  trace.findSome? (Event.resolution scope)

def Event.foundNothing (prefixKey location : String) : Event → Bool
  | ⟨.list config key none, .ok listing⟩ =>
    key = prefixKey && storageConfigFingerprint config = location && listing.success &&
      listing.keys.getD [] = [] && !truthy listing.nextCursor
  | _ => false

def Event.deletesAt (location : String) : Event → Bool
  | ⟨.delete config _, _⟩ => storageConfigFingerprint config = location
  | _ => false

def seenEmpty (prefixKey location : String) : List Event → Bool
  | [] => false
  | e :: es => e.foundNothing prefixKey location && es.all (!·.deletesAt location) ||
    seenEmpty prefixKey location es

def Proven (ctx : ScopeCleanupContext) (trace : List Event) (state : ScopeCleanupState)
    (scope : String) : Prop :=
  (∃ reason, firstResolution scope trace = some (.unconfigured reason)) ∨
  (∃ config, firstResolution scope trace = some (.configured config) ∧
    seenEmpty ctx.prefixKey (storageConfigFingerprint config) trace) ∨
  ∃ progress, state.get scope = some progress ∧
    (progress.status = .skippedUnreachable ∨
      ∃ target other, progress.dedupOf = some target ∧ state.get target = some other ∧
        other.status = .skippedUnreachable)

def ProvesEmpty (ctx : ScopeCleanupContext) (s : Cleanup) : Prop :=
  ∀ state, s.tick = some (.done (.ok (.advance, state))) →
    ∀ scope ∈ ctx.scopes, Proven ctx s.store.trace state scope

/-- A scope that is reached again without a record still resolves to where it first did. -/
def Steady (k : Storage) : (q : Query) → Answer q → Prop
  | .resolve scope, .ok resolution => k.saved.get scope = none →
      (firstResolution scope k.trace).bind Resolution.location = none ∨
        (firstResolution scope k.trace).bind Resolution.location = resolution.location
  | _, _ => True

instance (k : Storage) (q : Query) (a : Answer q) : Decidable (Steady k q a) := by
  unfold Steady
  split <;> infer_instance

def Stays (s : Cleanup) : Action → Prop
  | .answer world =>
    match s.tick with
    | some (.ask q _) => Steady s.store q (world q)
    | _ => True
  | _ => True

instance (s : Cleanup) (a : Action) : Decidable (Stays s a) := by
  unfold Stays
  split
  · split <;> infer_instance
  · infer_instance

variable {ctx : ScopeCleanupContext} {trace : List Event} {scope location : String} {e : Event}
  {k : Storage} {state : ScopeCleanupState} {α β : Type} {post : Storage → α → Prop}
  {p q : ScopeProgress} {state' : ScopeCleanupState} {u : String}

theorem firstResolution_snoc (e : Event) (h : (firstResolution scope trace).isSome) :
    firstResolution scope (trace ++ [e]) = firstResolution scope trace := by
  obtain ⟨r, hr⟩ := Option.isSome_iff_exists.mp h
  unfold firstResolution at *
  rw [List.findSome?_append, hr]
  rfl

theorem firstResolution_resolve (resolution : Resolution)
    (h : firstResolution scope trace = none) :
    firstResolution scope (trace ++ [⟨.resolve scope, .ok resolution⟩]) = some resolution := by
  unfold firstResolution at *
  rw [List.findSome?_append, h]
  simp [Event.resolution]

variable {prefixKey : String} {m : Prog α}

theorem seenEmpty_snoc (h : seenEmpty prefixKey location trace) (he : ¬e.deletesAt location)
    : seenEmpty prefixKey location (trace ++ [e]) := by
  induction trace with
  | nil => cases h
  | cons d ds ih =>
    simp only [seenEmpty, Bool.or_eq_true, Bool.and_eq_true] at h
    simp only [List.cons_append, seenEmpty, Bool.or_eq_true, Bool.and_eq_true, List.all_append]
    refine h.imp (fun h => ⟨h.1, h.2, ?_⟩) ih
    simpa using he

theorem seenEmpty_found (he : e.foundNothing prefixKey location) :
    seenEmpty prefixKey location (trace ++ [e]) := by
  induction trace with
  | nil => simp [seenEmpty, he]
  | cons d ds ih => simp [seenEmpty, ih]

def ScopeProgress.active (p : ScopeProgress) : Prop := p.status = .inProgress ∨ p.status = .done

def ScopeProgress.proved (p : ScopeProgress) : Prop := p.status = .done ∧ p.verified

structure Copied (state : ScopeCleanupState) (p : ScopeProgress) : Prop where
  proved : p.proved
  target : ∃ t q, p.dedupOf = some t ∧ state.get t = some q ∧ q.proved ∧
    q.fingerprint = p.fingerprint ∧ ¬truthy q.dedupOf

def Located (trace : List Event) (scope location : String) : Prop :=
  (∃ reason, firstResolution scope trace = some (.unconfigured reason)) ∨
    ∃ config, firstResolution scope trace = some (.configured config) ∧
      storageConfigFingerprint config = location

structure RecordSound (ctx : ScopeCleanupContext) (trace : List Event) (state : ScopeCleanupState)
    (scope : String) (p : ScopeProgress) : Prop where
  status : p.active ∨ p.status = .skippedNotConfigured ∨ p.status = .skippedUnreachable
  located : p.active → ∃ config, p.fingerprint = some (storageConfigFingerprint config) ∧
    Located trace scope (storageConfigFingerprint config)
  unconfigured : p.status = .skippedNotConfigured →
    ∃ reason, firstResolution scope trace = some (.unconfigured reason)
  working : p.status = .inProgress → ¬p.verified
  empty : p.proved → ∀ location, p.fingerprint = some location →
    seenEmpty ctx.prefixKey location trace
  copied : truthy p.dedupOf → Copied state p

structure StateSound (ctx : ScopeCleanupContext) (trace : List Event) (state : ScopeCleanupState) :
    Prop where
  record : ∀ scope p, state.get scope = some p → RecordSound ctx trace state scope p
  alone : ∀ scope scope' p q, scope ≠ scope' → state.get scope = some p →
    state.get scope' = some q → p.active → q.active → p.fingerprint = q.fingerprint → p.proved
  reached : ∀ scope, (state.get scope).isSome →
    ∃ front back, ctx.scopes = front ++ scope :: back ∧ ∀ u ∈ front, (state.get u).isSome

theorem truthy_fingerprint (config : StorageConfig) :
    truthy (some (storageConfigFingerprint config)) := by
  simp [truthy, storageConfigFingerprint]

theorem settled_iff :
    p.settled ↔ truthy p.dedupOf ∨ p.status = .skippedNotConfigured ∨
      p.status = .skippedUnreachable ∨ p.status = .failed ∨ p.proved := by
  simp [ScopeProgress.settled, ScopeProgress.proved, or_assoc]

theorem ScopeProgress.proved.settled (h : p.proved) : p.settled :=
  settled_iff.mpr (.inr (.inr (.inr (.inr h))))

def Quiet (state : ScopeCleanupState) (e : Event) : Prop :=
  ∀ scope p location, state.get scope = some p → p.proved → p.fingerprint = some location →
    ¬e.deletesAt location

theorem Located.snoc (h : Located trace scope location) (e : Event) :
    Located (trace ++ [e]) scope location := by
  have hfirst : firstResolution scope (trace ++ [e]) = firstResolution scope trace := by
    refine firstResolution_snoc e ?_
    rcases h with ⟨reason, hr⟩ | ⟨config, hr, -⟩ <;> simp [hr]
  rwa [Located, hfirst]

theorem RecordSound.snoc (h : RecordSound ctx trace state scope p) (hp : state.get scope = some p)
    (he : Quiet state e) :
    RecordSound ctx (trace ++ [e]) state scope p where
  status := h.status
  located hactive := by
    obtain ⟨config, hfingerprint, hlocated⟩ := h.located hactive
    exact ⟨config, hfingerprint, hlocated.snoc e⟩
  unconfigured hs := by
    obtain ⟨reason, hfirst⟩ := h.unconfigured hs
    exact ⟨reason, by rw [firstResolution_snoc e (by simp [hfirst]), hfirst]⟩
  working := h.working
  empty hproved location hlocation :=
    seenEmpty_snoc (h.empty hproved location hlocation) (he scope p location hp hproved hlocation)
  copied := h.copied

theorem StateSound.snoc (h : StateSound ctx trace state) (he : Quiet state e) :
    StateSound ctx (trace ++ [e]) state where
  record scope p hp := (h.record scope p hp).snoc hp he
  alone := h.alone
  reached := h.reached

theorem StateSound.congr (h : StateSound ctx trace state)
    (heq : ∀ scope, state'.get scope = state.get scope) :
    StateSound ctx trace state' where
  record scope p hp := by
    rw [heq] at hp
    have hr := h.record scope p hp
    refine { hr with copied := fun ht => ?_ }
    obtain ⟨hproved, t, q, hto, hq, hrest⟩ := hr.copied ht
    exact ⟨hproved, t, q, hto, by rw [heq, hq], hrest⟩
  alone scope scope' p q hne hp hq := by
    rw [heq] at hp hq
    exact h.alone scope scope' p q hne hp hq
  reached scope hs := by
    rw [heq] at hs
    obtain ⟨front, back, hsplit, hfront⟩ := h.reached scope hs
    exact ⟨front, back, hsplit, fun u hu => by rw [heq]; exact hfront u hu⟩

theorem stateSound_empty (ctx : ScopeCleanupContext) (trace : List Event) :
    StateSound ctx trace .empty := by
  constructor <;> simp

/-- A record that is not settled is rewritten. -/
theorem StateSound.rewrite {p' : ScopeProgress} (h : StateSound ctx trace state)
    (hp : state.get scope = some p) (hopen : ¬p.settled)
    (hfingerprint : p'.fingerprint = p.fingerprint) (hcopy : ¬truthy p'.dedupOf)
    (hstatus : p'.active ∨ p'.status = .skippedUnreachable)
    (hworking : p'.status = .inProgress → ¬p'.verified)
    (hempty : p'.proved → ∀ location, p.fingerprint = some location →
      seenEmpty ctx.prefixKey location trace) : StateSound ctx trace (state.put scope p') := by
  have hr := h.record scope p hp
  have hactive : p.active := by
    rcases hr.status with hs | hs | hs
    · exact hs
    all_goals exact absurd (settled_iff.mpr (by simp [hs])) hopen
  have hlonely : ∀ u q, u ≠ scope → state.get u = some q → q.active →
      q.fingerprint ≠ p.fingerprint := fun u q hne hq hqa heq =>
    hopen (h.alone scope u p q hne.symm hp hq hactive hqa heq.symm).settled
  refine ⟨?_, ?_, ?_⟩
  · intro u q hq
    by_cases hu : u = scope
    · subst hu
      rw [Table.get_put_self] at hq
      cases hq
      obtain ⟨config, hloc, hlocated⟩ := hr.located hactive
      exact {
        status := hstatus.imp_right .inr
        located := fun _ => ⟨config, hfingerprint.trans hloc, hlocated⟩
        unconfigured := fun hs => by
          rcases hstatus with (ha | ha) | ha <;> simp [hs] at ha
        working := hworking
        empty := fun hproved location hl => hempty hproved location (hfingerprint ▸ hl)
        copied := fun ht => absurd ht hcopy }
    · rw [Table.get_put_ne _ _ hu] at hq
      refine { h.record u q hq with copied := fun ht => ?_ }
      obtain ⟨hproved, t, r, hto, hrt, hrproved, hrest⟩ := (h.record u q hq).copied ht
      have hne : t ≠ scope := by
        rintro rfl
        rw [hp] at hrt
        cases hrt
        exact hopen hrproved.settled
      exact ⟨hproved, t, r, hto, by rw [Table.get_put_ne _ _ hne, hrt], hrproved, hrest⟩
  · intro u v q r hne hq hr' hqa hra heq
    by_cases hu : u = scope
    · subst hu
      rw [Table.get_put_self] at hq
      rw [Table.get_put_ne _ _ hne.symm] at hr'
      cases hq
      exact absurd (heq.symm.trans hfingerprint) (hlonely v r hne.symm hr' hra)
    · rw [Table.get_put_ne _ _ hu] at hq
      by_cases hv : v = scope
      · subst hv
        rw [Table.get_put_self] at hr'
        cases hr'
        exact absurd (heq.trans hfingerprint) (hlonely u q hu hq hqa)
      · rw [Table.get_put_ne _ _ hv] at hr'
        exact h.alone u v q r hne hq hr' hqa hra heq
  · intro u hu
    have hkept : ∀ v, (state.get v).isSome → ((state.put scope p').get v).isSome := by
      intro v hv
      rw [Table.get_put]
      split
      · rfl
      · exact hv
    have hu' : (state.get u).isSome := by
      by_cases he : u = scope
      · simp [he, hp]
      · rwa [Table.get_put_ne _ _ he] at hu
    obtain ⟨front, back, hsplit, hfront⟩ := h.reached u hu'
    exact ⟨front, back, hsplit, fun v hv => hkept v (hfront v hv)⟩

/-- A scope gets its first record. -/
theorem StateSound.insert {front back : List String} (h : StateSound ctx trace state)
    (hnew : state.get scope = none) (hscopes : ctx.scopes = front ++ scope :: back)
    (hfront : ∀ u ∈ front, (state.get u).isSome) (hr : RecordSound ctx trace state scope p)
    (halone : p.active → ∀ u q, state.get u = some q → q.active → q.fingerprint = p.fingerprint →
      p.proved ∧ q.proved) : StateSound ctx trace (state.put scope p) := by
  have hother : ∀ u q, state.get u = some q → (state.put scope p).get u = some q := by
    intro u q hq
    rw [Table.get_put_ne _ _ (by rintro rfl; simp [hnew] at hq), hq]
  have hcopied : ∀ q, Copied state q → Copied (state.put scope p) q := by
    rintro q ⟨hproved, t, r, hto, hrt, hrest⟩
    exact ⟨hproved, t, r, hto, hother t r hrt, hrest⟩
  refine ⟨?_, ?_, ?_⟩
  · intro u q hq
    by_cases hu : u = scope
    · subst hu
      rw [Table.get_put_self] at hq
      cases hq
      exact { hr with copied := fun ht => hcopied p (hr.copied ht) }
    · rw [Table.get_put_ne _ _ hu] at hq
      exact { h.record u q hq with copied := fun ht => hcopied q ((h.record u q hq).copied ht) }
  · intro u v q r hne hq hr' hqa hra heq
    by_cases hu : u = scope
    · subst hu
      rw [Table.get_put_self] at hq
      rw [Table.get_put_ne _ _ hne.symm] at hr'
      cases hq
      exact (halone hqa v r hr' hra heq.symm).1
    · rw [Table.get_put_ne _ _ hu] at hq
      by_cases hv : v = scope
      · subst hv
        rw [Table.get_put_self] at hr'
        cases hr'
        exact (halone hra u q hq hqa heq).2
      · rw [Table.get_put_ne _ _ hv] at hr'
        exact h.alone u v q r hne hq hr' hqa hra heq
  · intro u hu
    have hkept : ∀ v, (state.get v).isSome → ((state.put scope p).get v).isSome := by
      intro v hv
      obtain ⟨q, hq⟩ := Option.isSome_iff_exists.mp hv
      simp [hother v q hq]
    by_cases he : u = scope
    · subst he
      exact ⟨front, back, hscopes, fun v hv => hkept v (hfront v hv)⟩
    · rw [Table.get_put_ne _ _ he] at hu
      obtain ⟨front', back', hsplit, hfront'⟩ := h.reached u hu
      exact ⟨front', back', hsplit, fun v hv => hkept v (hfront' v hv)⟩

def setting (ctx : ScopeCleanupContext) : Setting Query Answer Storage where
  may k _ := StateSound ctx k.trace k.saved
  fair := Steady
  after := Storage.after

def Runs {α : Type} (ctx : ScopeCleanupContext) (post : Storage → α → Prop) (k : Storage)
    (m : Prog α) : Prop :=
  Obeys (setting ctx) (upon (fun k _ => StateSound ctx k.trace k.saved) post) k m.run

/-- The state of the tick, beside what was saved. -/
structure Holds (ctx : ScopeCleanupContext) (k : Storage) (state : ScopeCleanupState) : Prop where
  saved : StateSound ctx k.trace k.saved
  memory : StateSound ctx k.trace state
  kept : ∀ scope p, k.saved.get scope = some p →
    (state.get scope).isSome ∧ (p.settled → state.get scope = some p)

theorem runs_pure {a : α} (h : post k a) : Runs ctx post k (pure a) := h

theorem Runs.bind {f : α → Prog β} {post' : Storage → β → Prop} (h : Runs ctx post k m)
    (hf : ∀ k a, post k a → Runs ctx post' k (f a)) :
    Runs ctx post' k (m >>= f) :=
  Obeys.bindExcept h hf

theorem Runs.mono {post' : Storage → α → Prop} (h : Runs ctx post k m)
    (hpost : ∀ k a, post k a → post' k a) : Runs ctx post' k m := by
  refine Obeys.mono h ?_
  rintro k (e | a) ha
  · exact ha
  · exact hpost k a ha

theorem savedAfter_eq {saved : ScopeCleanupState} {q : Query} {a : Answer q}
    (hq : ∀ state, q ≠ .persist state) : savedAfter saved q a = saved := by
  cases q with
  | persist state => exact absurd rfl (hq state)
  | _ => rfl

theorem Holds.quiet_saved (h : Holds ctx k state) (he : Quiet state e) :
    Quiet k.saved e := fun scope p location hp hproved hl =>
  he scope p location ((h.kept scope p hp).2 hproved.settled) hproved hl

theorem Holds.event (h : Holds ctx k state) {q : Query} {a : Answer q}
    (hq : ∀ state, q ≠ .persist state) (he : Quiet state ⟨q, a⟩) :
    Holds ctx (k.after q a) state := by
  have hsaved : (k.after q a).saved = k.saved := savedAfter_eq hq
  refine ⟨?_, h.memory.snoc he, ?_⟩
  · rw [hsaved]
    exact h.saved.snoc (h.quiet_saved he)
  · rw [hsaved]
    exact h.kept

theorem quiet_of_no_delete (he : ∀ location, ¬e.deletesAt location) : Quiet state e :=
  fun _ _ location _ _ _ => he location

theorem holds_self (h : StateSound ctx k.trace k.saved) : Holds ctx k k.saved :=
  ⟨h, h, fun scope p hp => ⟨by simp [hp], fun _ => hp⟩⟩

theorem runs_persist (h : Holds ctx k state) :
    Runs ctx (fun k' _ => Holds ctx k' state) k (persist state) := by
  refine ⟨h.saved, fun a _ => ?_⟩
  have hquiet : ∀ state', Quiet state' ⟨.persist state, a⟩ := fun _ =>
    quiet_of_no_delete fun _ => by simp [Event.deletesAt]
  cases a with
  | saved => exact holds_self (h.memory.snoc (hquiet _))
  | refused why => exact h.saved.snoc (hquiet _)
  | lost why => exact h.memory.snoc (hquiet _)

theorem runs_list (h : Holds ctx k state) (config : StorageConfig) (cursor : Option String) :
    Runs ctx (fun k' listing => Holds ctx k' state ∧
      (cursor = none → listing.success → listing.keys.getD [] = [] ∧ !truthy listing.nextCursor →
        seenEmpty ctx.prefixKey (storageConfigFingerprint config) k'.trace))
      k (listWithConfig config ctx.prefixKey cursor) := by
  refine ⟨h.saved, fun a _ => ?_⟩
  have hnext := h.event (a := a) (q := .list config ctx.prefixKey cursor) (by simp)
    (quiet_of_no_delete fun _ => by simp [Event.deletesAt])
  cases a with
  | error e => exact hnext.saved
  | ok listing =>
    refine ⟨hnext, ?_⟩
    rintro rfl hsuccess ⟨hkeys, hcursor⟩
    refine seenEmpty_found ?_
    simp only [Event.foundNothing, hsuccess, hkeys, hcursor]
    simp

theorem runs_clock (h : Holds ctx k state) :
    Runs ctx (fun k' _ => Holds ctx k' state) k dateNow :=
  ⟨h.saved, fun _ _ => h.event (by simp) (quiet_of_no_delete fun _ => by simp [Event.deletesAt])⟩

def Unproved (state : ScopeCleanupState) (location : String) : Prop :=
  ∀ scope p, state.get scope = some p → p.proved → p.fingerprint ≠ some location

theorem runs_deleteKeys (h : Holds ctx k state) {config : StorageConfig}
    (hfree : Unproved state (storageConfigFingerprint config)) (keys : List String) (deleted : ℕ)
    (lastHeartbeat : Int) :
    Runs ctx (fun k' _ => Holds ctx k' state) k
      (deleteKeysWithRetry ctx config keys deleted lastHeartbeat) := by
  have hasks := deleteKeys_asks ctx config keys deleted lastHeartbeat
  refine Obeys.mono
    (hasks.obeys (I := fun k => Holds ctx k state) h (fun k _ h _ => h.saved) ?_) ?_
  · intro k q a h hq _
    refine h.event (fun state hpersist => by simp [hpersist, Query.deletes] at hq) ?_
    intro scope p location hp hproved hl hdeletes
    cases q with
    | delete config' key =>
      simp only [Event.deletesAt, decide_eq_true_eq] at hdeletes
      exact hfree scope p hp hproved (by rw [hl, ← hdeletes, hq])
    | _ => simp [Event.deletesAt] at hdeletes
  · rintro k (e | deleted) h
    · exact h.saved
    · exact h

structure Opened (state : ScopeCleanupState) (scope location : String) (p : ScopeProgress) :
    Prop where
  get : state.get scope = some p
  opened : ¬p.settled
  fingerprint : p.fingerprint = some location

structure Alike (p q : ScopeProgress) : Prop where
  status : q.status = p.status
  fingerprint : q.fingerprint = p.fingerprint
  dedupOf : q.dedupOf = p.dedupOf
  verified : q.verified = p.verified

theorem StateSound.active (h : StateSound ctx trace state) (hp : Opened state scope location p) :
    p.active := by
  rcases (h.record scope p hp.get).status with hs | hs | hs
  · exact hs
  all_goals exact absurd (settled_iff.mpr (by simp [hs])) hp.opened

theorem Opened.not_copy (hp : Opened state scope location p) : ¬truthy p.dedupOf := fun h =>
  hp.opened (settled_iff.mpr (.inl h))

theorem Opened.not_proved (hp : Opened state scope location p) : ¬p.proved := fun h =>
  hp.opened h.settled

theorem StateSound.unproved (h : StateSound ctx trace state)
    (hp : Opened state scope location p) : Unproved state location := by
  intro u r hr hproved hl
  by_cases hu : u = scope
  · subst hu
    rw [hp.get] at hr
    cases hr
    exact hp.not_proved hproved
  · exact hp.not_proved (h.alone scope u p r (Ne.symm hu) hp.get hr (h.active hp) (.inr hproved.1)
      (hp.fingerprint.trans hl.symm))

theorem Holds.put (h : Holds ctx k state) (hp : Opened state scope location p)
    (hq : StateSound ctx k.trace (state.put scope q)) : Holds ctx k (state.put scope q) := by
  refine ⟨h.saved, hq, fun u r hr => ?_⟩
  obtain ⟨hsome, hsettled⟩ := h.kept u r hr
  by_cases hu : u = scope
  · subst hu
    refine ⟨by simp, fun hs => ?_⟩
    have heq := hsettled hs
    rw [hp.get] at heq
    cases heq
    exact absurd hs hp.opened
  · rw [Table.get_put_ne _ _ hu]
    exact ⟨hsome, hsettled⟩

theorem Holds.alike (h : Holds ctx k state) (hp : Opened state scope location p)
    (hq : Alike p q) : Holds ctx k (state.put scope q) := by
  have hactive := h.memory.active hp
  have hproved : ¬q.proved := fun hq' => hp.not_proved (by
    rwa [ScopeProgress.proved, hq.status, hq.verified] at hq')
  refine h.put hp (h.memory.rewrite hp.get hp.opened hq.fingerprint ?_ (.inl ?_) ?_ ?_)
  · rw [hq.dedupOf]
    exact hp.not_copy
  · rwa [ScopeProgress.active, hq.status]
  · rw [hq.status, hq.verified]
    exact (h.memory.record scope p hp.get).working
  · exact fun hq' => absurd hq' hproved

theorem Holds.failure (h : Holds ctx k state) (hp : Opened state scope location p)
    (hq : Alike p q) (message : String) (httpStatus : Option ℕ) :
    Holds ctx k (state.put scope (q.afterFailure message httpStatus)) := by
  unfold ScopeProgress.afterFailure
  dsimp only
  split
  · refine h.put hp (h.memory.rewrite hp.get hp.opened hq.fingerprint ?_ (.inr rfl) ?_ ?_)
    · exact hq.dedupOf ▸ hp.not_copy
    · simp
    · simp [ScopeProgress.proved]
  · exact h.alike hp ⟨hq.status, hq.fingerprint, hq.dedupOf, hq.verified⟩

def Visited (ctx : ScopeCleanupContext) (state : ScopeCleanupState) (scope : String) (k : Storage)
    (r : Visit × ScopeCleanupState) : Prop :=
  Holds ctx k r.2 ∧ (∀ u p, state.get u = some p → p.settled → r.2.get u = some p) ∧
    match r.1 with
    | .next => ∃ p, r.2.get scope = some p ∧ p.settled
    | .stop outcome => outcome ≠ .advance

theorem settled_put (hp : Opened state scope location p) (q : ScopeProgress) (u : String)
    (r : ScopeProgress) (hr : state.get u = some r) (hs : r.settled) :
    (state.put scope q).get u = some r := by
  rw [Table.get_put_ne, hr]
  rintro rfl
  rw [hp.get] at hr
  cases hr
  exact hp.opened hs

theorem runs_put {v : Visit} (h : Holds ctx k (state.put scope q))
    (hp : Opened state scope location p)
    (hvisit : match v with | .next => q.settled | .stop outcome => outcome ≠ .advance) :
    Runs ctx (Visited ctx state scope) k (do
      persist (state.put scope q)
      pure (v, state.put scope q)) := by
  refine (runs_persist h).bind fun k _ h => runs_pure ⟨h, settled_put hp q, ?_⟩
  cases v with
  | next => exact ⟨q, Table.get_put_self .., hvisit⟩
  | stop outcome => exact hvisit

theorem runs_scopeFailed (h : Holds ctx k state) (hp : Opened state scope location p)
    (hq : Alike p q) (message : String) (httpStatus : Option ℕ) :
    Runs ctx (Visited ctx state scope) k (scopeFailed state scope q message httpStatus) := by
  have hput := h.failure hp hq message httpStatus
  have hrecord : Runs ctx (fun k r => Holds ctx k (state.put scope (q.afterFailure message httpStatus)) ∧
      r = (decide ((q.afterFailure message httpStatus).status = .skippedUnreachable),
        state.put scope (q.afterFailure message httpStatus)))
      k (recordScopeFailure state scope q message httpStatus) :=
    (runs_persist hput).bind fun k _ h => runs_pure ⟨h, rfl⟩
  refine hrecord.bind ?_
  rintro k _ ⟨h, rfl⟩
  refine runs_pure ⟨h, settled_put hp _, ?_⟩
  by_cases hskip : (q.afterFailure message httpStatus).status = .skippedUnreachable
  · simp only [hskip, decide_true, if_true]
    exact ⟨_, Table.get_put_self .., settled_iff.mpr (.inr (.inr (.inl hskip)))⟩
  · simp [hskip]

theorem runs_stop (h : Holds ctx k state) (hp : Opened state scope location p) (hq : Alike p q)
    (message : String) :
    Runs ctx (Visited ctx state scope) k
      (pure (.stop (.error message), state.put scope q)) :=
  runs_pure ⟨h.alike hp hq, settled_put hp q, by simp⟩

theorem runs_verifyScope (h : Holds ctx k state) (config : StorageConfig)
    (hp : Opened state scope (storageConfigFingerprint config) p) (hdone : p.status = .done) :
    Runs ctx (Visited ctx state scope) k (verifyScope ctx state scope p config) := by
  unfold verifyScope
  split
  · exact runs_pure ⟨h, fun _ _ hr _ => hr, by simp⟩
  · refine (runs_list h config none).bind fun k listing hlist => ?_
    obtain ⟨h, hfound⟩ := hlist
    split
    · exact runs_scopeFailed h hp (by constructor <;> rfl) _ _
    · rename_i hsuccess
      have hsuccess : listing.success := by simpa using hsuccess
      dsimp only
      split
      · rename_i hnothing
        have hempty := hfound rfl hsuccess (by simpa using hnothing)
        refine runs_put (v := .next) ?_ hp (settled_iff.mpr (by simp [ScopeProgress.proved, hdone]))
        refine h.put hp (h.memory.rewrite hp.get hp.opened rfl hp.not_copy (.inl (.inr hdone)) ?_ ?_)
        · simp [hdone]
        · intro _ location hl
          rw [hp.fingerprint] at hl
          cases hl
          exact hempty
      · refine (runs_clock h).bind fun k startedAt h => ?_
        refine (runs_deleteKeys h (h.memory.unproved hp) _ _ _).bind fun k delResult h => ?_
        split
        · exact runs_stop h hp (by constructor <;> rfl) _
        · split
          · exact runs_scopeFailed h hp (by constructor <;> rfl) _ _
          · refine runs_put (v := .stop .progress) ?_ hp (by simp)
            refine h.put hp (h.memory.rewrite hp.get hp.opened rfl hp.not_copy (.inl (.inl rfl)) ?_ ?_)
            · simp
            · simp [ScopeProgress.proved]

theorem runs_cleanScope (h : Holds ctx k state) (config : StorageConfig)
    (hp : Opened state scope (storageConfigFingerprint config) p) (hwork : p.status = .inProgress) :
    Runs ctx (Visited ctx state scope) k (cleanScope ctx state scope p config) := by
  have hverified := (h.memory.record scope p hp.get).working hwork
  refine (runs_list h config p.cursor).bind fun k listing hlist => ?_
  obtain ⟨h, -⟩ := hlist
  split
  · exact runs_scopeFailed h hp (by constructor <;> rfl) _ _
  · refine (runs_clock h).bind fun k startedAt h => ?_
    refine (runs_deleteKeys h (h.memory.unproved hp) _ _ _).bind fun k delResult h => ?_
    split
    · exact runs_stop h hp (by constructor <;> rfl) _
    · split
      · exact runs_scopeFailed h hp (by constructor <;> rfl) _ _
      · refine runs_put (v := .stop .progress) ?_ hp (by simp)
        refine h.put hp (h.memory.rewrite hp.get hp.opened rfl hp.not_copy (.inl ?_) ?_ ?_)
        · unfold ScopeProgress.active
          split
          · exact .inl hwork
          · exact .inr rfl
        · exact fun _ => hverified
        · exact fun hproved => absurd hproved.2 hverified

theorem find_done_none {fingerprint : String}
    (h : findDoneScopeWithFingerprint state fingerprint = none) (hq : state.get u = some q)
    (hdone : q.status = .done) (hfingerprint : q.fingerprint = some fingerprint) :
    truthy q.dedupOf := by
  have hnone := List.find?_eq_none.mp (Option.map_eq_none_iff.mp h) _
    (Table.get_eq_some_iff_mem.mp hq)
  simpa [hdone, hfingerprint] using hnone

def Front (ctx : ScopeCleanupContext) (state : ScopeCleanupState) (scope : String) : Prop :=
  ∃ front back, ctx.scopes = front ++ scope :: back ∧
    ∀ u ∈ front, ∃ p, state.get u = some p ∧ p.settled

theorem StateSound.settled_of_new (h : StateSound ctx trace state) (hfront : Front ctx state scope)
    (hnew : state.get scope = none) (hq : state.get u = some q) : q.settled := by
  obtain ⟨front, back, hsplit, hsettled⟩ := hfront
  obtain ⟨front', back', hsplit', hreached⟩ := h.reached u (by simp [hq])
  have hmem : u ∈ front := by
    rw [hsplit] at hsplit'
    rcases List.append_eq_append_iff.mp hsplit' with ⟨mid, hfront', hback⟩ | ⟨mid, hfront, hback⟩
    · cases mid with
      | nil =>
        simp only [List.nil_append, List.cons.injEq] at hback
        rw [← hback.1, hnew] at hq
        cases hq
      | cons v mid =>
        simp only [List.cons_append, List.cons.injEq] at hback
        have hscope := hreached scope (by rw [hfront', hback.1]; simp)
        simp [hnew] at hscope
    · cases mid with
      | nil =>
        simp only [List.nil_append, List.cons.injEq] at hback
        rw [hback.1, hnew] at hq
        cases hq
      | cons v mid =>
        simp only [List.cons_append, List.cons.injEq] at hback
        rw [hfront, hback.1]
        simp
  obtain ⟨p, hp, hs⟩ := hsettled u hmem
  rw [hq] at hp
  cases hp
  exact hs

theorem StateSound.free (h : StateSound ctx trace state) (hfront : Front ctx state scope)
    (hnew : state.get scope = none) (hnone : findDoneScopeWithFingerprint state location = none)
    (hq : state.get u = some q) (hactive : q.active) : q.fingerprint ≠ some location := by
  intro hl
  have hdone : q.status = .done := by
    have hs := settled_iff.mp (h.settled_of_new hfront hnew hq)
    rcases hs with hcopy | hs | hs | hs | hs
    · exact ((h.record u q hq).copied hcopy).proved.1
    · rcases hactive with ha | ha <;> simp [hs] at ha
    · rcases hactive with ha | ha <;> simp [hs] at ha
    · rcases hactive with ha | ha <;> simp [hs] at ha
    · exact hs.1
  obtain ⟨-, t, r, -, hr, hproved, hfingerprint, hcopy⟩ :=
    (h.record u q hq).copied (find_done_none hnone hq hdone hl)
  exact hcopy (find_done_none hnone hr hproved.1 (hfingerprint.trans hl))

theorem Holds.insert (h : Holds ctx k state) (hnew : state.get scope = none)
    (hs : StateSound ctx k.trace (state.put scope p)) : Holds ctx k (state.put scope p) := by
  refine ⟨h.saved, hs, fun u r hr => ?_⟩
  obtain ⟨hsome, hsettled⟩ := h.kept u r hr
  have hne : u ≠ scope := by
    rintro rfl
    simp [hnew] at hsome
  rw [Table.get_put_ne _ _ hne]
  exact ⟨hsome, hsettled⟩

theorem insert_keeps (hnew : state.get scope = none) (q : ScopeProgress) (u : String)
    (r : ScopeProgress) (hr : state.get u = some r) : (state.put scope q).get u = some r := by
  rw [Table.get_put_ne, hr]
  rintro rfl
  simp [hnew] at hr

theorem runs_insert (h : Holds ctx k (state.put scope q)) (hnew : state.get scope = none)
    (hsettled : q.settled) :
    Runs ctx (Visited ctx state scope) k (do
      persist (state.put scope q)
      pure (.next, state.put scope q)) :=
  (runs_persist h).bind fun _ _ h =>
    runs_pure ⟨h, fun u r hr _ => insert_keeps hnew q u r hr, q, Table.get_put_self .., hsettled⟩

theorem Runs.visited {m : Prog (Visit × ScopeCleanupState)}
    (h : Runs ctx (Visited ctx state' scope) k m)
    (hkeep : ∀ u p, state.get u = some p → p.settled → state'.get u = some p) :
    Runs ctx (Visited ctx state scope) k m :=
  h.mono fun _ _ hr => ⟨hr.1, fun u p hp hs => hr.2.1 u p (hkeep u p hp hs) hs, hr.2.2⟩

def Resolved (trace : List Event) (scope : String) : Resolution → Prop
  | .unconfigured _ => ∃ reason, firstResolution scope trace = some (.unconfigured reason)
  | .configured config => Located trace scope (storageConfigFingerprint config)

theorem runs_resolve (h : Holds ctx k state) (scope : String) :
    Runs ctx (fun k' r => Holds ctx k' state ∧
      ∀ resolution, r = .ok resolution → state.get scope = none →
        Resolved k'.trace scope resolution) k (resolve scope) := by
  refine ⟨h.saved, fun a hfair => ?_⟩
  have hnext := h.event (a := a) (q := .resolve scope) (by simp)
    (quiet_of_no_delete fun _ => by simp [Event.deletesAt])
  refine ⟨hnext, ?_⟩
  rintro resolution rfl hnew
  have hsaved : k.saved.get scope = none := by
    cases hs : k.saved.get scope with
    | none => rfl
    | some p => simpa [hnew] using (h.kept scope p hs).1
  have hsteady := hfair hsaved
  show Resolved (k.trace ++ [⟨.resolve scope, .ok resolution⟩]) scope resolution
  cases hfirst : firstResolution scope k.trace with
  | none =>
    have hthis := firstResolution_resolve resolution hfirst
    cases resolution with
    | unconfigured reason => exact ⟨reason, hthis⟩
    | configured config => exact .inr ⟨config, hthis, rfl⟩
  | some first =>
    have hsome : (firstResolution scope k.trace).isSome := by rw [hfirst]; rfl
    have hthis := firstResolution_snoc ⟨.resolve scope, .ok resolution⟩ hsome
    rw [hfirst] at hthis hsteady
    cases first with
    | unconfigured reason =>
      cases resolution with
      | unconfigured _ => exact ⟨reason, hthis⟩
      | configured config => exact .inl ⟨reason, hthis⟩
    | configured config =>
      have hsame : some (storageConfigFingerprint config) = resolution.location := by
        rcases hsteady with hnone | hsame
        · cases hnone
        · exact hsame
      cases resolution with
      | unconfigured _ => cases hsame
      | configured config' => exact .inr ⟨config, hthis, Option.some.inj hsame⟩

theorem driftMessage_none {recorded : Option String} {fresh : String}
    (h : driftMessage scope recorded fresh = none) (hr : truthy recorded) : recorded = some fresh := by
  unfold driftMessage at h
  split at h
  · cases h
  · rename_i hsame
    by_contra hne
    exact hsame ⟨hr, hne⟩

theorem runs_visitScope (h : Holds ctx k state) (hfront : Front ctx state scope)
    (hopen : ∀ p, state.get scope = some p → ¬p.settled) :
    Runs ctx (Visited ctx state scope) k (visitScope ctx state scope) := by
  refine (runs_resolve h scope).bind ?_
  rintro k resolution ⟨h, hresolved⟩
  have hstop : ∀ message, Runs ctx (Visited ctx state scope) k
      (pure (.stop (.error message), state)) := fun message =>
    runs_pure ⟨h, fun _ _ hp _ => hp, by simp⟩
  rcases resolution with e | (config | reason)
  · exact hstop _
  · dsimp only
    split
    · rename_i existing hget
      obtain ⟨config', hlocated, -⟩ := (h.memory.record scope existing hget).located (by
        rcases (h.memory.record scope existing hget).status with hs | hs | hs
        · exact hs
        all_goals exact absurd (settled_iff.mpr (by simp [hs])) (hopen _ hget))
      have hactive := h.memory.active ⟨hget, hopen _ hget, hlocated⟩
      have hopened : driftMessage scope existing.fingerprint (storageConfigFingerprint config) = none →
          Opened state scope (storageConfigFingerprint config) existing := fun hdrift =>
        ⟨hget, hopen _ hget, driftMessage_none hdrift (hlocated ▸ truthy_fingerprint config')⟩
      split
      · rename_i hverify
        cases hdrift : driftMessage scope existing.fingerprint (storageConfigFingerprint config) with
        | some drift =>
          unfold verifyScope
          rw [hdrift]
          exact hstop drift
        | none => exact runs_verifyScope h config (hopened hdrift) hverify.1
      · rename_i hverify
        split
        · exact hstop _
        · rename_i hdrift
          refine runs_cleanScope h config (hopened hdrift) (hactive.resolve_right fun hdone => ?_)
          have hproved : existing.proved := ⟨hdone, by simpa [hdone] using hverify⟩
          exact hopen _ hget hproved.settled
    · rename_i hnew
      have hlocated : Located k.trace scope (storageConfigFingerprint config) := hresolved _ rfl hnew
      obtain ⟨front, back, hsplit, hsettled⟩ := id hfront
      have hreached : ∀ u ∈ front, (state.get u).isSome := fun u hu => by
        obtain ⟨p, hp, -⟩ := hsettled u hu
        simp [hp]
      split
      · rename_i target htarget
        obtain ⟨src, hsrc, hdone, hfingerprint, hcopy⟩ := find_done htarget
        have hproved : src.proved := by
          rcases settled_iff.mp (h.memory.settled_of_new hfront hnew hsrc) with hs | hs | hs | hs | hs
          · exact absurd hs hcopy
          · simp [hs] at hdone
          · simp [hs] at hdone
          · simp [hs] at hdone
          · exact hs
        simp only [hsrc, Option.getD_some]
        refine runs_insert (h.insert hnew (h.memory.insert hnew hsplit hreached ?_ ?_)) hnew
          (settled_iff.mpr (by simp [ScopeProgress.proved, hproved.2]))
        · exact {
            status := .inl (.inr rfl)
            located := fun _ => ⟨config, rfl, hlocated⟩
            unconfigured := by simp
            working := by simp
            empty := by
              rintro - location hl
              cases hl
              exact (h.memory.record target src hsrc).empty hproved _ hfingerprint
            copied := fun _ =>
              ⟨⟨rfl, hproved.2⟩, target, src, rfl, hsrc, hproved, hfingerprint, hcopy⟩ }
        · intro _ u q hq hqa hsame
          refine ⟨⟨rfl, hproved.2⟩, ?_⟩
          by_cases hu : u = target
          · subst hu
            rw [hsrc] at hq
            cases hq
            exact hproved
          · exact h.memory.alone u target q src hu hq hsrc hqa (.inr hdone)
              (hsame.trans hfingerprint.symm)
      · rename_i hnone
        have hinsert : Holds ctx k (state.put scope
            { status := .inProgress, fingerprint := some (storageConfigFingerprint config) }) := by
          refine h.insert hnew (h.memory.insert hnew hsplit hreached ?_ ?_)
          · exact {
              status := .inl (.inl rfl)
              located := fun _ => ⟨config, rfl, hlocated⟩
              unconfigured := by simp
              working := by simp
              empty := by simp [ScopeProgress.proved]
              copied := by simp [truthy] }
          · exact fun _ u q hq hqa hsame =>
              absurd hsame (h.memory.free hfront hnew hnone hq hqa)
        refine (runs_cleanScope hinsert config ⟨Table.get_put_self .., ?_, rfl⟩ rfl).visited
          fun u p hp _ => insert_keeps hnew _ u p hp
        simp [settled_iff, truthy, ScopeProgress.proved]
  · dsimp only
    split
    · rename_i hnew
      obtain ⟨front, back, hsplit, hsettled⟩ := hfront
      have hreached : ∀ u ∈ front, (state.get u).isSome := fun u hu => by
        obtain ⟨p, hp, -⟩ := hsettled u hu
        simp [hp]
      refine runs_insert (h.insert hnew (h.memory.insert hnew hsplit hreached ?_ ?_)) hnew
        (settled_iff.mpr (by simp))
      · exact {
          status := .inr (.inl rfl)
          located := by simp [ScopeProgress.active]
          unconfigured := fun _ => hresolved _ rfl hnew
          working := by simp
          empty := by simp [ScopeProgress.proved]
          copied := by simp [truthy] }
      · simp [ScopeProgress.active]
    · exact hstop _

def Walked (ctx : ScopeCleanupContext) (k : Storage) (r : Outcome × ScopeCleanupState) : Prop :=
  Holds ctx k r.2 ∧ (r.1 = .advance → ∀ scope ∈ ctx.scopes, ∃ p, r.2.get scope = some p ∧ p.settled)

theorem runs_visit (h : Holds ctx k state) (front rest : List String)
    (hsplit : ctx.scopes = front ++ rest)
    (hfront : ∀ u ∈ front, ∃ p, state.get u = some p ∧ p.settled) :
    Runs ctx (Walked ctx) k (visit ctx rest state) := by
  induction rest generalizing k state front with
  | nil =>
    refine runs_pure ⟨h, fun _ scope hscope => hfront scope ?_⟩
    simpa [hsplit] using hscope
  | cons scope rest ih =>
    have hnext : ctx.scopes = (front ++ [scope]) ++ rest := by simp [hsplit]
    unfold visit
    split
    · rename_i hsettled
      obtain ⟨p, hp, hs⟩ := Option.any_eq_true _ _ |>.mp hsettled
      refine ih h (front ++ [scope]) hnext fun u hu => ?_
      rcases List.mem_append.mp hu with hu | hu
      · exact hfront u hu
      · rw [List.mem_singleton.mp hu]
        exact ⟨p, hp, hs⟩
    · rename_i hopen
      have hvisit := runs_visitScope h ⟨front, rest, hsplit, hfront⟩ fun p hp hs =>
        hopen (by simp [hp, hs])
      refine hvisit.bind ?_
      rintro k ⟨visited, state'⟩ ⟨h, hkept, hvisited⟩
      cases visited with
      | next =>
        refine ih h (front ++ [scope]) hnext fun u hu => ?_
        rcases List.mem_append.mp hu with hu | hu
        · obtain ⟨p, hp, hs⟩ := hfront u hu
          exact ⟨p, hkept u p hp hs, hs⟩
        · rw [List.mem_singleton.mp hu]
          exact hvisited
      | stop outcome => exact runs_pure ⟨h, fun hadvance => absurd hadvance hvisited⟩

theorem runs_tick (h : StateSound ctx k.trace k.saved) :
    Runs ctx (Walked ctx) k (runScopeCleanupTick ctx (reloaded k.saved)) := by
  refine runs_visit ⟨h, h.congr (get_reloaded _), fun scope p hp => ?_⟩ [] ctx.scopes rfl (by simp)
  rw [get_reloaded, hp]
  exact ⟨rfl, fun _ => rfl⟩

theorem proven_of_settled (h : StateSound ctx trace state) (hp : state.get scope = some p)
    (hs : p.settled) : Proven ctx trace state scope := by
  have hr := h.record scope p hp
  have hempty : p.proved → Proven ctx trace state scope := by
    intro hproved
    obtain ⟨config, hfingerprint, ⟨reason, hfirst⟩ | ⟨config', hfirst, hsame⟩⟩ :=
      hr.located (.inr hproved.1)
    · exact .inl ⟨reason, hfirst⟩
    · refine .inr (.inl ⟨config', hfirst, ?_⟩)
      rw [hsame]
      exact hr.empty hproved _ hfingerprint
  rcases settled_iff.mp hs with hs | hs | hs | hs | hs
  · exact hempty (hr.copied hs).proved
  · exact .inl (hr.unconfigured hs)
  · exact .inr (.inr ⟨p, hp, .inl hs⟩)
  · rcases hr.status with (ha | ha) | ha | ha <;> simp [hs] at ha
  · exact hempty hs

def Walks (ctx : ScopeCleanupContext) (k : Storage)
    (d : Dialogue Query Answer (Except Thrown (Outcome × ScopeCleanupState))) : Prop :=
  Obeys (setting ctx) (upon (fun k _ => StateSound ctx k.trace k.saved) (Walked ctx)) k d

theorem Walks.saved {d : Dialogue Query Answer (Except Thrown (Outcome × ScopeCleanupState))}
    (h : Walks ctx k d) : StateSound ctx k.trace k.saved := by
  rcases d with (e | r) | ⟨q, next⟩
  · exact h
  · exact h.1.saved
  · exact h.1

structure CleanupSound (ctx : ScopeCleanupContext) (s : Cleanup) : Prop where
  saved : StateSound ctx s.store.trace s.store.saved
  tick : ∀ d, s.tick = some d → Walks ctx s.store d

theorem cleanupSound_step (s : Cleanup) (a : Action) (hs : CleanupSound ctx s) (ha : Stays s a) :
    CleanupSound ctx (step ctx s a) := by
  cases a with
  | begin =>
    simp only [step]
    split
    · refine ⟨hs.saved, ?_⟩
      rintro _ ⟨⟩
      exact runs_tick hs.saved
    · exact hs
  | answer world =>
    simp only [step]
    split
    · rename_i q next hq
      simp only [Stays, hq] at ha
      obtain ⟨-, hobeys⟩ := hs.tick _ hq
      have hnext : Walks ctx (s.store.after q (world q)) (next (world q)) := hobeys (world q) ha
      refine ⟨hnext.saved, ?_⟩
      rintro _ ⟨⟩
      exact hnext
    · exact hs
  | save =>
    simp only [step]
    split
    · rename_i r state hdone
      exact ⟨(hs.tick _ hdone).1.memory, by simp⟩
    · exact hs
  | drop => exact ⟨hs.saved, by simp [step]⟩

/-- A walk whose scopes stay where they first were proves every location empty. -/
theorem advance_proves (ctx : ScopeCleanupContext) (as : List Action)
    (h : Meets (step ctx) Stays {} as) : ProvesEmpty ctx (reached ctx as) := by
  have hs : CleanupSound ctx (reached ctx as) :=
    Lib.run_keeps cleanupSound_step ⟨stateSound_empty ctx _, by simp⟩ h
  intro state hstate scope hscope
  obtain ⟨hholds, hsettled⟩ := hs.tick _ hstate
  obtain ⟨p, hp, hsp⟩ := hsettled rfl scope hscope
  exact proven_of_settled hholds.memory hp hsp

def oneScope : ScopeCleanupContext := ⟨["attachment"], "workspace/1/", 3, 15000⟩

def world (config : StorageConfig) (keys : List String) (saves : Saved) : (q : Query) → Answer q
  | .resolve _ => .ok (.configured config)
  | .list .. => .ok { success := true, keys := some keys }
  | .delete .. => .ok { success := true }
  | .heartbeat => .ok true
  | .persist _ => saves
  | .clock => (0 : Int)

def tickOf (n : ℕ) (world : (q : Query) → Answer q) : List Action :=
  .begin :: List.replicate n (.answer world) ++ [.save]

def movedRun : List Action :=
  let old := world { provider := "s3", bucket := some "old" } ["workspace/1/a"] (.refused .leaseFenced)
  let new := world { provider := "s3", bucket := some "new" } [] .saved
  .begin :: List.replicate 6 (.answer old) ++ [.drop] ++ tickOf 4 new ++
    .begin :: List.replicate 3 (.answer new)

theorem movedRun_proves_nothing : ¬ProvesEmpty oneScope (reached oneScope movedRun) := by
  intro h
  have hproven := h _ rfl "attachment" (by decide)
  rcases hproven with ⟨reason, hfirst⟩ | ⟨config, hfirst, hempty⟩ | ⟨p, hp, hunreachable⟩
  · cases hfirst
  · cases hfirst
    revert hempty
    decide
  · cases hp
    revert hunreachable
    rintro (hs | ⟨_, _, hs, _⟩) <;> cases hs

def steadyRun : List Action :=
  let old := world { provider := "s3", bucket := some "old" } [] .saved
  tickOf 4 old ++ .begin :: List.replicate 3 (.answer old)

theorem steadyRun_proves : ProvesEmpty oneScope (reached oneScope steadyRun) := by
  exact advance_proves oneScope steadyRun (by decide)

end Kindred.Deletion
