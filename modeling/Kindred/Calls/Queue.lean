import Kindred.Database

/-! The call queue: entries that are offered to an operator, accepted, given up or called back, and
the passes that take stale offers back. Every statement is a transaction of its own. -/

namespace Kindred.Calls
open Lib (Table Meets)

inductive QueueChannel where
  | audio | video
  deriving DecidableEq

inductive QueueState where
  | queued | offered | accepted | cancelled | expired | missed | callbackRequested
  deriving DecidableEq

namespace QueueState

def active (s : QueueState) : Bool := s == .queued || s == .offered

def terminal (s : QueueState) : Bool := !s.active

end QueueState

/-- A row of `call_queue_entries`; times are in milliseconds. -/
structure QueueEntry where
  workspaceId : Id
  channel : QueueChannel
  state : QueueState := .queued
  visitorSessionId : Option Id
  callSessionId : Option Id := none
  offeredToUserId : Option Id := none
  offeredAt : Option Int := none
  acceptedAt : Option Int := none
  endedAt : Option Int := none
  endedReason : Option String := none
  expiresAt : Int
  createdAt : Int
  missedOfferCount : ℕ := 0
  lastOfferExpiresAt : Option Int := none
  offerTimeoutSeconds : Int := 25
  slaBreached : Bool := false
  callbackRequestId : Option Id := none

/-- Two entries that `uniq_active_queue_per_visitor_channel` does not let be active at once. -/
def QueueEntry.rivals (e e' : QueueEntry) : Bool :=
  e.state.active && e'.state.active && e.workspaceId == e'.workspaceId && e.channel == e'.channel &&
    e.visitorSessionId.isSome && e.visitorSessionId == e'.visitorSessionId

namespace QueueEntry

def offerTimeout (queueOfferTimeoutSeconds : Int) : Int :=
  max 5 (if queueOfferTimeoutSeconds = 0 then 25 else queueOfferTimeoutSeconds)

def offered (operatorUserId : Id) (timeoutSec at_ : Int) (e : QueueEntry) : QueueEntry :=
  { e with
    state := .offered
    offeredToUserId := some operatorUserId
    offeredAt := some at_
    lastOfferExpiresAt := some (at_ + timeoutSec * 1000)
    offerTimeoutSeconds := timeoutSec }

def accepted (callSessionId : Option Id) (at_ : Int) (e : QueueEntry) : QueueEntry :=
  { e with state := .accepted, acceptedAt := some at_, callSessionId }

def cancelled (reason : String) (at_ : Int) (e : QueueEntry) : QueueEntry :=
  { e with state := .cancelled, endedAt := some at_, endedReason := some reason }

def expired (at_ : Int) (e : QueueEntry) : QueueEntry :=
  { e with state := .expired, endedAt := some at_, endedReason := some "timeout" }

def callbackRequested (callbackRequestId : Id) (at_ : Int) (e : QueueEntry) : QueueEntry :=
  { e with
    state := .callbackRequested
    endedAt := some at_
    endedReason := some "callback_requested"
    callbackRequestId := some callbackRequestId }

/-- The filter of `reapStaleOffers`: `lt` finds no row without a deadline. -/
def stale (at_ : Int) (e : QueueEntry) : Bool :=
  e.state == .offered && e.lastOfferExpiresAt.any fun deadline => deadline < at_

def maxMisses : ℕ := 3

def nextMisses (e : QueueEntry) : ℕ := e.missedOfferCount + 1

def slaBreach (maxWaitSeconds at_ : Int) (e : QueueEntry) : Bool :=
  maxWaitSeconds * 1000 ≤ at_ - e.createdAt

def givenUp (maxWaitSeconds at_ : Int) (e : QueueEntry) : Bool :=
  maxMisses ≤ e.nextMisses || e.slaBreach maxWaitSeconds at_

/-- What a pass sets, all of it from the entry `read` as it was then. -/
def reaped (read : QueueEntry) (maxWaitSeconds at_ : Int) (e : QueueEntry) : QueueEntry :=
  if read.givenUp maxWaitSeconds at_ then
    { e with
      state := .missed
      endedAt := some at_
      endedReason := some (if read.slaBreach maxWaitSeconds at_ then "sla_breach" else "no_answer")
      missedOfferCount := read.nextMisses
      slaBreached := read.slaBreach maxWaitSeconds at_ }
  else
    { e with
      state := .queued
      offeredToUserId := none
      offeredAt := none
      lastOfferExpiresAt := none
      missedOfferCount := read.nextMisses }

end QueueEntry

/-- A pass of `reapStaleOffers`: the entries that it read and has yet to write. -/
structure Pass where
  maxWaitSeconds : Int
  remaining : List (Id × QueueEntry)

/-- `accepts`: the entries that `acceptEntry` accepted, once for each time. -/
structure CallQueue where
  entries : Table Id QueueEntry := .empty
  made : ℕ := 0
  now : Int := 0
  passes : List Pass := []
  accepts : List Id := []

/-- What the callers of the queue and its ticker do. `lag` is how long before the statement
`new Date()` was read. -/
inductive Action where
  | elapse (ms : ℕ)
  | enqueueCall (workspaceId : Id) (channel : QueueChannel) (visitorSessionId : Option Id)
  | offerEntry (id operatorUserId : Id) (queueOfferTimeoutSeconds : Int) (lag : ℕ)
  | acceptEntry (id : Id) (callSessionId : Option Id) (lag : ℕ)
  | cancelEntry (id : Id) (reason : String) (lag : ℕ)
  | expireStaleEntries (lag : ℕ)
  | markEntryAsCallback (id callbackRequestId : Id) (lag : ℕ)
  | readStaleOffers (ids : List Id) (maxWaitSeconds : Int) (lag : ℕ)
  | reapNext (pass : ℕ) (lag : ℕ) (refused : Bool)

variable {f : QueueEntry → QueueEntry} {id : Id}

namespace CallQueue

def activeExcept (q : CallQueue) (id : Id) (e : QueueEntry) : Bool :=
  q.entries.rows.any fun r => r.1 ≠ id && r.2.rivals e

/-- The insert of `enqueueCall`, once the gate let the call through and no active entry was found. -/
def enqueueCall (workspaceId : Id) (channel : QueueChannel) (visitorSessionId : Option Id)
    (q : CallQueue) : CallQueue :=
  let e : QueueEntry :=
    { workspaceId, channel, visitorSessionId, expiresAt := q.now + 15 * 60000, createdAt := q.now }
  if q.activeExcept q.made e then q
  else { q with entries := q.entries.put q.made e, made := q.made + 1 }

def setWhere (id : Id) (p : QueueState → Bool) (f : QueueEntry → QueueEntry) (q : CallQueue) :
    CallQueue :=
  { q with entries := q.entries.update id fun e => if p e.state then f e else e }

def acceptEntry (id : Id) (callSessionId : Option Id) (at_ : Int) (q : CallQueue) : CallQueue :=
  let q' := q.setWhere id QueueState.active (.accepted callSessionId at_)
  if (q.entries.get id).any fun e => e.state.active then { q' with accepts := q.accepts ++ [id] }
  else q'

def expireStaleEntries (at_ : Int) (q : CallQueue) : CallQueue :=
  { q with entries := q.entries.mapValues fun e =>
      if e.expiresAt < at_ ∧ e.state.active then e.expired at_ else e }

/-- The read of `reapStaleOffers`: of more than a hundred stale offers, any hundred. -/
def readStaleOffers (ids : List Id) (maxWaitSeconds at_ : Int) (q : CallQueue) : CallQueue :=
  if ids.Nodup ∧ ids.length = min 100 (q.entries.rows.countP fun r => r.2.stale at_) ∧
      ∀ id ∈ ids, (q.entries.get id).any (·.stale at_) then
    { q with passes := q.passes ++ [{
        maxWaitSeconds
        remaining := ids.filterMap fun id => (q.entries.get id).map fun e => (id, e) }] }
  else q

def reaches (q : CallQueue) (id : Id) (read : QueueEntry) (maxWaitSeconds at_ : Int) : Bool :=
  (q.entries.get id).any fun e => !q.activeExcept id (.reaped read maxWaitSeconds at_ e)

/-- One round of the loop of `reapStaleOffers`. -/
def reapNext (pass : ℕ) (at_ : Int) (refused : Bool) (q : CallQueue) : CallQueue :=
  match q.passes[pass]? with
  | some ⟨maxWaitSeconds, (id, read) :: remaining⟩ =>
    let q' := { q with passes := q.passes.set pass ⟨maxWaitSeconds, remaining⟩ }
    if !refused && q.reaches id read maxWaitSeconds at_ then
      { q' with entries := q.entries.update id (.reaped read maxWaitSeconds at_) }
    else q'
  | _ => q

def act (q : CallQueue) : Action → CallQueue
  | .elapse ms => { q with now := q.now + ms }
  | .enqueueCall workspaceId channel visitorSessionId =>
    q.enqueueCall workspaceId channel visitorSessionId
  | .offerEntry id operatorUserId timeout lag =>
    q.setWhere id (· == .queued)
      (.offered operatorUserId (QueueEntry.offerTimeout timeout) (q.now - lag))
  | .acceptEntry id callSessionId lag => q.acceptEntry id callSessionId (q.now - lag)
  | .cancelEntry id reason lag => q.setWhere id QueueState.active (.cancelled reason (q.now - lag))
  | .expireStaleEntries lag => q.expireStaleEntries (q.now - lag)
  | .markEntryAsCallback id callbackRequestId lag =>
    q.setWhere id QueueState.active (.callbackRequested callbackRequestId (q.now - lag))
  | .readStaleOffers ids maxWaitSeconds lag => q.readStaleOffers ids maxWaitSeconds (q.now - lag)
  | .reapNext pass lag refused => q.reapNext pass (q.now - lag) refused

inductive EntryStep (q : CallQueue) (a : Action) (id : Id) :
    Option QueueEntry → Option QueueEntry → Prop
  | same (o : Option QueueEntry) : EntryStep q a id o o
  | made (e : QueueEntry) (hid : id < (q.act a).made) : EntryStep q a id none (some e)
  | offered (e e' : QueueEntry) (h : e.state = .queued) (h' : e'.state = .offered) :
    EntryStep q a id (some e) (some e')
  | closed (e e' : QueueEntry) (h : e.state.active) (h' : e'.state.terminal)
      (hm : e'.state ≠ .missed) : EntryStep q a id (some e) (some e')
  | reaped (e read : QueueEntry) (pass lag : ℕ) (maxWaitSeconds : Int)
      (remaining : List (Id × QueueEntry)) (ha : a = .reapNext pass lag false)
      (hp : q.passes[pass]? = some ⟨maxWaitSeconds, (id, read) :: remaining⟩)
      (hr : q.reaches id read maxWaitSeconds (q.now - lag)) :
    EntryStep q a id (some e) (some (.reaped read maxWaitSeconds (q.now - lag) e))

theorem entryStep_closing (q : CallQueue) (a : Action) (id : Id) (h : ∀ e, (f e).state.terminal)
    (hm : ∀ e, (f e).state ≠ .missed) (e : QueueEntry) :
    EntryStep q a id (some e) (some (if e.state.active then f e else e)) := by
  split
  · rename_i hactive
    exact .closed e _ hactive (h e) (hm e)
  · exact .same _

theorem entryStep_setWhere {q : CallQueue} {a : Action} {k : Id} {p : QueueState → Bool}
    (h : ∀ e, EntryStep q a id (some e) (some (if p e.state then f e else e))) :
    EntryStep q a id (q.entries.get id) ((q.setWhere k p f).entries.get id) := by
  simp only [setWhere, Table.get_update]
  split
  · rename_i hk
    subst hk
    cases q.entries.get id with
    | none => exact .same _
    | some e => exact h e
  · exact .same _

theorem entries_acceptEntry (id : Id) (callSessionId : Option Id) (at_ : Int) (q : CallQueue) :
    (q.acceptEntry id callSessionId at_).entries =
      (q.setWhere id QueueState.active (.accepted callSessionId at_)).entries := by
  unfold acceptEntry
  split <;> rfl

theorem entryStep_enqueueCall {q : CallQueue} (hq : q.entries.get q.made = none) (id : Id)
    (workspaceId : Id) (channel : QueueChannel) (visitorSessionId : Option Id) :
    EntryStep q (.enqueueCall workspaceId channel visitorSessionId) id (q.entries.get id)
      ((q.enqueueCall workspaceId channel visitorSessionId).entries.get id) := by
  unfold enqueueCall
  dsimp only
  split
  · exact .same _
  · rename_i hfree
    rw [Table.get_put]
    split
    · rename_i hid
      subst hid
      rw [hq]
      refine .made _ ?_
      simp only [act, enqueueCall]
      rw [if_neg hfree]
      exact Nat.lt_succ_self _
    · exact .same _

theorem entryStep_reapNext (q : CallQueue) (id : Id) (pass lag : ℕ) (refused : Bool) :
    EntryStep q (.reapNext pass lag refused) id (q.entries.get id)
      ((q.reapNext pass (q.now - lag) refused).entries.get id) := by
  unfold reapNext
  split
  · rename_i maxWaitSeconds k read remaining hp
    split
    · rename_i hreach
      rw [Bool.and_eq_true, Bool.not_eq_true'] at hreach
      obtain ⟨rfl, hreach⟩ := hreach
      rw [Table.get_update]
      split
      · rename_i hk
        subst hk
        cases q.entries.get id with
        | none => exact .same _
        | some e => exact .reaped e read pass lag maxWaitSeconds remaining rfl hp hreach
      · exact .same _
    · exact .same _
  · exact .same _

theorem entryStep_act {q : CallQueue} (hq : q.entries.get q.made = none) (a : Action) (id : Id) :
    EntryStep q a id (q.entries.get id) ((q.act a).entries.get id) := by
  cases a with
  | elapse ms => exact .same _
  | enqueueCall workspaceId channel visitor => exact entryStep_enqueueCall hq id _ _ _
  | offerEntry k operator timeout lag =>
    refine entryStep_setWhere fun e => ?_
    split
    · rename_i hqueued
      exact .offered e _ (beq_iff_eq.mp hqueued) rfl
    · exact .same _
  | acceptEntry k session lag =>
    rw [show (q.act (.acceptEntry k session lag)).entries = _ from entries_acceptEntry k session _ q]
    exact entryStep_setWhere (entryStep_closing q _ id (fun _ => rfl) fun _ h => by cases h)
  | cancelEntry k reason lag =>
    exact entryStep_setWhere (entryStep_closing q _ id (fun _ => rfl) fun _ h => by cases h)
  | expireStaleEntries lag =>
    simp only [act, expireStaleEntries, Table.get_mapValues]
    cases q.entries.get id with
    | none => exact .same _
    | some e =>
      simp only [Option.map_some]
      split
      · rename_i hexpired
        exact .closed e _ hexpired.2 rfl (fun h => by cases h)
      · exact .same _
  | markEntryAsCallback k request lag =>
    exact entryStep_setWhere (entryStep_closing q _ id (fun _ => rfl) fun _ h => by cases h)
  | readStaleOffers ids maxWait lag =>
    simp only [act, readStaleOffers]
    split <;> exact .same _
  | reapNext pass lag refused => exact entryStep_reapNext q id pass lag refused

/-- What is asked of a step: a finished entry stays as it is, an offer is not taken back before its
deadline, and nobody accepts an entry a second time. -/
structure Safe (q : CallQueue) (a : Action) : Prop where
  final : ∀ id e, q.entries.get id = some e → e.state.terminal →
    ∃ e', (q.act a).entries.get id = some e' ∧ e'.state = e.state
  inTime : ∀ id e e', q.entries.get id = some e → (q.act a).entries.get id = some e' →
    e.state = .offered → e'.state = .queued ∨ e'.state = .missed →
      e.lastOfferExpiresAt.any fun deadline => deadline < q.now
  acceptedOnce : ∀ id, (q.act a).accepts.count id ≤ 1

/-- A pass that writes `read` back does not harm the entry that stands there now. -/
def mayReap (q : CallQueue) (read : QueueEntry) (maxWaitSeconds at_ : Int) (e : QueueEntry) : Bool :=
  e.state == .queued || e.stale q.now || e.state == .missed && read.givenUp maxWaitSeconds at_

/-- The entry of a round is waiting, or its offer has run out, or it is given up both now and by the
round; or the round does not get to write. -/
def Careful (q : CallQueue) : Action → Prop
  | .reapNext pass lag refused =>
    match q.passes[pass]? with
    | some ⟨maxWaitSeconds, (id, read) :: _⟩ =>
      refused = false → q.reaches id read maxWaitSeconds (q.now - lag) →
        (q.entries.get id).any (q.mayReap read maxWaitSeconds (q.now - lag))
    | _ => True
  | _ => True

instance (q : CallQueue) (a : Action) : Decidable (q.Careful a) := by
  unfold Careful
  split
  · split <;> infer_instance
  · infer_instance

/-- `accepted`: who was accepted never comes back into the queue. -/
structure Sound (q : CallQueue) : Prop where
  fresh : ∀ id, q.made ≤ id → q.entries.get id = none
  once : ∀ id, q.accepts.count id ≤ 1
  accepted : ∀ id ∈ q.accepts, ∃ e, q.entries.get id = some e ∧ e.state.terminal

theorem sound_start : Sound {} where
  fresh := fun _ _ => rfl
  once := fun _ => Nat.zero_le _
  accepted := nofun

theorem state_reaped (read : QueueEntry) (maxWaitSeconds at_ : Int) (e : QueueEntry) :
    (QueueEntry.reaped read maxWaitSeconds at_ e).state =
      if read.givenUp maxWaitSeconds at_ then .missed else .queued := by
  unfold QueueEntry.reaped
  split <;> rfl

variable {q : CallQueue} {a : Action}

theorem Careful.mayReap {pass lag : ℕ} {maxWaitSeconds : Int} {read e : QueueEntry}
    {remaining : List (Id × QueueEntry)} (h : q.Careful (.reapNext pass lag false))
    (hp : q.passes[pass]? = some ⟨maxWaitSeconds, (id, read) :: remaining⟩)
    (hr : q.reaches id read maxWaitSeconds (q.now - lag)) (he : q.entries.get id = some e) :
    q.mayReap read maxWaitSeconds (q.now - lag) e := by
  simp only [Careful, hp] at h
  simpa [he] using h trivial hr

theorem final_of_careful (hq : Sound q) (hc : q.Careful a) {e : QueueEntry}
    (he : q.entries.get id = some e) (ht : e.state.terminal) :
    ∃ e', (q.act a).entries.get id = some e' ∧ e'.state = e.state := by
  have hstep := entryStep_act (hq.fresh q.made le_rfl) a id
  rw [he] at hstep
  generalize (q.act a).entries.get id = o at hstep ⊢
  cases hstep with
  | same => exact ⟨e, rfl, rfl⟩
  | offered _ e' h h' => simp [h, QueueState.terminal, QueueState.active] at ht
  | closed _ e' h h' hm => simp [QueueState.terminal, h] at ht
  | reaped _ read pass lag maxWaitSeconds remaining ha hp hr =>
    subst ha
    have hmay := hc.mayReap hp hr he
    refine ⟨_, rfl, ?_⟩
    rw [state_reaped]
    cases hs : e.state <;>
      simp_all [CallQueue.mayReap, QueueEntry.stale, QueueState.terminal, QueueState.active]

theorem inTime_of_careful (hq : Sound q) (hc : q.Careful a) {e e' : QueueEntry}
    (he : q.entries.get id = some e) (he' : (q.act a).entries.get id = some e')
    (ho : e.state = .offered) (hback : e'.state = .queued ∨ e'.state = .missed) :
    e.lastOfferExpiresAt.any fun deadline => deadline < q.now := by
  have hstep := entryStep_act (hq.fresh q.made le_rfl) a id
  rw [he, he'] at hstep
  cases hstep with
  | same => simp [ho] at hback
  | offered _ _ h h' => simp [ho] at h
  | closed _ _ h h' hm =>
    obtain hback | hback := hback
    · simp [hback, QueueState.terminal, QueueState.active] at h'
    · exact absurd hback hm
  | reaped _ read pass lag maxWaitSeconds remaining ha hp hr =>
    subst ha
    have hmay := hc.mayReap hp hr he
    simpa [CallQueue.mayReap, QueueEntry.stale, ho] using hmay

theorem accepts_act (q : CallQueue) (a : Action) : (q.act a).accepts = q.accepts ∨
    ∃ id e e', (q.act a).accepts = q.accepts ++ [id] ∧ q.entries.get id = some e ∧
      e.state.active ∧ (q.act a).entries.get id = some e' ∧ e'.state.terminal := by
  cases a with
  | acceptEntry id session lag =>
    simp only [act, acceptEntry]
    split
    · rename_i hactive
      obtain ⟨e, he, hactive⟩ := (Option.any_eq_true _ _).mp hactive
      refine .inr ⟨id, e, e.accepted session (q.now - lag), rfl, he, hactive, ?_, rfl⟩
      simp [setWhere, he, hactive]
    · exact .inl rfl
  | enqueueCall workspaceId channel visitor =>
    simp only [act, enqueueCall]
    split <;> exact .inl rfl
  | readStaleOffers ids maxWait lag =>
    simp only [act, readStaleOffers]
    split <;> exact .inl rfl
  | reapNext pass lag refused =>
    simp only [act, reapNext]
    split
    · split <;> exact .inl rfl
    · exact .inl rfl
  | _ => exact .inl rfl

theorem made_le_act (q : CallQueue) (a : Action) : q.made ≤ (q.act a).made := by
  cases a with
  | acceptEntry id session lag =>
    simp only [act, acceptEntry]
    split <;> exact le_rfl
  | enqueueCall workspaceId channel visitor =>
    simp only [act, enqueueCall]
    split
    · exact le_rfl
    · exact Nat.le_succ _
  | readStaleOffers ids maxWait lag =>
    simp only [act, readStaleOffers]
    split <;> exact le_rfl
  | reapNext pass lag refused =>
    simp only [act, reapNext]
    split
    · split <;> exact le_rfl
    · exact le_rfl
  | _ => exact le_rfl

theorem fresh_act (hq : Sound q) (hid : (q.act a).made ≤ id) : (q.act a).entries.get id = none := by
  have hstep := entryStep_act (hq.fresh q.made le_rfl) a id
  rw [hq.fresh id (Nat.le_trans (made_le_act q a) hid)] at hstep
  generalize (q.act a).entries.get id = o at hstep ⊢
  cases hstep with
  | same => rfl
  | made e hlt => exact absurd hid (Nat.not_le.mpr hlt)

theorem sound_act (hq : Sound q) (hc : q.Careful a) : Sound (q.act a) := by
  have hkept : ∀ id ∈ q.accepts, ∃ e', (q.act a).entries.get id = some e' ∧ e'.state.terminal := by
    intro id hid
    obtain ⟨e, he, ht⟩ := hq.accepted id hid
    obtain ⟨e', he', hstate⟩ := final_of_careful hq hc he ht
    exact ⟨e', he', hstate ▸ ht⟩
  refine ⟨fun id hid => fresh_act hq hid, ?_, ?_⟩
  · obtain h | ⟨k, e, e', h, he, hactive, he', ht'⟩ := accepts_act q a
    · rw [h]
      exact hq.once
    · intro id
      rw [h, List.count_append]
      by_cases hk : k = id
      · subst hk
        have hnew : k ∉ q.accepts := by
          intro hmem
          obtain ⟨e₀, he₀, ht₀⟩ := hq.accepted k hmem
          rw [he] at he₀
          cases he₀
          simp [QueueState.terminal, hactive] at ht₀
        simp [List.count_eq_zero.mpr hnew]
      · simpa [hk] using hq.once id
  · obtain h | ⟨k, e, e', h, he, hactive, he', ht'⟩ := accepts_act q a
    · rw [h]
      exact hkept
    · intro id hid
      rw [h, List.mem_append, List.mem_singleton] at hid
      obtain hid | rfl := hid
      · exact hkept id hid
      · exact ⟨e', he', ht'⟩

theorem safe_of_careful (hq : Sound q) (hc : q.Careful a) : Safe q a where
  final := fun _ _ he ht => final_of_careful hq hc he ht
  inTime := fun _ _ _ he he' => inTime_of_careful hq hc he he'
  acceptedOnce := (sound_act hq hc).once

/-- A round that is not careful changes a finished entry, or takes an offer back too early. -/
theorem careful_of_safe (h : Safe q a) : q.Careful a := by
  unfold Careful
  split
  · rename_i pass lag refused
    split
    · rename_i maxWaitSeconds id read remaining hp
      rintro rfl hr
      obtain ⟨e, he, hfree⟩ := (Option.any_eq_true _ _).mp hr
      have hafter : (q.act (.reapNext pass lag false)).entries.get id =
          some (.reaped read maxWaitSeconds (q.now - lag) e) := by
        simp [act, reapNext, hp, hr, he]
      have hstate := state_reaped read maxWaitSeconds (q.now - lag) e
      rw [he, Option.any_some]
      by_cases ht : e.state.terminal
      · obtain ⟨e', he', hsame⟩ := h.final id e he ht
        rw [hafter] at he'
        cases he'
        rw [hstate] at hsame
        split at hsame <;> simp_all [mayReap, QueueState.terminal, QueueState.active]
      · cases hs : e.state with
        | queued => simp [mayReap, hs]
        | offered =>
          have hback : (QueueEntry.reaped read maxWaitSeconds (q.now - lag) e).state = .queued ∨
              (QueueEntry.reaped read maxWaitSeconds (q.now - lag) e).state = .missed := by
            rw [hstate]
            split <;> simp
          have hpast := h.inTime id e _ he hafter hs hback
          simp [mayReap, QueueEntry.stale, hs, hpast]
        | _ => simp [hs, QueueState.terminal, QueueState.active] at ht
    · trivial
  · trivial

theorem safe_iff_careful (hq : Sound q) (as : List Action) :
    Meets act Safe q as ↔ Meets act Careful q as := by
  induction as generalizing q with
  | nil => exact Iff.rfl
  | cons a as ih =>
    constructor
    · intro h
      have hc := careful_of_safe h.1
      exact ⟨hc, (ih (sound_act hq hc)).mp h.2⟩
    · intro h
      exact ⟨safe_of_careful hq h.1, (ih (sound_act hq h.1)).mpr h.2⟩

/-- A run keeps every promise of the queue exactly when each write of a reaping pass does no harm to
the entry as it stands by then. -/
theorem promises_kept_iff_careful (as : List Action) :
    Meets act Safe {} as ↔ Meets act Careful {} as :=
  safe_iff_careful sound_start as

def lateRun : List Action :=
  [.enqueueCall 0 .audio (some 7), .offerEntry 0 1 25 0, .elapse 26000,
    .readStaleOffers [0] 180 0, .acceptEntry 0 (some 3) 0, .reapNext 0 0 false,
    .acceptEntry 0 (some 4) 0]

theorem lateRun_unsafe : ¬Meets act Safe {} lateRun := by
  intro h
  have hsplit : Meets act Safe {} (lateRun.take 6 ++ lateRun.drop 6) := h
  exact absurd (hsplit.append_right.1.acceptedOnce 0) (by decide)

end CallQueue

end Kindred.Calls
