import Kindred.Billing.Locks.Locked

/-!
The deletion clock: the episodes in which a kind is locked, their two notices
and the deletion of what was announced.
-/

namespace Kindred.Billing.Locks
open Lib (Table)
open Lib.Calendar (day monthStart monthOf dateOf)

structure EpisodeKey where
  workspace : Id
  kind : DeletableKind
  key : Timestamp
  deriving DecidableEq

structure Clock where
  since : Timestamp
  cutoffAt : Option Timestamp
  lockedCount : ℕ
  notice30At : Option Timestamp
  notice7At : Option Timestamp
  deletedAt : Option Timestamp
  notice30ClaimedAt : Option Timestamp
  notice7ClaimedAt : Option Timestamp
  noticedCutTs : Option Stamp
  noticedCutId : Option Id

structure ClockDb extends LockDb where
  /-- `locked_data_retention_days` of the plan in force, by workspace. -/
  keep : Table Id ℕ
  clocks : Table EpisodeKey Clock

def Clock.opened (since : Timestamp) (cutoffAt : Option Timestamp) (count : ℕ) : Clock where
  since
  cutoffAt
  lockedCount := min count 2147483647
  notice30At := none
  notice7At := none
  deletedAt := none
  notice30ClaimedAt := none
  notice7ClaimedAt := none
  noticedCutTs := none
  noticedCutId := none

def days (n : ℕ) : Int := n * day

def lockNextBatch (t : Timestamp) : Timestamp := monthStart (monthOf (dateOf t) + 1) * day

def EpisodeKey.isOf (k : EpisodeKey) (workspace : Id) (kind : DeletableKind) : Bool :=
  k.workspace = workspace && k.kind = kind

def openEpisode (clocks : Table EpisodeKey Clock) (workspace : Id) (kind : DeletableKind) :
    Option EpisodeKey :=
  let rows := clocks.rows.filter fun (k, c) => k.isOf workspace kind && c.deletedAt.isNone
  ((rows.insertionSort fun x y => y.2.since ≤ x.2.since).head?).map Prod.fst

def dropEpisodes (clocks : Table EpisodeKey Clock) (workspace : Id) (kind : DeletableKind) :
    Table EpisodeKey Clock :=
  clocks.keep fun k c => !(k.isOf workspace kind && c.deletedAt.isNone)

/-- `billing_lock_clock_observe`, a count kind. -/
def observeCounted (db : ClockDb) (now : Timestamp) (workspace : Id) (kind : DeletableKind) :
    ClockDb :=
  let c := lockCutoff db.toLockDb now workspace kind.kind
  let clocks :=
    if 0 < c.locked then
      match openEpisode db.clocks workspace kind with
      | none =>
        let k : EpisodeKey := { workspace, kind, key := now }
        if (db.clocks.get k).isSome then db.clocks
        else db.clocks.put k (.opened now none c.locked)
      | some k => db.clocks.update k fun e => { e with lockedCount := min c.locked 2147483647 }
    else dropEpisodes db.clocks workspace kind
  { db with clocks }

/-- `least`, which passes over NULL. -/
def least (a : Option Timestamp) (b : Timestamp) : Timestamp := a.elim b (min b)

/-- The chats active before `cutoff` only. -/
def chatsBefore (db : LockDb) (workspace : Id) (cutoff : Timestamp) : List LockableRow :=
  (lockableRows db workspace .conversation).filter fun r => r.activity < .finite cutoff

/-- The batch of `k` while chats idle before `cutoff` are there; once noticed, the cutoff stays the
one the notice named. -/
def observeBatch (db : ClockDb) (now : Timestamp) (k : EpisodeKey) (cutoff : Timestamp) :
    Table EpisodeKey Clock :=
  let noticed := (db.clocks.get k).any fun e => e.notice30At.isSome
  let cutoff := if noticed then least ((db.clocks.get k).bind Clock.cutoffAt) cutoff else cutoff
  let count := (chatsBefore db.toLockDb k.workspace cutoff).length
  match db.clocks.get k with
  | none => if 0 < count then db.clocks.put k (.opened now (some cutoff) count) else db.clocks
  | some e =>
    if e.deletedAt.isSome then db.clocks
    else if 0 < count then
      db.clocks.put k { e with cutoffAt := some cutoff, lockedCount := min count 2147483647 }
    else db.clocks.erase k

def observeChats (db : ClockDb) (now : Timestamp) (workspace : Id) : ClockDb :=
  let c := lockCutoff db.toLockDb now workspace .conversation
  let clocks :=
    match decide (0 < c.locked), c.lim, db.keep.get workspace with
    | true, some retention, some keep =>
      let batch := lockNextBatch now
      if batch - days 30 ≤ now then
        observeBatch db now { workspace, kind := .conversation, key := batch }
          (batch - days (min (retention + keep) 1000000))
      else db.clocks
    | _, _, _ => dropEpisodes db.clocks workspace .conversation
  { db with clocks }

def lockClockObserve (db : ClockDb) (now : Timestamp) (workspace : Id) : ClockDb :=
  let db := observeCounted db now workspace .kb_article
  let db := observeCounted db now workspace .contact
  observeChats db now workspace

/-- `billing_lock_episode_deadline` -/
def episodeDeadline (db : ClockDb) (k : EpisodeKey) (e : Clock) : Option Timestamp := do
  let n30 ← e.notice30At
  let n7 ← e.notice7At
  let keep ← db.keep.get k.workspace
  let base := if k.kind = .conversation then k.key else e.since + days keep
  return max base (max (n30 + days 30) (n7 + days 7))

inductive Notice where
  | «30» | «7»
  deriving DecidableEq

def minutes (n : ℕ) : Int := n * 60000000

/-- `date_trunc('milliseconds', t)` -/
def truncMillis (t : Timestamp) : Timestamp := t - t % 1000

def Clock.claimedAt (e : Clock) : Notice → Option Timestamp
  | .«30» => e.notice30ClaimedAt
  | .«7» => e.notice7ClaimedAt

def Clock.noticeAt (e : Clock) : Notice → Option Timestamp
  | .«30» => e.notice30At
  | .«7» => e.notice7At

def Clock.withClaim (e : Clock) (claim : Option Timestamp) : Notice → Clock
  | .«30» => { e with notice30ClaimedAt := claim }
  | .«7» => { e with notice7ClaimedAt := claim }

section WithClaim
variable (e : Clock) (claim : Option Timestamp) (which : Notice)

@[simp] theorem Clock.withClaim_notice30At :
    (e.withClaim claim which).notice30At = e.notice30At := by
  cases which <;> rfl

@[simp] theorem Clock.withClaim_notice7At : (e.withClaim claim which).notice7At = e.notice7At := by
  cases which <;> rfl

@[simp] theorem Clock.withClaim_cutoffAt : (e.withClaim claim which).cutoffAt = e.cutoffAt := by
  cases which <;> rfl

@[simp] theorem Clock.withClaim_noticedCutTs :
    (e.withClaim claim which).noticedCutTs = e.noticedCutTs := by
  cases which <;> rfl

@[simp] theorem Clock.withClaim_noticedCutId :
    (e.withClaim claim which).noticedCutId = e.noticedCutId := by
  cases which <;> rfl

theorem Clock.withClaim_claims : ((e.withClaim none which).notice30ClaimedAt = e.notice30ClaimedAt ∨
        (e.withClaim none which).notice30ClaimedAt = none) ∧
      ((e.withClaim none which).notice7ClaimedAt = e.notice7ClaimedAt ∨
        (e.withClaim none which).notice7ClaimedAt = none) := by
  cases which <;> simp [withClaim]

end WithClaim

def Clock.held (e : Clock) (which : Notice) (now : Timestamp) : Bool :=
  (e.claimedAt which).any fun t => truncMillis now - minutes 30 < t

/-- `billing_lock_notice_claim`: the stamp and what is announced, if the claim was won. -/
def lockNoticeClaim (db : ClockDb) (now : Timestamp) (k : EpisodeKey) (which : Notice) :
    Option (ℕ × Timestamp) × ClockDb :=
  let stamp := truncMillis now
  let claimed (e : Clock) (count : ℕ) :=
    (some (count, stamp), { db with clocks := db.clocks.put k e })
  match db.clocks.get k with
  | none => (none, db)
  | some e =>
    if e.deletedAt.isSome || (e.noticeAt which).isSome || e.held which now then (none, db)
    else
      match which with
      | .«30» =>
        if k.kind = .conversation then claimed (e.withClaim (some stamp) .«30») e.lockedCount
        else
          let c := lockCutoff db.toLockDb now k.workspace k.kind.kind
          if c.locked = 0 then (none, db)
          else
            claimed { e with notice30ClaimedAt := some stamp, noticedCutTs := c.cutTs
                             noticedCutId := c.cutId, lockedCount := min c.locked 2147483647 }
              (min c.locked 2147483647)
      | .«7» =>
        if e.notice30At.isNone then (none, db)
        else claimed (e.withClaim (some stamp) .«7») e.lockedCount

def lockedDeleteTargets (db : ClockDb) (now : Timestamp) (k : EpisodeKey)
    (ids : Option (List Id)) (max : ℕ) : List Id :=
  let asked (id : Id) : Bool := ids.all (id ∈ ·)
  let c := lockCutoff db.toLockDb now k.workspace k.kind.kind
  match db.clocks.get k with
  | none => []
  | some e =>
    if e.deletedAt.isSome || !(episodeDeadline db k e).any (· ≤ now) || c.locked = 0 then []
    else if k.kind = .conversation then
      match c.lim, db.keep.get k.workspace, e.cutoffAt, c.cutTs with
      | some lim, some keep, some cutoffAt, some cutTs =>
        let cutoff : Stamp :=
          min (.finite (min cutoffAt (k.key - days (min (lim + keep) 1000000)))) cutTs
        let rows := (lockableRows db.toLockDb k.workspace .conversation).filter fun r =>
          asked r.id && r.activity < cutoff
        ((ranked (rows.map fun r => toLex (r.activity, r.id))).take max).map fun r => (ofLex r).2
      | _, _, _, _ => []
    else
      match e.noticedCutTs, e.noticedCutId, c.cutTs, c.cutId, e.notice30At with
      | some ts, some id, some cutTs, some cutId, some notice30At =>
        -- the later of the cutoff that was announced and the one in force
        let cut : Rank := Max.max (toLex (cutTs, cutId)) (toLex (ts, id))
        let rows := (lockRankRows db.toLockDb k.workspace k.kind.kind).filter fun r =>
          cut < r && (ofLex r).1 < .finite notice30At && asked (ofLex r).2
        ((ranked rows).take max).map fun r => (ofLex r).2
      | _, _, _, _, _ => []

def LockDb.deleteRows (db : LockDb) (workspace : Id) (ids : List Id) : DeletableKind → LockDb
  | .kb_article =>
    { db with articles := db.articles.keep fun id a => !(a.workspace = workspace && id ∈ ids) }
  | .contact =>
    { db with contacts := db.contacts.keep fun id c => !(c.workspace = workspace && id ∈ ids) }
  | .conversation =>
    { db with
      conversations := db.conversations.keep fun id c => !(c.workspace = workspace && id ∈ ids) }

/-- What a call of `billing_locked_delete` finds it may delete of `ids`. -/
def lockedDeleteBatch (db : ClockDb) (now : Timestamp) (k : EpisodeKey) (ids : List Id) : List Id :=
  if ids.isEmpty then [] else lockedDeleteTargets db now k (some ids) 2147483647

/-- `billing_locked_delete` -/
def lockedDelete (db : ClockDb) (now : Timestamp) (k : EpisodeKey) (ids : List Id) : ClockDb :=
  match db.clocks.get k with
  | none => db
  | some e =>
    let c := lockCutoff db.toLockDb now k.workspace k.kind.kind
    if e.deletedAt.isSome || c.locked = 0 || !(episodeDeadline db k e).any (· ≤ now) then db
    else
      let deleted : ClockDb :=
        { db with
          toLockDb := db.toLockDb.deleteRows k.workspace (lockedDeleteBatch db now k ids) k.kind }
      if (lockedDeleteTargets deleted now k none 1).isEmpty then
        { deleted with
          clocks := deleted.clocks.put k { e with deletedAt := some now, lockedCount := 0 } }
      else deleted

end Kindred.Billing.Locks
