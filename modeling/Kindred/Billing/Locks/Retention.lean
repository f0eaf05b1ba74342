import Kindred.Billing.Locks.Clocks

/-!
The `locks` step of the hourly job: who sends a notice, when it counts, and
what is deleted after it. Any number of replicas run it, and anything else may
change plans, the switch and rows between two calls.
-/

namespace Kindred.Billing.Locks
open Lib (Table)

/-- A stamp as `Date` holds it. -/
def ms (t : Timestamp) : Int := t / 1000

def DAY_MS : Int := 86400000

def episodeBase (k : EpisodeKey) (e : Clock) (retentionDays : Option ℕ) : Option Int :=
  match retentionDays with
  | none => none
  | some 0 => none
  | some n => some (if k.kind = .conversation then ms k.key else ms e.since + n * DAY_MS)

def noticeDue (k : EpisodeKey) (e : Clock) (retentionDays : Option ℕ) (now : Int) : Option Notice :=
  if e.deletedAt.isSome then none
  else
    (episodeBase k e retentionDays).bind fun base =>
      match e.notice30At.map ms with
      | none => if base - 30 * DAY_MS ≤ now then some .«30» else none
      | some n30 =>
        if e.notice7At.isSome then none
        else if max base (n30 + 30 * DAY_MS) - 7 * DAY_MS ≤ now then some .«7» else none

structure HeldClaim where
  key : EpisodeKey
  stamp : Timestamp
  db : LockDb
  wonAt : Timestamp

inductive Phase where
  | claiming
  | sent (mailAt : Timestamp)
  | released
  deriving DecidableEq

/-- A call of `sendNotice`, which is told the moment its run began. -/
structure Sender where
  which : Notice
  runNow : Timestamp
  episodes : List EpisodeKey
  claimed : List HeldClaim
  phase : Phase

structure Retention where
  db : ClockDb
  now : Timestamp
  senders : List Sender

inductive RetentionEvent where
  | tick (micros : ℕ)
  | world (db : LockDb) (keep : Table Id ℕ)
  | observe (workspace : Id)
  | start (which : Notice) (runNow : Timestamp) (episodes : List EpisodeKey)
  | claim (sender : ℕ) (k : EpisodeKey)
  | mail (sender : ℕ)
  | release (sender : ℕ) (k : EpisodeKey)
  | record (sender : ℕ) (k : EpisodeKey)
  | delete (k : EpisodeKey) (ids : List Id)

namespace Retention

def due (s : Retention) (which : Notice) (runNow : Timestamp) (k : EpisodeKey) : Bool :=
  (s.db.clocks.get k).any fun e =>
    noticeDue k e (s.db.keep.get k.workspace) (ms runNow) = some which

def claimBy (s : Retention) (i : ℕ) (a : Sender) (k : EpisodeKey) : Retention :=
  match lockNoticeClaim s.db s.now k a.which with
  | (none, _) => s
  | (some (_, stamp), db) =>
    let won : HeldClaim := { key := k, stamp, db := s.db.toLockDb, wonAt := s.now }
    { s with db, senders := s.senders.set i { a with claimed := a.claimed ++ [won] } }

/-- `.update({ [claimColumn]: null }).eq(claimColumn, stamp)` -/
def releaseClaim (db : ClockDb) (which : Notice) (c : HeldClaim) : ClockDb :=
  { db with clocks := db.clocks.update c.key fun e =>
      if e.claimedAt which = some c.stamp then e.withClaim none which else e }

def Notice.stamped (e : Clock) (moment : Timestamp) : Notice → Clock
  | .«30» => { e with notice30At := some moment, notice30ClaimedAt := none }
  | .«7» => { e with notice7At := some moment, notice7ClaimedAt := none }

/-- `.update({ [column]: stamp, [claimColumn]: null })`, where the claim is ours still and the
notice not recorded. -/
def recordNotice (db : ClockDb) (a : Sender) (c : HeldClaim) : ClockDb :=
  { db with clocks := db.clocks.update c.key fun e =>
      if e.claimedAt a.which = some c.stamp ∧ e.noticeAt a.which = none then
        Notice.stamped e a.runNow a.which
      else e }

def step (s : Retention) : RetentionEvent → Retention
  | .tick micros => { s with now := s.now + micros }
  | .world db keep => { s with db := { s.db with toLockDb := db, keep } }
  | .observe ws => { s with db := lockClockObserve s.db s.now ws }
  | .start which runNow episodes =>
    if runNow ≤ s.now ∧ episodes.all (s.due which runNow) then
      let a : Sender := { which, runNow, episodes, claimed := [], phase := .claiming }
      { s with senders := s.senders ++ [a] }
    else s
  | .claim i k =>
    match s.senders[i]? with
    | none => s
    | some a =>
      if a.phase = .claiming ∧ k ∈ a.episodes ∧ a.claimed.all (·.key ≠ k) then s.claimBy i a k
      else s
  | .mail i =>
    match s.senders[i]? with
    | none => s
    | some a =>
      if a.phase = .claiming ∧ a.claimed ≠ [] then
        { s with senders := s.senders.set i { a with phase := .sent s.now } }
      else s
  | .release i k =>
    match s.senders[i]? with
    | none => s
    | some a =>
      match a.phase, a.claimed.find? (·.key = k) with
      | .sent _, _ | _, none => s
      | _, some c =>
        { s with
          db := releaseClaim s.db a.which c
          senders := s.senders.set i { a with phase := .released } }
  | .record i k =>
    match s.senders[i]? with
    | none => s
    | some a =>
      match a.phase, a.claimed.find? (·.key = k) with
      | .sent _, some c => { s with db := recordNotice s.db a c }
      | _, _ => s
  | .delete k ids => { s with db := lockedDelete s.db s.now k ids }

/-- Nothing is on the clock and no one sends. -/
def init (db : LockDb) (keep : Table Id ℕ) (now : Timestamp) : Retention where
  db := { db with keep, clocks := .empty }
  now
  senders := []

end Retention

end Kindred.Billing.Locks
