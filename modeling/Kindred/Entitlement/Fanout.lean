import Kindred.Database
import Mathlib.Data.List.Sort

/-!
The entitlement fan-out: one job a scope walks all workspaces of the scope in
the order of their ids. A change of the scope's entitlements asks for a new
generation of the walk; a worker learns of it when it ends its own.
-/

namespace Kindred.Entitlement
open Lib (Table run)

inductive FanoutScope where
  | plan (planId : Option Id)
  | platform
  deriving DecidableEq

inductive JobStatus where
  | pending | running | completed | failed
  deriving DecidableEq

structure Counts where
  processed : ℕ := 0
  failed : ℕ := 0
  skippedIneligible : ℕ := 0
  retryableFailures : ℕ := 0
  permanentFailures : ℕ := 0
  deriving DecidableEq

/-- `entitlement_fanout_jobs`; times are in seconds. -/
structure FanoutJob where
  scope : FanoutScope
  source : String
  cursorWorkspaceId : Option Id := none
  cursorGeneration : Option ℕ := none
  status : JobStatus := .pending
  attempts : ℕ := 0
  counts : Counts := {}
  requestedGeneration : ℕ := 1
  processingGeneration : Option ℕ := none
  completedGeneration : ℕ := 0
  claimToken : Option ℕ := none
  workerId : Option String := none
  claimExpiresAt : Option Int := none
  nextAttemptAt : Int
  lastErrorCode : Option String := none
  createdAt : Int
  completedAt : Option Int := none

def FanoutJob.active (j : FanoutJob) : Bool := j.status = .pending ∨ j.status = .running

structure Db where
  jobs : Table Id FanoutJob := .empty
  nextId : Id := 0
  nextToken : ℕ := 0
  /-- The ids of `workspaces`. -/
  workspaces : List Id := []
  /-- `workspace_subscriptions`: the workspace and its plan. -/
  subscriptions : List (Id × Option Id) := []

def Db.activeJob (db : Db) (scope : FanoutScope) : Option (Id × FanoutJob) :=
  (db.jobs.rows.filter fun r => r.2.active && r.2.scope = scope).mergeSort
    (fun a b => a.2.createdAt ≤ b.2.createdAt) |>.head?

def enqueueEntitlementFanout (scope : FanoutScope) (source : String) (now : Int) (db : Db) : Db :=
  match db.activeJob scope with
  | some (id, _) =>
    { db with jobs := db.jobs.update id fun j =>
        { j with
          requestedGeneration := j.requestedGeneration + 1
          nextAttemptAt := min j.nextAttemptAt now
          source } }
  | none =>
    { db with
      jobs := db.jobs.put db.nextId { scope, source, nextAttemptAt := now, createdAt := now }
      nextId := db.nextId + 1 }

structure ClaimRow where
  id : Id
  scope : FanoutScope
  cursorWorkspaceId : Option Id
  cursorGeneration : Option ℕ
  generation : ℕ

def FanoutJob.claimable (now : Int) (j : FanoutJob) : Bool :=
  j.active && j.nextAttemptAt ≤ now && j.claimExpiresAt.all (· ≤ now)

def FanoutJob.claimed (token : ℕ) (workerId : String) (leaseSeconds now : Int) (j : FanoutJob) :
    FanoutJob :=
  let kept := j.cursorGeneration = some j.requestedGeneration
  { j with
    status := .running
    attempts := j.attempts + 1
    claimToken := some token
    workerId := some workerId
    processingGeneration := some j.requestedGeneration
    cursorWorkspaceId := if kept then j.cursorWorkspaceId else none
    cursorGeneration := if kept then j.cursorGeneration else none
    claimExpiresAt := some (now + max leaseSeconds 30) }

def ClaimRow.of (id : Id) (j : FanoutJob) : ClaimRow where
  id := id
  scope := j.scope
  cursorWorkspaceId := j.cursorWorkspaceId
  cursorGeneration := j.cursorGeneration
  generation := j.processingGeneration.getD j.requestedGeneration

def candidates (skipped : List Id) (limit : Int) (now : Int) (db : Db) : List Id :=
  let rows := (db.jobs.rows.filter fun r => r.2.claimable now && r.1 ∉ skipped).mergeSort fun a b =>
    a.2.nextAttemptAt < b.2.nextAttemptAt ||
      a.2.nextAttemptAt = b.2.nextAttemptAt && a.2.createdAt ≤ b.2.createdAt
  (rows.take (min (max limit 1) 20).toNat).map (·.1)

def claimEntitlementFanoutJobs (workerId : String) (skipped : List Id) (limit leaseSeconds now : Int)
    (db : Db) : Db × List ClaimRow :=
  let ids := candidates skipped limit now db
  let jobs := db.jobs.mapKeyed fun id j =>
    if id ∈ ids then j.claimed db.nextToken workerId leaseSeconds now else j
  ({ db with jobs, nextToken := db.nextToken + 1 },
    ids.filterMap fun id => (jobs.get id).map (ClaimRow.of id))

structure Lease where
  token : ℕ
  workerId : String
  generation : ℕ

/-- The `WHERE` of the three writes. -/
def FanoutJob.heldBy (lease : Lease) (now : Int) (j : FanoutJob) : Bool :=
  j.status = .running ∧ j.claimToken = some lease.token ∧ j.workerId = some lease.workerId ∧
    j.processingGeneration = some lease.generation ∧ j.claimExpiresAt.any (now < ·)

def Counts.add (c d : Counts) : Counts where
  processed := c.processed + d.processed
  failed := c.failed + d.permanentFailures
  skippedIneligible := c.skippedIneligible + d.skippedIneligible
  retryableFailures := c.retryableFailures + d.retryableFailures
  permanentFailures := c.permanentFailures + d.permanentFailures

def advanceEntitlementFanout (id : Id) (lease : Lease) (cursor : Option Id) (progress : Counts)
    (leaseSeconds now : Int) (db : Db) : Db × Bool :=
  if (db.jobs.get id).any (·.heldBy lease now) then
    ({ db with jobs := db.jobs.update id fun j =>
        { j with
          cursorWorkspaceId := cursor
          cursorGeneration := if cursor.isNone then none else some lease.generation
          counts := j.counts.add progress
          claimExpiresAt := some (now + max leaseSeconds 30) } }, true)
  else (db, false)

def FanoutJob.unclaimed (j : FanoutJob) : FanoutJob :=
  { j with processingGeneration := none, claimToken := none, workerId := none, claimExpiresAt := none }

inductive Outcome where
  | leaseLost | requeuedNewGeneration | completed | deadLettered | retrySameGeneration

def FanoutJob.requeued (now : Int) (j : FanoutJob) : FanoutJob :=
  { j.unclaimed with
    status := .pending
    cursorWorkspaceId := none
    cursorGeneration := none
    nextAttemptAt := now }

def completeEntitlementFanout (id : Id) (lease : Lease) (cursor : Option Id) (progress : Counts)
    (now : Int) (db : Db) : Db × Outcome :=
  match (db.jobs.get id).filter (·.heldBy lease now) with
  | none => (db, .leaseLost)
  | some job =>
    if lease.generation < job.requestedGeneration then
      ({ db with jobs := db.jobs.update id fun j =>
          { j.requeued now with counts := j.counts.add progress } }, .requeuedNewGeneration)
    else
      ({ db with jobs := db.jobs.update id fun j =>
          { j.unclaimed with
            status := .completed
            completedGeneration := lease.generation
            cursorWorkspaceId := cursor
            cursorGeneration := some lease.generation
            counts := j.counts.add progress
            completedAt := some now } }, .completed)

def failEntitlementFanout (id : Id) (lease : Lease) (errorCode : String) (retrySeconds : Int)
    (maxAttempts : ℕ) (now : Int) (db : Db) : Db × Outcome :=
  match (db.jobs.get id).filter (·.heldBy lease now) with
  | none => (db, .leaseLost)
  | some job =>
    if lease.generation < job.requestedGeneration then
      ({ db with jobs := db.jobs.update id fun j =>
          { j.requeued now with lastErrorCode := some errorCode } }, .requeuedNewGeneration)
    else if max maxAttempts 1 ≤ job.attempts then
      ({ db with jobs := db.jobs.update id fun j =>
          { j.unclaimed with
            status := .failed
            lastErrorCode := some errorCode
            nextAttemptAt := now + max retrySeconds 5 } }, .deadLettered)
    else
      ({ db with jobs := db.jobs.update id fun j =>
          { j.unclaimed with
            status := .pending
            lastErrorCode := some errorCode
            nextAttemptAt := now + max retrySeconds 5
            cursorGeneration := if j.cursorWorkspaceId.isNone then none
              else some lease.generation } }, .retrySameGeneration)

def Db.members (db : Db) : FanoutScope → List Id
  | .platform => db.workspaces
  | .plan planId => (db.subscriptions.filter fun s => planId.isSome && s.2 = planId).map (·.1)

def readKeysetPage (db : Db) (scope : FanoutScope) (cursor : Option Id) (pageSize : ℕ) : List Id :=
  (((db.members scope).filter fun w => cursor.all (· < w)).mergeSort (· ≤ ·)).take pageSize

/-- What `checkModuleAccess` answered, `none` when it threw; `allowed` is missing when the answer
has no boolean. -/
structure Access where
  allowed : Option Bool
  reason : Option String := none

inductive Eligibility where
  | eligible
  | ineligible (reason : String)
  | lookupFailed (reason : String)

def resolveFanoutEligibility : Option Access → Eligibility
  | none => .lookupFailed "exception"
  | some access =>
    match access.allowed with
    | none => .lookupFailed "invalid_entitlement_response"
    | some true => .eligible
    | some false =>
      if access.reason = some "rpc_error" ∨ access.reason = some "exception" then
        .lookupFailed (access.reason.getD "")
      else .ineligible (if access.reason.getD "" = "" then "not_entitled" else access.reason.getD "")

/-- A job in the hands of a worker. -/
structure Pass where
  job : ClaimRow
  startCursor : Option Id
  lastSuccessfulCursor : Option Id
  pending : Counts := {}
  pages : ℕ := 0

def Pass.start (job : ClaimRow) : Pass :=
  let cursor := if job.cursorGeneration = some job.generation then job.cursorWorkspaceId else none
  { job, startCursor := cursor, lastSuccessfulCursor := cursor }

inductive After where
  | nextPage | lookupFailed | retryableStop | budget

inductive Task where
  | next
  | read (pass : Pass)
  | resolve (pass : Pass) (rest : List Id) (short : Bool)
  | catchup (pass : Pass) (workspaceId : Id) (rest : List Id) (short : Bool)
  | checkpoint (pass : Pass) (after : After)
  | complete (pass : Pass)
  | release (job : ClaimRow) (errorCode : String) (retrySeconds : Int) (maxAttempts : ℕ)

structure Worker where
  workerId : String
  token : ℕ
  leaseSeconds : Int
  pageSize : ℕ
  pagesPerLease : ℕ
  jobs : List ClaimRow
  task : Task := .next

def Worker.lease (w : Worker) (job : ClaimRow) : Lease := ⟨w.token, w.workerId, job.generation⟩

inductive Delivery where
  | answered | refused | lost
  deriving DecidableEq

structure Io where
  now : Int
  delivery : Delivery := .answered
  readFails : Bool := false
  access : Option Access := none
  catchupOk : Bool := false

structure State where
  db : Db := {}
  workers : Table ℕ Worker := .empty

def afterCheckpoint (pass : Pass) : After → Task
  | .nextPage => .read pass
  | .lookupFailed => .release pass.job "fanout_lookup_failed" 300 10
  | .retryableStop => .release pass.job "fanout_workspace_retryable" 30 1000000
  | .budget => .release pass.job "fanout_requeued" 5 1000000

def afterLostCheckpoint (pass : Pass) : After → Task
  | .lookupFailed => .release pass.job "fanout_lookup_failed" 300 10
  | _ => .next

def Pass.hasProgress (pass : Pass) : Bool :=
  pass.pending ≠ {} || pass.lastSuccessfulCursor ≠ pass.startCursor

/-- The worker `w` after its next step, `none` when it is done, and the database. -/
def workerStep (db : Db) (w : Worker) (io : Io) : Db × Option Worker :=
  match w.task with
  | .next =>
    match w.jobs with
    | [] => (db, none)
    | job :: jobs =>
      let task := if job.scope = .plan none then .release job "malformed_job" 3600 1
        else .read (.start job)
      (db, some { w with jobs, task })
  | .read pass =>
    if max w.pagesPerLease 1 ≤ pass.pages then
      (db, some { w with task := .checkpoint pass .budget })
    else if io.readFails then (db, some { w with task := .checkpoint pass .lookupFailed })
    else
      let page := readKeysetPage db pass.job.scope pass.lastSuccessfulCursor (max w.pageSize 1)
      let short := decide (page.length < max w.pageSize 1)
      let pass := { pass with pages := pass.pages + 1 }
      (db, some { w with task := .resolve pass page short })
  | .resolve pass [] short =>
    (db, some { w with task := if short then .complete pass else .checkpoint pass .nextPage })
  | .resolve pass (workspaceId :: rest) short =>
    match resolveFanoutEligibility io.access with
    | .lookupFailed _ =>
      let pass := { pass with
        pending.retryableFailures := pass.pending.retryableFailures + 1 }
      (db, some { w with task := .checkpoint pass .retryableStop })
    | .ineligible _ =>
      let pass := { pass with
        pending.skippedIneligible := pass.pending.skippedIneligible + 1
        lastSuccessfulCursor := some workspaceId }
      (db, some { w with task := .resolve pass rest short })
    | .eligible => (db, some { w with task := .catchup pass workspaceId rest short })
  | .catchup pass workspaceId rest short =>
    if io.catchupOk then
      let pass := { pass with
        pending.processed := pass.pending.processed + 1
        lastSuccessfulCursor := some workspaceId }
      (db, some { w with task := .resolve pass rest short })
    else
      let pass := { pass with
        pending.retryableFailures := pass.pending.retryableFailures + 1 }
      (db, some { w with task := .checkpoint pass .retryableStop })
  | .checkpoint pass after =>
    if pass.hasProgress then
      let (db', advanced) := if io.delivery = .refused then (db, false) else
        advanceEntitlementFanout pass.job.id (w.lease pass.job) pass.lastSuccessfulCursor
          pass.pending w.leaseSeconds io.now db
      let task := if advanced ∧ io.delivery = .answered then
          afterCheckpoint { pass with pending := {} } after
        else afterLostCheckpoint pass after
      (db', some { w with task })
    else (db, some { w with task := afterCheckpoint pass after })
  | .complete pass =>
    let db' := if io.delivery = .refused then db else
      (completeEntitlementFanout pass.job.id (w.lease pass.job) pass.lastSuccessfulCursor
        pass.pending io.now db).1
    (db', some { w with task := .next })
  | .release job errorCode retrySeconds maxAttempts =>
    let db' := if io.delivery = .refused then db else
      (failEntitlementFanout job.id (w.lease job) errorCode retrySeconds maxAttempts io.now db).1
    (db', some { w with task := .next })

inductive Action where
  | enqueue (scope : FanoutScope) (source : String) (now : Int)
  /-- A drain begins as worker `k`. -/
  | claim (k : ℕ) (workerId : String) (limit leaseSeconds : Int) (pageSize pagesPerLease : ℕ)
      (skipped : List Id) (now : Int) (delivery : Delivery)
  | work (k : ℕ) (io : Io)
  | die (k : ℕ)
  | setWorkspaces (workspaces : List Id)
  | setSubscriptions (subscriptions : List (Id × Option Id))

def step (s : State) : Action → State
  | .enqueue scope source now => { s with db := enqueueEntitlementFanout scope source now s.db }
  | .claim k workerId limit leaseSeconds pageSize pagesPerLease skipped now delivery =>
    if (s.workers.get k).isSome ∨ delivery = .refused then s
    else
      let (db, jobs) := claimEntitlementFanoutJobs workerId skipped (min (max limit 1) 5)
        (max leaseSeconds 30) now s.db
      if delivery = .lost then { s with db }
      else
        let worker : Worker := { workerId, token := s.db.nextToken, leaseSeconds := max leaseSeconds 30
                                 pageSize, pagesPerLease, jobs }
        { db, workers := s.workers.put k worker }
  | .work k io =>
    match s.workers.get k with
    | none => s
    | some w =>
      let (db, next) := workerStep s.db w io
      { db, workers := match next with
          | none => s.workers.erase k
          | some w' => s.workers.put k w' }
  | .die k => { s with workers := s.workers.erase k }
  | .setWorkspaces workspaces => { s with db.workspaces := workspaces }
  | .setSubscriptions subscriptions => { s with db.subscriptions := subscriptions }

def reached (as : List Action) : State := run step {} as

end Kindred.Entitlement
