import Kindred.Deletion.Jobs

/-!
The workers that delete workspaces and the writers that hold write leases, as
programs that put one question at a time, and all of them side by side on one
database.
-/

namespace Kindred.Deletion
open Lib (Dialogue run)

inductive Ask where
  | activeWriteLeases (workspaceId : Id)
  /-- `quiesceLiveKitEgress` -/
  | quiesce (workspaceId : Id)
  /-- `workspaceStorageScopes` -/
  | scopes (workspaceId : Id)
  | storage (q : Query)
  | renewLease (id : Id) (token : ℕ)
  | persist (id : Id) (token : ℕ) (patch : Patch)
  | cdn
  | deleteWorkspace (actor workspaceId : Id)
  | workspaceExists (workspaceId : Id)
  | clock

abbrev Reply : Ask → Type
  | .activeWriteLeases _ => Bool
  | .quiesce _ => Except Thrown Bool
  | .scopes _ => Except Thrown (List String)
  | .storage q => Answer q
  | .renewLease .. => Except Thrown Bool
  | .persist .. => Saved
  | .cdn => Except Thrown Unit
  | .deleteWorkspace .. => Option String
  | .workspaceExists _ => Option Bool
  | .clock => Int

abbrev WorkerProg := ExceptT Thrown (Dialogue Ask Reply)

structure ClaimedJob where
  id : Id
  token : ℕ
  row : DeletionJob

def hasActiveWriteLeases (workspaceId : Id) : WorkerProg Bool :=
  ExceptT.lift (Dialogue.query (A := Reply) (Ask.activeWriteLeases workspaceId))

def quiesceLiveKitEgress (workspaceId : Id) : WorkerProg (Except Thrown Bool) :=
  ExceptT.lift (Dialogue.query (A := Reply) (Ask.quiesce workspaceId))

def workspaceStorageScopes (workspaceId : Id) : WorkerProg (Except Thrown (List String)) :=
  ExceptT.lift (Dialogue.query (A := Reply) (Ask.scopes workspaceId))

def cdnCall : WorkerProg Unit := ExceptT.mk (Dialogue.query (A := Reply) Ask.cdn)

def deleteWorkspace (actor workspaceId : Id) : WorkerProg (Option String) :=
  ExceptT.lift (Dialogue.query (A := Reply) (Ask.deleteWorkspace actor workspaceId))

def workspaceStillExists (workspaceId : Id) : WorkerProg Bool := do
  let data ← ExceptT.lift (Dialogue.query (A := Reply) (Ask.workspaceExists workspaceId))
  pure (data.getD false)

def workerClock : WorkerProg Int := ExceptT.lift (Dialogue.query (A := Reply) Ask.clock)

def persistFenced (job : ClaimedJob) (patch : Patch) : WorkerProg Unit :=
  ExceptT.mk (Dialogue.ask (A := Reply) (Ask.persist job.id job.token patch) fun
    | .saved => .done (.ok ())
    | .refused why | .lost why => .done (.error why))

def walkAsks (job : ClaimedJob) : (q : Query) → Dialogue Ask Reply (Answer q)
  | .heartbeat => .query (Ask.renewLease job.id job.token)
  | .persist state => .query (Ask.persist job.id job.token { storageScopes := some state })
  | .resolve scope => .query (Ask.storage (.resolve scope))
  | .list config prefixKey cursor => .query (Ask.storage (.list config prefixKey cursor))
  | .delete config key => .query (Ask.storage (.delete config key))
  | .clock => .query (Ask.storage .clock)

def leaseSeconds : Int := 60
def maxJobAttempts : ℕ := 5
def baseBackoffMs : Int := 5000
def maxBackoffMs : Int := 30 * 60000

def retryOrFail (job : ClaimedJob) (state : ScopeCleanupState) (errorMessage : String) :
    WorkerProg Unit := do
  let nextAttempt := job.row.attemptCount + 1
  if maxJobAttempts ≤ nextAttempt then
    persistFenced job
      { storageScopes := some state, status := some .failed, attemptCount := some nextAttempt
        errorMessage := some errorMessage, release := true }
  else
    let backoffMs := min maxBackoffMs (baseBackoffMs * 2 ^ nextAttempt)
    let now ← workerClock
    persistFenced job
      { storageScopes := some state, attemptCount := some nextAttempt
        errorMessage := some errorMessage, nextRetryAt := some (now + backoffMs), release := true }

def workspaceScopePrefix (workspaceId : Id) : String := s!"workspace/{workspaceId}/"

def walkContext (job : ClaimedJob) (scopes : List String) : ScopeCleanupContext where
  scopes := scopes
  prefixKey := workspaceScopePrefix job.row.workspaceId
  maxDeleteAttemptsPerKey := 3
  heartbeatIntervalMs := 15000

def walkScopes (job : ClaimedJob) (scopes : List String) :
    WorkerProg (Outcome × ScopeCleanupState) :=
  ExceptT.mk
    ((runScopeCleanupTick (walkContext job scopes) job.row.storageScopes).run.handle (walkAsks job))

def runStorageCleanup (job : ClaimedJob) : WorkerProg Unit := do
  let workspaceId := job.row.workspaceId
  if ← hasActiveWriteLeases workspaceId then persistFenced job { release := true }
  else
    match ← quiesceLiveKitEgress workspaceId with
    | .error err =>
      let why := err.message
      retryOrFail job job.row.storageScopes s!"LiveKit egress quiesce failed: {why}"
    | .ok false => persistFenced job { release := true }
    | .ok true =>
      match ← workspaceStorageScopes workspaceId with
      | .error err =>
        let why := err.message
        retryOrFail job job.row.storageScopes s!"storage scope resolution failed: {why}"
      | .ok scopes =>
        match ← walkScopes job scopes with
        | (.error message, state) => retryOrFail job state message
        | (.advance, state) =>
          persistFenced job
            { storageScopes := some state, status := some .dbCleanup, release := true }
        | (.progress, state) => persistFenced job { storageScopes := some state, release := true }

def reassertSafeToPurge (job : ClaimedJob) : WorkerProg Bool := do
  let workspaceId := job.row.workspaceId
  let back (message : String) : WorkerProg Bool := do
    persistFenced job
      { status := some .storageCleanup, release := true, errorMessage := some message }
    pure false
  if ← hasActiveWriteLeases workspaceId then
    back ("pre-purge recheck found an outstanding owner write lease — returned to " ++
      "storage_cleanup for a fresh pass (this should not happen under normal operation)")
  else
    match ← quiesceLiveKitEgress workspaceId with
    | .error err =>
      let why := err.message
      back s!"pre-purge recheck: LiveKit egress quiesce failed: {why}"
    | .ok false =>
      back ("pre-purge recheck found a non-terminal LiveKit recording — returned to " ++
        "storage_cleanup for a fresh pass (this should not happen under normal operation)")
    | .ok true => pure true

def finishJob (job : ClaimedJob) : WorkerProg Unit := do
  cdnCall
  let now ← workerClock
  persistFenced job
    { status := some .completed, dbCleanupCompletedAt := some now, completedAt := some now
      release := true }

def runDbCleanup (job : ClaimedJob) : WorkerProg Unit := do
  let workspaceId := job.row.workspaceId
  if ← reassertSafeToPurge job then
    cdnCall
    match ← deleteWorkspace job.row.requestedBy workspaceId with
    | some error =>
      if ← workspaceStillExists workspaceId then
        retryOrFail job job.row.storageScopes s!"db cleanup failed: {error}"
      else finishJob job
    | none => finishJob job
  else pure ()

def workOn (job : ClaimedJob) : WorkerProg Unit :=
  if job.row.status = .storageCleanup then runStorageCleanup job
  else if job.row.status = .dbCleanup then runDbCleanup job
  else pure ()

inductive WriterAsk where
  | acquire
  | prepare
  | put
  | response (write : ℕ)
  | renew
  | leaseLost
  | release

abbrev WriterReply : WriterAsk → Type
  | .acquire => Bool
  | .prepare => Except Thrown Bool
  | .put => ℕ
  | .response _ => Except Thrown Bool
  | .renew => Bool
  | .leaseLost => Bool
  | .release => Unit

abbrev WriterProg := ExceptT Thrown (Dialogue WriterAsk WriterReply)

def prepare : WriterProg Bool := ExceptT.mk (Dialogue.query (A := WriterReply) WriterAsk.prepare)

def beginCall : WriterProg ℕ := ExceptT.lift (Dialogue.query (A := WriterReply) WriterAsk.put)

def endCall (write : ℕ) : WriterProg Bool :=
  ExceptT.mk (Dialogue.query (A := WriterReply) (WriterAsk.response write))

def providerCall : WriterProg Bool := do
  let write ← beginCall
  endCall write

def attempt {α : Type} (m : WriterProg α) : WriterProg (Except Thrown α) := ExceptT.lift m.run

/-- The calls of `Promise.all`: all begin before one is waited for. -/
def beginCalls : ℕ → WriterProg (List ℕ)
  | 0 => pure []
  | n + 1 => do
    let write ← beginCall
    let writes ← beginCalls n
    pure (write :: writes)

def endCalls : List ℕ → WriterProg Unit
  | [] => pure ()
  | write :: writes => do
    let _ ← attempt (endCall write)
    endCalls writes

def withOwnerWriteLease {α : Type} (fn : WriterProg α) : WriterProg (Option α) := do
  let acquired ← ExceptT.lift (Dialogue.query (A := WriterReply) WriterAsk.acquire)
  if !acquired then pure none
  else
    let result ← fn
    let stillHeld ← ExceptT.lift (Dialogue.query (A := WriterReply) WriterAsk.renew)
    let leaseLost ← ExceptT.lift (Dialogue.query (A := WriterReply) WriterAsk.leaseLost)
    if leaseLost || !stillHeld then pure none
    else
      ExceptT.lift (Dialogue.query (A := WriterReply) WriterAsk.release)
      pure (some result)

def doUpload (replicas : ℕ) : WriterProg Bool := do
  let ready ← prepare
  if !ready then pure false
  else
    let result ← attempt providerCall
    let success := match result with
      | .ok success => success
      | .error _ => false
    if success then
      let writes ← beginCalls replicas
      endCalls writes
    pure success

def uploadForOwner (replicas : ℕ) : WriterProg (Option Bool) := withOwnerWriteLease (doUpload replicas)

def uploadWithConfig : WriterProg Bool := do
  let ready ← prepare
  if !ready then pure false else providerCall

def uploadWithConfigForOwner : WriterProg (Option Bool) := withOwnerWriteLease uploadWithConfig

/-- What `startRecording` does while it holds its lease, and whether the lease may be released. -/
def recordUnderLease : WriterProg (Except Thrown Unit × Bool) := do
  match ← attempt prepare with
  | .error err => pure (.error err, true)
  | .ok _ =>
    match ← attempt providerCall with
    | .error err => pure (.error err, true)
    | .ok _ =>
      -- `onStarted`, and the stop that makes up for it when it throws
      match ← attempt prepare with
      | .ok _ => pure (.ok (), true)
      | .error err =>
        match ← attempt prepare with
        | .ok _ => pure (.error err, true)
        | .error _ => pure (.error err, false)

def startRecording : WriterProg (Option Bool) := do
  let acquired ← ExceptT.lift (Dialogue.query (A := WriterReply) WriterAsk.acquire)
  if !acquired then pure none
  else
    let (result, releaseLeaseNow) ← recordUnderLease
    if releaseLeaseNow then ExceptT.lift (Dialogue.query (A := WriterReply) WriterAsk.release)
    match result with
    | .ok _ => pure (some true)
    | .error err => throw err

inductive WriterKind where
  | upload (replicas : ℕ)
  | uploadWithConfig
  | recording

def WriterKind.program : WriterKind → WriterProg (Option Bool)
  | .upload replicas => uploadForOwner replicas
  | .uploadWithConfig => uploadWithConfigForOwner
  | .recording => startRecording

end Kindred.Deletion
