import Kindred.Deletion.ScopeCleanup

/-!
Deletion jobs and owner write leases: the rows and the functions of the
database. A claim mints a token that every later write of the job must present;
a write lease is granted only to the owner that nobody deletes. Times are in
milliseconds.
-/

namespace Kindred.Deletion
open Lib (Table)

inductive WorkspaceStatus where
  | active | deleting
  deriving DecidableEq

inductive JobStatus where
  | pending | storageCleanup | dbCleanup | completed | failed
  deriving DecidableEq

/-- A row of `workspace_deletion_jobs`. -/
structure DeletionJob where
  workspaceId : Id
  requestedBy : Id
  status : JobStatus := .pending
  storageScopes : ScopeCleanupState := .empty
  attemptCount : ℕ := 0
  nextRetryAt : Option Int := none
  lockedBy : Option String := none
  leaseToken : Option ℕ := none
  leaseExpiresAt : Option Int := none
  errorMessage : Option String := none
  requestedAt : Int
  startedAt : Option Int := none
  dbCleanupCompletedAt : Option Int := none
  completedAt : Option Int := none

def DeletionJob.live (j : DeletionJob) : Bool :=
  j.status = .pending || j.status = .storageCleanup || j.status = .dbCleanup

inductive OwnerKind where
  | workspace | user
  deriving DecidableEq

/-- A row of `owner_write_leases`. -/
structure OwnerWriteLease where
  leaseToken : ℕ
  ownerKind : OwnerKind
  ownerId : Id
  purpose : String
  leaseExpiresAt : Int

/-- What `user_deletion_jobs` says of a user: a job that is live, or one that is over. -/
structure UserDeletionJob where
  userId : Id
  live : Bool := true

structure Db where
  /-- `now()` -/
  now : Int := 0
  workspaces : Table Id WorkspaceStatus := .empty
  profiles : List Id := []
  jobs : Table Id DeletionJob := .empty
  userJobs : Table Id UserDeletionJob := .empty
  leases : Table Id OwnerWriteLease := .empty
  nextId : Id := 0
  nextToken : ℕ := 0
  lastExpiry : Table Id Int := .empty

def enqueueWorkspaceDeletion (workspaceId actor : Id) (db : Db) : Db :=
  if db.workspaces.get workspaceId = some .active then
    { db with
      workspaces := db.workspaces.put workspaceId .deleting
      jobs := db.jobs.put db.nextId { workspaceId, requestedBy := actor, requestedAt := db.now }
      nextId := db.nextId + 1 }
  else db

def retryWorkspaceDeletionJob (id : Id) (db : Db) : Db :=
  { db with jobs := db.jobs.update id fun j =>
      if j.status = .failed then
        { j with
          status := .storageCleanup, nextRetryAt := none, lockedBy := none, leaseExpiresAt := none
          errorMessage := none }
      else j }

def DeletionJob.claimable (now : Int) (j : DeletionJob) : Bool :=
  j.live && j.nextRetryAt.all (· ≤ now) && j.leaseExpiresAt.all (· ≤ now)

def DeletionJob.claimed (token : ℕ) (workerId : String) (leaseSeconds now : Int) (j : DeletionJob) :
    DeletionJob :=
  { j with
    lockedBy := some workerId
    leaseToken := some token
    leaseExpiresAt := some (now + leaseSeconds * 1000)
    startedAt := some (j.startedAt.getD now)
    status := if j.status = .pending then .storageCleanup else j.status }

/-- The job that was asked for first, of those that nobody holds; `skipped` are locked. -/
def nextJob (skipped : List Id) (db : Db) : Option (Id × DeletionJob) :=
  ((db.jobs.rows.filter fun r => r.2.claimable db.now && r.1 ∉ skipped).insertionSort
    fun a b => a.2.requestedAt ≤ b.2.requestedAt).head?

def claimWorkspaceDeletionJob (workerId : String) (leaseSeconds : Int) (skipped : List Id) (db : Db) :
    Db × Option (Id × DeletionJob) :=
  match nextJob skipped db with
  | none => (db, none)
  | some (id, j) =>
    let j := j.claimed db.nextToken workerId leaseSeconds db.now
    ({ db with jobs := db.jobs.put id j, nextToken := db.nextToken + 1 }, some (id, j))

def Db.holds (db : Db) (id : Id) (token : ℕ) : Bool :=
  (db.jobs.get id).any fun j => j.leaseToken = some token

def renewWorkspaceDeletionLease (id : Id) (token : ℕ) (leaseSeconds : Int) (db : Db) : Db × Bool :=
  if db.holds id token then
    ({ db with jobs := db.jobs.update id fun j =>
        { j with leaseExpiresAt := some (db.now + leaseSeconds * 1000) } }, true)
  else (db, false)

structure Patch where
  storageScopes : Option ScopeCleanupState := none
  status : Option JobStatus := none
  attemptCount : Option ℕ := none
  errorMessage : Option String := none
  nextRetryAt : Option Int := none
  /-- `locked_by` and `lease_expires_at` become null. -/
  release : Bool := false
  dbCleanupCompletedAt : Option Int := none
  completedAt : Option Int := none

def Patch.apply (p : Patch) (j : DeletionJob) : DeletionJob :=
  { j with
    storageScopes := p.storageScopes.getD j.storageScopes
    status := p.status.getD j.status
    attemptCount := p.attemptCount.getD j.attemptCount
    errorMessage := p.errorMessage <|> j.errorMessage
    nextRetryAt := p.nextRetryAt <|> j.nextRetryAt
    lockedBy := if p.release then none else j.lockedBy
    leaseExpiresAt := if p.release then none else j.leaseExpiresAt
    dbCleanupCompletedAt := p.dbCleanupCompletedAt <|> j.dbCleanupCompletedAt
    completedAt := p.completedAt <|> j.completedAt }

/-- `UPDATE … WHERE id = … AND lease_token = …`, and whether a row was hit. -/
def updateFenced (id : Id) (token : ℕ) (patch : Patch) (db : Db) : Db × Bool :=
  if db.holds id token then ({ db with jobs := db.jobs.update id patch.apply }, true)
  else (db, false)

def adminPurgeWorkspaces (workspaceId : Id) (db : Db) : Db :=
  { db with
    workspaces := db.workspaces.erase workspaceId
    jobs := db.jobs.keep fun _ j => j.workspaceId ≠ workspaceId }

/-- `purge` is the error of a purge that fails, none of its deletions stays. -/
def adminDeleteWorkspace (isAdmin : Bool) (purge : Option String) (workspaceId : Id) (db : Db) :
    Db × Option String :=
  if !isAdmin then (db, some "Not authorized")
  else if (db.workspaces.get workspaceId).isNone then (db, some "Workspace not found")
  else match purge with
    | some error => (db, some error)
    | none => (adminPurgeWorkspaces workspaceId db, none)

def Db.userJobLive (db : Db) (userId : Id) : Bool :=
  db.userJobs.rows.any fun r => r.2.userId = userId && r.2.live

def enqueueUserDeletion (userId actor : Id) (db : Db) : Db :=
  if userId = actor ∨ userId ∉ db.profiles ∨ db.userJobLive userId then db
  else { db with
    userJobs := db.userJobs.put db.nextId { userId }
    nextId := db.nextId + 1 }

def Db.writable (db : Db) : OwnerKind → Id → Bool
  | .workspace, id => db.workspaces.get id = some .active
  | .user, id => id ∈ db.profiles && !db.userJobLive id

/-- The transaction began `waited` before it got the owner's row lock, and `now()` is its beginning. -/
def acquireOwnerWriteLease (kind : OwnerKind) (ownerId : Id) (purpose : String)
    (leaseSeconds : ℕ) (waited : ℕ) (db : Db) : Db × Option (Id × ℕ) :=
  let started := db.now - waited
  let db := { db with leases := db.leases.keep fun _ l => started - 3600000 ≤ l.leaseExpiresAt }
  if db.writable kind ownerId then
    let expires := started + leaseSeconds * 1000
    ({ db with
      leases := db.leases.put db.nextId
        { leaseToken := db.nextToken, ownerKind := kind, ownerId, purpose, leaseExpiresAt := expires }
      lastExpiry := db.lastExpiry.put db.nextId expires
      nextId := db.nextId + 1
      nextToken := db.nextToken + 1 }, some (db.nextId, db.nextToken))
  else (db, none)

def renewOwnerWriteLease (id : Id) (token : ℕ) (leaseSeconds : ℕ) (db : Db) : Db × Bool :=
  if (db.leases.get id).any fun l => l.leaseToken = token && db.now < l.leaseExpiresAt then
    let expires := db.now + leaseSeconds * 1000
    ({ db with
      leases := db.leases.update id fun l => { l with leaseExpiresAt := expires }
      lastExpiry := db.lastExpiry.put id expires }, true)
  else (db, false)

def releaseOwnerWriteLease (id : Id) (token : ℕ) (db : Db) : Db :=
  { db with leases := db.leases.keep fun id' l => ¬(id' = id ∧ l.leaseToken = token) }

def hasActiveOwnerWriteLeases (kind : OwnerKind) (ownerId : Id) (graceSeconds : ℕ) (db : Db) :
    Bool :=
  db.leases.rows.any fun r => r.2.ownerKind = kind && r.2.ownerId = ownerId &&
    db.now < r.2.leaseExpiresAt + graceSeconds * 1000

end Kindred.Deletion
