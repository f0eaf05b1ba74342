import Kindred.Invitations.Functions

/-! The outbox: the functions by which workers take the jobs that mail an invitation. -/

namespace Kindred.Invitations
open Lib.Tx (require)

def Job.heldUnder (j : Job) (now : Timestamp) (claimToken : Id) : Bool :=
  j.claimToken = some claimToken && j.status = .claimed && j.claimExpiresAt.any (now < ·)

def Job.due (j : Job) (now : Timestamp) : Bool := j.status.unclaimed && j.availableAt ≤ now

def Job.claimed (j : Job) (now : Timestamp) (workerId : String) (claimToken : Id)
    (leaseSeconds : Int) : Job :=
  { j with
    status := .claimed, lockedBy := some workerId, claimToken := some claimToken
    claimExpiresAt := some (now + seconds leaseSeconds), attemptCount := j.attemptCount + 1 }

/-- One of the jobs of `claim_invitation_jobs`. -/
def claimJob (now : Timestamp) (workerId : String) (leaseSeconds : Int) (jobId : Id) :
    InvitationTx Unit := do
  let db ← get
  match (db.jobs.get jobId).filter (·.due now) with
  | none => pure ()
  | some j => do
    let claimToken ← genRandomUuid
    modify fun db => { db with
      jobs := db.jobs.put jobId (j.claimed now workerId claimToken leaseSeconds) }

/-- `claim_invitation_jobs`; its channels, its `LIMIT` and the locks of others that it skips leave
any of the jobs that are due. -/
def claimInvitationJobs (now : Timestamp) (workerId : String) (leaseSeconds : Int)
    (jobIds : List Id) : InvitationTx Unit :=
  jobIds.forM (claimJob now workerId leaseSeconds)

def Job.released (j : Job) : Job :=
  { j with lockedBy := none, claimToken := none, claimExpiresAt := none }

/-- `reclaim_expired_invitation_jobs` -/
def reclaimExpiredInvitationJobs (now : Timestamp) : InvitationTx Unit :=
  modify fun db => { db with
    jobs := db.jobs.mapValues fun j =>
      if j.status = .claimed ∧ j.claimExpiresAt.any (· ≤ now) then
        { j.released with
          status := if j.maxAttempts ≤ j.attemptCount then .permanentlyFailed else .queued
          availableAt := now }
      else j }

/-- `wi_heartbeat_invitation_job` -/
def wiHeartbeatInvitationJob (now : Timestamp) (jobId claimToken : Id) (leaseSeconds : Int) :
    InvitationTx Bool := do
  require (30 ≤ leaseSeconds ∧ leaseSeconds ≤ 600) .invalidLeaseSeconds
  let db ← get
  match (db.jobs.get jobId).filter (·.heldUnder now claimToken) with
  | none => return false
  | some j => do
    set { db with
      jobs := db.jobs.put jobId { j with claimExpiresAt := some (now + seconds leaseSeconds) } }
    return true

structure EmailToken where
  tokenHash : String
  expiresAt : Timestamp

def prepareEmailToken (now : Timestamp) (j : Job) (i : Invitation) (t : EmailToken) :
    InvitationTx Unit := do
  modify fun db => { db with
    tokens := db.tokens.mapValues fun k =>
      if k.invitationId = j.invitationId ∧ k.purpose = .emailClaim ∧ k.unspent ∧
          k.tokenHash ≠ t.tokenHash then { k with revokedAt := some now }
      else k }
  let db ← get
  if db.tokens.rows.all fun k => k.2.tokenHash ≠ t.tokenHash then
    insertToken {
      invitationId := j.invitationId, workspaceId := i.workspaceId, purpose := .emailClaim
      tokenHash := t.tokenHash, tokenGeneration := j.emailTokenGeneration.getD 1
      notificationGeneration := i.notificationGeneration, expiresAt := t.expiresAt }
  else pure ()

/-- `wi_prepare_invitation_job`: whether the job is to be sent. -/
def wiPrepareInvitationJob (now : Timestamp) (jobId claimToken : Id) (t : Option EmailToken) :
    InvitationTx Bool := do
  let db ← get
  match db.jobs.get jobId with
  | none => throw .jobNotFound
  | some j => do
    require (j.heldUnder now claimToken) .jobClaimLost
    match (db.invitations.get j.invitationId).filter fun i =>
        i.status = .pending && i.flowVersion = 2 &&
          j.notificationGeneration = i.notificationGeneration with
    | none => do
      set { db with jobs := db.jobs.put jobId { j.released with status := .cancelled } }
      return false
    | some i =>
      if j.channel = .email then
        match t with
        | none => throw .emailTokenRequired
        | some t => do
          prepareEmailToken now j i t
          return true
      else return true

/-- `wi_job_still_sendable` -/
def Db.jobStillSendable (db : Db) (now : Timestamp) (jobId claimToken : Id) : Bool :=
  (db.jobs.get jobId).any fun j =>
    j.heldUnder now claimToken &&
      (db.invitations.get j.invitationId).any fun i =>
        i.status = .pending && i.flowVersion = 2 &&
          j.notificationGeneration = i.notificationGeneration

inductive JobOutcome where
  | providerAccepted | retry | permanentlyFailed | unconfigured | derivationKeyUnavailable

def Job.nextStatus (j : Job) : JobOutcome → JobStatus
  | .retry => if j.maxAttempts ≤ j.attemptCount then .permanentlyFailed else .retrying
  | .providerAccepted => .providerAccepted
  | .permanentlyFailed => .permanentlyFailed
  | .unconfigured => .unconfigured
  | .derivationKeyUnavailable => .derivationKeyUnavailable

def Job.completed (j : Job) (now : Timestamp) (outcome : JobOutcome) (retryInSeconds : Int) : Job :=
  { j with
    status := j.nextStatus outcome
    availableAt :=
      if j.nextStatus outcome = .retrying then now + seconds (max retryInSeconds 5)
      else j.availableAt
    lockedBy := none
    claimToken := if j.nextStatus outcome = .retrying then none else j.claimToken
    claimExpiresAt := none }

/-- `wi_complete_invitation_job`: whether the outcome was recorded. -/
def wiCompleteInvitationJob (now : Timestamp) (jobId : Id) (claimToken : Id) (outcome : JobOutcome)
    (retryInSeconds : Int) : InvitationTx Bool := do
  let db ← get
  match db.jobs.get jobId with
  | none => throw .jobNotFound
  | some j =>
    if j.claimToken = some claimToken then do
      set { db with jobs := db.jobs.put jobId (j.completed now outcome retryInSeconds) }
      return true
    else return false

end Kindred.Invitations
