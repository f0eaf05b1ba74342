import Kindred.Invitations.Schema

/-! The functions that all others call, the codes of the manual link and the ledger. -/

namespace Kindred.Invitations
open Lib.Tx (require)

/-- `make_interval(secs => n)` -/
def seconds (n : Int) : Int := n * 1000000

/-- `consumed_at IS NULL AND revoked_at IS NULL` -/
def Token.unspent (t : Token) : Bool := t.consumedAt.isNone && t.revokedAt.isNone

def Otp.unspent (o : Otp) : Bool := o.consumedAt.isNone && o.revokedAt.isNone

def Proof.unspent (p : Proof) : Bool := p.consumedAt.isNone && p.revokedAt.isNone

def Context.unspent (c : Context) : Bool := c.consumedAt.isNone && c.revokedAt.isNone

def genRandomUuid : InvitationTx Id := do
  let db ← get
  set { db with nextId := db.nextId + 1 }
  return db.nextId

def insertToken (t : Token) : InvitationTx Unit := do
  let id ← genRandomUuid
  let db ← get
  require (db.tokens.get id).isNone (.unique "workspace_invitation_tokens_pkey")
  require (db.tokens.rows.all fun r => r.2.tokenHash ≠ t.tokenHash)
    (.unique "workspace_invitation_tokens_token_hash_key")
  require
    (db.tokens.rows.all fun r =>
      !(r.2.invitationId = t.invitationId && r.2.purpose = t.purpose && r.2.unspent))
    (.unique "uq_workspace_invitation_tokens_active")
  set { db with tokens := db.tokens.put id t }

def insertOtp (id : Id) (o : Otp) : InvitationTx Unit := do
  let db ← get
  require (db.otps.get id).isNone (.unique "workspace_invitation_otps_pkey")
  set { db with otps := db.otps.put id o }

def insertProof (p : Proof) : InvitationTx Unit := do
  let id ← genRandomUuid
  let db ← get
  require (db.proofs.get id).isNone (.unique "workspace_invitation_proofs_pkey")
  require (db.proofs.rows.all fun r => r.2.proofHash ≠ p.proofHash)
    (.unique "workspace_invitation_proofs_proof_hash_key")
  set { db with proofs := db.proofs.put id p }

def insertJob (j : Job) : InvitationTx Unit := do
  let id ← genRandomUuid
  let db ← get
  require (db.jobs.get id).isNone (.unique "workspace_invitation_jobs_pkey")
  require (db.jobs.rows.all fun r => r.2.idempotencyKey ≠ j.idempotencyKey)
    (.unique "workspace_invitation_jobs_idempotency_key_key")
  set { db with jobs := db.jobs.put id j }

/-- `wi_can_manage_invitation` -/
def wiCanManageInvitation (actorRole targetRole : Role) : Bool :=
  if targetRole = .owner then false
  else if actorRole = .owner then true
  else if actorRole = .admin then targetRole ≠ .admin
  else false

def Db.roleOf (db : Db) (workspaceId userId : Id) : Option Role :=
  (db.members.get (workspaceId, userId)).map Member.role

/-- The role that the actor has lets him manage one of `targetRole`. -/
def Db.mayManage (db : Db) (workspaceId actorId : Id) (targetRole : Role) : Bool :=
  (db.roleOf workspaceId actorId).any fun r => wiCanManageInvitation r targetRole

def Db.isExpired (db : Db) (workspaceId invitationId : Id) : Bool :=
  (db.invitations.get invitationId).any fun i =>
    i.workspaceId = workspaceId && i.status = .expired

/-- `wi_expire_due` -/
def Db.expireDue (db : Db) (now : Timestamp) (workspaceId : Id) : Db :=
  let db : Db := { db with
    invitations := db.invitations.mapValues fun i =>
      if i.workspaceId = workspaceId ∧ i.status = .pending ∧ i.expiresAt.any (· ≤ now) then
        { i with status := .expired }
      else i }
  { db with
    tokens := db.tokens.mapValues fun t =>
      if db.isExpired workspaceId t.invitationId ∧ t.unspent then { t with revokedAt := some now }
      else t
    jobs := db.jobs.mapValues fun j =>
      if db.isExpired workspaceId j.invitationId ∧ j.status.unclaimed then
        { j with status := .cancelled }
      else j }

/-- `wi_revoke_secrets`; of one generation, and of the tokens those of one purpose, where they are
given. -/
def Db.revokeSecrets (db : Db) (now : Timestamp) (invitationId : Id) (generation : Option ℕ)
    (purpose : Option Purpose) : Db :=
  { db with
    tokens := db.tokens.mapValues fun t =>
      if t.invitationId = invitationId ∧ t.unspent ∧ generation.all (· = t.notificationGeneration) ∧
          purpose.all (· = t.purpose) then { t with revokedAt := some now }
      else t
    otps := db.otps.mapValues fun o =>
      if o.invitationId = invitationId ∧ o.unspent ∧
          generation.all (· = o.notificationGeneration) then { o with revokedAt := some now }
      else o
    proofs := db.proofs.mapValues fun p =>
      if p.invitationId = invitationId ∧ p.unspent ∧
          generation.all (· = p.notificationGeneration) then { p with revokedAt := some now }
      else p
    contexts := db.contexts.mapValues fun c =>
      if c.invitationId = invitationId ∧ c.unspent ∧
          generation.all (· = c.notificationGeneration) then { c with revokedAt := some now }
      else c
    jobs := db.jobs.mapValues fun j =>
      if j.invitationId = invitationId ∧ j.status.unclaimed ∧
          generation.all (· = j.notificationGeneration) then { j with status := .cancelled }
      else j }

def Db.findToken (db : Db) (tokenHash : String) (purpose : Purpose) : Option (Id × Token) :=
  db.tokens.rows.find? fun r => r.2.tokenHash = tokenHash ∧ r.2.purpose = purpose

/-- What `wi_lock_and_validate_token` answers, with the rows that its callers select again. -/
structure Validated where
  invitationId : Id
  inv : Invitation
  tokenId : Id
  tok : Token

/-- `wi_lock_and_validate_token` -/
def wiLockAndValidateToken (now : Timestamp) (tokenHash : String) (purpose : Purpose) :
    InvitationTx Validated := do
  let db ← get
  match db.findToken tokenHash purpose with
  | none => throw .invitationNotFound
  | some (_, t) => do
    modify fun db => db.expireDue now t.workspaceId
    let db ← get
    match db.invitations.get t.invitationId, db.findToken tokenHash purpose with
    | some inv, some (tokenId, tok) => do
      require (inv.flowVersion = 2 ∧ inv.status = .pending) .invitationNotFound
      require
        (tok.invitationId = t.invitationId ∧ tok.workspaceId = inv.workspaceId ∧ tok.unspent ∧
          now < tok.expiresAt ∧ tok.notificationGeneration = inv.notificationGeneration)
        .invitationNotFound
      return { invitationId := t.invitationId, inv, tokenId, tok }
    | _, _ => throw .invitationNotFound

structure Result where
  invitationId : Option Id := none
  workspaceId : Option Id := none

/-- The parameters of `wi_request_invitation_otp_v2`. -/
structure OtpRequest where
  tokenHash : String
  otpId : Id
  codeDigest : String
  expiresAt : Timestamp
  jobIdempotencyKey : String

def Db.recentOtps (db : Db) (now : Timestamp) (invitationId : Id) : List Otp :=
  (db.otps.rows.map Prod.snd).filter fun o =>
    o.invitationId = invitationId && now - seconds 3600 < o.createdAt

def Db.supersedeOtps (db : Db) (now : Timestamp) (invitationId : Id) : Db :=
  { db with
    otps := db.otps.mapValues fun o =>
      if o.invitationId = invitationId ∧ o.unspent then { o with revokedAt := some now } else o
    jobs := db.jobs.mapValues fun j =>
      if j.invitationId = invitationId ∧ j.channel = .otpEmail ∧ j.status.unclaimed then
        { j with status := .cancelled, claimToken := none, lockedBy := none, claimExpiresAt := none }
      else j }

/-- `wi_request_invitation_otp_v2` -/
def wiRequestInvitationOtpV2 (now : Timestamp) (r : OtpRequest) : InvitationTx Result := do
  require (now < r.expiresAt ∧ r.expiresAt ≤ now + seconds 600) .otpPolicyInvalid
  let v ← wiLockAndValidateToken now r.tokenHash .manualHandoff
  let db ← get
  let recent := db.recentOtps now v.invitationId
  require (recent.all fun o => o.createdAt ≤ now - seconds 60) .otpRateLimited
  require (recent.length < 5) .otpRateLimited
  modify fun db => db.supersedeOtps now v.invitationId
  insertOtp r.otpId {
    invitationId := v.invitationId, workspaceId := v.inv.workspaceId
    emailNormalized := v.inv.invitedEmailNormalized, manualTokenId := v.tokenId
    manualTokenGeneration := v.tok.tokenGeneration
    notificationGeneration := v.inv.notificationGeneration, codeDigest := r.codeDigest
    expiresAt := r.expiresAt, createdAt := now }
  let db ← get
  if db.jobs.rows.all fun j => j.2.idempotencyKey ≠ r.jobIdempotencyKey then do
    insertJob {
      invitationId := v.invitationId, workspaceId := v.inv.workspaceId, channel := .otpEmail
      notificationGeneration := v.inv.notificationGeneration
      idempotencyKey := r.jobIdempotencyKey, otpId := some r.otpId, maxAttempts := 3
      availableAt := now }
    return { invitationId := some v.invitationId, workspaceId := some v.inv.workspaceId }
  else
    return { invitationId := some v.invitationId, workspaceId := some v.inv.workspaceId }

/-- `ORDER BY created_at DESC LIMIT 1` -/
def latest : List (Id × Otp) → Option (Id × Otp)
  | [] => none
  | r :: rs =>
    match latest rs with
    | none => some r
    | some r' => if r'.2.createdAt < r.2.createdAt then some r else some r'

def Db.pendingOtp (db : Db) (invitationId : Id) : Option (Id × Otp) :=
  latest (db.otps.rows.filter fun r => r.2.invitationId = invitationId && r.2.unspent)

/-- The parameters of `wi_verify_invitation_otp`. -/
structure OtpVerify where
  tokenHash : String
  codeDigest : Option String
  proofHash : String
  proofExpiresAt : Timestamp

/-- `wi_verify_invitation_otp` up to the comparison: the code that the digest is compared with. -/
def codeToCompare (now : Timestamp) (tokenHash : String) :
    InvitationTx (Validated × Id × Otp) := do
  let v ← wiLockAndValidateToken now tokenHash .manualHandoff
  let db ← get
  match db.pendingOtp v.invitationId with
  | none => throw .otpInvalid
  | some (otpId, otp) => do
    require
      (otp.manualTokenId = v.tokenId ∧ otp.notificationGeneration = v.inv.notificationGeneration ∧
        now < otp.expiresAt)
      .otpInvalid
    if otp.maxAttempts ≤ otp.attempts then do
      set { db with otps := db.otps.update otpId fun o => { o with revokedAt := some now } }
      throw .otpRateLimited
    else
      return (v, otpId, otp)

/-- `code_digest <> _code_digest`: NULL, which the `IF` does not take, where no digest is given. -/
def Otp.refuses (otp : Otp) (codeDigest : Option String) : Bool :=
  codeDigest.any fun d => otp.codeDigest ≠ d

/-- A wrong code: one more attempt. -/
def Otp.missed (o : Otp) (now : Timestamp) : Otp :=
  { o with
    attempts := o.attempts + 1
    revokedAt := if o.maxAttempts ≤ o.attempts + 1 then some now else o.revokedAt }

def revokedProof (now : Timestamp) (invitationId : Id) (p : Proof) : Proof :=
  if p.invitationId = invitationId ∧ p.unspent then { p with revokedAt := some now } else p

/-- `wi_verify_invitation_otp` -/
def wiVerifyInvitationOtp (now : Timestamp) (a : OtpVerify) : InvitationTx Result := do
  let (v, otpId, otp) ← codeToCompare now a.tokenHash
  let db ← get
  if otp.refuses a.codeDigest then do
    set { db with otps := db.otps.update otpId fun o => o.missed now }
    throw .otpInvalid
  else do
    set { db with
      otps := db.otps.update otpId fun o =>
        { o with consumedAt := some now, attempts := o.attempts + 1 }
      proofs := db.proofs.mapValues (revokedProof now v.invitationId) }
    insertProof {
      otpId, invitationId := v.invitationId, workspaceId := v.inv.workspaceId
      emailNormalized := v.inv.invitedEmailNormalized, manualTokenId := v.tokenId
      manualTokenGeneration := otp.manualTokenGeneration
      notificationGeneration := v.inv.notificationGeneration, proofHash := a.proofHash
      expiresAt := a.proofExpiresAt }
    return { invitationId := some v.invitationId }

/-- What a call of `wi_execute_idempotent` names besides the operation and its arguments. -/
structure Call where
  key : String
  fingerprint : String
  scopeKind : String
  workspaceId : Option Id := none
  invitationId : Option Id := none

inductive Reply where
  | replayed
  | done (result : Result)

/-- `wi_execute_idempotent` up to the operation: whether the key was committed before. -/
def acquireKey (c : Call) (operation : Operation) : InvitationTx Bool := do
  require (16 ≤ c.key.length) .idempotencyKeyRequired
  require (16 ≤ c.fingerprint.length) .idempotencyFingerprintRequired
  modify fun db =>
    if (db.idempotency.get c.key).isSome then db
    else { db with
      idempotency := db.idempotency.put c.key {
        scopeKind := c.scopeKind, operation, workspaceId := c.workspaceId
        invitationId := c.invitationId, requestFingerprint := c.fingerprint } }
  let db ← get
  match db.idempotency.get c.key with
  | none => throw .idempotencyConflict
  | some row => do
    require
      (row.operation = operation ∧ row.scopeKind = c.scopeKind ∧
        row.requestFingerprint = c.fingerprint ∧
        (c.workspaceId = none ∨ row.workspaceId = c.workspaceId))
      .idempotencyKeyReused
    return row.resultState = .committed

/-- `wi_execute_idempotent` -/
def wiExecuteIdempotent (c : Call) (operation : Operation) (perform : InvitationTx Result) :
    InvitationTx Reply := do
  let replayed ← acquireKey c operation
  if replayed then
    return .replayed
  else do
    let result ← perform
    modify fun db => { db with
      idempotency := db.idempotency.update c.key fun row =>
        { row with
          resultState := .committed, invitationId := row.invitationId <|> result.invitationId
          workspaceId := row.workspaceId <|> result.workspaceId } }
    return .done result

end Kindred.Invitations
