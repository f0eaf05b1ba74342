import Kindred.Invitations.Functions

/-! The functions that create and change an invitation. -/

namespace Kindred.Invitations
open Lib.Tx (require)

/-- `workspace_invitations_v2_role_pairing_chk` -/
def MemberType.allows : MemberType → Role → Bool
  | .staff, r =>
    [Role.admin, .marketingManager, .seoManager, .analyst, .developer, .billing, .viewer].contains r
  | .customerFacing, r => [Role.agent, .supportAgent, .salesAgent, .teamLead].contains r

def Invitation.checked (i : Invitation) : Bool :=
  i.flowVersion ≠ 2 ||
    i.role ≠ .owner && i.memberType.allows i.role && i.expiresAt.any (i.createdAt < ·)

def Db.pendingTwin (db : Db) (id : Id) (i : Invitation) : Bool :=
  db.invitations.rows.any fun r =>
    r.1 ≠ id && r.2.workspaceId = i.workspaceId && r.2.status = .pending &&
      (r.2.invitedEmailNormalized = i.invitedEmailNormalized ||
        i.invitedPhoneE164.isSome && r.2.invitedPhoneE164 = i.invitedPhoneE164)

def putInvitation (id : Id) (i : Invitation) : InvitationTx Unit := do
  let db ← get
  require i.checked (.check "workspace_invitations_v2_required_chk")
  require (!db.pendingTwin id i) (.unique "uq_workspace_invitations_pending")
  set { db with invitations := db.invitations.put id i }

/-- What the plan and the switch of the billing locks say when a call asks for the seats; `limit` is
none where there is none. -/
structure Seats where
  limit : Option ℕ
  locksEnabled : Bool

def Db.seatsUsed (db : Db) (workspaceId : Id) (locksEnabled : Bool) : ℕ :=
  db.members.rows.countP fun m =>
    m.1.1 = workspaceId && (!m.2.suspended || !locksEnabled)

/-- `wi_assert_seat_available`; none where `wi_resolve_seat_capacity` raises. -/
def wiAssertSeatAvailable (workspaceId : Id) (seats : Option Seats) : InvitationTx Unit := do
  let db ← get
  match seats with
  | none => throw .entitlementUnavailable
  | some s =>
    require (s.limit.all fun limit => db.seatsUsed workspaceId s.locksEnabled < limit)
      .seatLimitReached

def insertJobs (now : Timestamp) (id : Id) (i : Invitation) (emailKey : String)
    (smsKey : Option String) : InvitationTx Unit := do
  insertJob {
    invitationId := id, workspaceId := i.workspaceId, channel := .email
    notificationGeneration := i.notificationGeneration, emailTokenGeneration := some 1
    idempotencyKey := emailKey, availableAt := now }
  match i.invitedPhoneE164, smsKey with
  | some _, some smsKey =>
    insertJob {
      invitationId := id, workspaceId := i.workspaceId, channel := .sms
      notificationGeneration := i.notificationGeneration, idempotencyKey := smsKey
      availableAt := now }
  | some _, none => throw (.notNull "idempotency_key")
  | none, _ => pure ()

def requireDepartments (memberType : MemberType) (departmentIds : List Id) : InvitationTx Unit := do
  require (memberType = .staff → departmentIds = []) .staffInvitationMustHaveNoDepartment
  require (memberType = .customerFacing → departmentIds ≠ [])
    .customerFacingInvitationRequiresDepartment

structure Draft where
  firstName : String
  lastName : String
  emailNormalized : String
  phoneE164 : Option String := none
  memberType : MemberType
  role : Role
  expiresAt : Timestamp
  departmentIds : List Id
  emailJobIdempotencyKey : Option String
  smsJobIdempotencyKey : Option String := none

structure Create where
  workspaceId : Id
  actorId : Id
  draft : Draft
  manualTokenHash : String
  manualTokenExpiresAt : Timestamp

/-- `create_workspace_invitation_v2` -/
def createWorkspaceInvitationV2 (now : Timestamp) (seats : Option Seats) (a : Create) :
    InvitationTx Result := do
  let db ← get
  require (db.workspaces.get a.workspaceId).isSome .workspaceNotFound
  require (db.mayManage a.workspaceId a.actorId a.draft.role) .forbiddenRoleEscalation
  requireDepartments a.draft.memberType a.draft.departmentIds
  modify fun db => db.expireDue now a.workspaceId
  let db ← get
  let i : Invitation := {
    workspaceId := a.workspaceId, role := a.draft.role, firstName := a.draft.firstName
    lastName := a.draft.lastName, invitedEmailNormalized := a.draft.emailNormalized
    invitedPhoneE164 := a.draft.phoneE164, memberType := a.draft.memberType
    expiresAt := some a.draft.expiresAt, createdBy := a.actorId, createdAt := now }
  require (!db.pendingTwin db.nextId i) .invitationDuplicate
  wiAssertSeatAvailable a.workspaceId seats
  let id ← genRandomUuid
  let db ← get
  require (db.invitations.get id).isNone (.unique "workspace_invitations_pkey")
  putInvitation id i
  insertToken {
    invitationId := id, workspaceId := a.workspaceId, purpose := .manualHandoff
    tokenHash := a.manualTokenHash, expiresAt := a.manualTokenExpiresAt }
  match a.draft.emailJobIdempotencyKey with
  | none => throw (.notNull "idempotency_key")
  | some emailKey => do
    insertJobs now id i emailKey a.draft.smsJobIdempotencyKey
    return { invitationId := some id, workspaceId := some a.workspaceId }

def lockPending (now : Timestamp) (invitationId actorId : Id) : InvitationTx Invitation := do
  let db ← get
  match db.invitations.get invitationId with
  | none => throw .invitationNotFound
  | some i => do
    modify fun db => db.expireDue now i.workspaceId
    let db ← get
    match db.invitations.get invitationId with
    | none => throw .invitationNotPending
    | some i => do
      require (i.flowVersion = 2 ∧ i.status = .pending) .invitationNotPending
      require (db.mayManage i.workspaceId actorId i.role) .forbiddenRoleEscalation
      return i

/-- `max(email_token_generation)` of the e-mail jobs. -/
def Db.lastTokenGeneration (db : Db) (invitationId : Id) : Option ℕ :=
  (db.jobs.rows.filterMap fun j =>
    if j.2.invitationId = invitationId ∧ j.2.channel = .email then j.2.emailTokenGeneration
    else none).max?

structure Resend where
  invitationId : Id
  actorId : Id
  jobIdempotencyKey : String

/-- `resend_invitation_email_v2` -/
def resendInvitationEmailV2 (now : Timestamp) (a : Resend) : InvitationTx Result := do
  let i ← lockPending now a.invitationId a.actorId
  let db ← get
  let next := (db.lastTokenGeneration a.invitationId).getD 1 + 1
  modify fun db => db.revokeSecrets now a.invitationId none (some .emailClaim)
  insertJob {
    invitationId := a.invitationId, workspaceId := i.workspaceId, channel := .email
    notificationGeneration := i.notificationGeneration, emailTokenGeneration := some next
    idempotencyKey := a.jobIdempotencyKey, availableAt := now }
  return { invitationId := some a.invitationId, workspaceId := some i.workspaceId }

/-- `max(token_generation)` of the manual tokens. -/
def Db.lastManualGeneration (db : Db) (invitationId : Id) : Option ℕ :=
  (db.tokens.rows.filterMap fun t =>
    if t.2.invitationId = invitationId ∧ t.2.purpose = .manualHandoff then some t.2.tokenGeneration
    else none).max?

def Db.retireManual (db : Db) (now : Timestamp) (invitationId : Id) : Db :=
  { db with
    otps := db.otps.mapValues fun o =>
      if o.invitationId = invitationId ∧ o.unspent then { o with revokedAt := some now } else o
    proofs := db.proofs.mapValues (revokedProof now invitationId)
    contexts := db.contexts.mapValues fun c =>
      if c.invitationId = invitationId ∧ c.unspent ∧ c.purpose = .manualHandoff then
        { c with revokedAt := some now }
      else c }

structure Rotate where
  invitationId : Id
  actorId : Id
  tokenHash : String
  tokenExpiresAt : Timestamp

/-- `rotate_manual_link_v2` -/
def rotateManualLinkV2 (now : Timestamp) (a : Rotate) : InvitationTx Result := do
  let i ← lockPending now a.invitationId a.actorId
  let db ← get
  let generation := (db.lastManualGeneration a.invitationId).getD 0 + 1
  modify fun db => db.revokeSecrets now a.invitationId none (some .manualHandoff)
  modify fun db => db.retireManual now a.invitationId
  insertToken {
    invitationId := a.invitationId, workspaceId := i.workspaceId, purpose := .manualHandoff
    tokenHash := a.tokenHash, tokenGeneration := generation
    notificationGeneration := i.notificationGeneration, expiresAt := a.tokenExpiresAt }
  return { invitationId := some a.invitationId, workspaceId := some i.workspaceId }

end Kindred.Invitations
