import Kindred.Database

/-! Workspace invitations: the rows, the secrets that are handed out for them and the jobs that mail
them. -/

namespace Kindred.Invitations

/-- `workspace_role` -/
inductive Role where
  | owner | admin | agent | viewer | teamLead | salesAgent | supportAgent | marketingManager
  | seoManager | analyst | developer | billing
  deriving DecidableEq

inductive MemberType where
  | staff | customerFacing
  deriving DecidableEq

inductive Status where
  | pending | accepted | revoked | expired
  deriving DecidableEq

/-- A row of `workspace_invitations`. -/
structure Invitation where
  workspaceId : Id
  flowVersion : ℕ := 2
  role : Role
  firstName : String
  lastName : String
  invitedEmailNormalized : String
  invitedPhoneE164 : Option String := none
  memberType : MemberType
  status : Status := .pending
  notificationGeneration : ℕ := 1
  expiresAt : Option Timestamp
  createdBy : Id
  createdAt : Timestamp
  acceptedBy : Option Id := none

inductive Purpose where
  | emailClaim | manualHandoff
  deriving DecidableEq

/-- A row of `workspace_invitation_tokens`. -/
structure Token where
  invitationId : Id
  workspaceId : Id
  purpose : Purpose
  tokenHash : String
  tokenGeneration : ℕ := 1
  notificationGeneration : ℕ := 1
  expiresAt : Timestamp
  consumedAt : Option Timestamp := none
  revokedAt : Option Timestamp := none

/-- A row of `workspace_invitation_otps`. -/
structure Otp where
  invitationId : Id
  workspaceId : Id
  emailNormalized : String
  manualTokenId : Id
  manualTokenGeneration : ℕ
  notificationGeneration : ℕ
  codeDigest : String
  attempts : ℕ := 0
  maxAttempts : ℕ := 5
  expiresAt : Timestamp
  consumedAt : Option Timestamp := none
  revokedAt : Option Timestamp := none
  createdAt : Timestamp

/-- A row of `workspace_invitation_proofs`. -/
structure Proof where
  otpId : Id
  invitationId : Id
  workspaceId : Id
  emailNormalized : String
  manualTokenId : Id
  manualTokenGeneration : ℕ
  notificationGeneration : ℕ
  proofHash : String
  expiresAt : Timestamp
  consumedAt : Option Timestamp := none
  revokedAt : Option Timestamp := none

/-- A row of `workspace_invitation_contexts`: an invitation that is kept while its invitee signs
in. -/
structure Context where
  handleHash : String
  invitationId : Id
  workspaceId : Id
  tokenId : Id
  tokenGeneration : ℕ
  notificationGeneration : ℕ
  purpose : Purpose
  expiresAt : Timestamp
  consumedAt : Option Timestamp := none
  revokedAt : Option Timestamp := none

inductive Channel where
  | email | sms | otpEmail
  deriving DecidableEq

inductive JobStatus where
  | queued | claimed | providerAccepted | completed | retrying | permanentlyFailed | cancelled
  | unconfigured | derivationKeyUnavailable
  deriving DecidableEq

def JobStatus.unclaimed (s : JobStatus) : Bool := s = .queued ∨ s = .retrying

/-- A row of `workspace_invitation_jobs`. -/
structure Job where
  invitationId : Id
  workspaceId : Id
  channel : Channel
  notificationGeneration : ℕ
  emailTokenGeneration : Option ℕ := none
  idempotencyKey : String
  otpId : Option Id := none
  status : JobStatus := .queued
  attemptCount : ℕ := 0
  maxAttempts : ℕ := 8
  availableAt : Timestamp
  lockedBy : Option String := none
  claimToken : Option Id := none
  claimExpiresAt : Option Timestamp := none
  deriving DecidableEq

/-- A row of `workspace_members`. -/
structure Member where
  role : Role
  suspended : Bool := false

/-- A row of `workspace_member_details`. -/
structure MemberDetails where
  workEmailNormalized : String
  workPhoneE164 : Option String
  invitationId : Option Id

/-- A row of `user_credentials`. -/
structure Credentials where
  passwordHash : Option String
  active : Bool := true

inductive Operation where
  | create | edit | resend | rotate | revoke | archive | loginContext | otpRequest | otpVerify
  | acceptNew | acceptExisting | offboard
  deriving DecidableEq

inductive ResultState where
  | inProgress | committed
  deriving DecidableEq

/-- A row of `workspace_invitation_idempotency`. -/
structure LedgerRow where
  scopeKind : String
  operation : Operation
  workspaceId : Option Id
  invitationId : Option Id
  requestFingerprint : String
  resultState : ResultState := .inProgress

/-- `workspaces` has each one's owner, `profiles` each account's `lower(email)`, `consents` who
consented for an invitation. -/
structure Db where
  nextId : Id := 0
  workspaces : Table Id Id := .empty
  profiles : Table Id String := .empty
  credentials : Table Id Credentials := .empty
  members : Table (Id × Id) Member := .empty
  details : Table (Id × Id) MemberDetails := .empty
  policies : List Id := []
  invitations : Table Id Invitation := .empty
  tokens : Table Id Token := .empty
  otps : Table Id Otp := .empty
  proofs : Table Id Proof := .empty
  contexts : Table Id Context := .empty
  jobs : Table Id Job := .empty
  consents : Table Id Id := .empty
  idempotency : Table String LedgerRow := .empty

inductive Err where
  | workspaceNotFound | forbiddenRoleEscalation | forbidden
  | staffInvitationMustHaveNoDepartment | customerFacingInvitationRequiresDepartment
  | invitationDuplicate | seatLimitReached | entitlementUnavailable
  | invitationNotFound | invitationNotPending | invitationAlreadyAccepted
  | missingJobIdempotencyKeys | revokeReasonRequired | invitationContextTtlTooLong
  | otpPolicyInvalid | otpRateLimited | otpInvalid
  | jobNotFound | jobClaimLost | emailTokenRequired | invalidLeaseSeconds
  | passwordRequired | consentRequired | emailProofRequired | accountExistsLoginRequired
  | accountDisabled | sessionRequired | wrongAccount
  | memberNotFound | cannotRemoveWorkspaceOwner
  | idempotencyKeyRequired | idempotencyFingerprintRequired | idempotencyConflict
  | idempotencyKeyReused
  | notNull (column : String) | check (constraint : String) | unique (constraint : String)
  | foreignKey (constraint : String)

abbrev InvitationTx := Tx Db Err

end Kindred.Invitations
