import Kindred.Database

/-! The generic verification core: challenges, the proofs they issue, and the ledger of the keys
that calls are made under. -/

namespace Kindred.Verification

inductive ChallengeStatus where
  | pendingDelivery | providerAccepted | verified | revoked | expired | locked | deliveryFailed
  deriving DecidableEq

def ChallengeStatus.live (s : ChallengeStatus) : Bool :=
  s == .pendingDelivery || s == .providerAccepted

/-- A row of `verification_challenges`. -/
structure Challenge where
  handle : String
  purpose : String
  channel : String
  workspaceId : Option Id
  subjectKind : String
  subjectRef : Option String
  subjectRefHash : Option String
  destinationNormalized : String
  destinationHash : String
  locale : String
  generation : Int
  status : ChallengeStatus := .pendingDelivery
  keyVersion : Int
  codeDigest : String
  attemptCount : Int := 0
  maxAttempts : Int
  expiresAt : Timestamp
  requestIpHash : Option String
  createdAt : Timestamp
  deriving DecidableEq

/-- A row of `verification_attempts`: a candidate that was compared. -/
structure Attempt where
  challengeId : Id
  attemptNo : Int
  correct : Bool
  ipHash : Option String
  deriving DecidableEq

inductive ProofStatus where
  | active | consumed | revoked | expired
  deriving DecidableEq

/-- A row of `verification_proofs`. -/
structure Proof where
  challengeId : Id
  proofHash : String
  proofKeyVersion : Int
  purpose : String
  channel : String
  workspaceId : Option Id
  subjectKind : String
  subjectRef : Option String
  subjectRefHash : Option String
  destinationNormalized : String
  status : ProofStatus := .active
  expiresAt : Timestamp
  deriving DecidableEq

inductive Outcome where
  | providerAccepted | retryableFailure | permanentFailure | unconfigured | ambiguous
  | derivationKeyUnavailable
  deriving DecidableEq

def Outcome.ofText : String → Option Outcome
  | "provider_accepted" => some .providerAccepted
  | "retryable_failure" => some .retryableFailure
  | "permanent_failure" => some .permanentFailure
  | "unconfigured" => some .unconfigured
  | "ambiguous" => some .ambiguous
  | "derivation_key_unavailable" => some .derivationKeyUnavailable
  | _ => none

/-- A row of `verification_delivery_attempts`. -/
structure DeliveryAttempt where
  challengeId : Id
  idempotencyKey : String
  channel : String
  outcome : Outcome
  providerName : Option String
  providerMessageId : Option String
  errorCode : Option String
  errorMessage : Option String
  deriving DecidableEq

/-- What `_gv_create_challenge_row` answers. -/
structure Created where
  challengeId : Id
  handle : String
  generation : Int
  channel : String
  destinationNormalized : String
  destinationHash : String
  locale : String
  keyVersion : Int
  expiresAt : Timestamp
  resendAvailableAt : Timestamp
  deriving DecidableEq

inductive Refusal where
  | invalidCode | alreadyVerified | closed (status : ChallengeStatus) | invalidTarget
  deriving DecidableEq

/-- What `_gv_do_verify` and `_gv_do_revoke` answer. -/
inductive Verdict where
  | refused (reason : Refusal)
  | verified (challengeId : Id) (proofIssued : Bool)
  | revoked (challengeId : Id)
  deriving DecidableEq

def Verdict.challengeId : Verdict → Option Id
  | .refused _ => none
  | .verified id _ => some id
  | .revoked id => some id

inductive SafeResult where
  | delivery (created : Created) (deliveryOutcome : Option Outcome)
  | verdict (v : Verdict)
  deriving DecidableEq

inductive Operation where
  | request | resend | verify | consume | revoke
  deriving DecidableEq

inductive ResultState where
  | prepared | committed | failed
  deriving DecidableEq

/-- A row of `verification_idempotency`. -/
structure LedgerRow where
  scopeKind : String
  operation : Operation
  requestFingerprint : String
  resultState : ResultState := .prepared
  challengeId : Option Id := none
  safeResult : Option SafeResult := none
  preparedAt : Option Timestamp := none
  attemptToken : Option Id := none
  deriving DecidableEq

/-- `workspaces` is what a `workspace_id` may refer to. -/
structure Db where
  nextId : Id := 0
  workspaces : List Id := []
  challenges : Table Id Challenge := .empty
  attempts : List Attempt := []
  proofs : Table Id Proof := .empty
  deliveryAttempts : List DeliveryAttempt := []
  idempotency : Table String LedgerRow := .empty
  deriving DecidableEq

inductive Err where
  | idempotencyKeyInvalid | idempotencyOperationUnknown | idempotencyKeyReused
  | idempotencyKeyFailedPreviously | idempotencyKeyNotFound
  | verificationPurposeDisabled | verificationAlreadyInFlight | verificationRateLimited
  | verificationScopeMismatch | verificationNotPrepared | deliveryOutcomeUnknown
  | verificationProofKeyVersionInvalid | verificationProofKeyVersionMismatch
  | verificationProofHashMalformed | verificationProofHashVersionMismatch
  | verificationProofTtlInvalid
  | integerOutOfRange | invalidCast (text : String) | notNull (column : String) | check (constraint : String)
  | unique (constraint : String) | foreignKey (constraint : String)

/-- The rejections that `gv_prepare_verification_delivery` raises again. -/
def Err.expected : Err → Bool
  | .verificationAlreadyInFlight | .verificationRateLimited | .idempotencyKeyReused
  | .idempotencyKeyInvalid | .idempotencyOperationUnknown | .idempotencyKeyFailedPreviously
  | .verificationPurposeDisabled | .verificationScopeMismatch => true
  | _ => false

abbrev VerificationTx := Tx Db Err

end Kindred.Verification
