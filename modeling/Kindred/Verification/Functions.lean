import Kindred.Verification.Schema

namespace Kindred.Verification
open Lib.Tx (require)

/-! Columns and comparisons. -/

/-- `make_interval(secs => n)` -/
def seconds (n : Int) : Int := n * 1000000

/-- `a <> b`: NULL where `b` is, which no `IF` takes. -/
def differs {α : Type} [DecidableEq α] (a : α) (b : Option α) : Bool := b.any fun b => a ≠ b

/-- `NULLIF(t, '')` -/
def nullIfEmpty (t : Option String) : Option String := t.filter fun t => t ≠ ""

def notNull {α : Type} (column : String) (v : Option α) : Except Err α :=
  match v with
  | none => .error (.notNull column)
  | some a => .ok a

def checkColumn (constraint : String) (holds : Bool) : Except Err Unit :=
  if holds then .ok () else .error (.check constraint)

/-- A product of `integer`s. -/
def times (a b : Int) : Except Err Int :=
  if -2147483648 ≤ a * b ∧ a * b ≤ 2147483647 then .ok (a * b) else .error .integerOutOfRange

def genRandomUuid : VerificationTx Id := do
  let db ← get
  set { db with nextId := db.nextId + 1 }
  return db.nextId

def updateChallenge (id : Id) (f : Challenge → Challenge) : VerificationTx Unit :=
  modify fun db => { db with challenges := db.challenges.update id f }

def updateLedger (key : String) (f : LedgerRow → LedgerRow) : VerificationTx Unit :=
  modify fun db => { db with idempotency := db.idempotency.update key f }

/-- `gv_is_purpose_enabled`, as it stands since the order lookup uses the core. -/
def gvIsPurposeEnabled (purpose : Option String) : Option Bool :=
  purpose.map fun p => ["commerce_order_lookup"].contains p

/-- The parameters of `_gv_create_challenge_row`. -/
structure NewChallenge where
  handle : Option String
  purpose : Option String
  channel : Option String
  workspaceId : Option Id
  subjectKind : Option String
  subjectRef : Option String
  subjectRefHash : Option String
  destinationNormalized : Option String
  destinationHash : Option String
  locale : Option String
  generation : Int
  keyVersion : Option Int
  codeDigest : Option String
  maxAttempts : Option Int
  maxSends : Option Int
  resendCooldownSeconds : Option Int
  ttlSeconds : Option Int
  rateWindowSeconds : Option Int
  maxPerWindow : Option Int
  requestIpHash : Option String
  globalMaxPerWindow : Option Int
  globalWindowSeconds : Option Int

def Db.recent (db : Db) (now : Timestamp) (window : Option Int) (bucket : Challenge → Bool) :
    List Challenge :=
  (db.challenges.rows.map Prod.snd).filter fun c =>
    bucket c && window.any fun w => now - seconds w < c.createdAt

/-- `IF _recent >= limit THEN RAISE` -/
def rateLimit (recent : List Challenge) (limit : Option Int) : Except Err Unit :=
  if limit.any fun n : Int => n ≤ recent.length then .error .verificationRateLimited else .ok ()

/-- The five buckets. -/
def NewChallenge.rateLimits (r : NewChallenge) (now : Timestamp) (db : Db) : Except Err Unit := do
  let toDestination := fun c : Challenge => some c.destinationHash == r.destinationHash &&
    some c.purpose == r.purpose && some c.channel == r.channel
  if r.globalMaxPerWindow.isSome then
    rateLimit (db.recent now r.globalWindowSeconds fun c =>
      some c.purpose == r.purpose && some c.channel == r.channel) r.globalMaxPerWindow
  let sent := db.recent now r.rateWindowSeconds toDestination
  if sent.any fun c => r.resendCooldownSeconds.any fun s => now - seconds s < c.createdAt then
    throw .verificationRateLimited
  rateLimit sent r.maxPerWindow
  if r.requestIpHash.isSome then
    rateLimit (db.recent now r.rateWindowSeconds fun c => c.requestIpHash == r.requestIpHash)
      (← r.maxPerWindow.mapM (times · 10))
  if r.subjectRefHash.isSome then
    rateLimit (db.recent now r.rateWindowSeconds fun c =>
      c.subjectRefHash == r.subjectRefHash && some c.purpose == r.purpose) r.maxPerWindow
  if r.workspaceId.isSome then
    rateLimit (db.recent now r.rateWindowSeconds fun c =>
      c.workspaceId == r.workspaceId && some c.purpose == r.purpose)
      (← r.maxPerWindow.mapM (times · 5))

/-- The row that is inserted, under the constraints of its columns. -/
def NewChallenge.row (r : NewChallenge) (now : Timestamp) : Except Err (Challenge × Created) := do
  let handle ← notNull "handle" r.handle
  let purpose ← notNull "purpose" r.purpose
  let channel ← notNull "channel" r.channel
  let subjectKind ← notNull "subject_kind" r.subjectKind
  let destinationNormalized ← notNull "destination_normalized" r.destinationNormalized
  let destinationHash ← notNull "destination_hash" r.destinationHash
  let locale ← notNull "locale" r.locale
  let keyVersion ← notNull "key_version" r.keyVersion
  let codeDigest ← notNull "code_digest" r.codeDigest
  let maxAttempts ← notNull "max_attempts" r.maxAttempts
  let _ ← notNull "max_sends" r.maxSends
  let cooldown ← notNull "resend_cooldown_seconds" r.resendCooldownSeconds
  let ttl ← notNull "expires_at" r.ttlSeconds
  checkColumn "channel" (["email", "sms"].contains channel)
  checkColumn "locale" (["fa", "tr", "en"].contains locale)
  checkColumn "subject_kind" (["user", "pending_account", "anonymous"].contains subjectKind)
  let c : Challenge := {
    handle, purpose, channel, workspaceId := r.workspaceId, subjectKind, subjectRef := r.subjectRef,
    subjectRefHash := r.subjectRefHash, destinationNormalized, destinationHash, locale,
    generation := r.generation, keyVersion, codeDigest, maxAttempts,
    expiresAt := now + seconds ttl, requestIpHash := r.requestIpHash, createdAt := now }
  return (c, {
    challengeId := 0, handle, generation := r.generation, channel, destinationNormalized,
    destinationHash, locale, keyVersion, expiresAt := now + seconds ttl,
    resendAvailableAt := now + seconds cooldown })

def Db.findChallenge (db : Db) (handle : Option String) : Option (Id × Challenge) :=
  db.challenges.rows.find? fun r => some r.2.handle = handle

/-- `_gv_create_challenge_row` -/
def gvCreateChallengeRow (now : Timestamp) (r : NewChallenge) : VerificationTx Created := do
  let db ← get
  liftM (r.rateLimits now db)
  let (c, created) ← liftM (r.row now)
  require (db.findChallenge (some c.handle) = none) (.unique "verification_challenges_handle_key")
  require (c.workspaceId.all fun ws => db.workspaces.contains ws)
    (.foreignKey "verification_challenges_workspace_id_fkey")
  set { db with nextId := db.nextId + 1, challenges := db.challenges.put db.nextId c }
  return { created with challengeId := db.nextId }

/-- `_args` of a request or a resend. -/
structure DeliveryArgs where
  existingHandle : Option String := none
  handle : Option String
  purpose : Option String
  channel : Option String
  workspaceId : Option Id := none
  subjectKind : Option String := none
  subjectRef : Option String := none
  subjectRefHash : Option String := none
  destinationNormalized : Option String := none
  destinationHash : Option String := none
  locale : Option String := none
  keyVersion : Option Int
  codeDigest : Option String
  ttlSeconds : Option Int
  maxAttempts : Option Int
  maxSends : Option Int
  resendCooldownSeconds : Option Int
  rateWindowSeconds : Option Int
  maxPerWindow : Option Int
  invalidatePrevious : Option Bool := none
  requestIpHash : Option String := none
  globalMaxPerWindow : Option Int := none
  globalWindowSeconds : Option Int := none

def DeliveryArgs.supersedes (a : DeliveryArgs) (c : Challenge) : Bool :=
  some c.destinationHash == a.destinationHash && some c.purpose == a.purpose &&
    some c.channel == a.channel && c.workspaceId == a.workspaceId &&
    c.subjectRefHash == nullIfEmpty a.subjectRefHash && c.status.live

def Db.supersede (a : DeliveryArgs) (db : Db) : Db :=
  if a.invalidatePrevious.getD true then
    { db with challenges := db.challenges.mapValues fun c =>
        if a.supersedes c then { c with status := .revoked } else c }
  else db

/-- `_gv_do_request` -/
def gvDoRequest (now : Timestamp) (a : DeliveryArgs) : VerificationTx Created := do
  modify (Db.supersede a)
  gvCreateChallengeRow now {
    handle := a.handle, purpose := a.purpose, channel := a.channel, workspaceId := a.workspaceId,
    subjectKind := a.subjectKind, subjectRef := nullIfEmpty a.subjectRef,
    subjectRefHash := nullIfEmpty a.subjectRefHash,
    destinationNormalized := a.destinationNormalized, destinationHash := a.destinationHash,
    locale := a.locale, generation := 1, keyVersion := a.keyVersion, codeDigest := a.codeDigest,
    maxAttempts := a.maxAttempts, maxSends := a.maxSends,
    resendCooldownSeconds := a.resendCooldownSeconds, ttlSeconds := a.ttlSeconds,
    rateWindowSeconds := a.rateWindowSeconds, maxPerWindow := a.maxPerWindow,
    requestIpHash := nullIfEmpty a.requestIpHash, globalMaxPerWindow := a.globalMaxPerWindow,
    globalWindowSeconds := a.globalWindowSeconds }

structure Claimed where
  purpose : Option String
  channel : Option String
  workspaceId : Option Id
  subjectRefHash : Option String

def Claimed.mismatch (s : Claimed) (purpose channel : String) (workspaceId : Option Id)
    (subjectRefHash : Option String) : Bool :=
  differs purpose s.purpose || differs channel s.channel || workspaceId != s.workspaceId ||
    subjectRefHash != s.subjectRefHash

def Challenge.outOfScope (c : Challenge) (s : Claimed) : Bool :=
  s.mismatch c.purpose c.channel c.workspaceId c.subjectRefHash

def ChallengeStatus.resendable (s : ChallengeStatus) : Bool :=
  s.live || s == .deliveryFailed || s == .expired || s == .locked

/-- `_gv_do_resend` -/
def gvDoResend (now : Timestamp) (a : DeliveryArgs) : VerificationTx Created := do
  let db ← get
  let scope : Claimed := ⟨a.purpose, a.channel, a.workspaceId, nullIfEmpty a.subjectRefHash⟩
  match db.findChallenge a.existingHandle with
  | none => throw .verificationScopeMismatch
  | some (id, c) =>
    require (c.outOfScope scope = false) .verificationScopeMismatch
    require c.status.resendable .verificationScopeMismatch
    updateChallenge id fun c => { c with status := .revoked }
    gvCreateChallengeRow now {
      handle := a.handle, purpose := c.purpose, channel := c.channel, workspaceId := c.workspaceId,
      subjectKind := c.subjectKind, subjectRef := c.subjectRef, subjectRefHash := c.subjectRefHash,
      destinationNormalized := c.destinationNormalized, destinationHash := c.destinationHash,
      locale := c.locale, generation := c.generation + 1, keyVersion := a.keyVersion,
      codeDigest := a.codeDigest, maxAttempts := a.maxAttempts, maxSends := a.maxSends,
      resendCooldownSeconds := a.resendCooldownSeconds, ttlSeconds := a.ttlSeconds,
      rateWindowSeconds := a.rateWindowSeconds, maxPerWindow := a.maxPerWindow,
      requestIpHash := nullIfEmpty a.requestIpHash, globalMaxPerWindow := a.globalMaxPerWindow,
      globalWindowSeconds := a.globalWindowSeconds }

structure Keyed where
  key : Option String
  scopeKind : Option String
  operation : Option Operation
  requestFingerprint : Option String
  purpose : Option String

/-- How both wrappers begin: the checks, the tentative row, the lock on it, and the comparison
with the call that made it. -/
def claimKey (operations : List Operation) (k : Keyed) : VerificationTx (String × LedgerRow) := do
  require (k.key.any fun key => 16 ≤ key.length) .idempotencyKeyInvalid
  require (k.operation.all fun op => operations.contains op) .idempotencyOperationUnknown
  require (gvIsPurposeEnabled k.purpose ≠ some false) .verificationPurposeDisabled
  let key ← liftM (notNull "key" k.key)
  let scopeKind ← liftM (notNull "scope_kind" k.scopeKind)
  let operation ← liftM (notNull "operation" k.operation)
  let requestFingerprint ← liftM (notNull "request_fingerprint" k.requestFingerprint)
  let db ← get
  match db.idempotency.get key with
  | none =>
    let row : LedgerRow := { scopeKind, operation, requestFingerprint }
    set { db with idempotency := db.idempotency.put key row }
    return (key, row)
  | some row =>
    require (row.operation = operation ∧ row.scopeKind = scopeKind ∧
      row.requestFingerprint = requestFingerprint) .idempotencyKeyReused
    return (key, row)

inductive PrepareAnswer where
  | fresh (result : Created) (attemptToken : Id)
  | resume (result : Option SafeResult) (attemptToken : Id)
  | replayed (result : Option SafeResult)
  | error (e : Err)

/-- The dispatch of `gv_prepare_verification_delivery`. A field of `_args` that cannot be cast
raises in the function that reads it. -/
def dispatchDelivery (now : Timestamp) (operation : Operation) (args : Except Err DeliveryArgs) :
    VerificationTx Created := do
  let a ← liftM args
  if operation = .request then gvDoRequest now a else gvDoResend now a

def tryDelivery (now : Timestamp) (key : String) (operation : Operation)
    (args : Except Err DeliveryArgs) : VerificationTx (Except Err Created) :=
  tryCatch (do return .ok (← dispatchDelivery now operation args)) fun e =>
    if e.expected then throw e
    else do
      updateLedger key fun row => { row with resultState := .failed }
      return .error e

/-- `gv_prepare_verification_delivery` -/
def gvPrepareVerificationDelivery (now : Timestamp) (k : Keyed) (args : Except Err DeliveryArgs) :
    VerificationTx PrepareAnswer := do
  let (key, row) ← claimKey [.request, .resend] k
  match row.resultState with
  | .committed => return .replayed row.safeResult
  | .failed => throw .idempotencyKeyFailedPreviously
  | .prepared =>
    match row.preparedAt with
    | some preparedAt =>
      require (preparedAt ≤ now - seconds 30) .verificationAlreadyInFlight
      let token ← genRandomUuid
      updateLedger key fun row => { row with attemptToken := some token, preparedAt := some now }
      return .resume row.safeResult token
    | none =>
      match ← tryDelivery now key row.operation args with
      | .error e => return .error e
      | .ok result =>
        let token ← genRandomUuid
        updateLedger key fun row =>
          { row with
            preparedAt := some now
            safeResult := some (.delivery result none)
            attemptToken := some token
            challengeId := some result.challengeId }
        return .fresh result token

structure Sent where
  outcome : Option String
  providerName : Option String := none
  providerMessageId : Option String := none
  errorCode : Option String := none
  errorMessage : Option String := none

inductive FinalizeAnswer where
  | alreadyFinalized (result : Option SafeResult)
  | stale (result : Option SafeResult)
  | applied (result : Option SafeResult)

/-- `safe_result || jsonb_build_object('deliveryOutcome', …)` -/
def SafeResult.withOutcome (outcome : Outcome) : SafeResult → SafeResult
  | .delivery created _ => .delivery created (some outcome)
  | .verdict v => .verdict v

def SafeResult.channel : SafeResult → Option String
  | .delivery created _ => some created.channel
  | .verdict _ => none

def Challenge.delivered (outcome : Outcome) (c : Challenge) : Challenge :=
  match outcome with
  | .providerAccepted =>
    if c.status = .pendingDelivery then { c with status := .providerAccepted } else c
  | .permanentFailure | .unconfigured | .derivationKeyUnavailable =>
    if c.status.live then { c with status := .deliveryFailed } else c
  | .retryableFailure | .ambiguous => c

/-- `gv_finalize_verification_delivery` -/
def gvFinalizeVerificationDelivery (key : Option String) (attemptToken : Option Id) (s : Sent) :
    VerificationTx FinalizeAnswer := do
  require (s.outcome.all fun o => (Outcome.ofText o).isSome) .deliveryOutcomeUnknown
  let db ← get
  match key.bind fun key => (db.idempotency.get key).map fun row => (key, row) with
  | none => throw .idempotencyKeyNotFound
  | some (key, row) =>
    match row.resultState with
    | .committed => return .alreadyFinalized row.safeResult
    | .failed => throw .verificationNotPrepared
    | .prepared =>
      if row.attemptToken ≠ attemptToken then return .stale row.safeResult
      else do
        -- a NULL outcome, and a challenge or a channel that is not there, fail at the insert
        let challengeId ← liftM (notNull "challenge_id" row.challengeId)
        let channel ← liftM (notNull "channel" (row.safeResult.bind SafeResult.channel))
        let outcome ← liftM (notNull "outcome" (s.outcome.bind Outcome.ofText))
        updateChallenge challengeId (Challenge.delivered outcome)
        require ((db.challenges.get challengeId).isSome)
          (.foreignKey "verification_delivery_attempts_challenge_id_fkey")
        modify fun db => { db with deliveryAttempts := db.deliveryAttempts ++ [{
          challengeId, idempotencyKey := key, channel, outcome, providerName := s.providerName,
          providerMessageId := s.providerMessageId, errorCode := s.errorCode,
          errorMessage := s.errorMessage.map fun t => String.ofList (t.toList.take 300) }] }
        let final := row.safeResult.map (SafeResult.withOutcome outcome)
        updateLedger key fun row => { row with resultState := .committed, safeResult := final }
        return .applied final

/-- `_args` of a verify or a revoke. -/
structure CodeArgs where
  handle : Option String
  candidateDigest : Option String := none
  purpose : Option String
  channel : Option String
  workspaceId : Option Id := none
  subjectRefHash : Option String := none
  ipHash : Option String := none
  issuesProof : Option Bool := none
  proofHash : Option String := none
  proofKeyVersion : Option Int := none
  proofTtlSeconds : Option Int := none

def CodeArgs.scope (a : CodeArgs) : Claimed :=
  ⟨a.purpose, a.channel, a.workspaceId, nullIfEmpty a.subjectRefHash⟩

def isLowerHex (c : Char) : Bool := ('0' ≤ c && c ≤ '9') || ('a' ≤ c && c ≤ 'f')

/-- `proof_hash ~ '^v[0-9]+:[0-9a-f]{64}$'` -/
def wellFormedProofHash (hash : String) : Bool :=
  match hash.toList with
  | 'v' :: rest =>
    match rest.span fun c => '0' ≤ c && c ≤ '9' with
    | (version, ':' :: hex) => !version.isEmpty && hex.length == 64 && hex.all isLowerHex
    | _ => false
  | _ => false

/-- `split_part(proof_hash, ':', 1)` -/
def proofHashVersion (hash : String) : String :=
  String.ofList (hash.toList.takeWhile fun c => c ≠ ':')

def Challenge.proof (c : Challenge) (id : Id) (now : Timestamp) (a : CodeArgs) :
    Except Err Proof := do
  match a.proofKeyVersion with
  | none => throw .verificationProofKeyVersionInvalid
  | some version =>
    if version ≤ 0 ∨ 1000000 < version then throw .verificationProofKeyVersionInvalid
    else if version ≠ c.keyVersion then throw .verificationProofKeyVersionMismatch
    else match a.proofHash with
      | none => throw .verificationProofHashMalformed
      | some hash =>
        if !wellFormedProofHash hash then throw .verificationProofHashMalformed
        else if proofHashVersion hash ≠ "v" ++ toString version then
          throw .verificationProofHashVersionMismatch
        else match a.proofTtlSeconds with
          | none => throw .verificationProofTtlInvalid
          | some ttl =>
            if ttl ≤ 0 ∨ 1800 < ttl then throw .verificationProofTtlInvalid
            else return {
              challengeId := id, proofHash := hash, proofKeyVersion := version,
              purpose := c.purpose, channel := c.channel, workspaceId := c.workspaceId,
              subjectKind := c.subjectKind, subjectRef := c.subjectRef,
              subjectRefHash := c.subjectRefHash,
              destinationNormalized := c.destinationNormalized, expiresAt := now + seconds ttl }

def insertProof (p : Proof) : VerificationTx Unit := do
  let db ← get
  require (db.proofs.rows.all fun r => r.2.challengeId ≠ p.challengeId)
    (.unique "verification_proofs_challenge_id_key")
  require (db.proofs.rows.all fun r => r.2.proofHash ≠ p.proofHash)
    (.unique "verification_proofs_proof_hash_key")
  set { db with nextId := db.nextId + 1, proofs := db.proofs.put db.nextId p }

def insertAttempt (id : Id) (attemptNo : Int) (correct : Bool) (ipHash : Option String) :
    VerificationTx Unit :=
  modify fun db => { db with attempts := db.attempts ++ [⟨id, attemptNo, correct, ipHash⟩] }

/-- The rest of `_gv_do_verify`, where a candidate may be compared. -/
def compareCandidate (now : Timestamp) (a : CodeArgs) (id : Id) (c : Challenge) :
    VerificationTx Verdict := do
  let next := c.attemptCount + 1
  if differs c.codeDigest a.candidateDigest then do
    insertAttempt id next false (nullIfEmpty a.ipHash)
    if c.maxAttempts ≤ next then do
      updateChallenge id fun c => { c with attemptCount := next, status := .locked }
      return .refused (.closed .locked)
    else do
      updateChallenge id fun c => { c with attemptCount := next }
      return .refused .invalidCode
  else do
    insertAttempt id next true (nullIfEmpty a.ipHash)
    updateChallenge id fun c => { c with status := .verified, attemptCount := next }
    if a.issuesProof.getD true then do
      insertProof (← liftM (c.proof id now a))
      return .verified id true
    else return .verified id false

/-- `_gv_do_verify` -/
def gvDoVerify (now : Timestamp) (a : CodeArgs) : VerificationTx Verdict := do
  let db ← get
  match db.findChallenge a.handle with
  | none => return .refused .invalidCode
  | some (id, c) =>
    if c.outOfScope a.scope then return .refused .invalidCode
    else if c.status = .verified then return .refused .alreadyVerified
    else if !c.status.live then return .refused (.closed c.status)
    else if c.expiresAt ≤ now then do
      updateChallenge id fun c => { c with status := .expired }
      return .refused (.closed .expired)
    else if c.maxAttempts ≤ c.attemptCount then do
      updateChallenge id fun c => { c with status := .locked }
      return .refused (.closed .locked)
    else compareCandidate now a id c

/-- `_gv_do_revoke` -/
def gvDoRevoke (a : CodeArgs) : VerificationTx Verdict := do
  let db ← get
  match db.findChallenge a.handle with
  | none => return .refused .invalidTarget
  | some (id, c) =>
    if c.outOfScope a.scope then return .refused .invalidTarget
    else if !(c.status.live || c.status == .verified) then return .refused .invalidTarget
    else do
      updateChallenge id fun c => { c with status := .revoked }
      modify fun db => { db with proofs := db.proofs.mapValues fun p =>
        if p.challengeId = id ∧ p.status = .active then { p with status := .revoked } else p }
      return .revoked id

inductive ExecuteAnswer where
  | replayed (result : Option SafeResult)
  | executed (result : Verdict)

/-- The dispatch of `gv_execute_idempotent`. -/
def dispatchCode (now : Timestamp) (operation : Operation) (args : Except Err CodeArgs) :
    VerificationTx Verdict := do
  let a ← liftM args
  if operation = .verify then gvDoVerify now a else gvDoRevoke a

/-- `gv_execute_idempotent`: its handler raises again whatever it catches. -/
def gvExecuteIdempotent (now : Timestamp) (k : Keyed) (args : Except Err CodeArgs) :
    VerificationTx ExecuteAnswer := do
  let (key, row) ← claimKey [.verify, .revoke] k
  match row.resultState with
  | .committed => return .replayed row.safeResult
  | .failed => throw .idempotencyKeyFailedPreviously
  | .prepared => do
    let result ← dispatchCode now row.operation args
    updateLedger key fun row =>
      { row with
        resultState := .committed
        safeResult := some (.verdict result)
        challengeId := result.challengeId }
    return .executed result

inductive ProofRefusal where
  | notFound | scopeMismatch | alreadyConsumed | closed (status : ProofStatus)

inductive ConsumeAnswer where
  | refused (reason : ProofRefusal)
  | consumed (challengeId : Id) (subjectKind : String) (subjectRef subjectRefHash : Option String)
      (destinationNormalized : String)

def updateProof (id : Id) (f : Proof → Proof) : VerificationTx Unit :=
  modify fun db => { db with proofs := db.proofs.update id f }

/-- `gv_consume_verification_proof` -/
def gvConsumeVerificationProof (now : Timestamp) (proofHash : Option String) (s : Claimed) :
    VerificationTx ConsumeAnswer := do
  require (gvIsPurposeEnabled s.purpose ≠ some false) .verificationPurposeDisabled
  let db ← get
  match db.proofs.rows.find? fun r => some r.2.proofHash = proofHash with
  | none => return .refused .notFound
  | some (id, p) =>
    if s.mismatch p.purpose p.channel p.workspaceId p.subjectRefHash then
      return .refused .scopeMismatch
    else if p.status = .consumed then return .refused .alreadyConsumed
    else if p.status ≠ .active then return .refused (.closed p.status)
    else if p.expiresAt ≤ now then do
      updateProof id fun p => { p with status := .expired }
      return .refused (.closed .expired)
    else do
      updateProof id fun p => { p with status := .consumed }
      return .consumed p.challengeId p.subjectKind p.subjectRef p.subjectRefHash
        p.destinationNormalized

/-- A call of one of the public functions; `now` is when its transaction began. -/
inductive Call where
  | prepare (now : Timestamp) (k : Keyed) (args : Except Err DeliveryArgs)
  | finalize (key : Option String) (attemptToken : Option Id) (s : Sent)
  | execute (now : Timestamp) (k : Keyed) (args : Except Err CodeArgs)
  | consume (now : Timestamp) (proofHash : Option String) (s : Claimed)

inductive Answer where
  | prepared (a : PrepareAnswer)
  | finalized (a : FinalizeAnswer)
  | executed (a : ExecuteAnswer)
  | consumed (a : ConsumeAnswer)

def Call.run : Call → VerificationTx Answer
  | .prepare now k args => do return .prepared (← gvPrepareVerificationDelivery now k args)
  | .finalize key token s => do return .finalized (← gvFinalizeVerificationDelivery key token s)
  | .execute now k args => do return .executed (← gvExecuteIdempotent now k args)
  | .consume now hash s => do return .consumed (← gvConsumeVerificationProof now hash s)

def Db.step (db : Db) (c : Call) : Db := Lib.Tx.commit c.run db

def Db.answer (db : Db) (c : Call) : Except Err Answer := (c.run db).map Prod.fst

end Kindred.Verification
