import Kindred.Invitations.Functions

/-! Guesses at the codes of the manual link, each a transaction of its own. -/

namespace Kindred.Invitations
open Lib (Table run tally)
open Lib.Tx (Succeeds bind_ok pure_ok throw_ok get_bind set_bind modify_bind set_ok ite_ok require_bind_ok)

variable {purpose : Purpose} {v : Validated} {otpId : Id} {otp : Otp} {p : Proof} {now : Timestamp}

section Inversions
variable {now : Timestamp} {s s' : Db} {tokenHash : String}

theorem genRandomUuid_ok {r : Id × Db} (h : genRandomUuid s = .ok r) :
    r = (s.nextId, { s with nextId := s.nextId + 1 }) := by
  cases h
  rfl

theorem mem_of_findToken {r : Id × Token} (h : s.findToken tokenHash purpose = some r) :
    s.tokens.get r.1 = some r.2 ∧ r.2.tokenHash = tokenHash ∧ r.2.purpose = purpose := by
  have hp := List.find?_some h
  simp only [decide_eq_true_eq] at hp
  exact ⟨Table.get_eq_some_iff_mem.mpr (List.mem_of_find?_eq_some h), hp⟩

/-- What `wi_lock_and_validate_token` has found out about a token and its invitation. -/
structure Valid (now : Timestamp) (tokenHash : String) (purpose : Purpose) (v : Validated)
    (s : Db) : Prop where
  found : s.findToken tokenHash purpose = some (v.tokenId, v.tok)
  inv : s.invitations.get v.invitationId = some v.inv
  tok : s.tokens.get v.tokenId = some v.tok
  hash : v.tok.tokenHash = tokenHash
  purpose : v.tok.purpose = purpose
  flow : v.inv.flowVersion = 2
  pending : v.inv.status = .pending
  invitation : v.tok.invitationId = v.invitationId
  workspace : v.tok.workspaceId = v.inv.workspaceId
  unspent : v.tok.unspent
  unexpired : now < v.tok.expiresAt
  generation : v.tok.notificationGeneration = v.inv.notificationGeneration

theorem wiLockAndValidateToken_ok {r : Validated × Db}
    (h : wiLockAndValidateToken now tokenHash purpose s = .ok r) :
    (∃ w, r.2 = s.expireDue now w) ∧ Valid now tokenHash purpose r.1 r.2 := by
  unfold wiLockAndValidateToken at h
  rw [get_bind] at h
  cases hfind : s.findToken tokenHash purpose with
  | none =>
    rw [hfind] at h
    exact (throw_ok.mp h).elim
  | some t =>
    rw [hfind] at h
    dsimp only at h
    rw [modify_bind, get_bind] at h
    cases hinv : (s.expireDue now t.2.workspaceId).invitations.get t.2.invitationId with
    | none =>
      rw [hinv] at h
      exact (throw_ok.mp h).elim
    | some inv =>
      cases htok : (s.expireDue now t.2.workspaceId).findToken tokenHash purpose with
      | none =>
        rw [hinv, htok] at h
        exact (throw_ok.mp h).elim
      | some tok =>
        rw [hinv, htok] at h
        obtain ⟨⟨hflow, hpending⟩, h⟩ := require_bind_ok.mp h
        obtain ⟨⟨hid, hworkspace, hunspent, hexpires, hgeneration⟩, h⟩ := require_bind_ok.mp h
        cases pure_ok.mp h
        obtain ⟨hmem, hhash, hpurpose⟩ := mem_of_findToken htok
        exact ⟨⟨_, rfl⟩, htok, hinv, hmem, hhash, hpurpose, hflow, hpending, hid, hworkspace, hunspent,
          hexpires, hgeneration⟩

theorem latest_mem {rs : List (Id × Otp)} {r : Id × Otp} (h : latest rs = some r) : r ∈ rs := by
  induction rs generalizing r with
  | nil => cases h
  | cons a rs ih =>
    simp only [latest] at h
    split at h
    · cases h
      exact List.mem_cons_self
    · rename_i r' hr'
      split at h
      · cases h
        exact List.mem_cons_self
      · cases h
        exact List.mem_cons_of_mem a (ih hr')

theorem codeToCompare_ok (h : codeToCompare now tokenHash s = .ok ((v, otpId, otp), s')) :
    (∃ w, s' = s.expireDue now w) ∧ Valid now tokenHash .manualHandoff v s' ∧
      s'.otps.get otpId = some otp ∧ otp.unspent ∧ otp.invitationId = v.invitationId ∧
      otp.manualTokenId = v.tokenId ∧
      otp.notificationGeneration = v.inv.notificationGeneration := by
  obtain ⟨v', t, hlock, h⟩ := bind_ok.mp h
  obtain ⟨hexpired, hvalid⟩ := wiLockAndValidateToken_ok hlock
  rw [get_bind] at h
  cases hpending : t.pendingOtp v'.invitationId with
  | none =>
    rw [hpending] at h
    exact (throw_ok.mp h).elim
  | some r =>
    rw [hpending] at h
    obtain ⟨⟨htoken, hgeneration, -⟩, h⟩ := require_bind_ok.mp h
    obtain ⟨-, h⟩ | ⟨-, h⟩ := ite_ok.mp h
    · rw [set_bind] at h
      exact (throw_ok.mp h).elim
    · cases pure_ok.mp h
      have hmem := latest_mem hpending
      rw [List.mem_filter, Bool.and_eq_true, decide_eq_true_eq] at hmem
      obtain ⟨hmem, hinvitation, hunspent⟩ := hmem
      exact ⟨hexpired, hvalid, Table.get_eq_some_iff_mem.mpr hmem, hunspent, hinvitation, htoken,
        hgeneration⟩

theorem acquireKey_ok {c : Call} {operation : Operation} {r : Bool × Db}
    (h : acquireKey c operation s = .ok r) : ∃ ledger, r.2 = { s with idempotency := ledger } := by
  obtain ⟨-, h⟩ := require_bind_ok.mp h
  obtain ⟨-, h⟩ := require_bind_ok.mp h
  rw [modify_bind, get_bind] at h
  generalize hdb : (if (s.idempotency.get c.key).isSome then s else _) = db at h
  have hledger : ∃ ledger, db = { s with idempotency := ledger } := by
    rw [← hdb]
    split
    · exact ⟨s.idempotency, rfl⟩
    · exact ⟨_, rfl⟩
  cases hrow : db.idempotency.get c.key with
  | none =>
    rw [hrow] at h
    exact (throw_ok.mp h).elim
  | some row =>
    rw [hrow] at h
    obtain ⟨-, h⟩ := require_bind_ok.mp h
    cases pure_ok.mp h
    exact hledger

end Inversions

inductive CodeEvent where
  | request (now : Timestamp) (c : Call) (r : OtpRequest)
  | verify (now : Timestamp) (c : Call) (a : OtpVerify)

/-- A call that raises is rolled back as a whole. -/
def Db.call (s : Db) : CodeEvent → Db
  | .request now c r =>
    Lib.Tx.commit (wiExecuteIdempotent c .otpRequest (wiRequestInvitationOtpV2 now r)) s
  | .verify now c a =>
    Lib.Tx.commit (wiExecuteIdempotent c .otpVerify (wiVerifyInvitationOtp now a)) s

def Db.comparedBy (s : Db) : CodeEvent → Option (Id × Otp)
  | .request .. => none
  | .verify now c a =>
    match acquireKey c .otpVerify s with
    | .ok (false, t) =>
      match codeToCompare now a.tokenHash t with
      | .ok ((_, otpId, otp), _) => some (otpId, otp)
      | .error _ => none
    | .ok (true, _) | .error _ => none

def Db.compares (s : Db) (otpId : Id) (e : CodeEvent) : Bool :=
  (s.comparedBy e).any fun o => o.1 = otpId

def Db.misses (s : Db) (otpId : Id) (e : CodeEvent) : Bool :=
  (s.comparedBy e).any fun o =>
    o.1 = otpId &&
      match e with
      | .request .. => false
      | .verify _ _ a =>
        o.2.refuses a.codeDigest || s.proofs.rows.any fun p => p.2.proofHash = a.proofHash

def Db.comparisons (s : Db) (otpId : Id) (es : List CodeEvent) : ℕ :=
  tally Db.call (fun s e => (s.compares otpId e).toNat) s es

def Db.missed (s : Db) (otpId : Id) (es : List CodeEvent) : ℕ :=
  tally Db.call (fun s e => (s.misses otpId e).toNat) s es

def Db.liveProofs (s : Db) (otpId : Id) : ℕ :=
  s.proofs.rows.countP fun p => p.2.otpId = otpId && p.2.unspent

/-- Each code that is there after the run was compared with `max_attempts` digests at most, and at
most one live proof came out of it. -/
def Db.Guarded (s : Db) (es : List CodeEvent) : Prop :=
  ∀ otpId otp, (run Db.call s es).otps.get otpId = some otp →
    s.comparisons otpId es ≤ otp.maxAttempts ∧ (run Db.call s es).liveProofs otpId ≤ 1

section Calls
variable {s : Db} {r : Unit × Db} {c : Call} {a : OtpVerify} {operation : Operation}
  {perform : InvitationTx Result}

theorem insertProof_ok (h : insertProof p s = .ok r) :
    r.2 = { s with nextId := s.nextId + 1, proofs := s.proofs.put s.nextId p } := by
  obtain ⟨_, _, hid, h⟩ := bind_ok.mp h
  cases genRandomUuid_ok hid
  rw [get_bind] at h
  obtain ⟨-, h⟩ := require_bind_ok.mp h
  obtain ⟨-, h⟩ := require_bind_ok.mp h
  cases set_ok.mp h
  rfl

theorem insertProof_of_unused (hid : s.proofs.get s.nextId = none)
    (hhash : ∀ r ∈ s.proofs.rows, r.2.proofHash ≠ p.proofHash) : insertProof p s =
      .ok ((), { s with nextId := s.nextId + 1, proofs := s.proofs.put s.nextId p }) := by
  refine bind_ok.mpr ⟨_, _, rfl, ?_⟩
  rw [get_bind]
  refine require_bind_ok.mpr ⟨by simp [hid], require_bind_ok.mpr ⟨?_, rfl⟩⟩
  simpa using hhash

inductive Verified (s : Db) : CodeEvent → Db → Prop where
  | raised (now : Timestamp) (c : Call) (a : OtpVerify) (h : ∀ otpId, s.compares otpId
      (.verify now c a) → s.misses otpId (.verify now c a)) : Verified s (.verify now c a) s
  | replayed (now : Timestamp) (c : Call) (a : OtpVerify) (h : s.comparedBy (.verify now c a) = none)
      (ledger : Table String LedgerRow) :
      Verified s (.verify now c a) { s with idempotency := ledger }
  | proven {s' : Db} (now : Timestamp) (c : Call) (a : OtpVerify) (otpId : Id) (otp : Otp)
      (h : s.comparedBy (.verify now c a) = some (otpId, otp)) (f : Proof → Proof)
      (hf : ∀ p, (f p).otpId = p.otpId) (p : Proof) (hp : p.otpId = otpId)
      (hotps : s'.otps = s.otps.update otpId fun o =>
        { o with consumedAt := some now, attempts := o.attempts + 1 })
      (hproofs : s'.proofs = (s.proofs.mapValues f).put s.nextId p)
      (hnext : s'.nextId = s.nextId + 1) : Verified s (.verify now c a) s'

theorem comparedBy_spec (h : s.comparedBy (.verify now c a) = some (otpId, otp)) :
    s.otps.get otpId = some otp ∧ otp.unspent := by
  simp only [Db.comparedBy] at h
  split at h
  · rename_i t hkey
    obtain ⟨ledger, hledger⟩ := acquireKey_ok hkey
    subst hledger
    split at h
    · rename_i v otpId' otp' t' hcompare
      cases h
      obtain ⟨⟨w, hw⟩, -, hget, hunspent, -⟩ := codeToCompare_ok hcompare
      subst hw
      exact ⟨hget, hunspent⟩
    · cases h
  · cases h
  · cases h

theorem revokedProof_otpId (now : Timestamp) (invitationId : Id) (p : Proof) :
    (revokedProof now invitationId p).otpId = p.otpId := by
  unfold revokedProof
  split <;> rfl

theorem revokedProof_proofHash (now : Timestamp) (invitationId : Id) (p : Proof) :
    (revokedProof now invitationId p).proofHash = p.proofHash := by
  unfold revokedProof
  split <;> rfl

theorem wiVerifyInvitationOtp_of_compared {s' : Db}
    (hcompare : codeToCompare now a.tokenHash s = .ok ((v, otpId, otp), s'))
    (hright : otp.refuses a.codeDigest = false) (hid : s'.proofs.get s'.nextId = none)
    (hunused : ∀ r ∈ s'.proofs.rows, r.2.proofHash ≠ a.proofHash) :
    Succeeds (wiVerifyInvitationOtp now a) s := by
  refine Succeeds.bind ⟨_, hcompare⟩ fun r hr => ?_
  rw [hcompare] at hr
  cases hr
  refine Succeeds.get_bind (Succeeds.ite (fun h => absurd h (by simp [hright])) fun _ => ?_)
  refine Succeeds.set_bind (Succeeds.bind ⟨_, insertProof_of_unused ?_ ?_⟩ fun _ _ => .pure _ _)
  · simp [hid]
  · intro r hr
    obtain ⟨r', hr', rfl⟩ := List.mem_map.mp hr
    exact (revokedProof_proofHash now v.invitationId r'.2).symm ▸ hunused r' hr'

theorem wiVerifyInvitationOtp_ok {r : Result × Db} (h : wiVerifyInvitationOtp now a s = .ok r) :
    ∃ v otpId otp s', codeToCompare now a.tokenHash s = .ok ((v, otpId, otp), s') ∧
      r.2.otps = s'.otps.update otpId (fun o =>
        { o with consumedAt := some now, attempts := o.attempts + 1 }) ∧
      (∃ p : Proof, p.otpId = otpId ∧
        r.2.proofs = (s'.proofs.mapValues (revokedProof now v.invitationId)).put s'.nextId p) ∧
      r.2.nextId = s'.nextId + 1 := by
  obtain ⟨⟨v, otpId, otp⟩, s', hcompare, h⟩ := bind_ok.mp h
  dsimp only at h
  rw [get_bind] at h
  obtain ⟨-, h⟩ | ⟨-, h⟩ := ite_ok.mp h
  · rw [set_bind] at h
    exact (throw_ok.mp h).elim
  · rw [set_bind] at h
    obtain ⟨_, _, hinsert, h⟩ := bind_ok.mp h
    cases insertProof_ok hinsert
    cases pure_ok.mp h
    exact ⟨v, otpId, otp, s', hcompare, rfl, ⟨_, rfl, rfl⟩, rfl⟩

theorem wiExecuteIdempotent_ok {r : Reply × Db}
    (h : wiExecuteIdempotent c operation perform s = .ok r) :
    (∃ t, acquireKey c operation s = .ok (true, t) ∧ r.2 = t) ∨
      ∃ t result t', acquireKey c operation s = .ok (false, t) ∧ perform t = .ok (result, t') ∧
        ∃ ledger, r.2 = { t' with idempotency := ledger } := by
  obtain ⟨replayed, t, hkey, h⟩ := bind_ok.mp h
  cases replayed with
  | true =>
    cases pure_ok.mp h
    exact .inl ⟨t, hkey, rfl⟩
  | false =>
    obtain ⟨result, t', hperform, h⟩ := bind_ok.mp h
    rw [modify_bind] at h
    cases pure_ok.mp h
    exact .inr ⟨t, result, t', hkey, hperform, _, rfl⟩

theorem wiExecuteIdempotent_of_performed {t : Db} (hkey : acquireKey c operation s = .ok (false, t))
    (hperform : Succeeds perform t) : Succeeds (wiExecuteIdempotent c operation perform) s := by
  refine Succeeds.bind ⟨_, hkey⟩ fun r hr => ?_
  rw [hkey] at hr
  cases hr
  exact hperform.bind fun _ _ => .modify_bind (.pure _ _)

theorem verify_step (hid : s.proofs.get s.nextId = none) (now : Timestamp) (c : Call)
    (a : OtpVerify) : Verified s (.verify now c a) (s.call (.verify now c a)) := by
  simp only [Db.call, Lib.Tx.commit]
  cases hrun : wiExecuteIdempotent c .otpVerify (wiVerifyInvitationOtp now a) s with
  | error e =>
    refine .raised now c a fun otpId hcompares => ?_
    by_contra hmisses
    simp only [Db.compares, Option.any_eq_true] at hcompares
    obtain ⟨⟨id, otp⟩, hcompared, hotp⟩ := hcompares
    obtain rfl : id = otpId := of_decide_eq_true hotp
    simp only [Db.misses, hcompared, Option.any_some, decide_true, Bool.true_and,
      Bool.or_eq_true, not_or, Bool.not_eq_true, List.any_eq_false] at hmisses
    obtain ⟨hright, hunused⟩ := hmisses
    simp only [Db.comparedBy] at hcompared
    split at hcompared
    · rename_i t hkey
      obtain ⟨ledger, hledger⟩ := acquireKey_ok hkey
      subst hledger
      split at hcompared
      · rename_i v otpId' otp' t' hcompare
        cases hcompared
        obtain ⟨⟨w, hw⟩, -⟩ := codeToCompare_ok hcompare
        subst hw
        have hverify : Succeeds (wiVerifyInvitationOtp now a) { s with idempotency := ledger } :=
          wiVerifyInvitationOtp_of_compared hcompare hright hid
            fun r hmem => by simpa using hunused r hmem
        obtain ⟨r', hr'⟩ := wiExecuteIdempotent_of_performed hkey hverify
        rw [hrun] at hr'
        cases hr'
      · cases hcompared
    · cases hcompared
    · cases hcompared
  | ok r =>
    obtain ⟨t, hkey, hr⟩ | ⟨t, result, t', hkey, hperform, ledger, hr⟩ :=
      wiExecuteIdempotent_ok hrun
    · obtain ⟨ledger, hledger⟩ := acquireKey_ok hkey
      have hnone : s.comparedBy (.verify now c a) = none := by simp [Db.comparedBy, hkey]
      subst hledger
      dsimp only
      rw [hr]
      exact .replayed now c a hnone ledger
    · obtain ⟨ledger', hledger⟩ := acquireKey_ok hkey
      subst hledger
      obtain ⟨v, otpId, otp, u, hcompare, hotps, ⟨p, hp, hproofs⟩, hnext⟩ :=
        wiVerifyInvitationOtp_ok hperform
      obtain ⟨⟨w, hw⟩, -⟩ := codeToCompare_ok hcompare
      subst hw
      have hcompared : s.comparedBy (.verify now c a) = some (otpId, otp) := by
        simp [Db.comparedBy, hkey, hcompare]
      dsimp only
      rw [hr]
      exact .proven now c a otpId otp hcompared _ (revokedProof_otpId now v.invitationId) p hp hotps
        hproofs hnext

theorem insertJob_ok {j : Job} (h : insertJob j s = .ok r) : s.jobs.get s.nextId = none ∧
      r.2 = { s with nextId := s.nextId + 1, jobs := s.jobs.put s.nextId j } := by
  obtain ⟨_, _, hid, h⟩ := bind_ok.mp h
  cases genRandomUuid_ok hid
  rw [get_bind] at h
  obtain ⟨hnone, h⟩ := require_bind_ok.mp h
  obtain ⟨-, h⟩ := require_bind_ok.mp h
  cases set_ok.mp h
  exact ⟨Option.isNone_iff_eq_none.mp hnone, rfl⟩

theorem insertOtp_ok {id : Id} {o : Otp} (h : insertOtp id o s = .ok r) :
    s.otps.get id = none ∧ r.2 = { s with otps := s.otps.put id o } := by
  unfold insertOtp at h
  rw [get_bind] at h
  obtain ⟨hnone, h⟩ := require_bind_ok.mp h
  cases set_ok.mp h
  exact ⟨Option.isNone_iff_eq_none.mp hnone, rfl⟩

def supersededOtp (now : Timestamp) (invitationId : Id) (o : Otp) : Otp :=
  if o.invitationId = invitationId ∧ o.unspent then { o with revokedAt := some now } else o

theorem supersededOtp_consumedAt (now : Timestamp) (invitationId : Id) (o : Otp) :
    (supersededOtp now invitationId o).consumedAt = o.consumedAt := by
  unfold supersededOtp
  split <;> rfl

theorem wiRequestInvitationOtpV2_ok {q : OtpRequest} {r : Result × Db}
    (h : wiRequestInvitationOtpV2 now q s = .ok r) :
    s.otps.get q.otpId = none ∧ r.2.proofs = s.proofs ∧ s.nextId ≤ r.2.nextId ∧ ∃ invitationId o,
        r.2.otps = (s.otps.mapValues (supersededOtp now invitationId)).put q.otpId o := by
  obtain ⟨-, h⟩ := require_bind_ok.mp h
  obtain ⟨v, t, hlock, h⟩ := bind_ok.mp h
  obtain ⟨⟨w, hw⟩, -⟩ := wiLockAndValidateToken_ok hlock
  subst hw
  rw [get_bind] at h
  obtain ⟨-, h⟩ := require_bind_ok.mp h
  obtain ⟨-, h⟩ := require_bind_ok.mp h
  rw [modify_bind] at h
  obtain ⟨_, t, hinsert, h⟩ := bind_ok.mp h
  obtain ⟨hnone, ht⟩ := insertOtp_ok hinsert
  have hfree : s.otps.get q.otpId = none := by
    cases hget : s.otps.get q.otpId with
    | none => rfl
    | some o =>
      have hsome : ((s.expireDue now w).supersedeOtps now v.invitationId).otps.get q.otpId =
          some (supersededOtp now v.invitationId o) := by
        refine (Table.get_mapValues s.otps (supersededOtp now v.invitationId) q.otpId).trans ?_
        rw [hget]
        rfl
      rw [hnone] at hsome
      cases hsome
  subst ht
  rw [get_bind] at h
  obtain ⟨-, h⟩ | ⟨-, h⟩ := ite_ok.mp h
  · obtain ⟨_, _, hjob, h⟩ := bind_ok.mp h
    cases (insertJob_ok hjob).2
    cases pure_ok.mp h
    exact ⟨hfree, rfl, Nat.le_succ _, v.invitationId, _, rfl⟩
  · cases pure_ok.mp h
    exact ⟨hfree, rfl, le_rfl, v.invitationId, _, rfl⟩

inductive Requested (s s' : Db) (now : Timestamp) (q : OtpRequest) : Prop where
  | same (hotps : s'.otps = s.otps) (hproofs : s'.proofs = s.proofs) (hnext : s'.nextId = s.nextId)
  | issued (hfree : s.otps.get q.otpId = none) (hproofs : s'.proofs = s.proofs)
      (hnext : s.nextId ≤ s'.nextId) (invitationId : Id) (o : Otp)
      (hotps : s'.otps = (s.otps.mapValues (supersededOtp now invitationId)).put q.otpId o)

theorem request_step (now : Timestamp) (c : Call) (q : OtpRequest) :
    Requested s (s.call (.request now c q)) now q := by
  simp only [Db.call, Lib.Tx.commit]
  cases hrun : wiExecuteIdempotent c .otpRequest (wiRequestInvitationOtpV2 now q) s with
  | error e => exact .same rfl rfl rfl
  | ok r =>
    obtain ⟨t, hkey, hr⟩ | ⟨t, result, t', hkey, hperform, ledger, hr⟩ :=
      wiExecuteIdempotent_ok hrun
    · obtain ⟨ledger, hledger⟩ := acquireKey_ok hkey
      dsimp only at hledger ⊢
      subst hledger
      rw [hr]
      exact .same rfl rfl rfl
    · obtain ⟨ledger', hledger⟩ := acquireKey_ok hkey
      dsimp only at hledger ⊢
      subst hledger
      obtain ⟨hfree, hproofs, hnext, invitationId, o, hotps⟩ :=
        wiRequestInvitationOtpV2_ok hperform
      rw [hr]
      exact .issued hfree hproofs hnext invitationId o hotps

end Calls

structure ProofsSound (s : Db) : Prop where
  fresh : ∀ id p, s.proofs.get id = some p → id < s.nextId
  consumed : ∀ id p, s.proofs.get id = some p →
    ∃ otp, s.otps.get p.otpId = some otp ∧ otp.consumedAt.isSome
  one : ∀ id id' p p', s.proofs.get id = some p → s.proofs.get id' = some p' →
    p.otpId = p'.otpId → id = id'

def Db.ConsumedOtp (s : Db) (otpId : Id) : Prop :=
  ∃ otp, s.otps.get otpId = some otp ∧ otp.consumedAt.isSome

section Runs
variable {s : Db} {otpId : Id}

theorem ProofsSound.free (h : ProofsSound s) : s.proofs.get s.nextId = none := by
  cases hget : s.proofs.get s.nextId with
  | none => rfl
  | some p => exact absurd (h.fresh _ p hget) (lt_irrefl _)

theorem proofsSound_start (hproofs : s.proofs = .empty) : ProofsSound s := by
  have hnone (id : Id) (p : Proof) (h : s.proofs.get id = some p) : False := by
    rw [hproofs, Table.get_empty] at h
    cases h
  exact ⟨fun id p h => (hnone id p h).elim, fun id p h => (hnone id p h).elim,
    fun id _ p _ h _ _ => (hnone id p h).elim⟩

theorem Db.ConsumedOtp.call (hs : ProofsSound s) (h : s.ConsumedOtp otpId) (e : CodeEvent) :
    (s.call e).ConsumedOtp otpId := by
  obtain ⟨otp, hget, hconsumed⟩ := h
  cases e with
  | request now c q =>
    cases request_step (s := s) now c q with
    | same hotps hproofs hnext => exact ⟨otp, hotps ▸ hget, hconsumed⟩
    | issued hfree hproofs hnext invitationId o hotps =>
      have hne : otpId ≠ q.otpId := by
        rintro rfl
        rw [hget] at hfree
        cases hfree
      refine ⟨supersededOtp now invitationId otp, ?_, ?_⟩
      · rw [hotps, Table.get_put_ne _ _ hne, Table.get_mapValues, hget]
        rfl
      · rwa [supersededOtp_consumedAt]
  | verify now c a =>
    have hstep := verify_step hs.free now c a
    generalize s.call (.verify now c a) = s' at hstep
    cases hstep with
    | raised => exact ⟨otp, hget, hconsumed⟩
    | replayed => exact ⟨otp, hget, hconsumed⟩
    | proven _ _ _ id o hcompared f hf p hp hotps hproofs hnext =>
      rw [Db.ConsumedOtp, hotps, Table.get_update]
      split
      · rename_i heq
        rw [← heq, hget]
        exact ⟨_, rfl, rfl⟩
      · exact ⟨otp, hget, hconsumed⟩

theorem not_compares (h : s.ConsumedOtp otpId) (e : CodeEvent) : s.compares otpId e = false := by
  obtain ⟨otp, hget, hconsumed⟩ := h
  rw [Db.compares, Option.any_eq_false]
  intro r hr
  rw [decide_eq_false_iff_not]
  rintro rfl
  cases e with
  | request => cases hr
  | verify now c a =>
    have hr' : s.comparedBy (.verify now c a) = some (r.1, r.2) := hr
    obtain ⟨hget', hunspent⟩ := comparedBy_spec hr'
    rw [hget] at hget'
    cases hget'
    simp only [Otp.unspent, Bool.and_eq_true, Option.isNone_iff_eq_none] at hunspent
    rw [hunspent.1] at hconsumed
    cases hconsumed

theorem ProofsSound.call (h : ProofsSound s) (e : CodeEvent) : ProofsSound (s.call e) := by
  have hconsumed (otpId : Id) (hc : s.ConsumedOtp otpId) : (s.call e).ConsumedOtp otpId :=
    hc.call h e
  cases e with
  | request now c q =>
    cases request_step (s := s) now c q with
    | same hotps hproofs hnext =>
      refine ⟨?_, ?_, ?_⟩
      · rw [hproofs, hnext]
        exact h.fresh
      · rw [hproofs]
        exact fun id p hp => hconsumed _ (h.consumed id p hp)
      · rw [hproofs]
        exact h.one
    | issued hfree hproofs hnext invitationId o hotps =>
      refine ⟨?_, ?_, ?_⟩
      · rw [hproofs]
        exact fun id p hp => (h.fresh id p hp).trans_le hnext
      · rw [hproofs]
        exact fun id p hp => hconsumed _ (h.consumed id p hp)
      · rw [hproofs]
        exact h.one
  | verify now c a =>
    have hstep := verify_step h.free now c a
    generalize s.call (.verify now c a) = s' at hstep hconsumed
    cases hstep with
    | raised => exact h
    | replayed => exact ⟨h.fresh, h.consumed, h.one⟩
    | proven _ _ _ otpId otp hcompared f hf new hnew hotps hproofs hnext =>
      have hcases (id : Id) (p : Proof) (hp : s'.proofs.get id = some p) :
          (id = s.nextId ∧ p.otpId = otpId) ∨
            ∃ p', s.proofs.get id = some p' ∧ p.otpId = p'.otpId := by
        rw [hproofs, Table.get_put] at hp
        split at hp
        · rename_i hid
          cases hp
          exact .inl ⟨hid, hnew⟩
        · rw [Table.get_mapValues, Option.map_eq_some_iff] at hp
          obtain ⟨p', hp', rfl⟩ := hp
          exact .inr ⟨p', hp', hf p'⟩
      -- no proof came out of this code before: it was not consumed
      have hother (id : Id) (p : Proof) (hp : s.proofs.get id = some p) : p.otpId ≠ otpId := by
        rintro rfl
        have hnot := not_compares (h.consumed id p hp) (.verify now c a)
        simp [Db.compares, hcompared] at hnot
      have hnow : s'.ConsumedOtp otpId := by
        obtain ⟨hget, -⟩ := comparedBy_spec hcompared
        rw [Db.ConsumedOtp, hotps, Table.get_update_self, hget]
        exact ⟨_, rfl, rfl⟩
      refine ⟨fun id p hp => ?_, fun id p hp => ?_, fun id id' p p' hp hp' heq => ?_⟩
      · rw [hnext]
        obtain ⟨rfl, -⟩ | ⟨p', hp', -⟩ := hcases id p hp
        · exact Nat.lt_succ_self _
        · exact Nat.lt_succ_of_lt (h.fresh id p' hp')
      · obtain ⟨-, hid⟩ | ⟨p', hp', hid⟩ := hcases id p hp
        · rw [hid]
          exact hnow
        · rw [hid]
          exact hconsumed _ (h.consumed id p' hp')
      · obtain ⟨hid, hotp⟩ | ⟨q, hq, hotp⟩ := hcases id p hp
        · obtain ⟨hid', -⟩ | ⟨q', hq', hotp'⟩ := hcases id' p' hp'
          · rw [hid, hid']
          · exact absurd (hotp'.symm.trans (heq.symm.trans hotp)) (hother id' q' hq')
        · obtain ⟨-, hotp'⟩ | ⟨q', hq', hotp'⟩ := hcases id' p' hp'
          · exact absurd (hotp.symm.trans (heq.trans hotp')) (hother id q hq)
          · exact h.one id id' q q' hq hq' (hotp.symm.trans (heq.trans hotp'))

theorem comparisons_of_consumed (hs : ProofsSound s) (h : s.ConsumedOtp otpId)
    (es : List CodeEvent) : s.comparisons otpId es = 0 := by
  induction es generalizing s with
  | nil => rfl
  | cons e es ih =>
    have hrest := ih (hs.call e) (h.call hs e)
    simp only [Db.comparisons, tally, not_compares h e, Bool.toNat_false, Nat.zero_add]
    exact hrest

theorem misses_or_consumes (hs : ProofsSound s) {e : CodeEvent} (h : s.compares otpId e) :
    (s.misses otpId e ∧ s.call e = s) ∨ (s.call e).ConsumedOtp otpId := by
  cases e with
  | request now c q => cases h
  | verify now c a =>
    have hstep := verify_step hs.free now c a
    generalize s.call (.verify now c a) = s' at hstep
    cases hstep with
    | raised _ _ _ hmisses => exact .inl ⟨hmisses otpId h, rfl⟩
    | replayed _ _ _ hnone =>
      rw [Db.compares, hnone] at h
      cases h
    | proven _ _ _ id otp hcompared f hf p hp hotps hproofs hnext =>
      rw [Db.compares, hcompared, Option.any_some, decide_eq_true_eq] at h
      obtain rfl : id = otpId := h
      obtain ⟨hget, -⟩ := comparedBy_spec hcompared
      refine .inr ?_
      rw [Db.ConsumedOtp, hotps, Table.get_update_self, hget]
      exact ⟨_, rfl, rfl⟩

theorem comparisons_le (hs : ProofsSound s) (es : List CodeEvent) :
    s.comparisons otpId es ≤ s.missed otpId es + 1 := by
  induction es generalizing s with
  | nil => exact Nat.zero_le _
  | cons e es ih =>
    have hrest := ih (hs.call e)
    simp only [Db.comparisons, Db.missed, tally] at hrest ⊢
    cases hcompares : s.compares otpId e with
    | false => simp only [Bool.toNat_false]; omega
    | true =>
      obtain ⟨hmisses, -⟩ | hconsumed := misses_or_consumes hs hcompares
      · simp only [hmisses, Bool.toNat_true]; omega
      · have hzero := comparisons_of_consumed (hs.call e) hconsumed es
        simp only [Db.comparisons] at hzero
        simp only [hzero, Bool.toNat_true]; omega

theorem liveProofs_le_one (hs : ProofsSound s) (otpId : Id) : s.liveProofs otpId ≤ 1 := by
  refine Table.countP_le_one s.proofs _ fun id id' p p' hp hp' h h' => ?_
  simp only [Bool.and_eq_true, decide_eq_true_eq] at h h'
  exact hs.one id id' p p' hp hp' (h.1.trans h'.1.symm)

/-- Where fewer than `max_attempts` digests are given away on each code, no code is compared with
more than `max_attempts` of them, and one proof at most comes out of it. -/
theorem codes_guarded (hproofs : s.proofs = .empty) (es : List CodeEvent)
    (hmissed : ∀ otpId otp, (run Db.call s es).otps.get otpId = some otp →
      s.missed otpId es < otp.maxAttempts) : s.Guarded es := by
  have hs := proofsSound_start hproofs
  have hend : ProofsSound (run Db.call s es) :=
    Lib.run_invariant (I := ProofsSound) (fun _ e h => h.call e) hs es
  intro otpId otp hget
  have hle : s.comparisons otpId es ≤ s.missed otpId es + 1 := comparisons_le hs es
  have hlt := hmissed otpId otp hget
  exact ⟨by omega, liveProofs_le_one hend otpId⟩

end Runs

def oneInvitation : Db where
  nextId := 10
  invitations := Table.empty.put 1 {
    workspaceId := 0, role := .agent, firstName := "Ada", lastName := "Byron"
    invitedEmailNormalized := "ada@example.com", memberType := .customerFacing
    expiresAt := some 9000000000, createdBy := 0, createdAt := 0 }
  tokens := Table.empty.put 2 {
    invitationId := 1, workspaceId := 0, purpose := .manualHandoff, tokenHash := "link"
    expiresAt := 9000000000 }

def callAs (key : String) : Call where
  key
  fingerprint := "fingerprint-of-it"
  scopeKind := "public"

def issueCode : CodeEvent :=
  .request 0 (callAs "request-0000000001")
    { tokenHash := "link", otpId := 7, codeDigest := "right", expiresAt := 600000000
      jobIdempotencyKey := "otp:7" }

def guess (key digest : String) : CodeEvent :=
  .verify 1000000 (callAs key)
    { tokenHash := "link", codeDigest := some digest, proofHash := "proof"
      proofExpiresAt := 900000000 }

/-- `max_attempts` is 5. -/
def wrongGuesses : List CodeEvent :=
  [issueCode, guess "verify-0000000001" "wrong", guess "verify-0000000002" "wrong",
    guess "verify-0000000003" "wrong", guess "verify-0000000004" "wrong",
    guess "verify-0000000005" "wrong", guess "verify-0000000006" "wrong"]

theorem wrongGuesses_guarded : ¬oneInvitation.Guarded wrongGuesses := by
  intro h
  obtain ⟨otp, hget⟩ : ∃ otp, (run Db.call oneInvitation wrongGuesses).otps.get 7 = some otp :=
    Option.isSome_iff_exists.mp (by decide +kernel)
  have hmax : otp.maxAttempts = 5 := by
    have hfive : ((run Db.call oneInvitation wrongGuesses).otps.get 7).map Otp.maxAttempts =
        some 5 := by decide +kernel
    rw [hget] at hfive
    exact Option.some.inj hfive
  have hcompared : oneInvitation.comparisons 7 wrongGuesses = 6 := by decide +kernel
  have hle := (h 7 otp hget).1
  omega

def rightGuess : List CodeEvent :=
  [issueCode, guess "verify-0000000001" "wrong", guess "verify-0000000002" "wrong",
    guess "verify-0000000003" "wrong", guess "verify-0000000004" "wrong",
    guess "verify-0000000005" "right"]

theorem rightGuess_guarded : oneInvitation.Guarded rightGuess := by
  refine codes_guarded rfl rightGuess fun otpId otp hget => ?_
  have hall : ∀ r ∈ (run Db.call oneInvitation rightGuess).otps.rows,
      oneInvitation.missed r.1 rightGuess < r.2.maxAttempts := by decide +kernel
  exact hall (otpId, otp) (Table.get_eq_some_iff_mem.mp hget)

end Kindred.Invitations
