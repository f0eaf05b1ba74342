import Kindred.Invitations.Codes
import Kindred.Invitations.JobFunctions
import Kindred.Invitations.Management

/-! The links that the e-mail jobs of an invitation mail, each job one of its own. -/

namespace Kindred.Invitations
open Lib (Table run Meets)
open Lib.Tx (bind_ok pure_ok throw_ok get_bind modify_bind set_ok modify_ok ite_ok require_ok require_bind_ok)

inductive MailEvent where
  | create (now : Timestamp) (seats : Option Seats) (a : Create)
  | resend (now : Timestamp) (a : Resend)
  | claim (now : Timestamp) (workerId : String) (leaseSeconds : Int) (jobIds : List Id)
  | reclaim (now : Timestamp)
  | heartbeat (now : Timestamp) (jobId claimToken : Id) (leaseSeconds : Int)
  | prepare (now : Timestamp) (jobId claimToken : Id) (tokenExpiresAt : Timestamp)
  | preflight (now : Timestamp) (jobId claimToken : Id)
  | accept (jobId claimToken : Id)
  | complete (now : Timestamp) (jobId claimToken : Id) (outcome : JobOutcome)
      (retryInSeconds : Int)

/-- The database, and where its workers are: told to send a job's mail, past the check before it is
handed over; and the jobs whose mail the provider has accepted. -/
structure Mailing where
  db : Db
  prepared : List (Id × Id) := []
  sendable : List (Id × Id) := []
  accepted : List Id := []

section Workers
variable (linkOf : Id → String)

/-- `linkOf`: the hash of the token that a job derives. -/
def prepareJob (now : Timestamp) (jobId claimToken : Id) (tokenExpiresAt : Timestamp) :
    InvitationTx Bool :=
  wiPrepareInvitationJob now jobId claimToken
    (some { tokenHash := linkOf jobId, expiresAt := tokenExpiresAt })

def Mailing.step (s : Mailing) : MailEvent → Mailing
  | .create now seats a =>
    { s with db := Lib.Tx.commit (createWorkspaceInvitationV2 now seats a) s.db }
  | .resend now a => { s with db := Lib.Tx.commit (resendInvitationEmailV2 now a) s.db }
  | .claim now workerId leaseSeconds jobIds =>
    { s with db := Lib.Tx.commit (claimInvitationJobs now workerId leaseSeconds jobIds) s.db }
  | .reclaim now => { s with db := Lib.Tx.commit (reclaimExpiredInvitationJobs now) s.db }
  | .heartbeat now jobId claimToken leaseSeconds =>
    { s with db := Lib.Tx.commit (wiHeartbeatInvitationJob now jobId claimToken leaseSeconds) s.db }
  | .prepare now jobId claimToken tokenExpiresAt =>
    match prepareJob linkOf now jobId claimToken tokenExpiresAt s.db with
    | .ok (true, db) => { s with db, prepared := (jobId, claimToken) :: s.prepared }
    | .ok (false, db) => { s with db }
    | .error _ => s
  | .preflight now jobId claimToken =>
    if s.prepared.contains (jobId, claimToken) ∧ s.db.jobStillSendable now jobId claimToken then
      { s with sendable := (jobId, claimToken) :: s.sendable }
    else s
  | .accept jobId claimToken =>
    if s.sendable.contains (jobId, claimToken) then { s with accepted := jobId :: s.accepted }
    else s
  | .complete now jobId claimToken outcome retryInSeconds =>
    { s with
      db := Lib.Tx.commit (wiCompleteInvitationJob now jobId claimToken outcome retryInSeconds)
        s.db }

def Job.linkGeneration (j : Job) : ℕ := j.emailTokenGeneration.getD 1

structure Db.NewestJob (db : Db) (jobId : Id) (j : Job) : Prop where
  job : db.jobs.get jobId = some j
  email : j.channel = .email
  newest : ∀ id k, db.jobs.get id = some k → k.invitationId = j.invitationId →
    k.channel = .email → k.linkGeneration ≤ j.linkGeneration

def Db.LiveLink (db : Db) (hash : String) (invitationId : Id) (i : Invitation) : Prop :=
  ∃ tokenId t, db.tokens.get tokenId = some t ∧ t.tokenHash = hash ∧
    t.invitationId = invitationId ∧ t.purpose = .emailClaim ∧ t.unspent ∧
    t.notificationGeneration = i.notificationGeneration

/-- The newest mail of a pending invitation that the provider has accepted carries a live link. -/
def Mailing.NewestLive (s : Mailing) : Prop :=
  ∀ jobId j i, s.db.NewestJob jobId j → jobId ∈ s.accepted →
    s.db.invitations.get j.invitationId = some i → i.status = .pending →
    s.db.LiveLink (linkOf jobId) j.invitationId i

/-- A job is prepared only while no link of a newer one is live. -/
def Mailing.Careful (s : Mailing) : MailEvent → Prop
  | .prepare now jobId claimToken _ =>
    ∀ j ∈ s.db.jobs.get jobId, j.heldUnder now claimToken → ∀ t ∈ s.db.tokens.rows,
      t.2.invitationId = j.invitationId → t.2.purpose = .emailClaim → t.2.unspent →
      t.2.tokenGeneration ≤ j.linkGeneration
  | _ => True

instance (s : Mailing) : (e : MailEvent) → Decidable (s.Careful e)
  | .prepare .. => by unfold Mailing.Careful; infer_instance
  | .create .. | .resend .. | .claim .. | .reclaim .. | .heartbeat .. | .preflight .. | .accept ..
  | .complete .. => .isTrue trivial

def MailEvent.OwnLinks : MailEvent → Prop
  | .create _ _ a => ∀ jobId, a.manualTokenHash ≠ linkOf jobId
  | _ => True

end Workers

def Job.Same (j j' : Job) : Prop :=
  j'.invitationId = j.invitationId ∧ j'.channel = j.channel ∧
    j'.notificationGeneration = j.notificationGeneration ∧
    j'.emailTokenGeneration = j.emailTokenGeneration

theorem Job.Same.refl (j : Job) : j.Same j := ⟨rfl, rfl, rfl, rfl⟩

variable {j j' : Job}

theorem Job.Same.linkGeneration (h : j.Same j') : j'.linkGeneration = j.linkGeneration := by
  rw [Job.linkGeneration, Job.linkGeneration, h.2.2.2]

def Token.Same (t t' : Token) : Prop :=
  t'.tokenHash = t.tokenHash ∧ t'.invitationId = t.invitationId ∧ t'.purpose = t.purpose ∧
    t'.tokenGeneration = t.tokenGeneration ∧ t'.notificationGeneration = t.notificationGeneration

theorem Token.Same.refl (t : Token) : t.Same t := ⟨rfl, rfl, rfl, rfl, rfl⟩

def Token.FitsJob (t : Token) (j : Job) : Prop :=
  t.invitationId = j.invitationId ∧ t.purpose = .emailClaim ∧
    t.tokenGeneration = j.linkGeneration ∧ t.notificationGeneration = j.notificationGeneration

section Invariant
variable (linkOf : Id → String)

structure LinksNumbered (db : Db) : Prop where
  derived : ∀ tokenId t jobId, db.tokens.get tokenId = some t → t.tokenHash = linkOf jobId →
    ∃ j, db.jobs.get jobId = some j ∧ j.channel = .email ∧ t.FitsJob j
  numbered : ∀ id id' j j', db.jobs.get id = some j → db.jobs.get id' = some j' →
    j.channel = .email → j'.channel = .email → j.invitationId = j'.invitationId →
    j.linkGeneration = j'.linkGeneration → id = id'
  given : ∀ id j, db.jobs.get id = some j → j.channel = .email → j.emailTokenGeneration.isSome
  invited : ∀ id j, db.jobs.get id = some j → ∃ i, db.invitations.get j.invitationId = some i ∧
    j.notificationGeneration = i.notificationGeneration

def Db.NewestUnspent (db : Db) (invitationId : Id) : Prop :=
  ∀ jobId j i tokenId t, db.NewestJob jobId j → j.invitationId = invitationId →
    db.invitations.get invitationId = some i → i.status = .pending →
    db.tokens.get tokenId = some t → t.tokenHash = linkOf jobId → t.unspent

structure LinksSound (db : Db) : Prop extends LinksNumbered linkOf db where
  newest : ∀ invitationId, db.NewestUnspent linkOf invitationId

def Db.Linked (db : Db) (jobId : Id) : Prop :=
  ∃ tokenId t, db.tokens.get tokenId = some t ∧ t.tokenHash = linkOf jobId

structure Reworked (db db' : Db) : Prop where
  jobs : ∃ f : Id → Job → Job, (∀ (id : Id) (j : Job), j.Same (f id j)) ∧
    ∀ id, db'.jobs.get id = (db.jobs.get id).map (f id)
  tokens : ∃ g : Token → Token, (∀ t : Token, t.Same (g t)) ∧
    ∀ id, db'.tokens.get id = (db.tokens.get id).map g
  invitations : ∃ k : Invitation → Invitation,
    (∀ i, (k i).notificationGeneration = i.notificationGeneration) ∧
      ∀ id, db'.invitations.get id = (db.invitations.get id).map k

end Invariant

variable {t' t : Token} {jobId invitationId w tokenId : Id} {now : Timestamp} {i : Invitation}
  {leaseSeconds : Int}

section Primitives
variable {linkOf : Id → String} {db db' : Db} {id : Id}

theorem Reworked.job (h : Reworked db db') (hj : db'.jobs.get id = some j') :
    ∃ j, db.jobs.get id = some j ∧ j.Same j' := by
  obtain ⟨f, hf, hget⟩ := h.jobs
  rw [hget, Option.map_eq_some_iff] at hj
  obtain ⟨j, hj, rfl⟩ := hj
  exact ⟨j, hj, hf id j⟩

theorem Reworked.job_of (h : Reworked db db') (hj : db.jobs.get id = some j) :
    ∃ j', db'.jobs.get id = some j' ∧ j.Same j' := by
  obtain ⟨f, hf, hget⟩ := h.jobs
  exact ⟨f id j, by rw [hget, hj]; rfl, hf id j⟩

theorem Reworked.token (h : Reworked db db') (ht : db'.tokens.get id = some t') :
    ∃ t, db.tokens.get id = some t ∧ t.Same t' := by
  obtain ⟨g, hg, hget⟩ := h.tokens
  rw [hget, Option.map_eq_some_iff] at ht
  obtain ⟨t, ht, rfl⟩ := ht
  exact ⟨t, ht, hg t⟩

theorem Reworked.numbered (h : Reworked db db') (hs : LinksNumbered linkOf db) :
    LinksNumbered linkOf db' where
  derived tokenId t' jobId ht' hhash := by
    obtain ⟨t, ht, hsame⟩ := h.token ht'
    obtain ⟨j, hj, hemail, hinvitation, hpurpose, hgeneration, hnotification⟩ :=
      hs.derived tokenId t jobId ht (hsame.1.symm.trans hhash)
    obtain ⟨j', hj', hsame'⟩ := h.job_of hj
    refine ⟨j', hj', hsame'.2.1.trans hemail, ?_, ?_, ?_, ?_⟩
    · rw [hsame.2.1, hinvitation, hsame'.1]
    · rw [hsame.2.2.1, hpurpose]
    · rw [hsame.2.2.2.1, hgeneration, hsame'.linkGeneration]
    · rw [hsame.2.2.2.2, hnotification, hsame'.2.2.1]
  numbered id id' j j' hj hj' hemail hemail' hinvitation hgeneration := by
    obtain ⟨k, hk, hsame⟩ := h.job hj
    obtain ⟨k', hk', hsame'⟩ := h.job hj'
    refine hs.numbered id id' k k' hk hk' (hsame.2.1.symm.trans hemail)
      (hsame'.2.1.symm.trans hemail') ?_ ?_
    · rw [← hsame.1, hinvitation, hsame'.1]
    · rw [← hsame.linkGeneration, hgeneration, hsame'.linkGeneration]
  given id j' hj' hemail := by
    obtain ⟨j, hj, hsame⟩ := h.job hj'
    rw [hsame.2.2.2]
    exact hs.given id j hj (hsame.2.1.symm.trans hemail)
  invited id j' hj' := by
    obtain ⟨j, hj, hsame⟩ := h.job hj'
    obtain ⟨i, hi, hgeneration⟩ := hs.invited id j hj
    obtain ⟨k, hk, hget⟩ := h.invitations
    refine ⟨k i, ?_, ?_⟩
    · rw [hsame.1, hget, hi]
      rfl
    · rw [hsame.2.2.1, hgeneration, hk]

theorem Reworked.newestJob (h : Reworked db db') (hj : db'.NewestJob jobId j') :
    ∃ j, db.NewestJob jobId j ∧ j.Same j' := by
  obtain ⟨j, hget, hsame⟩ := h.job hj.job
  refine ⟨j, ⟨hget, hsame.2.1.symm.trans hj.email, fun id k hk hinvitation hemail => ?_⟩, hsame⟩
  obtain ⟨k', hk', hsame'⟩ := h.job_of hk
  have hle := hj.newest id k' hk' (by rw [hsame'.1, hinvitation, hsame.1])
    (hsame'.2.1.trans hemail)
  rwa [hsame'.linkGeneration, hsame.linkGeneration] at hle

theorem Reworked.newestUnspent (h : Reworked db db') (hs : LinksNumbered linkOf db)
    (hbefore : db.NewestUnspent linkOf invitationId)
    (hpending : ∀ i', db'.invitations.get invitationId = some i' → i'.status = .pending →
      ∃ i, db.invitations.get invitationId = some i ∧ i.status = .pending)
    (hunspent : ∀ jobId j id t t' i', db.NewestJob jobId j → t.tokenHash = linkOf jobId →
      t.FitsJob j → db.tokens.get id = some t → db'.tokens.get id = some t' →
      t.invitationId = invitationId → db'.invitations.get invitationId = some i' →
      i'.status = .pending → t.unspent → t'.unspent) : db'.NewestUnspent linkOf invitationId := by
  intro jobId j' i' tokenId t' hnewest hinvitation hi' hstatus ht' hhash
  obtain ⟨j, hj, hsame⟩ := h.newestJob hnewest
  obtain ⟨t, ht, htsame⟩ := h.token ht'
  have hthash : t.tokenHash = linkOf jobId := htsame.1.symm.trans hhash
  have hjid : j.invitationId = invitationId := hsame.1.symm.trans hinvitation
  obtain ⟨i, hi, hwas⟩ := hpending i' hi' hstatus
  obtain ⟨k, hk, -, hfits⟩ := hs.derived tokenId t jobId ht hthash
  rw [hj.job] at hk
  cases hk
  exact hunspent jobId j tokenId t t' i' hj hthash hfits ht ht' (hfits.1.trans hjid) hi' hstatus
    (hbefore jobId j i tokenId t hj hjid hi hwas ht hthash)

theorem LinksSound.jobs (hs : LinksSound linkOf db) (f : Id → Job → Job)
    (hf : ∀ (id : Id) (j : Job), j.Same (f id j)) (htokens : db'.tokens = db.tokens)
    (hinvitations : db'.invitations = db.invitations)
    (hjobs : ∀ id, db'.jobs.get id = (db.jobs.get id).map (f id)) : LinksSound linkOf db' := by
  have h : Reworked db db' := by
    refine ⟨⟨f, hf, hjobs⟩, ⟨id, Token.Same.refl, fun k => ?_⟩, ⟨id, fun _ => rfl, fun k => ?_⟩⟩
    · simp [htokens]
    · simp [hinvitations]
  refine ⟨h.numbered hs.toLinksNumbered, fun invitationId =>
    h.newestUnspent hs.toLinksNumbered (hs.newest invitationId) (fun i' hi' hstatus => ?_)
      fun _ _ _ _ t' _ _ _ _ ht ht' _ _ _ hunspent => ?_⟩
  · exact ⟨i', hinvitations ▸ hi', hstatus⟩
  · rw [htokens, ht] at ht'
    cases ht'
    exact hunspent

theorem reworked_expireDue (db : Db) (now : Timestamp) (w : Id) :
    Reworked db (db.expireDue now w) := by
  refine ⟨⟨fun _ j => _, fun id j => ?_, fun id => Table.get_mapValues _ _ id⟩,
    ⟨_, fun t => ?_, fun id => Table.get_mapValues _ _ id⟩,
    ⟨_, fun i => ?_, fun id => Table.get_mapValues _ _ id⟩⟩
  · dsimp only
    split <;> exact ⟨rfl, rfl, rfl, rfl⟩
  · split <;> exact ⟨rfl, rfl, rfl, rfl, rfl⟩
  · split <;> rfl

theorem expireDue_pending (hi : (db.expireDue now w).invitations.get id = some i)
    (hstatus : i.status = .pending) : db.invitations.get id = some i := by
  simp only [Db.expireDue, Table.get_mapValues, Option.map_eq_some_iff] at hi
  obtain ⟨i', hget, rfl⟩ := hi
  split at hstatus
  · cases hstatus
  · rename_i hnot
    rw [hget, if_neg hnot]

theorem expireDue_token (hi : (db.expireDue now w).invitations.get t.invitationId = some i)
    (hstatus : i.status = .pending) (ht : db.tokens.get tokenId = some t)
    (ht' : (db.expireDue now w).tokens.get tokenId = some t') : t' = t := by
  simp only [Db.expireDue, Table.get_mapValues, ht, Option.map_some, Option.some.injEq] at ht'
  rw [← ht']
  refine if_neg fun h => ?_
  have hexpired := h.1
  simp only [Db.expireDue] at hi
  simp only [Db.isExpired, hi, Option.any_some, Bool.and_eq_true, decide_eq_true_eq] at hexpired
  rw [hstatus] at hexpired
  cases hexpired.2

theorem LinksSound.expireDue (hs : LinksSound linkOf db) (now : Timestamp) (w : Id) :
    LinksSound linkOf (db.expireDue now w) := by
  have h := reworked_expireDue db now w
  refine ⟨h.numbered hs.toLinksNumbered, fun invitationId =>
    h.newestUnspent hs.toLinksNumbered (hs.newest invitationId) (fun i' hi' hstatus => ?_)
      fun _ _ _ _ _ i' _ _ _ ht ht' hinvitation hi' hstatus hunspent => ?_⟩
  · exact ⟨i', expireDue_pending hi' hstatus, hstatus⟩
  · rw [expireDue_token (hinvitation ▸ hi') hstatus ht ht']
    exact hunspent

end Primitives

section Additions
variable {linkOf : Id → String} {db : Db} {id : Id}

/-- A job for a numbered invitation: no number of its e-mail jobs is used twice. -/
theorem LinksNumbered.addJob (hs : LinksNumbered linkOf db) (hnew : db.jobs.get id = none)
    (hi : db.invitations.get j.invitationId = some i)
    (hgeneration : j.notificationGeneration = i.notificationGeneration)
    (hnumber : j.channel = .email → ∀ id' j', db.jobs.get id' = some j' →
      j'.invitationId = j.invitationId → j'.channel = .email → j'.linkGeneration < j.linkGeneration)
    (hgiven : j.channel = .email → j.emailTokenGeneration.isSome) (n : Id) :
    LinksNumbered linkOf { db with nextId := n, jobs := db.jobs.put id j } where
  derived tokenId t jobId ht hhash := by
    obtain ⟨k, hk, hfits⟩ := hs.derived tokenId t jobId ht hhash
    have hne : jobId ≠ id := by
      rintro rfl
      rw [hnew] at hk
      cases hk
    exact ⟨k, (Table.get_put_ne _ _ hne).trans hk, hfits⟩
  numbered k k' l l' hl hl' hemail hemail' hinvitation hnumbers := by
    rw [Table.get_put] at hl hl'
    split at hl
    · rename_i hk
      cases hl
      split at hl'
      · rename_i hk'
        rw [hk, hk']
      · have hlt := hnumber hemail k' l' hl' hinvitation.symm hemail'
        omega
    · split at hl'
      · cases hl'
        have hlt := hnumber hemail' k l hl hinvitation hemail
        omega
      · exact hs.numbered k k' l l' hl hl' hemail hemail' hinvitation hnumbers
  given k l hl hemail := by
    rw [Table.get_put] at hl
    split at hl
    · cases hl
      exact hgiven hemail
    · exact hs.given k l hl hemail
  invited k l hl := by
    rw [Table.get_put] at hl
    split at hl
    · cases hl
      exact ⟨i, hi, hgeneration⟩
    · exact hs.invited k l hl

theorem LinksNumbered.addEmailJob (hs : LinksNumbered linkOf db)
    (hothers : ∀ invitationId, invitationId ≠ j.invitationId → db.NewestUnspent linkOf invitationId)
    (hnew : db.jobs.get id = none) (hemail : j.channel = .email)
    (hnumber : ∀ id' j', db.jobs.get id' = some j' → j'.invitationId = j.invitationId →
      j'.channel = .email → j'.linkGeneration < j.linkGeneration) (n : Id) (invitationId : Id) :
    Db.NewestUnspent linkOf { db with nextId := n, jobs := db.jobs.put id j } invitationId := by
  intro jobId k i tokenId t hnewest hinvitation hi hstatus ht hhash
  obtain ⟨l, hl, -, -⟩ := hs.derived tokenId t jobId ht hhash
  have hne : jobId ≠ id := by
    rintro rfl
    rw [hnew] at hl
    cases hl
  have hk : db.jobs.get jobId = some k := by
    have hget := hnewest.job
    rwa [Table.get_put_ne _ _ hne] at hget
  have hother : invitationId ≠ j.invitationId := by
    intro heq
    have hlt := hnumber jobId k hk (hinvitation.trans heq) hnewest.email
    have hle := hnewest.newest id j (Table.get_put_self _ _ _) (heq.symm.trans hinvitation.symm)
      hemail
    omega
  refine hothers invitationId hother jobId k i tokenId t ⟨hk, hnewest.email, ?_⟩ hinvitation hi
    hstatus ht hhash
  intro id' k' hk' hsame hchannel
  have hne' : id' ≠ id := by
    rintro rfl
    rw [hnew] at hk'
    cases hk'
  exact hnewest.newest id' k' ((Table.get_put_ne _ _ hne').trans hk') hsame hchannel

theorem LinksSound.addOtherJob (hs : LinksSound linkOf db) (hnew : db.jobs.get id = none)
    (hi : db.invitations.get j.invitationId = some i)
    (hgeneration : j.notificationGeneration = i.notificationGeneration)
    (hother : j.channel ≠ .email) (n : Id) :
    LinksSound linkOf { db with nextId := n, jobs := db.jobs.put id j } := by
  refine ⟨hs.toLinksNumbered.addJob hnew hi hgeneration (fun h => absurd h hother)
    (fun h => absurd h hother) n, ?_⟩
  intro invitationId jobId k i tokenId t hnewest hinvitation hi hstatus ht hhash
  have hne : jobId ≠ id := by
    rintro rfl
    have hget := hnewest.job
    rw [Table.get_put_self] at hget
    cases hget
    exact hother hnewest.email
  have hk : db.jobs.get jobId = some k := by
    have hget := hnewest.job
    rwa [Table.get_put_ne _ _ hne] at hget
  refine hs.newest invitationId jobId k i tokenId t ⟨hk, hnewest.email, ?_⟩ hinvitation hi
    hstatus ht hhash
  intro id' k' hk' hsame hchannel
  have hne' : id' ≠ id := by
    rintro rfl
    rw [hnew] at hk'
    cases hk'
  exact hnewest.newest id' k' ((Table.get_put_ne _ _ hne').trans hk') hsame hchannel

theorem LinksSound.addToken (hs : LinksSound linkOf db) {id : Id}
    (hown : ∀ jobId, t.tokenHash ≠ linkOf jobId) (n : Id) :
    LinksSound linkOf { db with nextId := n, tokens := db.tokens.put id t } := by
  have hbefore {tokenId : Id} {t' : Token} {jobId : Id}
      (ht : (db.tokens.put id t).get tokenId = some t') (hhash : t'.tokenHash = linkOf jobId) :
      db.tokens.get tokenId = some t' := by
    rw [Table.get_put] at ht
    split at ht
    · cases ht
      exact absurd hhash (hown jobId)
    · exact ht
  refine ⟨⟨fun tokenId t' jobId ht hhash => ?_, hs.numbered, hs.given, hs.invited⟩, ?_⟩
  · exact hs.derived tokenId t' jobId (hbefore ht hhash) hhash
  · intro invitationId jobId k i tokenId t' hnewest hinvitation hi hstatus ht hhash
    exact hs.newest invitationId jobId k i tokenId t'
      ⟨hnewest.job, hnewest.email, hnewest.newest⟩ hinvitation hi hstatus (hbefore ht hhash) hhash

theorem LinksSound.addLink (hlink : Function.Injective linkOf) (hs : LinksSound linkOf db) {id : Id}
    (hj : db.jobs.get jobId = some j) (hemail : j.channel = .email)
    (hhash : t.tokenHash = linkOf jobId) (hfits : t.FitsJob j) (hunspent : t.unspent) (n : Id) :
    LinksSound linkOf { db with nextId := n, tokens := db.tokens.put id t } := by
  refine ⟨⟨fun tokenId t' jobId' ht hhash' => ?_, hs.numbered, hs.given, hs.invited⟩, ?_⟩
  · rw [Table.get_put] at ht
    split at ht
    · cases ht
      cases hlink (hhash.symm.trans hhash')
      exact ⟨j, hj, hemail, hfits⟩
    · exact hs.derived tokenId t' jobId' ht hhash'
  · intro invitationId jobId' k i tokenId t' hnewest hinvitation hi hstatus ht hhash'
    rw [Table.get_put] at ht
    split at ht
    · cases ht
      exact hunspent
    · exact hs.newest invitationId jobId' k i tokenId t'
        ⟨hnewest.job, hnewest.email, hnewest.newest⟩ hinvitation hi hstatus ht hhash'

theorem LinksSound.addInvitation (hs : LinksSound linkOf db) (hnew : db.invitations.get id = none)
    (i : Invitation) (n : Id) :
    LinksSound linkOf { db with nextId := n, invitations := db.invitations.put id i } := by
  have hother {jobId : Id} {j : Job} (hj : db.jobs.get jobId = some j) : j.invitationId ≠ id := by
    rintro rfl
    obtain ⟨i', hi', -⟩ := hs.invited jobId j hj
    rw [hnew] at hi'
    cases hi'
  refine ⟨⟨hs.derived, hs.numbered, hs.given, fun jobId j hj => ?_⟩, ?_⟩
  · obtain ⟨i', hi', hgeneration⟩ := hs.invited jobId j hj
    exact ⟨i', (Table.get_put_ne _ _ (hother hj)).trans hi', hgeneration⟩
  · intro invitationId jobId j i' tokenId t hnewest hinvitation hi hstatus ht hhash
    have hne : invitationId ≠ id := hinvitation ▸ hother hnewest.job
    rw [Table.get_put_ne _ _ hne] at hi
    exact hs.newest invitationId jobId j i' tokenId t
      ⟨hnewest.job, hnewest.email, hnewest.newest⟩ hinvitation hi hstatus ht hhash

end Additions

structure Grown (db db' : Db) : Prop where
  jobs : ∀ id j, db.jobs.get id = some j → ∃ j', db'.jobs.get id = some j' ∧ j.Same j'
  tokens : ∀ id t, db.tokens.get id = some t → ∃ t', db'.tokens.get id = some t' ∧ t.Same t'

structure KeepsLinks (linkOf : Id → String) (db db' : Db) : Prop where
  grown : Grown db db'
  sound : LinksSound linkOf db → LinksSound linkOf db'

section Functions
variable {linkOf : Id → String} {db db' db'' : Db} {now : Timestamp} {jobId : Id} {r : Unit × Db}
  {t : Token} {id : Id} {i : Invitation} {seats : Option Seats} {claimToken : Id}

theorem Job.Same.trans {j'' : Job} (h : j.Same j') (h' : j'.Same j'') : j.Same j'' :=
  ⟨h'.1.trans h.1, h'.2.1.trans h.2.1, h'.2.2.1.trans h.2.2.1, h'.2.2.2.trans h.2.2.2⟩

theorem Token.Same.trans {t'' : Token} (h : t.Same t') (h' : t'.Same t'') : t.Same t'' :=
  ⟨h'.1.trans h.1, h'.2.1.trans h.2.1, h'.2.2.1.trans h.2.2.1, h'.2.2.2.1.trans h.2.2.2.1,
    h'.2.2.2.2.trans h.2.2.2.2⟩

theorem Grown.refl (db : Db) : Grown db db :=
  ⟨fun _ j hj => ⟨j, hj, .refl j⟩, fun _ t ht => ⟨t, ht, .refl t⟩⟩

theorem Grown.trans (h : Grown db db') (h' : Grown db' db'') : Grown db db'' where
  jobs id j hj := by
    obtain ⟨j', hj', hsame⟩ := h.jobs id j hj
    obtain ⟨j'', hj'', hsame'⟩ := h'.jobs id j' hj'
    exact ⟨j'', hj'', hsame.trans hsame'⟩
  tokens id t ht := by
    obtain ⟨t', ht', hsame⟩ := h.tokens id t ht
    obtain ⟨t'', ht'', hsame'⟩ := h'.tokens id t' ht'
    exact ⟨t'', ht'', hsame.trans hsame'⟩

theorem Grown.linked (h : Grown db db') (hl : db.Linked linkOf jobId) :
    db'.Linked linkOf jobId := by
  obtain ⟨tokenId, t, ht, hhash⟩ := hl
  obtain ⟨t', ht', hsame⟩ := h.tokens tokenId t ht
  exact ⟨tokenId, t', ht', hsame.1.trans hhash⟩

theorem Reworked.grown (h : Reworked db db') : Grown db db' where
  jobs _ _ hj := h.job_of hj
  tokens id t ht := by
    obtain ⟨g, hg, hget⟩ := h.tokens
    exact ⟨g t, by rw [hget, ht]; rfl, hg t⟩

theorem grown_addJob (hnew : db.jobs.get id = none) (j : Job) (n : Id) :
    Grown db { db with nextId := n, jobs := db.jobs.put id j } where
  jobs k l hl := by
    have hne : k ≠ id := by
      rintro rfl
      rw [hnew] at hl
      cases hl
    exact ⟨l, (Table.get_put_ne _ _ hne).trans hl, .refl l⟩
  tokens _ t ht := ⟨t, ht, .refl t⟩

theorem grown_addToken (hnew : db.tokens.get id = none) (hjobs : db'.jobs = db.jobs)
    (htokens : db'.tokens = db.tokens.put id t) : Grown db db' where
  jobs _ j hj := ⟨j, by rwa [hjobs], .refl j⟩
  tokens k t' ht := by
    have hne : k ≠ id := by
      rintro rfl
      rw [hnew] at ht
      cases ht
    exact ⟨t', by rwa [htokens, Table.get_put_ne _ _ hne], .refl t'⟩

namespace KeepsLinks

theorem refl (db : Db) : KeepsLinks linkOf db db := ⟨.refl db, fun h => h⟩

theorem trans (h : KeepsLinks linkOf db db') (h' : KeepsLinks linkOf db' db'') :
    KeepsLinks linkOf db db'' := ⟨h.grown.trans h'.grown, fun hs => h'.sound (h.sound hs)⟩

theorem expireDue (db : Db) (now : Timestamp) (w : Id) :
    KeepsLinks linkOf db (db.expireDue now w) :=
  ⟨(reworked_expireDue db now w).grown, fun hs => hs.expireDue now w⟩

theorem jobs (f : Id → Job → Job) (hf : ∀ (id : Id) (j : Job), j.Same (f id j))
    (htokens : db'.tokens = db.tokens) (hinvitations : db'.invitations = db.invitations)
    (hjobs : ∀ id, db'.jobs.get id = (db.jobs.get id).map (f id)) : KeepsLinks linkOf db db' where
  grown := ⟨fun k j hj => ⟨f k j, by rw [hjobs, hj]; rfl, hf k j⟩,
    fun _ t ht => ⟨t, htokens ▸ ht, .refl t⟩⟩
  sound hs := hs.jobs f hf htokens hinvitations hjobs

theorem putJob {id : Id} (hj : db.jobs.get id = some j) (hsame : j.Same j') (n : Id) :
    KeepsLinks linkOf db { db with nextId := n, jobs := db.jobs.put id j' } := by
  have hf (k : Id) (l : Job) : l.Same (if k = id ∧ l = j then j' else l) := by
    split
    · rename_i h
      exact h.2 ▸ hsame
    · exact .refl l
  have hget (k : Id) : (db.jobs.put id j').get k =
      (db.jobs.get k).map fun l => if k = id ∧ l = j then j' else l := by
    rw [Table.get_put]
    split
    · rename_i hk
      simp [hk, hj]
    · rename_i hk
      simp [hk]
  exact jobs _ hf rfl rfl hget

theorem of_chain (h : Relation.ReflTransGen (KeepsLinks linkOf) db db') :
    KeepsLinks linkOf db db' := by
  induction h with
  | refl => exact .refl db
  | tail _ hstep ih => exact ih.trans hstep

end KeepsLinks

theorem insertToken_ok (h : insertToken t db = .ok r) : db.tokens.get db.nextId = none ∧
      r.2 = { db with nextId := db.nextId + 1, tokens := db.tokens.put db.nextId t } := by
  obtain ⟨_, _, hid, h⟩ := bind_ok.mp h
  cases genRandomUuid_ok hid
  rw [get_bind] at h
  obtain ⟨hnone, h⟩ := require_bind_ok.mp h
  obtain ⟨-, h⟩ := require_bind_ok.mp h
  obtain ⟨-, h⟩ := require_bind_ok.mp h
  cases set_ok.mp h
  exact ⟨Option.isNone_iff_eq_none.mp hnone, rfl⟩

theorem putInvitation_ok (h : putInvitation id i db = .ok r) :
    i.checked ∧ r.2 = { db with invitations := db.invitations.put id i } := by
  unfold putInvitation at h
  rw [get_bind] at h
  obtain ⟨hchecked, h⟩ := require_bind_ok.mp h
  obtain ⟨-, h⟩ := require_bind_ok.mp h
  cases set_ok.mp h
  exact ⟨hchecked, rfl⟩

theorem requireDepartments_ok {m : MemberType} {ids : List Id}
    (h : requireDepartments m ids db = .ok r) : r.2 = db := by
  obtain ⟨-, h⟩ := require_bind_ok.mp h
  obtain ⟨-, h⟩ := require_ok.mp h
  rw [h]

theorem wiAssertSeatAvailable_ok (h : wiAssertSeatAvailable w seats db = .ok r) :
    r.2 = db ∧ ∃ s, seats = some s ∧ ∀ limit ∈ s.limit, db.seatsUsed w s.locksEnabled < limit := by
  unfold wiAssertSeatAvailable at h
  rw [get_bind] at h
  cases seats with
  | none => exact (throw_ok.mp h).elim
  | some s =>
    obtain ⟨hall, h⟩ := require_ok.mp h
    rw [h]
    exact ⟨rfl, s, rfl, fun limit hlimit =>
      of_decide_eq_true ((Option.all_eq_true _ _).mp hall limit hlimit)⟩

theorem insertJobs_keeps {emailKey : String} {smsKey : Option String}
    (h : insertJobs now id i emailKey smsKey db = .ok r) (hi : db.invitations.get id = some i)
    (hnone : ∀ k j, db.jobs.get k = some j → j.invitationId ≠ id) : KeepsLinks linkOf db r.2 := by
  obtain ⟨_, t, hemail, h⟩ := bind_ok.mp h
  obtain ⟨hnew, ht⟩ := insertJob_ok hemail
  have hfirst : KeepsLinks linkOf db t := by
    subst ht
    refine ⟨grown_addJob hnew _ _, fun hs => ?_⟩
    have hnumber (k : Id) (j : Job) (hj : db.jobs.get k = some j) (hid : j.invitationId = id) :
        False := hnone k j hj hid
    exact ⟨hs.toLinksNumbered.addJob hnew hi rfl
      (fun _ k j hj hid _ => (hnumber k j hj hid).elim) (fun _ => rfl) _,
      hs.toLinksNumbered.addEmailJob (fun invitationId _ => hs.newest invitationId) hnew rfl
        (fun k j hj hid _ => (hnumber k j hj hid).elim) _⟩
  refine hfirst.trans ?_
  have hi' : t.invitations.get id = some i := by
    subst ht
    exact hi
  cases hphone : i.invitedPhoneE164 with
  | none =>
    rw [hphone] at h
    cases pure_ok.mp h
    exact .refl t
  | some phone =>
    cases smsKey with
    | none =>
      rw [hphone] at h
      exact (throw_ok.mp h).elim
    | some smsKey =>
      rw [hphone] at h
      obtain ⟨hnew', hr⟩ := insertJob_ok h
      rw [hr]
      exact ⟨grown_addJob hnew' _ _, fun hs =>
        hs.addOtherJob hnew' hi' rfl (show Channel.sms ≠ .email by decide) _⟩

theorem createWorkspaceInvitationV2_keeps {a : Create} {r : Result × Db}
    (hown : ∀ jobId, a.manualTokenHash ≠ linkOf jobId) (hs : LinksSound linkOf db)
    (h : createWorkspaceInvitationV2 now seats a db = .ok r) : KeepsLinks linkOf db r.2 := by
  unfold createWorkspaceInvitationV2 at h
  rw [get_bind] at h
  obtain ⟨-, h⟩ := require_bind_ok.mp h
  obtain ⟨-, h⟩ := require_bind_ok.mp h
  obtain ⟨_, t, hdepartments, h⟩ := bind_ok.mp h
  have ht : t = db := requireDepartments_ok hdepartments
  rw [ht, modify_bind, get_bind] at h
  obtain ⟨-, h⟩ := require_bind_ok.mp h
  obtain ⟨_, u, hseats, h⟩ := bind_ok.mp h
  have hu : u = db.expireDue now a.workspaceId := (wiAssertSeatAvailable_ok hseats).1
  rw [hu] at h
  obtain ⟨id, u, hid, h⟩ := bind_ok.mp h
  cases genRandomUuid_ok hid
  rw [get_bind] at h
  obtain ⟨hnew, h⟩ := require_bind_ok.mp h
  rw [Option.isNone_iff_eq_none] at hnew
  obtain ⟨_, u, hput, h⟩ := bind_ok.mp h
  obtain ⟨-, hu⟩ := putInvitation_ok hput
  obtain ⟨_, v, htoken, h⟩ := bind_ok.mp h
  obtain ⟨hfree, hv⟩ := insertToken_ok htoken
  have hexpired : KeepsLinks linkOf db (db.expireDue now a.workspaceId) := .expireDue db now _
  have hsound : LinksSound linkOf u := by
    subst hu
    exact (hexpired.sound hs).addInvitation hnew _ _
  -- there is no job of an invitation that was not there
  have hnone (k : Id) (j : Job) (hj : v.jobs.get k = some j) :
      j.invitationId ≠ (db.expireDue now a.workspaceId).nextId := by
    rintro hid
    subst hv hu
    obtain ⟨i, hi, -⟩ := (hexpired.sound hs).invited k j hj
    rw [hid, hnew] at hi
    cases hi
  have hkeeps : KeepsLinks linkOf db v := by
    refine ⟨hexpired.grown.trans ?_, fun _ => ?_⟩
    · subst hv hu
      exact grown_addToken hfree rfl rfl
    · subst hv
      exact hsound.addToken hown _
  refine hkeeps.trans ?_
  cases hkey : a.draft.emailJobIdempotencyKey with
  | none =>
    rw [hkey] at h
    exact (throw_ok.mp h).elim
  | some emailKey =>
    rw [hkey] at h
    obtain ⟨_, w, hjobs, h⟩ := bind_ok.mp h
    cases pure_ok.mp h
    refine insertJobs_keeps hjobs ?_ hnone
    subst hv hu
    exact Table.get_put_self _ _ _

theorem lockPending_ok {actorId : Id} {r : Invitation × Db}
    (h : lockPending now invitationId actorId db = .ok r) :
    (∃ w, r.2 = db.expireDue now w) ∧ r.2.invitations.get invitationId = some r.1 ∧
      r.1.flowVersion = 2 ∧ r.1.status = .pending ∧
      r.2.mayManage r.1.workspaceId actorId r.1.role := by
  unfold lockPending at h
  rw [get_bind] at h
  cases hi : db.invitations.get invitationId with
  | none =>
    rw [hi] at h
    exact (throw_ok.mp h).elim
  | some i =>
    rw [hi] at h
    dsimp only at h
    rw [modify_bind, get_bind] at h
    cases hi' : (db.expireDue now i.workspaceId).invitations.get invitationId with
    | none =>
      rw [hi'] at h
      exact (throw_ok.mp h).elim
    | some i' =>
      rw [hi'] at h
      obtain ⟨⟨hflow, hpending⟩, h⟩ := require_bind_ok.mp h
      obtain ⟨hmay, h⟩ := require_bind_ok.mp h
      cases pure_ok.mp h
      exact ⟨⟨_, rfl⟩, hi', hflow, hpending, hmay⟩

theorem lt_next (hs : LinksNumbered linkOf db) {k : Id} (hj : db.jobs.get k = some j)
    (hemail : j.channel = .email) :
    j.linkGeneration < (db.lastTokenGeneration j.invitationId).getD 1 + 1 := by
  obtain ⟨n, hn⟩ := Option.isSome_iff_exists.mp (hs.given k j hj hemail)
  unfold Db.lastTokenGeneration Job.linkGeneration
  rw [hn]
  generalize hnumbers : db.jobs.rows.filterMap _ = numbers
  have hmem : n ∈ numbers := by
    rw [← hnumbers, List.mem_filterMap]
    refine ⟨(k, j), Table.get_eq_some_iff_mem.mp hj, ?_⟩
    rw [if_pos ⟨rfl, hemail⟩, hn]
  cases hmax : numbers.max? with
  | none =>
    rw [List.max?_eq_none_iff] at hmax
    rw [hmax] at hmem
    cases hmem
  | some m =>
    have hle := (List.max?_eq_some_iff.mp hmax).2 n hmem
    simp only [Option.getD_some]
    omega

theorem reworked_revokeSecrets (db : Db) (now : Timestamp) (invitationId : Id)
    (generation : Option ℕ) (purpose : Option Purpose) :
    Reworked db (db.revokeSecrets now invitationId generation purpose) := by
  refine ⟨⟨fun _ j => _, fun id j => ?_, fun id => Table.get_mapValues _ _ id⟩,
    ⟨_, fun t => ?_, fun id => Table.get_mapValues _ _ id⟩,
    ⟨id, fun _ => rfl, fun k => ?_⟩⟩
  · dsimp only
    split <;> exact ⟨rfl, rfl, rfl, rfl⟩
  · split <;> exact ⟨rfl, rfl, rfl, rfl, rfl⟩
  · simp [Db.revokeSecrets]

theorem revokeSecrets_token {generation : Option ℕ} {purpose : Option Purpose}
    (ht : db.tokens.get tokenId = some t)
    (ht' : (db.revokeSecrets now invitationId generation purpose).tokens.get tokenId = some t')
    (hother : t.invitationId ≠ invitationId) : t' = t := by
  simp only [Db.revokeSecrets, Table.get_mapValues, ht, Option.map_some, Option.some.injEq] at ht'
  rw [← ht', if_neg fun h => hother h.1]

theorem resendInvitationEmailV2_keeps {a : Resend} {r : Result × Db}
    (h : resendInvitationEmailV2 now a db = .ok r) : KeepsLinks linkOf db r.2 := by
  obtain ⟨i, t, hlock, h⟩ := bind_ok.mp h
  obtain ⟨⟨w, ht⟩, hi, -, -, -⟩ := lockPending_ok hlock
  dsimp only at ht hi
  rw [get_bind, modify_bind] at h
  obtain ⟨_, u, hjob, h⟩ := bind_ok.mp h
  cases pure_ok.mp h
  have hexpired : KeepsLinks linkOf db t := ht ▸ .expireDue db now w
  refine hexpired.trans ?_
  have hrework : Reworked t (t.revokeSecrets now a.invitationId none (some .emailClaim)) :=
    reworked_revokeSecrets t now _ _ _
  obtain ⟨j, hjob, hinvitation, hgeneration, hemail, hnumber⟩ : ∃ j : Job,
      insertJob j (t.revokeSecrets now a.invitationId none (some .emailClaim)) = .ok (_, u) ∧
        j.invitationId = a.invitationId ∧ j.notificationGeneration = i.notificationGeneration ∧
        j.channel = .email ∧
        j.emailTokenGeneration = some ((t.lastTokenGeneration a.invitationId).getD 1 + 1) :=
    ⟨_, hjob, rfl, rfl, rfl, rfl⟩
  obtain ⟨hnew, hu⟩ := insertJob_ok hjob
  subst hu
  refine ⟨hrework.grown.trans (grown_addJob hnew _ _), fun hs => ?_⟩
  have hnumbered := hrework.numbered hs.toLinksNumbered
  have hlt (k : Id) (l : Job)
      (hl : (t.revokeSecrets now a.invitationId none (some .emailClaim)).jobs.get k = some l)
      (hid : l.invitationId = j.invitationId) (hemail : l.channel = .email) :
      l.linkGeneration < j.linkGeneration := by
    obtain ⟨l', hl', hsame⟩ := hrework.job hl
    have hlast := lt_next hs.toLinksNumbered hl' (hsame.2.1.symm.trans hemail)
    rw [← hsame.linkGeneration, ← hsame.1, hid, hinvitation] at hlast
    rwa [Job.linkGeneration.eq_1 j, hnumber]
  refine ⟨hnumbered.addJob hnew (hinvitation ▸ hi) hgeneration
    (fun _ k l hl hid hemail => hlt k l hl hid hemail) (fun _ => by rw [hnumber]; rfl) _,
    hnumbered.addEmailJob (fun invitationId hother => ?_) hnew hemail hlt _⟩
  refine hrework.newestUnspent hs.toLinksNumbered (hs.newest invitationId)
    (fun i' hi' hstatus => ⟨i', hi', hstatus⟩) fun _ _ _ _ _ _ _ _ _ hl hl' hid _ _ hunspent => ?_
  rw [revokeSecrets_token hl hl' (by rwa [hid, ← hinvitation])]
  exact hunspent

theorem claimInvitationJobs_madeOf {workerId : String} {jobIds : List Id} :
    Lib.Tx.MadeOf (KeepsLinks linkOf) (claimInvitationJobs now workerId leaseSeconds jobIds)
      db := by
  refine Lib.Tx.MadeOf.forM (fun jobId _ s => ?_) db
  refine .get_bind ?_
  cases hj : (s.jobs.get jobId).filter (·.due now) with
  | none => exact .pure _
  | some j =>
    intro r h
    obtain ⟨claimToken, t, hid, h⟩ := bind_ok.mp h
    cases genRandomUuid_ok hid
    cases modify_ok.mp h
    refine .single (.putJob (Option.filter_eq_some_iff.mp hj).1 ?_ _)
    exact ⟨rfl, rfl, rfl, rfl⟩

theorem reclaimExpiredInvitationJobs_keeps (h : reclaimExpiredInvitationJobs now db = .ok r) :
    KeepsLinks linkOf db r.2 := by
  cases modify_ok.mp h
  refine .jobs _ (fun id j => ?_) rfl rfl fun id => Table.get_mapValues _ _ id
  split <;> exact ⟨rfl, rfl, rfl, rfl⟩

theorem wiHeartbeatInvitationJob_keeps {r : Bool × Db}
    (h : wiHeartbeatInvitationJob now jobId claimToken leaseSeconds db = .ok r) :
    KeepsLinks linkOf db r.2 := by
  obtain ⟨-, h⟩ := require_bind_ok.mp h
  rw [get_bind] at h
  cases hj : (db.jobs.get jobId).filter (·.heldUnder now claimToken) with
  | none =>
    rw [hj] at h
    cases pure_ok.mp h
    exact .refl db
  | some j =>
    rw [hj] at h
    cases pure_ok.mp h
    refine .putJob (Option.filter_eq_some_iff.mp hj).1 ?_ _
    exact ⟨rfl, rfl, rfl, rfl⟩

theorem wiCompleteInvitationJob_keeps {outcome : JobOutcome} {retryInSeconds : Int} {r : Bool × Db}
    (h : wiCompleteInvitationJob now jobId claimToken outcome retryInSeconds db = .ok r) :
    KeepsLinks linkOf db r.2 := by
  unfold wiCompleteInvitationJob at h
  rw [get_bind] at h
  cases hj : db.jobs.get jobId with
  | none =>
    rw [hj] at h
    exact (throw_ok.mp h).elim
  | some j =>
    rw [hj] at h
    obtain ⟨-, h⟩ | ⟨-, h⟩ := ite_ok.mp h
    · cases pure_ok.mp h
      refine .putJob hj ?_ _
      exact ⟨rfl, rfl, rfl, rfl⟩
    · cases pure_ok.mp h
      exact .refl db

/-- The other links of the invitation are taken back, and the newest job's is not among them. -/
theorem revokeOthers_sound (now : Timestamp) (hs : LinksSound linkOf db)
    (hj : db.jobs.get jobId = some j) (hemail : j.channel = .email)
    (hcareful : ∀ t ∈ db.tokens.rows, t.2.invitationId = j.invitationId →
      t.2.purpose = .emailClaim → t.2.unspent → t.2.tokenGeneration ≤ j.linkGeneration)
    (htokens : db'.tokens = db.tokens.mapValues fun k =>
      if k.invitationId = j.invitationId ∧ k.purpose = .emailClaim ∧ k.unspent ∧
        k.tokenHash ≠ linkOf jobId then { k with revokedAt := some now } else k)
    (hjobs : db'.jobs = db.jobs) (hinvitations : db'.invitations = db.invitations) :
    Reworked db db' ∧ LinksSound linkOf db' := by
  have hrework : Reworked db db' := by
    refine ⟨⟨fun _ k => k, fun _ => .refl, fun k => ?_⟩,
      ⟨_, fun t => ?_, fun k => by rw [htokens, Table.get_mapValues]⟩,
      ⟨id, fun _ => rfl, fun k => ?_⟩⟩
    · simp [hjobs]
    · split <;> exact ⟨rfl, rfl, rfl, rfl, rfl⟩
    · simp [hinvitations]
  refine ⟨hrework, hrework.numbered hs.toLinksNumbered, fun invitationId =>
    hrework.newestUnspent hs.toLinksNumbered (hs.newest invitationId)
      (fun i' hi' hstatus => ⟨i', hinvitations ▸ hi', hstatus⟩)
      fun jobId' k id t t' i' hnewest hhash hfits ht ht' _ _ _ hunspent => ?_⟩
  rw [htokens, Table.get_mapValues, ht] at ht'
  cases ht'
  dsimp only
  rw [if_neg]
  · exact hunspent
  rintro ⟨hid, hpurpose, -, hne⟩
  have hle := hcareful (id, t) (Table.get_eq_some_iff_mem.mp ht) hid hpurpose hunspent
  rw [hfits.2.2.1] at hle
  have hge := hnewest.newest jobId j hj (hid.symm.trans hfits.1) hemail
  have hsame := hs.numbered jobId' jobId k j hnewest.job hj hnewest.email hemail
    (hfits.1.symm.trans hid) (by omega)
  rw [← hsame] at hne
  exact hne hhash

theorem prepareEmailToken_keeps (hlink : Function.Injective linkOf) (hs : LinksSound linkOf db)
    {t : EmailToken} (hj : db.jobs.get jobId = some j) (hemail : j.channel = .email)
    (hgeneration : j.notificationGeneration = i.notificationGeneration)
    (hcareful : ∀ t ∈ db.tokens.rows, t.2.invitationId = j.invitationId →
      t.2.purpose = .emailClaim → t.2.unspent → t.2.tokenGeneration ≤ j.linkGeneration)
    (hhash : t.tokenHash = linkOf jobId) (h : prepareEmailToken now j i t db = .ok r) :
    KeepsLinks linkOf db r.2 ∧ r.2.jobs = db.jobs ∧ r.2.Linked linkOf jobId := by
  unfold prepareEmailToken at h
  rw [modify_bind, get_bind] at h
  generalize hu : ({ db with tokens := db.tokens.mapValues _ } : Db) = u at h
  have hrevoked : Reworked db u ∧ LinksSound linkOf u := by
    refine revokeOthers_sound now hs hj hemail hcareful ?_ (by rw [← hu]) (by rw [← hu])
    rw [← hu, ← hhash]
  have hjobs : u.jobs = db.jobs := by rw [← hu]
  obtain ⟨-, h⟩ | ⟨hmade, h⟩ := ite_ok.mp h
  · obtain ⟨hfree, hr⟩ := insertToken_ok h
    rw [hr]
    refine ⟨⟨hrevoked.1.grown.trans (grown_addToken hfree rfl rfl), fun _ => ?_⟩, hjobs,
      ⟨u.nextId, _, Table.get_put_self _ _ _, hhash⟩⟩
    refine hrevoked.2.addLink hlink (hjobs ▸ hj) hemail hhash ?_ rfl _
    exact ⟨rfl, rfl, rfl, hgeneration.symm⟩
  · cases pure_ok.mp h
    refine ⟨⟨hrevoked.1.grown, fun _ => hrevoked.2⟩, hjobs, ?_⟩
    simp only [List.all_eq_true, decide_eq_true_eq, not_forall, not_not] at hmade
    obtain ⟨k, hk, heq⟩ := hmade
    exact ⟨k.1, k.2, Table.get_eq_some_iff_mem.mpr hk, heq.trans hhash⟩

theorem prepareJob_keeps (hlink : Function.Injective linkOf) (hs : LinksSound linkOf db)
    {tokenExpiresAt : Timestamp} {r : Bool × Db}
    (hcareful : ∀ j ∈ db.jobs.get jobId, j.heldUnder now claimToken → ∀ t ∈ db.tokens.rows,
      t.2.invitationId = j.invitationId → t.2.purpose = .emailClaim → t.2.unspent →
      t.2.tokenGeneration ≤ j.linkGeneration)
    (h : prepareJob linkOf now jobId claimToken tokenExpiresAt db = .ok r) :
    KeepsLinks linkOf db r.2 ∧ (r.1 = true → ∃ j, r.2.jobs.get jobId = some j ∧
      (j.channel = .email → r.2.Linked linkOf jobId)) := by
  unfold prepareJob wiPrepareInvitationJob at h
  rw [get_bind] at h
  cases hj : db.jobs.get jobId with
  | none =>
    rw [hj] at h
    exact (throw_ok.mp h).elim
  | some j =>
    rw [hj] at h
    obtain ⟨hheld, h⟩ := require_bind_ok.mp h
    cases hi : (db.invitations.get j.invitationId).filter fun i =>
        i.status = .pending && i.flowVersion = 2 &&
          j.notificationGeneration = i.notificationGeneration with
    | none =>
      rw [hi] at h
      cases pure_ok.mp h
      refine ⟨.putJob hj ?_ _, nofun⟩
      exact ⟨rfl, rfl, rfl, rfl⟩
    | some i =>
      rw [hi] at h
      obtain ⟨hi, hcurrent⟩ := Option.filter_eq_some_iff.mp hi
      simp only [Bool.and_eq_true, decide_eq_true_eq] at hcurrent
      obtain ⟨hemail, h⟩ | ⟨hother, h⟩ := ite_ok.mp h
      · obtain ⟨_, u, hprepare, h⟩ := bind_ok.mp h
        cases pure_ok.mp h
        obtain ⟨hkeeps, hjobs, hlinked⟩ := prepareEmailToken_keeps hlink hs hj hemail hcurrent.2
          (hcareful j hj hheld) rfl hprepare
        exact ⟨hkeeps, fun _ => ⟨j, hjobs ▸ hj, fun _ => hlinked⟩⟩
      · cases pure_ok.mp h
        exact ⟨.refl db, fun _ => ⟨j, hj, fun h => absurd h hother⟩⟩

theorem keepsLinks_commit {α : Type} {m : InvitationTx α}
    (h : ∀ r, m db = .ok r → KeepsLinks linkOf db r.2) :
    KeepsLinks linkOf db (Lib.Tx.commit m db) := by
  unfold Lib.Tx.commit
  cases hm : m db with
  | error e => exact .refl db
  | ok r => exact h r hm

end Functions

section Runs
variable {linkOf : Id → String} {s : Mailing}

def Db.Prepared (linkOf : Id → String) (db : Db) (jobId : Id) : Prop :=
  ∃ j, db.jobs.get jobId = some j ∧ (j.channel = .email → db.Linked linkOf jobId)

structure MailingSound (linkOf : Id → String) (s : Mailing) : Prop where
  links : LinksSound linkOf s.db
  prepared : ∀ r ∈ s.prepared, s.db.Prepared linkOf r.1
  sendable : ∀ r ∈ s.sendable, s.db.Prepared linkOf r.1
  accepted : ∀ jobId ∈ s.accepted, s.db.Prepared linkOf jobId

theorem Grown.prepared {db db' : Db} (h : Grown db db') (hp : db.Prepared linkOf jobId)
    : db'.Prepared linkOf jobId := by
  obtain ⟨j, hj, hlinked⟩ := hp
  obtain ⟨j', hj', hsame⟩ := h.jobs jobId j hj
  exact ⟨j', hj', fun hemail => h.linked (hlinked (hsame.2.1.symm.trans hemail))⟩

theorem MailingSound.db (hs : MailingSound linkOf s) {db : Db} (h : KeepsLinks linkOf s.db db) :
    MailingSound linkOf { s with db } where
  links := h.sound hs.links
  prepared r hr := h.grown.prepared (hs.prepared r hr)
  sendable r hr := h.grown.prepared (hs.sendable r hr)
  accepted k hk := h.grown.prepared (hs.accepted k hk)

theorem MailingSound.newestLive (hs : MailingSound linkOf s) : s.NewestLive linkOf := by
  intro jobId j i hnewest haccepted hi hpending
  obtain ⟨k, hk, hlinked⟩ := hs.accepted jobId haccepted
  obtain ⟨tokenId, t, ht, hhash⟩ := by
    rw [hnewest.job] at hk
    cases hk
    exact hlinked hnewest.email
  obtain ⟨l, hl, -, hinvitation, hpurpose, -, hgeneration⟩ :=
    hs.links.derived tokenId t jobId ht hhash
  rw [hnewest.job] at hl
  cases hl
  obtain ⟨i', hi', hcurrent⟩ := hs.links.invited jobId j hnewest.job
  rw [hi] at hi'
  cases hi'
  exact ⟨tokenId, t, ht, hhash, hinvitation, hpurpose,
    hs.links.newest j.invitationId jobId j i tokenId t hnewest rfl hi hpending ht hhash,
    hgeneration.trans hcurrent⟩

theorem mailingSound_step (hlink : Function.Injective linkOf) {e : MailEvent}
    (hs : MailingSound linkOf s) (hown : e.OwnLinks linkOf) (hcareful : s.Careful e) :
    MailingSound linkOf (s.step linkOf e) := by
  cases e with
  | create now seats a =>
    exact hs.db (keepsLinks_commit fun _ => createWorkspaceInvitationV2_keeps hown hs.links)
  | resend now a => exact hs.db (keepsLinks_commit fun _ => resendInvitationEmailV2_keeps)
  | claim now workerId leaseSeconds jobIds =>
    exact hs.db (keepsLinks_commit fun r h => .of_chain (claimInvitationJobs_madeOf r h))
  | reclaim now => exact hs.db (keepsLinks_commit fun _ => reclaimExpiredInvitationJobs_keeps)
  | heartbeat now jobId claimToken leaseSeconds =>
    exact hs.db (keepsLinks_commit fun _ => wiHeartbeatInvitationJob_keeps)
  | complete now jobId claimToken outcome retryInSeconds =>
    exact hs.db (keepsLinks_commit fun _ => wiCompleteInvitationJob_keeps)
  | prepare now jobId claimToken tokenExpiresAt =>
    dsimp only [Mailing.step]
    cases h : prepareJob linkOf now jobId claimToken tokenExpiresAt s.db with
    | error e => exact hs
    | ok r =>
      obtain ⟨told, db⟩ := r
      obtain ⟨hkeeps, hprepared⟩ := prepareJob_keeps hlink hs.links hcareful h
      have hdb := hs.db hkeeps
      cases told with
      | false => exact hdb
      | true =>
        refine ⟨hdb.links, fun r hr => ?_, hdb.sendable, hdb.accepted⟩
        obtain rfl | hr := List.mem_cons.mp hr
        · exact hprepared rfl
        · exact hdb.prepared r hr
  | preflight now jobId claimToken =>
    dsimp only [Mailing.step]
    split
    · rename_i h
      refine ⟨hs.links, hs.prepared, fun r hr => ?_, hs.accepted⟩
      obtain rfl | hr := List.mem_cons.mp hr
      · exact hs.prepared _ (List.contains_iff_mem.mp h.1)
      · exact hs.sendable r hr
    · exact hs
  | accept jobId claimToken =>
    dsimp only [Mailing.step]
    split
    · rename_i h
      refine ⟨hs.links, hs.prepared, hs.sendable, fun k hk => ?_⟩
      obtain rfl | hk := List.mem_cons.mp hk
      · exact hs.sendable _ (List.contains_iff_mem.mp h)
      · exact hs.accepted k hk
    · exact hs

def Db.NoInvitations (db : Db) : Prop :=
  db.invitations = .empty ∧ db.tokens = .empty ∧ db.jobs = .empty

theorem mailingSound_start {db : Db} (h : db.NoInvitations) : MailingSound linkOf { db } where
  links := by
    obtain ⟨-, htokens, hjobs⟩ := h
    have hnoJob {k : Id} {j : Job} : db.jobs.get k ≠ some j := by
      rw [hjobs, Table.get_empty]
      exact nofun
    have hnoToken {k : Id} {t : Token} : db.tokens.get k ≠ some t := by
      rw [htokens, Table.get_empty]
      exact nofun
    exact ⟨⟨fun _ _ _ ht _ => absurd ht hnoToken, fun _ _ _ _ hj => absurd hj hnoJob,
      fun _ _ hj => absurd hj hnoJob, fun _ _ hj => absurd hj hnoJob⟩,
      fun _ _ _ _ _ _ hnewest => absurd hnewest.job hnoJob⟩
  prepared := nofun
  sendable := nofun
  accepted := nofun

/-- Where no job is prepared while the link of a newer one is live, the newest mail that the
provider has accepted carries a live link, for as long as the invitation is pending. -/
theorem newestLink_live (hlink : Function.Injective linkOf) {db : Db} (hnone : db.NoInvitations)
    {es : List MailEvent} (hown : ∀ e ∈ es, e.OwnLinks linkOf)
    (hcareful : Meets (Mailing.step linkOf) Mailing.Careful { db } es) :
    (run (Mailing.step linkOf) { db } es).NewestLive linkOf := by
  have hsound : MailingSound linkOf (run (Mailing.step linkOf) { db } es) :=
    Lib.run_keeps (I := MailingSound linkOf)
      (fun s e hs hC => mailingSound_step hlink hs hC.1 hC.2) (mailingSound_start hnone)
      ((Lib.meets_of_forall hown _).and hcareful)
  exact hsound.newestLive

end Runs

def mailingWorkspace : Db where
  nextId := 10
  workspaces := Table.empty.put 0 5
  members := Table.empty.put (0, 5) { role := .owner }

def inviteAda : MailEvent :=
  .create 0 (some { limit := none, locksEnabled := true }) {
    workspaceId := 0, actorId := 5
    draft := {
      firstName := "Ada", lastName := "Byron", emailNormalized := "ada@example.com"
      memberType := .customerFacing, role := .agent, expiresAt := 9000000000
      departmentIds := [1], emailJobIdempotencyKey := some "email:1" }
    manualTokenHash := "manual", manualTokenExpiresAt := 9000000000 }

def resent : List MailEvent :=
  [inviteAda, .claim 1 "first" 300 [12],
    .resend 2 { invitationId := 10, actorId := 5, jobIdempotencyKey := "email:2" },
    .claim 3 "second" 300 [14], .prepare 4 14 15 9000000000, .preflight 5 14 15, .accept 14 15,
    .complete 6 14 15 .providerAccepted 0]

def overtaken : List MailEvent := resent ++ [.prepare 7 12 13 9000000000]

theorem resent_ownLinks : ∀ e ∈ resent, e.OwnLinks unaryText := by
  intro e he
  simp only [resent, List.mem_cons, List.not_mem_nil, or_false] at he
  obtain rfl | rfl | rfl | rfl | rfl | rfl | rfl | rfl := he <;> try trivial
  intro jobId h
  have hmem : 'm' ∈ (unaryText jobId).toList := h ▸ (by decide : 'm' ∈ "manual".toList)
  rw [unaryText, String.toList_ofList] at hmem
  exact absurd (List.eq_of_mem_replicate hmem) (by decide)

theorem overtaken_newestLive :
    ¬(run (Mailing.step unaryText) { db := mailingWorkspace } overtaken).NewestLive unaryText := by
  intro h
  generalize hs : run (Mailing.step unaryText) { db := mailingWorkspace } overtaken = s at h
  have hj : ∃ j, s.db.jobs.get 14 = some j ∧ j.channel = .email ∧ j.invitationId = 10 ∧
      ∀ r ∈ s.db.jobs.rows, r.2.linkGeneration ≤ j.linkGeneration := by
    have hsome : (s.db.jobs.get 14).any fun j => j.channel = .email ∧ j.invitationId = 10 ∧
        ∀ r ∈ s.db.jobs.rows, r.2.linkGeneration ≤ j.linkGeneration := by
      rw [← hs]
      decide +kernel
    simpa [Option.any_eq_true] using hsome
  have hi : ∃ i, s.db.invitations.get 10 = some i ∧ i.status = .pending := by
    have hsome : (s.db.invitations.get 10).any (·.status = .pending) := by
      rw [← hs]
      decide +kernel
    simpa [Option.any_eq_true] using hsome
  have hdead : ∀ r ∈ s.db.tokens.rows, r.2.tokenHash = unaryText 14 → ¬r.2.unspent := by
    rw [← hs]
    decide +kernel
  obtain ⟨j, hj, hemail, hid, hmax⟩ := hj
  obtain ⟨i, hi, hpending⟩ := hi
  have hnewest : s.db.NewestJob 14 j := ⟨hj, hemail, fun k l hl _ _ =>
    hmax (k, l) (Table.get_eq_some_iff_mem.mp hl)⟩
  have haccepted : 14 ∈ s.accepted := by
    rw [← hs]
    decide +kernel
  obtain ⟨tokenId, t, ht, hhash, -, -, hunspent, -⟩ :=
    h 14 j i hnewest haccepted (hid ▸ hi) hpending
  exact hdead (tokenId, t) (Table.get_eq_some_iff_mem.mp ht) hhash hunspent

theorem resent_newestLive :
    (run (Mailing.step unaryText) { db := mailingWorkspace } resent).NewestLive unaryText :=
  newestLink_live unaryText_injective ⟨rfl, rfl, rfl⟩
    resent_ownLinks (by decide +kernel)

end Kindred.Invitations
