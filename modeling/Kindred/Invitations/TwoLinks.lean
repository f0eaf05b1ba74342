import Kindred.Invitations.Links

/-! What a resend of the e-mail link does to the manual link, and a rotation of the manual link to
the e-mail link. -/

namespace Kindred.Invitations
open Lib (Table run Meets)
open Lib.Tx (bind_ok pure_ok get_bind modify_bind)

def Spared {α : Type} (live : α → Prop) (t t' : Table Id α) : Prop :=
  ∀ id a, t.get id = some a → live a → t'.get id = some a

theorem spared_iff {α : Type} {live : α → Prop} {t t' : Table Id α}
    (hkilled : ∀ id a, t.get id = some a → live a → t'.get id ≠ some a) :
    Spared live t t' ↔ ∀ r ∈ t.rows, ¬live r.2 := by
  constructor
  · intro h r hr hlive
    have hget := Table.get_eq_some_iff_mem.mpr hr
    exact hkilled r.1 r.2 hget hlive (h r.1 r.2 hget hlive)
  · intro h id a hget hlive
    exact absurd hlive (h (id, a) (Table.get_eq_some_iff_mem.mp hget))

variable {db db' : Db} {j : Job} {r : Result × Db}

section Live
variable (now : Timestamp) (id : Id) (p : Purpose)

def Token.Live (t : Token) : Prop := t.invitationId = id ∧ t.purpose = p ∧ t.unspent

def Otp.Live (o : Otp) : Prop :=
  p = .manualHandoff ∧ o.invitationId = id ∧ o.unspent ∧ now < o.expiresAt ∧
    o.attempts < o.maxAttempts

def Proof.Live (q : Proof) : Prop :=
  p = .manualHandoff ∧ q.invitationId = id ∧ q.unspent ∧ now < q.expiresAt

def Context.Live (c : Context) : Prop :=
  c.invitationId = id ∧ c.purpose = p ∧ c.unspent ∧ now < c.expiresAt

def Job.Owed (j : Job) : Prop :=
  j.invitationId = id ∧ j.status.unclaimed ∧ (j.channel = .email ↔ p = .emailClaim)

/-- All that is alive of the link stays as it was. -/
structure Db.Spares (db db' : Db) : Prop where
  tokens : Spared (Token.Live id p) db.tokens db'.tokens
  otps : Spared (Otp.Live now id p) db.otps db'.otps
  proofs : Spared (Proof.Live now id p) db.proofs db'.proofs
  contexts : Spared (Context.Live now id p) db.contexts db'.contexts
  jobs : Spared (Job.Owed id p) db.jobs db'.jobs

def Db.Idle (db : Db) : Prop :=
  (∀ r ∈ db.otps.rows, ¬Otp.Live now id p r.2) ∧ (∀ r ∈ db.proofs.rows, ¬Proof.Live now id p r.2) ∧
    (∀ r ∈ db.contexts.rows, ¬Context.Live now id p r.2) ∧ ∀ r ∈ db.jobs.rows, ¬Job.Owed id p r.2

instance (j : Job) : Decidable (j.Owed id p) := by
  unfold Job.Owed
  infer_instance

instance (db : Db) : Decidable (db.Idle now id p) := by
  unfold Db.Idle Otp.Live Proof.Live Context.Live
  infer_instance

structure Db.Kills (db db' : Db) : Prop where
  tokens : Spared (Token.Live id p) db.tokens db'.tokens
  otps : ∀ k o, db.otps.get k = some o → o.Live now id p → db'.otps.get k ≠ some o
  proofs : ∀ k q, db.proofs.get k = some q → q.Live now id p → db'.proofs.get k ≠ some q
  contexts : ∀ k c, db.contexts.get k = some c → c.Live now id p → db'.contexts.get k ≠ some c
  jobs : ∀ k j, db.jobs.get k = some j → j.Owed id p → ∃ j', db'.jobs.get k = some j' ∧ j' ≠ j

variable {now id p}

theorem Db.Kills.spares_iff (h : db.Kills now id p db') :
    db.Spares now id p db' ↔ db.Idle now id p := by
  have hjobs : Spared (Job.Owed id p) db.jobs db'.jobs ↔
      ∀ r ∈ db.jobs.rows, ¬Job.Owed id p r.2 := by
    refine spared_iff fun k j hj howed heq => ?_
    obtain ⟨j', hj', hne⟩ := h.jobs k j hj howed
    exact hne (Option.some.inj (hj'.symm.trans heq))
  constructor
  · intro hs
    exact ⟨(spared_iff h.otps).mp hs.otps, (spared_iff h.proofs).mp hs.proofs,
      (spared_iff h.contexts).mp hs.contexts, hjobs.mp hs.jobs⟩
  · intro ⟨hotps, hproofs, hcontexts, hidle⟩
    exact ⟨h.tokens, (spared_iff h.otps).mpr hotps, (spared_iff h.proofs).mpr hproofs,
      (spared_iff h.contexts).mpr hcontexts, hjobs.mpr hidle⟩

end Live

inductive LinkCall where
  | resend (now : Timestamp) (a : Resend)
  | rotate (now : Timestamp) (a : Rotate)

def LinkCall.perform : LinkCall → InvitationTx Result
  | .resend now a => resendInvitationEmailV2 now a
  | .rotate now a => rotateManualLinkV2 now a

def LinkCall.ofOther {β : Type} (f : Timestamp → Id → Purpose → β) : LinkCall → β
  | .resend now a => f now a.invitationId .manualHandoff
  | .rotate now a => f now a.invitationId .emailClaim

def LinkCall.step (db : Db) (c : LinkCall) : Db := Lib.Tx.commit c.perform db

def LinkCall.Spares (c : LinkCall) (db db' : Db) : Prop :=
  c.ofOther fun now id p => db.Spares now id p db'

def LinkCall.OtherIdle (db : Db) (c : LinkCall) : Prop :=
  c.ofOther fun now id p => db.Idle now id p

instance (db : Db) (c : LinkCall) : Decidable (c.OtherIdle db) := by
  cases c <;> exact inferInstanceAs (Decidable (db.Idle _ _ _))

variable {c : LinkCall}

section Calls
variable {db db' : Db} {now : Timestamp} {id k : Id} {p : Purpose}

theorem expireDue_jobs_get {w : Id} (hj : db.jobs.get k = some j) :
    (db.expireDue now w).jobs.get k = some j ∨
      (db.expireDue now w).jobs.get k = some { j with status := .cancelled } := by
  simp only [Db.expireDue, Table.get_mapValues, hj, Option.map_some]
  split
  · exact .inr rfl
  · exact .inl rfl

/-- The secrets go whatever their purpose, the tokens only where it is the one that is named. -/
theorem revokeSecrets_kills {purpose : Purpose} (hne : p ≠ purpose) {w : Id} {i : Invitation}
    (hi : (db.expireDue now w).invitations.get id = some i) (hpending : i.status = .pending) :
    db.Kills now id p ((db.expireDue now w).revokeSecrets now id none (some purpose)) where
  tokens k t ht := by
    rintro ⟨hid, hpurpose, -⟩
    have hmid : ∃ t', (db.expireDue now w).tokens.get k = some t' := by
      simp [Db.expireDue, ht]
    obtain ⟨t', ht'⟩ := hmid
    have hkept := expireDue_token (hid ▸ hi) hpending ht ht'
    subst hkept
    rw [Db.revokeSecrets, Table.get_mapValues, ht', Option.map_some, if_neg]
    rintro ⟨-, -, -, h⟩
    simp only [Option.all_some, decide_eq_true_eq] at h
    exact hne (hpurpose.symm.trans h.symm)
  otps k o ho := by
    rintro ⟨-, hid, hunspent, -⟩ h
    have hget : (db.expireDue now w).otps.get k = some o := ho
    rw [Db.revokeSecrets, Table.get_mapValues, hget, Option.map_some,
      if_pos ⟨hid, hunspent, rfl⟩, Option.some.injEq] at h
    rw [← h] at hunspent
    simp [Otp.unspent] at hunspent
  proofs k q hq := by
    rintro ⟨-, hid, hunspent, -⟩ h
    have hget : (db.expireDue now w).proofs.get k = some q := hq
    rw [Db.revokeSecrets, Table.get_mapValues, hget, Option.map_some,
      if_pos ⟨hid, hunspent, rfl⟩, Option.some.injEq] at h
    rw [← h] at hunspent
    simp [Proof.unspent] at hunspent
  contexts k c hc := by
    rintro ⟨hid, -, hunspent, -⟩ h
    have hget : (db.expireDue now w).contexts.get k = some c := hc
    rw [Db.revokeSecrets, Table.get_mapValues, hget, Option.map_some,
      if_pos ⟨hid, hunspent, rfl⟩, Option.some.injEq] at h
    rw [← h] at hunspent
    simp [Context.unspent] at hunspent
  jobs k j hj := by
    rintro ⟨hid, hunclaimed, -⟩
    refine ⟨{ j with status := .cancelled }, ?_, fun h => ?_⟩
    · rw [Db.revokeSecrets, Table.get_mapValues]
      obtain hmid | hmid : (db.expireDue now w).jobs.get k = some j ∨ _ := expireDue_jobs_get hj
      · rw [hmid, Option.map_some, if_pos ⟨hid, hunclaimed, rfl⟩]
      · rw [hmid, Option.map_some, if_neg (by simp [JobStatus.unclaimed])]
    · rw [← h] at hunclaimed
      simp [JobStatus.unclaimed] at hunclaimed

theorem Db.Kills.retireManual (h : db.Kills now id .emailClaim db') (invitationId : Id) :
    db.Kills now id .emailClaim (db'.retireManual now invitationId) where
  tokens := h.tokens
  otps _ _ _ hlive := absurd hlive.1 nofun
  proofs _ _ _ hlive := absurd hlive.1 nofun
  contexts k c hc hlive heq := by
    rw [Db.retireManual, Table.get_mapValues, Option.map_eq_some_iff] at heq
    obtain ⟨c', hc', heq⟩ := heq
    split at heq
    · rename_i hmanual
      rw [← heq] at hlive
      exact absurd (hmanual.2.2.symm.trans hlive.2.1) nofun
    · exact h.contexts k c hc hlive (heq ▸ hc')
  jobs := h.jobs

theorem Db.Kills.insertToken (h : db.Kills now id p db') {t : Token} {r : Unit × Db}
    (hinsert : Invitations.insertToken t db' = .ok r) : db.Kills now id p r.2 := by
  obtain ⟨hfree, hr⟩ := insertToken_ok hinsert
  rw [hr]
  refine ⟨fun k t ht hlive => ?_, h.otps, h.proofs, h.contexts, h.jobs⟩
  have hkept := h.tokens k t ht hlive
  have hne : k ≠ db'.nextId := by
    rintro rfl
    rw [hfree] at hkept
    cases hkept
  exact (Table.get_put_ne _ _ hne).trans hkept

theorem Db.Kills.insertJob (h : db.Kills now id p db') {r : Unit × Db}
    (hinsert : Invitations.insertJob j db' = .ok r) : db.Kills now id p r.2 := by
  obtain ⟨hfree, hr⟩ := insertJob_ok hinsert
  rw [hr]
  refine ⟨h.tokens, h.otps, h.proofs, h.contexts, fun k j hj howed => ?_⟩
  obtain ⟨j', hj', hne⟩ := h.jobs k j hj howed
  have hother : k ≠ db'.nextId := by
    rintro rfl
    rw [hfree] at hj'
    cases hj'
  exact ⟨j', (Table.get_put_ne _ _ hother).trans hj', hne⟩

theorem resendInvitationEmailV2_kills {a : Resend} (h : resendInvitationEmailV2 now a db = .ok r) :
    db.Kills now a.invitationId .manualHandoff r.2 := by
  obtain ⟨i, t, hlock, h⟩ := bind_ok.mp h
  obtain ⟨⟨w, ht⟩, hi, -, hpending, -⟩ := lockPending_ok hlock
  subst ht
  rw [get_bind, modify_bind] at h
  obtain ⟨_, u, hjob, h⟩ := bind_ok.mp h
  cases pure_ok.mp h
  exact (revokeSecrets_kills (show Purpose.manualHandoff ≠ .emailClaim by decide) hi
    hpending).insertJob hjob

theorem rotateManualLinkV2_kills {a : Rotate} (h : rotateManualLinkV2 now a db = .ok r)
    : db.Kills now a.invitationId .emailClaim r.2 := by
  obtain ⟨i, t, hlock, h⟩ := bind_ok.mp h
  obtain ⟨⟨w, ht⟩, hi, -, hpending, -⟩ := lockPending_ok hlock
  subst ht
  rw [get_bind, modify_bind, modify_bind] at h
  obtain ⟨_, u, htoken, h⟩ := bind_ok.mp h
  cases pure_ok.mp h
  exact ((revokeSecrets_kills (show Purpose.emailClaim ≠ .manualHandoff by decide) hi
    hpending).retireManual _).insertToken htoken

theorem linkCall_spares_iff (h : c.perform db = .ok r) : c.Spares db r.2 ↔ c.OtherIdle db := by
  cases c with
  | resend now a => exact (resendInvitationEmailV2_kills h).spares_iff
  | rotate now a => exact (rotateManualLinkV2_kills h).spares_iff

/-- A call that fails leaves everything as it was. -/
theorem linkCall_step_spares (hidle : c.OtherIdle db) : c.Spares db (LinkCall.step db c) := by
  unfold LinkCall.step Lib.Tx.commit
  cases h : c.perform db with
  | ok r => exact (linkCall_spares_iff h).mpr hidle
  | error e => cases c <;> exact ⟨fun _ _ h _ => h, fun _ _ h _ => h, fun _ _ h _ => h,
      fun _ _ h _ => h, fun _ _ h _ => h⟩

end Calls

/-- A call that goes through leaves the other link alone where nothing but its token is alive and no
message of it is owed, and only there; and so does each call of a run. -/
theorem links_independent_iff (db : Db) :
    (∀ c r, LinkCall.perform c db = .ok r → (c.Spares db r.2 ↔ c.OtherIdle db)) ∧
      ∀ cs, Meets LinkCall.step (fun db c => c.OtherIdle db) db cs →
        Meets LinkCall.step (fun db c => c.Spares db (LinkCall.step db c)) db cs := by
  refine ⟨fun c r h => linkCall_spares_iff h, fun cs h => ?_⟩
  induction cs generalizing db with
  | nil => trivial
  | cons c cs ih => exact ⟨linkCall_step_spares h.1, ih _ h.2⟩

def resendAda : LinkCall :=
  .resend 1 { invitationId := 10, actorId := 5, jobIdempotencyKey := "email:2" }

/-- Nobody has asked for a code or signs in, and there is no phone number. -/
theorem resendAda_spares :
    Meets LinkCall.step (fun db c => c.Spares db (LinkCall.step db c))
      (Mailing.step unaryText { db := mailingWorkspace } inviteAda).db [resendAda] :=
  (links_independent_iff _).2 _ (by decide +kernel)

def owing : Db :=
  Lib.Tx.commit (createWorkspaceInvitationV2 0 (some { limit := none, locksEnabled := true }) {
    workspaceId := 0, actorId := 5
    draft := {
      firstName := "Ada", lastName := "Byron", emailNormalized := "ada@example.com"
      phoneE164 := some "+989121234567", memberType := .customerFacing, role := .agent
      expiresAt := 9000000000, departmentIds := [1], emailJobIdempotencyKey := some "email:1"
      smsJobIdempotencyKey := some "sms:1" }
    manualTokenHash := "manual", manualTokenExpiresAt := 9000000000 }) mailingWorkspace

def rotateAda : LinkCall :=
  .rotate 1 {
    invitationId := 10, actorId := 5, tokenHash := "rotated", tokenExpiresAt := 9000000000 }

theorem not_spares {now : Timestamp} {id k : Id} {p : Purpose}
    (h : (db.jobs.get k).any fun j => decide (j.Owed id p) && decide (db'.jobs.get k ≠ some j)) :
    ¬db.Spares now id p db' := by
  intro hspares
  cases hj : db.jobs.get k with
  | none =>
    rw [hj] at h
    cases h
  | some j =>
    rw [hj, Option.any_some, Bool.and_eq_true, decide_eq_true_eq, decide_eq_true_eq] at h
    exact h.2 (hspares.jobs k j hj h.1)

/-- The resend cancels the SMS, the rotation the e-mail. -/
theorem owing_stopped :
    ¬resendAda.Spares owing (LinkCall.step owing resendAda) ∧
      ¬rotateAda.Spares owing (LinkCall.step owing rotateAda) :=
  ⟨not_spares (k := 13) (by decide +kernel), not_spares (k := 12) (by decide +kernel)⟩

end Kindred.Invitations
