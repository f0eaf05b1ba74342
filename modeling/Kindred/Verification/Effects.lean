import Kindred.Verification.Functions

/-! What each function does, as far as the proofs go. -/

namespace Kindred.Verification
open Lib (Table)
open Lib.Tx

variable {db : Db} {c : Challenge} {id : Id} {now : Timestamp} {created : Created} {db' : Db}
  {op : Operation} {args : Except Err DeliveryArgs} {a : CodeArgs} {v : Verdict} {α : Type}
  {t : Table Id Challenge} {f : Challenge → Challenge} {key : String} {k : Keyed}
  {hash : Option String}

variable {x : Except Err α} {r : NewChallenge} {p : Proof} {s : Claimed}

theorem liftM_ok {r : α × Db} :
    (liftM x : VerificationTx α) db = .ok r ↔ x = .ok r.1 ∧ db = r.2 := by
  obtain ⟨a, db'⟩ := r
  cases x with
  | error e => exact ⟨fun h => (by cases h), fun h => (by cases h.1)⟩
  | ok b =>
    constructor
    · intro h
      cases h
      exact ⟨rfl, rfl⟩
    · rintro ⟨h, rfl⟩
      cases h
      rfl

theorem except_bind_ok {β : Type} {f : α → Except Err β} {r : β} :
    (x >>= f) = .ok r ↔ ∃ a, x = .ok a ∧ f a = .ok r := by
  cases x with
  | error e => exact ⟨fun h => (by cases h), fun ⟨_, h, _⟩ => (by cases h)⟩
  | ok a =>
    constructor
    · exact fun h => ⟨a, rfl, h⟩
    · rintro ⟨_, h, hf⟩
      cases h
      exact hf

structure Challenge.Moves (c c' : Challenge) : Prop where
  same : c' = { c with status := c'.status }
  verified : c'.status = .verified → c.status = .verified
  live : c'.status.live → c.status.live

theorem Challenge.Moves.refl (c : Challenge) : c.Moves c := ⟨rfl, id, id⟩

theorem Challenge.Moves.to_status {s : ChallengeStatus} (h : s ≠ .verified)
    (hlive : s.live = false) : c.Moves { c with status := s } :=
  ⟨rfl, fun hs => absurd hs h, fun hs => absurd hs (by simp [hlive])⟩

def Moved (t t' : Table Id Challenge) : Prop :=
  ∀ id, Option.Rel Challenge.Moves (t.get id) (t'.get id)

theorem Moved.refl (t : Table Id Challenge) : Moved t t := by
  intro id
  cases t.get id with
  | none => exact .none
  | some c => exact .some (.refl c)

theorem moved_update (hf : ∀ c, t.get id = some c → c.Moves (f c)) : Moved t (t.update id f) := by
  intro id'
  rw [Table.get_update]
  split
  · rename_i hid
    cases hc : t.get id' with
    | none =>
      rw [← hid, hc]
      exact .none
    | some c =>
      rw [← hid, hc]
      exact .some (hf c (hid ▸ hc))
  · exact Moved.refl t id'

theorem moved_mapValues (hf : ∀ c : Challenge, c.Moves (f c)) : Moved t (t.mapValues f) := by
  intro id
  rw [Table.get_mapValues]
  cases t.get id with
  | none => exact .none
  | some c => exact .some (hf c)

structure Scope where
  destinationHash : String
  purpose : String
  channel : String
  workspaceId : Option Id
  subjectRefHash : Option String
  deriving DecidableEq

def Challenge.exactScope (c : Challenge) : Scope :=
  ⟨c.destinationHash, c.purpose, c.channel, c.workspaceId, c.subjectRefHash⟩

def DeliveryArgs.scope (a : DeliveryArgs) : Claimed :=
  ⟨a.purpose, a.channel, a.workspaceId, nullIfEmpty a.subjectRefHash⟩

/-- What a request or a resend supersedes on the way from `db` to the table `t`. -/
def Supersedes (op : Operation) (a : DeliveryArgs) (db : Db) (t : Table Id Challenge)
    (c : Challenge) : Prop :=
  if op = .request then a.invalidatePrevious.getD true →
    ∀ id o, t.get id = some o → o.exactScope = c.exactScope → o.status.live = false
  else ∃ id old, db.findChallenge a.existingHandle = some (id, old) ∧
    old.outOfScope a.scope = false ∧ old.status.resendable ∧
    old.exactScope = c.exactScope ∧ ∀ o, t.get id = some o → o.status.live = false

structure Adds (db db' : Db) (t : Table Id Challenge) (id : Id) (c : Challenge) : Prop where
  fresh : id = db.nextId
  status : c.status = .pendingDelivery
  attemptCount : c.attemptCount = 0
  moved : Moved db.challenges t
  put : db'.challenges = t.put id c
  nextId : db.nextId < db'.nextId
  attempts : db'.attempts = db.attempts
  proofs : db'.proofs = db.proofs

structure Opens (now : Timestamp) (op : Operation) (args : Except Err DeliveryArgs) (db db' : Db)
    (id : Id) (c : Challenge) : Prop where
  createdAt : c.createdAt = now
  adds : ∃ t a, Adds db db' t id c ∧ t.rows.length = db.challenges.rows.length ∧ args = .ok a ∧
    Supersedes op a db t c

theorem notNull_ok {column : String} {v : Option α} {a : α} (h : notNull column v = .ok a) :
    v = some a := by
  cases v with
  | none => cases h
  | some b =>
    cases h
    rfl

structure NewChallenge.Makes (r : NewChallenge) (now : Timestamp) (c : Challenge) : Prop where
  status : c.status = .pendingDelivery
  attemptCount : c.attemptCount = 0
  createdAt : c.createdAt = now
  destinationHash : r.destinationHash = some c.destinationHash
  purpose : r.purpose = some c.purpose
  channel : r.channel = some c.channel
  workspaceId : r.workspaceId = c.workspaceId
  subjectRefHash : r.subjectRefHash = c.subjectRefHash
  maxAttempts : r.maxAttempts = some c.maxAttempts

theorem row_makes (h : r.row now = .ok (c, created)) : r.Makes now c := by
  unfold NewChallenge.row at h
  simp only [except_bind_ok] at h
  obtain ⟨_, -, _, hpurpose, _, hchannel, _, -, _, -, _, hdestination, h⟩ := h
  obtain ⟨_, -, _, -, _, -, _, hattempts, h⟩ := h
  iterate 6 obtain ⟨_, -, h⟩ := h
  cases h
  exact ⟨rfl, rfl, rfl, notNull_ok hdestination, notNull_ok hpurpose, notNull_ok hchannel, rfl, rfl,
    notNull_ok hattempts⟩

theorem gvCreateChallengeRow_ok (h : gvCreateChallengeRow now r db = .ok (created, db')) :
    ∃ c, r.Makes now c ∧ created.challengeId = db.nextId ∧
      db' = { db with nextId := db.nextId + 1, challenges := db.challenges.put db.nextId c } := by
  unfold gvCreateChallengeRow at h
  rw [get_bind] at h
  obtain ⟨_, _, hlimits, h⟩ := bind_ok.mp h
  obtain ⟨⟨c, made⟩, _, hrow, h⟩ := bind_ok.mp h
  obtain ⟨-, rfl⟩ : _ ∧ db = _ := liftM_ok.mp hlimits
  obtain ⟨hmade, rfl⟩ : r.row now = .ok (c, made) ∧ db = _ := liftM_ok.mp hrow
  obtain ⟨-, h⟩ := require_bind_ok.mp h
  obtain ⟨-, h⟩ := require_bind_ok.mp h
  rw [set_bind] at h
  cases pure_ok.mp h
  exact ⟨c, row_makes hmade, rfl, rfl⟩

theorem Db.findChallenge_some {handle : Option String}
    (h : db.findChallenge handle = some (id, c)) :
    db.challenges.get id = some c ∧ some c.handle = handle := by
  have hmem := List.mem_of_find?_eq_some h
  have hhandle := List.find?_some h
  exact ⟨Table.get_eq_some_iff_mem.mpr hmem, by simpa using hhandle⟩

theorem supersede_moved (a : DeliveryArgs) (db : Db) :
    ∃ t, Moved db.challenges t ∧ t.rows.length = db.challenges.rows.length ∧
      db.supersede a = { db with challenges := t } ∧ (a.invalidatePrevious.getD true →
        ∀ id o, t.get id = some o → a.supersedes o = false) := by
  unfold Db.supersede
  split
  · refine ⟨_, moved_mapValues fun c => ?_, Table.length_mapValues _ _, rfl, fun _ id o ho => ?_⟩
    · split
      · exact .to_status (by decide) rfl
      · exact .refl c
    · rw [Table.get_mapValues, Option.map_eq_some_iff] at ho
      obtain ⟨c, -, rfl⟩ := ho
      split
      · simp [DeliveryArgs.supersedes, ChallengeStatus.live]
      · rename_i hnot
        simpa using hnot
  · rename_i hkept
    exact ⟨db.challenges, .refl _, rfl, rfl, fun hinvalidates => absurd hinvalidates hkept⟩

/-- A request or a resend makes one challenge. -/
theorem dispatchDelivery_ok (h : dispatchDelivery now op args db = .ok (created, db')) :
    ∃ c, Opens now op args db db' created.challengeId c ∧ db'.idempotency = db.idempotency ∧
      db'.nextId = db.nextId + 1 := by
  obtain ⟨a, _, ha, h⟩ := bind_ok.mp h
  obtain ⟨hargs, rfl⟩ : args = .ok a ∧ db = _ := liftM_ok.mp ha
  rcases ite_ok.mp h with ⟨hop, h⟩ | ⟨hop, h⟩
  · unfold gvDoRequest at h
    rw [modify_bind] at h
    obtain ⟨t, ht, hlength, hdb, hinvalidated⟩ := supersede_moved a db
    rw [hdb] at h
    obtain ⟨c, hmakes, hid, rfl⟩ := gvCreateChallengeRow_ok h
    have hsupersedes : Supersedes op a db t c := by
      rw [Supersedes, if_pos hop]
      intro hinvalidates id o ho hscope
      have hnot := hinvalidated hinvalidates id o ho
      simp only [Challenge.exactScope, Scope.mk.injEq] at hscope
      obtain ⟨hdestination, hpurpose, hchannel, hworkspace, hsubject⟩ := hscope
      have hw := hmakes.workspaceId
      have hs := hmakes.subjectRefHash
      have hd := hmakes.destinationHash
      have hp := hmakes.purpose
      have hc := hmakes.channel
      dsimp only at hw hs hd hp hc
      simpa [DeliveryArgs.supersedes, hd, hp, hc, hw, hs, hdestination, hpurpose, hchannel,
        hworkspace, hsubject] using hnot
    exact ⟨c, ⟨hmakes.createdAt, t, a, ⟨hid, hmakes.status, hmakes.attemptCount, ht, by rw [hid],
      Nat.lt_succ_self _, rfl, rfl⟩, hlength, hargs, hsupersedes⟩, rfl, rfl⟩
  · unfold gvDoResend at h
    rw [get_bind] at h
    cases hfind : db.findChallenge a.existingHandle with
    | none =>
      rw [hfind] at h
      exact (throw_ok.mp h).elim
    | some r =>
      obtain ⟨id, old⟩ := r
      rw [hfind] at h
      obtain ⟨hclaimed, h⟩ := require_bind_ok.mp h
      obtain ⟨hstatus, h⟩ := require_bind_ok.mp h
      unfold updateChallenge at h
      rw [modify_bind] at h
      obtain ⟨c, hmakes, hid, rfl⟩ := gvCreateChallengeRow_ok h
      have hscope : old.exactScope = c.exactScope := by
        have hw := hmakes.workspaceId
        have hs := hmakes.subjectRefHash
        have hd := Option.some.inj hmakes.destinationHash
        have hp := Option.some.inj hmakes.purpose
        have hc := Option.some.inj hmakes.channel
        dsimp only at hw hs
        rw [Challenge.exactScope, Challenge.exactScope, hd, hp, hc, hw, hs]
      have hrevoked : ∀ o, (db.challenges.update id fun c =>
          { c with status := .revoked }).get id = some o → o.status.live = false := by
        intro o ho
        rw [Table.get_update_self, Option.map_eq_some_iff] at ho
        obtain ⟨_, -, rfl⟩ := ho
        rfl
      have hsupersedes : Supersedes op a db (db.challenges.update id fun c =>
          { c with status := .revoked }) c := by
        rw [Supersedes, if_neg hop]
        exact ⟨id, old, hfind, hclaimed, hstatus, hscope, hrevoked⟩
      refine ⟨c, ⟨hmakes.createdAt, _, a, ⟨hid, hmakes.status, hmakes.attemptCount,
        moved_update fun old _ => ?_, by rw [hid], Nat.lt_succ_self _, rfl, rfl⟩,
        Table.length_update _ _ _, hargs, hsupersedes⟩, rfl, rfl⟩
      exact .to_status (by decide) rfl

/-- The call is the one that the row was made by. -/
structure Keyed.Names (k : Keyed) (key : String) (row : LedgerRow) : Prop where
  key : k.key = some key
  operation : k.operation = some row.operation
  scopeKind : k.scopeKind = some row.scopeKind
  requestFingerprint : k.requestFingerprint = some row.requestFingerprint

structure Writes (db db' : Db) (key : String) (row : LedgerRow) : Prop where
  row : db'.idempotency.get key = some row
  others : ∀ k, k ≠ key → db'.idempotency.get k = db.idempotency.get k

theorem Writes.update {d : Db} {row row' : LedgerRow} {f : LedgerRow → LedgerRow}
    (h : Writes db d key row) (hdb : db'.idempotency = d.idempotency.update key f)
    (hrow : f row = row') : Writes db db' key row' := by
  constructor
  · rw [hdb, Table.get_update_self, h.row, ← hrow]
    rfl
  · intro k hk
    rw [hdb, Table.get_update_ne _ _ hk, h.others k hk]

structure Claims (operations : List Operation) (k : Keyed) (db db' : Db) (key : String)
    (row : LedgerRow) : Prop where
  names : k.Names key row
  allowed : operations.contains row.operation = true
  writes : Writes db db' key row
  begun : db' = db ∨ db.idempotency.get key = none ∧ row.resultState = .prepared ∧
    row.preparedAt = none
  only : ∃ t, db' = { db with idempotency := t }

theorem claimKey_ok {operations : List Operation} {row : LedgerRow}
    (h : claimKey operations k db = .ok ((key, row), db')) :
    Claims operations k db db' key row := by
  obtain ⟨-, h⟩ := require_bind_ok.mp h
  obtain ⟨hop, h⟩ := require_bind_ok.mp h
  obtain ⟨-, h⟩ := require_bind_ok.mp h
  obtain ⟨key', _, hx, h⟩ := bind_ok.mp h
  obtain ⟨hkey, rfl⟩ : _ = Except.ok key' ∧ db = _ := liftM_ok.mp hx
  obtain ⟨scope, _, hx, h⟩ := bind_ok.mp h
  obtain ⟨hscope, rfl⟩ : _ = Except.ok scope ∧ db = _ := liftM_ok.mp hx
  obtain ⟨op, _, hx, h⟩ := bind_ok.mp h
  obtain ⟨hoperation, rfl⟩ : _ = Except.ok op ∧ db = _ := liftM_ok.mp hx
  obtain ⟨fp, _, hx, h⟩ := bind_ok.mp h
  obtain ⟨hfp, rfl⟩ : _ = Except.ok fp ∧ db = _ := liftM_ok.mp hx
  have hkey := notNull_ok hkey
  have hscope := notNull_ok hscope
  have hoperation := notNull_ok hoperation
  have hfp := notNull_ok hfp
  rw [hoperation] at hop
  rw [get_bind] at h
  cases hrow : db.idempotency.get key' with
  | none =>
    rw [hrow] at h
    dsimp only at h
    rw [set_bind] at h
    cases pure_ok.mp h
    refine ⟨⟨hkey, hoperation, hscope, hfp⟩, hop, ⟨by simp, fun k hk => ?_⟩,
      .inr ⟨hrow, rfl, rfl⟩, _, rfl⟩
    exact Table.get_put_ne _ _ hk
  | some old =>
    rw [hrow] at h
    obtain ⟨⟨h1, h2, h3⟩, h⟩ := require_bind_ok.mp h
    cases pure_ok.mp h
    subst h1 h2 h3
    exact ⟨⟨hkey, hoperation, hscope, hfp⟩, hop, ⟨hrow, fun _ _ => rfl⟩, .inl rfl, _, rfl⟩

/-- What a prepare that does not raise did. -/
inductive Prepares (now : Timestamp) (k : Keyed) (args : Except Err DeliveryArgs) (db db' : Db) :
    PrepareAnswer → Prop where
  | replayed {key : String} {row : LedgerRow} (names : k.Names key row)
      (held : db.idempotency.get key = some row) (committed : row.resultState = .committed)
      (same : db' = db) : Prepares now k args db db' (.replayed row.safeResult)
  | resumed {key : String} {row : LedgerRow} {preparedAt : Timestamp} (names : k.Names key row)
      (held : db.idempotency.get key = some row) (prepared : row.resultState = .prepared)
      (at_ : row.preparedAt = some preparedAt) (stale : preparedAt ≤ now - seconds 30)
      (writes : Writes db db' key
        { row with attemptToken := some db.nextId, preparedAt := some now })
      (only : ∃ t, db' = { db with nextId := db.nextId + 1, idempotency := t }) :
      Prepares now k args db db' (.resume row.safeResult db.nextId)
  | failed {key : String} {row : LedgerRow} {e : Err} (names : k.Names key row)
      (begun : db.idempotency.get key = none ∨ db.idempotency.get key = some row ∧
        row.preparedAt = none) (prepared : row.resultState = .prepared)
      (writes : Writes db db' key { row with resultState := .failed })
      (only : ∃ t, db' = { db with idempotency := t }) : Prepares now k args db db' (.error e)
  | fresh {key : String} {row : LedgerRow} {created : Created} {c : Challenge}
      (names : k.Names key row)
      (begun : db.idempotency.get key = none ∨ db.idempotency.get key = some row ∧
        row.preparedAt = none) (prepared : row.resultState = .prepared)
      (delivery : row.operation = .request ∨ row.operation = .resend)
      (opens : Opens now row.operation args db db' created.challengeId c)
      (writes : Writes db db' key
        { row with
          preparedAt := some now
          safeResult := some (.delivery created none)
          attemptToken := some (db.nextId + 1)
          challengeId := some created.challengeId })
      (nextId : db'.nextId = db.nextId + 2) :
      Prepares now k args db db' (.fresh created (db.nextId + 1))

theorem tryDelivery_ok {made : Except Err Created}
    (h : tryDelivery now key op args db = .ok (made, db')) :
    (∃ created, made = .ok created ∧ dispatchDelivery now op args db = .ok (created, db')) ∨
      ∃ e, made = .error e ∧ e.expected = false ∧
        db' = { db with idempotency := db.idempotency.update key fun row =>
          { row with resultState := .failed } } := by
  rcases tryCatch_ok.mp h with h | ⟨e, -, h⟩
  · obtain ⟨created, _, hd, h⟩ := bind_ok.mp h
    cases pure_ok.mp h
    exact .inl ⟨created, rfl, hd⟩
  · rcases ite_ok.mp h with ⟨-, h⟩ | ⟨he, h⟩
    · exact (throw_ok.mp h).elim
    · unfold updateLedger at h
      rw [modify_bind] at h
      cases pure_ok.mp h
      exact .inr ⟨e, rfl, by simpa using he, rfl⟩

theorem genRandomUuid_ok {r : Id × Db} (h : genRandomUuid db = .ok r) :
    r = (db.nextId, { db with nextId := db.nextId + 1 }) := by
  unfold genRandomUuid at h
  rw [get_bind, set_bind] at h
  exact pure_ok.mp h

theorem gvPrepareVerificationDelivery_ok {a : PrepareAnswer}
    (h : gvPrepareVerificationDelivery now k args db = .ok (a, db')) :
    Prepares now k args db db' a := by
  obtain ⟨⟨key, row⟩, d, hclaim, h⟩ := bind_ok.mp h
  have hc := claimKey_ok hclaim
  have hheld : ∀ {s}, row.resultState = s → s ≠ .prepared → d = db := by
    intro s hs hne
    rcases hc.begun with hd | ⟨-, hprepared, -⟩
    · exact hd
    · exact absurd (hs.symm.trans hprepared) hne
  dsimp only at h
  cases hstate : row.resultState with
  | committed =>
    rw [hstate] at h
    cases pure_ok.mp h
    have hd := hheld hstate (by decide)
    exact .replayed hc.names (hd ▸ hc.writes.row) hstate hd
  | failed =>
    rw [hstate] at h
    exact (throw_ok.mp h).elim
  | prepared =>
    rw [hstate] at h
    cases hat : row.preparedAt with
    | some preparedAt =>
      rw [hat] at h
      obtain ⟨hstale, h⟩ := require_bind_ok.mp h
      obtain ⟨token, d', hid, h⟩ := bind_ok.mp h
      cases genRandomUuid_ok hid
      unfold updateLedger at h
      rw [modify_bind] at h
      cases pure_ok.mp h
      have hd : d = db := by
        rcases hc.begun with hd | ⟨-, -, hnone⟩
        · exact hd
        · rw [hnone] at hat
          cases hat
      subst hd
      exact .resumed hc.names hc.writes.row hstate hat hstale (hc.writes.update rfl rfl) ⟨_, rfl⟩
    | none =>
      rw [hat] at h
      obtain ⟨made, d', htry, h⟩ := bind_ok.mp h
      have hbegun : db.idempotency.get key = none ∨ db.idempotency.get key = some row ∧
          row.preparedAt = none := by
        rcases hc.begun with hd | ⟨hnone, -⟩
        · exact .inr ⟨hd ▸ hc.writes.row, hat⟩
        · exact .inl hnone
      obtain ⟨t, honly⟩ := hc.only
      rcases tryDelivery_ok htry with ⟨created, rfl, hd⟩ | ⟨e, rfl, -, rfl⟩
      · obtain ⟨c, hopens, hledger, hnext⟩ := dispatchDelivery_ok hd
        obtain ⟨token, d'', hid, h⟩ := bind_ok.mp h
        cases genRandomUuid_ok hid
        unfold updateLedger at h
        rw [modify_bind] at h
        cases pure_ok.mp h
        rw [honly] at hopens hnext
        have hnext : d'.nextId = db.nextId + 1 := hnext
        have hwrites : Writes db d' key row :=
          ⟨hledger ▸ hc.writes.row, fun k hk => hledger ▸ hc.writes.others k hk⟩
        obtain ⟨hcreated, t', a, ⟨hid, hs, hn, hm, hput, -, ha, hp⟩, hrest⟩ := hopens
        rw [hnext]
        have hlt := (Nat.lt_succ_self db.nextId).trans (Nat.lt_succ_self _)
        exact .fresh hc.names hbegun hstate (by simpa using hc.allowed)
          ⟨hcreated, t', a, ⟨hid, hs, hn, hm, hput, hlt, ha, hp⟩, hrest⟩ (hwrites.update rfl rfl) rfl
      · cases pure_ok.mp h
        exact .failed hc.names hbegun hstate (hc.writes.update rfl rfl) ⟨_, by rw [honly]⟩

/-- What a finalize that does not raise did. -/
inductive Finalizes (key : Option String) (attemptToken : Option Id) (s : Sent) (db db' : Db) :
    FinalizeAnswer → Prop where
  | already {k : String} {row : LedgerRow} (named : key = some k)
      (held : db.idempotency.get k = some row) (committed : row.resultState = .committed)
      (same : db' = db) : Finalizes key attemptToken s db db' (.alreadyFinalized row.safeResult)
  | stale {k : String} {row : LedgerRow} (named : key = some k)
      (held : db.idempotency.get k = some row) (prepared : row.resultState = .prepared)
      (token : row.attemptToken ≠ attemptToken) (same : db' = db) :
      Finalizes key attemptToken s db db' (.stale row.safeResult)
  | applied {k : String} {row : LedgerRow} {id : Id} {outcome : Outcome} {t : List DeliveryAttempt}
      (named : key = some k) (held : db.idempotency.get k = some row)
      (prepared : row.resultState = .prepared) (token : row.attemptToken = attemptToken)
      (challenge : row.challengeId = some id)
      (writes : Writes db db' k
        { row with
          resultState := .committed
          safeResult := row.safeResult.map (SafeResult.withOutcome outcome) })
      (only : ∃ ledger, db' = { db with
        challenges := db.challenges.update id (Challenge.delivered outcome)
        deliveryAttempts := t
        idempotency := ledger }) :
      Finalizes key attemptToken s db db'
        (.applied (row.safeResult.map (SafeResult.withOutcome outcome)))

theorem gvFinalizeVerificationDelivery_ok {key : Option String} {attemptToken : Option Id}
    {s : Sent} {a : FinalizeAnswer}
    (h : gvFinalizeVerificationDelivery key attemptToken s db = .ok (a, db')) :
    Finalizes key attemptToken s db db' a := by
  obtain ⟨-, h⟩ := require_bind_ok.mp h
  rw [get_bind] at h
  cases hfind : key.bind fun key => (db.idempotency.get key).map fun row => (key, row) with
  | none =>
    rw [hfind] at h
    exact (throw_ok.mp h).elim
  | some r =>
    obtain ⟨k, row⟩ := r
    rw [hfind] at h
    simp only [Option.bind_eq_some_iff, Option.map_eq_some_iff] at hfind
    obtain ⟨_, hkey, _, hheld, hr⟩ := hfind
    cases hr
    dsimp only at h
    cases hstate : row.resultState with
    | committed =>
      rw [hstate] at h
      cases pure_ok.mp h
      exact .already hkey hheld hstate rfl
    | failed =>
      rw [hstate] at h
      exact (throw_ok.mp h).elim
    | prepared =>
      rw [hstate] at h
      rcases ite_ok.mp h with ⟨htoken, h⟩ | ⟨htoken, h⟩
      · cases pure_ok.mp h
        exact .stale hkey hheld hstate htoken rfl
      · obtain ⟨id, _, hx, h⟩ := bind_ok.mp h
        obtain ⟨hid, rfl⟩ : _ = Except.ok id ∧ db = _ := liftM_ok.mp hx
        obtain ⟨channel, _, hx, h⟩ := bind_ok.mp h
        obtain ⟨-, rfl⟩ : _ ∧ db = _ := liftM_ok.mp hx
        obtain ⟨outcome, _, hx, h⟩ := bind_ok.mp h
        obtain ⟨-, rfl⟩ : _ ∧ db = _ := liftM_ok.mp hx
        unfold updateChallenge updateLedger at h
        rw [modify_bind] at h
        obtain ⟨-, h⟩ := require_bind_ok.mp h
        rw [modify_bind] at h
        rw [modify_bind] at h
        cases pure_ok.mp h
        have hwrites : Writes db db k row := ⟨hheld, fun _ _ => rfl⟩
        exact .applied hkey hheld hstate (not_ne_iff.mp htoken) (notNull_ok hid)
          (hwrites.update rfl rfl) ⟨_, rfl⟩

inductive Proof.Moves (p p' : Proof) : Prop where
  | same (h : p' = p)
  | closed {s : ProofStatus} (active : p.status = .active) (unused : s ≠ .consumed)
      (h : p' = { p with status := s })

def ProofsMoved (t t' : Table Id Proof) : Prop :=
  ∀ id, Option.Rel Proof.Moves (t.get id) (t'.get id)

theorem ProofsMoved.refl (t : Table Id Proof) : ProofsMoved t t := by
  intro id
  cases t.get id with
  | none => exact .none
  | some p => exact .some (.same rfl)

structure Tried (now : Timestamp) (a : CodeArgs) (db : Db) (id : Id) (c : Challenge) : Prop where
  found : db.findChallenge a.handle = some (id, c)
  scope : c.outOfScope a.scope = false
  live : c.status.live = true
  unexpired : now < c.expiresAt
  left : c.attemptCount < c.maxAttempts

theorem Tried.held (h : Tried now a db id c) :
    db.challenges.get id = some c := (Db.findChallenge_some h.found).1

structure Challenge.Issues (c : Challenge) (id : Id) (p : Proof) : Prop where
  challengeId : p.challengeId = id
  active : p.status = .active
  purpose : p.purpose = c.purpose
  channel : p.channel = c.channel
  workspaceId : p.workspaceId = c.workspaceId
  subjectRefHash : p.subjectRefHash = c.subjectRefHash

/-- What the dispatch of a verify or a revoke did. -/
inductive Judges (now : Timestamp) (op : Operation) (a : CodeArgs) (db db' : Db) : Prop where
  | quiet (challenges : Moved db.challenges db'.challenges) (attempts : db'.attempts = db.attempts)
      (proofs : ProofsMoved db.proofs db'.proofs) (nextId : db'.nextId = db.nextId)
  | refuted {id : Id} {c : Challenge} {n : Int} {ip : Option String} {s : ChallengeStatus}
      (verify : op = .verify) (tried : Tried now a db id c)
      (differs : differs c.codeDigest a.candidateDigest = true)
      (status : s ≠ .verified)
      (challenges : db'.challenges = db.challenges.put id
        { c with attemptCount := c.attemptCount + 1, status := s })
      (attempts : db'.attempts = db.attempts ++ [⟨id, n, false, ip⟩])
      (proofs : db'.proofs = db.proofs) (nextId : db'.nextId = db.nextId)
  | accepted {id : Id} {c : Challenge} {n : Int} {ip : Option String}
      (verify : op = .verify) (tried : Tried now a db id c)
      (same : differs c.codeDigest a.candidateDigest = false)
      (challenges : db'.challenges = db.challenges.put id
        { c with attemptCount := c.attemptCount + 1, status := .verified })
      (attempts : db'.attempts = db.attempts ++ [⟨id, n, true, ip⟩])
      (proofs : db'.proofs = db.proofs ∧ db'.nextId = db.nextId ∨
        ∃ p, c.Issues id p ∧ (∀ q ∈ db.proofs.rows, q.2.challengeId ≠ id) ∧
          (∀ q ∈ db.proofs.rows, q.2.proofHash ≠ p.proofHash) ∧
          db'.proofs = db.proofs.put db.nextId p ∧ db'.nextId = db.nextId + 1)

theorem proof_issues (h : c.proof id now a = .ok p) : c.Issues id p := by
  unfold Challenge.proof at h
  repeat' split at h
  all_goals cases h
  exact ⟨rfl, rfl, rfl, rfl, rfl, rfl⟩

theorem update_eq_put {κ : Type} [DecidableEq κ] {t : Table κ α} {k : κ} {v : α} {f : α → α}
    (h : t.get k = some v) : t.update k f = t.put k (f v) := by
  simp [Table.update, h]

theorem compareCandidate_ok (htried : Tried now a db id c)
    (h : compareCandidate now a id c db = .ok (v, db')) :
    Judges now .verify a db db' ∧ db'.idempotency = db.idempotency := by
  unfold compareCandidate insertAttempt updateChallenge at h
  rcases ite_ok.mp h with ⟨hdiffers, h⟩ | ⟨hsame, h⟩
  · rw [modify_bind] at h
    rcases ite_ok.mp h with ⟨-, h⟩ | ⟨-, h⟩
    · rw [modify_bind] at h
      cases pure_ok.mp h
      exact ⟨.refuted rfl htried hdiffers (by decide) (update_eq_put htried.held) rfl rfl rfl, rfl⟩
    · rw [modify_bind] at h
      cases pure_ok.mp h
      refine ⟨.refuted (s := c.status) rfl htried hdiffers ?_ (update_eq_put htried.held) rfl rfl rfl,
        rfl⟩
      intro hs
      have hlive := htried.live
      rw [hs] at hlive
      exact absurd hlive (by decide)
  · have hsame : differs c.codeDigest a.candidateDigest = false := by simpa using hsame
    rw [modify_bind, modify_bind] at h
    rcases ite_ok.mp h with ⟨-, h⟩ | ⟨-, h⟩
    · obtain ⟨p, _, hx, h⟩ := bind_ok.mp h
      obtain ⟨hp, hdb⟩ := liftM_ok.mp hx
      dsimp only at hp hdb
      obtain ⟨_, d, hi, h⟩ := bind_ok.mp h
      cases pure_ok.mp h
      unfold insertProof at hi
      rw [get_bind] at hi
      obtain ⟨hchallenge, hi⟩ := require_bind_ok.mp hi
      obtain ⟨hhash, hi⟩ := require_bind_ok.mp hi
      cases set_ok.mp hi
      subst hdb
      have hissues := proof_issues hp
      refine ⟨.accepted rfl htried hsame (update_eq_put htried.held) rfl
        (.inr ⟨p, hissues, ?_, ?_, rfl, rfl⟩), rfl⟩
      · intro q hq
        have := List.all_eq_true.mp hchallenge q hq
        simpa [hissues.challengeId] using this
      · intro q hq
        simpa using List.all_eq_true.mp hhash q hq
    · cases pure_ok.mp h
      exact ⟨.accepted rfl htried hsame (update_eq_put htried.held) rfl (.inl ⟨rfl, rfl⟩), rfl⟩

theorem gvDoVerify_ok (h : gvDoVerify now a db = .ok (v, db')) :
    Judges now .verify a db db' ∧ db'.idempotency = db.idempotency := by
  have hrefused : ∀ {d : Db}, d = db →
      Judges now .verify a db d ∧ d.idempotency = db.idempotency := by
    rintro d rfl
    exact ⟨.quiet (.refl _) rfl (.refl _) rfl, rfl⟩
  unfold gvDoVerify updateChallenge at h
  rw [get_bind] at h
  cases hfind : db.findChallenge a.handle with
  | none =>
    rw [hfind] at h
    cases pure_ok.mp h
    exact hrefused rfl
  | some r =>
    obtain ⟨id, c⟩ := r
    rw [hfind] at h
    have hclosed : ∀ {s : ChallengeStatus}, s ≠ .verified → s.live = false →
        Judges now .verify a db { db with challenges := db.challenges.update id fun c =>
          { c with status := s } } :=
      fun hs hl => .quiet (moved_update fun c _ => .to_status hs hl) rfl (.refl _) rfl
    rcases ite_ok.mp h with ⟨-, h⟩ | ⟨hscope, h⟩
    · cases pure_ok.mp h
      exact hrefused rfl
    rcases ite_ok.mp h with ⟨-, h⟩ | ⟨-, h⟩
    · cases pure_ok.mp h
      exact hrefused rfl
    rcases ite_ok.mp h with ⟨-, h⟩ | ⟨hlive, h⟩
    · cases pure_ok.mp h
      exact hrefused rfl
    rcases ite_ok.mp h with ⟨-, h⟩ | ⟨hexpired, h⟩
    · rw [modify_bind] at h
      cases pure_ok.mp h
      exact ⟨hclosed (by decide) rfl, rfl⟩
    rcases ite_ok.mp h with ⟨-, h⟩ | ⟨hleft, h⟩
    · rw [modify_bind] at h
      cases pure_ok.mp h
      exact ⟨hclosed (by decide) rfl, rfl⟩
    exact compareCandidate_ok ⟨hfind, by simpa using hscope, by simpa using hlive,
      not_le.mp hexpired, not_le.mp hleft⟩ h

theorem gvDoRevoke_ok (h : gvDoRevoke a db = .ok (v, db')) :
    Judges now .revoke a db db' ∧ db'.idempotency = db.idempotency := by
  have hrefused : ∀ {d : Db}, d = db →
      Judges now .revoke a db d ∧ d.idempotency = db.idempotency := by
    rintro d rfl
    exact ⟨.quiet (.refl _) rfl (.refl _) rfl, rfl⟩
  unfold gvDoRevoke updateChallenge at h
  rw [get_bind] at h
  cases hfind : db.findChallenge a.handle with
  | none =>
    rw [hfind] at h
    cases pure_ok.mp h
    exact hrefused rfl
  | some r =>
    obtain ⟨id, c⟩ := r
    rw [hfind] at h
    rcases ite_ok.mp h with ⟨-, h⟩ | ⟨-, h⟩
    · cases pure_ok.mp h
      exact hrefused rfl
    rcases ite_ok.mp h with ⟨-, h⟩ | ⟨-, h⟩
    · cases pure_ok.mp h
      exact hrefused rfl
    rw [modify_bind, modify_bind] at h
    cases pure_ok.mp h
    refine ⟨.quiet (moved_update fun c _ => .to_status (by decide) rfl) rfl (fun pid => ?_) rfl,
      rfl⟩
    rw [Table.get_mapValues]
    cases db.proofs.get pid with
    | none => exact .none
    | some p =>
      refine .some ?_
      dsimp only
      by_cases hp : p.challengeId = id ∧ p.status = .active
      · rw [if_pos hp]
        exact .closed hp.2 (s := .revoked) (by decide) rfl
      · rw [if_neg hp]
        exact .same rfl

theorem dispatchCode_ok {args : Except Err CodeArgs} (hop : op = .verify ∨ op = .revoke)
    (h : dispatchCode now op args db = .ok (v, db')) :
    ∃ a, args = .ok a ∧ Judges now op a db db' ∧ db'.idempotency = db.idempotency := by
  obtain ⟨a, _, ha, h⟩ := bind_ok.mp h
  obtain ⟨hargs, rfl⟩ : args = .ok a ∧ db = _ := liftM_ok.mp ha
  rcases ite_ok.mp h with ⟨hv, h⟩ | ⟨hv, h⟩
  · exact ⟨a, hargs, hv ▸ gvDoVerify_ok h⟩
  · exact ⟨a, hargs, hop.resolve_left hv ▸ gvDoRevoke_ok h⟩

theorem Judges.frame {d d' : Db} {t t' : Table String LedgerRow} (h : Judges now op a d d')
    (hd : d = { db with idempotency := t }) (hd' : db' = { d' with idempotency := t' }) :
    Judges now op a db db' := by
  subst hd hd'
  cases h with
  | quiet hc ha hp hn => exact .quiet hc ha hp hn
  | refuted hv ht hdiffers hs hc ha hp hn =>
    exact .refuted hv ⟨ht.found, ht.scope, ht.live, ht.unexpired, ht.left⟩ hdiffers hs hc
      ha hp hn
  | accepted hv ht hsame hc ha hp =>
    exact .accepted hv ⟨ht.found, ht.scope, ht.live, ht.unexpired, ht.left⟩ hsame hc ha hp

inductive Executes (now : Timestamp) (k : Keyed) (args : Except Err CodeArgs) (db db' : Db) :
    ExecuteAnswer → Prop where
  | replayed {key : String} {row : LedgerRow} (names : k.Names key row)
      (held : db.idempotency.get key = some row) (committed : row.resultState = .committed)
      (same : db' = db) : Executes now k args db db' (.replayed row.safeResult)
  | executed {key : String} {row : LedgerRow} {a : CodeArgs} {v : Verdict} (names : k.Names key row)
      (code : row.operation = .verify ∨ row.operation = .revoke)
      (begun : db.idempotency.get key = none ∨ db.idempotency.get key = some row)
      (prepared : row.resultState = .prepared) (cast : args = .ok a)
      (judges : Judges now row.operation a db db')
      (writes : Writes db db' key
        { row with
          resultState := .committed
          safeResult := some (.verdict v)
          challengeId := v.challengeId }) : Executes now k args db db' (.executed v)

theorem gvExecuteIdempotent_ok {args : Except Err CodeArgs} {a : ExecuteAnswer}
    (h : gvExecuteIdempotent now k args db = .ok (a, db')) : Executes now k args db db' a := by
  obtain ⟨⟨key, row⟩, d, hclaim, h⟩ := bind_ok.mp h
  have hc := claimKey_ok hclaim
  dsimp only at h
  cases hstate : row.resultState with
  | committed =>
    rw [hstate] at h
    have hd : d = db := by
      rcases hc.begun with hd | ⟨-, hprepared, -⟩
      · exact hd
      · exact absurd (hstate.symm.trans hprepared) (by decide)
    cases pure_ok.mp h
    exact .replayed hc.names (hd ▸ hc.writes.row) hstate hd
  | failed =>
    rw [hstate] at h
    exact (throw_ok.mp h).elim
  | prepared =>
    rw [hstate] at h
    obtain ⟨v, d', hv, h⟩ := bind_ok.mp h
    have hop : row.operation = .verify ∨ row.operation = .revoke := by
      simpa using hc.allowed
    obtain ⟨a, hargs, hjudges, hledger⟩ := dispatchCode_ok hop hv
    unfold updateLedger at h
    rw [modify_bind] at h
    cases pure_ok.mp h
    obtain ⟨t, honly⟩ := hc.only
    have hwrites : Writes db d' key row :=
      ⟨hledger ▸ hc.writes.row, fun k hk => hledger ▸ hc.writes.others k hk⟩
    have hbegun : db.idempotency.get key = none ∨ db.idempotency.get key = some row := by
      rcases hc.begun with hd | ⟨hnone, -⟩
      · exact .inr (hd ▸ hc.writes.row)
      · exact .inl hnone
    exact .executed hc.names hop hbegun hstate hargs (hjudges.frame honly rfl)
      (hwrites.update rfl rfl)

/-- A proof that is in force is used. -/
structure Uses (now : Timestamp) (hash : Option String) (s : Claimed) (db : Db) (id : Id)
    (p : Proof) : Prop where
  found : (db.proofs.rows.find? fun r => some r.2.proofHash = hash) = some (id, p)
  scope : s.mismatch p.purpose p.channel p.workspaceId p.subjectRefHash = false
  active : p.status = .active
  unexpired : now < p.expiresAt

theorem Uses.held (h : Uses now hash s db id p) : db.proofs.get id = some p :=
  Table.get_eq_some_iff_mem.mpr (List.mem_of_find?_eq_some h.found)

inductive Consumes (now : Timestamp) (hash : Option String) (s : Claimed) (db db' : Db) :
    ConsumeAnswer → Prop where
  | refused {reason : ProofRefusal} (proofs : ProofsMoved db.proofs db'.proofs)
      (only : ∃ t, db' = { db with proofs := t }) : Consumes now hash s db db' (.refused reason)
  | consumed {id : Id} {p : Proof} (uses : Uses now hash s db id p)
      (only : db' = { db with proofs := db.proofs.put id { p with status := .consumed } }) :
      Consumes now hash s db db' (.consumed p.challengeId p.subjectKind p.subjectRef
        p.subjectRefHash p.destinationNormalized)

theorem gvConsumeVerificationProof_ok {a : ConsumeAnswer}
    (h : gvConsumeVerificationProof now hash s db = .ok (a, db')) :
    Consumes now hash s db db' a := by
  have hrefused : ∀ {d : Db} {reason}, d = db → Consumes now hash s db d (.refused reason) := by
    rintro d reason rfl
    exact .refused (.refl _) ⟨_, rfl⟩
  unfold gvConsumeVerificationProof updateProof at h
  obtain ⟨-, h⟩ := require_bind_ok.mp h
  rw [get_bind] at h
  cases hfind : db.proofs.rows.find? fun r => some r.2.proofHash = hash with
  | none =>
    rw [hfind] at h
    cases pure_ok.mp h
    exact hrefused rfl
  | some r =>
    obtain ⟨id, p⟩ := r
    rw [hfind] at h
    have hheld := Table.get_eq_some_iff_mem.mpr (List.mem_of_find?_eq_some hfind)
    rcases ite_ok.mp h with ⟨-, h⟩ | ⟨hscope, h⟩
    · cases pure_ok.mp h
      exact hrefused rfl
    rcases ite_ok.mp h with ⟨-, h⟩ | ⟨-, h⟩
    · cases pure_ok.mp h
      exact hrefused rfl
    rcases ite_ok.mp h with ⟨-, h⟩ | ⟨hactive, h⟩
    · cases pure_ok.mp h
      exact hrefused rfl
    have hactive : p.status = .active := not_ne_iff.mp hactive
    rcases ite_ok.mp h with ⟨-, h⟩ | ⟨hexpired, h⟩
    · rw [modify_bind] at h
      cases pure_ok.mp h
      refine .refused (fun pid => ?_) ⟨_, rfl⟩
      rw [update_eq_put hheld, Table.get_put]
      split
      · rename_i hid
        rw [hid, hheld]
        exact .some (.closed hactive (s := .expired) (by decide) rfl)
      · exact ProofsMoved.refl _ pid
    · rw [modify_bind] at h
      cases pure_ok.mp h
      refine .consumed ⟨hfind, by simpa using hscope, hactive, not_le.mp hexpired⟩ ?_
      rw [update_eq_put hheld]

inductive Steps (db db' : Db) : Call → Answer → Prop where
  | prepare {now : Timestamp} {k : Keyed} {args : Except Err DeliveryArgs} {a : PrepareAnswer}
      (did : Prepares now k args db db' a) : Steps db db' (.prepare now k args) (.prepared a)
  | finalize {key : Option String} {token : Option Id} {s : Sent} {a : FinalizeAnswer}
      (did : Finalizes key token s db db' a) : Steps db db' (.finalize key token s) (.finalized a)
  | execute {now : Timestamp} {k : Keyed} {args : Except Err CodeArgs} {a : ExecuteAnswer}
      (did : Executes now k args db db' a) : Steps db db' (.execute now k args) (.executed a)
  | consume {now : Timestamp} {hash : Option String} {s : Claimed} {a : ConsumeAnswer}
      (did : Consumes now hash s db db' a) : Steps db db' (.consume now hash s) (.consumed a)

theorem run_steps {c : Call} {a : Answer} (h : c.run db = .ok (a, db')) : Steps db db' c a := by
  cases c with
  | prepare now k args =>
    obtain ⟨b, _, hb, h⟩ := bind_ok.mp h
    cases pure_ok.mp h
    exact .prepare (gvPrepareVerificationDelivery_ok hb)
  | finalize key token s =>
    obtain ⟨b, _, hb, h⟩ := bind_ok.mp h
    cases pure_ok.mp h
    exact .finalize (gvFinalizeVerificationDelivery_ok hb)
  | execute now k args =>
    obtain ⟨b, _, hb, h⟩ := bind_ok.mp h
    cases pure_ok.mp h
    exact .execute (gvExecuteIdempotent_ok hb)
  | consume now hash s =>
    obtain ⟨b, _, hb, h⟩ := bind_ok.mp h
    cases pure_ok.mp h
    exact .consume (gvConsumeVerificationProof_ok hb)

theorem step_of_error {c : Call} {e : Err} (h : db.answer c = .error e) : db.step c = db := by
  unfold Db.answer at h
  unfold Db.step commit
  cases hrun : c.run db with
  | error e => rfl
  | ok r =>
    rw [hrun] at h
    cases h

theorem run_of_ok {c : Call} {a : Answer} (h : db.answer c = .ok a) :
    c.run db = .ok (a, db.step c) := by
  unfold Db.answer at h
  unfold Db.step commit
  cases hrun : c.run db with
  | error e =>
    rw [hrun] at h
    cases h
  | ok r =>
    rw [hrun] at h
    cases h
    rfl

theorem steps_of_ok {c : Call} {a : Answer} (h : db.answer c = .ok a) :
    Steps db (db.step c) c a := run_steps (run_of_ok h)

end Kindred.Verification
