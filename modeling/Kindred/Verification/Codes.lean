import Kindred.Verification.Delivery

/-! Codes and proofs: how often a candidate is compared, what verifies a challenge, and what
consumes a proof. -/

namespace Kindred.Verification
open Lib (Table run run_append run_invariant Meets tally tally_le_budget)
open Lib.Tx

def Challenge.scope (c : Challenge) : Claimed :=
  ⟨some c.purpose, some c.channel, c.workspaceId, c.subjectRefHash⟩

def Call.SendsCode (c : Challenge) : Call → Prop
  | .execute now k (.ok a) => k.operation = some .verify ∧ a.handle = some c.handle ∧
      a.candidateDigest = some c.codeDigest ∧ now < c.expiresAt ∧ a.scope = c.scope
  | _ => False

def Call.Presents (p : Proof) (c : Challenge) : Call → Prop
  | .consume now hash s => hash = some p.proofHash ∧ now < p.expiresAt ∧ s = c.scope
  | _ => False

namespace Db

def compared (db : Db) (id : Id) : ℕ := db.attempts.countP fun a => a.challengeId = id

structure Verifies (db : Db) (call : Call) (id : Id) (c : Challenge) : Prop where
  after : (db.step call).challenges.get id = some c
  verified : c.status = .verified
  before : ∀ c, db.challenges.get id = some c → c.status ≠ .verified

def consumes (db : Db) (call : Call) : Option Id :=
  match call, db.answer call with
  | .consume _ hash _, .ok (.consumed (.consumed ..)) =>
    (db.proofs.rows.find? fun r => some r.2.proofHash = hash).map Prod.fst
  | _, _ => none

end Db

structure CodesKept (workspaces : List Id) (cs : List Call) : Prop where
  compared : ∀ id c, (reached workspaces cs).challenges.get id = some c →
    (reached workspaces cs).compared id ≤ c.maxAttempts.toNat
  verified : ∀ bs call ds, cs = bs ++ call :: ds → ∀ id c,
    (reached workspaces bs).Verifies call id c → call.SendsCode c
  issued_once : ∀ id, (reached workspaces cs).proofs.rows.countP (·.2.challengeId = id) ≤ 1
  consumed : ∀ bs call ds, cs = bs ++ call :: ds → ∀ id,
    (reached workspaces bs).consumes call = some id →
    ∃ p c, (reached workspaces bs).proofs.get id = some p ∧
      (reached workspaces bs).challenges.get p.challengeId = some c ∧ p.status = .active ∧
      call.Presents p c
  consumed_once : ∀ id,
    tally Db.step (fun db call => if db.consumes call = some id then 1 else 0) { workspaces } cs ≤ 1
  closed : ∀ bs ds id p, cs = bs ++ ds → (reached workspaces bs).proofs.get id = some p →
    p.status ≠ .active → (reached workspaces cs).proofs.get id = some p

def Challenge.openAt (now : Timestamp) (c : Challenge) : Bool :=
  c.status.live && now < c.expiresAt && c.attemptCount < c.maxAttempts

/-- A NULL is compared with, and passes for a match. -/
def Db.slips (db : Db) : Call → Bool
  | .execute now k (.ok a) => k.operation == some .verify &&
      (db.findChallenge a.handle).any fun r => r.2.openAt now && !r.2.outOfScope a.scope &&
        !differs r.2.codeDigest a.candidateDigest &&
        (a.purpose.isNone || a.channel.isNone || a.candidateDigest.isNone)
  | .consume now hash s =>
      (db.proofs.rows.find? fun r => some r.2.proofHash = hash).any fun r =>
        r.2.status == .active && now < r.2.expiresAt &&
          !s.mismatch r.2.purpose r.2.channel r.2.workspaceId r.2.subjectRefHash &&
          (s.purpose.isNone || s.channel.isNone)
  | _ => false

variable {db db' : Db} {c : Call} {workspaces : List Id} {c' : Challenge} {t : Table Id Challenge}
  {id : Id}

def Proof.Same (p p' : Proof) : Prop := p' = { p with status := p'.status }

variable {p p' : Proof} {t' : Table Id Challenge} {ch : Challenge}

theorem Proof.Moves.to_same (h : p.Moves p') : p.Same p' := by
  cases h with
  | same h => subst h; rfl
  | closed _ _ h => subst h; rfl

structure Db.Consistent (db : Db) : Prop where
  old : ∀ id c, db.challenges.get id = some c → id < db.nextId
  counted : ∀ id c, db.challenges.get id = some c → (db.compared id : Int) = c.attemptCount
  bounded : ∀ id c, db.challenges.get id = some c → c.attemptCount ≤ max 0 c.maxAttempts
  known : ∀ a ∈ db.attempts, (db.challenges.get a.challengeId).isSome
  oldProof : ∀ id p, db.proofs.get id = some p → id < db.nextId
  issued : ∀ id p, db.proofs.get id = some p →
    ∃ c, db.challenges.get p.challengeId = some c ∧
      (⟨some p.purpose, some p.channel, p.workspaceId, p.subjectRefHash⟩ : Claimed) = c.scope
  single : ∀ id id' p p', db.proofs.get id = some p → db.proofs.get id' = some p' →
    p.challengeId = p'.challengeId → id = id'

theorem Challenge.Moves.scope_eq {c : Challenge} (h : c.Moves c') : c'.scope = c.scope := by
  rw [h.same]
  rfl

theorem Challenge.Moves.attemptCount_eq {c : Challenge} (h : c.Moves c') :
    c'.attemptCount = c.attemptCount := by
  rw [h.same]

theorem Challenge.Moves.maxAttempts_eq {c : Challenge} (h : c.Moves c') :
    c'.maxAttempts = c.maxAttempts := by
  rw [h.same]

theorem delivered_moves (outcome : Outcome) (c : Challenge) : c.Moves (c.delivered outcome) := by
  unfold Challenge.delivered
  cases outcome with
  | providerAccepted =>
    dsimp only
    split
    · rename_i hpending
      exact ⟨rfl, nofun, fun _ => by rw [hpending]; rfl⟩
    · exact .refl c
  | permanentFailure | unconfigured | derivationKeyUnavailable =>
    dsimp only
    split
    · exact .to_status (by decide) rfl
    · exact .refl c
  | retryableFailure | ambiguous => exact .refl c

theorem Moved.back (h : Moved t t') (hc : t'.get id = some c') :
    ∃ c, t.get id = some c ∧ c.Moves c' := by
  have hrel := h id
  rw [hc] at hrel
  generalize t.get id = o at hrel
  cases hrel with
  | some hmoves => exact ⟨_, rfl, hmoves⟩

theorem Moved.on (h : Moved t t') {c : Challenge} (hc : t.get id = some c)
    : ∃ c', t'.get id = some c' ∧ c.Moves c' := by
  have hrel := h id
  rw [hc] at hrel
  generalize t'.get id = o at hrel
  cases hrel with
  | some hmoves => exact ⟨_, rfl, hmoves⟩

theorem Db.Consistent.quiet (h : db.Consistent) (hc : Moved db.challenges db'.challenges)
    (ha : db'.attempts = db.attempts)
    (hp : ∀ id p', db'.proofs.get id = some p' → ∃ p, db.proofs.get id = some p ∧ p.Same p')
    (hn : db.nextId ≤ db'.nextId) : db'.Consistent := by
  refine ⟨fun id c' hc' => ?_, fun id c' hc' => ?_, fun id c' hc' => ?_, fun a hmem => ?_,
    fun id p' hp' => ?_, fun id p' hp' => ?_, fun id id' p₁ p₂ h₁ h₂ heq => ?_⟩
  · obtain ⟨c, hold, -⟩ := hc.back hc'
    exact (h.old id c hold).trans_le hn
  · obtain ⟨c, hold, hmoves⟩ := hc.back hc'
    rw [hmoves.attemptCount_eq, ← h.counted id c hold, Db.compared, ha]
    rfl
  · obtain ⟨c, hold, hmoves⟩ := hc.back hc'
    rw [hmoves.attemptCount_eq, hmoves.maxAttempts_eq]
    exact h.bounded id c hold
  · obtain ⟨c, hold⟩ := Option.isSome_iff_exists.mp (h.known a (ha ▸ hmem))
    obtain ⟨c', hc', -⟩ := hc.on hold
    rw [hc']
    rfl
  · obtain ⟨p, hold, -⟩ := hp id p' hp'
    exact (h.oldProof id p hold).trans_le hn
  · obtain ⟨p, hold, hsame⟩ := hp id p' hp'
    obtain ⟨c, hchallenge, hscope⟩ := h.issued id p hold
    obtain ⟨c', hc', hmoves⟩ := hc.on hchallenge
    rw [hsame]
    exact ⟨c', hc', hscope.trans hmoves.scope_eq.symm⟩
  · obtain ⟨q₁, hold₁, hsame₁⟩ := hp id p₁ h₁
    obtain ⟨q₂, hold₂, hsame₂⟩ := hp id' p₂ h₂
    rw [hsame₁, hsame₂] at heq
    exact h.single id id' q₁ q₂ hold₁ hold₂ heq

theorem Db.Consistent.adds {c : Challenge} (h : db.Consistent) (hadds : Adds db db' t id c) :
    db'.Consistent := by
  have hmoved := hadds.moved
  have hput := hadds.put
  have hfresh : db.challenges.get id = none := by
    cases hget : db.challenges.get id with
    | none => rfl
    | some old => exact absurd (h.old id old hget) (by rw [hadds.fresh]; exact lt_irrefl _)
  -- the table with the older challenges moved is consistent, and no attempt is the new one's
  have hquiet : Db.Consistent { db with challenges := t } :=
    h.quiet hmoved rfl (fun id p hp => ⟨p, hp, rfl⟩) le_rfl
  have hnone : t.get id = none := by
    have hrel := hmoved id
    rw [hfresh] at hrel
    generalize t.get id = o at hrel
    cases hrel
    rfl
  have hother : ∀ {k ch}, t.get k = some ch → db'.challenges.get k = some ch := by
    intro k ch hk
    have hne : k ≠ id := by
      rintro rfl
      rw [hnone] at hk
      cases hk
    rw [hput, Table.get_put_ne _ _ hne, hk]
  have hcount : db'.compared id = 0 := by
    unfold Db.compared
    rw [hadds.attempts, List.countP_eq_zero]
    intro a ha heq
    have hknown := h.known a ha
    rw [of_decide_eq_true heq, hfresh] at hknown
    cases hknown
  have hcases : ∀ {k ch}, db'.challenges.get k = some ch → k = id ∧ ch = c ∨ t.get k = some ch := by
    intro k ch hk
    rw [hput, Table.get_put] at hk
    split at hk
    · rename_i hid
      cases hk
      exact .inl ⟨hid, rfl⟩
    · exact .inr hk
  constructor
  · intro k ch hk
    rcases hcases hk with ⟨rfl, -⟩ | hk
    · rw [hadds.fresh]
      exact hadds.nextId
    · exact (hquiet.old k ch hk).trans hadds.nextId
  · intro k ch hk
    rcases hcases hk with ⟨rfl, rfl⟩ | hk
    · rw [hcount, hadds.attemptCount]
      rfl
    · rw [← hquiet.counted k ch hk, Db.compared, hadds.attempts]
      rfl
  · intro k ch hk
    rcases hcases hk with ⟨-, rfl⟩ | hk
    · rw [hadds.attemptCount]
      exact le_max_left 0 _
    · exact hquiet.bounded k ch hk
  · intro a ha
    rw [hadds.attempts] at ha
    obtain ⟨ch, hch⟩ := Option.isSome_iff_exists.mp (hquiet.known a ha)
    rw [hother hch]
    rfl
  · intro k p hp
    rw [hadds.proofs] at hp
    exact (h.oldProof k p hp).trans hadds.nextId
  · intro k p hp
    rw [hadds.proofs] at hp
    obtain ⟨ch, hch, hscope⟩ := hquiet.issued k p hp
    exact ⟨ch, hother hch, hscope⟩
  · rw [hadds.proofs]
    exact h.single

/-- One candidate of an open challenge is compared. -/
theorem Db.Consistent.compare {c : Challenge} {a : Attempt} {s : ChallengeStatus}
    (h : db.Consistent) (hheld : db.challenges.get id = some c)
    (hleft : c.attemptCount < c.maxAttempts) (ha : a.challengeId = id)
    (hc : db'.challenges = db.challenges.put id
      { c with attemptCount := c.attemptCount + 1, status := s })
    (hattempts : db'.attempts = db.attempts ++ [a]) (hp : db'.proofs = db.proofs)
    (hn : db.nextId ≤ db'.nextId) : db'.Consistent := by
  have hcases : ∀ {k ch}, db'.challenges.get k = some ch → k = id ∧
      ch = { c with attemptCount := c.attemptCount + 1, status := s } ∨
      k ≠ id ∧ db.challenges.get k = some ch := by
    intro k ch hk
    rw [hc, Table.get_put] at hk
    split at hk
    · rename_i hid
      cases hk
      exact .inl ⟨hid, rfl⟩
    · rename_i hid
      exact .inr ⟨hid, hk⟩
  have hon : ∀ {k ch}, db.challenges.get k = some ch →
      ∃ ch', db'.challenges.get k = some ch' ∧ ch'.scope = ch.scope := by
    intro k ch hk
    by_cases hid : k = id
    · cases hheld.symm.trans (hid ▸ hk)
      refine ⟨{ c with attemptCount := c.attemptCount + 1, status := s }, ?_, rfl⟩
      rw [hc, hid, Table.get_put_self]
    · exact ⟨ch, by rw [hc, Table.get_put_ne _ _ hid, hk], rfl⟩
  have hcompared : ∀ k, db'.compared k = db.compared k + if a.challengeId = k then 1 else 0 := by
    intro k
    unfold Db.compared
    rw [hattempts, List.countP_append]
    by_cases hk : a.challengeId = k <;> simp [hk]
  have hcount := h.counted id c hheld
  constructor
  · intro k ch hk
    rcases hcases hk with ⟨rfl, -⟩ | ⟨-, hk⟩
    · exact (h.old k c hheld).trans_le hn
    · exact (h.old k ch hk).trans_le hn
  · intro k ch hk
    rw [hcompared]
    rcases hcases hk with ⟨rfl, rfl⟩ | ⟨hne, hk⟩
    · simp [ha, hcount]
    · rw [ha, if_neg (Ne.symm hne)]
      exact h.counted k ch hk
  · intro k ch hk
    rcases hcases hk with ⟨-, rfl⟩ | ⟨-, hk⟩
    · dsimp only
      omega
    · exact h.bounded k ch hk
  · intro b hb
    rw [hattempts, List.mem_append, List.mem_singleton] at hb
    have hknown : (db.challenges.get b.challengeId).isSome := by
      rcases hb with hb | rfl
      · exact h.known b hb
      · rw [ha, hheld]
        rfl
    obtain ⟨ch, hch⟩ := Option.isSome_iff_exists.mp hknown
    obtain ⟨ch', hch', -⟩ := hon hch
    rw [hch']
    rfl
  · intro k p hk
    rw [hp] at hk
    exact (h.oldProof k p hk).trans_le hn
  · intro k p hk
    rw [hp] at hk
    obtain ⟨ch, hch, hscope⟩ := h.issued k p hk
    obtain ⟨ch', hch', hsame⟩ := hon hch
    exact ⟨ch', hch', hscope.trans hsame.symm⟩
  · rw [hp]
    exact h.single

/-- A challenge issues its proof. -/
theorem Db.Consistent.issue {c : Challenge} (h : db.Consistent)
    (hheld : db.challenges.get id = some c) (hissues : c.Issues id p)
    (hfirst : ∀ q ∈ db.proofs.rows, q.2.challengeId ≠ id)
    (hp : db'.proofs = db.proofs.put db.nextId p) (hn : db'.nextId = db.nextId + 1)
    (hc : db'.challenges = db.challenges) (ha : db'.attempts = db.attempts) : db'.Consistent := by
  have hcases : ∀ {k q}, db'.proofs.get k = some q →
      k = db.nextId ∧ q = p ∨ db.proofs.get k = some q := by
    intro k q hk
    rw [hp, Table.get_put] at hk
    split at hk
    · rename_i hid
      cases hk
      exact .inl ⟨hid, rfl⟩
    · exact .inr hk
  have hnot : ∀ {k q}, db.proofs.get k = some q → q.challengeId ≠ id :=
    fun hk => hfirst _ (Table.get_eq_some_iff_mem.mp hk)
  have hlt : db.nextId < db'.nextId := hn ▸ Nat.lt_succ_self _
  constructor
  · rw [hc]
    exact fun k ch hk => (h.old k ch hk).trans hlt
  · intro k ch hk
    rw [hc] at hk
    rw [← h.counted k ch hk, Db.compared, ha]
    rfl
  · rw [hc]
    exact h.bounded
  · rw [hc, ha]
    exact h.known
  · intro k q hk
    rcases hcases hk with ⟨rfl, -⟩ | hk
    · exact hlt
    · exact (h.oldProof k q hk).trans hlt
  · intro k q hk
    rw [hc]
    rcases hcases hk with ⟨-, rfl⟩ | hk
    · rw [hissues.challengeId]
      refine ⟨c, hheld, ?_⟩
      rw [hissues.purpose, hissues.channel, hissues.workspaceId, hissues.subjectRefHash]
      rfl
    · exact h.issued k q hk
  · intro k k' q q' hk hk' heq
    rcases hcases hk with ⟨rfl, rfl⟩ | hk <;> rcases hcases hk' with ⟨rfl, rfl⟩ | hk'
    · rfl
    · exact absurd (heq.symm.trans hissues.challengeId) (hnot hk')
    · exact absurd (heq.trans hissues.challengeId) (hnot hk)
    · exact h.single k k' q q' hk hk' heq

theorem same_of_moved {t t' : Table Id Proof} (h : ProofsMoved t t') (hp : t'.get id = some p')
    : ∃ p, t.get id = some p ∧ p.Moves p' := by
  have hrel := h id
  rw [hp] at hrel
  generalize t.get id = o at hrel
  cases hrel with
  | some hmoves => exact ⟨_, rfl, hmoves⟩

theorem Db.Consistent.judged {now : Timestamp} {op : Operation} {a : CodeArgs}
    (h : db.Consistent) (hj : Judges now op a db db') : db'.Consistent := by
  cases hj with
  | quiet hc ha hp hn =>
    refine h.quiet hc ha (fun id p' hp' => ?_) hn.ge
    obtain ⟨p, hold, hmoves⟩ := same_of_moved hp hp'
    exact ⟨p, hold, hmoves.to_same⟩
  | refuted _ ht _ _ hc ha hp hn => exact h.compare ht.held ht.left rfl hc ha hp hn.ge
  | accepted hverify ht hsame hc ha hp =>
    rename_i id c n ip
    rcases hp with ⟨hp, hn⟩ | ⟨p, hissues, hfirst, -, hp, hn⟩
    · exact h.compare ht.held ht.left rfl hc ha hp hn.ge
    · have hcompared : Db.Consistent
          { db with challenges := db'.challenges, attempts := db'.attempts } :=
        h.compare ht.held ht.left rfl hc ha rfl le_rfl
      have hput := congrArg (fun t : Table Id Challenge => t.get id) hc
      rw [Table.get_put_self] at hput
      exact hcompared.issue hput ⟨hissues.challengeId, hissues.active, hissues.purpose,
        hissues.channel, hissues.workspaceId, hissues.subjectRefHash⟩ hfirst hp hn rfl rfl

theorem consistent_step (h : db.Consistent) (c : Call) : (db.step c).Consistent := by
  cases ha : db.answer c with
  | error e => exact (step_of_error ha).symm ▸ h
  | ok a =>
    have hsame : ∀ id p', db.proofs.get id = some p' → ∃ p, db.proofs.get id = some p ∧ p.Same p' :=
      fun id p' hp => ⟨p', hp, rfl⟩
    have hsteps := steps_of_ok ha
    generalize db.step c = db' at hsteps
    cases hsteps with
    | prepare did =>
      cases did with
      | replayed _ _ _ heq => exact heq ▸ h
      | resumed _ _ _ _ _ _ honly =>
        obtain ⟨t, rfl⟩ := honly
        exact h.quiet (.refl _) rfl hsame (Nat.le_succ _)
      | failed _ _ _ _ honly =>
        obtain ⟨t, rfl⟩ := honly
        exact h.quiet (.refl _) rfl hsame le_rfl
      | fresh _ _ _ _ hopens =>
        obtain ⟨t, _, hadds, -⟩ := hopens.adds
        exact h.adds hadds
    | finalize did =>
      cases did with
      | already _ _ _ heq | stale _ _ _ _ heq => exact heq ▸ h
      | applied _ _ _ _ _ _ honly =>
        obtain ⟨t, rfl⟩ := honly
        exact h.quiet (moved_update fun c _ => delivered_moves _ c) rfl hsame le_rfl
    | execute did =>
      cases did with
      | replayed _ _ _ heq => exact heq ▸ h
      | executed _ _ _ _ _ hjudges => exact h.judged hjudges
    | consume did =>
      cases did with
      | refused hp honly =>
        obtain ⟨t, rfl⟩ := honly
        refine h.quiet (.refl _) rfl (fun id p' hp' => ?_) le_rfl
        obtain ⟨p, hold, hmoves⟩ := same_of_moved hp hp'
        exact ⟨p, hold, hmoves.to_same⟩
      | consumed huses honly =>
        subst honly
        refine h.quiet (.refl _) rfl (fun id p' hp' => ?_) le_rfl
        rw [Table.get_put] at hp'
        split at hp'
        · rename_i hid
          cases hp'
          exact ⟨_, hid ▸ huses.held, rfl⟩
        · exact ⟨p', hp', rfl⟩

/-- A proof that is no longer in force stays as it is. -/
theorem closed_step (h : db.Consistent) (hp : db.proofs.get id = some p)
    (hclosed : p.status ≠ .active) (c : Call) : (db.step c).proofs.get id = some p := by
  have hmoved : ∀ {t : Table Id Proof}, ProofsMoved db.proofs t → t.get id = some p := by
    intro t ht
    have hrel := ht id
    rw [hp] at hrel
    generalize t.get id = o at hrel
    cases hrel with
    | some hmoves =>
      cases hmoves with
      | same heq => rw [heq]
      | closed hactive => exact absurd hactive hclosed
  cases ha : db.answer c with
  | error e => rw [step_of_error ha, hp]
  | ok a =>
    have hsteps := steps_of_ok ha
    generalize db.step c = db' at hsteps
    cases hsteps with
    | prepare did =>
      cases did with
      | replayed _ _ _ heq => rw [heq, hp]
      | resumed _ _ _ _ _ _ honly | failed _ _ _ _ honly =>
        obtain ⟨t, rfl⟩ := honly
        exact hp
      | fresh _ _ _ _ hopens =>
        obtain ⟨t, _, hadds, -⟩ := hopens.adds
        rw [hadds.proofs, hp]
    | finalize did =>
      cases did with
      | already _ _ _ heq | stale _ _ _ _ heq => rw [heq, hp]
      | applied _ _ _ _ _ _ honly =>
        obtain ⟨t, rfl⟩ := honly
        exact hp
    | execute did =>
      cases did with
      | replayed _ _ _ heq => rw [heq, hp]
      | executed _ _ _ _ _ hjudges =>
        cases hjudges with
        | quiet _ _ hproofs => exact hmoved hproofs
        | refuted _ _ _ _ _ _ hproofs => rw [hproofs, hp]
        | accepted _ _ _ _ _ hproofs =>
          rcases hproofs with ⟨hproofs, -⟩ | ⟨q, -, -, -, hproofs, -⟩
          · rw [hproofs, hp]
          · rw [hproofs, Table.get_put_ne _ _ (h.oldProof id p hp).ne, hp]
    | consume did =>
      cases did with
      | refused hproofs => exact hmoved hproofs
      | consumed huses honly =>
        subst honly
        rename_i id' q
        have hne : id ≠ id' := by
          rintro rfl
          cases huses.held.symm.trans hp
          exact hclosed huses.active
        exact (Table.get_put_ne _ _ hne).trans hp

theorem consistent_start (workspaces : List Id) : Db.Consistent { workspaces } := by
  constructor <;> intros <;> simp_all

theorem consistent_reached (workspaces : List Id) (cs : List Call) :
    (reached workspaces cs).Consistent :=
  run_invariant (I := Db.Consistent) (fun _ c h => consistent_step h c)
    (consistent_start workspaces) cs

/-- The call that verifies a challenge is a verify that found it open. -/
theorem accepted_of_verifies (h : db.Verifies c id ch) :
    ∃ now k a old, c = .execute now k (.ok a) ∧ k.operation = some .verify ∧
      Tried now a db id old ∧ differs old.codeDigest a.candidateDigest = false ∧
      ch = { old with attemptCount := old.attemptCount + 1, status := .verified } := by
  obtain ⟨hafter, hverified, hbefore⟩ := h
  have hmoved : ∀ {t}, Moved db.challenges t → t.get id ≠ some ch := by
    intro t ht hch
    obtain ⟨old, hold, hmoves⟩ := ht.back hch
    exact hbefore old hold (hmoves.verified hverified)
  cases ha : db.answer c with
  | error e =>
    rw [step_of_error ha] at hafter
    exact absurd hverified (hbefore ch hafter)
  | ok a =>
    have hsteps := steps_of_ok ha
    generalize db.step c = db' at hsteps hafter
    cases hsteps with
    | prepare did =>
      cases did with
      | replayed _ _ _ heq =>
        subst heq
        exact absurd hverified (hbefore ch hafter)
      | resumed _ _ _ _ _ _ honly | failed _ _ _ _ honly =>
        obtain ⟨t, rfl⟩ := honly
        exact absurd hverified (hbefore ch hafter)
      | fresh _ _ _ _ hopens =>
        obtain ⟨t, _, hadds, -⟩ := hopens.adds
        rw [hadds.put, Table.get_put] at hafter
        split at hafter
        · cases hafter
          rw [hadds.status] at hverified
          cases hverified
        · exact absurd hafter (hmoved hadds.moved)
    | finalize did =>
      cases did with
      | already _ _ _ heq | stale _ _ _ _ heq =>
        subst heq
        exact absurd hverified (hbefore ch hafter)
      | applied _ _ _ _ _ _ honly =>
        obtain ⟨t, rfl⟩ := honly
        exact absurd hafter (hmoved (moved_update fun c _ => delivered_moves _ c))
    | execute did =>
      cases did with
      | replayed _ _ _ heq =>
        subst heq
        exact absurd hverified (hbefore ch hafter)
      | executed hnames _ _ _ hcast hjudges =>
        cases hjudges with
        | quiet hquiet => exact absurd hafter (hmoved hquiet)
        | refuted _ ht _ hs hput =>
          rw [hput, Table.get_put] at hafter
          split at hafter
          · cases hafter
            exact absurd hverified hs
          · exact absurd hverified (hbefore ch hafter)
        | accepted hverify ht hsame hput =>
          rw [hput, Table.get_put] at hafter
          split at hafter
          · rename_i hid
            subst hid hcast
            cases hafter
            exact ⟨_, _, _, _, rfl, hverify ▸ hnames.operation, ht, hsame, rfl⟩
          · exact absurd hverified (hbefore ch hafter)
    | consume did =>
      cases did with
      | refused _ honly =>
        obtain ⟨t, rfl⟩ := honly
        exact absurd hverified (hbefore ch hafter)
      | consumed _ honly =>
        subst honly
        exact absurd hverified (hbefore ch hafter)

theorem differs_eq_false {α : Type} [DecidableEq α] {a : α} {b : Option α}
    (h : differs a b = false) (hb : b.isSome) : b = some a := by
  obtain ⟨b, rfl⟩ := Option.isSome_iff_exists.mp hb
  have heq : a = b := by simpa [differs] using h
  rw [heq]

theorem eq_of_not_mismatch {s : Claimed} {purpose channel : String} {workspaceId : Option Id}
    {subjectRefHash : Option String}
    (h : s.mismatch purpose channel workspaceId subjectRefHash = false)
    (hpurpose : s.purpose.isSome) (hchannel : s.channel.isSome) :
    s = ⟨some purpose, some channel, workspaceId, subjectRefHash⟩ := by
  obtain ⟨p, ch, ws, subject⟩ := s
  simp only [Claimed.mismatch, Bool.or_eq_false_iff, bne_eq_false_iff_eq] at h
  obtain ⟨⟨⟨hp, hch⟩, rfl⟩, rfl⟩ := h
  rw [show p = some purpose from differs_eq_false hp hpurpose,
    show ch = some channel from differs_eq_false hch hchannel]

theorem sendsCode_of_verifies (hslips : db.slips c = false) (h : db.Verifies c id ch)
    : c.SendsCode ch := by
  obtain ⟨now, k, a, old, rfl, hop, ht, hsame, rfl⟩ := accepted_of_verifies h
  have hlive := ht.live
  have hnamed : a.purpose.isSome ∧ a.channel.isSome ∧ a.candidateDigest.isSome := by
    simpa [Db.slips, hop, ht.found, Challenge.openAt, hlive, ht.unexpired, ht.left, ht.scope, hsame,
      Option.isSome_iff_ne_none, and_assoc] using hslips
  refine ⟨hop, (Db.findChallenge_some ht.found).2.symm, ?_, ht.unexpired, ?_⟩
  · exact differs_eq_false hsame hnamed.2.2
  · exact eq_of_not_mismatch ht.scope hnamed.1 hnamed.2.1

theorem uses_of_consumes (h : db.consumes c = some id) :
    ∃ now hash s p, c = .consume now hash s ∧ Uses now hash s db id p ∧
      (db.step c).proofs.get id = some { p with status := .consumed } := by
  unfold Db.consumes at h
  split at h
  · rename_i now hash s _ _ _ _ _ ha
    cases steps_of_ok ha with
    | consume did =>
      cases did with
      | consumed huses honly =>
        rw [huses.found] at h
        cases h
        refine ⟨now, hash, s, _, rfl, huses, ?_⟩
        rw [honly, Table.get_put_self]
  · cases h

def consumesLeft (id : Id) (db : Db) : ℕ :=
  match db.proofs.get id with
  | none => 1
  | some p => if p.status = .active then 1 else 0

theorem consumes_le (id : Id) (h : db.Consistent) (c : Call) :
    (if db.consumes c = some id then 1 else 0) + consumesLeft id (db.step c) ≤
      consumesLeft id db := by
  by_cases hc : db.consumes c = some id
  · obtain ⟨now, hash, s, p, -, huses, hafter⟩ := uses_of_consumes hc
    simp [hc, consumesLeft, huses.held, huses.active, hafter]
  · rw [if_neg hc, Nat.zero_add]
    have hle : ∀ db : Db, consumesLeft id db ≤ 1 := by
      intro db
      unfold consumesLeft
      split
      · exact le_rfl
      · split <;> simp
    cases hp : db.proofs.get id with
    | none => simpa [consumesLeft, hp] using hle (db.step c)
    | some p =>
      by_cases hactive : p.status = .active
      · simpa [consumesLeft, hp, hactive] using hle (db.step c)
      · simp [consumesLeft, hp, hactive, closed_step h hp hactive c]

def guest (operation : Operation) (key : String) : Keyed where
  key := some key
  scopeKind := some "commerce_order_lookup"
  operation := some operation
  requestFingerprint := some "fingerprint"
  purpose := some "commerce_order_lookup"

def guestRequest : Call := .prepare 0 (guest .request "request-for-a-code") (.ok {
  handle := some "gvh_1", purpose := some "commerce_order_lookup", channel := some "email",
  subjectKind := some "anonymous", destinationNormalized := some "guest@example.com",
  destinationHash := some "d", locale := some "en", keyVersion := some 1,
  codeDigest := some "v1:c0de", ttlSeconds := some 300, maxAttempts := some 5,
  maxSends := some 5, resendCooldownSeconds := some 60, rateWindowSeconds := some 3600,
  maxPerWindow := some 5 })

/-- What the request makes. -/
def guestChallenge : Challenge where
  handle := "gvh_1"
  purpose := "commerce_order_lookup"
  channel := "email"
  workspaceId := none
  subjectKind := "anonymous"
  subjectRef := none
  subjectRefHash := none
  destinationNormalized := "guest@example.com"
  destinationHash := "d"
  locale := "en"
  generation := 1
  keyVersion := 1
  codeDigest := "v1:c0de"
  maxAttempts := 5
  expiresAt := 300000000
  requestIpHash := none
  createdAt := 0

def guestProofHash : String := "v1:" ++ String.ofList (List.replicate 64 'a')

def guestVerify (key : String) (candidateDigest : Option String) : Call :=
  .execute 1000000 (guest .verify key) (.ok {
    handle := some "gvh_1", candidateDigest, purpose := some "commerce_order_lookup",
    channel := some "email", proofHash := some guestProofHash, proofKeyVersion := some 1,
    proofTtlSeconds := some 600 })

def guestConsume : Call := .consume 2000000 (some guestProofHash)
  ⟨some "commerce_order_lookup", some "email", none, none⟩

end Kindred.Verification
