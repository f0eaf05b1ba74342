import Kindred.Verification.Codes

/-! How many codes of one exact scope may be tried. -/

namespace Kindred.Verification
open Lib (Table Meets run_keeps run_append run_invariant)

/-- The code may be tried at the instant `t`. -/
def Challenge.usable (t : Timestamp) (c : Challenge) : Bool :=
  c.status.live && c.createdAt ≤ t && t < c.expiresAt

/-- No two codes of an exact scope may be tried at one instant. -/
def Db.OneLive (db : Db) : Prop :=
  ∀ t id id' c c', db.challenges.get id = some c → db.challenges.get id' = some c' →
    c.exactScope = c'.exactScope → c.usable t → c'.usable t → id = id'

def Call.invalidates : Call → Bool
  | .prepare _ k (.ok a) => k.operation != some .request || a.invalidatePrevious.getD true
  | _ => true

/-- A resend finds no other code out in the scope of the challenge whose handle it is given. -/
def Db.resendsAlone (db : Db) : Call → Bool
  | .prepare now k (.ok a) => k.operation != some .resend ||
      (db.findChallenge a.existingHandle).all fun r =>
        r.2.outOfScope a.scope || !r.2.status.resendable || db.challenges.rows.all fun o =>
          o.1 == r.1 || o.2.exactScope != r.2.exactScope || !o.2.status.live || o.2.expiresAt ≤ now
  | _ => true

variable {db db' : Db} {c : Call}

def Challenge.made (ch : Challenge) : Challenge :=
  { ch with status := .pendingDelivery, attemptCount := 0 }

def Challenge.Ages (ch ch' : Challenge) : Prop :=
  ch'.made = ch.made ∧ (ch'.status.live → ch.status.live)

def Aged (t t' : Table Id Challenge) : Prop :=
  ∀ id ch', t'.get id = some ch' → ∃ ch, t.get id = some ch ∧ ch.Ages ch'

theorem Aged.refl (t : Table Id Challenge) : Aged t t := fun _ ch' h => ⟨ch', h, rfl, fun h => h⟩

variable {ch ch' : Challenge} {t : Table Id Challenge} {id : Id}

theorem Challenge.Ages.usable (h : ch.Ages ch') {t : Timestamp} (ht : ch'.usable t)
    : ch.usable t := by
  have hcreated : ch'.createdAt = ch.createdAt := congrArg (·.createdAt) h.1
  have hexpires : ch'.expiresAt = ch.expiresAt := congrArg (·.expiresAt) h.1
  simp only [Challenge.usable, hcreated, hexpires, Bool.and_eq_true] at ht ⊢
  exact ⟨⟨h.2 ht.1.1, ht.1.2⟩, ht.2⟩

theorem Challenge.Ages.scope (h : ch.Ages ch') : ch'.exactScope = ch.exactScope :=
  show ch'.made.exactScope = ch.made.exactScope from congrArg _ h.1

theorem Moved.aged {t' : Table Id Challenge} (h : Moved t t') : Aged t t' :=
  fun _ _ hch' => (h.back hch').imp fun _ hmoves =>
    ⟨hmoves.1, by rw [hmoves.2.same]; rfl, hmoves.2.live⟩

theorem aged_put {n : Int} {s : ChallengeStatus} (hheld : t.get id = some ch)
    (hlive : ch.status.live) : Aged t (t.put id { ch with attemptCount := n, status := s }) := by
  intro id' ch' hch'
  rw [Table.get_put] at hch'
  split at hch'
  · rename_i hid
    cases hch'
    exact ⟨ch, hid ▸ hheld, rfl, fun _ => hlive⟩
  · exact ⟨ch', hch', rfl, fun h => h⟩

/-- A call leaves the challenges that there are, or is a request or a resend that makes one. -/
theorem aged_step (db : Db) (c : Call) : Aged db.challenges (db.step c).challenges ∨
    ∃ now k args op id ch, c = .prepare now k args ∧ k.operation = some op ∧
      (op = .request ∨ op = .resend) ∧ Opens now op args db (db.step c) id ch := by
  cases ha : db.answer c with
  | error e => exact .inl ((step_of_error ha).symm ▸ .refl _)
  | ok a =>
    have hsteps := steps_of_ok ha
    generalize db.step c = db' at hsteps
    cases hsteps with
    | prepare did =>
      cases did with
      | replayed _ _ _ heq => exact .inl (heq ▸ .refl _)
      | resumed _ _ _ _ _ _ honly | failed _ _ _ _ honly =>
        obtain ⟨t, rfl⟩ := honly
        exact .inl (.refl _)
      | fresh hnames _ _ hdelivery hopens =>
        exact .inr ⟨_, _, _, _, _, _, rfl, hnames.operation, hdelivery, hopens⟩
    | finalize did =>
      cases did with
      | already _ _ _ heq | stale _ _ _ _ heq => exact .inl (heq ▸ .refl _)
      | applied _ _ _ _ _ _ honly =>
        obtain ⟨t, rfl⟩ := honly
        exact .inl (moved_update fun c _ => delivered_moves _ c).aged
    | execute did =>
      cases did with
      | replayed _ _ _ heq => exact .inl (heq ▸ .refl _)
      | executed _ _ _ _ _ hjudges =>
        cases hjudges with
        | quiet hmoved => exact .inl hmoved.aged
        | refuted _ ht _ _ hput | accepted _ ht _ hput =>
          exact .inl (hput ▸ aged_put ht.held ht.live)
    | consume did =>
      cases did with
      | refused _ honly =>
        obtain ⟨t, rfl⟩ := honly
        exact .inl (.refl _)
      | consumed _ honly => exact .inl (honly ▸ .refl _)

theorem Db.OneLive.aged (h : db.OneLive) (ht : Aged db.challenges t) :
    Db.OneLive { db with challenges := t } := by
  intro tm id id' ch ch' hch hch' hscope husable husable'
  obtain ⟨old, hold, hages⟩ := ht id ch hch
  obtain ⟨old', hold', hages'⟩ := ht id' ch' hch'
  exact h tm id id' old old' hold hold' (hages.scope.symm.trans (hscope.trans hages'.scope))
    (hages.usable husable) (hages'.usable husable')

/-- A code is made where no other may be tried. -/
theorem Db.OneLive.opens {now : Timestamp} {k : Keyed} {op : Operation}
    {args : Except Err DeliveryArgs} (h : db.OneLive) (hopens : Opens now op args db db' id ch)
    (hk : k.operation = some op) (hop : op = .request ∨ op = .resend)
    (hinvalidates : Call.invalidates (.prepare now k args))
    (halone : db.resendsAlone (.prepare now k args)) : db'.OneLive := by
  obtain ⟨t, a, hadds, -, rfl, hsupersedes⟩ := hopens.adds
  have hold := h.aged hadds.moved.aged
  have hnone : ∀ tm k o, t.get k = some o → o.exactScope = ch.exactScope → o.usable tm →
      ch.usable tm → False := by
    intro tm k' o ho hscope husable hnew
    simp only [Challenge.usable, Bool.and_eq_true, decide_eq_true_eq] at husable hnew
    rcases hop with rfl | rfl
    · have hdead := hsupersedes (by simpa [Call.invalidates, hk] using hinvalidates) k' o ho hscope
      exact Bool.false_ne_true (hdead.symm.trans husable.1.1)
    · obtain ⟨id₀, old, hfind, hclaimed, hresendable, hsame, hdead⟩ := hsupersedes
      by_cases hid : k' = id₀
      · subst hid
        exact Bool.false_ne_true ((hdead o ho).symm.trans husable.1.1)
      · obtain ⟨o₀, ho₀, hages⟩ := hadds.moved.aged k' o ho
        have hexpires : o.expiresAt = o₀.expiresAt := congrArg (·.expiresAt) hages.1
        have hscope₀ : o₀.exactScope = old.exactScope :=
          hages.scope.symm.trans (hscope.trans hsame.symm)
        have hover : o₀.expiresAt ≤ now := by
          simp only [Db.resendsAlone, hk, hfind, hclaimed, hresendable, bne_self_eq_false,
            Bool.false_or, Option.all_some, Bool.not_true, List.all_eq_true] at halone
          simpa [hid, hscope₀, hages.2 husable.1.1] using
            halone _ (Table.get_eq_some_iff_mem.mp ho₀)
        have hcreated := hopens.createdAt
        have hlast := husable.2
        have hfirst := hnew.1.2
        rw [hexpires] at hlast
        rw [hcreated] at hfirst
        exact absurd (hover.trans hfirst) (not_le.mpr hlast)
  intro tm k₁ k₂ c₁ c₂ h₁ h₂ hscope husable₁ husable₂
  rw [hadds.put, Table.get_put] at h₁ h₂
  split at h₁ <;> split at h₂
  · rename_i hk₁ hk₂
    exact hk₁.trans hk₂.symm
  · cases h₁
    exact (hnone tm k₂ c₂ h₂ hscope.symm husable₂ husable₁).elim
  · cases h₂
    exact (hnone tm k₁ c₁ h₁ hscope husable₁ husable₂).elim
  · exact hold tm k₁ k₂ c₁ c₂ h₁ h₂ hscope husable₁ husable₂

theorem one_live_step (db : Db) (c : Call) (h : db.OneLive)
    (hc : c.invalidates ∧ db.resendsAlone c) : (db.step c).OneLive := by
  rcases aged_step db c with haged | ⟨now, k, args, op, id, ch, rfl, hk, hop, hopens⟩
  · exact h.aged haged
  · exact h.opens hopens hk hop hc.1 hc.2

/-- Requests that invalidate the previous one, and resends where no other code is out, leave one
code to be tried. -/
theorem one_live (workspaces : List Id) (cs : List Call)
    (h : Meets Db.step (fun db c => c.invalidates ∧ db.resendsAlone c) { workspaces } cs) :
    (reached workspaces cs).OneLive :=
  run_keeps (I := Db.OneLive) one_live_step (by intro t id id' c c' hc; cases hc) h

def Challenge.StaysIn (ch : Challenge) (id : Id) (t : Table Id Challenge) : Prop :=
  ∃ ch', t.get id = some ch' ∧ ch.Ages ch' ∧ ch.attemptCount ≤ ch'.attemptCount

/-- No challenge goes, and what is over stays over. -/
structure Db.Outlives (db db' : Db) : Prop where
  challenges : ∀ id ch, db.challenges.get id = some ch → ch.StaysIn id db'.challenges
  proofs : ∀ id p, db.proofs.get id = some p → p.status ≠ .active → db'.proofs.get id = some p

theorem stays_step (h : db.Consistent) (hch : db.challenges.get id = some ch) (c : Call) :
    ch.StaysIn id (db.step c).challenges := by
  have hsame : ch.StaysIn id db.challenges := ⟨ch, hch, ⟨rfl, fun h => h⟩, le_rfl⟩
  have hmoved : ∀ {t}, Moved db.challenges t → ch.StaysIn id t := fun ht =>
    (ht.on hch).imp fun _ hmoves => ⟨hmoves.1, ⟨by rw [hmoves.2.same]; rfl, hmoves.2.live⟩,
      hmoves.2.attemptCount_eq.ge⟩
  cases ha : db.answer c with
  | error e => exact (step_of_error ha).symm ▸ hsame
  | ok a =>
    have hsteps := steps_of_ok ha
    generalize db.step c = db' at hsteps
    cases hsteps with
    | prepare did =>
      cases did with
      | replayed _ _ _ heq => exact heq ▸ hsame
      | resumed _ _ _ _ _ _ honly | failed _ _ _ _ honly =>
        obtain ⟨t, rfl⟩ := honly
        exact hsame
      | fresh _ _ _ _ hopens =>
        obtain ⟨t, _, hadds, -⟩ := hopens.adds
        rw [hadds.put, hadds.fresh, Challenge.StaysIn, Table.get_put_ne _ _ (h.old id ch hch).ne]
        exact hmoved hadds.moved
    | finalize did =>
      cases did with
      | already _ _ _ heq | stale _ _ _ _ heq => exact heq ▸ hsame
      | applied _ _ _ _ _ _ honly =>
        obtain ⟨t, rfl⟩ := honly
        exact hmoved (moved_update fun c _ => delivered_moves _ c)
    | execute did =>
      cases did with
      | replayed _ _ _ heq => exact heq ▸ hsame
      | executed _ _ _ _ _ hjudges =>
        cases hjudges with
        | quiet hm => exact hmoved hm
        | refuted _ ht _ _ hput | accepted _ ht _ hput =>
          rw [hput, Challenge.StaysIn, Table.get_put]
          split
          · rename_i hid
            cases hch.symm.trans (hid ▸ ht.held)
            exact ⟨_, rfl, ⟨rfl, fun _ => ht.live⟩, (lt_add_one _).le⟩
          · exact hsame
    | consume did =>
      cases did with
      | refused _ honly =>
        obtain ⟨t, rfl⟩ := honly
        exact hsame
      | consumed _ honly => exact honly ▸ hsame

/-- Whatever is called, a code that may no longer be tried is never tried again. -/
theorem spent_codes_stay_spent (workspaces : List Id) (past calls : List Call) :
    (reached workspaces past).Outlives (reached workspaces (past ++ calls)) := by
  have hkept := run_invariant
    (I := fun db => db.Consistent ∧ (reached workspaces past).Outlives db)
    (fun db c h => ⟨consistent_step h.1 c, fun id ch hch => ?_,
      fun id p hp hover => closed_step h.1 (h.2.proofs id p hp hover) hover c⟩)
    ⟨consistent_reached workspaces past,
      fun id ch hch => ⟨ch, hch, ⟨rfl, fun h => h⟩, le_rfl⟩, fun _ _ hp _ => hp⟩ calls
  · rw [show reached workspaces (past ++ calls) = _ from run_append ..]
    exact hkept.2
  · obtain ⟨old, hold, hages, hcount⟩ := h.2.challenges id ch hch
    obtain ⟨new, hnew, hages', hcount'⟩ := stays_step h.1 hold c
    exact ⟨new, hnew, ⟨hages'.1.trans hages.1, fun hlive => hages.2 (hages'.2 hlive)⟩,
      hcount.trans hcount'⟩

/-- A guest asks for a code, after `n` minutes. -/
def guestAsks (n : ℕ) (operation : Operation) (handle : String) (existingHandle : Option String) :
    Call :=
  .prepare (60000000 * n) (guest operation ("a-key-for-" ++ handle)) (.ok {
    existingHandle, handle := some handle, purpose := some "commerce_order_lookup"
    channel := some "email", subjectKind := some "anonymous"
    destinationNormalized := some "guest@example.com", destinationHash := some "d"
    locale := some "en", keyVersion := some 1, codeDigest := some "v1:c0de"
    ttlSeconds := some 300, maxAttempts := some 5, maxSends := some 5
    resendCooldownSeconds := some 60, rateWindowSeconds := some 3600, maxPerWindow := some 5
    invalidatePrevious := some true })

def undelivered : Call :=
  .finalize (some "a-key-for-first-code") (some 1) { outcome := some "permanent_failure" }

/-- A resend of the code that is out. -/
theorem one_live_resent : (reached [] [guestAsks 0 .request "first-code" none, undelivered,
    guestAsks 2 .request "second-code" none,
    guestAsks 4 .resend "third-code" (some "second-code")]).OneLive :=
  one_live _ _ (by decide +kernel)

/-- The handle of the code that could not be delivered is resent after a newer request. -/
theorem two_live : ¬(reached [] [guestAsks 0 .request "first-code" none, undelivered,
    guestAsks 2 .request "second-code" none,
    guestAsks 4 .resend "third-code" (some "first-code")]).OneLive := by
  have htwo : ∀ id ∈ [2, 4], ((reached [] [guestAsks 0 .request "first-code" none, undelivered,
      guestAsks 2 .request "second-code" none,
      guestAsks 4 .resend "third-code" (some "first-code")]).challenges.get id).any fun c =>
        c.exactScope = ⟨"d", "commerce_order_lookup", "email", none, none⟩ ∧
          c.usable 240000000 := by
    decide +kernel
  intro h
  obtain ⟨c, hc, hscope⟩ := (Option.any_eq_true _ _).mp (htwo 2 (by simp))
  obtain ⟨c', hc', hscope'⟩ := (Option.any_eq_true _ _).mp (htwo 4 (by simp))
  rw [decide_eq_true_eq] at hscope hscope'
  exact absurd (h 240000000 2 4 c c' hc hc' (hscope.1.trans hscope'.1.symm) hscope.2 hscope'.2)
    (by decide)

end Kindred.Verification
