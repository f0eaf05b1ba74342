import Kindred.Billing.Purposes

/-! What each purpose of a payment buys. -/

namespace Kindred.Billing

open Lib.Tx

variable {now : Timestamp} {ws : Id} {db : Db} {actor : Option Id} {acc : Account}
  {sub : PaidSubscription} {r : PlanResult × Db} {planId : Id} {paymentId : Id} {pay : Payment}
  {price : Int} {expectedEnd : Option Timestamp} {expectedPrice override : Option Int}
  {card : Option (Id × Card)} {key : String}

theorem boughtIn_single (key : Key) (row : LedgerRow) :
    boughtIn [(key, row)] = key.buys.elim 0 ({·}) := by
  cases hbuys : key.buys <;> simp [boughtIn, hbuys]

variable {amount reprice : Int} {charge : Charge} {good : Good} {row : LedgerRow}

theorem debit_spends {key : Key} (hcharges : key.charges = some good)
    (hnew : db.ledger.get key = none) {r : LedgerRow × Db}
    (h : debit now ws amount charge key db = .ok r) :
    Spends (· = good) (key.buys.elim 0 ({·})) db r.2 := by
  rcases debit_ok h with ⟨hget, -⟩ | ⟨_, acc', -, -, -, -, -, -, hdb⟩
  · rw [hnew] at hget
    cases hget
  · rw [← boughtIn_single key r.1]
    exact .posted hnew (by rw [hdb]; rfl) (by rw [hdb]; rfl) (.inr ⟨good, hcharges, rfl⟩)

theorem debit_part {key : Key} (hcharges : key.charges = some good) (hbuys : key.buys = none)
    {r : LedgerRow × Db} (h : debit now ws amount charge key db = .ok r)
    : Spends (· = good) 0 db r.2 := by
  cases hrow : db.ledger.get key with
  | none =>
    have hspends := debit_spends hcharges hrow h
    rwa [hbuys] at hspends
  | some row =>
    rcases debit_ok h with ⟨-, -, -, -, hdb⟩ | ⟨_, _, hnew, -⟩
    · rw [hdb]
      exact (Quiet.same rfl rfl).mono nofun
    · rw [hrow] at hnew
      cases hnew

theorem applyRenewal_quiet {start : Timestamp} :
    QuietTx (applyRenewal now ws actor acc sub start price row) db := by
  have hchange : (renewalChange sub (acc.target sub)).buys = none := by
    unfold renewalChange
    split <;> rfl
  refine .ite (fun _ => ?_) fun _ => ?_
  · exact updateAccount_quiet.bind fun _ _ => .pure _
  · refine updateAccount_quiet.bind fun _ _ => (writeSubscription_quiet hchange).bind fun _ _ => ?_
    exact grantMonth_quiet.bind fun _ _ => .pure _

theorem payRenewal_spends (hkeys : KeysSound db)
    (h : payRenewal now ws actor acc sub price db = .ok r) : Buys .renewal db r.2 := by
  unfold payRenewal at h
  rw [randomUuid_bind] at h
  obtain ⟨row, db₁, hdebit, h⟩ := bind_ok.mp h
  have hnew : db.drawn.ledger.get
      (.renewal ws (stamp sub.currentPeriodEnd) db.nextId) = none := by
    cases hrow : db.drawn.ledger.get (.renewal ws (stamp sub.currentPeriodEnd) db.nextId) with
    | none => rfl
    | some row =>
      rcases debit_ok hdebit with ⟨hget, -, hkind, -⟩ | ⟨_, _, hnew, -⟩
      · exact (hkeys.absent hget (by rw [hkind]; simp) rfl).elim
      · rw [hrow] at hnew
        cases hnew
  have hdrawn : Quiet db db.drawn := .same rfl rfl
  exact (hdrawn.then (debit_spends rfl hnew hdebit)).quiet (quiet_of applyRenewal_quiet h)

theorem lock_same (hacc : db.accounts.get ws = some acc) {r : Account × Db}
    (h : lock ws db = .ok r) : r = (acc, db) := by
  unfold lock at h
  rw [get_bind] at h
  obtain ⟨_, db₁, hensure, h⟩ := bind_ok.mp h
  obtain ⟨hread, hdb⟩ := readAccount_ok.mp h
  rcases ensure_ok hensure with ⟨hsame, -⟩ | ⟨hnone, -⟩
  · have hsame : db₁ = db := hsame
    rw [hsame] at hread hdb
    cases hacc.symm.trans hread
    exact Prod.ext rfl hdb
  · rw [hacc] at hnone
    cases hnone

theorem renew_spends (hkeys : KeysSound db)
    (h : renew now ws actor expectedEnd expectedPrice override db = .ok r) :
    Buys .renewal db r.2 := by
  obtain ⟨⟨_, db₁⟩, ⟨_, db₂⟩, acc, sub, price, hlock, hrelease, -, -, -, h⟩ := renew_ok h
  have hdoes : Does ws now False db db₂ := (lockRelease_does False hkeys hlock hrelease).1
  have hquiet : Quiet db db₂ := (quiet_of lock_quiet hlock).then (quiet_of releaseStale_quiet hrelease)
  exact hquiet.then (payRenewal_spends hdoes.keys h)

theorem applyRenewal_paid (hdue : sub.currentPeriodEnd ≤ now)
    (hplan : (db.plans.get (acc.target sub)).bind (·.isFree) = some false)
    (h : applyRenewal now ws actor acc sub (renewalStart now sub) price row db = .ok r) :
    ∃ sub', r.2.paidSubscription ws = some sub' ∧ now < sub'.currentPeriodEnd := by
  have hbefore := renewalStart_gt now sub
  have hday := day_pos
  have hlast := periodEnd_ge (renewalStart now sub) (acc.nextInterval sub)
  rcases ite_ok.mp h with ⟨hearly, -⟩ | ⟨-, h⟩
  · exact absurd hearly (not_lt.mpr hdue)
  · obtain ⟨_, db₁, hup, h⟩ := bind_ok.mp h
    obtain ⟨_, db₂, hwrite, h⟩ := bind_ok.mp h
    obtain ⟨_, db₃, hgrant, h⟩ := bind_ok.mp h
    cases pure_ok.mp h
    have hplans : db₁.plans = db.plans := by
      rcases updateAccount_ok hup with ⟨-, hdb⟩ | ⟨_, _, -, -, hdb⟩ <;> rw [show db₁ = _ from hdb]
    have hwrite : db₂ = _ := congrArg Prod.snd (modify_ok.mp hwrite)
    obtain ⟨w, hgrant⟩ := grantMonth_ok hgrant
    have hgrant : db₃ = { db₂ with wallet := w } := hgrant
    obtain ⟨plan, hget, hfree⟩ := Option.bind_eq_some_iff.mp hplan
    refine ⟨⟨acc.target sub, acc.nextInterval sub, renewalStart now sub,
      periodEnd (renewalStart now sub) (acc.nextInterval sub)⟩, ?_, ?_⟩
    · rw [hgrant, hwrite]
      simp [Db.paidSubscription, Db.asPaid, hplans, hget, hfree]
    · simp only
      lia

theorem dueStep_renews (h : db.dueStep acc sub card = .renew) : acc.nextPeriodPrepaidMinor = none ∧
      (db.plans.get (acc.target sub)).bind (·.isFree) = some false := by
  unfold Db.dueStep at h
  cases hfree : ((db.plans.get (acc.target sub)).bind (·.isFree)).getD true with
  | true =>
    rw [hfree] at h
    cases hprepaid : acc.nextPeriodPrepaidMinor <;> simp only [hprepaid] at h <;>
      split at h <;> simp at h
  | false =>
    rw [hfree] at h
    cases hprepaid : acc.nextPeriodPrepaidMinor with
    | some prepaid => simp [hprepaid] at h
    | none =>
      refine ⟨rfl, ?_⟩
      cases hplan : (db.plans.get (acc.target sub)).bind (·.isFree) with
      | none => simp [hplan] at hfree
      | some free =>
        rw [hplan] at hfree
        exact congrArg some hfree

theorem renew_paid (hacc : db.accounts.get ws = some acc) (hsub : db.paidSubscription ws = some sub)
    (hdue : sub.currentPeriodEnd ≤ now) (hkeys : KeysSound db)
    (hstep : db.dueStep acc sub card = .renew)
    (h : renew now ws actor expectedEnd expectedPrice override db = .ok r) :
    ∃ sub', r.2.paidSubscription ws = some sub' ∧ now < sub'.currentPeriodEnd := by
  obtain ⟨hnone, hplan⟩ := dueStep_renews hstep
  have hnothing : NothingPrepaid ws db := fun a ha => by
    cases hacc.symm.trans ha
    exact hnone
  obtain ⟨⟨_, db₁⟩, ⟨_, db₂⟩, acc', sub', price, hlock, hrelease, hacc', hsub', -, h⟩ := renew_ok h
  have hdb₁ : db₁ = db := congrArg Prod.snd (lock_same hacc hlock)
  rw [hdb₁] at hrelease
  have hdb₂ : db₂ = db := releaseStale_nothing hnothing hrelease
  rw [hdb₂] at h hacc' hsub'
  cases hacc.symm.trans hacc'
  cases hsub.symm.trans hsub'
  unfold payRenewal at h
  rw [randomUuid_bind] at h
  obtain ⟨row, db₃, hdebit, h⟩ := bind_ok.mp h
  obtain ⟨_, _, -, -, -, -, hmoney, -⟩ := debitNext_ok hkeys rfl rfl hdebit
  exact applyRenewal_paid hdue (by rw [hmoney.plans]; exact hplan) h

theorem processDue_spends (hkeys : KeysSound db) {r : DueResult × Db}
    (h : processDue now ws db = .ok r) :
    Quiet db r.2 ∨ ∃ sub, r.2.paidSubscription ws = some sub ∧ now < sub.currentPeriodEnd := by
  obtain ⟨_, db₁, hlock, h⟩ := bind_ok.mp h
  have hdoes : Does ws now False db db₁ := (lock_does False hkeys hlock).1
  have hquiet : Quiet db db₁ := quiet_of lock_quiet hlock
  rw [get_bind] at h
  cases hdue : db₁.due now ws with
  | none =>
    simp only [hdue] at h
    rw [pure_ok.mp h]
    exact .inl hquiet
  | some sub =>
    simp only [hdue] at h
    obtain ⟨hsub, hend⟩ := due_some hdue
    obtain ⟨_, db₂, hrelease, h⟩ := bind_ok.mp h
    obtain ⟨hdoes₂, hmoney, -⟩ := releaseStale_does False hdoes.keys hrelease
    have hquiet₂ : Quiet db db₂ := hquiet.then (quiet_of releaseStale_quiet hrelease)
    obtain ⟨acc, hacc, h⟩ := readAccount_bind_ok.mp h
    rw [get_bind] at h
    cases hstep : db₂.dueStep acc sub (db₂.liveCard ws) with
    | start prepaid =>
      simp only [hstep] at h
      exact .inl (hquiet₂.then (quiet_of startPrepaid_quiet h))
    | expire reason =>
      simp only [hstep] at h
      exact .inl (hquiet₂.then (quiet_of expire_quiet h))
    | renew =>
      simp only [hstep] at h
      obtain ⟨_, db₃, hrenew, h⟩ := bind_ok.mp h
      rw [pure_ok.mp h]
      exact .inr (renew_paid hacc ((hmoney.paid ws).trans hsub) hend hdoes₂.keys hstep hrenew)

theorem buyPlan_spends {interval : Option Interval} (hnew : db.ledger.get (.plan key) = none)
    (h : buyPlan now ws planId interval key actor db = .ok r) : Buys .plan db r.2 := by
  obtain ⟨_, db₁, hrelease, h⟩ := bind_ok.mp h
  have hquiet : Quiet db db₁ := quiet_of releaseStale_quiet hrelease
  obtain ⟨acc, -, h⟩ := readAccount_bind_ok.mp h
  rw [get_bind] at h
  obtain ⟨-, h⟩ := require_bind_ok.mp h
  cases hprice : db₁.planPrice planId acc.currency (interval.getD .monthly).text with
  | none =>
    simp only [hprice] at h
    exact (throw_ok.mp h).elim
  | some price =>
    simp only [hprice] at h
    obtain ⟨-, h⟩ := require_bind_ok.mp h
    obtain ⟨row, db₂, hdebit, h⟩ := bind_ok.mp h
    obtain ⟨_, db₃, hup, h⟩ := bind_ok.mp h
    obtain ⟨_, db₄, hwrite, h⟩ := bind_ok.mp h
    obtain ⟨_, db₅, hgrant, h⟩ := bind_ok.mp h
    rw [pure_ok.mp h]
    have hbuy := debit_spends rfl (hquiet.absent rfl hnew) hdebit
    have hafter : Quiet db₂ db₅ := (quiet_of updateAccount_quiet hup).then
      ((quiet_of (writeSubscription_quiet rfl) hwrite).then (quiet_of grantMonth_quiet hgrant))
    exact (hquiet.then hbuy).quiet hafter

/-- A plan is bought unless the key bought one already; what the due moment
renewed first would still be running, and is undone. -/
theorem purchasePlan_spends (hkeys : KeysSound db) {interval : Option String}
    (h : purchasePlan now ws planId interval key actor db = .ok r) :
    Buys .plan db r.2 ∨ (db.ledger.get (.plan key)).isSome ∧ r.2 = db := by
  obtain ⟨_, db₀, hparse, h⟩ := bind_ok.mp h
  rw [show db₀ = db from parseInterval_ok hparse, get_bind] at h
  cases hrow : db.ledger.get (.plan key) with
  | some row =>
    simp only [hrow] at h
    rw [pure_ok.mp h]
    exact .inr ⟨rfl, rfl⟩
  | none =>
    simp only [hrow] at h
    obtain ⟨_, db₁, hlock, h⟩ := bind_ok.mp h
    have hdoes : Does ws now False db db₁ := (lock_does False hkeys hlock).1
    have hquiet : Quiet db db₁ := quiet_of lock_quiet hlock
    rw [get_bind] at h
    rcases ite_ok.mp h with ⟨-, h⟩ | ⟨-, h⟩
    · obtain ⟨_, db₂, hprocess, h⟩ := bind_ok.mp h
      rw [get_bind] at h
      obtain ⟨hpaid, h⟩ := require_bind_ok.mp h
      rcases processDue_spends hdoes.keys hprocess with hdue | ⟨sub, hsub, hrunning⟩
      · have hquiet₂ : Quiet db db₂ := hquiet.then hdue
        exact .inl (hquiet₂.then (buyPlan_spends (hquiet₂.absent rfl hrow) h))
      · have hended : sub.currentPeriodEnd ≤ now := by simpa [hsub] using hpaid
        exact absurd hrunning (not_lt.mpr hended)
    · rw [get_bind] at h
      obtain ⟨-, h⟩ := require_bind_ok.mp h
      exact .inl (hquiet.then (buyPlan_spends (hquiet.absent rfl hrow) h))

theorem returnReprice_quiet : QuietTx (returnReprice now ws planId actor sub reprice) db := by
  have hstamp : ∀ {db : Db}, QuietTx sub.startStamp db := fun {_} => by
    unfold PaidSubscription.startStamp
    split
    · exact .throw _
    · exact .pure _
  exact .ite (fun _ => hstamp.bind fun _ _ => randomUuid_quiet.bind fun _ _ =>
    creditBack_quiet rfl rfl) fun _ => .pure _

theorem debitUpgrade_part {cost : Int} {r : Unit × Db}
    (h : debitUpgrade now ws planId actor sub cost db = .ok r) :
    Spends (· = .upgrade) 0 db r.2 := by
  rcases ite_ok.mp h with ⟨-, h⟩ | ⟨-, h⟩
  · obtain ⟨_, h⟩ := startStamp_bind_ok h
    obtain ⟨_, _, hdebit, h⟩ := bind_ok.mp h
    rw [pure_ok.mp h]
    exact debit_part rfl rfl hdebit
  · rw [pure_ok.mp h]
    exact (Quiet.same rfl rfl).mono nofun

theorem debitReprice_part {r : Unit × Db}
    (h : debitReprice now ws planId actor acc sub reprice db = .ok r) :
    Spends (· = .upgrade) 0 db r.2 := by
  rcases ite_ok.mp h with ⟨-, h⟩ | ⟨-, h⟩
  · obtain ⟨_, h⟩ := startStamp_bind_ok h
    rw [randomUuid_bind] at h
    obtain ⟨_, _, hdebit, h⟩ := bind_ok.mp h
    rw [pure_ok.mp h]
    have hdrawn : Quiet db db.drawn := .same rfl rfl
    exact hdrawn.then (debit_part rfl rfl hdebit)
  · rw [pure_ok.mp h]
    exact (Quiet.same rfl rfl).mono nofun

theorem applyUpgrade_spends {cost : UpgradeCost}
    (h : applyUpgrade now ws planId actor acc sub cost db = .ok r) : Buys .upgrade db r.2 := by
  obtain ⟨_, db₁, hgrant, h⟩ := bind_ok.mp h
  obtain ⟨_, db₂, hreturn, h⟩ := bind_ok.mp h
  obtain ⟨_, db₃, hdebit, h⟩ := bind_ok.mp h
  obtain ⟨_, db₄, hreprice, h⟩ := bind_ok.mp h
  obtain ⟨_, db₅, hup, h⟩ := bind_ok.mp h
  obtain ⟨_, db₆, hwrite, h⟩ := bind_ok.mp h
  have hquiet : Quiet db db₂ :=
    (quiet_of grantMonth_quiet hgrant).then (quiet_of returnReprice_quiet hreturn)
  have hdebits : Spends (· = .upgrade) 0 db db₄ := by
    simpa using hquiet.then ((debitUpgrade_part hdebit).trans (debitReprice_part hreprice))
  have hwritten : Spends (· = .upgrade) {.upgrade} db₅ db₆ :=
    (writeSubscription_spends hwrite).mono nofun
  have hupgrade : Buys .upgrade db db₆ := by
    simpa using (hdebits.quiet (quiet_of updateAccount_quiet hup)).trans hwritten
  rw [get_bind] at h
  rcases ite_ok.mp h with ⟨-, h⟩ | ⟨-, h⟩
  · obtain ⟨_, db₇, hmore, h⟩ := bind_ok.mp h
    obtain ⟨_, -, h⟩ := readAccount_bind_ok.mp h
    rw [pure_ok.mp h]
    have hgranted : Quiet db₆ db₇ := quiet_of grantMonth_quiet hmore
    exact hupgrade.quiet hgranted
  · obtain ⟨_, -, h⟩ := readAccount_bind_ok.mp h
    rw [pure_ok.mp h]
    exact hupgrade

theorem upgrade_spends (hkeys : KeysSound db) (h : upgrade now ws planId actor db = .ok r) :
    Buys .upgrade db r.2 ∨
      ((db.paidSubscription ws).map (·.planId) = some planId ∧ Quiet db r.2) := by
  obtain ⟨⟨_, db₁⟩, ⟨_, db₂⟩, acc, sub, hlock, hrelease, -, hsub, -, h⟩ := upgrade_ok h
  obtain ⟨-, hmoney, -⟩ := lockRelease_does False hkeys hlock hrelease
  have hquiet : Quiet db db₂ := (quiet_of lock_quiet hlock).then (quiet_of releaseStale_quiet hrelease)
  obtain ⟨hsame, -, hdb⟩ | ⟨-, cost, -, h⟩ := h
  · dsimp only at hsub hdb
    rw [hmoney.paid] at hsub
    rw [hdb]
    exact .inr ⟨by rw [hsub]; exact congrArg some hsame, hquiet⟩
  · exact .inl (hquiet.then (applyUpgrade_spends h))

theorem lateRenewal_spends {r : Except CardRefusal PlanResult × Db}
    (h : lateRenewal now paymentId pay acc planId db = .ok r) :
    (∃ e, r.1 = .error e ∧ r.2 = db) ∨ (∃ result, r.1 = .ok result) ∧
      (KeysSound db → Buys .plan db r.2 ∨
        (db.ledger.get (.plan ("payment:" ++ toString paymentId))).isSome ∧ r.2 = db) := by
  unfold lateRenewal at h
  rw [get_bind] at h
  cases hprice : db.planPrice planId acc.currency (pay.purposeDetail.billingInterval.getD "monthly") with
  | none =>
    simp only [hprice] at h
    rw [pure_ok.mp h]
    exact .inl ⟨_, rfl, rfl⟩
  | some price =>
    simp only [hprice] at h
    rcases ite_ok.mp h with ⟨-, h⟩ | ⟨-, h⟩
    · rw [pure_ok.mp h]
      exact .inl ⟨_, rfl, rfl⟩
    · rcases ite_ok.mp h with ⟨-, h⟩ | ⟨-, h⟩
      · rw [pure_ok.mp h]
        exact .inl ⟨_, rfl, rfl⟩
      · obtain ⟨result, _, hbuy, h⟩ := bind_ok.mp h
        rw [pure_ok.mp h]
        exact .inr ⟨⟨result, rfl⟩, fun hkeys => purchasePlan_spends hkeys hbuy⟩

theorem renewFromCard_spends {r : Except CardRefusal PlanResult × Db}
    (h : renewFromCard now pay acc sub db = .ok r) : (∃ e, r.1 = .error e ∧ r.2 = db) ∨
      (∃ result, r.1 = .ok result) ∧ (KeysSound db → Buys .renewal db r.2) := by
  unfold renewFromCard at h
  rw [get_bind] at h
  rcases ite_ok.mp h with ⟨-, h⟩ | ⟨-, h⟩
  · rw [pure_ok.mp h]
    exact .inl ⟨_, rfl, rfl⟩
  · cases hprice : db.planPrice (acc.target sub) acc.currency (acc.nextInterval sub).text with
    | none =>
      simp only [hprice] at h
      rw [pure_ok.mp h]
      exact .inl ⟨_, rfl, rfl⟩
    | some price =>
      simp only [hprice] at h
      rcases ite_ok.mp h with ⟨-, h⟩ | ⟨-, h⟩
      · rw [pure_ok.mp h]
        exact .inl ⟨_, rfl, rfl⟩
      · generalize cardCharged _ _ _ _ _ = charged at h
        cases charged with
        | none =>
          rw [pure_ok.mp h]
          exact .inl ⟨_, rfl, rfl⟩
        | some charged =>
          obtain ⟨result, _, hrenew, h⟩ := bind_ok.mp h
          rw [pure_ok.mp h]
          exact .inr ⟨⟨result, rfl⟩, fun hkeys => renew_spends hkeys hrenew⟩

/-- A refusal is answered before anything is written. -/
theorem cardApplyRenewal_spends {r : Except CardRefusal PlanResult × Db}
    (h : cardApplyRenewal now paymentId pay db = .ok r) :
    (∃ e, r.1 = .error e ∧ r.2 = db) ∨ (∃ result, r.1 = .ok result) ∧
      (KeysSound db → Buys .renewal db r.2 ∨ Buys .plan db r.2 ∨
        (db.ledger.get (.plan ("payment:" ++ toString paymentId))).isSome ∧ r.2 = db) := by
  unfold cardApplyRenewal at h
  rw [get_bind] at h
  have hrefused : ∀ {e : CardRefusal}, (pure (.error e) : BillingTx (Except CardRefusal PlanResult)) db =
      .ok r → ∃ e, r.1 = .error e ∧ r.2 = db := fun h => by
    rw [pure_ok.mp h]
    exact ⟨_, rfl, rfl⟩
  cases hcard : pay.cardId.bind db.cards.get with
  | none =>
    simp only [hcard] at h
    exact .inl (hrefused h)
  | some card =>
    simp only [hcard] at h
    obtain ⟨acc, -, h⟩ := readAccount_bind_ok.mp h
    cases hsub : db.paidSubscription pay.workspaceId with
    | none =>
      simp only [hsub] at h
      cases hplan : pay.purposeDetail.planId with
      | none =>
        simp only [hplan] at h
        exact .inl (hrefused h)
      | some planId =>
        simp only [hplan] at h
        rcases ite_ok.mp h with ⟨-, h⟩ | ⟨-, h⟩
        · rcases lateRenewal_spends h with hrefused | ⟨hresult, hbuys⟩
          · exact .inl hrefused
          · exact .inr ⟨hresult, fun hkeys => .inr (hbuys hkeys)⟩
        · exact .inl (hrefused h)
    | some sub =>
      simp only [hsub] at h
      rcases ite_ok.mp h with ⟨-, h⟩ | ⟨-, h⟩
      · exact .inl (hrefused h)
      · rcases ite_ok.mp h with ⟨-, h⟩ | ⟨-, h⟩
        · exact .inl (hrefused h)
        · rcases ite_ok.mp h with ⟨-, h⟩ | ⟨-, h⟩
          · exact .inl (hrefused h)
          · rcases renewFromCard_spends h with hrefused | ⟨hresult, hbuys⟩
            · exact .inl hrefused
            · exact .inr ⟨hresult, fun hkeys => .inl (hbuys hkeys)⟩

theorem buyAiPack_spends {packId : Option String} {expected : Option Int} {r : PackResult × Db}
    (h : buyAiPack now ws packId expected key actor db = .ok r) :
    Buys .pack db r.2 ∨ (db.ledger.get (.aiPack key)).isSome ∧ Quiet db r.2 := by
  obtain ⟨⟨acc, db₁⟩, hlock, h⟩ := buyAiPack_ok h
  have hquiet : Quiet db db₁ := quiet_of lock_quiet hlock
  obtain ⟨row, hrow, -, -, -, hdb⟩ | ⟨hrow, _, _, _, _, h⟩ := h
  · rw [hdb]
    refine .inr ⟨?_, hquiet⟩
    cases hold : db.ledger.get (.aiPack key) with
    | some _ => rfl
    | none =>
      rw [hquiet.absent rfl hold] at hrow
      cases hrow
  · unfold payPack at h
    obtain ⟨row, db₂, hdebit, h⟩ := bind_ok.mp h
    obtain ⟨lot, db₃, hwallet, h⟩ := bind_ok.mp h
    rw [pure_ok.mp h]
    have hlot : Quiet db₂ db₃ := quiet_of onWallet_quiet hwallet
    exact .inl ((hquiet.then (debit_spends rfl hrow hdebit)).quiet hlot)

def PurposeResult.failed : PurposeResult → Bool
  | error _ _ => true
  | _ => false

def Purpose.goods : Purpose → List Good
  | topup => []
  | plan => [.plan]
  | renewal => [.renewal, .plan]
  | upgrade => [.upgrade]
  | aiPack => [.pack]

def Db.alreadyBought (db : Db) (paymentId : Id) (pay : Payment) : Prop :=
  match pay.purpose with
  | .topup => False
  | .plan | .renewal => (db.ledger.get (.plan ("payment:" ++ toString paymentId))).isSome
  | .upgrade => (db.paidSubscription pay.workspaceId).isSome ∧
      (db.paidSubscription pay.workspaceId).map (·.planId) = pay.purposeDetail.planId
  | .aiPack => (db.ledger.get (.aiPack ("payment:" ++ toString paymentId))).isSome

def Db.served (db : Db) (paymentId : Id) (pay : Payment) (db' : Db) : Prop :=
  (∃ good ∈ pay.purpose.goods, Buys good db db') ∨ db.alreadyBought paymentId pay ∧ Quiet db db'

theorem spendOnPurpose_spends (hpurpose : pay.purpose ≠ .topup) {r : PurposeResult × Db}
    (h : spendOnPurpose now paymentId pay db = .ok r) :
    r.1.failed ∧ r.2 = db ∨ ¬r.1.failed ∧ (KeysSound db → db.served paymentId pay r.2) := by
  have hsame : ∀ {db' : Db}, db' = db → Quiet db db' := fun {_} he => by
    rw [he]
    exact .same rfl rfl
  unfold spendOnPurpose at h
  unfold Db.served Db.alreadyBought
  cases hp : pay.purpose with
  | topup => exact absurd hp hpurpose
  | plan =>
    simp only [hp] at h
    cases hplan : pay.purposeDetail.planId with
    | none =>
      simp only [hplan] at h
      exact (throw_ok.mp h).elim
    | some planId =>
      simp only [hplan] at h
      obtain ⟨_, _, hbuy, h⟩ := bind_ok.mp h
      rw [pure_ok.mp h]
      refine .inr ⟨Bool.false_ne_true, fun hkeys => ?_⟩
      rcases purchasePlan_spends hkeys hbuy with hbuys | ⟨hkey, hdb⟩
      · exact .inl ⟨_, List.mem_singleton_self _, hbuys⟩
      · exact .inr ⟨hkey, hsame hdb⟩
  | renewal =>
    simp only [hp] at h
    rcases ite_ok.mp h with ⟨-, h⟩ | ⟨-, h⟩
    · obtain ⟨result, _, hcard, h⟩ := bind_ok.mp h
      rw [pure_ok.mp h]
      rcases cardApplyRenewal_spends hcard with ⟨e, hresult, hdb⟩ | ⟨⟨done, hresult⟩, hbuys⟩
      · cases hresult
        exact .inl ⟨rfl, hdb⟩
      · cases hresult
        refine .inr ⟨Bool.false_ne_true, fun hkeys => ?_⟩
        rcases hbuys hkeys with hbuys | hbuys | ⟨hkey, hdb⟩
        · exact .inl ⟨_, List.mem_cons_self, hbuys⟩
        · exact .inl ⟨_, List.mem_cons_of_mem _ List.mem_cons_self, hbuys⟩
        · exact .inr ⟨hkey, hsame hdb⟩
    · obtain ⟨_, _, hrenew, h⟩ := bind_ok.mp h
      rw [pure_ok.mp h]
      exact .inr ⟨Bool.false_ne_true, fun hkeys => .inl ⟨_, List.mem_cons_self, renew_spends hkeys hrenew⟩⟩
  | upgrade =>
    simp only [hp] at h
    cases hplan : pay.purposeDetail.planId with
    | none =>
      simp only [hplan] at h
      exact (throw_ok.mp h).elim
    | some planId =>
      simp only [hplan] at h
      obtain ⟨_, _, hupgrade, h⟩ := bind_ok.mp h
      rw [pure_ok.mp h]
      refine .inr ⟨Bool.false_ne_true, fun hkeys => ?_⟩
      rcases upgrade_spends hkeys hupgrade with hbuys | ⟨hon, hquiet⟩
      · exact .inl ⟨_, List.mem_singleton_self _, hbuys⟩
      · refine .inr ⟨⟨?_, hon⟩, hquiet⟩
        rw [← Option.isSome_map, hon]
        rfl
  | aiPack =>
    simp only [hp] at h
    rw [get_bind] at h
    obtain ⟨_, -, h⟩ := readAccount_bind_ok.mp h
    obtain ⟨-, h⟩ := require_bind_ok.mp h
    obtain ⟨_, _, hbuy, h⟩ := bind_ok.mp h
    rw [pure_ok.mp h]
    refine .inr ⟨Bool.false_ne_true, fun _ => ?_⟩
    rcases buyAiPack_spends hbuy with hbuys | ⟨hkey, hquiet⟩
    · exact .inl ⟨_, List.mem_singleton_self _, hbuys⟩
    · exact .inr ⟨hkey, hquiet⟩

theorem spendOnFallback_spends {e : PurposeError} {raised : Option BillingError}
    {r : PurposeResult × Db} (h : spendOnFallback now paymentId pay (.error e raised) db = .ok r) :
    r.1.failed ∧ r.2 = db ∨ ¬r.1.failed ∧ (KeysSound db → db.served paymentId pay r.2) := by
  unfold spendOnFallback at h
  rw [get_bind] at h
  cases hplan : pay.purposeDetail.planId with
  | none =>
    simp only [hplan] at h
    rw [pure_ok.mp h]
    exact .inl ⟨rfl, rfl⟩
  | some planId =>
    simp only [hplan] at h
    rcases ite_ok.mp h with ⟨⟨hp, -⟩, h⟩ | ⟨-, h⟩
    · rcases tryCatch_ok.mp h with h | ⟨_, -, h⟩
      · obtain ⟨_, _, hbuy, h⟩ := bind_ok.mp h
        rw [pure_ok.mp h]
        refine .inr ⟨nofun, fun hkeys => ?_⟩
        unfold Db.served Db.alreadyBought
        rw [hp]
        rcases purchasePlan_spends hkeys hbuy with hbuys | ⟨hkey, hdb⟩
        · exact .inl ⟨_, List.mem_cons_of_mem _ List.mem_cons_self, hbuys⟩
        · refine .inr ⟨hkey, ?_⟩
          rw [show _ = db from hdb]
          exact .same rfl rfl
      · rw [pure_ok.mp h]
        exact .inl ⟨rfl, rfl⟩
    · rw [pure_ok.mp h]
      exact .inl ⟨rfl, rfl⟩

theorem spendOnFallback_kept {result : PurposeResult} (hdone : ¬result.failed)
    {r : PurposeResult × Db} (h : spendOnFallback now paymentId pay result db = .ok r) :
    r = (result, db) := by
  unfold spendOnFallback at h
  rw [get_bind] at h
  cases result with
  | error e raised => exact absurd rfl hdone
  | done id => exact pure_ok.mp h
  | pack id => exact pure_ok.mp h

end Kindred.Billing
