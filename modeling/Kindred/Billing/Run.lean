import Kindred.Billing.Settlement

/-! Runs of the whole of billing: calls of its functions, in any order. -/

namespace Kindred.Billing
open Lib (Table run run_invariant)
open Lib.Tx

/-- A payment as a checkout creates it. -/
def Payment.opened (p : Payment) : Payment :=
  { p with
    purposeDetail := { p.purposeDetail with refunds := .empty }
    purposeResult := none, status := .pending, providerRef := none, providerPaymentId := none
    ledgerId := none, review := none, verifiedAmountMinor := none, verifiedAt := none
    refundedMinor := 0 }

/-- `failAccountPayment` -/
def Payment.ended (p : Payment) (status : PaymentStatus) : Payment :=
  if p.status = .pending ∧ status ≠ .succeeded then { p with status } else p

def bindPayment (paymentId : Id) (ref : Option String) : BillingTx Unit := do
  let db ← get
  require (db.payments.rows.all fun r => r.1 = paymentId ∨ ref.isNone ∨
    ¬((db.payments.get paymentId).any (·.provider = r.2.provider) ∧ r.2.providerRef = ref))
    .uniqueViolation
  updatePayment paymentId fun p => { p with providerRef := ref }

/-- A call of a billing or an AI wallet function, or what others write. -/
inductive Operation where
  | ensure (workspaceId : Id) (currency : String)
  | recordVerification (paymentId : Id) (amount : Option Int)
      (currency providerPaymentId : Option String)
  | settlePayment (paymentId : Id)
  | refundPayment (paymentId : Id) (refundId : String) (amount : Option Int)
  | adminAdjust (workspaceId : Id) (amount : Option Int) (currency reason : Option String)
      (actor : Option Id) (commandKey category : Option String) (expectedBalance : Option Int)
  | purchasePlan (workspaceId planId : Id) (interval : Option String) (key : String)
      (actor : Option Id)
  | renew (workspaceId : Id) (actor : Option Id) (expectedPeriodEnd : Option Timestamp)
      (expectedPriceMinor priceOverrideMinor : Option Int)
  | upgrade (workspaceId planId : Id) (actor : Option Id)
  | scheduleChange (workspaceId : Id) (planId : Option Id) (interval : Option String)
      (actor : Option Id)
  | processDue (workspaceId : Id)
  | buyAiPack (workspaceId : Id) (packId : Option String) (expectedPriceMinor : Option Int)
      (key : String) (actor : Option Id)
  | aiPackReverse (workspaceId packLedgerId : Id) (maxMinor : Option Int) (key : Key)
      (refundId provider : String)
  | adminReplaced (workspaceId : Id)
  | releaseStalePrepaid (workspaceId : Id)
  | cardRegister (provider subscriptionId : String) (currency : Option String)
      (setupPaymentId : Id)
  | cardRecordCharge (cardId : Id) (txnId origin : Option String) (amount : Option Int)
      (currency : Option String) (item : Option ChargeItem) (paymentId : Option Id)
  | cardSettle (paymentId : Id) (amount : Option Int) (currency txnId : Option String)
  | cardSetStatus (cardId : Id) (status : CardStatus) (reason : Option CancelReason)
  | aiWallet (command : AiWallet.WalletCommand)
  | editPlan (planId : Id) (plan : Plan)
  | editSettings (settings : Settings)
  | editSubscription (workspaceId : Id) (subscription : Subscription)
  | setAutoRenew (workspaceId : Id) (on : Bool)
  | createPayment (payment : Payment)
  | bindPayment (paymentId : Id) (ref : Option String)
  | endPayment (paymentId : Id) (status : PaymentStatus)

def Operation.call (now : Timestamp) : Operation → BillingTx Unit
  | ensure ws currency => Billing.ensure ws currency
  | recordVerification id amount currency reference =>
    Billing.recordVerification now id amount currency reference
  | settlePayment id => discard (Billing.settlePayment now id)
  | refundPayment id refundId amount => discard (Billing.refundPayment now id refundId amount)
  | adminAdjust ws amount currency reason actor key category expected =>
    discard (Billing.adminAdjust now ws amount currency reason actor key category expected)
  | purchasePlan ws planId interval key actor =>
    discard (Billing.purchasePlan now ws planId interval key actor)
  | renew ws actor periodEnd price override =>
    discard (Billing.renew now ws actor periodEnd price override)
  | upgrade ws planId actor => discard (Billing.upgrade now ws planId actor)
  | scheduleChange ws planId interval actor =>
    discard (Billing.scheduleChange now ws planId interval actor)
  | processDue ws => discard (Billing.processDue now ws)
  | buyAiPack ws packId price key actor => discard (Billing.buyAiPack now ws packId price key actor)
  | aiPackReverse ws pack most key refundId provider =>
    discard (Billing.aiPackReverse now ws pack most key refundId provider)
  | adminReplaced ws => discard (Billing.adminReplaced now ws)
  | releaseStalePrepaid ws => discard (Billing.releaseStalePrepaid now ws)
  | cardRegister provider subscriptionId currency id =>
    discard (Billing.cardRegister provider subscriptionId currency id)
  | cardRecordCharge cardId txnId origin amount currency item id =>
    discard (Billing.cardRecordCharge cardId txnId origin amount currency item id)
  | cardSettle id amount currency txnId =>
    discard (Billing.cardSettle now id amount currency txnId)
  | cardSetStatus cardId status reason => discard (Billing.cardSetStatus cardId status reason)
  | aiWallet command => onWallet (command.call now)
  | editPlan planId plan => modify fun db => { db with plans := db.plans.put planId plan }
  | editSettings settings => modify fun db => { db with settings }
  | editSubscription ws subscription =>
    modify fun db => { db with subscriptions := db.subscriptions.put ws subscription }
  | setAutoRenew ws on => updateAccount ws fun a => some { a with autoRenew := on }
  | createPayment payment => discard (insertPayment payment.opened)
  | bindPayment id ref => Billing.bindPayment id ref
  | endPayment id status => updatePayment id (·.ended status)

def Db.step (db : Db) (c : Timestamp × Operation) : Db := commit (c.2.call c.1) db

def Db.upgradePayment (db : Db) (workspaceId paymentId : Id) : Bool :=
  (db.payments.get paymentId).any fun pay => pay.workspaceId = workspaceId ∧ pay.purpose = .upgrade

def Operation.reprices (db : Db) (workspaceId : Id) : Operation → Bool
  | upgrade ws _ _ => ws = workspaceId
  | scheduleChange ws _ _ _ => ws = workspaceId
  | settlePayment id => db.upgradePayment workspaceId id
  | cardSettle id _ _ _ => db.upgradePayment workspaceId id
  | editPlan _ _ => true
  | editSubscription ws _ => ws = workspaceId
  | _ => false

variable {now : Timestamp} {db : Db} {paymentId : Id} {amount : Option Int}
  {currency : Option String}

structure Steps (now : Timestamp) (reprices : Id → Prop) (db db' : Db) : Prop where
  keys : KeysSound db'
  moves : ∀ ws, Moves ws now (reprices ws) (db.book ws) (db'.book ws)

variable {ws : Id} {reprices : Id → Prop} {db' : Db} {r : Unit × Db}

theorem Does.steps (h : Does ws now (reprices ws) db db') : Steps now reprices db db' := by
  refine ⟨h.keys, fun ws' => ?_⟩
  by_cases hws : ws' = ws
  · rw [hws]
    exact h.moves
  · rw [h.others ws' hws]
    exact .refl

theorem Steps.same (hkeys : KeysSound db') (hbook : ∀ ws, db'.book ws = db.book ws)
    : Steps now reprices db db' :=
  ⟨hkeys, fun ws => by rw [hbook]; exact .refl⟩

theorem edit_steps (hkeys : KeysSound db) (haccounts : db'.accounts = db.accounts)
    (hledger : db'.ledger = db.ledger) (hlog : db'.planChangeLog = db.planChangeLog)
    (hid : db'.nextId = db.nextId) (hperiod : ∀ ws, db'.period ws = db.period ws ∨ reprices ws)
    : Steps now reprices db db' := by
  refine ⟨hkeys.frame hledger hid.ge, fun ws => ?_⟩
  have hbook : db'.book ws = { db.book ws with period := db'.period ws } := by
    simp only [Db.book, haccounts, hledger, hlog]
  rw [hbook]
  rcases hperiod ws with hsame | hr
  · rw [hsame]
    exact .refl
  · exact .single (.edited _ hr)

theorem bindPayment_steps (hkeys : KeysSound db) {ref : Option String}
    (h : bindPayment paymentId ref db = .ok r) : Steps now reprices db r.2 := by
  unfold bindPayment at h
  rw [get_bind] at h
  obtain ⟨-, h⟩ := require_bind_ok.mp h
  rw [modify_ok.mp h]
  exact edit_steps hkeys rfl rfl rfl rfl fun _ => .inl (period_eq rfl rfl)

theorem insertPayment_steps (hkeys : KeysSound db) {pay : Payment} {r : Id × Db}
    (h : insertPayment pay db = .ok r) : Steps now reprices db r.2 :=
  (show Does 0 now (reprices 0) db r.2 from insertPayment_does _ hkeys h).steps

theorem setAutoRenew_steps (hkeys : KeysSound db) {on : Bool}
    (h : updateAccount ws (fun a => some { a with autoRenew := on }) db = .ok r) :
    Steps now reprices db r.2 := by
  rcases updateAccount_ok h with ⟨-, hdb⟩ | ⟨acc, acc', hacc, hf, hdb⟩
  · rw [hdb]
    exact .same hkeys fun _ => rfl
  · cases hf
    rw [hdb]
    exact .same (hkeys.frame rfl le_rfl) (book_put hacc rfl)

theorem settlePayment_steps (hkeys : KeysSound db) {r : SettleResult × Db}
    (h : settlePayment now paymentId db = .ok r) :
    Steps now (fun ws => db.upgradePayment ws paymentId) db r.2 := by
  cases hpay : db.payments.get paymentId with
  | none =>
    unfold settlePayment at h
    rw [get_bind] at h
    simp only [hpay] at h
    exact (throw_ok.mp h).elim
  | some pay =>
    exact (settlePayment_does _ hkeys hpay
      (fun hpurpose => by simp [Db.upgradePayment, hpay, hpurpose]) h).steps

theorem cardSettle_steps (hkeys : KeysSound db) {txnId : Option String} {r : SettleResult × Db}
    (h : cardSettle now paymentId amount currency txnId db = .ok r) :
    Steps now (fun ws => db.upgradePayment ws paymentId) db r.2 := by
  cases hpay : db.payments.get paymentId with
  | none =>
    unfold cardSettle at h
    rw [get_bind] at h
    simp only [hpay] at h
    exact (throw_ok.mp h).elim
  | some pay =>
    exact (cardSettle_does _ hkeys hpay
      (fun hpurpose => by simp [Db.upgradePayment, hpay, hpurpose]) h).steps

theorem refundPayment_steps (hkeys : KeysSound db) {refundId : String} {r : RefundResult × Db}
    (h : refundPayment now paymentId refundId amount db = .ok r) : Steps now reprices db r.2 := by
  cases hpay : db.payments.get paymentId with
  | none =>
    obtain ⟨-, h⟩ := require_bind_ok.mp h
    rw [get_bind] at h
    simp only [hpay] at h
    exact (throw_ok.mp h).elim
  | some pay => exact (refundPayment_does _ hkeys hpay h).steps

theorem cardRegister_steps (hkeys : KeysSound db) {provider subscriptionId : String} {r : Id × Db}
    (h : cardRegister provider subscriptionId currency paymentId db = .ok r) :
    Steps now reprices db r.2 := by
  cases hpay : db.payments.get paymentId with
  | none =>
    unfold cardRegister at h
    rw [get_bind] at h
    simp only [hpay] at h
    exact (throw_ok.mp h).elim
  | some pay => exact (cardRegister_does _ hkeys hpay h).steps

theorem cardRecordCharge_steps (hkeys : KeysSound db) {cardId : Id} {txnId origin : Option String}
    {item : Option ChargeItem} {paymentId : Option Id} {r : Id × Db}
    (h : cardRecordCharge cardId txnId origin amount currency item paymentId db = .ok r) :
    Steps now reprices db r.2 := by
  cases hcard : db.cards.get cardId with
  | none =>
    unfold cardRecordCharge at h
    split at h
    · obtain ⟨-, h⟩ := require_bind_ok.mp h
      rw [get_bind] at h
      simp only [hcard] at h
      exact (throw_ok.mp h).elim
    · exact (throw_ok.mp h).elim
  | some card => exact (cardRecordCharge_does _ hkeys hcard h).steps

theorem call_steps (hkeys : KeysSound db) (op : Operation) (h : op.call now db = .ok r)
    : Steps now (fun ws => op.reprices db ws) db r.2 := by
  cases op with
  | ensure ws currency => exact (ensure_does _ hkeys h).1.steps
  | recordVerification id amount currency reference =>
    obtain ⟨_, -, -, ⟨-, -, hdb⟩ | ⟨-, -, -, hdb⟩⟩ := recordVerification_ok h
    · rw [hdb]
      exact .same hkeys fun _ => rfl
    · rw [hdb]
      exact edit_steps hkeys rfl rfl rfl rfl fun _ => .inl (period_eq rfl rfl)
  | settlePayment id =>
    obtain ⟨a, h⟩ := discard_ok h
    exact settlePayment_steps hkeys h
  | refundPayment id refundId amount =>
    obtain ⟨a, h⟩ := discard_ok h
    exact refundPayment_steps hkeys h
  | adminAdjust ws amount currency reason actor key category expected =>
    obtain ⟨a, h⟩ := discard_ok h
    exact (adminAdjust_does _ hkeys h).steps
  | purchasePlan ws planId interval key actor =>
    obtain ⟨a, h⟩ := discard_ok h
    exact (purchasePlan_does _ hkeys h).steps
  | renew ws actor periodEnd price override =>
    obtain ⟨a, h⟩ := discard_ok h
    exact (renew_does _ hkeys h).1.steps
  | upgrade ws planId actor =>
    obtain ⟨a, h⟩ := discard_ok h
    exact (upgrade_does _ (by simp [Operation.reprices]) hkeys h).steps
  | scheduleChange ws planId interval actor =>
    obtain ⟨a, h⟩ := discard_ok h
    exact (scheduleChange_does _ (by simp [Operation.reprices]) hkeys h).steps
  | processDue ws =>
    obtain ⟨a, h⟩ := discard_ok h
    exact (processDue_does _ hkeys h).1.steps
  | buyAiPack ws packId price key actor =>
    obtain ⟨a, h⟩ := discard_ok h
    exact (buyAiPack_does _ hkeys h).steps
  | aiPackReverse ws pack most key refundId provider =>
    obtain ⟨a, h⟩ := discard_ok h
    exact (aiPackReverse_does _ hkeys h).1.steps
  | adminReplaced ws =>
    obtain ⟨a, h⟩ := discard_ok h
    exact (adminReplaced_does _ hkeys h).steps
  | releaseStalePrepaid ws =>
    obtain ⟨a, h⟩ := discard_ok h
    exact (releaseStale_does _ hkeys h).1.steps
  | cardRegister provider subscriptionId currency id =>
    obtain ⟨a, h⟩ := discard_ok h
    exact cardRegister_steps hkeys h
  | cardRecordCharge cardId txnId origin amount currency item id =>
    obtain ⟨a, h⟩ := discard_ok h
    exact cardRecordCharge_steps hkeys h
  | cardSettle id amount currency txnId =>
    obtain ⟨a, h⟩ := discard_ok h
    exact cardSettle_steps hkeys h
  | cardSetStatus cardId status reason =>
    obtain ⟨a, h⟩ := discard_ok h
    obtain ⟨hkeys', hbook, -⟩ := cardSetStatus_does hkeys h
    exact .same hkeys' hbook
  | aiWallet command =>
    obtain ⟨w, -, hdb⟩ := onWallet_ok h
    rw [hdb]
    exact edit_steps hkeys rfl rfl rfl rfl fun _ => .inl (period_eq rfl rfl)
  | editPlan planId plan =>
    rw [modify_ok.mp h]
    exact edit_steps hkeys rfl rfl rfl rfl fun _ => .inr rfl
  | editSettings settings =>
    rw [modify_ok.mp h]
    exact edit_steps hkeys rfl rfl rfl rfl fun _ => .inl (period_eq rfl rfl)
  | editSubscription ws subscription =>
    rw [modify_ok.mp h]
    refine edit_steps hkeys rfl rfl rfl rfl fun ws' => ?_
    by_cases hws : ws' = ws
    · exact .inr (by simp [Operation.reprices, hws])
    · refine .inl ?_
      simp only [Db.period, Db.paidSubscription, Table.get_put_ne _ _ hws]
      rfl
  | setAutoRenew ws on => exact setAutoRenew_steps hkeys h
  | createPayment payment =>
    obtain ⟨a, h⟩ := discard_ok h
    exact insertPayment_steps hkeys h
  | bindPayment id ref => exact bindPayment_steps hkeys h
  | endPayment id status =>
    rw [modify_ok.mp h]
    exact edit_steps hkeys rfl rfl rfl rfl fun _ => .inl (period_eq rfl rfl)

theorem step_steps (hkeys : KeysSound db) (c : Timestamp × Operation) :
    Steps c.1 (fun ws => c.2.reprices db ws) db (db.step c) := by
  unfold Db.step commit
  split
  · rename_i h
    exact call_steps hkeys c.2 h
  · exact .same hkeys fun _ => rfl

structure Sound (db : Db) : Prop where
  keys : KeysSound db
  balanced : ∀ ws, (db.book ws).Balanced
  conserved : ∀ ws, (db.book ws).Conserved

theorem sound_empty : Sound .empty where
  keys := keysSound_empty
  balanced ws :=
    { empty := fun _ => rfl
      backed := fun m hm => by simp [Db.book, Db.empty] at hm }
  conserved ws :=
    { together := fun m hm => by simp [Db.book, Db.empty] at hm
      conserved := fun P => rfl }

theorem Sound.step (h : Sound db) (c : Timestamp × Operation) : Sound (db.step c) := by
  obtain ⟨hkeys, hmoves⟩ := step_steps h.keys c
  exact ⟨hkeys, fun ws => (hmoves ws).balanced (h.balanced ws),
    fun ws => (hmoves ws).conserved (h.conserved ws)⟩

theorem sound_run (calls : List (Timestamp × Operation)) : Sound (run Db.step .empty calls) :=
  run_invariant (fun _ c hs => hs.step c) sound_empty calls

def Db.ledgerOf (db : Db) (workspaceId : Id) : List LedgerRow :=
  (db.ledger.rows.filter fun e => e.2.workspaceId = workspaceId).map Prod.snd

def Db.balanceOf (db : Db) (workspaceId : Id) : Int :=
  ((db.accounts.get workspaceId).map (·.balanceMinor)).getD 0

theorem book_account {acc : Account} (hacc : db.accounts.get ws = some acc) :
    (db.book ws).account = some acc.money := by
  simp [Db.book, hacc]

theorem ledgerOf_eq (ws : Id) : db.ledgerOf ws = (db.book ws).rows.map Prod.snd := rfl

theorem Sound.balanceOf (h : Sound db) (ws : Id) :
    db.balanceOf ws = ((db.ledgerOf ws).map (·.amountMinor)).sum := by
  cases hacc : db.accounts.get ws with
  | none =>
    have hnone : (db.book ws).rows = [] := (h.balanced ws).empty (by simp [Db.book, hacc])
    simp [ledgerOf_eq, hnone, Db.balanceOf, hacc]
  | some acc =>
    have hsum := ((h.balanced ws).backed _ (book_account hacc)).sum
    rw [ledgerOf_eq, List.map_map, show db.balanceOf ws = acc.balanceMinor by
      simp [Db.balanceOf, hacc]]
    exact hsum

/-- The balance is the sum of the rows and what the last of them says, and all
are in the account's currency. -/
theorem balance_eq_ledger (calls : List (Timestamp × Operation)) (ws : Id) :
    let db := run Db.step .empty calls
    db.balanceOf ws = ((db.ledgerOf ws).map (·.amountMinor)).sum ∧
      db.balanceOf ws = ((db.ledgerOf ws).getLast?.map (·.balanceAfter)).getD 0 ∧
      0 ≤ db.balanceOf ws ∧
      ∀ row ∈ db.ledgerOf ws, (db.accounts.get ws).map (·.currency) = some row.currency := by
  intro db
  have hsound := sound_run calls
  refine ⟨hsound.balanceOf ws, ?_⟩
  cases hacc : db.accounts.get ws with
  | none =>
    have hnone : (db.book ws).rows = [] := (hsound.balanced ws).empty (by simp [Db.book, db, hacc])
    simp [ledgerOf_eq, hnone, Db.balanceOf, hacc]
  | some acc =>
    obtain ⟨-, hlast, hcurrency⟩ := (hsound.balanced ws).backed _ (book_account hacc)
    have hbalance : db.balanceOf ws = acc.balanceMinor := by simp [Db.balanceOf, hacc]
    rw [hbalance, ledgerOf_eq]
    refine ⟨?_, acc.balance_check, fun row hrow => ?_⟩
    · rw [List.getLast?_map, Option.map_map]
      exact hlast
    · obtain ⟨e, he, rfl⟩ := List.mem_map.mp hrow
      exact congrArg some (hcurrency e he).symm

/-- The prepayment's columns are set together; for any set of periods what was
debited ahead is what was returned, used up or is held; and a call uses up at
most the prepayment held, when its period starts. -/
theorem prepayments_conserved (calls : List (Timestamp × Operation)) (ws : Id) :
    let db := run Db.step .empty calls
    ((db.accounts.get ws).all fun a =>
        a.nextPeriodPrepaidMinor.isSome = a.nextPeriodStart.isSome) ∧
      (∀ P, (db.book ws).debited P =
        (db.book ws).returned P + (db.book ws).used P + (db.book ws).held P) ∧
      ∀ c, (db.book ws).Uses c.1 ((db.step c).book ws) := by
  intro db
  have hsound := sound_run calls
  obtain ⟨htogether, hconserved⟩ := hsound.conserved ws
  refine ⟨?_, hconserved, fun c => ((step_steps hsound.keys c).moves ws).uses⟩
  cases hacc : db.accounts.get ws with
  | none => rfl
  | some acc =>
    have := htogether _ (book_account hacc)
    simpa [Account.money, Account.next] using Bool.eq_iff_iff.mpr this

end Kindred.Billing
