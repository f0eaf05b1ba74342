import Kindred.Billing.Purchases

/-! A settled payment: its purpose is bought once, or the money is kept. -/

namespace Kindred.Billing
open Lib (Table run run_invariant)
open Lib.Tx

variable {now : Timestamp} {ws : Id} {db : Db} {paymentId : Id} {pay : Payment} {db' : Db}
  {acc : Account}

structure Account.Received (a a' : Account) (amount : Int) (currency : String) : Prop where
  balance : a'.balanceMinor = a.balanceMinor + amount
  currency : a'.currency = currency
  autoRenew : a'.autoRenew = a.autoRenew
  scheduledPlanId : a'.scheduledPlanId = a.scheduledPlanId
  scheduledInterval : a'.scheduledInterval = a.scheduledInterval
  prepaid : a'.nextPeriodPrepaidMinor = a.nextPeriodPrepaidMinor
  prepaidStart : a'.nextPeriodStart = a.nextPeriodStart
  cardProvider : a'.cardProvider = a.cardProvider
  cardSubscriptionId : a'.cardSubscriptionId = a.cardSubscriptionId

def Db.accountFor (db : Db) (pay : Payment) : Account :=
  (db.accounts.get pay.workspaceId).getD { currency := pay.currency }

/-- The top-up is booked and the payment marked; all else is as it was. -/
structure OnlyCredited (paymentId : Id) (pay : Payment) (db db' : Db) : Prop where
  subscriptions : db'.subscriptions = db.subscriptions
  planChangeLog : db'.planChangeLog = db.planChangeLog
  wallet : db'.wallet = db.wallet
  cards : db'.cards = db.cards
  plans : db'.plans = db.plans
  settings : db'.settings = db.settings
  nextId : db.nextId ≤ db'.nextId
  account : ∃ acc, db'.accounts.get pay.workspaceId = some acc ∧
    (db.accountFor pay).Received acc pay.netMinor pay.currency
  accounts : ∀ other ≠ pay.workspaceId, db'.accounts.get other = db.accounts.get other
  topup : ∃ row, row.kind = .topup ∧ row.workspaceId = pay.workspaceId ∧
    row.amountMinor = pay.netMinor ∧
    db'.ledger.rows = db.ledger.rows ++ [(.payment paymentId, row)]
  payment : ∃ paid, db'.payments.get paymentId = some paid ∧ paid.status = .succeeded
  payments : ∀ other ≠ paymentId, db'.payments.get other = db.payments.get other

theorem OnlyCredited.noted (h : OnlyCredited paymentId pay db db') {f : Payment → Payment}
    (hf : ∀ p, (f p).status = p.status) :
    OnlyCredited paymentId pay db { db' with payments := db'.payments.update paymentId f } where
  subscriptions := h.subscriptions
  planChangeLog := h.planChangeLog
  wallet := h.wallet
  cards := h.cards
  plans := h.plans
  settings := h.settings
  nextId := h.nextId
  account := h.account
  accounts := h.accounts
  topup := h.topup
  payment := by
    obtain ⟨paid, hpaid, hstatus⟩ := h.payment
    exact ⟨f paid, by simp [hpaid], (hf paid).trans hstatus⟩
  payments other hne := (Table.get_update_ne _ _ hne).trans (h.payments other hne)

theorem matchCurrency_ok (hacc : db.accounts.get pay.workspaceId = some acc) {r : Account × Db}
    (h : matchCurrency pay acc db = .ok r) :
    r.1 = acc.inCurrency pay.currency ∧
      (r.2 = db ∧ r.1 = acc ∨
        r.2 = { db with accounts := db.accounts.put pay.workspaceId r.1 }) := by
  rcases ite_ok.mp h with ⟨hsame, h⟩ | ⟨-, h⟩
  · rw [pure_ok.mp h]
    refine ⟨?_, .inl ⟨rfl, rfl⟩⟩
    rw [← hsame]
    rfl
  · rw [get_bind] at h
    obtain ⟨-, h⟩ := require_bind_ok.mp h
    obtain ⟨-, h⟩ := require_bind_ok.mp h
    obtain ⟨_, db₁, hup, h⟩ := bind_ok.mp h
    rw [pure_ok.mp h]
    refine ⟨rfl, .inr ?_⟩
    rcases updateAccount_ok hup with ⟨hnone, -⟩ | ⟨a, acc', ha, hf, hdb⟩
    · rw [hacc] at hnone
      cases hnone
    · cases hacc.symm.trans ha
      cases hf
      exact hdb

theorem received_balance {a acc' : Account} {amount : Int} {currency : String}
    (hacc : acc = a.inCurrency currency)
    (h : acc.withBalance (acc.balanceMinor + amount) = some acc') :
    a.Received acc' amount currency := by
  subst hacc
  unfold Account.withBalance at h
  split at h
  · cases h
    constructor <;> rfl
  · cases h

theorem creditAccount_ok {r : Unit × Db} {r' : Account × Db}
    (hensure : ensure pay.workspaceId pay.currency db = .ok r)
    (hacc : r.2.accounts.get pay.workspaceId = some acc)
    (hmatch : matchCurrency pay acc r.2 = .ok r') :
    ∃ accounts, r'.2 = { db with accounts } ∧ accounts.get pay.workspaceId = some r'.1 ∧
      r'.1 = (db.accountFor pay).inCurrency pay.currency ∧
      ∀ other ≠ pay.workspaceId, accounts.get other = db.accounts.get other := by
  obtain ⟨hcurrency, hwrote⟩ := matchCurrency_ok hacc hmatch
  have hopened : ∃ accounts, r.2 = { db with accounts } ∧
      acc.inCurrency pay.currency = (db.accountFor pay).inCurrency pay.currency ∧
      ∀ other ≠ pay.workspaceId, accounts.get other = db.accounts.get other := by
    rcases ensure_ok hensure with ⟨hdb, -⟩ | ⟨hnone, hdb⟩
    · rw [hdb] at hacc ⊢
      exact ⟨db.accounts, rfl, by rw [Db.accountFor, hacc]; rfl, fun _ _ => rfl⟩
    · rw [hdb] at hacc ⊢
      refine ⟨_, rfl, ?_, fun _ hne => Table.get_put_ne _ _ hne⟩
      cases (Table.get_put_self _ _ _).symm.trans hacc
      rw [Db.accountFor, hnone]
      rfl
  obtain ⟨accounts, hdb, hsame, hothers⟩ := hopened
  rcases hwrote with ⟨hdb', hacc'⟩ | hdb'
  · rw [hdb', hdb]
    rw [hdb] at hacc
    exact ⟨accounts, rfl, by rw [hacc']; exact hacc, hcurrency.trans hsame, hothers⟩
  · rw [hdb', hdb]
    refine ⟨_, rfl, Table.get_put_self _ _ _, hcurrency.trans hsame, fun other hne => ?_⟩
    exact (Table.get_put_ne _ _ hne).trans (hothers other hne)

theorem creditPayment_spends (hpay : db.payments.get paymentId = some pay) {r : LedgerRow × Db}
    (h : creditPayment now paymentId pay db = .ok r) :
    OnlyCredited paymentId pay db r.2 ∧ Quiet db r.2 := by
  obtain ⟨_, db₁, hensure, h⟩ := bind_ok.mp h
  obtain ⟨acc, hacc, h⟩ := readAccount_bind_ok.mp h
  obtain ⟨acc₂, db₂, hmatch, h⟩ := bind_ok.mp h
  obtain ⟨row, db₃, hrow, h⟩ := bind_ok.mp h
  obtain ⟨_, db₄, hup, h⟩ := bind_ok.mp h
  obtain ⟨_, db₅, hmark, h⟩ := bind_ok.mp h
  rw [pure_ok.mp h]
  obtain ⟨accounts, hdb₂, hacc₂, hcurrency, hothers⟩ := creditAccount_ok hensure hacc hmatch
  have hdb₂ : db₂ = { db with accounts } := hdb₂
  subst hdb₂
  obtain ⟨acc', hnew, hbalance, hposted, hdb₄⟩ := post_ok hacc₂ hrow hup
  have hdb₄ : db₄ = Db.posted _ pay.workspaceId (.payment paymentId) row acc' := hdb₄
  have hdb₅ : db₅ = _ := congrArg Prod.snd (modify_ok.mp hmark)
  subst hdb₄ hdb₅
  have hnew : db.ledger.get (.payment paymentId) = none := hnew
  refine ⟨⟨rfl, rfl, rfl, rfl, rfl, rfl, Nat.le_succ _, ?_, ?_, ?_, ?_, ?_⟩, ?_⟩
  · exact ⟨acc', Table.get_put_self _ _ _, received_balance hcurrency hbalance⟩
  · intro other hne
    exact (Table.get_put_ne _ _ hne).trans (hothers other hne)
  · refine ⟨row, ?_, ?_, ?_, put_rows_new hnew⟩ <;> rw [show row = _ from hposted]
  · exact ⟨_, (Table.get_update_self _ _ _).trans (congrArg (Option.map _) hpay), rfl⟩
  · intro other hne
    exact Table.get_update_ne _ _ hne
  · have hpositive : 0 < row.amountMinor := by
      rw [show row = _ from hposted]
      exact pay.amount_check.1
    exact Spends.posted hnew (by rfl) (by rfl) (.inl ⟨rfl, hpositive⟩)

def Db.noted (db : Db) (paymentId : Id) (result : PurposeResult) : Db :=
  { db with
    payments := db.payments.update paymentId fun p => { p with purposeResult := some result } }

theorem settlePurpose_spends {r : Option PurposeResult × Db}
    (h : settlePurpose now paymentId pay db = .ok r) :
    r = (none, db) ∨ ∃ result db', r = (some result, db'.noted paymentId result) ∧
      (result.failed ∧ db' = db ∨
        ¬result.failed ∧ (KeysSound db → db.served paymentId pay db')) := by
  rcases ite_ok.mp h with ⟨-, h⟩ | ⟨hpurpose, h⟩
  · exact .inl (pure_ok.mp h)
  · obtain ⟨result, db₁, hspend, h⟩ := bind_ok.mp h
    obtain ⟨result', db₂, hfallback, h⟩ := bind_ok.mp h
    obtain ⟨_, db₃, hnote, h⟩ := bind_ok.mp h
    refine .inr ⟨result', db₂, ?_, ?_⟩
    · rw [pure_ok.mp h, show db₃ = _ from congrArg Prod.snd (modify_ok.mp hnote)]
      rfl
    · have hspent : result.failed ∧ db₁ = db ∨
          ¬result.failed ∧ (KeysSound db → db.served paymentId pay db₁) := by
        rcases tryCatch_ok.mp hspend with hspend | ⟨_, -, hraised⟩
        · exact spendOnPurpose_spends hpurpose hspend
        · cases pure_ok.mp hraised
          exact .inl ⟨rfl, rfl⟩
      rcases hspent with ⟨hfailed, hdb⟩ | ⟨hdone, hserved⟩
      · rw [hdb] at hfallback
        cases result with
        | error e raised => exact spendOnFallback_spends hfallback
        | done _ => cases hfailed
        | pack _ => cases hfailed
      · cases spendOnFallback_kept hdone hfallback
        exact .inr ⟨hdone, hserved⟩

theorem settlePurpose_succeeds (paymentId : Id) (pay : Payment) :
    Succeeds (settlePurpose now paymentId pay) db := by
  refine .ite (fun _ => .pure _ _) fun _ => ?_
  refine (Succeeds.tryCatch fun _ => .pure _ _).bind fun r _ => Succeeds.bind ?_ fun _ _ =>
    (Succeeds.modify _ _).bind fun _ _ => .pure _ _
  refine .get_bind ?_
  split
  · exact .ite (fun _ => .tryCatch fun _ => .pure _ _) fun _ => .pure _ _
  · exact .pure _ _

variable {may : Right → Prop}

theorem account_write (h : Statement may db db') (hdb : (db.accounts.get ws).isSome)
    : (db'.accounts.get ws).isSome := by
  have hput : ∀ {other : Id} {acc : Account}, ((db.accounts.put other acc).get ws).isSome := by
    intro other acc
    rw [Table.get_put]
    split
    · rfl
    · exact hdb
  cases h with
  | money h =>
    cases h with
    | account | opened | saved => exact hput
    | moved card' hcard h =>
      split
      · rw [Table.get_update]
        split
        · rename_i hsame
          rw [hsame] at hdb
          simpa using hdb
        · exact hdb
      · exact hdb
    | drawn | subscriptions | duplicate | wallet | posted => exact hdb
  | renewal on hmay hacc => exact hput
  | edited | opened | noted | ended | verified | credited | succeeded | refunded => exact hdb

def Db.Settled (db : Db) (paymentId : Id) : Prop :=
  paymentId < db.nextId ∧
    ∃ pay, db.payments.get paymentId = some pay ∧ pay.status = .succeeded

theorem settled_write (h : Statement may db db') (hdb : db.Settled paymentId) :
    db'.Settled paymentId := by
  obtain ⟨hid, pay, hpay, hstatus⟩ := hdb
  have hput : ∀ {other : Id} {p p' : Payment}, db.payments.get other = some p →
      (p.status = .succeeded → p'.status = .succeeded) →
      ∃ q, (db.payments.put other p').get paymentId = some q ∧ q.status = .succeeded := by
    intro other p p' hp hkept
    by_cases hsame : paymentId = other
    · subst hsame
      cases hpay.symm.trans hp
      exact ⟨p', Table.get_put_self _ _ _, hkept hstatus⟩
    · exact ⟨pay, (Table.get_put_ne _ _ hsame).trans hpay, hstatus⟩
  cases h with
  | money h =>
    refine ⟨?_, pay, by rw [h.payments]; exact hpay, hstatus⟩
    cases h with
    | drawn | duplicate | saved | posted => exact Nat.lt_succ_of_lt hid
    | account | opened | subscriptions | moved | wallet => exact hid
  | opened hopened =>
    refine ⟨Nat.lt_succ_of_lt hid, pay, ?_, hstatus⟩
    exact (Table.get_put_ne _ _ (Nat.ne_of_lt hid)).trans hpay
  | noted hp hsame => exact ⟨hid, hput hp fun hs => hsame.status.trans hs⟩
  | ended hp hpending =>
    refine ⟨hid, hput hp fun hs => ?_⟩
    rw [hpending] at hs
    cases hs
  | verified hp => exact ⟨hid, hput hp fun hs => hs⟩
  | succeeded hp => exact ⟨hid, hput hp fun _ => rfl⟩
  | refunded hmay hp => exact ⟨hid, hput hp fun hs => hs⟩
  | credited => exact ⟨Nat.lt_succ_of_lt hid, pay, hpay, hstatus⟩
  | edited | renewal => exact ⟨hid, pay, hpay, hstatus⟩

theorem settled_run (hdb : db.Settled paymentId) (calls : List (Timestamp × Operation)) :
    (run Db.step db calls).Settled paymentId := by
  have hwrite : ∀ s t, Statement (fun _ => True) s t → s.Settled paymentId → t.Settled paymentId :=
    fun _ _ hw => settled_write hw
  refine run_invariant (I := (Db.Settled · paymentId)) (fun s c hs => ?_) hdb calls
  exact step_keeps hwrite (fun _ _ h => h) hs c (fun _ => trivial) (fun _ => trivial)
    fun _ => trivial

theorem paid_of_credited (h : OnlyCredited paymentId pay db db') (ws : Id) :
    db'.paidSubscription ws = db.paidSubscription ws := by
  unfold Db.paidSubscription Db.asPaid
  rw [h.subscriptions, h.plans]

theorem served_of_credited {db'' : Db} (hcredit : OnlyCredited paymentId pay db db')
    (hquiet : Quiet db db') (h : db'.served paymentId pay db'') : db.served paymentId pay db'' := by
  have hkept : ∀ {key : Key}, key.charges.isSome → (db'.ledger.get key).isSome →
      (db.ledger.get key).isSome := by
    intro key hcharges hsome
    cases hget : db.ledger.get key with
    | some _ => rfl
    | none =>
      rw [hquiet.absent hcharges hget] at hsome
      cases hsome
  rcases h with ⟨good, hgood, hbuys⟩ | ⟨halready, hafter⟩
  · exact .inl ⟨good, hgood, hquiet.then hbuys⟩
  · refine .inr ⟨?_, hquiet.then hafter⟩
    unfold Db.alreadyBought at halready ⊢
    cases hpurpose : pay.purpose with
    | topup => simp only [hpurpose] at halready
    | plan | renewal | aiPack =>
      simp only [hpurpose] at halready ⊢
      exact hkept rfl halready
    | upgrade =>
      simp only [hpurpose] at halready ⊢
      rwa [paid_of_credited hcredit] at halready

theorem served_noted (result : PurposeResult) (h : db.served paymentId pay db') :
    db.served paymentId pay (db'.noted paymentId result) := by
  have hnoted : Quiet db' (db'.noted paymentId result) := .same rfl rfl
  rcases h with ⟨good, hgood, hbuys⟩ | ⟨halready, hquiet⟩
  · exact .inl ⟨good, hgood, hbuys.quiet hnoted⟩
  · exact .inr ⟨halready, hquiet.then hnoted⟩

def Payment.credited (p : Payment) (row : LedgerRow) : Payment :=
  { p with status := .succeeded, ledgerId := some row.id }

theorem settlePayment_eq (hpay : db.payments.get paymentId = some pay)
    (hopen : pay.status ≠ .succeeded)
    (hverified : pay.verifiedAt.isSome ∧ pay.verifiedAmountMinor = some pay.amountMinor) :
    settlePayment now paymentId db =
      (do
        let row ← creditPayment now paymentId pay
        let result ← settlePurpose now paymentId (pay.credited row)
        let acc ← readAccount pay.workspaceId
        return .settled row.id acc.balanceMinor result : BillingTx SettleResult) db := by
  unfold settlePayment
  rw [get_bind]
  simp only [hpay, if_neg hopen, require, if_pos hverified]
  rfl

theorem settled_again (hdb : db.Settled paymentId) :
    ∃ row, settlePayment now paymentId db = .ok (.replayed row, db) := by
  obtain ⟨-, pay, hpay, hstatus⟩ := hdb
  refine ⟨pay.ledgerId, ?_⟩
  unfold settlePayment
  rw [get_bind]
  simp only [hpay, if_pos hstatus]
  rfl

theorem settlePurpose_ends (paymentId : Id) (pay : Payment)
    (hacc : db.accounts.get pay.workspaceId = some acc)
    (hpay : ∀ p, db.payments.get paymentId = some p → p.workspaceId = pay.workspaceId) :
    ∃ result db' acc', settlePurpose now paymentId pay db = .ok (result, db') ∧
      db'.accounts.get pay.workspaceId = some acc' ∧
      (db.Settled paymentId → db'.Settled paymentId) := by
  have hsucceeds : Succeeds (settlePurpose now paymentId pay) db := settlePurpose_succeeds paymentId pay
  obtain ⟨⟨result, db'⟩, hrun⟩ := hsucceeds
  have hmade : MadeOf (Statement fun _ => True) (settlePurpose now paymentId pay) db :=
    settlePurpose_made hpay
  have hcommit : commit (settlePurpose now paymentId pay) db = db' := by
    unfold commit
    rw [hrun]
  have hsome := hmade.keeps (I := fun s => (s.accounts.get pay.workspaceId).isSome)
    (fun _ _ => account_write) (by rw [hacc]; rfl)
  rw [hcommit] at hsome
  obtain ⟨acc', hacc'⟩ := Option.isSome_iff_exists.mp hsome
  refine ⟨result, db', acc', hrun, hacc', fun hsettled => ?_⟩
  have hkept := hmade.keeps (I := (Db.Settled · paymentId)) (fun _ _ => settled_write) hsettled
  rwa [hcommit] at hkept

/-- Settling a verified payment raises only where the top-up cannot be booked.
Otherwise a purpose that fails, and a top-up that has none, leaves the top-up
and nothing else; one that succeeds bought one of what the payment is for, or
found it bought and bought nothing; and the payment is not settled again in any
later run. -/
theorem purpose_served_or_money_kept (paymentId : Id) (pay : Payment)
    (hpay : db.payments.get paymentId = some pay) (hopen : pay.status ≠ .succeeded)
    (hverified : pay.verifiedAt.isSome ∧ pay.verifiedAmountMinor = some pay.amountMinor) :
    (∃ e, creditPayment now paymentId pay db = .error e ∧
        settlePayment now paymentId db = .error e) ∨
      ∃ ledgerId balance result db',
        settlePayment now paymentId db = .ok (.settled ledgerId balance result, db') ∧
        (result.all PurposeResult.failed → OnlyCredited paymentId pay db db') ∧
        (¬result.all PurposeResult.failed → KeysSound db → db.served paymentId pay db') ∧
        (paymentId < db.nextId → ∀ calls later, ∃ row,
          settlePayment later paymentId (run Db.step db' calls) =
            .ok (.replayed row, run Db.step db' calls)) := by
  rw [settlePayment_eq hpay hopen hverified]
  cases hrun : creditPayment now paymentId pay db with
  | error e =>
    refine .inl ⟨e, rfl, ?_⟩
    show (creditPayment now paymentId pay db >>= _) = _
    rw [hrun]
    rfl
  | ok r =>
    obtain ⟨row, db₁⟩ := r
    obtain ⟨hcredit, hquiet⟩ := creditPayment_spends hpay hrun
    have hcredit : OnlyCredited paymentId pay db db₁ := hcredit
    have hquiet : Quiet db db₁ := hquiet
    obtain ⟨acc, hacc, -⟩ := hcredit.account
    obtain ⟨result, db₂, acc', hpurpose, hacc', hsettled⟩ :
        ∃ result db' acc', settlePurpose now paymentId (pay.credited row) db₁ = .ok (result, db') ∧
          db'.accounts.get pay.workspaceId = some acc' ∧
          (db₁.Settled paymentId → db'.Settled paymentId) :=
      settlePurpose_ends paymentId (pay.credited row) hacc (creditPayment_keeps hpay hrun)
    refine .inr ⟨row.id, acc'.balanceMinor, result, db₂, ?_, ?_, ?_, ?_⟩
    · refine bind_ok.mpr ⟨row, db₁, hrun, bind_ok.mpr ⟨result, db₂, hpurpose, ?_⟩⟩
      exact readAccount_bind_ok.mpr ⟨acc', hacc', rfl⟩
    · intro hfailed
      rcases settlePurpose_spends hpurpose with hnone | ⟨answer, db₃, hsome, hend⟩
      · cases hnone
        exact hcredit
      · cases hsome
        rcases hend with ⟨-, hdb⟩ | ⟨hdone, -⟩
        · rw [hdb]
          exact hcredit.noted fun _ => rfl
        · exact absurd hfailed hdone
    · intro hdone hkeys
      have hkeys₁ : KeysSound db₁ := (creditPayment_ok False hkeys hrun).1.keys
      rcases settlePurpose_spends hpurpose with hnone | ⟨answer, db₃, hsome, hend⟩
      · cases hnone
        exact absurd rfl hdone
      · cases hsome
        rcases hend with ⟨hfailed, -⟩ | ⟨-, hserved⟩
        · exact absurd hfailed hdone
        · exact served_noted answer (served_of_credited hcredit hquiet (hserved hkeys₁))
    · intro hid calls later
      obtain ⟨paid, hpaid, hstatus⟩ := hcredit.payment
      have hfirst : db₁.Settled paymentId := ⟨lt_of_lt_of_le hid hcredit.nextId, paid, hpaid, hstatus⟩
      exact settled_again (settled_run (hsettled hfirst) calls)

/-- A plan the balance does not pay for: the top-up stays. -/
theorem purpose_served_or_money_kept_short :
    let plan : Plan := { prices := .put .empty ("USD", "monthly") (.number 3000 0) }
    let pay : Payment :=
      { workspaceId := 7, provider := "paddle", currency := "USD", amountMinor := 2000
        netMinor := 2000, taxMinor := 0, purpose := .plan, purposeDetail := { planId := some 1 }
        verifiedAmountMinor := some 2000, verifiedAt := some 1, amount_check := by decide }
    let db : Db :=
      { Db.empty with
        nextId := 1, plans := .put .empty 1 plan, payments := .put .empty 0 pay }
    ∃ db', settlePayment 2 0 db = .ok (.settled 1 2000 (some (.error (.raised .insufficientBalance)
        none)), db') ∧ OnlyCredited 0 pay db db' ∧ KeysSound db := by
  intro plan pay db
  have hkeys : KeysSound db := keysSound_empty.frame rfl (Nat.zero_le _)
  have hrun : (settlePayment 2 0 db).toOption.map Prod.fst =
      some (.settled 1 2000 (some (.error (.raised .insufficientBalance) none))) := by
    decide +kernel
  have hpay : db.payments.get 0 = some pay := by decide +kernel
  rcases purpose_served_or_money_kept 0 pay hpay (by decide) (by decide) with
    ⟨e, -, herror⟩ | ⟨ledgerId, balance, result, db', hok, hkept, -⟩
  · rw [herror] at hrun
    cases hrun
  · rw [hok] at hrun
    cases hrun
    exact ⟨db', hok, hkept rfl, hkeys⟩

/-- Two upgrades to one plan are paid: the second succeeds and buys nothing. -/
theorem upgrade_paid_twice :
    ¬∀ now paymentId db pay ledgerId balance result db', db.payments.get paymentId = some pay →
      KeysSound db →
      settlePayment now paymentId db = .ok (.settled ledgerId balance (some result), db') →
      ¬result.failed → ∃ good, db'.bought = db.bought + {good} := by
  intro hclaim
  let plan (price : Int) : Plan := { prices := .put .empty ("USD", "monthly") (.number price 0) }
  let pay : Payment :=
    { workspaceId := 7, provider := "paddle", currency := "USD", amountMinor := 2000
      netMinor := 2000, taxMinor := 0, purpose := .upgrade, purposeDetail := { planId := some 2 }
      amount_check := by decide }
  let calls : List (Timestamp × Operation) :=
    [(0, .editPlan 1 (plan 1000)), (0, .editPlan 2 (plan 3000)),
     (0, .editSubscription 7 ⟨some 1, .active, some .monthly, some 0, some (30 * Lib.Calendar.day)⟩),
     (1, .createPayment pay), (2, .createPayment pay),
     (3, .recordVerification 0 (some 2000) (some "USD") (some "first")),
     (3, .recordVerification 1 (some 2000) (some "USD") (some "second")), (4, .settlePayment 0)]
  obtain ⟨db, hkeys, hpaid, hrun⟩ : ∃ db, KeysSound db ∧ (db.payments.get 1).isSome ∧
      (settlePayment 5 1 db).toOption.map (fun r => (r.1, r.2.bought.card)) =
        some (.settled 4 2000 (some (.done (some 3))), db.bought.card) :=
    ⟨run Db.step .empty calls, (sound_run calls).keys, by decide +kernel, by decide +kernel⟩
  obtain ⟨paid, hpay⟩ := Option.isSome_iff_exists.mp hpaid
  cases hsettle : settlePayment 5 1 db with
  | error e =>
    rw [hsettle] at hrun
    cases hrun
  | ok r =>
    obtain ⟨answer, db'⟩ := r
    rw [hsettle] at hrun
    obtain ⟨hanswer, hcard⟩ := Prod.ext_iff.mp (Option.some.inj hrun)
    have hanswer : answer = .settled 4 2000 (some (.done (some 3))) := hanswer
    have hcard : db'.bought.card = db.bought.card := hcard
    rw [hanswer] at hsettle
    have hdone : ¬(PurposeResult.done (some 3)).failed := by decide
    obtain ⟨good, hgood⟩ := hclaim 5 1 db paid _ _ _ db' hpay hkeys hsettle hdone
    rw [hgood, Multiset.card_add, Multiset.card_singleton] at hcard
    omega

end Kindred.Billing
