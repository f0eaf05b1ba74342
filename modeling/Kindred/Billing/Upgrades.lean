import Kindred.Billing.NextCharge
import Kindred.Billing.Refunds
import Kindred.Lib.Months

/-! An upgrade charges what it quoted. -/

namespace Kindred.Billing
open Lib (Table run)
open Lib.Tx

variable {now : Timestamp} {ws planId : Id} {db db' : Db} {cost : UpgradeCost} {acc : Account}
  {r : Unit × Db} {actor : Option Id} {sub : PaidSubscription} {start : Timestamp}

/-- What was prepaid for another period than the one after the one that runs. -/
def Db.stalePrepaid (db : Db) (workspaceId : Id) : Int :=
  match db.accounts.get workspaceId with
  | none => 0
  | some acc =>
    if acc.prepaidFollows (db.paidSubscription workspaceId) then 0
    else acc.nextPeriodPrepaidMinor.getD 0

theorem MoneyOnly.planPrice (h : MoneyOnly db db') (planId : Option Id)
    (currency interval : String) :
    db'.planPrice planId currency interval = db.planPrice planId currency interval := by
  unfold Db.planPrice
  rw [h.plans]

theorem upgradeCost_congr (h : MoneyOnly db db')
    (hcurrency : ((db'.accounts.get ws).map (·.currency)).getD db.settings.region.currency =
      ((db.accounts.get ws).map (·.currency)).getD db.settings.region.currency)
    (hreprice : ∀ sub currency, db.paidSubscription ws = some sub →
      db.reprice (db'.accounts.get ws) sub planId currency =
        db.reprice (db.accounts.get ws) sub planId currency) :
    db'.upgradeCost now ws planId = db.upgradeCost now ws planId := by
  have hprice : ∀ acc sub currency, db'.reprice acc sub planId currency =
      db.reprice acc sub planId currency := by
    intro acc sub currency
    unfold Db.reprice
    simp only [h.planPrice]
  have hsettings : db'.settings = db.settings := by rw [h]
  unfold Db.upgradeCost
  rw [h.paid]
  cases hsub : db.paidSubscription ws with
  | none => rfl
  | some sub => simp only [hsettings, hcurrency, h.planPrice, hprice, hreprice sub _ hsub]

theorem region_currency_upper (region : Region) : region.currency.toUpper = region.currency := by
  cases region <;> decide +kernel

structure Opens (ws planId : Id) (now : Timestamp) (db db' : Db) : Prop where
  money : MoneyOnly db db'
  account : (db'.accounts.get ws).isSome
  quote : db'.upgradeCost now ws planId = db.upgradeCost now ws planId
  balance : db'.balanceOf ws = db.balanceOf ws
  stale : db'.stalePrepaid ws = db.stalePrepaid ws
  ledger : db'.ledger = db.ledger

theorem lock_opens {r : Account × Db} (h : lock ws db = .ok r) : Opens ws planId now db r.2 := by
  unfold lock at h
  rw [get_bind] at h
  obtain ⟨_, db₁, hensure, h⟩ := bind_ok.mp h
  obtain ⟨hacc, hdb⟩ := readAccount_ok.mp h
  rw [hdb]
  rcases ensure_ok hensure with ⟨hdb₁, -⟩ | ⟨hnone, hdb₁⟩
  · have hdb₁ : db₁ = db := hdb₁
    rw [hdb₁] at hacc ⊢
    exact ⟨.refl db, by rw [hacc]; rfl, rfl, rfl, rfl, rfl⟩
  · have hdb₁ : db₁ = _ := hdb₁
    have hget : db₁.accounts.get ws = some { currency := db.settings.region.currency.toUpper } := by
      rw [hdb₁]
      exact Table.get_put_self _ _ _
    have hmoney : MoneyOnly db db₁ := by
      rw [hdb₁]
      rfl
    refine ⟨hmoney, by rw [hget]; rfl, upgradeCost_congr hmoney ?_ fun sub currency _ => ?_, ?_, ?_,
      by rw [hdb₁]⟩
    · rw [hget, hnone]
      exact region_currency_upper _
    · rw [hget, hnone]
      rfl
    · simp [Db.balanceOf, hget, hnone]
    · simp [Db.stalePrepaid, hget, hnone]

theorem ledger_own {key key' : Key} {row : LedgerRow} (hkey : key.uuid.isSome)
    (hkey' : key'.uuid = none) (t : Table Key LedgerRow) :
    (t.put key row).get key' = t.get key' := by
  refine Table.get_put_ne _ _ fun h => ?_
  rw [← h, hkey'] at hkey
  cases hkey

structure Releases (ws planId : Id) (now : Timestamp) (db db' : Db) : Prop where
  money : MoneyOnly db db'
  account : (db'.accounts.get ws).isSome
  quote : db'.upgradeCost now ws planId = db.upgradeCost now ws planId
  balance : db'.balanceOf ws = db.balanceOf ws + db.stalePrepaid ws
  ledger : ∀ key : Key, key.uuid = none → db'.ledger.get key = db.ledger.get key

theorem releaseStale_releases (hkeys : KeysSound db) (hsome : (db.accounts.get ws).isSome)
    {r : Int × Db} (h : releaseStalePrepaid now ws db = .ok r) : Releases ws planId now db r.2 := by
  have ⟨_, hmoney, _⟩ : Does ws now False db r.2 ∧ MoneyOnly db r.2 ∧ _ :=
    releaseStale_does False hkeys h
  have hsame : db.stalePrepaid ws = 0 → r.2 = db → Releases ws planId now db r.2 := by
    intro hzero hdb
    rw [hdb]
    exact ⟨.refl db, hsome, rfl, by omega, fun _ _ => rfl⟩
  unfold releaseStalePrepaid at h
  rw [get_bind] at h
  obtain ⟨acc, hacc⟩ := Option.isSome_iff_exists.mp hsome
  simp only [hacc] at h
  cases hp : acc.nextPeriodPrepaidMinor with
  | none =>
    simp only [hp] at h
    exact hsame (by simp [Db.stalePrepaid, hacc, hp]) (by rw [pure_ok.mp h])
  | some p =>
    simp only [hp] at h
    rcases ite_ok.mp h with ⟨hfollows, h⟩ | ⟨hstale, h⟩
    · exact hsame (by simp [Db.stalePrepaid, hacc, hfollows]) (by rw [pure_ok.mp h])
    · rw [randomUuid_bind] at h
      obtain ⟨_, db₁, hback, h⟩ := bind_ok.mp h
      obtain ⟨_, db₂, hup, h⟩ := bind_ok.mp h
      rw [pure_ok.mp h] at hmoney ⊢
      have hstalePrepaid : db.stalePrepaid ws = p := by
        simp [Db.stalePrepaid, hacc, hstale, hp]
      -- The account before the prepayment is cleared.
      obtain ⟨acc₁, hacc₁, hbalance, hcurrency, hledger⟩ : ∃ acc₁, db₁.accounts.get ws = some acc₁ ∧
          acc₁.balanceMinor = acc.balanceMinor + p ∧ acc₁.currency = acc.currency ∧
          ∀ key : Key, key.uuid = none → db₁.ledger.get key = db.ledger.get key := by
        rcases creditBack_ok hback with ⟨row, hget, hkind, -⟩ | ⟨hle, hdb₁⟩ |
          ⟨a, acc', -, -, ha, hbalance, hdb₁⟩
        · exact (hkeys.absent hget (by simp [hkind]) rfl).elim
        · have hcheck := acc.prepaid_check p hp
          have hdb₁ : db₁ = _ := hdb₁
          exact ⟨acc, by rw [hdb₁]; exact hacc, by omega, rfl, fun _ _ => by rw [hdb₁]; rfl⟩
        · have ha : db.accounts.get ws = some a := ha
          cases hacc.symm.trans ha
          have hdb₁ : db₁ = _ := hdb₁
          obtain ⟨hmoney', -⟩ := withBalance_ok hbalance
          refine ⟨acc', by rw [hdb₁]; exact Table.get_put_self _ _ _,
            congrArg Money.balance hmoney', congrArg Money.currency hmoney', fun key hkey => ?_⟩
          rw [hdb₁]
          exact ledger_own (by rfl) hkey _
      have hdb₂ : db₂ = _ := withoutPrepaid_written hacc₁ hup
      have hget : db₂.accounts.get ws = some acc₁.withoutPrepaid := by
        rw [hdb₂]
        exact Table.get_put_self _ _ _
      refine ⟨hmoney, by rw [hget]; rfl, upgradeCost_congr hmoney ?_ fun sub currency hsub => ?_, ?_,
        fun key hkey => ?_⟩
      · simp [hget, hacc, Account.withoutPrepaid, hcurrency]
      · have hnot : acc.nextPeriodStart ≠ some sub.currentPeriodEnd := by
          simpa [Account.prepaidFollows, hsub] using hstale
        simp [Db.reprice, hget, hacc, hp, hnot, Account.withoutPrepaid]
      · simp [Db.balanceOf, hget, hacc, Account.withoutPrepaid, hbalance, hstalePrepaid]
      · rw [hdb₂]
        exact hledger key hkey

theorem costMinor_nonneg (interval : Interval) {difference months : Int} (hd : 0 ≤ difference)
    (hm : 0 ≤ months) : 0 ≤ costMinor interval difference months := by
  cases interval with
  | yearly =>
    have := Int.mul_nonneg hd hm
    simp only [costMinor]
    omega
  | monthly => exact Int.mul_nonneg hd (by omega)

theorem billingWholeMonths_nonneg (a b : Timestamp) : 0 ≤ billingWholeMonths a b := by
  unfold billingWholeMonths
  split
  · exact le_rfl
  · rename_i h
    exact Lib.Calendar.wholeMonths_nonneg (not_le.mp h).le

theorem upgradeCost_yes (h : db.upgradeCost now ws planId = some (.yes cost)) :
    ∃ sub, db.paidSubscription ws = some sub ∧ now < sub.currentPeriodEnd ∧ sub.planId ≠ planId ∧
      0 ≤ cost.costMinor ∧ ∀ next ∈ cost.nextPriceMinor, 0 ≤ next := by
  unfold Db.upgradeCost at h
  cases hsub : db.paidSubscription ws with
  | none =>
    rw [hsub] at h
    cases h
  | some sub =>
    simp only [hsub] at h
    split at h
    · cases h
    · rename_i hnow
      cases hprice : db.planPrice planId
          (((db.accounts.get ws).map (·.currency)).getD db.settings.region.currency)
          sub.interval.text with
      | none =>
        simp only [hprice] at h
        cases h
      | some new =>
        simp only [hprice] at h
        split at h
        · cases h
        · rename_i hnew
          cases h
          refine ⟨sub, rfl, not_le.mp hnow, fun hplan => ?_, ?_, fun next hnext => ?_⟩
          · rw [hplan, hprice] at hnew
            exact hnew le_rfl
          · exact costMinor_nonneg _ (by omega) (billingWholeMonths_nonneg _ _)
          · simp only [Db.reprice] at hnext
            split at hnext
            · cases hnext
            · split at hnext
              · cases hnext
              · split at hnext
                · exact planPrice_nonneg hnext
                · cases hnext

theorem Posts.balance {acc' : Account} {rows : List Entry} (h : Posts ws acc acc' rows db db') :
    acc'.balanceMinor = acc.balanceMinor + (rows.map fun e => e.2.amountMinor).sum :=
  h.books.balance

variable {reprice : Int}

theorem returnReprice_ledger (h : returnReprice now ws planId actor sub reprice db = .ok r)
    {key : Key} (hkey : key.uuid = none) : r.2.ledger.get key = db.ledger.get key := by
  rcases ite_ok.mp h with ⟨-, h⟩ | ⟨-, h⟩
  · obtain ⟨s, h⟩ := startStamp_bind_ok h
    rw [randomUuid_bind] at h
    rcases creditBack_ok h with ⟨_, -, -, hdb⟩ | ⟨-, hdb⟩ | ⟨_, _, -, -, -, -, hdb⟩
    · rw [hdb]
      rfl
    · rw [hdb]
      rfl
    · rw [hdb]
      exact ledger_own (by rfl) hkey _
  · rw [pure_ok.mp h]

def Db.firstUpgrade (db : Db) (planId workspaceId : Id) : Prop :=
  ∀ sub ∈ db.paidSubscription workspaceId, ∀ start ∈ sub.currentPeriodStart,
    db.ledger.get (.upgrade workspaceId planId (stamp start)) = none

theorem debitUpgrade_charges (hacc : db.accounts.get ws = some acc) {cost : Int} (hcost : 0 ≤ cost)
    (hfree : 0 < cost → ∀ start ∈ sub.currentPeriodStart,
      db.ledger.get (.upgrade ws planId (stamp start)) = none)
    (h : debitUpgrade now ws planId actor sub cost db = .ok r) :
    ∃ acc', r.2.accounts.get ws = some acc' ∧ acc'.balanceMinor = acc.balanceMinor - cost := by
  rcases ite_ok.mp h with ⟨hpos, h⟩ | ⟨hzero, h⟩
  · unfold PaidSubscription.startStamp at h
    cases hstart : sub.currentPeriodStart with
    | none =>
      simp only [hstart] at h
      obtain ⟨_, _, h, -⟩ := bind_ok.mp h
      exact (throw_ok.mp h).elim
    | some start =>
      simp only [hstart] at h
      obtain ⟨s, db₁, hs, h⟩ := bind_ok.mp h
      cases pure_ok.mp hs
      obtain ⟨row, db₂, hdebit, h⟩ := bind_ok.mp h
      rw [pure_ok.mp h]
      have hnew := hfree hpos start hstart
      rcases debit_ok hdebit with ⟨hget, -⟩ | ⟨a, acc', -, -, ha, -, hbalance, -, hdb⟩
      · rw [hnew] at hget
        cases hget
      · cases hacc.symm.trans ha
        have hdb : db₂ = _ := hdb
        refine ⟨acc', by rw [hdb]; exact Table.get_put_self _ _ _, ?_⟩
        exact congrArg Money.balance (withBalance_ok hbalance).1
  · rw [pure_ok.mp h]
    exact ⟨acc, hacc, by omega⟩

theorem applyUpgrade_charges (hkeys : KeysSound db) (hacc : db.accounts.get ws = some acc)
    (hcost : 0 ≤ cost.costMinor) (hfree : 0 < cost.costMinor → ∀ start ∈ sub.currentPeriodStart,
      db.ledger.get (.upgrade ws planId (stamp start)) = none) {r : PlanResult × Db}
    (h : applyUpgrade now ws planId actor acc sub cost db = .ok r) : r.2.balanceOf ws =
      db.balanceOf ws - (cost.costMinor + cost.repriceMinor.getD 0) ∧ r.1.replayed = false := by
  obtain ⟨_, db₁, hgrant, h⟩ := bind_ok.mp h
  obtain ⟨_, db₂, hreturn, h⟩ := bind_ok.mp h
  obtain ⟨_, db₃, hdebit, h⟩ := bind_ok.mp h
  obtain ⟨_, db₄, hraise, h⟩ := bind_ok.mp h
  obtain ⟨_, db₅, hup, h⟩ := bind_ok.mp h
  obtain ⟨_, db₆, hwrite, h⟩ := bind_ok.mp h
  obtain ⟨w, hdb₁⟩ := grantMonth_ok hgrant
  have hdb₁ : db₁ = { db with wallet := w } := hdb₁
  have hkeys₁ : KeysSound db₁ := by
    rw [hdb₁]
    exact hkeys.frame rfl le_rfl
  obtain ⟨a₂, before, hposts₂, hbefore, hbefore'⟩ :=
    returnReprice_posts hkeys₁ (by rw [hdb₁]; exact hacc) hreturn
  have hbalance₂ := hposts₂.balance
  obtain ⟨a, hacc₃, hbalance₃⟩ := debitUpgrade_charges hposts₂.wrote.after hcost
    (fun hpos start hstart => by
      rw [returnReprice_ledger hreturn rfl, hdb₁]
      exact hfree hpos start hstart) hdebit
  obtain ⟨a₃, rows, hposts₃, -⟩ := debitUpgrade_posts hposts₂.keys hposts₂.wrote.after hdebit
  cases hacc₃.symm.trans hposts₃.wrote.after
  obtain ⟨a₄, after, hposts₄, hafter, hafter'⟩ :=
    debitReprice_posts hposts₃.keys hposts₃.wrote.after hraise
  have hbalance₄ := hposts₄.balance
  rcases updateAccount_ok hup with ⟨hn, -⟩ | ⟨a₀, a₅, ha, hf, hdb₅⟩
  · exact absurd (hposts₄.wrote.after.symm.trans hn) (Option.some_ne_none _)
  cases hposts₄.wrote.after.symm.trans ha
  have hbalance₅ : a₅.balanceMinor = a₄.balanceMinor := congrArg Money.balance (reprice_ok hf)
  have hreprice : (before.map fun e => e.2.amountMinor).sum +
      (after.map fun e => e.2.amountMinor).sum = -cost.repriceMinor.getD 0 := by
    rcases lt_trichotomy (cost.repriceMinor.getD 0) 0 with hneg | hzero | hpos
    · obtain ⟨key, row, rfl, hrow⟩ := hbefore' hneg
      rw [hafter (by omega)]
      simp [hrow.2.1]
    · rw [hbefore (by omega), hafter (by omega), hzero]
      rfl
    · obtain ⟨key, row, rfl, hrow⟩ := hafter' hpos
      rw [hbefore (by omega)]
      simp [hrow.2.1]
  have hbalance₆ : db₆.balanceOf ws =
      db.balanceOf ws - (cost.costMinor + cost.repriceMinor.getD 0) := by
    obtain ⟨s, log, hdb₆, -⟩ := writeSubscription_ok hwrite
    have hget : db₆.accounts.get ws = some a₅ := by
      rw [show db₆ = _ from hdb₆, show db₅ = _ from hdb₅]
      exact Table.get_put_self _ _ _
    simp only [Db.balanceOf, hget, hacc, Option.map_some, Option.getD_some]
    omega
  rw [get_bind] at h
  rcases ite_ok.mp h with ⟨-, h⟩ | ⟨-, h⟩
  · obtain ⟨_, db₇, hmore, h⟩ := bind_ok.mp h
    obtain ⟨_, -, h⟩ := readAccount_bind_ok.mp h
    rw [pure_ok.mp h]
    obtain ⟨w', hdb₇⟩ := grantMonth_ok hmore
    rw [show db₇ = _ from hdb₇]
    exact ⟨hbalance₆, rfl⟩
  · obtain ⟨_, -, h⟩ := readAccount_bind_ok.mp h
    rw [pure_ok.mp h]
    exact ⟨hbalance₆, rfl⟩

theorem returnReprice_keysMade (hmade : KeysMade db)
    (h : returnReprice now ws planId actor sub reprice db = .ok r) : KeysMade r.2 := by
  rcases ite_ok.mp h with ⟨-, h⟩ | ⟨-, h⟩
  · obtain ⟨s, h⟩ := startStamp_bind_ok h
    rw [randomUuid_bind] at h
    have happends : Appends False db r.2 := creditBack_appends rfl h
    exact happends.keysMade hmade
  · rw [pure_ok.mp h]
    exact hmade

theorem debitUpgrade_keysMade (hmade : KeysMade db) {cost : Int}
    (h : debitUpgrade now ws planId actor sub cost db = .ok r) : KeysMade r.2 := by
  rcases ite_ok.mp h with ⟨-, h⟩ | ⟨-, h⟩
  · obtain ⟨s, h⟩ := startStamp_bind_ok h
    obtain ⟨_, db₁, hdebit, h⟩ := bind_ok.mp h
    rw [pure_ok.mp h]
    rcases debit_ok hdebit with ⟨-, -, -, -, hdb⟩ | ⟨_, _, hnew, -, -, -, -, -, hdb⟩
    · rw [show db₁ = _ from hdb]
      exact hmade
    · rw [show db₁ = _ from hdb]
      intro e he u hu
      rw [show (db.posted ws _ _ _).ledger.rows = _ from put_rows_new hnew] at he
      rcases List.mem_append.mp he with he | he
      · exact Nat.lt_succ_of_lt (hmade e he u hu)
      · cases List.mem_singleton.mp he
        cases hu
  · rw [pure_ok.mp h]
    exact hmade

theorem startStamp_bind_succeeds {α : Type} (hstart : sub.currentPeriodStart = some start)
    {f : Int → BillingTx α} (hf : Succeeds (f (stamp start)) db) :
    Succeeds (sub.startStamp >>= f) db := by
  unfold PaidSubscription.startStamp
  simp only [hstart]
  exact hf

theorem returnReprice_succeeds (hmade : KeysMade db) (hacc : db.accounts.get ws = some acc)
    (hstart : sub.currentPeriodStart = some start) (reprice : Int) :
    Succeeds (returnReprice now ws planId actor sub reprice) db := by
  refine .ite (fun _ => startStamp_bind_succeeds hstart (.bind ⟨_, rfl⟩ fun r hr => ?_))
    fun _ => .pure _ _
  cases hr
  exact creditBack_succeeds hacc (hmade.absent rfl)

theorem debitUpgrade_succeeds (hacc : db.accounts.get ws = some acc)
    (hstart : sub.currentPeriodStart = some start) {cost : Int}
    (hfree : 0 < cost → db.ledger.get (.upgrade ws planId (stamp start)) = none)
    (henough : cost ≤ acc.balanceMinor) :
    Succeeds (debitUpgrade now ws planId actor sub cost) db := by
  refine .ite (fun hpos => startStamp_bind_succeeds hstart ?_) fun _ => .pure _ _
  exact .bind (debit_succeeds hacc (hfree hpos) hpos henough) fun _ _ => .pure _ _

theorem debitReprice_succeeds (hmade : KeysMade db) {a : Account}
    (hacc : db.accounts.get ws = some acc) (hstart : sub.currentPeriodStart = some start)
    (henough : reprice ≤ acc.balanceMinor) :
    Succeeds (debitReprice now ws planId actor a sub reprice) db := by
  refine .ite (fun hpos => startStamp_bind_succeeds hstart (.bind ⟨_, rfl⟩ fun r hr => ?_))
    fun _ => .pure _ _
  cases hr
  exact .bind (debit_succeeds hacc (hmade.absent rfl) hpos henough) fun _ _ => .pure _ _

theorem reprice_succeeds (a : Account) {next : Option Int} (h : ∀ p ∈ next, 0 ≤ p) :
    ∃ a', a.reprice next = some a' := by
  unfold Account.reprice
  split
  · unfold Account.withPrepaid
    rw [dif_pos h]
    exact ⟨_, rfl⟩
  · exact ⟨_, rfl⟩

theorem applyUpgrade_succeeds (hkeys : KeysSound db) (hmade : KeysMade db)
    (hacc : db.accounts.get ws = some acc) (hstart : sub.currentPeriodStart = some start)
    (hcost : 0 ≤ cost.costMinor) (hnext : ∀ p ∈ cost.nextPriceMinor, 0 ≤ p)
    (hfree : 0 < cost.costMinor → db.ledger.get (.upgrade ws planId (stamp start)) = none)
    (henough : cost.costMinor + cost.repriceMinor.getD 0 ≤ acc.balanceMinor) :
    Succeeds (applyUpgrade now ws planId actor acc sub cost) db := by
  have hbalance := acc.balance_check
  refine .bind (grantMonth_succeeds ..) fun r₁ h₁ => ?_
  obtain ⟨w, hdb₁⟩ := grantMonth_ok h₁
  have hacc₁ : r₁.2.accounts.get ws = some acc := by
    rw [hdb₁]
    exact hacc
  have hkeys₁ : KeysSound r₁.2 := by
    rw [hdb₁]
    exact hkeys.frame rfl le_rfl
  have hmade₁ : KeysMade r₁.2 := by
    rw [hdb₁]
    exact hmade
  refine .bind (returnReprice_succeeds hmade₁ hacc₁ hstart _) fun r₂ h₂ => ?_
  obtain ⟨a₂, before, hposts₂, hbefore, hbefore'⟩ := returnReprice_posts hkeys₁ hacc₁ h₂
  have hmade₂ := returnReprice_keysMade hmade₁ h₂
  have hbalance₂ : a₂.balanceMinor = acc.balanceMinor - min (cost.repriceMinor.getD 0) 0 := by
    rw [hposts₂.balance]
    rcases lt_or_ge (cost.repriceMinor.getD 0) 0 with hneg | hpos
    · obtain ⟨key, row, rfl, hrow⟩ := hbefore' hneg
      simp only [List.map_cons, List.map_nil, List.sum_cons, List.sum_nil, hrow.2.1]
      omega
    · rw [hbefore hpos]
      simp only [List.map_nil, List.sum_nil]
      omega
  have hfree₂ : 0 < cost.costMinor → r₂.2.ledger.get (.upgrade ws planId (stamp start)) = none := by
    intro hpos
    rw [returnReprice_ledger h₂ rfl, hdb₁]
    exact hfree hpos
  refine .bind (debitUpgrade_succeeds hposts₂.wrote.after hstart hfree₂ (by omega))
    fun r₃ h₃ => ?_
  obtain ⟨a₃, hacc₃, hbalance₃⟩ := debitUpgrade_charges hposts₂.wrote.after hcost
    (fun hpos start' hstart' => by
      cases hstart.symm.trans hstart'
      exact hfree₂ hpos) h₃
  obtain ⟨_, rows, hposts₃, -⟩ := debitUpgrade_posts hposts₂.keys hposts₂.wrote.after h₃
  have hmade₃ := debitUpgrade_keysMade hmade₂ h₃
  refine .bind (debitReprice_succeeds hmade₃ hacc₃ hstart (by omega)) fun r₄ h₄ => ?_
  obtain ⟨a₄, after, hposts₄, -⟩ := debitReprice_posts hposts₃.keys hacc₃ h₄
  have hacc₄ := hposts₄.wrote.after
  obtain ⟨a₅, hreprice⟩ := reprice_succeeds a₄ hnext
  refine .bind (updateAccount_succeeds hacc₄ hreprice) fun r₅ h₅ => .bind (.modify _ _)
    fun r₆ h₆ => .get_bind ?_
  have hacc₆ : r₆.2.accounts.get ws = some a₅ := by
    obtain ⟨s, log, hdb₆, -⟩ := writeSubscription_ok h₆
    rcases updateAccount_ok h₅ with ⟨hn, -⟩ | ⟨a, a', ha, hf, hdb₅⟩
    · exact absurd (hacc₄.symm.trans hn) (Option.some_ne_none _)
    · cases hacc₄.symm.trans ha
      cases hreprice.symm.trans hf
      rw [hdb₆, hdb₅]
      exact Table.get_put_self _ _ _
  refine .ite (fun _ => .bind (grantMonth_succeeds ..) fun r₇ h₇ => ?_) fun _ =>
    readAccount_bind_succeeds hacc₆ (.pure _ _)
  obtain ⟨w', hdb₇⟩ := grantMonth_ok h₇
  have hacc₇ : r₇.2.accounts.get ws = some a₅ := by
    rw [hdb₇]
    exact hacc₆
  exact readAccount_bind_succeeds hacc₇ (.pure _ _)

theorem upgrade_releases (hkeys : KeysSound db) {r : Account × Db} {r' : Int × Db}
    (hlock : lock ws db = .ok r) (hrelease : releaseStalePrepaid now ws r.2 = .ok r') :
    Releases ws planId now db r'.2 ∧ KeysSound r'.2 := by
  have hopens : Opens ws planId now db r.2 := lock_opens hlock
  have ⟨hdoes, _, _⟩ : Does ws now False db r.2 ∧ _ := lock_does False hkeys hlock
  have hreleases : Releases ws planId now r.2 r'.2 :=
    releaseStale_releases hdoes.keys hopens.account hrelease
  have ⟨hdoes', _, _⟩ : Does ws now False r.2 r'.2 ∧ _ := releaseStale_does False hdoes.keys hrelease
  refine ⟨⟨hopens.money.trans hreleases.money, hreleases.account,
    hreleases.quote.trans hopens.quote, ?_, fun key hkey => ?_⟩, hdoes'.keys⟩
  · rw [hreleases.balance, hopens.balance, hopens.stale]
  · rw [hreleases.ledger key hkey, hopens.ledger]

theorem Releases.firstUpgrade (h : Releases ws planId now db db')
    (hfirst : db.firstUpgrade planId ws) : db'.firstUpgrade planId ws := by
  intro sub hsub start hstart
  rw [h.money.paid] at hsub
  rw [h.ledger _ rfl]
  exact hfirst sub hsub start hstart

theorem balanceOf_account (hacc : db.accounts.get ws = some acc) :
    db.balanceOf ws = acc.balanceMinor := by
  simp [Db.balanceOf, hacc]

theorem upgrade_charges (hkeys : KeysSound db) {r : PlanResult × Db}
    (h : upgrade now ws planId actor db = .ok r) (hnew : r.1.replayed = false) :
    ∃ cost, db.upgradeCost now ws planId = some (.yes cost) ∧
      ((0 < cost.costMinor → db.firstUpgrade planId ws) →
        r.2.balanceOf ws = db.balanceOf ws + db.stalePrepaid ws -
          (cost.costMinor + cost.repriceMinor.getD 0)) := by
  obtain ⟨⟨_, db₁⟩, ⟨_, db₂⟩, acc, sub, hlock, hrelease, hacc, hsub, -, h⟩ := upgrade_ok h
  have ⟨hreleases, hkeys₂⟩ : Releases ws planId now db db₂ ∧ KeysSound db₂ :=
    upgrade_releases hkeys hlock hrelease
  obtain ⟨-, hreplayed, -⟩ | ⟨-, cost, hquote, h⟩ := h
  · rw [hreplayed] at hnew
    cases hnew
  · refine ⟨cost, hreleases.quote.symm.trans hquote, fun hfirst => ?_⟩
    obtain ⟨-, -, -, -, hcost, -⟩ := upgradeCost_yes hquote
    have hfree : 0 < cost.costMinor → ∀ start ∈ sub.currentPeriodStart,
        db₂.ledger.get (.upgrade ws planId (stamp start)) = none := fun hpos =>
      hreleases.firstUpgrade (hfirst hpos) sub hsub
    have hcharged := (applyUpgrade_charges hkeys₂ hacc hcost hfree h).1
    rw [hcharged, hreleases.balance]

theorem upgrade_succeeds (hkeys : KeysSound db) (hmade : KeysMade db)
    (hquote : db.upgradeCost now ws planId = some (.yes cost)) (hsellable : db.sellable planId)
    (hstart : ∀ sub ∈ db.paidSubscription ws, sub.currentPeriodStart.isSome)
    (hfirst : 0 < cost.costMinor → db.firstUpgrade planId ws)
    (henough : cost.costMinor + cost.repriceMinor.getD 0 ≤ db.balanceOf ws + db.stalePrepaid ws) :
    ∃ r, upgrade now ws planId actor db = .ok r ∧ r.1.replayed = false := by
  have hcall : Succeeds (upgrade now ws planId actor) db := by
    refine .bind (lock_succeeds db ws) fun r₁ h₁ => ?_
    have hlocked : Appends False db r₁.2 := lock_appends h₁
    have hmade₁ := hlocked.keysMade hmade
    refine .bind (releaseStale_succeeds hmade₁) fun r₂ h₂ => ?_
    have hreleased : Appends False r₁.2 r₂.2 := releaseStale_appends h₂
    have hmade₂ := hreleased.keysMade hmade₁
    obtain ⟨hreleases, hkeys₂⟩ : Releases ws planId now db r₂.2 ∧ KeysSound r₂.2 :=
      upgrade_releases hkeys h₁ h₂
    obtain ⟨acc, hacc⟩ := Option.isSome_iff_exists.mp hreleases.account
    obtain ⟨sub, hsub, hnow, hother, hcost, hnext⟩ := upgradeCost_yes hquote
    obtain ⟨start, hstart⟩ := Option.isSome_iff_exists.mp (hstart sub hsub)
    have hsub₂ : r₂.2.paidSubscription ws = some sub := (hreleases.money.paid ws).trans hsub
    refine readAccount_bind_succeeds hacc (.get_bind ?_)
    simp only [hsub₂]
    refine .require_bind hnow (.ite (fun hsame => (hother hsame).elim) fun _ => ?_)
    refine .require_bind ?_ ?_
    · unfold Db.sellable at hsellable ⊢
      rw [hreleases.money.plans]
      exact hsellable
    · simp only [hreleases.quote, hquote]
      refine applyUpgrade_succeeds hkeys₂ hmade₂ hacc hstart hcost hnext
        (fun hpos => hreleases.firstUpgrade (hfirst hpos) sub hsub₂ start hstart) ?_
      rw [← balanceOf_account hacc, hreleases.balance]
      exact henough
  obtain ⟨r, hr⟩ := hcall
  refine ⟨r, hr, ?_⟩
  obtain ⟨⟨_, db₁⟩, ⟨_, db₂⟩, acc, sub, hlock, hrelease, hacc, hsub₂, -, hr⟩ := upgrade_ok hr
  obtain ⟨hreleases, hkeys₂⟩ : Releases ws planId now db db₂ ∧ KeysSound db₂ :=
    upgrade_releases hkeys hlock hrelease
  obtain ⟨sub', hsub, -, hother, hcost, -⟩ := upgradeCost_yes hquote
  cases hsub₂.symm.trans ((hreleases.money.paid ws).trans hsub)
  obtain ⟨hsame, -⟩ | ⟨-, cost', hquote', hr⟩ := hr
  · exact (hother hsame).elim
  · cases hquote.symm.trans (hreleases.quote.symm.trans hquote')
    exact (applyUpgrade_charges hkeys₂ hacc hcost (fun hpos => hreleases.firstUpgrade (hfirst hpos)
      sub hsub₂) hr).2

/-- After any run: an upgrade that takes effect was quoted as one, and where none was
charged to that plan in the period before, it lowers the balance, with what was
prepaid for another period returned to it first, by exactly what was quoted; and an
upgrade to a plan that is sold, which that balance can pay, takes effect. A `uuid`
just made is in no key yet. -/
theorem upgrade_charges_quote (calls : List (Timestamp × Operation)) (now : Timestamp)
    (ws planId : Id) (actor : Option Id) :
    let db := run Db.step .empty calls
    (∀ r, upgrade now ws planId actor db = .ok r → r.1.replayed = false →
      ∃ cost, db.upgradeCost now ws planId = some (.yes cost) ∧
        ((0 < cost.costMinor → db.firstUpgrade planId ws) →
          r.2.balanceOf ws = db.balanceOf ws + db.stalePrepaid ws -
            (cost.costMinor + cost.repriceMinor.getD 0))) ∧
    ∀ cost, db.upgradeCost now ws planId = some (.yes cost) → db.sellable planId →
      (∀ sub ∈ db.paidSubscription ws, sub.currentPeriodStart.isSome) →
      (0 < cost.costMinor → db.firstUpgrade planId ws) →
      cost.costMinor + cost.repriceMinor.getD 0 ≤ db.balanceOf ws + db.stalePrepaid ws →
      KeysMade db → ∃ r, upgrade now ws planId actor db = .ok r ∧ r.1.replayed = false := by
  intro db
  have hsound : Sound db := sound_run calls
  exact ⟨fun r h hnew => upgrade_charges hsound.keys h hnew,
    fun cost hquote hsellable hstart hfirst henough hmade =>
      upgrade_succeeds hsound.keys hmade hquote hsellable hstart hfirst henough⟩

def monthlyPlan (price : Int) : Plan :=
  { prices := Table.empty.put ("IRR", "monthly") (.number price 0) }

def prepaidCalls : List (Timestamp × Operation) :=
  [(0, .editSettings { region := .iran }), (0, .editPlan 7 (monthlyPlan 1000)),
   (0, .editPlan 8 (monthlyPlan 3000)),
   (0, .editPlan 9 { monthlyPlan 5000 with isHidden := true }),
   (0, .adminAdjust 1 (some 20000) (some "IRR") (some "opening") none (some "k") (some "test")
     none),
   (0, .purchasePlan 1 7 (some "monthly") "p" none), (0, .renew 1 none none none none)]

def movedEnd : Operation :=
  .editSubscription 1
    { planId := some 7, status := .active, billingInterval := some .monthly
      currentPeriodStart := some 0, currentPeriodEnd := some (15 * Lib.Calendar.day) }

theorem upgrade_charges_quote_prepaid :
    let db := run Db.step .empty prepaidCalls
    ∃ r, upgrade 1 1 8 none db = .ok r ∧ r.1.replayed = false ∧
      r.2.balanceOf 1 = 18000 + 0 - (2000 + 2000) := by
  intro db
  have hcharges := upgrade_charges_quote prepaidCalls 1 1 8 none
  have hquote : db.upgradeCost 1 1 8 = some (.yes
      { costMinor := 2000, newPriceMinor := 3000, oldPriceMinor := 1000, monthsLeft := none
        nextPriceMinor := some 3000, repriceMinor := some 2000 }) := by decide +kernel
  have hfirst : db.firstUpgrade 8 1 := by
    unfold Db.firstUpgrade
    decide +kernel
  obtain ⟨r, hr, hnew⟩ := hcharges.2 _ hquote (by decide +kernel) (by decide +kernel)
    (fun _ => hfirst) (by decide +kernel) (by decide +kernel)
  obtain ⟨cost, hcost, hbalance⟩ := hcharges.1 r hr hnew
  cases hcost.symm.trans hquote
  have hold : db.balanceOf 1 = 18000 ∧ db.stalePrepaid 1 = 0 := by decide +kernel
  have hafter := hbalance fun _ => hfirst
  rw [hold.1, hold.2] at hafter
  exact ⟨r, hr, hnew, hafter⟩

/-- Quoted at 2000, the upgrade lowers the balance by 1000 where 1000 was prepaid for a
period that is gone, and by nothing where the workspace was already charged for the
plan in the period and then put back; to a plan that is not shown, it fails. -/
theorem upgrade_not_as_quoted :
    let quoted (db : Db) (planId : Id) : Option (Int × Option Int) :=
      match db.upgradeCost 1 1 planId with
      | some (.yes cost) => some (cost.costMinor, cost.repriceMinor)
      | _ => none
    let charged (db : Db) (planId : Id) : Option (Bool × Int) :=
      (upgrade 1 1 planId none db).toOption.map fun r =>
        (r.1.replayed, db.balanceOf 1 - r.2.balanceOf 1)
    let moved := run Db.step .empty (prepaidCalls ++ [(0, movedEnd)])
    let again := run Db.step moved [(1, .upgrade 1 8 none), (1, movedEnd)]
    quoted moved 8 = some (2000, none) ∧ charged moved 8 = some (false, 1000) ∧
      quoted again 8 = some (2000, none) ∧ charged again 8 = some (false, 0) ∧
      quoted moved 9 = some (4000, none) ∧ 4000 ≤ moved.balanceOf 1 ∧ charged moved 9 = none := by
  decide +kernel

end Kindred.Billing
