import Kindred.Billing.Effects

/-!
Every billing function moves the book of its workspace by the events of
`Move`, and leaves the other books alone.
-/

namespace Kindred.Billing
open Lib (Table)
open Lib.Tx
open Lib.Calendar (day)

variable {now : Timestamp} {ws : Id} (reprices : Prop) {db : Db} {db' : Db} {sub : PaidSubscription}
  {start : Option Timestamp} {r : Unit × Db} {currency : String} {acc acc' : Account} {key : Key}
  {actor : Option Id} {card : Option (Id × Card)} {planId : Id} {stop : Timestamp}
  {amount : Option Int} {balance : Int} {log : PlanChange}

def MoneyOnly (db db' : Db) : Prop :=
  db' = { db with nextId := db'.nextId, accounts := db'.accounts, ledger := db'.ledger }

theorem MoneyOnly.refl (db : Db) : MoneyOnly db db := rfl

theorem MoneyOnly.trans {db'' : Db} (h : MoneyOnly db db') (h' : MoneyOnly db' db'') :
    MoneyOnly db db'' := by
  unfold MoneyOnly at *
  rw [h', h]

theorem MoneyOnly.plans (h : MoneyOnly db db') : db'.plans = db.plans := by
  rw [h]

theorem MoneyOnly.subscriptions (h : MoneyOnly db db') : db'.subscriptions = db.subscriptions := by
  rw [h]

theorem MoneyOnly.payments (h : MoneyOnly db db') : db'.payments = db.payments := by
  rw [h]

theorem MoneyOnly.paid (h : MoneyOnly db db') (ws' : Id) :
    db'.paidSubscription ws' = db.paidSubscription ws' := by
  rw [h]
  rfl

theorem period_of_paid (h : db.paidSubscription ws = some sub) :
    db.period ws = some sub.currentPeriodEnd := by
  simp [Db.period, h]

theorem onWallet_ok {α : Type} {m : AiWallet.WalletTx α} {r : α × Db}
    (h : onWallet m db = .ok r) : ∃ w, m db.wallet = .ok (r.1, w) ∧ r.2 = { db with wallet := w } := by
  unfold onWallet at h
  rw [get_bind] at h
  cases hm : m db.wallet with
  | error e =>
    simp only [hm] at h
    exact (throw_ok.mp h).elim
  | ok p =>
    obtain ⟨a, w⟩ := p
    simp only [hm] at h
    cases pure_ok.mp h
    exact ⟨w, rfl, rfl⟩

variable {source : String} {row : LedgerRow} {charge : Charge} {next : NextPeriod} {r' : Unit × Db}
  {reason : DueReason} {prepaid : Int}

theorem grantMonth_ok {r : Int × Db}
    (h : grantMonth now ws planId start stop source amount db = .ok r) :
    ∃ w, r.2 = { db with wallet := w } := by
  cases start with
  | none => exact ⟨_, by rw [pure_ok.mp h]⟩
  | some start =>
    rcases ite_ok.mp h with ⟨-, h⟩ | ⟨-, h⟩
    · exact ⟨_, by rw [pure_ok.mp h]⟩
    · rw [get_bind] at h
      rcases ite_ok.mp h with ⟨-, h⟩ | ⟨-, h⟩
      · exact ⟨_, by rw [pure_ok.mp h]⟩
      · rcases ite_ok.mp h with ⟨-, h⟩ | ⟨-, h⟩
        · exact ⟨_, by rw [pure_ok.mp h]⟩
        · obtain ⟨_, _, hw, h⟩ := bind_ok.mp h
          obtain ⟨w, -, hdb⟩ := onWallet_ok hw
          subst hdb
          rw [pure_ok.mp h]
          exact ⟨w, rfl⟩

theorem Does.wallet (hkeys : KeysSound db) (w : AiWallet.Wallet) :
    Does ws now reprices db { db with wallet := w } :=
  .frame hkeys le_rfl rfl rfl rfl rfl rfl

theorem grantMonth_does (hkeys : KeysSound db) {r : Int × Db}
    (h : grantMonth now ws planId start stop source amount db = .ok r) :
    Does ws now reprices db r.2 := by
  obtain ⟨w, hdb⟩ := grantMonth_ok h
  rw [hdb]
  exact .wallet reprices hkeys w

theorem ensure_ok (h : ensure ws currency db = .ok r) :
    r.2 = db ∧ (db.accounts.get ws).isSome ∨ db.accounts.get ws = none ∧
      r.2 = { db with accounts := db.accounts.put ws { currency := currency.toUpper } } := by
  obtain ⟨-, h⟩ := require_bind_ok.mp h
  cases modify_ok.mp h
  simp only
  split
  · rename_i hs
    exact .inl ⟨rfl, hs⟩
  · rename_i hs
    exact .inr ⟨by simpa using hs, rfl⟩

theorem ensure_does (hkeys : KeysSound db) (h : ensure ws currency db = .ok r) :
    Does ws now reprices db r.2 ∧ MoneyOnly db r.2 := by
  rcases ensure_ok h with ⟨hdb, -⟩ | ⟨hnone, hdb⟩
  · rw [hdb]
    exact ⟨.refl hkeys, .refl db⟩
  · rw [hdb]
    refine ⟨⟨hkeys.frame rfl le_rfl, .single ?_, fun ws' hne => ?_⟩, rfl⟩
    · have hbook : ({ db with accounts := db.accounts.put ws { currency := currency.toUpper } } :
          Db).book ws = { db.book ws with account := some ⟨currency.toUpper, 0, .none⟩ } := by
        simp [Db.book, Account.money, Account.next, NextPeriod.none]
        rfl
      rw [hbook]
      exact .opened _ (by simp [Db.book, hnone])
    · simp [Db.book, Table.get_put_ne _ _ hne]
      rfl

theorem lock_does (hkeys : KeysSound db) {r : Account × Db} (h : lock ws db = .ok r) :
    Does ws now reprices db r.2 ∧ MoneyOnly db r.2 ∧ r.2.accounts.get ws = some r.1 := by
  unfold lock at h
  rw [get_bind] at h
  obtain ⟨_, db₁, he, h⟩ := bind_ok.mp h
  obtain ⟨hacc, hdb⟩ := readAccount_ok.mp h
  obtain ⟨hdoes, hmoney⟩ := ensure_does reprices hkeys he
  rw [hdb]
  exact ⟨hdoes, hmoney, hacc⟩

theorem ensure_ledger (h : ensure ws currency db = .ok r) : r.2.ledger = db.ledger := by
  rcases ensure_ok h with ⟨hdb, -⟩ | ⟨-, hdb⟩ <;> rw [hdb]

theorem books_of_balance {e : Entry} (h : acc.withBalance balance = some acc')
    (hamount : balance = acc.balanceMinor + e.2.amountMinor) (hafter : e.2.balanceAfter = balance)
    (hcurrency : e.2.currency = acc.currency) : acc.money.Books [e] acc'.money := by
  obtain ⟨hmoney, -⟩ := withBalance_ok h
  rw [hmoney]
  exact ⟨rfl, by simpa [Account.money] using hamount, .inr ⟨e, rfl, hafter, hcurrency⟩⟩

theorem posted_does (hkeys : KeysSound db) (hacc : db.accounts.get ws = some acc)
    (hnew : db.ledger.get key = none) (hws : row.workspaceId = ws) (hkind : row.kind ≠ .renewal)
    (hkind' : row.kind ≠ .prepaidReturn) (hkey : row.kind ≠ .aiPackReturn → key.uuid = none)
    (h : acc.withBalance balance = some acc')
    (hamount : balance = acc.balanceMinor + row.amountMinor) (hafter : row.balanceAfter = balance)
    (hcurrency : row.currency = acc.currency) :
    Does ws now reprices db (db.posted ws key row acc') := by
  have hkeys' : KeysSound (db.posted ws key row acc') :=
    hkeys.posted rfl (Nat.le_succ _) (fun hk => by simp [hkey hk]) fun hk => by simp_all
  refine (posted_wrote acc' hacc hnew hws).does hkeys'
    (books_of_balance h hamount hafter hcurrency) ?_
  have hnext : acc'.next = acc.next := congrArg Money.next (withBalance_ok h).1
  rw [hnext]
  exact .booked hkind hkind'

theorem debit_does (hkeys : KeysSound db) {amount : Int} (hkind : charge.kind ≠ .renewal)
    (hkind' : charge.kind ≠ .prepaidReturn) (hkey : key.uuid = none) {r : LedgerRow × Db}
    (h : debit now ws amount charge key db = .ok r) :
    Does ws now reprices db r.2 ∧ MoneyOnly db r.2 ∧
      ∀ acc, db.accounts.get ws = some acc → ∃ acc', r.2.accounts.get ws = some acc' ∧
        acc'.next = acc.next := by
  rcases debit_ok h with ⟨-, -, -, -, hdb⟩ | ⟨acc, acc', hnew, hpos, hacc, henough, hf, hrow, hdb⟩
  · rw [hdb]
    exact ⟨.refl hkeys, .refl db, fun acc hacc => ⟨acc, hacc, rfl⟩⟩
  · rw [hdb, hrow]
    refine ⟨posted_does reprices hkeys hacc hnew rfl hkind hkind' (fun _ => hkey) hf ?_ rfl rfl, rfl,
      fun a ha => ?_⟩
    · simp [debitRow]
      omega
    · cases hacc.symm.trans ha
      exact ⟨acc', by simp [Db.posted], congrArg Money.next (withBalance_ok hf).1⟩

theorem next_books (hmoney : acc'.money = { acc.money with balance, next })
    (hamount : balance = acc.balanceMinor + row.amountMinor) (hafter : row.balanceAfter = balance)
    (hcurrency : row.currency = acc.currency) : acc.money.Books [(key, row)] acc'.money := by
  rw [hmoney]
  exact ⟨rfl, by simpa [Account.money] using hamount, .inr ⟨_, rfl, hafter, hcurrency⟩⟩

theorem clear_books (hmoney : acc'.money = { acc.money with next }) :
    acc.money.Books [] acc'.money := by
  rw [hmoney]
  exact ⟨rfl, by simp, .inl rfl⟩

/-- The whole prepayment is returned under a key just made, then cleared. -/
theorem return_does (hkeys : KeysSound db) (hacc : db.accounts.get ws = some acc) {p : Int}
    (hp : acc.nextPeriodPrepaidMinor = some p) (hkey : key.uuid = some db.nextId)
    {f : Account → Option Account}
    (hf : ∀ a a', f a = some a' → a'.money = { a.money with next := .none })
    (h : creditBack now ws p actor key db.drawn = .ok r) (h' : updateAccount ws f r.2 = .ok r') :
    Does ws now reprices db r'.2 ∧ MoneyOnly db r'.2 ∧
      ∃ acc', r'.2.accounts.get ws = some acc' ∧ acc'.next = .none := by
  have hnext : acc.next = ⟨some p, acc.nextPeriodStart⟩ := by
    rw [← hp]
    rfl
  have huuid := uuid_wrote hacc
  rcases creditBack_ok h with ⟨row, hget, hkind, -⟩ | ⟨hle, hdb⟩ |
    ⟨a, a₁, hnew, hpos, ha, hbal, hdb⟩
  · exact (hkeys.absent hget (by simp [hkind]) hkey).elim
  · rw [hdb] at h'
    rcases updateAccount_ok h' with ⟨hnone, -⟩ | ⟨a, acc', ha, hfa, hdb'⟩
    · rw [show db.accounts.get ws = none from hnone] at hacc
      cases hacc
    · cases hacc.symm.trans ha
      have hmoney := hf _ _ hfa
      have hzero : p = 0 := le_antisymm hle (acc.prepaid_check p hp)
      rw [hdb']
      refine ⟨?_, rfl, acc', by simp, congrArg Money.next hmoney⟩
      refine (huuid.trans (put_wrote _ ha)).does (hkeys.frame rfl (Nat.le_succ _))
        (clear_books hmoney) ?_
      rw [show acc'.next = .none from congrArg Money.next hmoney, hnext]
      exact .forgotten hzero
  · cases hacc.symm.trans ha
    rw [hdb] at h'
    have hws : (returnRow now ws p actor db.drawn acc db.drawn.nextId).workspaceId = ws := rfl
    have hposted := huuid.trans (posted_wrote a₁ ha hnew hws)
    rcases updateAccount_ok h' with ⟨hnone, -⟩ | ⟨a, acc', ha', hfa, hdb'⟩
    · rw [hposted.after] at hnone
      cases hnone
    · cases hposted.after.symm.trans ha'
      have hmoney := hf _ _ hfa
      rw [(withBalance_ok hbal).1] at hmoney
      have hkeys' : KeysSound r'.2 := by
        rw [hdb']
        refine hkeys.posted rfl (Nat.le_add_right _ 2) (fun _ u hu => ?_) fun _ k hk => ?_
        · rw [hkey] at hu
          cases hu
          exact Nat.lt_add_of_pos_right Nat.two_pos
        · rw [hk] at hkey
          cases hkey
      rw [hdb'] at hkeys' ⊢
      refine ⟨?_, rfl, acc', by simp, congrArg Money.next hmoney⟩
      refine (hposted.trans (put_wrote _ ha')).does hkeys' (next_books hmoney rfl rfl rfl) ?_
      rw [show acc'.next = .none from congrArg Money.next hmoney, hnext]
      exact .returned hpos ⟨rfl, rfl, rfl, rfl⟩

theorem releaseStale_does (hkeys : KeysSound db) {r : Int × Db}
    (h : releaseStalePrepaid now ws db = .ok r) :
    Does ws now reprices db r.2 ∧ MoneyOnly db r.2 ∧ ∀ acc, r.2.accounts.get ws = some acc →
      acc.nextPeriodPrepaidMinor.isSome → acc.prepaidFollows (db.paidSubscription ws) := by
  unfold releaseStalePrepaid at h
  rw [get_bind] at h
  cases hacc : db.accounts.get ws with
  | none =>
    simp only [hacc] at h
    rw [pure_ok.mp h]
    exact ⟨.refl hkeys, .refl db, by simp [hacc]⟩
  | some acc =>
    simp only [hacc] at h
    cases hp : acc.nextPeriodPrepaidMinor with
    | none =>
      simp only [hp] at h
      rw [pure_ok.mp h]
      refine ⟨.refl hkeys, .refl db, fun a ha => ?_⟩
      cases hacc.symm.trans ha
      simp [hp]
    | some p =>
      simp only [hp] at h
      rcases ite_ok.mp h with ⟨hfollows, h⟩ | ⟨-, h⟩
      · rw [pure_ok.mp h]
        refine ⟨.refl hkeys, .refl db, fun a ha _ => ?_⟩
        cases hacc.symm.trans ha
        exact hfollows
      · rw [randomUuid_bind] at h
        obtain ⟨_, _, hback, h⟩ := bind_ok.mp h
        obtain ⟨_, _, hup, h⟩ := bind_ok.mp h
        obtain ⟨hdoes, hmoney, acc', hacc', hnone⟩ :=
          return_does reprices hkeys hacc hp rfl (by simp) hback hup
        cases pure_ok.mp h
        refine ⟨hdoes, hmoney, fun a ha hsome => ?_⟩
        cases hacc'.symm.trans ha
        rw [show acc'.nextPeriodPrepaidMinor = none from congrArg NextPeriod.prepaid hnone] at hsome
        cases hsome

theorem clear_does (hkeys : KeysSound db) (hacc : db.accounts.get ws = some acc)
    (hnone : acc.nextPeriodPrepaidMinor = none)
    (hmoney : acc'.money = { acc.money with next := .none }) :
    Does ws now reprices db { db with accounts := db.accounts.put ws acc' } := by
  refine (put_wrote _ hacc).does (hkeys.frame rfl le_rfl) (clear_books hmoney) ?_
  rw [show acc'.next = .none from congrArg Money.next hmoney,
    show acc.next = ⟨none, acc.nextPeriodStart⟩ by rw [← hnone]; rfl]
  exact .cleared

theorem adminReplaced_does (hkeys : KeysSound db) {r : Int × Db}
    (h : adminReplaced now ws db = .ok r) : Does ws now reprices db r.2 := by
  unfold adminReplaced at h
  rw [get_bind] at h
  cases hacc : db.accounts.get ws with
  | none =>
    simp only [hacc] at h
    rw [pure_ok.mp h]
    exact .refl hkeys
  | some acc =>
    simp only [hacc] at h
    cases hp : acc.nextPeriodPrepaidMinor with
    | none =>
      simp only [hp] at h
      obtain ⟨_, _, hup, h⟩ := bind_ok.mp h
      rw [pure_ok.mp h]
      rcases updateAccount_ok hup with ⟨hnone, -⟩ | ⟨a, acc', ha, hfa, hdb⟩
      · rw [hacc] at hnone
        cases hnone
      · cases hacc.symm.trans ha
        cases hfa
        rw [hdb]
        exact clear_does reprices hkeys ha hp rfl
    | some p =>
      simp only [hp] at h
      rw [randomUuid_bind] at h
      obtain ⟨_, _, hback, h⟩ := bind_ok.mp h
      obtain ⟨_, _, hup, h⟩ := bind_ok.mp h
      obtain ⟨hdoes, -⟩ := return_does reprices hkeys hacc hp rfl (by simp) hback hup
      cases pure_ok.mp h
      exact hdoes

def Db.withSubscription (db : Db) (ws : Id) (sub : Subscription) (log : PlanChange) : Db :=
  { db with subscriptions := db.subscriptions.put ws sub
            planChangeLog := db.planChangeLog ++ [log] }

theorem subscription_wrote (hacc : db.accounts.get ws = some acc) (sub : Subscription)
    (hlog : log.workspaceId = ws) :
    Wrote ws acc acc [] [log] db (db.withSubscription ws sub log) where
  before := hacc
  after := hacc
  accounts _ _ := rfl
  ledger := (List.append_nil _).symm
  rows_ws := by simp
  log := rfl
  logs_ws := by simpa using hlog
  periods ws' hne := by
    simp only [Db.period, Db.paidSubscription, Db.withSubscription, Table.get_put_ne _ _ hne]
    rfl

theorem asPaid_end {s : Subscription} {p : PaidSubscription} (h : db.asPaid s = some p) :
    s.currentPeriodEnd = some p.currentPeriodEnd := by
  unfold Db.asPaid at h
  split at h
  · rename_i hend
    split at h
    · cases h
      exact hend
    · cases h
  · cases h

theorem period_withSubscription {sub : Subscription} :
    ∀ e ∈ (db.withSubscription ws sub log).period ws, sub.currentPeriodEnd = some e := by
  intro e he
  simp only [Db.period, Db.paidSubscription, Db.withSubscription, Table.get_put_self,
    Option.bind_some, Option.mem_def, Option.map_eq_some_iff] at he
  obtain ⟨p, hp, rfl⟩ := he
  exact asPaid_end hp

theorem periodEnd_ge (start : Timestamp) (interval : Interval) :
    start + 28 * day ≤ periodEnd start interval := by
  cases interval with
  | monthly => exact Lib.Calendar.addMonths_ge start Nat.one_pos
  | yearly =>
    have h : (0 : Nat) < 12 := by decide
    exact Lib.Calendar.addMonths_ge start h

theorem later_of_end {e start : Timestamp} {interval : Interval} {sub : Subscription}
    (hdb : db' = db.withSubscription ws sub log)
    (hend : sub.currentPeriodEnd = some (periodEnd start interval)) (he : e ≤ start) :
    Later e (db'.period ws) := by
  intro e' he'
  rw [hdb] at he'
  have := period_withSubscription e' he'
  rw [hend] at this
  cases this
  have := periodEnd_ge start interval
  lia

theorem debitNext_ok (hkeys : KeysSound db) {amount : Int} (hkind : charge.kind = .renewal)
    (hkey : key.uuid = some db.nextId) {r : LedgerRow × Db}
    (h : debit now ws amount charge key db.drawn = .ok r) :
    ∃ acc acc', 0 < amount ∧ acc.withBalance (acc.balanceMinor - amount) = some acc' ∧
      r.1 = debitRow now ws amount charge acc db.drawn.nextId ∧ KeysSound r.2 ∧ MoneyOnly db r.2 ∧
      Wrote ws acc acc' [(key, r.1)] [] db r.2 := by
  rcases debit_ok h with ⟨hget, -, hk, -, -⟩ | ⟨acc, acc', hnew, hpos, hacc, -, hf, hrow, hdb⟩
  · exact (hkeys.absent hget (by simp [hk, hkind]) hkey).elim
  · have hacc₀ : db.accounts.get ws = some acc := hacc
    have hws : r.1.workspaceId = ws := by rw [hrow]; rfl
    rw [hdb]
    refine ⟨acc, acc', hpos, hf, hrow, ?_, rfl,
      (uuid_wrote hacc₀).trans (posted_wrote acc' hacc hnew hws)⟩
    refine hkeys.posted rfl (Nat.le_add_right _ 2) (fun _ u hu => ?_) fun _ k hk => ?_
    · rw [hkey] at hu
      cases hu
      exact Nat.lt_add_of_pos_right Nat.two_pos
    · rw [hk] at hkey
      cases hkey

theorem writeSubscription_ok {interval : Option Interval} {status : SubscriptionStatus}
    {changeType : ChangeType} {details : ChangeDetails} {r : PUnit × Db}
    (h : writeSubscription ws planId interval start stop status changeType actor details db =
      .ok r) : ∃ sub log, r.2 = db.withSubscription ws sub log ∧ sub.status = status ∧
      sub.currentPeriodEnd = some stop ∧ log.workspaceId = ws ∧
      log.prepaidMinor = details.prepaidMinor ∧ log.periodStart = start := by
  cases modify_ok.mp h
  exact ⟨_, _, rfl, rfl, rfl, rfl, rfl, rfl⟩

theorem renewalStart_ge (now : Timestamp) (sub : PaidSubscription)
    (hdue : sub.currentPeriodEnd ≤ now) :
    sub.currentPeriodEnd ≤ renewalStart now sub ∧ renewalStart now sub ≤ now := by
  unfold renewalStart
  split
  · exact ⟨le_rfl, hdue⟩
  · exact ⟨hdue, le_rfl⟩

theorem renewalStart_gt (now : Timestamp) (sub : PaidSubscription) :
    now - day < renewalStart now sub := by
  have := day_pos
  unfold renewalStart
  split
  · assumption
  · lia

theorem renewalStart_early (h : now < sub.currentPeriodEnd) :
    renewalStart now sub = sub.currentPeriodEnd := by
  have := day_pos
  unfold renewalStart
  rw [if_pos (by lia)]

def NothingPrepaid (ws : Id) (db : Db) : Prop :=
  ∀ acc, db.accounts.get ws = some acc → acc.nextPeriodPrepaidMinor = none

theorem nothingPrepaid (hacc : db.accounts.get ws = some acc) (h : acc.next = .none) :
    NothingPrepaid ws db := by
  intro a ha
  cases hacc.symm.trans ha
  exact congrArg NextPeriod.prepaid h

def NotDue (now : Timestamp) (ws : Id) (db : Db) : Prop := ∀ e ∈ db.period ws, now < e

theorem lock_nothing {r : Account × Db} (h : lock ws db = .ok r) (hnone : NothingPrepaid ws db) :
    NothingPrepaid ws r.2 := by
  unfold lock at h
  rw [get_bind] at h
  obtain ⟨_, db₁, hensure, h⟩ := bind_ok.mp h
  rw [(readAccount_ok.mp h).2]
  rcases ensure_ok hensure with ⟨hdb, -⟩ | ⟨-, hdb⟩
  · rw [show db₁ = db from hdb]
    exact hnone
  · rw [show db₁ = _ from hdb]
    exact nothingPrepaid (Table.get_put_self _ _ _) rfl

theorem releaseStale_nothing (hnone : NothingPrepaid ws db) {r : Int × Db}
    (h : releaseStalePrepaid now ws db = .ok r) : r.2 = db := by
  unfold releaseStalePrepaid at h
  rw [get_bind] at h
  cases hacc : db.accounts.get ws with
  | none =>
    simp only [hacc] at h
    rw [pure_ok.mp h]
  | some acc =>
    simp only [hacc, hnone acc hacc] at h
    rw [pure_ok.mp h]

theorem payRenewal_does (hkeys : KeysSound db) {price : Int} (hacc : db.accounts.get ws = some acc)
    (hnone : acc.nextPeriodPrepaidMinor = none) (hsub : db.paidSubscription ws = some sub)
    {r : PlanResult × Db} (h : payRenewal now ws actor acc sub price db = .ok r) :
    Does ws now reprices db r.2 ∧
      (sub.currentPeriodEnd ≤ now → NothingPrepaid ws r.2 ∧ NotDue now ws r.2) := by
  have hnext : acc.next = ⟨none, acc.nextPeriodStart⟩ := by
    rw [← hnone]
    rfl
  have hperiod := period_of_paid hsub
  unfold payRenewal at h
  rw [randomUuid_bind] at h
  obtain ⟨row, db₁, hdebit, h⟩ := bind_ok.mp h
  obtain ⟨a, a₁, hpos, hbal, hrow, hkeys₁, hmoney₁, hwrote⟩ := debitNext_ok hkeys rfl rfl hdebit
  cases hacc.symm.trans hwrote.before
  have hbalance := (withBalance_ok hbal).1
  rcases ite_ok.mp h with ⟨hearly, h⟩ | ⟨hdue, h⟩
  · -- Paid early: kept for the next period.
    obtain ⟨_, db₂, hup, h⟩ := bind_ok.mp h
    cases pure_ok.mp h
    rcases updateAccount_ok hup with ⟨hn, -⟩ | ⟨a', a₂, ha', hf, hdb₂⟩
    · exact absurd (hwrote.after.symm.trans hn) nofun
    · cases hwrote.after.symm.trans ha'
      have hmoney := withPrepaid_ok hf
      rw [hbalance] at hmoney
      subst hdb₂
      refine ⟨?_, fun hdue => absurd hearly (not_lt.mpr hdue)⟩
      refine (hwrote.trans (put_wrote _ ha')).does (hkeys₁.frame rfl le_rfl)
        (next_books hmoney (by rw [hrow]; rfl) (by rw [hrow]; rfl) (by rw [hrow]; rfl)) ?_
      have hperiod₂ : Db.period { db₁ with accounts := db₁.accounts.put ws a₂ } ws =
          some sub.currentPeriodEnd := by
        rw [← hperiod]
        exact period_eq hmoney₁.subscriptions hmoney₁.plans
      rw [hperiod, hnext, hperiod₂, show a₂.next = _ from congrArg Money.next hmoney]
      refine .prepaid hearly hpos ⟨by rw [hrow]; rfl, by rw [hrow]; rfl, ?_, by rw [hrow]; rfl⟩
      rw [hrow]
      exact congrArg some (renewalStart_early hearly)
  · -- Due: the next period starts now.
    have hdue := not_lt.mp hdue
    obtain ⟨_, db₂, hup, h⟩ := bind_ok.mp h
    obtain ⟨_, db₃, hsub', h⟩ := bind_ok.mp h
    obtain ⟨_, db₄, hgrant, h⟩ := bind_ok.mp h
    cases pure_ok.mp h
    rcases updateAccount_ok hup with ⟨hn, -⟩ | ⟨a', a₂, ha', hf, hdb₂⟩
    · exact absurd (hwrote.after.symm.trans hn) nofun
    · cases hwrote.after.symm.trans ha'
      cases hf
      have hmoney := clearNext_money a₁
      rw [hbalance] at hmoney
      subst hdb₂
      obtain ⟨s, log, hdb₃, -, hend, hws, hprepaid, -⟩ := writeSubscription_ok hsub'
      simp only at hdb₃
      have hput := put_wrote a₁.clearNext ha'
      have hkeys₃ : KeysSound db₃ := by
        rw [hdb₃]
        exact hkeys₁.frame rfl le_rfl
      have hafter : db₃.accounts.get ws = some a₁.clearNext := by
        rw [hdb₃]
        exact hput.after
      refine ⟨Does.trans ?_ (grantMonth_does reprices hkeys₃ hgrant), fun _ => ?_⟩
      swap
      · obtain ⟨w, hw⟩ := grantMonth_ok hgrant
        subst hw
        refine ⟨nothingPrepaid hafter rfl, fun e he => ?_⟩
        have hlater := later_of_end hdb₃ hend le_rfl e he
        have hstart := renewalStart_gt now sub
        have := day_pos
        lia
      have hlater := later_of_end hdb₃ hend (renewalStart_ge now sub hdue).1
      rw [hdb₃] at hkeys₃ hlater ⊢
      refine ((hwrote.trans hput).trans (subscription_wrote hput.after s hws)).does hkeys₃
        (next_books hmoney (by rw [hrow]; rfl) (by rw [hrow]; rfl) (by rw [hrow]; rfl)) ?_
      have hlogs : ([] ++ [] ++ [log]).filter (fun c : PlanChange => c.prepaidMinor.isSome) = [] := by
        simp [hprepaid]
      rw [hperiod, hnext, hlogs]
      exact .renewed hdue (renewalStart_ge now sub hdue).2
        ⟨by rw [hrow]; rfl, rfl, by rw [hrow]; rfl, by rw [hrow]; rfl⟩ hlater

theorem lockRelease_does (hkeys : KeysSound db) {r : Account × Db} {r' : Int × Db}
    (h : lock ws db = .ok r) (h' : releaseStalePrepaid now ws r.2 = .ok r') :
    Does ws now reprices db r'.2 ∧ MoneyOnly db r'.2 ∧ ∀ acc, r'.2.accounts.get ws = some acc →
      acc.nextPeriodPrepaidMinor.isSome → acc.prepaidFollows (r'.2.paidSubscription ws) := by
  obtain ⟨hlock, hmoney, -⟩ := lock_does reprices hkeys h
  obtain ⟨hrelease, hmoney', hfollows⟩ := releaseStale_does reprices hlock.keys h'
  refine ⟨hlock.trans hrelease, hmoney.trans hmoney', fun acc hacc hsome => ?_⟩
  rw [hmoney'.paid]
  exact hfollows acc hacc hsome

theorem renew_does (hkeys : KeysSound db) {expectedEnd : Option Timestamp}
    {expectedPrice override : Option Int} {r : PlanResult × Db}
    (h : renew now ws actor expectedEnd expectedPrice override db = .ok r) :
    Does ws now reprices db r.2 ∧ ∃ sub, db.paidSubscription ws = some sub ∧
      (sub.currentPeriodEnd ≤ now → NothingPrepaid ws r.2 ∧ NotDue now ws r.2) := by
  obtain ⟨⟨_, db₁⟩, ⟨_, db₂⟩, acc, sub, price, hlock, hrelease, hacc, hsub, hnone, h⟩ := renew_ok h
  obtain ⟨hdoes, hmoney, -⟩ := lockRelease_does reprices hkeys hlock hrelease
  obtain ⟨hpay, hafter⟩ := payRenewal_does reprices hdoes.keys hacc hnone hsub h
  rw [hmoney.paid] at hsub
  exact ⟨hdoes.trans hpay, sub, hsub, hafter⟩

theorem cardSetStatus_does (hkeys : KeysSound db) {cardId : Id} {status : CardStatus}
    {reason : Option CancelReason} {r : Bool × Db}
    (h : cardSetStatus cardId status reason db = .ok r) :
    KeysSound r.2 ∧ (∀ ws', r.2.book ws' = db.book ws') ∧ r.2.subscriptions = db.subscriptions ∧
      r.2.plans = db.plans := by
  unfold cardSetStatus at h
  rw [get_bind] at h
  cases hcard : db.cards.get cardId with
  | none =>
    simp only [hcard] at h
    exact (throw_ok.mp h).elim
  | some card =>
    simp only [hcard] at h
    rcases ite_ok.mp h with ⟨-, h⟩ | ⟨-, h⟩
    · rw [pure_ok.mp h]
      exact ⟨hkeys, fun _ => rfl, rfl, rfl⟩
    · obtain ⟨-, h⟩ := require_bind_ok.mp h
      obtain ⟨-, h⟩ := require_bind_ok.mp h
      rcases ite_ok.mp h with ⟨-, h⟩ | ⟨-, h⟩
      · obtain ⟨_, _, hup, h⟩ := bind_ok.mp h
        cases pure_ok.mp h
        rcases updateAccount_ok hup with ⟨-, hdb⟩ | ⟨acc, acc', hacc, hf, hdb⟩
        · simp only at hdb
          rw [hdb]
          exact ⟨hkeys.frame rfl le_rfl, fun _ => rfl, rfl, rfl⟩
        · simp only at hdb
          rw [hdb]
          cases hf
          have hmoney : (acc.dropCard card).money = acc.money := by
            unfold Account.dropCard
            split <;> rfl
          exact ⟨hkeys.frame rfl le_rfl, book_put hacc hmoney, rfl, rfl⟩
      · rw [pure_ok.mp h]
        exact ⟨hkeys.frame rfl le_rfl, fun _ => rfl, rfl, rfl⟩

theorem stopCard_does (hkeys : KeysSound db) (h : stopCard reason card db = .ok r) :
    KeysSound r.2 ∧ (∀ ws', r.2.book ws' = db.book ws') ∧ r.2.subscriptions = db.subscriptions ∧
      r.2.plans = db.plans := by
  cases card with
  | none =>
    rw [pure_ok.mp h]
    exact ⟨hkeys, fun _ => rfl, rfl, rfl⟩
  | some c =>
    obtain ⟨_, _, hset, h⟩ := bind_ok.mp h
    rw [pure_ok.mp h]
    exact cardSetStatus_does hkeys hset

theorem money_of_book (hbook : db'.book ws = db.book ws) (hacc : db.accounts.get ws = some acc) :
    ∃ acc', db'.accounts.get ws = some acc' ∧ acc'.money = acc.money := by
  have h : (db'.accounts.get ws).map Account.money = (db.accounts.get ws).map Account.money :=
    congrArg Book.account hbook
  rw [hacc, Option.map_some, Option.map_eq_some_iff] at h
  exact h

theorem returnAtDue_does (hkeys : KeysSound db) (hacc : db.accounts.get ws = some acc)
    (h : returnAtDue now ws acc.nextPeriodPrepaidMinor db = .ok r)
    (h' : updateAccount ws (fun a => some a.clearNext) r.2 = .ok r') :
    Does ws now reprices db r'.2 ∧ MoneyOnly db r'.2 ∧
      ∃ acc', r'.2.accounts.get ws = some acc' ∧ acc'.next = .none := by
  cases hp : acc.nextPeriodPrepaidMinor with
  | none =>
    rw [hp] at h
    rw [pure_ok.mp h] at h'
    rcases updateAccount_ok h' with ⟨hnone, -⟩ | ⟨a, acc', ha, hfa, hdb⟩
    · exact absurd (hacc.symm.trans hnone) nofun
    · cases hacc.symm.trans ha
      cases hfa
      rw [hdb]
      exact ⟨clear_does reprices hkeys ha hp rfl, rfl, _, Table.get_put_self _ _ _, rfl⟩
  | some p =>
    rw [hp] at h
    simp only [returnAtDue] at h
    have hclear : ∀ a a' : Account, some a.clearNext = some a' →
        a'.money = { a.money with next := .none } := by
      intro a a' ha
      cases ha
      rfl
    exact return_does reprices hkeys hacc hp rfl hclear h h'

theorem expire_does (hkeys : KeysSound db) (hacc : db.accounts.get ws = some acc)
    (hsub : db.paidSubscription ws = some sub) (hdue : sub.currentPeriodEnd ≤ now)
    {r : DueResult × Db} (h : expire now ws acc sub card reason db = .ok r) :
    Does ws now reprices db r.2 ∧ NothingPrepaid ws r.2 ∧ NotDue now ws r.2 := by
  obtain ⟨_, db₁, hstop, h⟩ := bind_ok.mp h
  obtain ⟨_, db₂, hback, h⟩ := bind_ok.mp h
  obtain ⟨_, db₃, hup, h⟩ := bind_ok.mp h
  obtain ⟨_, db₄, hwrite, h⟩ := bind_ok.mp h
  rw [pure_ok.mp h]
  obtain ⟨hkeys₁, hbook, hsubs, hplans⟩ := stopCard_does hkeys hstop
  obtain ⟨acc₁, hacc₁, hmoney₁⟩ := money_of_book (hbook ws) hacc
  rw [show acc.nextPeriodPrepaidMinor = acc₁.nextPeriodPrepaidMinor from
    (congrArg (fun m => m.next.prepaid) hmoney₁).symm] at hback
  obtain ⟨hreturn, hmoney, acc₃, hacc₃, hnone⟩ := returnAtDue_does reprices hkeys₁ hacc₁ hback hup
  have hstep : Does ws now reprices db db₃ := (Does.same hkeys₁ hbook).trans hreturn
  obtain ⟨s, log, hdb₄, hstatus, -, hws, hprepaid, -⟩ := writeSubscription_ok hwrite
  simp only at hdb₄
  have hperiod : db₃.period ws = some sub.currentPeriodEnd := by
    rw [period_eq hmoney.subscriptions hmoney.plans, period_eq hsubs hplans]
    exact period_of_paid hsub
  have hperiod' : db₄.period ws = none := by
    rw [hdb₄]
    simp [Db.period, Db.paidSubscription, Db.withSubscription, Db.asPaid, hstatus]
  have hwrote := subscription_wrote hacc₃ s hws
  rw [← hdb₄] at hwrote
  refine ⟨hstep.trans (hwrote.does ?_ (clear_books rfl) ?_), nothingPrepaid hwrote.after hnone,
    by simp [NotDue, hperiod']⟩
  · rw [hdb₄]
    exact hreturn.keys.frame rfl le_rfl
  · have hlogs : [log].filter (fun c : PlanChange => c.prepaidMinor.isSome) = [] := by
      simp [hprepaid]
    rw [hlogs, hperiod, hperiod']
    exact .ended hdue

theorem startPrepaid_does (hkeys : KeysSound db) (hacc : db.accounts.get ws = some acc)
    (hprepaid : acc.nextPeriodPrepaidMinor = some prepaid)
    (hstart : acc.nextPeriodStart = some sub.currentPeriodEnd)
    (hsub : db.paidSubscription ws = some sub) (hdue : sub.currentPeriodEnd ≤ now)
    {r : DueResult × Db} (h : startPrepaid now ws acc sub prepaid db = .ok r) :
    Does ws now reprices db r.2 ∧ NothingPrepaid ws r.2 := by
  obtain ⟨_, db₁, hup, h⟩ := bind_ok.mp h
  obtain ⟨_, db₂, hwrite, h⟩ := bind_ok.mp h
  obtain ⟨_, db₃, hgrant, h⟩ := bind_ok.mp h
  rw [pure_ok.mp h]
  rcases updateAccount_ok hup with ⟨hn, -⟩ | ⟨a, acc', ha, hfa, hdb₁⟩
  · exact absurd (hacc.symm.trans hn) nofun
  cases hacc.symm.trans ha
  cases hfa
  obtain ⟨s, log, hdb₂, -, hend, hws, hlogged, hlogstart⟩ := writeSubscription_ok hwrite
  simp only at hdb₁ hdb₂
  have hput := put_wrote acc.clearNext hacc
  rw [← hdb₁] at hput
  have hlater := later_of_end hdb₂ hend le_rfl
  have hwrote := hput.trans (subscription_wrote hput.after s hws)
  rw [← hdb₂] at hwrote
  have hkeys₂ : KeysSound db₂ := by
    rw [hdb₂, hdb₁]
    exact hkeys.frame rfl le_rfl
  obtain ⟨w, hw⟩ := grantMonth_ok hgrant
  refine ⟨Does.trans (hwrote.does hkeys₂ (clear_books rfl) ?_)
    (grantMonth_does reprices hkeys₂ hgrant), ?_⟩
  · have hlogs : ([] ++ [log]).filter (fun c : PlanChange => c.prepaidMinor.isSome) = [log] := by
      simp [hlogged]
    rw [hlogs, period_of_paid hsub, show acc.next = ⟨some prepaid, some sub.currentPeriodEnd⟩ by
      rw [← hprepaid, ← hstart]; rfl]
    exact .consumed hdue hlater hlogged hlogstart
  · simp only at hw
    subst hw
    exact nothingPrepaid hwrote.after rfl

theorem dueStep_start (h : db.dueStep acc sub card = .start prepaid) :
    acc.nextPeriodPrepaidMinor = some prepaid := by
  unfold Db.dueStep at h
  generalize Option.getD (Option.bind _ _) true = free at h
  cases hp : acc.nextPeriodPrepaidMinor <;> cases free <;> simp only [hp] at h
  case some.false => rw [DueStep.start.inj h]
  all_goals
    repeat' split at h
    all_goals cases h

theorem processDuePeriod_does (hkeys : KeysSound db) (hsub : db.paidSubscription ws = some sub)
    (hdue : sub.currentPeriodEnd ≤ now) {r : DueResult × Db}
    (h : processDuePeriod now ws sub db = .ok r) :
    Does ws now reprices db r.2 ∧ NothingPrepaid ws r.2 ∧
      (NothingPrepaid ws db → NotDue now ws r.2) := by
  obtain ⟨_, db₁, hrelease, h⟩ := bind_ok.mp h
  obtain ⟨hdoes, hmoney, hfollows⟩ := releaseStale_does reprices hkeys hrelease
  obtain ⟨acc, hacc, h⟩ := readAccount_bind_ok.mp h
  rw [get_bind] at h
  have hsub₁ : db₁.paidSubscription ws = some sub := (hmoney.paid ws).trans hsub
  cases hstep : db₁.dueStep acc sub (db₁.liveCard ws) with
  | start prepaid =>
    simp only [hstep] at h
    have hprepaid := dueStep_start hstep
    have hstart := hfollows acc hacc (by simp [hprepaid])
    rw [hsub] at hstart
    obtain ⟨hstart', hnone⟩ := startPrepaid_does reprices hdoes.keys hacc hprepaid
      (by simpa [Account.prepaidFollows] using hstart) hsub₁ hdue h
    refine ⟨hdoes.trans hstart', hnone, fun hnothing => ?_⟩
    rw [show db₁ = db from releaseStale_nothing hnothing hrelease] at hacc
    rw [hnothing acc hacc] at hprepaid
    cases hprepaid
  | renew =>
    simp only [hstep] at h
    obtain ⟨_, db₂, hrenew, h⟩ := bind_ok.mp h
    rw [pure_ok.mp h]
    obtain ⟨hrenew, sub', hsub', hnone⟩ := renew_does reprices hdoes.keys hrenew
    cases hsub₁.symm.trans hsub'
    exact ⟨hdoes.trans hrenew, (hnone hdue).1, fun _ => (hnone hdue).2⟩
  | expire reason =>
    simp only [hstep] at h
    obtain ⟨hexpire, hnone, hnotDue⟩ := expire_does reprices hdoes.keys hacc hsub₁ hdue h
    exact ⟨hdoes.trans hexpire, hnone, fun _ => hnotDue⟩

theorem due_some (h : db.due now ws = some sub) :
    db.paidSubscription ws = some sub ∧ sub.currentPeriodEnd ≤ now := by
  obtain ⟨hsub, hdue⟩ := Option.filter_eq_some_iff.mp h
  exact ⟨hsub, by simpa using hdue⟩

theorem due_none (h : db.due now ws = none) (hsub : db.paidSubscription ws = some sub) :
    now < sub.currentPeriodEnd := by
  unfold Db.due at h
  rw [hsub, Option.filter_eq_none_iff] at h
  simpa using h sub rfl

theorem notDue_of_due_none (h : db.due now ws = none) : NotDue now ws db := by
  intro e he
  obtain ⟨sub, hsub, rfl⟩ := Option.map_eq_some_iff.mp he
  exact due_none h hsub

/-- Where the due moment came, nothing is prepaid after it; where it did not, or
nothing was prepaid, the workspace is not due after it. -/
theorem processDue_does (hkeys : KeysSound db) {r : DueResult × Db}
    (h : processDue now ws db = .ok r) :
    Does ws now reprices db r.2 ∧ ((db.due now ws).isSome → NothingPrepaid ws r.2) ∧
      (NothingPrepaid ws db ∨ db.due now ws = none → NotDue now ws r.2) := by
  obtain ⟨_, db₁, hlock, h⟩ := bind_ok.mp h
  obtain ⟨hdoes, hmoney, -⟩ := lock_does reprices hkeys hlock
  rw [get_bind] at h
  have hsame : db₁.due now ws = db.due now ws := by
    unfold Db.due
    rw [hmoney.paid]
  cases hdue₁ : db₁.due now ws with
  | none =>
    simp only [hdue₁] at h
    rw [pure_ok.mp h, ← hsame, hdue₁]
    exact ⟨hdoes, nofun, fun _ => notDue_of_due_none hdue₁⟩
  | some sub =>
    simp only [hdue₁] at h
    obtain ⟨hsub, hdue⟩ := due_some hdue₁
    obtain ⟨hperiod, hnone, hnotDue⟩ := processDuePeriod_does reprices hdoes.keys hsub hdue h
    refine ⟨hdoes.trans hperiod, fun _ => hnone, ?_⟩
    rintro (hnothing | hnone)
    · exact hnotDue (lock_nothing hlock hnothing)
    · rw [← hsame, hdue₁] at hnone
      cases hnone

end Kindred.Billing
