import Kindred.Billing.Refinement

/-! Buying, upgrading and changing a plan, and what a card renewal pays for. -/

namespace Kindred.Billing
open Lib.Tx

variable {now : Timestamp} {ws : Id} (reprices : Prop) {db : Db} {r : PlanResult × Db} {planId : Id}
  {actor : Option Id} {acc : Account} {sub : PaidSubscription} {price : Option Int}
  {interval : Interval} {payment : Payment} {key : Key} {amount : Int} {period : Option Timestamp}
  {a : Account} {start : Option Timestamp}

theorem releaseStale_clears (hkeys : KeysSound db)
    (hfree : NothingPrepaid ws db ∨ db.paidSubscription ws = none) {r : Int × Db}
    (h : releaseStalePrepaid now ws db = .ok r) : NothingPrepaid ws r.2 := by
  rcases hfree with hnone | hpaid
  · rw [releaseStale_nothing hnone h]
    exact hnone
  · obtain ⟨-, -, hfollows⟩ := releaseStale_does False hkeys h
    intro acc hacc
    have := hfollows acc hacc
    rw [hpaid] at this
    simpa [Account.prepaidFollows] using this

theorem buyPlan_does (hkeys : KeysSound db) {interval : Option Interval} {key : String}
    (hold : ∀ e ∈ db.period ws, e ≤ now)
    (hfree : NothingPrepaid ws db ∨ db.paidSubscription ws = none)
    (h : buyPlan now ws planId interval key actor db = .ok r) : Does ws now reprices db r.2 := by
  obtain ⟨_, db₁, hrelease, h⟩ := bind_ok.mp h
  obtain ⟨hdoes₁, hmoney₁, -⟩ := releaseStale_does reprices hkeys hrelease
  have hnone := releaseStale_clears hkeys hfree hrelease
  obtain ⟨acc, hacc, h⟩ := readAccount_bind_ok.mp h
  rw [get_bind] at h
  obtain ⟨-, h⟩ := require_bind_ok.mp h
  cases hprice : db₁.planPrice planId acc.currency (interval.getD .monthly).text with
  | none =>
    simp only [hprice] at h
    exact (throw_ok.mp h).elim
  | some price =>
    simp only [hprice] at h
    obtain ⟨-, h⟩ := require_bind_ok.mp h
    obtain ⟨row, db₂, hdebit, h⟩ := bind_ok.mp h
    obtain ⟨_, db₃, hup, h⟩ := bind_ok.mp h
    obtain ⟨_, db₄, hwrite, h⟩ := bind_ok.mp h
    obtain ⟨_, db₅, hgrant, h⟩ := bind_ok.mp h
    rw [pure_ok.mp h]
    obtain ⟨hdoes₂, hmoney₂, hnext⟩ := debit_does reprices hdoes₁.keys (by simp) (by simp) rfl hdebit
    obtain ⟨acc₂, hacc₂, hnext₂⟩ := hnext acc hacc
    rcases updateAccount_ok hup with ⟨hn, -⟩ | ⟨a, acc₃, ha, hf, hdb₃⟩
    · exact absurd (hacc₂.symm.trans hn) (Option.some_ne_none _)
    cases hacc₂.symm.trans ha
    cases hf
    have hnone₂ : acc₂.nextPeriodPrepaidMinor = none :=
      (congrArg NextPeriod.prepaid hnext₂).trans (hnone acc hacc)
    simp only at hdb₃
    have hclear : Does ws now reprices db₂ db₃ := by
      rw [hdb₃]
      exact clear_does reprices hdoes₂.keys hacc₂ hnone₂ (clearNext_money acc₂)
    obtain ⟨s, log, hdb₄, -, hend, hws, hprepaid, -⟩ := writeSubscription_ok hwrite
    simp only at hdb₄
    have hacc₃ : db₃.accounts.get ws = some acc₂.clearNext := by
      rw [hdb₃]
      exact Lib.Table.get_put_self _ _ _
    have hwrote := subscription_wrote hacc₃ s hws
    rw [← hdb₄] at hwrote
    have hkeys₄ : KeysSound db₄ := by
      rw [hdb₄]
      exact hclear.keys.frame rfl le_rfl
    have hperiod : db₃.period ws = db.period ws := by
      have h₃ : db₃.period ws = db₂.period ws := by
        rw [hdb₃]
        exact period_eq rfl rfl
      rw [h₃, period_eq hmoney₂.subscriptions hmoney₂.plans,
        period_eq hmoney₁.subscriptions hmoney₁.plans]
    have hbuy : Does ws now reprices db₃ db₄ := by
      refine hwrote.does hkeys₄ (clear_books rfl) ?_
      rw [show [log].filter (fun c : PlanChange => c.prepaidMinor.isSome) = [] by simp [hprepaid]]
      exact .bought (by rwa [hperiod]) (later_of_end hdb₄ hend le_rfl)
    exact ((hdoes₁.trans hdoes₂).trans (hclear.trans hbuy)).trans
      (grantMonth_does reprices hkeys₄ hgrant)

theorem period_le_of_paid (h : (db.paidSubscription ws).all fun sub => sub.currentPeriodEnd ≤ now) :
    ∀ e ∈ db.period ws, e ≤ now := by
  intro e he
  simp only [Db.period, Option.mem_def, Option.map_eq_some_iff] at he
  obtain ⟨sub, hsub, rfl⟩ := he
  simpa [hsub] using h

theorem paid_none (hdue : db.due now ws = none)
    (hall : (db.paidSubscription ws).all fun sub => sub.currentPeriodEnd ≤ now) :
    db.paidSubscription ws = none := by
  cases hsub : db.paidSubscription ws with
  | none => rfl
  | some sub =>
    have hend : sub.currentPeriodEnd ≤ now := by simpa [hsub] using hall
    exact absurd hend (not_le.mpr (due_none hdue hsub))

theorem parseInterval_ok {text : Option String} {r : Option Interval × Db}
    (h : parseInterval text db = .ok r) : r.2 = db := by
  cases text with
  | none => rw [pure_ok.mp h]
  | some text =>
    simp only [parseInterval] at h
    cases hparse : Interval.parse text with
    | none =>
      simp only [hparse] at h
      exact (throw_ok.mp h).elim
    | some interval =>
      simp only [hparse] at h
      rw [pure_ok.mp h]

theorem purchasePlan_does (hkeys : KeysSound db) {interval : Option String} {key : String}
    (h : purchasePlan now ws planId interval key actor db = .ok r) :
    Does ws now reprices db r.2 := by
  obtain ⟨_, db₀, hparse, h⟩ := bind_ok.mp h
  rw [show db₀ = db from parseInterval_ok hparse, get_bind] at h
  cases hrow : db.ledger.get (.plan key) with
  | some row =>
    simp only [hrow] at h
    rw [pure_ok.mp h]
    exact .refl hkeys
  | none =>
    simp only [hrow] at h
    obtain ⟨_, db₁, hlock, h⟩ := bind_ok.mp h
    obtain ⟨hdoes₁, -, -⟩ := lock_does reprices hkeys hlock
    rcases ite_ok.mp h with ⟨hdue, h⟩ | ⟨hdue, h⟩
    · obtain ⟨_, db₂, hprocess, h⟩ := bind_ok.mp h
      obtain ⟨hdoes₂, hnone, -⟩ := processDue_does reprices hdoes₁.keys hprocess
      rw [get_bind] at h
      obtain ⟨hpaid, h⟩ := require_bind_ok.mp h
      exact (hdoes₁.trans hdoes₂).trans
        (buyPlan_does reprices hdoes₂.keys (period_le_of_paid hpaid) (.inl (hnone hdue)) h)
    · rw [get_bind] at h
      obtain ⟨hpaid, h⟩ := require_bind_ok.mp h
      have hfree := paid_none (Option.not_isSome_iff_eq_none.mp hdue) hpaid
      exact hdoes₁.trans
        (buyPlan_does reprices hdoes₁.keys (period_le_of_paid hpaid) (.inr hfree) h)

structure Posts (ws : Id) (acc acc' : Account) (rows : List Entry) (db db' : Db) : Prop where
  wrote : Wrote ws acc acc' rows [] db db'
  books : acc.money.Books rows acc'.money
  next : acc'.next = acc.next
  keys : KeysSound db'
  money : MoneyOnly db db'

theorem Posts.refl (hkeys : KeysSound db) (hacc : db.accounts.get ws = some acc) :
    Posts ws acc acc [] db db where
  wrote :=
    { before := hacc
      after := hacc
      accounts := fun _ _ => rfl
      ledger := (List.append_nil _).symm
      rows_ws := by simp
      log := (List.append_nil _).symm
      logs_ws := by simp
      periods := fun _ _ => rfl }
  books := clear_books rfl
  next := rfl
  keys := hkeys
  money := .refl db

variable {charge : Charge} {a' : Account} {cost : UpgradeCost} {paymentId : Id}

theorem debit_posts (hkeys : KeysSound db) (hacc : db.accounts.get ws = some acc)
    (hkind : charge.kind ≠ .renewal) (hkind' : charge.kind ≠ .prepaidReturn)
    (hkey : key.uuid = none) {r : LedgerRow × Db} (h : debit now ws amount charge key db = .ok r) :
    ∃ acc' rows, Posts ws acc acc' rows db r.2 ∧ (rows = [] ∨
      ∃ key row, rows = [(key, row)] ∧ row.kind ≠ .renewal ∧ row.kind ≠ .prepaidReturn) := by
  rcases debit_ok h with ⟨-, -, -, -, hdb⟩ | ⟨a, acc', hnew, -, ha, -, hf, hrow, hdb⟩
  · rw [hdb]
    exact ⟨acc, [], .refl hkeys hacc, .inl rfl⟩
  · cases hacc.symm.trans ha
    rw [hdb, hrow]
    refine ⟨acc', [(key, debitRow now ws amount charge acc db.nextId)],
      ⟨posted_wrote acc' hacc hnew rfl, books_of_balance hf ?_ rfl rfl,
        congrArg Money.next (withBalance_ok hf).1, ?_, rfl⟩, .inr ⟨_, _, rfl, hkind, hkind'⟩⟩
    · simp only [debitRow]
      omega
    · exact hkeys.posted rfl (Nat.le_succ _) (fun _ => by simp [hkey])
        fun hk => by simp_all [debitRow]

theorem debitNext_posts (hkeys : KeysSound db) (hacc : db.accounts.get ws = some acc)
    (hkind : charge.kind = .renewal) (hkey : key.uuid = some db.nextId) {r : LedgerRow × Db}
    (h : debit now ws amount charge key db.drawn = .ok r) :
    ∃ acc', Posts ws acc acc' [(key, r.1)] db r.2 ∧
      r.1.isNext .renewal (-amount) charge.periodStart now := by
  obtain ⟨a, acc', -, hbal, hrow, hkeys', hmoney, hwrote⟩ := debitNext_ok hkeys hkind hkey h
  cases hacc.symm.trans hwrote.before
  refine ⟨acc', ⟨hwrote, books_of_balance hbal ?_ ?_ ?_, congrArg Money.next (withBalance_ok hbal).1,
    hkeys', hmoney⟩, ?_⟩
  · simp only [hrow, debitRow]
    omega
  · rw [hrow]
    rfl
  · rw [hrow]
    rfl
  · rw [hrow]
    exact ⟨hkind, rfl, rfl, rfl⟩

theorem returnNext_posts (hkeys : KeysSound db) (hacc : db.accounts.get ws = some acc)
    (hpos : 0 < amount) (hkey : key.uuid = some db.nextId) {r : Unit × Db}
    (h : creditBack now ws amount actor key db.drawn = .ok r) :
    ∃ acc' row, Posts ws acc acc' [(key, row)] db r.2 ∧
      row.isNext .prepaidReturn amount acc.nextPeriodStart now := by
  rcases creditBack_ok h with ⟨row, hget, hkind, -⟩ | ⟨hle, -⟩ | ⟨a, acc', hnew, -, ha, hbal, hdb⟩
  · exact (hkeys.absent hget (by simp [hkind]) hkey).elim
  · omega
  · have ha' : db.accounts.get ws = some a := ha
    cases hacc.symm.trans ha'
    rw [hdb]
    refine ⟨acc', _, ⟨(uuid_wrote hacc).trans (posted_wrote acc' ha hnew rfl),
      books_of_balance hbal rfl rfl rfl, congrArg Money.next (withBalance_ok hbal).1, ?_, rfl⟩,
      rfl, rfl, rfl, rfl⟩
    refine hkeys.posted rfl (Nat.le_add_right _ 2) (fun _ u hu => ?_) fun _ k hk => ?_
    · rw [hkey] at hu
      cases hu
      exact Nat.lt_add_of_pos_right Nat.two_pos
    · rw [hk] at hkey
      cases hkey

def Shift (ws : Id) (now : Timestamp) (reprices : Prop) (period : Option Timestamp)
    (next : NextPeriod) (rows : List Entry) (next' : NextPeriod) : Prop :=
  rows = [] ∧ next' = next ∨ Event ws now reprices period next rows [] period next'

variable {reprices} in
theorem Shift.booked {next : NextPeriod} {rows : List Entry} (h : rows = [] ∨
      ∃ key row, rows = [(key, row)] ∧ row.kind ≠ .renewal ∧ row.kind ≠ .prepaidReturn) :
    Shift ws now reprices period next rows next := by
  rcases h with rfl | ⟨key, row, rfl, hkind, hkind'⟩
  · exact .inl ⟨rfl, rfl⟩
  · exact .inr (.booked hkind hkind')

variable {reprices} in
theorem Shift.moves {next next' : NextPeriod} {rows : List Entry} {m m' : Money}
    (hbooks : m.Books rows m') (h : Shift ws now reprices period next rows next') (old : List Entry)
    (used : List PlanChange) : Moves ws now reprices ⟨some { m with next }, old, used, period⟩
      ⟨some { m' with next := next' }, old ++ rows, used, period⟩ := by
  rcases h with ⟨rfl, rfl⟩ | hevent
  · obtain ⟨hcurrency, hbalance, -⟩ := hbooks
    simp only [List.map_nil, List.sum_nil, Int.add_zero] at hbalance
    rw [hcurrency, hbalance, List.append_nil]
    exact .refl
  · have h : Move ws now reprices ⟨some { m with next }, old, used, period⟩
        ⟨some { m' with next := next' }, old ++ rows, used ++ [], period⟩ :=
      .wrote rfl ⟨hbooks.currency, hbooks.balance, hbooks.row⟩ hevent
    rw [List.append_nil] at h
    exact .single h

theorem startStamp_bind_ok {α : Type} {f : Int → BillingTx α} {r : α × Db}
    (h : (sub.startStamp >>= f) db = .ok r) : ∃ s, f s db = .ok r := by
  obtain ⟨s, db', hstamp, h⟩ := bind_ok.mp h
  unfold PaidSubscription.startStamp at hstamp
  cases hstart : sub.currentPeriodStart with
  | none =>
    simp only [hstart] at hstamp
    exact (throw_ok.mp hstamp).elim
  | some start =>
    simp only [hstart] at hstamp
    cases pure_ok.mp hstamp
    exact ⟨_, h⟩

theorem returnReprice_posts (hkeys : KeysSound db) (hacc : db.accounts.get ws = some acc)
    {reprice : Int} {r : Unit × Db} (h : returnReprice now ws planId actor sub reprice db = .ok r) :
    ∃ acc' rows, Posts ws acc acc' rows db r.2 ∧ (0 ≤ reprice → rows = []) ∧
      (reprice < 0 → ∃ key row, rows = [(key, row)] ∧
        row.isNext .prepaidReturn (-reprice) acc.nextPeriodStart now) := by
  rcases ite_ok.mp h with ⟨hneg, h⟩ | ⟨hneg, h⟩
  · obtain ⟨s, h⟩ := startStamp_bind_ok h
    obtain ⟨acc', row, hposts, hrow⟩ :=
      returnNext_posts hkeys hacc (Int.neg_pos_of_neg hneg) rfl h
    exact ⟨acc', _, hposts, fun hle => absurd hneg (not_lt.mpr hle), fun _ => ⟨_, _, rfl, hrow⟩⟩
  · rw [pure_ok.mp h]
    exact ⟨acc, [], .refl hkeys hacc, fun _ => rfl, fun hlt => absurd hlt hneg⟩

theorem debitUpgrade_posts (hkeys : KeysSound db) (hacc : db.accounts.get ws = some acc)
    {cost : Int} {r : Unit × Db} (h : debitUpgrade now ws planId actor sub cost db = .ok r) :
    ∃ acc' rows, Posts ws acc acc' rows db r.2 ∧ (rows = [] ∨
      ∃ key row, rows = [(key, row)] ∧ row.kind ≠ .renewal ∧ row.kind ≠ .prepaidReturn) := by
  rcases ite_ok.mp h with ⟨-, h⟩ | ⟨-, h⟩
  · obtain ⟨s, h⟩ := startStamp_bind_ok h
    obtain ⟨_, _, hdebit, h⟩ := bind_ok.mp h
    rw [pure_ok.mp h]
    exact debit_posts hkeys hacc (by simp) (by simp) rfl hdebit
  · rw [pure_ok.mp h]
    exact ⟨acc, [], .refl hkeys hacc, .inl rfl⟩

theorem debitReprice_posts (hkeys : KeysSound db) (hacc : db.accounts.get ws = some acc)
    {reprice : Int} {r : Unit × Db}
    (h : debitReprice now ws planId actor a sub reprice db = .ok r) :
    ∃ acc' rows, Posts ws acc acc' rows db r.2 ∧ (reprice ≤ 0 → rows = []) ∧
      (0 < reprice → ∃ key row, rows = [(key, row)] ∧
        row.isNext .renewal (-reprice) (some sub.currentPeriodEnd) now) := by
  rcases ite_ok.mp h with ⟨hpos, h⟩ | ⟨hpos, h⟩
  · obtain ⟨s, h⟩ := startStamp_bind_ok h
    rw [randomUuid_bind] at h
    obtain ⟨row, _, hdebit, h⟩ := bind_ok.mp h
    rw [pure_ok.mp h]
    obtain ⟨acc', hposts, hrow⟩ := debitNext_posts hkeys hacc rfl rfl hdebit
    exact ⟨acc', _, hposts, fun hle => absurd hpos (not_lt.mpr hle), fun _ => ⟨_, _, rfl, hrow⟩⟩
  · rw [pure_ok.mp h]
    exact ⟨acc, [], .refl hkeys hacc, fun _ => rfl, fun hlt => absurd hlt hpos⟩

def NextPeriod.reprice (next : NextPeriod) (price : Option Int) : NextPeriod :=
  match next.prepaid, price with
  | some _, some price => ⟨some price, next.start⟩
  | _, _ => .none

theorem reprice_ok (h : a.reprice price = some a') :
    a'.money = { a.money with next := a.next.reprice price } := by
  unfold Account.reprice at h
  unfold NextPeriod.reprice
  cases hp : a.nextPeriodPrepaidMinor with
  | none =>
    simp only [hp] at h
    cases h
    simp [Account.next, hp]
  | some p =>
    cases price with
    | none =>
      simp only [hp] at h
      cases h
      simp [Account.next, hp]
    | some price =>
      simp only [hp, Option.map_eq_some_iff] at h
      obtain ⟨b, hb, rfl⟩ := h
      rw [withSchedule_money, withPrepaid_ok hb]
      simp [Account.next, hp]

variable (ws) in
/-- What the next price lacks or leaves moves the prepayment to it: the return
comes first, the debit last. -/
theorem reprice_shifts (hr : reprices) {e : Timestamp} (hnow : now < e) (next : NextPeriod)
    {reprice : Int} (hfollows : next.prepaid.isSome → next.start = some e)
    (hcheck : ∀ p ∈ next.prepaid, 0 ≤ p)
    (hreprice : reprice = (next.prepaid.map fun p => price.getD 0 - p).getD 0)
    {before after : List Entry} (hbefore : 0 ≤ reprice → before = [])
    (hbefore' : reprice < 0 → ∃ key row, before = [(key, row)] ∧
      row.isNext .prepaidReturn (-reprice) next.start now) (hafter : reprice ≤ 0 → after = [])
    (hafter' : 0 < reprice → ∃ key row, after = [(key, row)] ∧
      row.isNext .renewal (-reprice) (some e) now) :
    ∃ mid, Shift ws now reprices (some e) next before mid ∧
      Shift ws now reprices (some e) mid after (next.reprice price) := by
  obtain ⟨prepaid, start⟩ := next
  cases prepaid with
  | none =>
    simp only [Option.map_none, Option.getD_none] at hreprice
    rw [hbefore (by omega), hafter (by omega)]
    exact ⟨_, .inl ⟨rfl, rfl⟩, .inr .cleared⟩
  | some p =>
    simp only [Option.map_some, Option.getD_some] at hreprice
    cases hfollows rfl
    rcases lt_trichotomy reprice 0 with hneg | hzero | hpos
    · obtain ⟨key, row, rfl, hrow⟩ := hbefore' hneg
      rw [hafter (by omega)]
      refine ⟨_, .inr ?_, .inl ⟨rfl, rfl⟩⟩
      cases price with
      | none =>
        refine .returned (by simp_all) ?_
        convert hrow using 1
        simp_all
      | some price =>
        refine .lowered hr hnow (by simp_all) ?_
        convert hrow using 1
        simp_all
    · rw [hbefore (by omega), hafter (by omega)]
      cases price with
      | none => exact ⟨_, .inl ⟨rfl, rfl⟩, .inr (.forgotten (by simp_all))⟩
      | some price =>
        have hsame : price = p := by simp_all; omega
        exact ⟨_, .inl ⟨rfl, rfl⟩, .inl ⟨rfl, by simp [NextPeriod.reprice, hsame]⟩⟩
    · obtain ⟨key, row, rfl, hrow⟩ := hafter' hpos
      rw [hbefore (by omega)]
      refine ⟨_, .inl ⟨rfl, rfl⟩, .inr ?_⟩
      cases price with
      | none =>
        have := hcheck p rfl
        simp only [Option.getD_none] at hreprice
        omega
      | some price =>
        refine .raised hr hnow ?_
        convert hrow using 2
        simp_all

/-- The subscription is written with the period it had, or on a plan that is not
a paid one. -/
theorem sameEnd_moves (hr : reprices) (hacc : db.accounts.get ws = some acc) (hkeys : KeysSound db)
    (hsub : db.paidSubscription ws = some sub) {interval : Option Interval}
    {changeType : ChangeType} {r : PUnit × Db}
    (h : writeSubscription ws planId interval start sub.currentPeriodEnd .active changeType actor
      {} db = .ok r) : Does ws now reprices db r.2 ∧ r.2.accounts = db.accounts := by
  obtain ⟨s, log, hdb, -, hend, hws, hprepaid, -⟩ := writeSubscription_ok h
  have hwrote := subscription_wrote hacc s hws
  rw [← hdb] at hwrote
  have hkeys' : KeysSound r.2 := by
    rw [hdb]
    exact hkeys.frame rfl le_rfl
  refine ⟨hwrote.moves hkeys' fun old used => ?_, by rw [hdb]; rfl⟩
  rw [show [log].filter (fun c : PlanChange => c.prepaidMinor.isSome) = [] by simp [hprepaid],
    List.append_nil, List.append_nil, period_of_paid hsub]
  cases hperiod : r.2.period ws with
  | none => exact .single (.edited none hr)
  | some e =>
    have he : e ∈ (db.withSubscription ws s log).period ws := by
      rw [← hdb]
      exact hperiod
    have := period_withSubscription e he
    rw [hend] at this
    cases this
    exact .refl

theorem applyUpgrade_does (hr : reprices) (hkeys : KeysSound db)
    (hacc : db.accounts.get ws = some acc) (hsub : db.paidSubscription ws = some sub)
    (hnow : now < sub.currentPeriodEnd)
    (hfollows : acc.nextPeriodPrepaidMinor.isSome → acc.prepaidFollows (some sub))
    (hcost : cost.repriceMinor.getD 0 =
      (acc.nextPeriodPrepaidMinor.map fun p => cost.nextPriceMinor.getD 0 - p).getD 0)
    (h : applyUpgrade now ws planId actor acc sub cost db = .ok r) :
    Does ws now reprices db r.2 := by
  obtain ⟨_, db₁, hgrant, h⟩ := bind_ok.mp h
  obtain ⟨_, db₂, hreturn, h⟩ := bind_ok.mp h
  obtain ⟨_, db₃, hdebit, h⟩ := bind_ok.mp h
  obtain ⟨_, db₄, hraise, h⟩ := bind_ok.mp h
  obtain ⟨_, db₅, hup, h⟩ := bind_ok.mp h
  obtain ⟨_, db₆, hwrite, h⟩ := bind_ok.mp h
  have hdoes₁ : Does ws now reprices db db₁ := grantMonth_does reprices hkeys hgrant
  obtain ⟨w, hw⟩ := grantMonth_ok hgrant
  have hacc₁ : db₁.accounts.get ws = some acc := by
    rw [show db₁ = _ from hw]
    exact hacc
  have hsub₁ : db₁.paidSubscription ws = some sub := by
    rw [show db₁ = _ from hw]
    exact hsub
  obtain ⟨a₂, before, hposts₂, hbefore, hbefore'⟩ :=
    returnReprice_posts hdoes₁.keys hacc₁ hreturn
  obtain ⟨a₃, rows, hposts₃, hrows⟩ := debitUpgrade_posts hposts₂.keys hposts₂.wrote.after hdebit
  obtain ⟨a₄, after, hposts₄, hafter, hafter'⟩ :=
    debitReprice_posts hposts₃.keys hposts₃.wrote.after hraise
  rcases updateAccount_ok hup with ⟨hn, -⟩ | ⟨a, a₅, ha, hf, hdb₅⟩
  · exact absurd (hposts₄.wrote.after.symm.trans hn) (Option.some_ne_none _)
  cases hposts₄.wrote.after.symm.trans ha
  have hnext : a₄.next = acc.next := hposts₄.next.trans (hposts₃.next.trans hposts₂.next)
  have hmoney₅ := reprice_ok hf
  rw [hnext] at hmoney₅
  obtain ⟨mid, hmid, hshift⟩ := reprice_shifts ws reprices hr hnow acc.next
    (fun hsome => by simpa [Account.prepaidFollows, Account.next] using hfollows hsome)
    acc.prepaid_check hcost hbefore hbefore' hafter hafter'
  simp only at hdb₅
  have hmoney : MoneyOnly db₁ db₅ :=
    hposts₂.money.trans (hposts₃.money.trans (hposts₄.money.trans (by rw [hdb₅]; rfl)))
  have hsub₅ : db₅.paidSubscription ws = some sub := (hmoney.paid ws).trans hsub₁
  have hwrote := ((hposts₂.wrote.trans hposts₃.wrote).trans hposts₄.wrote).trans
    (put_wrote a₅ hposts₄.wrote.after)
  rw [← hdb₅] at hwrote
  have hkeys₅ : KeysSound db₅ := by
    rw [hdb₅]
    exact hposts₄.keys.frame rfl le_rfl
  have hdoes₅ : Does ws now reprices db₁ db₅ := by
    refine hwrote.moves hkeys₅ fun old used => ?_
    rw [hmoney₅, period_of_paid hsub₅, period_of_paid hsub₁]
    have h₂ := hmid.moves hposts₂.books old used
    have hpaid : Shift ws now reprices (some sub.currentPeriodEnd) mid rows mid := .booked hrows
    have h₃ := hpaid.moves hposts₃.books (old ++ before) used
    have h₄ := hshift.moves hposts₄.books (old ++ before ++ rows) used
    have hall := h₂.trans (h₃.trans h₄)
    simp only [List.append_assoc, List.append_nil, List.filter_nil] at hall ⊢
    exact hall
  obtain ⟨hdoes₆, haccounts⟩ := sameEnd_moves reprices hr hwrote.after hkeys₅ hsub₅ hwrite
  have hdoes := (hdoes₁.trans hdoes₅).trans hdoes₆
  rcases ite_ok.mp h with ⟨-, h⟩ | ⟨-, h⟩
  · obtain ⟨_, db₇, hmore, h⟩ := bind_ok.mp h
    obtain ⟨_, -, h⟩ := readAccount_bind_ok.mp h
    rw [pure_ok.mp h]
    exact hdoes.trans (grantMonth_does reprices hdoes₆.keys hmore)
  · obtain ⟨_, -, h⟩ := readAccount_bind_ok.mp h
    rw [pure_ok.mp h]
    exact hdoes

theorem upgradeCost_reprice (hsub : db.paidSubscription ws = some sub)
    (hacc : db.accounts.get ws = some acc)
    (hfollows : acc.nextPeriodPrepaidMinor.isSome → acc.prepaidFollows (some sub))
    (h : db.upgradeCost now ws planId = some (.yes cost)) : cost.repriceMinor.getD 0 =
      (acc.nextPeriodPrepaidMinor.map fun p => cost.nextPriceMinor.getD 0 - p).getD 0 := by
  unfold Db.upgradeCost at h
  simp only [hsub, hacc] at h
  split at h
  · cases h
  · split at h
    · cases h
    · split at h
      · cases h
      · simp only [Option.some.injEq, UpgradeQuote.yes.injEq] at h
        subst h
        cases hp : acc.nextPeriodPrepaidMinor with
        | none => simp [Db.reprice, hp]
        | some p =>
          simp_all [Db.reprice, Account.prepaidFollows]

theorem upgrade_does (hr : reprices) (hkeys : KeysSound db)
    (h : upgrade now ws planId actor db = .ok r) : Does ws now reprices db r.2 := by
  obtain ⟨⟨_, db₁⟩, ⟨_, db₂⟩, acc, sub, hlock, hrelease, hacc, hsub, hnow, h⟩ := upgrade_ok h
  obtain ⟨hdoes, -, hfollows⟩ := lockRelease_does reprices hkeys hlock hrelease
  obtain ⟨-, -, hdb⟩ | ⟨-, cost, hquote, h⟩ := h
  · rw [hdb]
    exact hdoes
  · have hfollows : acc.nextPeriodPrepaidMinor.isSome → acc.prepaidFollows (some sub) := by
      rw [← hsub]
      exact hfollows acc hacc
    exact hdoes.trans (applyUpgrade_does reprices hr hdoes.keys hacc hsub hnow hfollows
      (upgradeCost_reprice hsub hacc hfollows hquote) h)

theorem roundNumeric_nonneg {m : Int} (hm : 0 ≤ m) (scale : Nat) : 0 ≤ roundNumeric m scale := by
  unfold roundNumeric
  positivity

theorem price_nonneg {v : JsonValue} {price : Int} (h : v.price = some price) : 0 ≤ price := by
  simp only [JsonValue.price, Option.bind_eq_some_iff] at h
  obtain ⟨⟨m, scale⟩, -, h⟩ := h
  split at h
  · cases h
  · cases h
    exact roundNumeric_nonneg (by omega) scale

theorem planPrice_nonneg {planId : Option Id} {currency interval : String} {price : Int}
    (h : db.planPrice planId currency interval = some price) : 0 ≤ price := by
  simp only [Db.planPrice, Option.bind_eq_some_iff] at h
  obtain ⟨plan, -, h⟩ := h
  split at h
  · cases h
    exact le_rfl
  · obtain ⟨v, -, hv⟩ := Option.bind_eq_some_iff.mp h
    exact price_nonneg hv

theorem Posts.drawn (hkeys : KeysSound db) (hacc : db.accounts.get ws = some acc) :
    Posts ws acc acc [] db db.drawn where
  wrote := uuid_wrote hacc
  books := clear_books rfl
  next := rfl
  keys := hkeys.frame rfl (Nat.le_succ _)
  money := rfl

def NextPeriod.change (next : NextPeriod) (price : Option Int) : NextPeriod :=
  if (price.filter (0 < ·)).isSome then ⟨price.filter (0 < ·), next.start⟩ else .none

theorem repriceChange_posts (hr : reprices) (hkeys : KeysSound db)
    (hacc : db.accounts.get ws = some acc) {p : Int} (hp : acc.nextPeriodPrepaidMinor = some p)
    (hnow : now < sub.currentPeriodEnd) (hstart : acc.nextPeriodStart = some sub.currentPeriodEnd)
    {planId : Option Id} (hprice : ∀ n ∈ price, 0 ≤ n) {r : Option Int × Db}
    (h : repriceChange now ws planId interval actor sub price (some p) db = .ok r) :
    r.1 = price.filter (0 < ·) ∧ ∃ acc' rows, Posts ws acc acc' rows db r.2 ∧
      Shift ws now reprices (some sub.currentPeriodEnd) acc.next rows (acc.next.change price) := by
  have hcheck := acc.prepaid_check p hp
  have hnext : acc.next = ⟨some p, some sub.currentPeriodEnd⟩ := by
    rw [← hp, ← hstart]
    rfl
  simp only [repriceChange] at h
  rcases ite_ok.mp h with ⟨hless, h⟩ | ⟨hless, h⟩
  · obtain ⟨_, _, hback, h⟩ := bind_ok.mp h
    rw [pure_ok.mp h]
    refine ⟨rfl, ?_⟩
    by_cases hamount : 0 < p - price.getD 0
    · obtain ⟨acc', row, hposts, hrow⟩ := returnNext_posts hkeys hacc hamount rfl hback
      rw [hstart] at hrow
      refine ⟨acc', _, hposts, .inr ?_⟩
      rw [hnext]
      cases price with
      | none => exact .returned (by simpa using hamount) (by simpa using hrow)
      | some n =>
        by_cases hn : 0 < n
        · simp only [NextPeriod.change, Option.filter, hn, decide_true, if_true, Option.isSome_some]
          exact .lowered hr hnow (by simpa using hless) hrow
        · have hzero : n = 0 := le_antisymm (not_lt.mp hn) (hprice n rfl)
          subst hzero
          exact .returned (by simpa using hamount) (by simpa using hrow)
    · rcases creditBack_ok hback with ⟨row, hget, hkind, -⟩ | ⟨-, hdb⟩ | ⟨_, _, _, hpos, -⟩
      · exact (hkeys.absent hget (by simp [hkind]) rfl).elim
      · refine ⟨acc, [], ?_, .inr ?_⟩
        · rw [show _ = db.drawn from hdb]
          exact .drawn hkeys hacc
        · rw [hnext]
          cases price with
          | none => exact .forgotten (by simp at hamount; omega)
          | some n => simp at hless hamount; omega
      · exact absurd hpos hamount
  · cases price with
    | none => simp at hless
    | some n =>
      simp only [Option.all_some, decide_eq_true_eq] at hless
      rcases ite_ok.mp h with ⟨hmore, h⟩ | ⟨hmore, h⟩
      · obtain ⟨row, _, hdebit, h⟩ := bind_ok.mp h
        rw [pure_ok.mp h]
        simp only [Option.any_some, decide_eq_true_eq] at hmore
        obtain ⟨acc', hposts, hrow⟩ := debitNext_posts hkeys hacc rfl rfl hdebit
        refine ⟨rfl, acc', _, hposts, .inr ?_⟩
        have hn : 0 < n := by omega
        rw [hnext]
        simp only [NextPeriod.change, Option.filter, hn, decide_true, if_true, Option.isSome_some]
        exact .raised hr hnow hrow
      · rw [pure_ok.mp h]
        simp only [Option.any_some, decide_eq_true_eq] at hmore
        refine ⟨rfl, acc, [], .drawn hkeys hacc, ?_⟩
        have hsame : n = p := by omega
        rw [hnext, hsame]
        by_cases hpos : 0 < p
        · exact .inl ⟨rfl, by simp [NextPeriod.change, Option.filter, hpos]⟩
        · have hzero : p = 0 := le_antisymm (not_lt.mp hpos) hcheck
          subst hzero
          exact .inr (.forgotten rfl)

theorem schedule_ok {planId : Option Id} {prepaid : Option Int}
    (h : a.schedule sub planId interval prepaid start = some a') :
    a'.money = { a.money with next := ⟨prepaid, start⟩ } := by
  obtain ⟨b, hb, rfl⟩ := Option.map_eq_some_iff.mp h
  rw [withSchedule_money, withPrepaid_ok hb]

theorem logged_does (hkeys : KeysSound db) {log : PlanChange} (hlog : log.prepaidMinor = none) :
    Does ws now reprices db { db with planChangeLog := db.planChangeLog ++ [log] } := by
  refine .same (hkeys.frame rfl le_rfl) fun ws' => ?_
  simp only [Db.book, List.filter_append]
  rw [show ([log].filter fun c => c.workspaceId = ws' ∧ c.prepaidMinor.isSome) = [] by simp [hlog],
    List.append_nil]
  rfl

theorem applyChange_does (hr : reprices) (hkeys : KeysSound db)
    (hacc : db.accounts.get ws = some acc) (hsub : db.paidSubscription ws = some sub)
    (hnow : now < sub.currentPeriodEnd)
    (hfollows : acc.nextPeriodPrepaidMinor.isSome → acc.prepaidFollows (some sub))
    {planId : Option Id} (hprice : ∀ n ∈ price, 0 ≤ n)
    (h : applyChange now ws planId interval actor acc sub price db = .ok r) :
    Does ws now reprices db r.2 := by
  obtain ⟨prepaid, db₁, hprepaid, h⟩ := bind_ok.mp h
  obtain ⟨_, db₂, hup, h⟩ := bind_ok.mp h
  obtain ⟨_, -, h⟩ := readAccount_bind_ok.mp h
  rw [pure_ok.mp h]
  suffices hdoes : Does ws now reprices db db₂ from
    hdoes.trans (logged_does reprices hdoes.keys rfl)
  cases hp : acc.nextPeriodPrepaidMinor with
  | none =>
    rw [hp] at hprepaid
    cases pure_ok.mp hprepaid
    rcases updateAccount_ok hup with ⟨hn, -⟩ | ⟨a, acc', ha, hf, hdb⟩
    · exact absurd (hacc.symm.trans hn) (Option.some_ne_none _)
    cases hacc.symm.trans ha
    simp only at hdb
    rw [hdb]
    refine .account hkeys hacc ((schedule_ok hf).trans ?_)
    simp [hp, Account.money, Account.next]
  | some p =>
    rw [hp] at hprepaid
    have hstart : acc.nextPeriodStart = some sub.currentPeriodEnd := by
      simpa [Account.prepaidFollows] using hfollows (by simp [hp])
    obtain ⟨hleft, acc₁, rows, hposts, hshift⟩ :=
      repriceChange_posts reprices hr hkeys hacc hp hnow hstart hprice hprepaid
    rcases updateAccount_ok hup with ⟨hn, -⟩ | ⟨a, acc₂, ha, hf, hdb⟩
    · exact absurd (hposts.wrote.after.symm.trans hn) (Option.some_ne_none _)
    cases hposts.wrote.after.symm.trans ha
    simp only at hdb hleft
    have hmoney : acc₂.money = { acc₁.money with next := acc.next.change price } := by
      rw [schedule_ok hf, hleft]
      cases hfilter : price.filter (0 < ·) <;>
        simp [NextPeriod.change, NextPeriod.none, Account.next, hp, hfilter]
    have hwrote := hposts.wrote.trans (put_wrote acc₂ hposts.wrote.after)
    rw [← hdb] at hwrote
    have hmoneyOnly : MoneyOnly db db₂ := hposts.money.trans (by rw [hdb]; rfl)
    have hsub₂ : db₂.paidSubscription ws = some sub := (hmoneyOnly.paid ws).trans hsub
    refine hwrote.moves (by rw [hdb]; exact hposts.keys.frame rfl le_rfl) fun old used => ?_
    rw [hmoney, period_of_paid hsub, period_of_paid hsub₂]
    have hmoves := hshift.moves hposts.books old used
    simp only [List.append_nil, List.filter_nil]
    exact hmoves

theorem scheduleChange_does (hr : reprices) (hkeys : KeysSound db) {planId : Option Id}
    {interval : Option String} (h : scheduleChange now ws planId interval actor db = .ok r) :
    Does ws now reprices db r.2 := by
  obtain ⟨_, db₁, hlock, h⟩ := bind_ok.mp h
  obtain ⟨_, db₂, hrelease, h⟩ := bind_ok.mp h
  obtain ⟨hdoes, -, hfollows⟩ := lockRelease_does reprices hkeys hlock hrelease
  obtain ⟨acc, hacc, h⟩ := readAccount_bind_ok.mp h
  rw [get_bind] at h
  cases hsub : db₂.paidSubscription ws with
  | none =>
    simp only [hsub] at h
    exact (throw_ok.mp h).elim
  | some sub =>
    simp only [hsub] at h
    obtain ⟨hnow, h⟩ := require_bind_ok.mp h
    obtain ⟨-, h⟩ := require_bind_ok.mp h
    have hfollows : acc.nextPeriodPrepaidMinor.isSome → acc.prepaidFollows (some sub) := by
      rw [← hsub]
      exact hfollows acc hacc
    generalize changeInterval _ _ _ _ = asked at h
    cases asked with
    | none => exact (throw_ok.mp h).elim
    | some asked =>
      obtain ⟨-, h⟩ := require_bind_ok.mp h
      exact hdoes.trans (applyChange_does reprices hr hdoes.keys hacc hsub hnow hfollows
        (fun _ hprice => planPrice_nonneg hprice) h)

theorem lateRenewal_does (hkeys : KeysSound db) {r : Except CardRefusal PlanResult × Db}
    (h : lateRenewal now paymentId payment acc planId db = .ok r) :
    Does payment.workspaceId now reprices db r.2 := by
  unfold lateRenewal at h
  rw [get_bind] at h
  generalize db.planPrice _ _ _ = price at h
  cases price with
  | none =>
    rw [pure_ok.mp h]
    exact .refl hkeys
  | some price =>
    rcases ite_ok.mp h with ⟨-, h⟩ | ⟨-, h⟩
    · rw [pure_ok.mp h]
      exact .refl hkeys
    · rcases ite_ok.mp h with ⟨-, h⟩ | ⟨-, h⟩
      · rw [pure_ok.mp h]
        exact .refl hkeys
      · obtain ⟨_, _, hbuy, h⟩ := bind_ok.mp h
        rw [pure_ok.mp h]
        exact purchasePlan_does reprices hkeys hbuy

theorem renewFromCard_does (hkeys : KeysSound db) {r : Except CardRefusal PlanResult × Db}
    (h : renewFromCard now payment acc sub db = .ok r) :
    Does payment.workspaceId now reprices db r.2 := by
  unfold renewFromCard at h
  rcases ite_ok.mp h with ⟨-, h⟩ | ⟨-, h⟩
  · rw [pure_ok.mp h]
    exact .refl hkeys
  · generalize db.planPrice _ _ _ = price at h
    cases price with
    | none =>
      rw [pure_ok.mp h]
      exact .refl hkeys
    | some price =>
      rcases ite_ok.mp h with ⟨-, h⟩ | ⟨-, h⟩
      · rw [pure_ok.mp h]
        exact .refl hkeys
      · generalize cardCharged _ _ _ _ _ = charged at h
        cases charged with
        | none =>
          rw [pure_ok.mp h]
          exact .refl hkeys
        | some charged =>
          obtain ⟨_, _, hrenew, h⟩ := bind_ok.mp h
          rw [pure_ok.mp h]
          exact (renew_does reprices hkeys hrenew).1

theorem cardApplyRenewal_does (hkeys : KeysSound db) {r : Except CardRefusal PlanResult × Db}
    (h : cardApplyRenewal now paymentId payment db = .ok r) :
    Does payment.workspaceId now reprices db r.2 := by
  unfold cardApplyRenewal at h
  rw [get_bind] at h
  cases hcard : payment.cardId.bind db.cards.get with
  | none =>
    simp only [hcard] at h
    rw [pure_ok.mp h]
    exact .refl hkeys
  | some card =>
    simp only [hcard] at h
    obtain ⟨acc, -, h⟩ := readAccount_bind_ok.mp h
    cases hsub : db.paidSubscription payment.workspaceId with
    | none =>
      simp only [hsub] at h
      cases hplan : payment.purposeDetail.planId with
      | none =>
        simp only [hplan] at h
        rw [pure_ok.mp h]
        exact .refl hkeys
      | some planId =>
        simp only [hplan] at h
        rcases ite_ok.mp h with ⟨-, h⟩ | ⟨-, h⟩
        · exact lateRenewal_does reprices hkeys h
        · rw [pure_ok.mp h]
          exact .refl hkeys
    | some sub =>
      simp only [hsub] at h
      rcases ite_ok.mp h with ⟨-, h⟩ | ⟨-, h⟩
      · rw [pure_ok.mp h]
        exact .refl hkeys
      · rcases ite_ok.mp h with ⟨-, h⟩ | ⟨-, h⟩
        · rw [pure_ok.mp h]
          exact .refl hkeys
        · rcases ite_ok.mp h with ⟨-, h⟩ | ⟨-, h⟩
          · rw [pure_ok.mp h]
            exact .refl hkeys
          · exact renewFromCard_does reprices hkeys h

end Kindred.Billing
