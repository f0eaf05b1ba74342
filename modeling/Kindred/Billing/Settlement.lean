import Kindred.Billing.Changes

/-! Packs, payments, refunds and the Super Admin's changes. -/

namespace Kindred.Billing
open Lib (Table)
open Lib.Tx

variable {now : Timestamp} {ws : Id} (reprices : Prop) {db : Db} {key : String} {credit : Int}
  {actor : Option Id} {acc : Account} {r : ReverseResult × Db} {refundId provider : String}
  {amount : Option Int} {currency : Option String} {paymentId : Id} {pay : Payment}

theorem payPack_does (hkeys : KeysSound db) {packId : String} {price wallet : Int}
    {r : PackResult × Db} (h : payPack now ws packId price credit wallet key actor db = .ok r) :
    Does ws now reprices db r.2 := by
  obtain ⟨row, db₁, hdebit, h⟩ := bind_ok.mp h
  obtain ⟨lot, db₂, hwallet, h⟩ := bind_ok.mp h
  rw [pure_ok.mp h]
  obtain ⟨hdoes, -⟩ := debit_does reprices hkeys (by simp) (by simp) rfl hdebit
  obtain ⟨w, -, hdb⟩ := onWallet_ok hwallet
  rw [show db₂ = _ from hdb]
  exact hdoes.trans (.wallet reprices hdoes.keys w)

variable {expected : Option Int} {reference txnId : Option String} {subscriptionId : String}

theorem buyAiPack_does (hkeys : KeysSound db) {packId : Option String} {r : PackResult × Db}
    (h : buyAiPack now ws packId expected key actor db = .ok r) : Does ws now reprices db r.2 := by
  obtain ⟨⟨acc, db₁⟩, hlock, h⟩ := buyAiPack_ok h
  have hdoes : Does ws now reprices db db₁ := (lock_does reprices hkeys hlock).1
  obtain ⟨_, -, -, -, -, hdb⟩ | ⟨-, _, _, _, _, h⟩ := h
  · rw [hdb]
    exact hdoes
  · exact hdoes.trans (payPack_does reprices hdoes.keys h)

theorem post_does (hkeys : KeysSound db) (hacc : db.accounts.get ws = some acc) {key : Key}
    {row : Id → LedgerRow} {f : Account → Option Account} {balance : Int}
    (hf : f acc = acc.withBalance balance) (hws : ∀ id, (row id).workspaceId = ws)
    (hkind : ∀ id, (row id).kind ≠ .renewal) (hkind' : ∀ id, (row id).kind ≠ .prepaidReturn)
    (hkey : ∀ id, (row id).kind ≠ .aiPackReturn → key.uuid = none)
    (hamount : ∀ id, balance = acc.balanceMinor + (row id).amountMinor)
    (hafter : ∀ id, (row id).balanceAfter = balance)
    (hcurrency : ∀ id, (row id).currency = acc.currency) {r : LedgerRow × Db} {r' : Unit × Db}
    (h : insertLedger key row db = .ok r) (h' : updateAccount ws f r.2 = .ok r') :
    Does ws now reprices db r'.2 ∧ MoneyOnly db r'.2 ∧ r'.2.ledger = db.ledger.put key r.1 := by
  obtain ⟨acc', hnew, hacc', hrow, hdb⟩ := post_ok hacc h h'
  rw [hf] at hacc'
  rw [hdb, hrow]
  exact ⟨posted_does reprices hkeys hacc hnew (hws _) (hkind _) (hkind' _) (hkey _) hacc' (hamount _)
    (hafter _) (hcurrency _), rfl, rfl⟩

theorem returnPack_does (hkeys : KeysSound db) (hacc : db.accounts.get ws = some acc)
    {pack lotId : Id} {back reclaim : Int} {key : Key}
    (h : returnPack now ws acc pack lotId back reclaim key refundId provider db = .ok r) :
    Does ws now reprices db r.2 ∧
      ∃ row, row.kind = .aiPackReturn ∧ r.2.ledger = db.ledger.put key row := by
  obtain ⟨_, db₁, hwallet, h⟩ := bind_ok.mp h
  obtain ⟨row, db₂, hrow, h⟩ := bind_ok.mp h
  obtain ⟨_, db₃, hup, h⟩ := bind_ok.mp h
  rw [pure_ok.mp h]
  obtain ⟨w, -, hdb⟩ := onWallet_ok hwallet
  have hdoes : Does ws now reprices db db₁ := by
    rw [show db₁ = _ from hdb]
    exact .wallet reprices hkeys w
  have hacc₁ : db₁.accounts.get ws = some acc := by
    rw [show db₁ = _ from hdb]
    exact hacc
  obtain ⟨hpost, -, hledger⟩ := post_does reprices hdoes.keys hacc₁ rfl (by simp) (by simp)
    (by simp) (by simp) (by simp) (by simp) (by simp) hrow hup
  refine ⟨hdoes.trans hpost, row, ?_, ?_⟩
  · rw [show row = _ from (insertLedger_ok hrow).2.1]
  · rw [hledger, show db₁ = _ from hdb]

/-- A reversal writes at most its own row. -/
theorem aiPackReverse_does (hkeys : KeysSound db) {pack : Id} {most : Option Int} {key : Key}
    (h : aiPackReverse now ws pack most key refundId provider db = .ok r) :
    Does ws now reprices db r.2 ∧ (r.2.ledger = db.ledger ∨
      ∃ row, row.kind = .aiPackReturn ∧ r.2.ledger = db.ledger.put key row) := by
  obtain ⟨-, h⟩ := require_bind_ok.mp h
  rw [get_bind] at h
  cases hrow : db.ledger.get key with
  | some row =>
    simp only [hrow] at h
    obtain ⟨-, h⟩ := require_bind_ok.mp h
    rw [pure_ok.mp h]
    exact ⟨.refl hkeys, .inl rfl⟩
  | none =>
    simp only [hrow] at h
    cases hacc : db.accounts.get ws with
    | none =>
      simp only [hacc] at h
      exact (throw_ok.mp h).elim
    | some acc =>
      generalize List.find? _ db.ledger.rows = bought at h
      cases bought with
      | none =>
        simp only [hacc] at h
        exact (throw_ok.mp h).elim
      | some bought =>
        simp only [hacc] at h
        obtain ⟨_, db₁, hwallet, h⟩ := bind_ok.mp h
        obtain ⟨w, -, hdb⟩ := onWallet_ok hwallet
        have hdoes : Does ws now reprices db db₁ := by
          rw [show db₁ = _ from hdb]
          exact .wallet reprices hkeys w
        have hledger : db₁.ledger = db.ledger := by rw [show db₁ = _ from hdb]
        have hacc₁ : db₁.accounts.get ws = some acc := by
          rw [show db₁ = _ from hdb]
          exact hacc
        generalize Option.bind (db.packLot _) _ = lot at h
        cases lot with
        | none =>
          rw [pure_ok.mp h]
          exact ⟨hdoes, .inl hledger⟩
        | some lot =>
          rcases ite_ok.mp h with ⟨-, h⟩ | ⟨-, h⟩
          · rw [pure_ok.mp h]
            exact ⟨hdoes, .inl hledger⟩
          · obtain ⟨hback, row, hkind, hput⟩ := returnPack_does reprices hdoes.keys hacc₁ h
            exact ⟨hdoes.trans hback, .inr ⟨row, hkind, by rw [hput, hledger]⟩⟩

theorem bookAdjust_does (hkeys : KeysSound db) (hacc : db.accounts.get ws = some acc) {amount : Int}
    {r : AdjustResult × Db} (h : bookAdjust now ws acc amount key actor db = .ok r) :
    Does ws now reprices db r.2 := by
  obtain ⟨-, h⟩ := require_bind_ok.mp h
  obtain ⟨row, db₁, hrow, h⟩ := bind_ok.mp h
  obtain ⟨_, db₂, hup, h⟩ := bind_ok.mp h
  rw [pure_ok.mp h]
  refine (post_does reprices hkeys hacc rfl (by simp) (fun _ => ?_) (fun _ => ?_) (fun _ _ => rfl) (by simp)
    (by simp) (by simp) hrow hup).1
  · simp only
    split <;> simp
  · simp only
    split <;> simp

theorem adminAdjust_does (hkeys : KeysSound db) {reason : Option String}
    {commandKey category : Option String} {r : AdjustResult × Db}
    (h : adminAdjust now ws amount currency reason actor commandKey category expected db = .ok r) :
    Does ws now reprices db r.2 := by
  obtain ⟨-, h⟩ := require_bind_ok.mp h
  obtain ⟨-, h⟩ := require_bind_ok.mp h
  obtain ⟨-, h⟩ := require_bind_ok.mp h
  obtain ⟨-, h⟩ := require_bind_ok.mp h
  obtain ⟨-, h⟩ := require_bind_ok.mp h
  obtain ⟨_, db₁, hensure, h⟩ := bind_ok.mp h
  obtain ⟨hdoes, -⟩ := ensure_does reprices hkeys hensure
  obtain ⟨acc, hacc, h⟩ := readAccount_bind_ok.mp h
  rw [get_bind] at h
  generalize db₁.ledger.get _ = row at h
  cases row with
  | some row =>
    obtain ⟨-, h⟩ := require_bind_ok.mp h
    rw [pure_ok.mp h]
    exact hdoes
  | none =>
    obtain ⟨-, h⟩ := require_bind_ok.mp h
    obtain ⟨-, h⟩ := require_bind_ok.mp h
    obtain ⟨-, h⟩ := require_bind_ok.mp h
    exact hdoes.trans (bookAdjust_does reprices hdoes.keys hacc h)

theorem updatePayment_does (hkeys : KeysSound db) {f : Payment → Payment} {r : PUnit × Db}
    (h : updatePayment paymentId f db = .ok r) : Does ws now reprices db r.2 := by
  rw [modify_ok.mp h]
  exact .frame hkeys le_rfl rfl rfl rfl rfl rfl

theorem matchCurrency_does (hkeys : KeysSound db)
    (hacc : db.accounts.get pay.workspaceId = some acc) {r : Account × Db}
    (h : matchCurrency pay acc db = .ok r) :
    Does pay.workspaceId now reprices db r.2 ∧ MoneyOnly db r.2 ∧ r.2.ledger = db.ledger ∧
      r.2.accounts.get pay.workspaceId = some r.1 ∧ r.1.currency = pay.currency := by
  rcases ite_ok.mp h with ⟨hsame, h⟩ | ⟨-, h⟩
  · rw [pure_ok.mp h]
    exact ⟨.refl hkeys, .refl db, rfl, hacc, hsame⟩
  · rw [get_bind] at h
    obtain ⟨⟨hzero, hrows⟩, h⟩ := require_bind_ok.mp h
    obtain ⟨-, h⟩ := require_bind_ok.mp h
    obtain ⟨_, db₁, hup, h⟩ := bind_ok.mp h
    rw [pure_ok.mp h]
    rcases updateAccount_ok hup with ⟨hn, -⟩ | ⟨a, acc', ha, hf, hdb⟩
    · exact absurd (hacc.symm.trans hn) (Option.some_ne_none _)
    cases hacc.symm.trans ha
    cases hf
    rw [show db₁ = _ from hdb]
    refine ⟨⟨hkeys.frame rfl le_rfl, .single ?_, fun ws' hne => ?_⟩, rfl, rfl,
      Table.get_put_self _ _ _, rfl⟩
    · have hbook : Db.book { db with
            accounts := db.accounts.put pay.workspaceId (acc.inCurrency pay.currency) }
          pay.workspaceId =
          { db.book pay.workspaceId with
            account := some { acc.money with currency := pay.currency } } := by
        simp [Db.book, Account.money, Account.next, Account.inCurrency]
        rfl
      rw [hbook]
      refine .recurrency _ (by simp [Db.book, hacc]) hzero ?_
      simpa [Db.book] using hrows
    · simp [Db.book, Table.get_put_ne _ _ hne]
      rfl

theorem creditPayment_ok (hkeys : KeysSound db) {r : LedgerRow × Db}
    (h : creditPayment now paymentId pay db = .ok r) :
    Does pay.workspaceId now reprices db r.2 ∧ db.ledger.get (.payment paymentId) = none ∧
      r.2.ledger = db.ledger.put (.payment paymentId) r.1 ∧
      r.1.workspaceId = pay.workspaceId ∧ r.1.kind = .topup ∧ r.1.amountMinor = pay.netMinor ∧
      r.2.payments = db.payments.update paymentId fun p =>
        { p with status := .succeeded, ledgerId := some r.1.id } := by
  obtain ⟨_, db₁, hensure, h⟩ := bind_ok.mp h
  obtain ⟨acc, hacc, h⟩ := readAccount_bind_ok.mp h
  obtain ⟨acc₂, db₂, hmatch, h⟩ := bind_ok.mp h
  obtain ⟨row, db₃, hrow, h⟩ := bind_ok.mp h
  obtain ⟨_, db₄, hup, h⟩ := bind_ok.mp h
  obtain ⟨_, db₅, hpay, h⟩ := bind_ok.mp h
  rw [pure_ok.mp h]
  obtain ⟨hdoes₁, hmoney₁⟩ := ensure_does reprices hkeys hensure
  obtain ⟨hdoes₂, hmoney₂, hsame, hacc₂, hcurrency⟩ :=
    matchCurrency_does reprices hdoes₁.keys hacc hmatch
  obtain ⟨hdoes₃, hmoney₃, hledger⟩ := post_does reprices hdoes₂.keys hacc₂ rfl (by simp) (by simp)
    (by simp) (fun _ _ => rfl) (by simp) (by simp) (fun _ => hcurrency.symm) hrow hup
  obtain ⟨hnew, hrow, -⟩ := insertLedger_ok hrow
  have hsame : db₂.ledger = db.ledger := hsame.trans (ensure_ledger hensure)
  have hpayments : db₄.payments = db.payments :=
    (hmoney₁.trans (hmoney₂.trans hmoney₃)).payments
  refine ⟨(hdoes₁.trans hdoes₂).trans (hdoes₃.trans (updatePayment_does reprices hdoes₃.keys hpay)),
    by rwa [← hsame], ?_, by rw [hrow], by rw [hrow], by rw [hrow], ?_⟩
  · rw [show db₅ = _ from congrArg Prod.snd (modify_ok.mp hpay)]
    rw [← hsame]
    exact hledger
  · rw [show db₅ = _ from congrArg Prod.snd (modify_ok.mp hpay)]
    rw [← hpayments]

theorem spendOnPurpose_does (hkeys : KeysSound db) (hr : pay.purpose = .upgrade → reprices)
    {r : PurposeResult × Db} (h : spendOnPurpose now paymentId pay db = .ok r) :
    Does pay.workspaceId now reprices db r.2 := by
  unfold spendOnPurpose at h
  cases hpurpose : pay.purpose with
  | topup =>
    simp only [hpurpose] at h
    rw [pure_ok.mp h]
    exact .refl hkeys
  | plan =>
    simp only [hpurpose] at h
    cases hplan : pay.purposeDetail.planId with
    | none =>
      simp only [hplan] at h
      exact (throw_ok.mp h).elim
    | some planId =>
      simp only [hplan] at h
      obtain ⟨_, _, hbuy, h⟩ := bind_ok.mp h
      rw [pure_ok.mp h]
      exact purchasePlan_does reprices hkeys hbuy
  | renewal =>
    simp only [hpurpose] at h
    rcases ite_ok.mp h with ⟨-, h⟩ | ⟨-, h⟩
    · obtain ⟨_, _, hcard, h⟩ := bind_ok.mp h
      rw [pure_ok.mp h]
      exact cardApplyRenewal_does reprices hkeys hcard
    · obtain ⟨_, _, hrenew, h⟩ := bind_ok.mp h
      rw [pure_ok.mp h]
      exact (renew_does reprices hkeys hrenew).1
  | upgrade =>
    simp only [hpurpose] at h
    cases hplan : pay.purposeDetail.planId with
    | none =>
      simp only [hplan] at h
      exact (throw_ok.mp h).elim
    | some planId =>
      simp only [hplan] at h
      obtain ⟨_, _, hupgrade, h⟩ := bind_ok.mp h
      rw [pure_ok.mp h]
      exact upgrade_does reprices (hr hpurpose) hkeys hupgrade
  | aiPack =>
    simp only [hpurpose] at h
    rw [get_bind] at h
    obtain ⟨_, -, h⟩ := readAccount_bind_ok.mp h
    obtain ⟨-, h⟩ := require_bind_ok.mp h
    obtain ⟨_, _, hbuy, h⟩ := bind_ok.mp h
    rw [pure_ok.mp h]
    exact buyAiPack_does reprices hkeys hbuy

theorem spendOnFallback_does (hkeys : KeysSound db) {result : PurposeResult}
    {r : PurposeResult × Db} (h : spendOnFallback now paymentId pay result db = .ok r) :
    Does pay.workspaceId now reprices db r.2 := by
  unfold spendOnFallback at h
  cases result <;> cases hplan : pay.purposeDetail.planId <;> simp only [hplan] at h
  case error.some =>
    rcases ite_ok.mp h with ⟨-, h⟩ | ⟨-, h⟩
    · rcases tryCatch_ok.mp h with h | ⟨_, -, h⟩
      · obtain ⟨_, _, hbuy, h⟩ := bind_ok.mp h
        rw [pure_ok.mp h]
        exact purchasePlan_does reprices hkeys hbuy
      · rw [pure_ok.mp h]
        exact .refl hkeys
    · rw [pure_ok.mp h]
      exact .refl hkeys
  all_goals
    rw [pure_ok.mp h]
    exact .refl hkeys

theorem settlePurpose_does (hkeys : KeysSound db) (hr : pay.purpose = .upgrade → reprices)
    {r : Option PurposeResult × Db} (h : settlePurpose now paymentId pay db = .ok r) :
    Does pay.workspaceId now reprices db r.2 := by
  rcases ite_ok.mp h with ⟨-, h⟩ | ⟨-, h⟩
  · rw [pure_ok.mp h]
    exact .refl hkeys
  · obtain ⟨result, db₁, hspend, h⟩ := bind_ok.mp h
    obtain ⟨result', db₂, hfallback, h⟩ := bind_ok.mp h
    obtain ⟨_, db₃, hupdate, h⟩ := bind_ok.mp h
    rw [pure_ok.mp h]
    have hdoes₁ : Does pay.workspaceId now reprices db db₁ := by
      rcases tryCatch_ok.mp hspend with hspend | ⟨_, -, hspend⟩
      · exact spendOnPurpose_does reprices hkeys hr hspend
      · rw [show db₁ = _ from congrArg Prod.snd (pure_ok.mp hspend)]
        exact .refl hkeys
    have hdoes₂ := spendOnFallback_does reprices hdoes₁.keys hfallback
    exact (hdoes₁.trans hdoes₂).trans (updatePayment_does reprices hdoes₂.keys hupdate)

theorem settlePayment_does (hkeys : KeysSound db) (hpay : db.payments.get paymentId = some pay)
    (hr : pay.purpose = .upgrade → reprices) {r : SettleResult × Db}
    (h : settlePayment now paymentId db = .ok r) : Does pay.workspaceId now reprices db r.2 := by
  unfold settlePayment at h
  rw [get_bind] at h
  simp only [hpay] at h
  rcases ite_ok.mp h with ⟨-, h⟩ | ⟨-, h⟩
  · rw [pure_ok.mp h]
    exact .refl hkeys
  · obtain ⟨-, h⟩ := require_bind_ok.mp h
    obtain ⟨row, db₁, hcredit, h⟩ := bind_ok.mp h
    obtain ⟨result, db₂, hpurpose, h⟩ := bind_ok.mp h
    obtain ⟨_, -, h⟩ := readAccount_bind_ok.mp h
    rw [pure_ok.mp h]
    obtain ⟨hdoes, -⟩ := creditPayment_ok reprices hkeys hcredit
    exact hdoes.trans (settlePurpose_does reprices hdoes.keys hr hpurpose)

theorem debitRefund_does (hkeys : KeysSound db) {released : Int} {r : (Int × Option Id) × Db}
    (h : debitRefund now paymentId pay refundId credit released db = .ok r) :
    Does pay.workspaceId now reprices db r.2 := by
  unfold debitRefund at h
  rw [get_bind] at h
  cases hacc : db.accounts.get pay.workspaceId with
  | none =>
    simp only [hacc] at h
    rw [pure_ok.mp h]
    exact .refl hkeys
  | some acc =>
    simp only [hacc] at h
    rcases ite_ok.mp h with ⟨-, h⟩ | ⟨-, h⟩
    · obtain ⟨row, _, hrow, h⟩ := bind_ok.mp h
      obtain ⟨_, _, hup, h⟩ := bind_ok.mp h
      rw [pure_ok.mp h]
      exact (post_does reprices hkeys hacc rfl (by simp) (by simp) (by simp) (fun _ _ => rfl)
        (fun _ => Int.sub_eq_add_neg) (by simp) (by simp) hrow hup).1
    · rw [pure_ok.mp h]
      exact .refl hkeys

theorem KeysSound.refunded (hkeys : KeysSound db) {db' : Db} {back row : LedgerRow}
    (hledger : db'.ledger = (db.ledger.put (.prepaidReturnRefund key) back).put (.refund key) row)
    (hid : db.nextId ≤ db'.nextId) : KeysSound db' := by
  refine ⟨fun k x hget hkind u hu => ?_, fun k x hget hkind => ?_⟩
  · rw [hledger, Table.get_put, Table.get_put] at hget
    split at hget
    · simp_all [Key.uuid]
    · split at hget
      · simp_all [Key.uuid]
      · exact lt_of_lt_of_le (hkeys.fresh k x hget hkind u hu) hid
  · rw [hledger, Table.get_put] at hget ⊢
    by_cases hk : k = key
    · simp [hk]
    · rw [if_neg (by simp), Table.get_put, if_neg (by simpa using hk)] at hget
      rw [if_neg (by simpa using hk), Table.get_put, if_neg (by simp)]
      exact hkeys.refund k x hget hkind

theorem forget_does (hkeys : KeysSound db) {acc' : Account} (hacc : db.accounts.get ws = some acc)
    (hzero : acc.nextPeriodPrepaidMinor = some 0)
    (hmoney : acc'.money = { acc.money with next := .none }) :
    Does ws now reprices db { db with accounts := db.accounts.put ws acc' } := by
  refine (put_wrote acc' hacc).does (hkeys.frame rfl le_rfl) (clear_books hmoney) ?_
  rw [show acc'.next = .none from congrArg Money.next hmoney,
    show acc.next = ⟨some 0, acc.nextPeriodStart⟩ by rw [← hzero]; rfl]
  exact .forgotten rfl

/-- What a refund takes: a prepayment it releases leaves enough for its own
row. -/
theorem takeRefund_does (hkeys : KeysSound db) (hcredit : 0 < credit)
    (hnew : db.ledger.get (.refund (pay.provider ++ ":" ++ refundId)) = none) {r : Int × Db}
    {r' : (Int × Option Id) × Db} (h : releaseForRefund now pay refundId credit db = .ok r)
    (h' : debitRefund now paymentId pay refundId credit r.1 r.2 = .ok r') :
    Does pay.workspaceId now reprices db r'.2 := by
  have hsame : ∀ r : Int × Db, r.2 = db →
      debitRefund now paymentId pay refundId credit r.1 r.2 = .ok r' →
      Does pay.workspaceId now reprices db r'.2 := by
    intro r hr h'
    rw [hr] at h'
    exact debitRefund_does reprices hkeys h'
  unfold releaseForRefund at h
  rw [get_bind] at h
  cases hacc : db.accounts.get pay.workspaceId with
  | none =>
    simp only [hacc] at h
    exact hsame r (by rw [pure_ok.mp h]) h'
  | some acc =>
    simp only [hacc] at h
    cases hp : acc.nextPeriodPrepaidMinor with
    | none =>
      simp only [hp] at h
      exact hsame r (by rw [pure_ok.mp h]) h'
    | some p =>
      simp only [hp] at h
      rcases ite_ok.mp h with ⟨-, h⟩ | ⟨-, h⟩
      swap
      · exact hsame r (by rw [pure_ok.mp h]) h'
      obtain ⟨_, db₁, hback, h⟩ := bind_ok.mp h
      obtain ⟨_, db₂, hup, h⟩ := bind_ok.mp h
      rw [pure_ok.mp h] at h'
      have hcheck := acc.prepaid_check p hp
      rcases creditBack_ok hback with ⟨row, hget, hkind, -⟩ | ⟨hle, hdb₁⟩ |
        ⟨a, a₁, hfresh, hpos, ha, hbal, hdb₁⟩
      · have := hkeys.refund _ row hget hkind
        rw [hnew] at this
        cases this
      · rw [show db₁ = db from hdb₁] at hup
        rcases updateAccount_ok hup with ⟨hn, -⟩ | ⟨a, a₂, ha, hf, hdb₂⟩
        · exact absurd (hacc.symm.trans hn) (Option.some_ne_none _)
        cases hacc.symm.trans ha
        cases hf
        have hdoes : Does pay.workspaceId now reprices db db₂ := by
          rw [show db₂ = _ from hdb₂]
          exact forget_does reprices hkeys hacc (by rw [hp, le_antisymm hle hcheck])
            (withoutPrepaid_money acc)
        exact hdoes.trans (debitRefund_does reprices hdoes.keys h')
      · cases hacc.symm.trans ha
        have hwrote₁ := posted_wrote a₁ hacc hfresh
          (show (returnRow now pay.workspaceId p none db acc db.nextId).workspaceId = _ from rfl)
        rw [← show db₁ = _ from hdb₁] at hwrote₁
        rcases updateAccount_ok hup with ⟨hn, -⟩ | ⟨a, a₂, ha, hf, hdb₂⟩
        · exact absurd (hwrote₁.after.symm.trans hn) (Option.some_ne_none _)
        cases hwrote₁.after.symm.trans ha
        cases hf
        have hwrote₂ := put_wrote a₁.withoutPrepaid hwrote₁.after
        rw [← show db₂ = _ from hdb₂] at hwrote₂
        have hmoney := (withBalance_ok hbal).1
        have hbalance : a₁.withoutPrepaid.balanceMinor = acc.balanceMinor + p :=
          congrArg Money.balance hmoney
        have henough := acc.balance_check
        unfold debitRefund at h'
        rw [get_bind] at h'
        simp only [hwrote₂.after] at h'
        rcases ite_ok.mp h' with ⟨-, h'⟩ | ⟨hdebit, -⟩
        swap
        · omega
        obtain ⟨row, db₃, hrow, h'⟩ := bind_ok.mp h'
        obtain ⟨_, db₄, hup', h'⟩ := bind_ok.mp h'
        rw [pure_ok.mp h']
        obtain ⟨a₃, hfresh', hf', hid, hdb₄⟩ := post_ok hwrote₂.after hrow hup'
        simp only at hid hdb₄
        have hwrote₃ := posted_wrote a₃ hwrote₂.after hfresh'
          (show row.workspaceId = pay.workspaceId by rw [hid])
        rw [← hdb₄] at hwrote₃
        have hkeys₄ : KeysSound db₄ := by
          rw [hdb₄, show db₂ = _ from hdb₂, show db₁ = _ from hdb₁]
          exact hkeys.refunded rfl (Nat.le_add_right _ 2)
        have hperiod₂ : db₂.period pay.workspaceId = db.period pay.workspaceId := by
          rw [show db₂ = _ from hdb₂, show db₁ = _ from hdb₁]
          exact period_eq rfl rfl
        have hperiod : db₄.period pay.workspaceId = db.period pay.workspaceId := by
          rw [hdb₄, ← hperiod₂]
          exact period_eq rfl rfl
        have hnext : acc.next = ⟨some p, acc.nextPeriodStart⟩ := by
          rw [← hp]
          rfl
        have hreturn : Shift pay.workspaceId now reprices (db.period pay.workspaceId) acc.next
            [(.prepaidReturnRefund (pay.provider ++ ":" ++ refundId),
              returnRow now pay.workspaceId p none db acc db.nextId)] .none := by
          rw [hnext]
          exact .inr (.returned hpos ⟨rfl, rfl, rfl, rfl⟩)
        have hrefund : Shift pay.workspaceId now reprices (db.period pay.workspaceId) .none
            [(.refund (pay.provider ++ ":" ++ refundId), row)] .none :=
          .booked (.inr ⟨_, _, rfl, by rw [hid]; simp, by rw [hid]; simp⟩)
        have hbooks : a₁.withoutPrepaid.money.Books
            [(.refund (pay.provider ++ ":" ++ refundId), row)] a₃.money :=
          books_of_balance hf' (by rw [hid]; exact Int.sub_eq_add_neg) (by rw [hid]) (by rw [hid])
        refine ((hwrote₁.trans hwrote₂).trans hwrote₃).moves hkeys₄ fun old used => ?_
        have hmoves := (hreturn.moves (books_of_balance hbal rfl rfl rfl) old used).trans
          (hrefund.moves hbooks _ used)
        rw [hperiod]
        simp only [List.append_assoc, List.append_nil, List.filter_nil] at hmoves ⊢
        have hnext₃ : a₃.next = .none := congrArg Money.next (withBalance_ok hf').1
        rw [show a₃.money = { a₃.money with next := .none } by rw [← hnext₃]; rfl]
        exact hmoves

theorem reverseForRefund_eq (now : Timestamp) (pay : Payment) (refundId : String) (credit : Int) :
    (∃ pack, reverseForRefund now pay refundId credit =
      aiPackReverse now pay.workspaceId pack (some credit)
        (.aiPackReturnRefund (pay.provider ++ ":" ++ refundId)) refundId pay.provider) ∨
    reverseForRefund now pay refundId credit = pure {} := by
  unfold reverseForRefund
  split
  · exact .inl ⟨_, rfl⟩
  · exact .inr rfl

theorem reverseForRefund_does (hkeys : KeysSound db)
    (h : reverseForRefund now pay refundId credit db = .ok r) :
    Does pay.workspaceId now reprices db r.2 ∧
      ∀ key, db.ledger.get (.refund key) = none → r.2.ledger.get (.refund key) = none := by
  rcases reverseForRefund_eq now pay refundId credit with ⟨pack, heq⟩ | heq
  · rw [heq] at h
    obtain ⟨hdoes, hledger | ⟨row, -, hledger⟩⟩ := aiPackReverse_does reprices hkeys h
    · exact ⟨hdoes, fun key hnone => by rwa [hledger]⟩
    · refine ⟨hdoes, fun key hnone => ?_⟩
      rw [hledger, Table.get_put_ne _ _ (by simp)]
      exact hnone
  · rw [heq] at h
    rw [pure_ok.mp h]
    exact ⟨.refl hkeys, fun _ hnone => hnone⟩

theorem applyRefund_does (hkeys : KeysSound db) {amount : Int} (hcredit : 0 < credit)
    (hnew : db.ledger.get (.refund (pay.provider ++ ":" ++ refundId)) = none)
    {r : RefundResult × Db} (h : applyRefund now paymentId pay refundId amount credit db = .ok r) :
    Does pay.workspaceId now reprices db r.2 := by
  obtain ⟨pack, db₁, hpack, h⟩ := bind_ok.mp h
  obtain ⟨released, db₂, hrelease, h⟩ := bind_ok.mp h
  obtain ⟨⟨debited, ledgerId⟩, db₃, hdebit, h⟩ := bind_ok.mp h
  obtain ⟨_, db₄, hupdate, h⟩ := bind_ok.mp h
  rw [pure_ok.mp h]
  obtain ⟨hdoes₁, hnone⟩ := reverseForRefund_does reprices hkeys hpack
  have hdoes₂ := takeRefund_does reprices hdoes₁.keys hcredit (hnone _ hnew) hrelease hdebit
  exact (hdoes₁.trans hdoes₂).trans (updatePayment_does reprices hdoes₂.keys hupdate)

theorem refundPayment_does (hkeys : KeysSound db) (hpay : db.payments.get paymentId = some pay)
    {r : RefundResult × Db} (h : refundPayment now paymentId refundId amount db = .ok r) :
    Does pay.workspaceId now reprices db r.2 := by
  obtain ⟨-, h⟩ := require_bind_ok.mp h
  rw [get_bind] at h
  simp only [hpay] at h
  rcases ite_ok.mp h with ⟨-, h⟩ | ⟨hnew, h⟩
  · rw [pure_ok.mp h]
    exact .refl hkeys
  · obtain ⟨-, h⟩ := require_bind_ok.mp h
    rcases ite_ok.mp h with ⟨-, h⟩ | ⟨hcredit, h⟩
    · rw [pure_ok.mp h]
      exact .refl hkeys
    · refine applyRefund_does reprices hkeys (by omega) ?_ h
      simpa using fun hsome => hnew (.inl hsome)

/-- A payment is verified once, for its amount and under a reference no other
payment of the provider has. -/
theorem recordVerification_ok {r : Unit × Db}
    (h : recordVerification now paymentId amount currency reference db = .ok r) :
    ∃ pay, db.payments.get paymentId = some pay ∧ amount = some pay.amountMinor ∧
      (pay.verifiedAt.isSome ∧ pay.providerPaymentId = reference ∧ r.2 = db ∨
        pay.verifiedAt = none ∧ reference.isSome ∧
        (∀ id other, db.payments.get id = some other → id ≠ paymentId →
          other.provider = pay.provider → other.providerPaymentId ≠ reference) ∧
        r.2 = { db with payments := db.payments.put paymentId { pay with
          providerPaymentId := reference, verifiedAmountMinor := amount, verifiedAt := some now } }) := by
  unfold recordVerification at h
  rw [get_bind] at h
  cases hpay : db.payments.get paymentId with
  | none =>
    simp only [hpay] at h
    exact (throw_ok.mp h).elim
  | some pay =>
    simp only [hpay] at h
    obtain ⟨hamount, h⟩ := require_bind_ok.mp h
    obtain ⟨-, h⟩ := require_bind_ok.mp h
    obtain ⟨hsome, h⟩ := require_bind_ok.mp h
    have hsome : reference.isSome := by
      cases reference with
      | none => exact absurd rfl hsome
      | some _ => rfl
    refine ⟨pay, rfl, hamount, ?_⟩
    rcases ite_ok.mp h with ⟨hverified, h⟩ | ⟨hverified, h⟩
    · obtain ⟨hreference, hr⟩ := require_ok.mp h
      rw [hr]
      exact .inl ⟨hverified, hreference, rfl⟩
    · obtain ⟨hunique, h⟩ := require_bind_ok.mp h
      rw [set_ok.mp h]
      refine .inr ⟨by simpa using hverified, hsome, fun id other hother hne hprovider href => ?_, rfl⟩
      have := List.all_eq_true.mp hunique (id, other) (Table.get_eq_some_iff_mem.mp hother)
      simp [hne, hprovider, href] at this

theorem recordVerification_does (hkeys : KeysSound db) {r : Unit × Db}
    (h : recordVerification now paymentId amount currency reference db = .ok r) :
    Does ws now reprices db r.2 := by
  obtain ⟨pay, -, -, ⟨-, -, hdb⟩ | ⟨-, -, -, hdb⟩⟩ := recordVerification_ok h
  · rw [hdb]
    exact .refl hkeys
  · rw [hdb]
    exact .frame hkeys le_rfl rfl rfl rfl rfl rfl

theorem insertCard_does (hkeys : KeysSound db) {currency : String} {r : Id × Db}
    (h : insertCard ws provider subscriptionId currency paymentId db = .ok r) :
    Does ws now reprices db r.2 := by
  unfold insertCard at h
  have hinserted : ∀ cards payments,
      Does ws now reprices db { db.drawn with cards := cards, payments := payments } :=
    fun _ _ => .frame hkeys (Nat.le_succ _) rfl rfl rfl rfl rfl
  rcases ite_ok.mp h with ⟨-, h⟩ | ⟨-, h⟩
  · obtain ⟨_, db₂, hup, h⟩ := bind_ok.mp h
    rw [pure_ok.mp h]
    rcases updateAccount_ok hup with ⟨-, hdb⟩ | ⟨acc, acc', hacc, hf, hdb⟩
    · rw [show db₂ = _ from hdb]
      exact hinserted _ _
    · cases hf
      rw [show db₂ = _ from hdb]
      exact (hinserted _ _).trans (.account (hinserted _ _).keys hacc rfl)
  · rw [pure_ok.mp h]
    exact hinserted _ _

theorem cardRegister_does (hkeys : KeysSound db) (hpay : db.payments.get paymentId = some pay)
    {r : Id × Db} (h : cardRegister provider subscriptionId currency paymentId db = .ok r) :
    Does pay.workspaceId now reprices db r.2 := by
  unfold cardRegister at h
  rw [get_bind] at h
  simp only [hpay] at h
  obtain ⟨-, h⟩ := require_bind_ok.mp h
  obtain ⟨acc, db₁, hlock, h⟩ := bind_ok.mp h
  obtain ⟨hdoes, -⟩ := lock_does reprices hkeys hlock
  obtain ⟨-, h⟩ := require_bind_ok.mp h
  rw [get_bind] at h
  cases hcard : db₁.findCard provider subscriptionId with
  | some card =>
    simp only [hcard] at h
    obtain ⟨-, h⟩ := require_bind_ok.mp h
    rw [pure_ok.mp h]
    exact hdoes
  | none =>
    simp only [hcard] at h
    exact hdoes.trans (insertCard_does reprices hdoes.keys h)

theorem insertPayment_does (hkeys : KeysSound db) {r : Id × Db} (h : insertPayment pay db = .ok r) :
    Does ws now reprices db r.2 := by
  unfold insertPayment at h
  rw [randomUuid_bind, get_bind] at h
  obtain ⟨-, h⟩ := require_bind_ok.mp h
  rw [pure_ok.mp h]
  exact .frame hkeys (Nat.le_succ _) rfl rfl rfl rfl rfl

theorem cardRecordCharge_does (hkeys : KeysSound db) {cardId : Id} {card : Card}
    (hcard : db.cards.get cardId = some card) {origin : Option String} {item : Option ChargeItem}
    {paymentId : Option Id} {r : Id × Db}
    (h : cardRecordCharge cardId txnId origin amount currency item paymentId db = .ok r) :
    Does card.workspaceId now reprices db r.2 := by
  unfold cardRecordCharge at h
  by_cases hpositive : 0 < amount.getD 0
  · rw [dif_pos hpositive] at h
    obtain ⟨-, h⟩ := require_bind_ok.mp h
    rw [get_bind] at h
    simp only [hcard] at h
    obtain ⟨acc, db₁, hlock, h⟩ := bind_ok.mp h
    have hdoes : Does card.workspaceId now reprices db db₁ := (lock_does reprices hkeys hlock).1
    generalize Option.or (List.find? _ _) _ = known at h
    cases known with
    | some known =>
      obtain ⟨-, h⟩ := require_bind_ok.mp h
      rw [pure_ok.mp h]
      exact hdoes
    | none =>
      obtain ⟨-, h⟩ := require_bind_ok.mp h
      generalize (Option.bind _ _ : Option Id) = claim at h
      cases claim with
      | some claim =>
        obtain ⟨_, _, hupdate, h⟩ := bind_ok.mp h
        rw [pure_ok.mp h]
        exact hdoes.trans (updatePayment_does reprices hdoes.keys hupdate)
      | none => exact hdoes.trans (insertPayment_does reprices hdoes.keys h)
  · rw [dif_neg hpositive] at h
    exact (throw_ok.mp h).elim

theorem settleCharge_does (hkeys : KeysSound db) (hpay : db.payments.get paymentId = some pay)
    (hr : pay.purpose = .upgrade → reprices) {r : SettleResult × Db}
    (h : settleCharge now paymentId db = .ok r) : Does pay.workspaceId now reprices db r.2 := by
  obtain ⟨result, db₁, hsettle, h⟩ := bind_ok.mp h
  have hdoes := settlePayment_does reprices hkeys hpay hr hsettle
  cases herror : purposeErrorOf result with
  | none =>
    simp only [herror] at h
    rw [pure_ok.mp h]
    exact hdoes
  | some e =>
    simp only [herror] at h
    obtain ⟨_, _, hupdate, h⟩ := bind_ok.mp h
    rw [pure_ok.mp h]
    exact hdoes.trans (updatePayment_does reprices hdoes.keys hupdate)

theorem cardSettle_does (hkeys : KeysSound db) (hpay : db.payments.get paymentId = some pay)
    (hr : pay.purpose = .upgrade → reprices) {r : SettleResult × Db}
    (h : cardSettle now paymentId amount currency txnId db = .ok r) :
    Does pay.workspaceId now reprices db r.2 := by
  unfold cardSettle at h
  rw [get_bind] at h
  simp only [hpay] at h
  obtain ⟨-, h⟩ := require_bind_ok.mp h
  rcases ite_ok.mp h with ⟨-, h⟩ | ⟨-, h⟩
  · rw [pure_ok.mp h]
    exact .refl hkeys
  · rcases ite_ok.mp h with ⟨-, h⟩ | ⟨-, h⟩
    · obtain ⟨_, db₁, hverify, h⟩ := bind_ok.mp h
      have hdoes : Does pay.workspaceId now reprices db db₁ :=
        recordVerification_does reprices hkeys hverify
      obtain ⟨pay', hpay', -, ⟨-, -, hdb⟩ | ⟨-, -, -, hdb⟩⟩ := recordVerification_ok hverify
      · have hpay₁ : db₁.payments.get paymentId = some pay := by
          rw [show db₁ = _ from hdb]
          exact hpay
        exact hdoes.trans (settleCharge_does reprices hdoes.keys hpay₁ hr h)
      · cases hpay.symm.trans hpay'
        have hpay₁ : db₁.payments.get paymentId = some { pay with
            providerPaymentId := txnId, verifiedAmountMinor := amount, verifiedAt := some now } := by
          rw [show db₁ = _ from hdb]
          exact Table.get_put_self _ _ _
        exact hdoes.trans (settleCharge_does reprices hdoes.keys hpay₁ hr h)
    · exact settleCharge_does reprices hkeys hpay hr h

end Kindred.Billing
