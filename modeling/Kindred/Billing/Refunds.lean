import Kindred.Billing.Reversals

/-! What refunds take back of a payment, and of the workspace's money. -/

namespace Kindred.Billing
open Lib (Table run replies replies_keeps)
open Lib.Tx

variable {now : Timestamp} {ws : Id} {db db' : Db} {pay : Payment} {refundId : String}
  {paymentId : Id}

/-- The balance with what is prepaid. -/
def Db.holdings (db : Db) (workspaceId : Id) : Int :=
  ((db.accounts.get workspaceId).map fun a =>
    a.balanceMinor + a.nextPeriodPrepaidMinor.getD 0).getD 0

variable {amount credit : Int} {r : RefundResult × Db} {p p' : Payment}

theorem balance_added {acc acc' : Account} (hacc : db.accounts.get ws = some acc)
    (hbalance : acc.withBalance (acc.balanceMinor + amount) = some acc')
    (haccounts : db'.accounts = db.accounts.put ws acc') :
    db'.holdings ws = db.holdings ws + amount ∧ db'.balanceOf ws = db.balanceOf ws + amount := by
  have hmoney := (withBalance_ok hbalance).1
  have hnew : acc'.balanceMinor = acc.balanceMinor + amount := congrArg Money.balance hmoney
  have hprepaid : acc'.nextPeriodPrepaidMinor = acc.nextPeriodPrepaidMinor :=
    congrArg (fun m => m.next.prepaid) hmoney
  simp only [Db.holdings, Db.balanceOf, haccounts, Table.get_put_self, hacc, Option.map_some,
    Option.getD_some, hnew, hprepaid]
  exact ⟨Int.add_right_comm .., trivial⟩

theorem balanceOf_nonneg (db : Db) (ws : Id) : 0 ≤ db.balanceOf ws := by
  unfold Db.balanceOf
  cases hacc : db.accounts.get ws with
  | none => simp
  | some acc => simpa using acc.balance_check

theorem holdings_nonneg (db : Db) (ws : Id) : 0 ≤ db.holdings ws := by
  unfold Db.holdings
  cases hacc : db.accounts.get ws with
  | none => simp
  | some acc =>
    have hbalance := acc.balance_check
    have hprepaid : 0 ≤ acc.nextPeriodPrepaidMinor.getD 0 := by
      cases hp : acc.nextPeriodPrepaidMinor with
      | none => simp
      | some p => exact acc.prepaid_check p hp
    simp only [Option.map_some, Option.getD_some]
    omega

def Payment.refundKey (p : Payment) (refundId : String) : String := p.provider ++ ":" ++ refundId

structure ReversedFor (pay : Payment) (refundId : String) (db : Db) (r : ReverseResult × Db) :
    Prop where
  payments : r.2.payments = db.payments
  returned : 0 ≤ r.1.returnedMinor
  holdings : r.2.holdings pay.workspaceId ≤ db.holdings pay.workspaceId + r.1.returnedMinor
  balance : db.balanceOf pay.workspaceId ≤ r.2.balanceOf pay.workspaceId
  account : (db.accounts.get pay.workspaceId).isSome → (r.2.accounts.get pay.workspaceId).isSome
  posted : r.2.ledger = db.ledger ∨ 0 < r.2.balanceOf pay.workspaceId ∧
    ∃ row, r.2.ledger = db.ledger.put (.aiPackReturnRefund (pay.refundKey refundId)) row

theorem reverseForRefund_ok (hdb : PacksSound db) {r : ReverseResult × Db}
    (h : reverseForRefund now pay refundId credit db = .ok r) : ReversedFor pay refundId db r := by
  rcases reverseForRefund_eq now pay refundId credit with ⟨pack, heq⟩ | heq
  swap
  · rw [heq] at h
    rw [pure_ok.mp h]
    exact ⟨rfl, le_rfl, by simp, le_rfl, fun h => h, .inl rfl⟩
  · rw [heq] at h
    cases aiPackReverse_ok h with
    | @replayed row result hrow hkind hr hamount =>
      have hpos := hdb.positive _ _ hrow hkind
      have hreturned : 0 ≤ result.returnedMinor := by omega
      exact ⟨rfl, hreturned, Int.le_add_of_nonneg_right hreturned, le_rfl, fun h => h,
        .inl rfl⟩
    | nothing =>
      exact ⟨rfl, le_rfl, by simp [Db.holdings], by simp [Db.balanceOf], fun h => h, .inl rfl⟩
    | returned hr hnew hpack hid hpos hmost hacc hbalance hpacklot hlot hremaining hreserved hws
        hkind hamount hrow haccounts hledger hpayments hlots =>
      obtain ⟨hholdings, hbalance⟩ := balance_added hacc hbalance haccounts
      have hold := balanceOf_nonneg db pay.workspaceId
      exact ⟨hpayments, hpos.le, hholdings.le, by omega, fun _ => by simp [haccounts],
        .inr ⟨by omega, _, hledger⟩⟩

structure ReleasedFor (pay : Payment) (refundId : String) (db db' : Db) : Prop where
  payments : db'.payments = db.payments
  holdings : db'.holdings pay.workspaceId ≤ db.holdings pay.workspaceId
  balance : db.balanceOf pay.workspaceId ≤ db'.balanceOf pay.workspaceId
  account : (db.accounts.get pay.workspaceId).isSome → (db'.accounts.get pay.workspaceId).isSome
  posted : db'.ledger = db.ledger ∨ 0 < db'.balanceOf pay.workspaceId ∧
    ∃ row, db'.ledger = db.ledger.put (.prepaidReturnRefund (pay.refundKey refundId)) row

theorem withoutPrepaid_written {acc : Account} {r : Unit × Db}
    (hacc : db.accounts.get ws = some acc)
    (h : updateAccount ws (fun a => some a.withoutPrepaid) db = .ok r) :
    r.2 = { db with accounts := db.accounts.put ws acc.withoutPrepaid } := by
  rcases updateAccount_ok h with ⟨hnone, -⟩ | ⟨a, acc', ha, hf, hdb⟩
  · rw [hacc] at hnone
    cases hnone
  · cases hacc.symm.trans ha
    cases hf
    exact hdb

theorem releaseForRefund_ok {r : Int × Db} (h : releaseForRefund now pay refundId credit db = .ok r) :
    ReleasedFor pay refundId db r.2 := by
  have hsame : ∀ {r : Int × Db}, r.2 = db → ReleasedFor pay refundId db r.2 := fun {r} hr => by
    rw [hr]
    exact ⟨rfl, le_rfl, le_rfl, fun h => h, .inl rfl⟩
  unfold releaseForRefund at h
  rw [get_bind] at h
  cases hacc : db.accounts.get pay.workspaceId with
  | none =>
    simp only [hacc] at h
    exact hsame (by rw [pure_ok.mp h])
  | some acc =>
    simp only [hacc] at h
    cases hprepaid : acc.nextPeriodPrepaidMinor with
    | none =>
      simp only [hprepaid] at h
      exact hsame (by rw [pure_ok.mp h])
    | some prepaid =>
      simp only [hprepaid] at h
      rcases ite_ok.mp h with ⟨-, h⟩ | ⟨-, h⟩
      swap
      · exact hsame (by rw [pure_ok.mp h])
      obtain ⟨_, db₁, hback, h⟩ := bind_ok.mp h
      obtain ⟨_, db₂, hup, h⟩ := bind_ok.mp h
      rw [pure_ok.mp h]
      have hcheck := acc.prepaid_check prepaid hprepaid
      -- Where nothing is credited back, the prepayment is only cleared.
      have hcleared : db₁ = db → ReleasedFor pay refundId db db₂ := fun hdb₁ => by
        rw [hdb₁] at hup
        have hdb₂ : db₂ = _ := withoutPrepaid_written hacc hup
        rw [hdb₂]
        refine ⟨rfl, ?_, ?_, fun _ => by simp, .inl rfl⟩
        · simp only [Db.holdings, Table.get_put_self, hacc, Option.map_some, Option.getD_some,
            Account.withoutPrepaid, hprepaid, Option.getD_none]
          omega
        · simp [Db.balanceOf, hacc, Account.withoutPrepaid]
      rcases creditBack_ok hback with ⟨_, -, -, hdb₁⟩ | ⟨-, hdb₁⟩ | ⟨a, acc₁, -, hpos, ha, hbalance, hdb₁⟩
      · exact hcleared hdb₁
      · exact hcleared hdb₁
      · cases hacc.symm.trans ha
        have hdb₁ : db₁ = _ := hdb₁
        have hacc₁ : db₁.accounts.get pay.workspaceId = some acc₁ := by
          rw [hdb₁]
          exact Table.get_put_self _ _ _
        have hdb₂ : db₂ = _ := withoutPrepaid_written hacc₁ hup
        have hmoney := (withBalance_ok hbalance).1
        have hnew : acc₁.balanceMinor = acc.balanceMinor + prepaid := congrArg Money.balance hmoney
        have hold := acc.balance_check
        have hafter : db₂.balanceOf pay.workspaceId = acc.balanceMinor + prepaid := by
          simp [hdb₂, Db.balanceOf, Account.withoutPrepaid, hnew]
        have hpositive : 0 < db₂.balanceOf pay.workspaceId := by omega
        have hledger : db₂.ledger = db.ledger.put (.prepaidReturnRefund (pay.refundKey refundId))
            (returnRow now pay.workspaceId prepaid none db acc db.nextId) := by
          rw [hdb₂, hdb₁]
          rfl
        refine ⟨?_, ?_, ?_, fun _ => by simp [hdb₂], .inr ⟨hpositive, _, hledger⟩⟩
        · rw [hdb₂, hdb₁]
          rfl
        · simp only [hdb₂, Db.holdings, Table.get_put_self, hacc, Option.map_some,
            Option.getD_some, Account.withoutPrepaid, hprepaid, Option.getD_none, hnew]
          omega
        · rw [hafter]
          simp only [Db.balanceOf, hacc, Option.map_some, Option.getD_some]
          omega

structure DebitedFor (pay : Payment) (refundId : String) (credit : Int) (db : Db)
    (r : (Int × Option Id) × Db) : Prop where
  payments : r.2.payments = db.payments
  holdings : r.2.holdings pay.workspaceId + r.1.1 = db.holdings pay.workspaceId
  nonneg : 0 ≤ r.1.1
  most : r.1.1 ≤ credit
  posted : db.balanceOf pay.workspaceId = 0 ∧ r.2.ledger = db.ledger ∨
    ∃ row, r.2.ledger = db.ledger.put (.refund (pay.refundKey refundId)) row

theorem debitRefund_ok {released : Int} (hcredit : 0 < credit) {r : (Int × Option Id) × Db}
    (h : debitRefund now paymentId pay refundId credit released db = .ok r) :
    DebitedFor pay refundId credit db r := by
  unfold debitRefund at h
  rw [get_bind] at h
  cases hacc : db.accounts.get pay.workspaceId with
  | none =>
    simp only [hacc] at h
    rw [pure_ok.mp h]
    exact ⟨rfl, by simp, le_rfl, hcredit.le, .inl ⟨by simp [Db.balanceOf, hacc], rfl⟩⟩
  | some acc =>
    have hcheck := acc.balance_check
    simp only [hacc] at h
    rcases ite_ok.mp h with ⟨hpos, h⟩ | ⟨hzero, h⟩
    · obtain ⟨row, db₁, hinsert, h⟩ := bind_ok.mp h
      obtain ⟨_, db₂, hup, h⟩ := bind_ok.mp h
      rw [pure_ok.mp h]
      obtain ⟨acc', -, hbalance, -, hdb₂⟩ := post_ok hacc hinsert hup
      have hdb₂ : db₂ = _ := hdb₂
      rw [Int.sub_eq_add_neg] at hbalance
      obtain ⟨hholdings, -⟩ := balance_added hacc hbalance (show db₂.accounts = _ by rw [hdb₂]; rfl)
      refine ⟨by rw [hdb₂]; rfl, ?_, hpos.le, min_le_left _ _, .inr ⟨row, by rw [hdb₂]; rfl⟩⟩
      simp only
      omega
    · rw [pure_ok.mp h]
      refine ⟨rfl, by simp, le_rfl, hcredit.le, .inl ⟨?_, rfl⟩⟩
      simp only [Db.balanceOf, hacc, Option.map_some, Option.getD_some]
      omega

/-- What a call of `billing_account_refund_payment` that returns did: it was a
replay or of nothing, or it took the refund's share. -/
inductive Refunded (paymentId : Id) (refundId : String) (amount : Int) (db : Db) :
    RefundResult × Db → Prop where
  | idle {r : RefundResult} {pay : Payment} (hpay : db.payments.get paymentId = some pay)
      (hwhy : (db.ledger.get (.refund (pay.refundKey refundId))).isSome ∨
        (pay.purposeDetail.refunds.get refundId).isSome ∨ pay.refundShare amount ≤ 0)
      (hnothing : r.debitedMinor = 0 ∧ r.shortfallMinor = 0 ∧ r.packReturnedMinor = 0) :
      Refunded paymentId refundId amount db (r, db)
  | took {r : RefundResult × Db} {pay : Payment} {record : RefundRecord}
      (hpay : db.payments.get paymentId = some pay) (hstatus : pay.status = .succeeded)
      (hrow : db.ledger.get (.refund (pay.refundKey refundId)) = none)
      (hnew : pay.purposeDetail.refunds.get refundId = none)
      (hcredit : record.creditMinor = pay.refundShare amount) (hpos : 0 < record.creditMinor)
      (hamount : record.amountMinor = amount)
      (hshare : r.1.debitedMinor + r.1.shortfallMinor = record.creditMinor)
      (hdebited : 0 ≤ r.1.debitedMinor) (hshortfall : 0 ≤ r.1.shortfallMinor)
      (hmoney : r.2.holdings pay.workspaceId + r.1.debitedMinor ≤
        db.holdings pay.workspaceId + r.1.packReturnedMinor)
      (hpayments : r.2.payments = db.payments.put paymentId (pay.recordRefund refundId record))
      (hkeys : ∀ key, (r.2.ledger.get key).isSome → (db.ledger.get key).isSome ∨
        (r.2.ledger.get (.refund (pay.refundKey refundId))).isSome ∧
          (key = .refund (pay.refundKey refundId) ∨
            key = .aiPackReturnRefund (pay.refundKey refundId) ∨
            key = .prepaidReturnRefund (pay.refundKey refundId)))
      (hkept : ∀ key, (db.ledger.get key).isSome → (r.2.ledger.get key).isSome) :
      Refunded paymentId refundId amount db r

theorem isSome_put {t : Table Key LedgerRow} {key key' : Key} {row : LedgerRow} :
    ((t.put key row).get key').isSome ↔ key' = key ∨ (t.get key').isSome := by
  rw [Table.get_put]
  split <;> simp_all

/-- What a refund posts comes with the row of the refund itself. -/
theorem refund_keys {refundKey : String} {db₁ db₂ db₃ : Db}
    (h₁ : db₁.ledger = db.ledger ∨ 0 < db₁.balanceOf ws ∧
      ∃ row, db₁.ledger = db.ledger.put (.aiPackReturnRefund refundKey) row)
    (h₂ : db₂.ledger = db₁.ledger ∨ 0 < db₂.balanceOf ws ∧
      ∃ row, db₂.ledger = db₁.ledger.put (.prepaidReturnRefund refundKey) row)
    (h₃ : db₂.balanceOf ws = 0 ∧ db₃.ledger = db₂.ledger ∨
      ∃ row, db₃.ledger = db₂.ledger.put (.refund refundKey) row)
    (hle : db₁.balanceOf ws ≤ db₂.balanceOf ws) :
    (∀ key, (db₃.ledger.get key).isSome → (db.ledger.get key).isSome ∨
      (db₃.ledger.get (.refund refundKey)).isSome ∧ (key = .refund refundKey ∨
        key = .aiPackReturnRefund refundKey ∨ key = .prepaidReturnRefund refundKey)) ∧
    ∀ key, (db.ledger.get key).isSome → (db₃.ledger.get key).isSome := by
  have hold₁ : ∀ key, (db₁.ledger.get key).isSome ↔ (db.ledger.get key).isSome ∨
      0 < db₁.balanceOf ws ∧ key = .aiPackReturnRefund refundKey ∧
        (db₁.ledger.get key).isSome := by
    intro key
    rcases h₁ with h₁ | ⟨hpos, row, h₁⟩ <;> rw [h₁]
    · grind
    · grind [isSome_put]
  have hold₂ : ∀ key, (db₂.ledger.get key).isSome ↔ (db₁.ledger.get key).isSome ∨
      0 < db₂.balanceOf ws ∧ key = .prepaidReturnRefund refundKey ∧
        (db₂.ledger.get key).isSome := by
    intro key
    rcases h₂ with h₂ | ⟨hpos, row, h₂⟩ <;> rw [h₂]
    · grind
    · grind [isSome_put]
  have hkept : ∀ key, (db.ledger.get key).isSome → (db₂.ledger.get key).isSome := fun key hkey =>
    (hold₂ key).mpr (.inl ((hold₁ key).mpr (.inl hkey)))
  rcases h₃ with ⟨hzero, h₃⟩ | ⟨row, h₃⟩
  · rw [h₃]
    refine ⟨fun key hkey => .inl ?_, hkept⟩
    rcases (hold₂ key).mp hkey with hkey | ⟨hpos, -⟩
    · rcases (hold₁ key).mp hkey with hkey | ⟨hpos, -⟩
      · exact hkey
      · omega
    · omega
  · simp only [h₃, isSome_put, true_or, true_and]
    refine ⟨fun key hkey => ?_, fun key hkey => .inr (hkept key hkey)⟩
    rcases hkey with hkey | hkey
    · exact .inr (.inl hkey)
    · rcases (hold₂ key).mp hkey with hkey | ⟨-, hkey, -⟩
      · rcases (hold₁ key).mp hkey with hkey | ⟨-, hkey, -⟩
        · exact .inl hkey
        · exact .inr (.inr (.inl hkey))
      · exact .inr (.inr (.inr hkey))

theorem applyRefund_ok (hdb : PacksSound db) (hpay : db.payments.get paymentId = some pay)
    (hstatus : pay.status = .succeeded)
    (hrow : db.ledger.get (.refund (pay.refundKey refundId)) = none)
    (hnew : pay.purposeDetail.refunds.get refundId = none) (hcredit : 0 < pay.refundShare amount)
    (h : applyRefund now paymentId pay refundId amount (pay.refundShare amount) db = .ok r) :
    Refunded paymentId refundId amount db r := by
  obtain ⟨pack, db₁, hpack, h⟩ := bind_ok.mp h
  obtain ⟨released, db₂, hrelease, h⟩ := bind_ok.mp h
  obtain ⟨⟨debited, ledgerId⟩, db₃, hdebit, h⟩ := bind_ok.mp h
  obtain ⟨_, db₄, hupdate, h⟩ := bind_ok.mp h
  rw [pure_ok.mp h]
  obtain ⟨hpayments₁, -, hholdings₁, -, -, hposted₁⟩ := reverseForRefund_ok hdb hpack
  obtain ⟨hpayments₂, hholdings₂, hbalance₂, -, hposted₂⟩ := releaseForRefund_ok hrelease
  obtain ⟨hpayments₃, hholdings₃, hnonneg, hmost, hposted₃⟩ := debitRefund_ok hcredit hdebit
  have hdb₄ : db₄ = _ := congrArg Prod.snd (modify_ok.mp hupdate)
  have hpayments : db₃.payments = db.payments :=
    hpayments₃.trans (hpayments₂.trans hpayments₁)
  have hwritten : db₄.payments = db.payments.put paymentId (pay.recordRefund refundId
      { amountMinor := amount, creditMinor := pay.refundShare amount
        shortfallMinor := pay.refundShare amount - debited, releasedPrepaidMinor := released
        packReturnedMinor := pack.returnedMinor, packReclaimedWallet := pack.reclaimedWallet }) := by
    rw [hdb₄]
    simp only [hpayments, Table.update, hpay]
  have hledger : db₄.ledger = db₃.ledger := by rw [hdb₄]
  have hholdings : db₄.holdings pay.workspaceId = db₃.holdings pay.workspaceId := by
    rw [hdb₄, Db.holdings, Db.holdings]
  simp only at hholdings₁ hposted₁ hholdings₂ hbalance₂ hposted₂ hholdings₃ hposted₃ hnonneg hmost
  obtain ⟨hkeys, hkept⟩ := refund_keys hposted₁ hposted₂ hposted₃ hbalance₂
  rw [← hledger] at hkeys hkept
  refine .took hpay hstatus hrow hnew rfl hcredit rfl ?_ hnonneg ?_ ?_ hwritten hkeys hkept
  · simp only
    omega
  · simp only
    omega
  · simp only
    omega

theorem refundPayment_ok (hdb : PacksSound db) {amount : Option Int}
    (h : refundPayment now paymentId refundId amount db = .ok r) :
    Refunded paymentId refundId (amount.getD 0) db r := by
  obtain ⟨-, h⟩ := require_bind_ok.mp h
  rw [get_bind] at h
  cases hpay : db.payments.get paymentId with
  | none =>
    simp only [hpay] at h
    exact (throw_ok.mp h).elim
  | some pay =>
    simp only [hpay] at h
    rcases ite_ok.mp h with ⟨hreplayed, h⟩ | ⟨hfresh, h⟩
    · rw [pure_ok.mp h]
      refine .idle hpay ?_ ⟨rfl, rfl, rfl⟩
      rcases hreplayed with hrow | hrecord
      · exact .inl hrow
      · exact .inr (.inl hrecord)
    · obtain ⟨hstatus, h⟩ := require_bind_ok.mp h
      rcases ite_ok.mp h with ⟨hnothing, h⟩ | ⟨hcredit, h⟩
      · rw [pure_ok.mp h]
        exact .idle hpay (.inr (.inr hnothing)) ⟨rfl, rfl, rfl⟩
      · simp only [not_or, Option.not_isSome_iff_eq_none] at hfresh
        exact applyRefund_ok hdb hpay hstatus hfresh.1 hfresh.2 (not_le.mp hcredit) h

def Payment.creditedBack (p : Payment) : Int :=
  (p.purposeDetail.refunds.rows.map fun r => r.2.creditMinor).sum

structure Payment.Counted (p : Payment) : Prop where
  counted : p.refundedMinor = p.creditedBack
  nonneg : 0 ≤ p.refundedMinor
  most : p.refundedMinor ≤ p.netMinor

structure PaymentsSound (db : Db) : Prop where
  counted : ∀ id pay, db.payments.get id = some pay → pay.Counted
  bought : ∀ id pay, db.payments.get id = some pay → db.Bought pay

theorem paymentsSound_empty : PaymentsSound .empty := by
  constructor <;> simp [Db.empty]

theorem Payment.Counted.same (h : p.Counted)
    (hrefunds : p'.purposeDetail.refunds = p.purposeDetail.refunds)
    (hrefunded : p'.refundedMinor = p.refundedMinor) (hnet : p'.netMinor = p.netMinor) :
    p'.Counted where
  counted := by rw [hrefunded, h.counted, Payment.creditedBack, Payment.creditedBack, hrefunds]
  nonneg := by rw [hrefunded]; exact h.nonneg
  most := by rw [hrefunded, hnet]; exact h.most

theorem creditedBack_recordRefund {record : RefundRecord}
    (hnew : p.purposeDetail.refunds.get refundId = none) :
    (p.recordRefund refundId record).creditedBack = p.creditedBack + record.creditMinor := by
  simp [Payment.creditedBack, Payment.recordRefund, put_rows_new hnew]

theorem Db.Bought.kept (h : db.Bought p)
    (hledger : ∀ key row, db.ledger.get key = some row → db'.ledger.get key = some row)
    (hresult : p'.purposeResult = p.purposeResult) (hws : p'.workspaceId = p.workspaceId) :
    db'.Bought p' := by
  intro packLedgerId hpack
  obtain ⟨key, row, hrow, hid, hsame, hkind⟩ := h packLedgerId (hresult ▸ hpack)
  exact ⟨key, row, hledger key row hrow, hid, hsame.trans hws.symm, hkind⟩

theorem PaymentsSound.write {may : Right → Prop} (hdb : PaymentsSound db)
    (h : Statement may db db') : PaymentsSound db' := by
  have hledger : ∀ key row, db.ledger.get key = some row → db'.ledger.get key = some row :=
    fun _ _ => h.ledger
  have hframe : db'.payments = db.payments → PaymentsSound db' := fun hpayments => by
    refine ⟨fun id pay hpay => ?_, fun id pay hpay => ?_⟩
    · exact hdb.counted id pay (hpayments ▸ hpay)
    · exact (hdb.bought id pay (hpayments ▸ hpay)).kept hledger rfl rfl
  have hput : ∀ {id : Id} {pay' : Payment}, db'.payments = db.payments.put id pay' →
      pay'.Counted → db'.Bought pay' → PaymentsSound db' := by
    intro id pay' hpayments hcounted hbought
    refine ⟨fun i p hp => ?_, fun i p hp => ?_⟩ <;> rw [hpayments, Table.get_put] at hp <;>
      split at hp
    · cases hp
      exact hcounted
    · exact hdb.counted i p hp
    · cases hp
      exact hbought
    · exact (hdb.bought i p hp).kept hledger rfl rfl
  cases h with
  | money h => exact hframe h.payments
  | edited | credited | renewal => exact hframe rfl
  | opened hpay =>
    refine hput rfl ⟨?_, ?_, ?_⟩ fun packLedgerId hpack => ?_
    · simp [hpay.refundedMinor, Payment.creditedBack, hpay.refunds, Table.empty]
    · rw [hpay.refundedMinor]
    · rw [hpay.refundedMinor]
      exact (Payment.amount_check _).1.le
    · rw [hpay.purposeResult] at hpack
      cases hpack
  | noted hpay hsame hpack =>
    refine hput rfl ((hdb.counted _ _ hpay).same hsame.refunds hsame.refundedMinor hsame.netMinor) ?_
    rcases hpack with hresult | hbought
    · exact (hdb.bought _ _ hpay).kept hledger hresult hsame.workspaceId
    · exact hbought.kept hledger rfl rfl
  | ended hpay | verified hpay | succeeded hpay =>
    exact hput rfl ((hdb.counted _ _ hpay).same rfl rfl rfl)
      ((hdb.bought _ _ hpay).kept hledger rfl rfl)
  | refunded _ hpay hnew hcredit hleft =>
    obtain ⟨hcounted, hnonneg, hmost⟩ := hdb.counted _ _ hpay
    refine hput rfl ⟨?_, ?_, ?_⟩ ((hdb.bought _ _ hpay).kept hledger rfl rfl)
    · rw [creditedBack_recordRefund hnew, ← hcounted]
      rfl
    · simp only [Payment.recordRefund]
      omega
    · simp only [Payment.recordRefund]
      omega

theorem PaymentsSound.step (hdb : PaymentsSound db) (c : Timestamp × Operation) :
    PaymentsSound (db.step c) :=
  step_keeps (fun _ _ (h : Statement (fun _ => True) _ _) hdb => hdb.write h)
    (fun _ _ hdb => ⟨hdb.counted, hdb.bought⟩) hdb c (fun _ => trivial) (fun _ => trivial)
    fun _ => trivial

def Db.refundsOf (db : Db) (paymentId : Id) : Table String RefundRecord × Int :=
  ((db.payments.get paymentId).map fun p => (p.purposeDetail.refunds, p.refundedMinor)).getD
    (.empty, 0)

theorem refundsOf_put (db : Db) (id : Id) (pay : Payment) (other : Id) :
    Db.refundsOf { db with payments := db.payments.put id pay } other =
      if other = id then (pay.purposeDetail.refunds, pay.refundedMinor)
      else db.refundsOf other := by
  by_cases h : other = id <;> simp [Db.refundsOf, Table.get_put, h]

theorem Statement.refundsOf (h : Statement (· ≠ .refund) db db') (hdb : Credited db) (id : Id) :
    db'.refundsOf id = db.refundsOf id := by
  have hsame : ∀ {i : Id} {pay pay' : Payment}, db.payments.get i = some pay →
      pay'.purposeDetail.refunds = pay.purposeDetail.refunds →
      pay'.refundedMinor = pay.refundedMinor →
      Db.refundsOf { db with payments := db.payments.put i pay' } id = db.refundsOf id := by
    intro i pay pay' hpay hrefunds hrefunded
    rw [refundsOf_put]
    split
    · rename_i hi
      simp [Db.refundsOf, hi, hpay, hrefunds, hrefunded]
    · rfl
  cases h with
  | money h => simp only [Db.refundsOf, h.payments]
  | edited | credited | renewal => rfl
  | @opened pay hpay =>
    have hnew : db.payments.get db.nextId = none := by
      cases hget : db.payments.get db.nextId with
      | none => rfl
      | some pay => exact absurd (hdb.old _ _ hget) (lt_irrefl _)
    have hput := refundsOf_put db db.nextId pay id
    simp only [Db.refundsOf] at hput ⊢
    rw [hput]
    split
    · rename_i hid
      rw [hid, hnew, hpay.refunds, hpay.refundedMinor]
      rfl
    · rfl
  | noted hpay h => exact hsame hpay h.refunds h.refundedMinor
  | ended hpay | verified hpay | succeeded hpay => exact hsame hpay rfl rfl
  | refunded hmay => exact absurd rfl hmay

theorem step_refundsOf (hdb : Credited db) {c : Timestamp × Operation}
    (hop : c.2.isRefund = false) (id : Id) : (db.step c).refundsOf id = db.refundsOf id := by
  have hwrite : ∀ a b, Statement (· ≠ .refund) a b →
      Credited a ∧ a.refundsOf id = db.refundsOf id →
      Credited b ∧ b.refundsOf id = db.refundsOf id := fun a b h hI =>
    ⟨credited_writes (.single (h.mono fun _ _ => trivial)) hI.1, (h.refundsOf hI.1 id).trans hI.2⟩
  have hwallet : ∀ (a : Db) (w : AiWallet.Wallet), Credited a ∧ a.refundsOf id = db.refundsOf id →
      Credited { a with wallet := w } ∧
        Db.refundsOf { a with wallet := w } id = db.refundsOf id :=
    fun a w hI => ⟨hI.1.frame rfl rfl le_rfl, hI.2⟩
  exact (step_keeps hwrite hwallet ⟨hdb, rfl⟩ c (by simp [hop]) (by simp) (by simp)).2

def Db.takes (paymentId : Id) (db : Db) (c : Timestamp × Operation) :
    Option (String × RefundResult) :=
  match c.2 with
  | .refundPayment id refundId amount =>
    match refundPayment c.1 id refundId amount db with
    | .ok (r, _) =>
      if id = paymentId ∧ 0 < r.debitedMinor + r.shortfallMinor then some (refundId, r) else none
    | .error _ => none
  | _ => none

structure Taken (paymentId : Id) (db : Db) (taken : List (String × RefundResult)) : Prop where
  credited : Credited db
  packs : PacksSound db
  payments : PaymentsSound db
  ids : taken.map Prod.fst = (db.refundsOf paymentId).1.rows.map Prod.fst
  shares : (taken.map fun t => t.2.debitedMinor + t.2.shortfallMinor).sum =
    (db.refundsOf paymentId).2
  shortfalls : ∀ t ∈ taken, 0 ≤ t.2.shortfallMinor

theorem taken_empty (paymentId : Id) : Taken paymentId .empty [] where
  credited := credited_empty
  packs := packsSound_empty
  payments := paymentsSound_empty
  ids := rfl
  shares := by simp [Db.refundsOf, Db.empty]
  shortfalls := by simp

theorem refundsOf_some (hpay : db.payments.get paymentId = some pay) :
    db.refundsOf paymentId = (pay.purposeDetail.refunds, pay.refundedMinor) := by
  simp [Db.refundsOf, hpay]

theorem refund_taken {paymentId : Id} {refundId : String} {amount : Option Int}
    (hdb : PacksSound db) (id : Id) :
    let c : Timestamp × Operation := (now, .refundPayment id refundId amount)
    (db.takes paymentId c = none ∧ (db.step c).refundsOf paymentId = db.refundsOf paymentId) ∨
      ∃ r record, db.takes paymentId c = some (refundId, r) ∧
        (db.refundsOf paymentId).1.get refundId = none ∧
        record.creditMinor = r.debitedMinor + r.shortfallMinor ∧ 0 ≤ r.shortfallMinor ∧
        (db.step c).refundsOf paymentId =
          ((db.refundsOf paymentId).1.put refundId record,
            (db.refundsOf paymentId).2 + record.creditMinor) := by
  intro c
  unfold Db.takes Db.step commit
  simp only [c, Operation.call]
  cases hcall : refundPayment now id refundId amount db with
  | error e =>
    refine .inl ⟨rfl, ?_⟩
    rw [show discard (refundPayment now id refundId amount) db = .error e from by
      show (refundPayment now id refundId amount db >>= _) = _
      rw [hcall]
      rfl]
  | ok r =>
    rw [show discard (refundPayment now id refundId amount) db = .ok ((), r.2) from by
      show (refundPayment now id refundId amount db >>= _) = _
      rw [hcall]
      rfl]
    simp only
    cases refundPayment_ok hdb hcall with
    | idle hpay hwhy hnothing => simp [hnothing]
    | took hpay hstatus hrow hnew hcredit hpos hamount hshare hdebited hshortfall hmoney hpayments =>
      by_cases hid : id = paymentId
      · subst hid
        refine .inr ⟨r.1, _, by rw [if_pos ⟨rfl, by omega⟩], ?_, hshare.symm, hshortfall, ?_⟩
        · rw [refundsOf_some hpay]
          exact hnew
        · simp only [Db.refundsOf, hpayments, Table.get_put_self, hpay, Option.map_some,
            Option.getD_some, Payment.recordRefund]
      · refine .inl ⟨by simp [hid], ?_⟩
        simp only [Db.refundsOf, hpayments, Table.get_put_ne _ _ (Ne.symm hid)]

theorem Taken.step {taken : List (String × RefundResult)} (h : Taken paymentId db taken)
    (c : Timestamp × Operation) :
    Taken paymentId (db.step c) (taken ++ (db.takes paymentId c).toList) := by
  obtain ⟨hcredited, hpacks, hpayments, hids, hshares, hshortfalls⟩ := h
  have hsame : db.takes paymentId c = none →
      (db.step c).refundsOf paymentId = db.refundsOf paymentId →
      Taken paymentId (db.step c) (taken ++ (db.takes paymentId c).toList) := by
    intro hnone hrefunds
    rw [hnone, Option.toList_none, List.append_nil]
    exact ⟨hcredited.step c, hpacks.step c, hpayments.step c, by rw [hrefunds]; exact hids,
      by rw [hrefunds]; exact hshares, hshortfalls⟩
  cases hop : c.2.isRefund with
  | false =>
    refine hsame ?_ (step_refundsOf hcredited hop paymentId)
    unfold Db.takes
    split
    · rename_i hc
      rw [hc] at hop
      cases hop
    · rfl
  | true =>
    obtain ⟨now, op⟩ := c
    cases op with
    | refundPayment id refundId amount =>
      rcases refund_taken hpacks id with ⟨hnone, hrefunds⟩ |
        ⟨r, record, hsome, hnew, hcredit, hshortfall, hrefunds⟩
      · exact hsame hnone hrefunds
      · rw [hsome]
        refine ⟨hcredited.step _, hpacks.step _, hpayments.step _, ?_, ?_, ?_⟩
        · rw [hrefunds, put_rows_new hnew]
          simp [hids]
        · rw [hrefunds]
          simp [hshares, hcredit]
        · intro t ht
          rcases List.mem_append.mp ht with ht | ht
          · exact hshortfalls t ht
          · cases List.mem_singleton.mp ht
            exact hshortfall
    | _ => cases hop

def refundsTaken (paymentId : Id) (calls : List (Timestamp × Operation)) :
    List (String × RefundResult) :=
  replies Db.step (Db.takes paymentId) .empty calls

theorem taken_run (paymentId : Id) (calls : List (Timestamp × Operation)) :
    Taken paymentId (run Db.step .empty calls) (refundsTaken paymentId calls) :=
  replies_keeps (I := Taken paymentId) (fun _ _ c h => h.step c) (taken_empty paymentId) calls

/-- In every run: no more of a payment is refunded than was credited; a refund that
took effect takes none again; what it debits and what falls short of it are its
share; the workspace holds no more after it than before but for the price of a pack
given back; and all refunds together take no more than the payment's net. -/
theorem refunds_bounded (calls : List (Timestamp × Operation)) (paymentId : Id) :
    let db := run Db.step .empty calls
    let taken := refundsTaken paymentId calls
    (taken.map Prod.fst).Nodup ∧
    (∀ pay, db.payments.get paymentId = some pay →
      pay.refundedMinor ≤ pay.netMinor ∧
      (taken.map fun t => t.2.debitedMinor + t.2.shortfallMinor).sum = pay.refundedMinor ∧
      (taken.map fun t => t.2.debitedMinor).sum ≤ pay.netMinor) ∧
    ∀ now refundId amount r, refundPayment now paymentId refundId amount db = .ok r →
      ∃ pay, db.payments.get paymentId = some pay ∧
        r.2.holdings pay.workspaceId ≤ db.holdings pay.workspaceId + r.1.packReturnedMinor ∧
        0 ≤ r.2.balanceOf pay.workspaceId ∧ 0 ≤ r.2.holdings pay.workspaceId ∧
        (r.1.debitedMinor + r.1.shortfallMinor = 0 ∧ r.2 = db ∨
          refundId ∉ taken.map Prod.fst ∧
          r.1.debitedMinor + r.1.shortfallMinor = pay.refundShare (amount.getD 0) ∧
          ∃ pay', r.2.payments.get paymentId = some pay' ∧
            pay'.refundedMinor = pay.refundedMinor + pay.refundShare (amount.getD 0)) := by
  intro db taken
  have htaken : Taken paymentId db taken := taken_run paymentId calls
  obtain ⟨hcredited, hpacks, hpayments, hids, hshares, hshortfalls⟩ := htaken
  refine ⟨?_, fun pay hpay => ?_, fun now refundId amount r h => ?_⟩
  · rw [show taken.map Prod.fst = _ from hids]
    exact Table.keys_nodup _
  · have hcounted := hpayments.counted _ _ hpay
    rw [refundsOf_some hpay] at hshares
    have hless : ∀ l : List (String × RefundResult), (∀ t ∈ l, 0 ≤ t.2.shortfallMinor) →
        (l.map fun t => t.2.debitedMinor).sum ≤
          (l.map fun t => t.2.debitedMinor + t.2.shortfallMinor).sum := by
      intro l hl
      exact List.sum_le_sum fun t ht => Int.le_add_of_nonneg_right (hl t ht)
    have hdebited := hless taken hshortfalls
    refine ⟨hcounted.most, hshares, hdebited.trans ?_⟩
    rw [show (taken.map fun t => t.2.debitedMinor + t.2.shortfallMinor).sum = _ from hshares]
    exact hcounted.most
  · cases refundPayment_ok hpacks h with
    | idle hpay hwhy hnothing =>
      obtain ⟨hdebited, hshortfall, hpack⟩ := hnothing
      refine ⟨_, hpay, ?_, balanceOf_nonneg _ _, holdings_nonneg _ _, .inl ⟨?_, rfl⟩⟩
      · simp only [hpack]
        omega
      · simp only [hdebited, hshortfall]
        rfl
    | took hpay hstatus hrow hnew hcredit hpos hamount hshare hdebited hshortfall hmoney hwritten =>
      refine ⟨_, hpay, by omega, balanceOf_nonneg _ _, holdings_nonneg _ _,
        .inr ⟨?_, hshare.trans hcredit, ?_⟩⟩
      · rw [show taken.map Prod.fst = _ from hids, refundsOf_some hpay]
        exact Table.get_eq_none_iff.mp hnew
      · refine ⟨_, by rw [hwritten]; exact Table.get_put_self _ _ _, ?_⟩
        rw [← hcredit]
        rfl

/-- A payment of a thousand net is refunded twice and over, three hundred of it
spent between. -/
theorem refunds_bounded_overdrawn :
    let pay : Payment :=
      { workspaceId := 1, provider := "stripe", currency := "USD", amountMinor := 1100
        netMinor := 1000, taxMinor := 100, amount_check := by decide }
    let calls : List (Timestamp × Operation) :=
      [(0, .createPayment pay), (1, .recordVerification 0 (some 1100) (some "USD") (some "pi")),
       (2, .settlePayment 0), (3, .refundPayment 0 "a" (some 330)),
       (4, .adminAdjust 1 (some (-300)) (some "USD") (some "spent") none (some "k") (some "test")
         none),
       (5, .refundPayment 0 "b" (some 770))]
    let taken := refundsTaken 0 calls
    taken.map Prod.fst = ["a", "b"] ∧ (taken.map Prod.fst).Nodup ∧
      taken.map (fun t => t.2.debitedMinor) = [300, 400] ∧
      (taken.map fun t => t.2.debitedMinor).sum ≤ 1000 := by
  intro pay calls taken
  have hbounds := refunds_bounded calls 0
  have hpaid : ((run Db.step .empty calls).payments.get 0).isSome := by decide +kernel
  obtain ⟨paid, hget⟩ := Option.isSome_iff_exists.mp hpaid
  have hnet : ∀ p ∈ (run Db.step .empty calls).payments.get 0, p.netMinor = 1000 := by
    decide +kernel
  have hsum := (hbounds.2.1 paid hget).2.2
  rw [hnet paid hget] at hsum
  exact ⟨by decide +kernel, hbounds.1, by decide +kernel, hsum⟩

end Kindred.Billing
