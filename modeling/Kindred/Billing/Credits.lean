import Kindred.Billing.Statements

/-! A payment is credited once, and a gateway's transaction through one payment. -/

namespace Kindred.Billing
open Lib (Table run run_invariant)
open Lib.Tx
open Relation (ReflTransGen)

variable {now : Timestamp} {may : Right → Prop} {db db' : Db} {row : LedgerRow} {id : Id}

structure Credited (db : Db) : Prop where
  old : ∀ id pay, db.payments.get id = some pay → id < db.nextId
  credit : ∀ key row, db.ledger.get key = some row → row.kind = .topup → ∃ id pay,
    key = .payment id ∧ row.paymentId = some id ∧ db.payments.get id = some pay ∧
      pay.verifiedAt.isSome ∧ row.workspaceId = pay.workspaceId ∧ row.amountMinor = pay.netMinor
  settled : ∀ id pay, db.payments.get id = some pay → pay.status = .succeeded →
    ∃ row, db.ledger.get (.payment id) = some row ∧ row.kind = .topup
  reference : ∀ id pay, db.payments.get id = some pay → pay.verifiedAt.isSome →
    pay.providerPaymentId.isSome
  unique : ∀ id id' pay pay', db.payments.get id = some pay → db.payments.get id' = some pay' →
    pay.provider = pay'.provider → pay.providerPaymentId.isSome →
    pay.providerPaymentId = pay'.providerPaymentId → id = id'

theorem credited_empty : Credited .empty := by
  constructor <;> simp [Db.empty]

theorem Credited.frame (h : Credited db) (hledger : db'.ledger = db.ledger)
    (hpayments : db'.payments = db.payments) (hid : db.nextId ≤ db'.nextId) : Credited db' where
  old id pay hpay := lt_of_lt_of_le (h.old id pay (hpayments ▸ hpay)) hid
  credit key row hrow hkind := by
    rw [hpayments]
    exact h.credit key row (hledger ▸ hrow) hkind
  settled id pay hpay hstatus := by
    rw [hledger]
    exact h.settled id pay (hpayments ▸ hpay) hstatus
  reference id pay hpay := h.reference id pay (hpayments ▸ hpay)
  unique id id' pay pay' hpay hpay' := h.unique id id' pay pay' (hpayments ▸ hpay) (hpayments ▸ hpay')

variable {key : Key} {r : SettleResult × Db}

theorem Credited.post (h : Credited db) (hnew : db.ledger.get key = none)
    (hcredit : row.kind = .topup → ∃ id pay, key = .payment id ∧ row.paymentId = some id ∧
      db.payments.get id = some pay ∧ pay.verifiedAt.isSome ∧
      row.workspaceId = pay.workspaceId ∧ row.amountMinor = pay.netMinor) :
    Credited { db with ledger := db.ledger.put key row } where
  old := h.old
  credit k x hget hkind := by
    simp only [Table.get_put] at hget
    split at hget
    · rename_i hk
      cases hget
      rw [hk]
      exact hcredit hkind
    · exact h.credit k x hget hkind
  settled id pay hpay hstatus := by
    obtain ⟨x, hx, hkind⟩ := h.settled id pay hpay hstatus
    refine ⟨x, ?_, hkind⟩
    rw [Table.get_put_ne _ _ fun he => ?_]
    · exact hx
    · rw [he, hnew] at hx
      cases hx
  reference := h.reference
  unique := h.unique

/-- A payment changes, but not what was credited of it. -/
theorem Credited.pay (h : Credited db) {id : Id} {pay pay' : Payment}
    (hpay : db.payments.get id = some pay) (hws : pay'.workspaceId = pay.workspaceId)
    (hprovider : pay'.provider = pay.provider) (hnet : pay'.netMinor = pay.netMinor)
    (hstatus : pay'.status = .succeeded →
      ∃ row, db.ledger.get (.payment id) = some row ∧ row.kind = .topup)
    (hverified : pay.verifiedAt.isSome → pay'.verifiedAt.isSome)
    (hreference : pay'.verifiedAt.isSome → pay'.providerPaymentId.isSome)
    (hunique : pay'.providerPaymentId = pay.providerPaymentId ∨
      ∀ id' other, db.payments.get id' = some other → id' ≠ id →
        other.provider = pay.provider → other.providerPaymentId ≠ pay'.providerPaymentId) :
    Credited { db with payments := db.payments.put id pay' } where
  old i p hp := by
    simp only [Table.get_put] at hp
    split at hp
    · rename_i hi
      rw [hi]
      exact h.old id pay hpay
    · exact h.old i p hp
  credit key row hrow hkind := by
    obtain ⟨i, p, hkey, hid, hp, hv, hw, ha⟩ := h.credit key row hrow hkind
    by_cases hi : i = id
    · subst hi
      cases hpay.symm.trans hp
      exact ⟨i, pay', hkey, hid, Table.get_put_self _ _ _, hverified hv, hw.trans hws.symm,
        ha.trans hnet.symm⟩
    · exact ⟨i, p, hkey, hid, by rw [Table.get_put_ne _ _ hi]; exact hp, hv, hw, ha⟩
  settled i p hp hs := by
    simp only [Table.get_put] at hp
    split at hp
    · rename_i hi
      cases hp
      rw [hi]
      exact hstatus hs
    · exact h.settled i p hp hs
  reference i p hp hv := by
    simp only [Table.get_put] at hp
    split at hp
    · cases hp
      exact hreference hv
    · exact h.reference i p hp hv
  unique i j p q hp hq hpq hsome href := by
    simp only [Table.get_put] at hp hq
    split at hp <;> split at hq
    · rename_i hi hj
      exact hi.trans hj.symm
    · rename_i hi hj
      cases hp
      rcases hunique with hsame | hother
      · exact hi.trans (h.unique id j pay q hpay hq (hprovider ▸ hpq) (hsame ▸ hsome)
          (hsame ▸ href))
      · exact absurd href.symm (hother j q hq hj (hpq.symm.trans hprovider))
    · rename_i hi hj
      cases hq
      rcases hunique with hsame | hother
      · exact (h.unique i id p pay hp hpay (hpq.trans hprovider) hsome (href.trans hsame)).trans
          hj.symm
      · exact absurd href (hother i p hp hi (hpq.trans hprovider))
    · exact h.unique i j p q hp hq hpq hsome href

theorem Credited.open (h : Credited db) {pay : Payment} (hpay : pay.Opened) :
    Credited { db.drawn with payments := db.payments.put db.nextId pay } := by
  have hnew : ∀ {id p}, db.payments.get id = some p → id ≠ db.nextId := fun hp he => by
    have := h.old _ _ hp
    lia
  refine ⟨fun id p hp => ?_, fun key row hrow hkind => ?_, fun id p hp hs => ?_,
    fun id p hp hv => ?_, fun i j p q hp hq hpq hsome href => ?_⟩
  · simp only [Table.get_put] at hp
    split at hp
    · rename_i hi
      rw [hi]
      exact Nat.lt_succ_self _
    · exact Nat.lt_succ_of_lt (h.old id p hp)
  · obtain ⟨i, p, hkey, hid, hp, hrest⟩ := h.credit key row hrow hkind
    exact ⟨i, p, hkey, hid, by rw [Table.get_put_ne _ _ (hnew hp)]; exact hp, hrest⟩
  · simp only [Table.get_put] at hp
    split at hp
    · cases hp
      exact absurd (hs.symm.trans hpay.status) nofun
    · exact h.settled id p hp hs
  · simp only [Table.get_put] at hp
    split at hp
    · cases hp
      simp [hpay.verifiedAt] at hv
    · exact h.reference id p hp hv
  · simp only [Table.get_put] at hp hq
    split at hp <;> split at hq
    · rename_i hi hj
      exact hi.trans hj.symm
    · cases hp
      simp [hpay.providerPaymentId] at hsome
    · cases hq
      simp [href, hpay.providerPaymentId] at hsome
    · exact h.unique i j p q hp hq hpq hsome href

theorem Credited.write (hdb : Credited db) (h : Statement may db db') : Credited db' := by
  cases h with
  | money h =>
    cases h with
    | drawn | duplicate | saved => exact hdb.frame rfl rfl (Nat.le_succ _)
    | posted hnew hrow =>
      have hpost := hdb.post hnew fun htopup => absurd htopup hrow.kind
      exact hpost.frame rfl rfl (Nat.le_succ _)
    | _ => exact hdb.frame rfl rfl le_rfl
  | edited plans settings subscriptions => exact hdb.frame rfl rfl le_rfl
  | opened hpay => exact hdb.open hpay
  | noted hpay hsame =>
    refine hdb.pay hpay hsame.workspaceId hsame.provider hsame.netMinor (fun hs => ?_) (fun hv => ?_)
      (fun hv => ?_) (.inl hsame.providerPaymentId)
    · exact hdb.settled _ _ hpay (hsame.status ▸ hs)
    · rwa [hsame.verifiedAt]
    · rw [hsame.providerPaymentId]
      exact hdb.reference _ _ hpay (hsame.verifiedAt ▸ hv)
  | ended hpay hpending hstatus =>
    have hreference := hdb.reference _ _ hpay
    exact hdb.pay hpay rfl rfl rfl (fun hs => absurd hs hstatus) id hreference (.inl rfl)
  | verified hpay hnone hreference hunique =>
    have hsettled := hdb.settled _ _ hpay
    exact hdb.pay hpay rfl rfl rfl hsettled (fun _ => rfl) (fun _ => hreference) (.inr hunique)
  | credited hpay hverified hnew hkind hid hws hamount =>
    have hpost := hdb.post hnew fun _ => ⟨_, _, rfl, hid, hpay, hverified, hws, hamount⟩
    exact hpost.frame rfl rfl (Nat.le_succ _)
  | succeeded hpay hrow hkind =>
    have hreference := hdb.reference _ _ hpay
    exact hdb.pay hpay rfl rfl rfl (fun _ => ⟨_, hrow, hkind⟩) id hreference (.inl rfl)
  | refunded _ hpay hnew =>
    have hsettled := hdb.settled _ _ hpay
    have hreference := hdb.reference _ _ hpay
    exact hdb.pay hpay rfl rfl rfl hsettled id hreference (.inl rfl)
  | renewal => exact hdb.frame rfl rfl le_rfl

theorem credited_writes (h : ReflTransGen (Statement (fun _ => True)) db db')
    (hdb : Credited db) : Credited db' := by
  induction h with
  | refl => exact hdb
  | tail _ hstep ih => exact ih.write hstep

theorem Credited.step (hdb : Credited db) (c : Timestamp × Operation) : Credited (db.step c) :=
  step_keeps (fun _ _ (h : Statement (fun _ => True) _ _) hdb => hdb.write h)
    (fun _ _ hdb => hdb.frame rfl rfl le_rfl) hdb c (fun _ => trivial) (fun _ => trivial)
    fun _ => trivial

theorem credited_run (calls : List (Timestamp × Operation)) : Credited (run Db.step .empty calls) :=
  run_invariant (fun _ c hdb => hdb.step c) credited_empty calls

theorem Statement.ledger (h : Statement may db db') (hrow : db.ledger.get key = some row)
    : db'.ledger.get key = some row := by
  have hput : ∀ {k : Key} {x : LedgerRow}, db.ledger.get k = none →
      (db.ledger.put k x).get key = some row := fun {k x} hnew => by
    rw [Table.get_put_ne _ _ fun he => by rw [he, hnew] at hrow; cases hrow]
    exact hrow
  cases h with
  | money h =>
    cases h with
    | posted hnew _ => exact hput hnew
    | _ => exact hrow
  | credited _ _ hnew => exact hput hnew
  | _ => exact hrow

theorem ledger_writes (h : ReflTransGen (Statement (fun _ => True)) db db')
    (hrow : db.ledger.get key = some row) : db'.ledger.get key = some row := by
  induction h with
  | refl => exact hrow
  | tail _ hstep ih => exact hstep.ledger ih

def Db.creditsOf (db : Db) (paymentId : Id) : List LedgerRow :=
  (db.ledger.rows.filter fun e => e.2.kind = .topup ∧ e.2.paymentId = some paymentId).map Prod.snd

def Db.CreditedOnce (db : Db) (paymentId : Id) : Prop :=
  ∃ row pay, db.creditsOf paymentId = [row] ∧ db.payments.get paymentId = some pay ∧
    row.workspaceId = pay.workspaceId ∧ row.amountMinor = pay.netMinor

theorem Credited.creditsOf (h : Credited db) (id : Id) : db.creditsOf id =
      ((db.ledger.get (.payment id)).filter fun row => row.kind = .topup).toList := by
  have hkey : (db.ledger.rows.filter fun e => e.2.kind = .topup ∧ e.2.paymentId = some id) =
      (db.ledger.rows.filter fun e => e.1 = .payment id).filter fun e => e.2.kind = .topup := by
    rw [List.filter_filter]
    refine List.filter_congr fun e he => ?_
    by_cases hkind : e.2.kind = .topup
    · obtain ⟨i, _, hkey, hid, -⟩ := h.credit e.1 e.2 (Table.get_eq_some_iff_mem.mpr he) hkind
      simp [hkind, hkey, hid]
    · simp [hkind]
  rw [Db.creditsOf, hkey, Table.filter_key]
  cases db.ledger.get (.payment id) with
  | none => rfl
  | some row => by_cases hkind : row.kind = .topup <;> simp [Option.filter, hkind]

theorem Credited.once (h : Credited db) (hrow : db.ledger.get (.payment id) = some row)
    (hkind : row.kind = .topup) : db.CreditedOnce id := by
  obtain ⟨i, pay, hkey, -, hpay, -, hws, hamount⟩ := h.credit _ row hrow hkind
  cases hkey
  exact ⟨row, pay, by simp [h.creditsOf, hrow, hkind], hpay, hws, hamount⟩

theorem Credited.none_or_once (h : Credited db) (id : Id) :
    db.creditsOf id = [] ∨ db.CreditedOnce id := by
  cases hrow : db.ledger.get (.payment id) with
  | none => exact .inl (by simp [h.creditsOf, hrow])
  | some row =>
    by_cases hkind : row.kind = .topup
    · exact .inr (h.once hrow hkind)
    · exact .inl (by simp [h.creditsOf, hrow, hkind])

theorem creditPayment_row {pay : Payment} {r : LedgerRow × Db}
    (h : creditPayment now id pay db = .ok r) :
    r.2.ledger.get (.payment id) = some r.1 ∧ r.1.kind = .topup := by
  obtain ⟨_, _, -, h⟩ := bind_ok.mp h
  obtain ⟨_, _, -, h⟩ := bind_ok.mp h
  obtain ⟨_, _, -, h⟩ := bind_ok.mp h
  obtain ⟨row, db₁, hrow, h⟩ := bind_ok.mp h
  obtain ⟨_, db₂, hup, h⟩ := bind_ok.mp h
  obtain ⟨_, db₃, hpay, h⟩ := bind_ok.mp h
  rw [pure_ok.mp h]
  obtain ⟨-, hnew, hdb₁⟩ := insertLedger_ok hrow
  simp only at hnew hdb₁
  refine ⟨?_, by rw [hnew]⟩
  rw [show db₃ = _ from congrArg Prod.snd (modify_ok.mp hpay)]
  simp only
  rw [show db₂.ledger = _ from updateAccount_ledger hup, hdb₁, hnew]
  exact Table.get_put_self _ _ _

theorem settlePayment_credits (hdb : Credited db) (h : settlePayment now id db = .ok r) :
    ∃ row, r.2.ledger.get (.payment id) = some row ∧ row.kind = .topup := by
  unfold settlePayment at h
  rw [get_bind] at h
  cases hpay : db.payments.get id with
  | none =>
    simp only [hpay] at h
    exact (throw_ok.mp h).elim
  | some pay =>
    simp only [hpay] at h
    rcases ite_ok.mp h with ⟨hstatus, h⟩ | ⟨-, h⟩
    · rw [pure_ok.mp h]
      exact hdb.settled id pay hpay hstatus
    · obtain ⟨-, h⟩ := require_bind_ok.mp h
      obtain ⟨row, db₁, hcredit, h⟩ := bind_ok.mp h
      obtain ⟨result, db₂, hpurpose, h⟩ := bind_ok.mp h
      obtain ⟨_, -, h⟩ := readAccount_bind_ok.mp h
      rw [pure_ok.mp h]
      obtain ⟨hrow, hkind⟩ := creditPayment_row hcredit
      refine ⟨row, ledger_writes (settlePurpose_made ?_ _ hpurpose) hrow, hkind⟩
      exact creditPayment_keeps hpay hcredit

theorem cardSettle_credits (hdb : Credited db) {amount : Option Int}
    {currency txnId : Option String} (h : cardSettle now id amount currency txnId db = .ok r) :
    ∃ row, r.2.ledger.get (.payment id) = some row ∧ row.kind = .topup := by
  have hsettle : ∀ {db : Db}, Credited db → settleCharge now id db = .ok r →
      ∃ row, r.2.ledger.get (.payment id) = some row ∧ row.kind = .topup := by
    intro db hdb h
    obtain ⟨result, db₁, hsettle, h⟩ := bind_ok.mp h
    obtain ⟨row, hrow, hkind⟩ := settlePayment_credits hdb hsettle
    refine ⟨row, ?_, hkind⟩
    cases herror : purposeErrorOf result with
    | none =>
      simp only [herror] at h
      rw [pure_ok.mp h]
      exact hrow
    | some e =>
      simp only [herror] at h
      obtain ⟨_, db₂, hnote, h⟩ := bind_ok.mp h
      rw [pure_ok.mp h]
      rw [show db₂ = _ from congrArg Prod.snd (modify_ok.mp hnote)]
      exact hrow
  unfold cardSettle at h
  rw [get_bind] at h
  cases hpay : db.payments.get id with
  | none =>
    simp only [hpay] at h
    exact (throw_ok.mp h).elim
  | some pay =>
    simp only [hpay] at h
    obtain ⟨-, h⟩ := require_bind_ok.mp h
    rcases ite_ok.mp h with ⟨hpaid, h⟩ | ⟨-, h⟩
    · rw [pure_ok.mp h]
      exact hdb.settled id pay hpay hpaid.1
    · rcases ite_ok.mp h with ⟨-, h⟩ | ⟨-, h⟩
      · obtain ⟨_, db₁, hverify, h⟩ := bind_ok.mp h
        exact hsettle (credited_writes (recordVerification_made _ hverify) hdb) h
      · exact hsettle hdb h

theorem Credited.onceAfter (hdb : Credited db) (h : ReflTransGen (Statement (fun _ => True)) db db')
    (hrow : ∃ row, db'.ledger.get (.payment id) = some row ∧ row.kind = .topup) :
    db'.CreditedOnce id := by
  obtain ⟨row, hrow, hkind⟩ := hrow
  exact (credited_writes h hdb).once hrow hkind

/-- In whatever order payments are verified and settled, and however often: each
is credited once or not at all, once where settling it returns, and no two of one
provider under one reference. -/
theorem settled_exactly_once (calls : List (Timestamp × Operation)) :
    let db := run Db.step .empty calls
    (∀ id, db.creditsOf id = [] ∨ db.CreditedOnce id) ∧
    (∀ now id r, settlePayment now id db = .ok r → r.2.CreditedOnce id) ∧
    (∀ now id amount currency txnId r, cardSettle now id amount currency txnId db = .ok r →
      r.2.CreditedOnce id) ∧
    ∀ id id' pay pay', db.payments.get id = some pay → db.payments.get id' = some pay' →
      db.creditsOf id ≠ [] → db.creditsOf id' ≠ [] → pay.provider = pay'.provider →
      pay.providerPaymentId = pay'.providerPaymentId → id = id' := by
  intro db
  have hdb : Credited db := credited_run calls
  refine ⟨hdb.none_or_once, fun now id r h => ?_, fun now id amount currency txnId r h => ?_,
    fun id id' pay pay' hpay hpay' hcredit _ hprovider hreference => ?_⟩
  · exact hdb.onceAfter (settlePayment_made r h) (settlePayment_credits hdb h)
  · exact hdb.onceAfter (cardSettle_made r h) (cardSettle_credits hdb h)
  · have hsome : pay.providerPaymentId.isSome := by
      cases hrow : db.ledger.get (.payment id) with
      | none => exact absurd (by simp [hdb.creditsOf, hrow]) hcredit
      | some row =>
        by_cases hkind : row.kind = .topup
        · obtain ⟨_, p, hkey, -, hp, hverified, -⟩ := hdb.credit _ row hrow hkind
          cases hkey
          cases hpay.symm.trans hp
          exact hdb.reference id pay hpay hverified
        · exact absurd (by simp [hdb.creditsOf, hrow, hkind]) hcredit
    exact hdb.unique id id' pay pay' hpay hpay' hprovider hsome hreference

/-- A payment settled once more. -/
theorem settled_exactly_once_replay :
    let pay : Payment :=
      { workspaceId := 1, provider := "zarinpal", currency := "IRR", amountMinor := 1100
        netMinor := 1000, taxMinor := 100, amount_check := by decide }
    let calls : List (Timestamp × Operation) :=
      [(0, .createPayment pay), (1, .recordVerification 0 (some 1100) (some "IRR") (some "ref")),
       (2, .settlePayment 0)]
    let db := run Db.step .empty calls
    ∃ r, settlePayment 3 0 db = .ok r ∧ r.2.CreditedOnce 0 := by
  intro pay calls db
  have h : settlePayment 3 0 db = .ok (.replayed (some 1), db) := by decide +kernel
  exact ⟨_, h, (settled_exactly_once calls).2.1 3 0 _ h⟩

end Kindred.Billing
