import Kindred.Billing.Run
import Kindred.AiWallet.Effects

/-! Every call is a sequence of single writes: what each write can do is said
once, and what every write keeps is kept by every call. -/

namespace Kindred.Billing
open AiWallet (Wallet)
open Lib (Table)
open Lib.Tx
open Relation (ReflTransGen)

/-- What a billing function does to the AI wallet. -/
inductive WalletStatement (w : Wallet) : Wallet → Prop where
  | locked (workspaceId : Id) : WalletStatement w (w.lock workspaceId)
  | superseded {workspaceId : Id} {r : Unit × Wallet}
      (h : retireCalendarLots workspaceId w = .ok r) : WalletStatement w r.2
  | granted {now : Timestamp} {workspaceId : Id} {amount : Option Int}
      {cycle source : Option String} {expiresAt : Option Timestamp} {key : Option String}
      {r : Id × Wallet}
      (h : AiWallet.aiGrantAllowance now workspaceId amount cycle source expiresAt key w = .ok r) :
      WalletStatement w r.2
  | purchased {now : Timestamp} {workspaceId : Id} {amount : Option Int}
      {key reason : Option String} {r : Id × Wallet}
      (h : AiWallet.aiPurchaseCredit now workspaceId amount key reason w = .ok r) :
      WalletStatement w r.2
  | reclaimed {workspaceId lotId : Id} {amount : Int} {key : String} {r : Unit × Wallet}
      (hlot : (w.lots.get lotId).isSome) (hpos : 0 < amount)
      (h : reclaimCredit workspaceId lotId amount key w = .ok r) : WalletStatement w r.2

structure Account.SameCard (a a' : Account) : Prop where
  provider : a'.cardProvider = a.cardProvider
  subscriptionId : a'.cardSubscriptionId = a.cardSubscriptionId
  autoRenew : a'.autoRenew = a.autoRenew

def Account.withCard (a : Account) (card : Card) : Account :=
  { a with
    cardProvider := some card.provider, cardSubscriptionId := some card.subscriptionId
    autoRenew := true }

structure Card.Moves (c c' : Card) : Prop where
  workspaceId : c'.workspaceId = c.workspaceId
  provider : c'.provider = c.provider
  subscriptionId : c'.subscriptionId = c.subscriptionId
  canceled : c.status ≠ .canceled
  canceling : c.status = .canceling → c'.status = .canceled

inductive Db.ReturnsPack (db : Db) (row : LedgerRow) : Prop where
  | intro {key : Key} {pack : LedgerRow} {wallet reclaim : Int} {refundId provider : String}
      (hpack : db.ledger.get key = some pack) (hkind : pack.kind = .aiPack)
      (hws : pack.workspaceId = row.workspaceId) (hwallet : pack.description.wallet = some wallet)
      (hrow : row.description = .packReturn pack.id refundId provider reclaim)
      (hpos : 0 < row.amountMinor)
      (hprice : db.packReturned row.workspaceId pack.id + row.amountMinor ≤ -pack.amountMinor)
      (hworth : row.amountMinor * (wallet * rial) ≤ reclaim * -pack.amountMinor)

structure Db.Posts (db : Db) (row : LedgerRow) : Prop where
  id : row.id = db.nextId
  kind : row.kind ≠ .topup
  sold : row.kind = .aiPack → row.amountMinor < 0
  returned : row.kind = .aiPackReturn → db.ReturnsPack row

inductive Right where
  | refund | autoRenew | reversal

def Key.ofReturn : Key → Bool
  | prepaidReturnRefund _ => true
  | aiPackReturnRefund _ => true
  | _ => false

/-- A write that no payment shows. -/
inductive MoneyStatement (may : Right → Prop) (db : Db) : Db → Prop where
  | drawn : MoneyStatement may db db.drawn
  | account {ws : Id} {acc acc' : Account} (hacc : db.accounts.get ws = some acc)
      (hsame : acc.SameCard acc') :
      MoneyStatement may db { db with accounts := db.accounts.put ws acc' }
  | opened {ws : Id} {currency : String} (hnew : db.accounts.get ws = none) :
      MoneyStatement may db { db with accounts := db.accounts.put ws { currency } }
  | subscriptions (subscriptions : Table Id Subscription) (planChangeLog : List PlanChange) :
      MoneyStatement may db { db with subscriptions, planChangeLog }
  | duplicate (card : Card) (hstatus : card.status = .canceling)
      (hnew : db.findCard card.provider card.subscriptionId = none) :
      MoneyStatement may db { db.drawn with cards := db.cards.put db.nextId card }
  | saved (card : Card) {acc : Account} (hstatus : card.status = .active)
      (hnew : db.findCard card.provider card.subscriptionId = none)
      (hfree : db.liveCard card.workspaceId = none)
      (hacc : db.accounts.get card.workspaceId = some acc) :
      MoneyStatement may db { db.drawn with
        cards := db.cards.put db.nextId card
        accounts := db.accounts.put card.workspaceId (acc.withCard card) }
  | moved {cardId : Id} {card : Card} (card' : Card) (hcard : db.cards.get cardId = some card)
      (h : card.Moves card') :
      MoneyStatement may db { db with
        cards := db.cards.put cardId card'
        accounts := if card'.status.ended then db.accounts.update card.workspaceId (·.dropCard card)
          else db.accounts }
  | wallet {w : Wallet} (h : WalletStatement db.wallet w) :
      MoneyStatement may db { db with wallet := w }
  | posted {key : Key} {row : LedgerRow} (hnew : db.ledger.get key = none) (hrow : db.Posts row)
      (hmay : key.ofReturn → may .reversal) :
      MoneyStatement may db { db.drawn with ledger := db.ledger.put key row }

structure Payment.Same (p p' : Payment) : Prop where
  workspaceId : p'.workspaceId = p.workspaceId
  provider : p'.provider = p.provider
  amountMinor : p'.amountMinor = p.amountMinor
  netMinor : p'.netMinor = p.netMinor
  refundedMinor : p'.refundedMinor = p.refundedMinor
  status : p'.status = p.status
  providerPaymentId : p'.providerPaymentId = p.providerPaymentId
  verifiedAt : p'.verifiedAt = p.verifiedAt
  refunds : p'.purposeDetail.refunds = p.purposeDetail.refunds

structure Payment.Opened (p : Payment) : Prop where
  status : p.status = .pending
  purposeResult : p.purposeResult = none
  providerPaymentId : p.providerPaymentId = none
  verifiedAt : p.verifiedAt = none
  refundedMinor : p.refundedMinor = 0
  refunds : p.purposeDetail.refunds = .empty

def Db.Bought (db : Db) (p : Payment) : Prop :=
  ∀ packLedgerId, p.purposeResult = some (.pack packLedgerId) →
    ∃ key row, db.ledger.get key = some row ∧ row.id = packLedgerId ∧
      row.workspaceId = p.workspaceId ∧ row.kind = .aiPack

def Payment.verified (p : Payment) (reference : Option String) (amount : Option Int)
    (now : Timestamp) : Payment :=
  { p with providerPaymentId := reference, verifiedAmountMinor := amount, verifiedAt := some now }

def Payment.succeeded (p : Payment) (ledgerId : Id) : Payment :=
  { p with status := .succeeded, ledgerId := some ledgerId }

/-- A single write, of a call that may make those of `may`. -/
inductive Statement (may : Right → Prop) (db : Db) : Db → Prop where
  | money {db' : Db} (h : MoneyStatement may db db') : Statement may db db'
  | edited (plans : Table Id Plan) (settings : Settings) (subscriptions : Table Id Subscription) :
      Statement may db { db with plans, settings, subscriptions }
  | opened {pay : Payment} (h : pay.Opened) :
      Statement may db { db.drawn with payments := db.payments.put db.nextId pay }
  | noted {id : Id} {pay pay' : Payment} (hpay : db.payments.get id = some pay)
      (h : pay.Same pay') (hpack : pay'.purposeResult = pay.purposeResult ∨ db.Bought pay') :
      Statement may db { db with payments := db.payments.put id pay' }
  | ended {id : Id} {pay : Payment} {status : PaymentStatus} (hpay : db.payments.get id = some pay)
      (hpending : pay.status = .pending) (hstatus : status ≠ .succeeded) :
      Statement may db { db with payments := db.payments.put id { pay with status } }
  | verified {id : Id} {pay : Payment} {reference : Option String} {amount : Option Int}
      {now : Timestamp} (hpay : db.payments.get id = some pay) (hnone : pay.verifiedAt = none)
      (hreference : reference.isSome)
      (hunique : ∀ id' other, db.payments.get id' = some other → id' ≠ id →
        other.provider = pay.provider → other.providerPaymentId ≠ reference) :
      Statement may db { db with payments := db.payments.put id (pay.verified reference amount now) }
  | credited {id : Id} {pay : Payment} {row : LedgerRow} (hpay : db.payments.get id = some pay)
      (hverified : pay.verifiedAt.isSome) (hnew : db.ledger.get (.payment id) = none)
      (hkind : row.kind = .topup) (hid : row.paymentId = some id)
      (hws : row.workspaceId = pay.workspaceId) (hamount : row.amountMinor = pay.netMinor)
      (hrow : row.id = db.nextId) :
      Statement may db { db.drawn with ledger := db.ledger.put (.payment id) row }
  | succeeded {id : Id} {pay : Payment} {row : LedgerRow} (hpay : db.payments.get id = some pay)
      (hrow : db.ledger.get (.payment id) = some row) (hkind : row.kind = .topup) :
      Statement may db { db with payments := db.payments.put id (pay.succeeded row.id) }
  | refunded {id : Id} {pay : Payment} {refundId : String} {record : RefundRecord}
      (hmay : may .refund) (hpay : db.payments.get id = some pay)
      (hnew : pay.purposeDetail.refunds.get refundId = none) (hcredit : 0 < record.creditMinor)
      (hleft : record.creditMinor ≤ pay.netMinor - pay.refundedMinor) :
      Statement may db { db with payments := db.payments.put id (pay.recordRefund refundId record) }
  | renewal {ws : Id} {acc : Account} (on : Bool) (hmay : on → may .autoRenew)
      (hacc : db.accounts.get ws = some acc) :
      Statement may db { db with accounts := db.accounts.put ws { acc with autoRenew := on } }

variable {now : Timestamp} {ws : Id} {may : Right → Prop} {db : Db} {acc acc' : Account}
  {prepaid : Option Int} {start : Option Timestamp} {sub : PaidSubscription} {actor : Option Id}
  {planId : Id} {amount : Option Int} {key : String} {paymentId : Id} {pay : Payment}
  {expected : Option Int} {most : Option Int} {refundId provider : String}
  {currency : Option String} {f : Payment → Payment} {credit : Int} {may' : Right → Prop} {db' : Db}
  {α : Type} {row : Id → LedgerRow} {interval : Option Interval} {price : Int}
  {card : Option (Id × Card)} {packId : Option String} {wallet : Option Int}
  {result : PurposeResult} {r : PurposeResult × Db} {subscriptionId : String}
  {txnId : Option String}

theorem MoneyStatement.mono (h : MoneyStatement may db db') (hmay : ∀ r, may r → may' r) :
    MoneyStatement may' db db' := by
  cases h with
  | drawn => exact .drawn
  | account hacc hsame => exact .account hacc hsame
  | opened hnew => exact .opened hnew
  | subscriptions subscriptions log => exact .subscriptions subscriptions log
  | duplicate card hstatus hnew => exact .duplicate card hstatus hnew
  | saved card hstatus hnew hfree hacc => exact .saved card hstatus hnew hfree hacc
  | moved card' hcard h => exact .moved card' hcard h
  | wallet h => exact .wallet h
  | posted hnew hrow h => exact .posted hnew hrow fun hkey => hmay _ (h hkey)

theorem Statement.mono (h : Statement may db db') (hmay : ∀ r, may r → may' r) :
    Statement may' db db' := by
  cases h with
  | money h => exact .money (h.mono hmay)
  | edited plans settings subscriptions => exact .edited plans settings subscriptions
  | opened hpay => exact .opened hpay
  | noted hpay h hpack => exact .noted hpay h hpack
  | ended hpay hpending hstatus => exact .ended hpay hpending hstatus
  | verified hpay hnone hreference hunique => exact .verified hpay hnone hreference hunique
  | credited hpay hverified hnew hkind hid hws hamount hrow =>
    exact .credited hpay hverified hnew hkind hid hws hamount hrow
  | succeeded hpay hrow hkind => exact .succeeded hpay hrow hkind
  | refunded h hpay hnew hcredit hleft => exact .refunded (hmay _ h) hpay hnew hcredit hleft
  | renewal on h hacc => exact .renewal on (fun hon => hmay _ (h hon)) hacc

abbrev MoneyTx (may : Right → Prop) {α : Type} (m : BillingTx α) (db : Db) : Prop :=
  MadeOf (MoneyStatement may) m db

theorem onWallet_made {m : AiWallet.WalletTx α} (h : MadeOf WalletStatement m db.wallet) :
    MoneyTx may (onWallet m) db := by
  intro r hr
  obtain ⟨w, hw, hdb⟩ := onWallet_ok hr
  have hlift : ∀ w', ReflTransGen WalletStatement db.wallet w' →
      ReflTransGen (MoneyStatement may) db { db with wallet := w' } := by
    intro w' hrun
    induction hrun with
    | refl => exact .refl
    | tail _ hstep ih => exact ih.tail (.wallet hstep)
  rw [hdb]
  exact hlift w (h _ hw)

theorem randomUuid_made : MoneyTx may randomUuid db := by
  intro r h
  rw [show randomUuid db = .ok (db.nextId, db.drawn) from rfl] at h
  cases h
  exact .single .drawn

theorem readAccount_made : MoneyTx may (readAccount ws) db := by
  refine .get_bind ?_
  split
  · exact .throw _
  · exact .pure _

theorem updateAccount_made {f : Account → Option Account}
    (hf : ∀ acc acc', f acc = some acc' → acc.SameCard acc') : MoneyTx may (updateAccount ws f) db := by
  refine .get_bind ?_
  split
  · exact .pure _
  · rename_i acc hacc
    split
    · exact .throw _
    · rename_i acc' hacc'
      exact .set (.single (.account hacc (hf acc acc' hacc')))

theorem sameCard_some {f : Account → Account} (hf : ∀ acc : Account, acc.SameCard (f acc))
    (acc acc' : Account) (h : some (f acc) = some acc') : acc.SameCard acc' := by
  cases h
  exact hf acc

theorem withBalance_sameCard {balance : Int} (h : acc.withBalance balance = some acc') :
    acc.SameCard acc' := by
  unfold Account.withBalance at h
  split at h
  · cases h
    exact ⟨rfl, rfl, rfl⟩
  · cases h

theorem withPrepaid_sameCard (h : acc.withPrepaid prepaid start = some acc') :
    acc.SameCard acc' := by
  unfold Account.withPrepaid at h
  split at h
  · cases h
    exact ⟨rfl, rfl, rfl⟩
  · cases h

theorem clearNext_sameCard : ∀ acc acc', some (Account.clearNext acc) = some acc' →
    acc.SameCard acc' :=
  sameCard_some fun _ => ⟨rfl, rfl, rfl⟩

theorem inCurrency_sameCard (currency : String) : ∀ acc acc',
    some (Account.inCurrency acc currency) = some acc' → acc.SameCard acc' :=
  sameCard_some fun _ => ⟨rfl, rfl, rfl⟩

theorem reprice_sameCard {next : Option Int} (h : acc.reprice next = some acc') :
    acc.SameCard acc' := by
  unfold Account.reprice at h
  split at h
  · obtain ⟨a, ha, rfl⟩ := Option.map_eq_some_iff.mp h
    obtain ⟨hprovider, hsubscription, hrenew⟩ := withPrepaid_sameCard ha
    exact ⟨hprovider, hsubscription, hrenew⟩
  · cases h
    exact ⟨rfl, rfl, rfl⟩

theorem schedule_sameCard {planId : Option Id} {interval : Interval}
    (h : acc.schedule sub planId interval prepaid start = some acc') : acc.SameCard acc' := by
  obtain ⟨a, ha, rfl⟩ := Option.map_eq_some_iff.mp h
  obtain ⟨hprovider, hsubscription, hrenew⟩ := withPrepaid_sameCard ha
  exact ⟨hprovider, hsubscription, hrenew⟩

theorem withoutPrepaid_sameCard : ∀ acc acc', some (Account.withoutPrepaid acc) = some acc' →
    acc.SameCard acc' :=
  sameCard_some fun _ => ⟨rfl, rfl, rfl⟩

theorem insertLedger_made {key : Key} (hrow : db.Posts (row db.nextId))
    (hkey : key.ofReturn → may .reversal) : MoneyTx may (insertLedger key row) db := by
  intro r h
  obtain ⟨hnew, -, hdb⟩ := insertLedger_ok h
  rw [hdb]
  exact .single (.posted hnew hrow hkey)

theorem ensure_made {currency : String} : MoneyTx may (ensure ws currency) db := by
  refine .require_bind fun _ => .modify ?_
  split
  · exact .refl
  · rename_i hnone
    exact .single (.opened (Option.not_isSome_iff_eq_none.mp hnone))

theorem lock_made : MoneyTx may (lock ws) db := by
  exact .get_bind (ensure_made.bind fun _ _ => readAccount_made)

theorem lock_reads {r : Account × Db} (h : lock ws db = .ok r) :
    r.2.accounts.get ws = some r.1 := by
  unfold lock at h
  rw [get_bind] at h
  obtain ⟨_, db₁, -, h⟩ := bind_ok.mp h
  obtain ⟨hacc, hdb⟩ := readAccount_ok.mp h
  rwa [hdb]

theorem debit_made {amount : Int} {charge : Charge} {key : Key}
    (hkind : charge.kind ≠ .topup ∧ charge.kind ≠ .aiPackReturn) (hkey : key.ofReturn = false) :
    MoneyTx may (debit now ws amount charge key) db := by
  refine .get_bind ?_
  split
  · exact .require_bind fun _ => .pure _
  · refine .require_bind fun _ => readAccount_made.bind fun _ _ => .require_bind fun _ => ?_
    refine MadeOf.bind (insertLedger_made ⟨rfl, hkind.1, fun _ => ?_, fun h => absurd h hkind.2⟩
      (by simp [hkey])) fun _ _ => ?_
    · simp only [Left.neg_neg_iff]
      assumption
    exact (updateAccount_made fun _ _ => withBalance_sameCard).bind fun _ _ => .pure _

theorem creditBack_made {amount : Int} {key : Key} (hkey : key.ofReturn → may .reversal) :
    MoneyTx may (creditBack now ws amount actor key) db := by
  refine .get_bind ?_
  split
  · exact .require
  · refine .ite (fun _ => readAccount_made.bind fun _ _ => ?_) fun _ => .pure _
    exact MadeOf.bind (insertLedger_made ⟨rfl, by simp, by simp, by simp⟩ hkey) fun _ _ =>
      updateAccount_made fun _ _ => withBalance_sameCard

theorem adminReplaced_made : MoneyTx may (adminReplaced now ws) db := by
  refine .get_bind ?_
  split
  · exact .pure _
  · split
    · exact (updateAccount_made clearNext_sameCard).bind fun _ _ => .pure _
    · refine randomUuid_made.bind fun _ _ => (creditBack_made (fun h => by cases h)).bind fun _ _ => ?_
      exact (updateAccount_made clearNext_sameCard).bind fun _ _ => .pure _

theorem releaseStale_made : MoneyTx may (releaseStalePrepaid now ws) db := by
  refine .get_bind ?_
  split
  · exact .pure _
  · split
    · exact .pure _
    · refine .ite (fun _ => .pure _) fun _ => randomUuid_made.bind fun _ _ => ?_
      exact (creditBack_made (fun h => by cases h)).bind fun _ _ =>
        (updateAccount_made withoutPrepaid_sameCard).bind fun _ _ => .pure _

variable {stop : Timestamp} {cardId packLedgerId : Id} {reason : DueReason} {returned unused : Int}
  {m : BillingTx α}

theorem writeSubscription_made {status : SubscriptionStatus} {changeType : ChangeType}
    {details : ChangeDetails} :
    MoneyTx may (writeSubscription ws planId interval start stop status changeType actor details) db :=
  .modify (.single (.subscriptions _ _))

theorem grantMonth_made {source : String} :
    MoneyTx may (grantMonth now ws planId start stop source amount) db := by
  cases start with
  | none => exact .pure _
  | some start =>
    refine .ite (fun _ => .pure _) fun _ => .get_bind (.ite (fun _ => .pure _) fun _ => ?_)
    refine .ite (fun _ => .pure _) fun _ => (onWallet_made ?_).bind fun _ _ => .pure _
    have hgrant : ∀ {w : Wallet} {amount cycle source expires key},
        MadeOf WalletStatement
          (AiWallet.aiGrantAllowance now ws amount cycle source expires key) w :=
      fun _ h => .single (.granted h)
    refine .ite (fun _ => ?_) fun _ => hgrant.bind fun _ _ => .pure _
    exact MadeOf.bind (fun _ h => .single (.superseded h)) fun _ _ => hgrant.bind fun _ _ => .pure _

theorem parseInterval_made {text : Option String} : MoneyTx may (parseInterval text) db := by
  unfold parseInterval
  split
  · exact .pure _
  · split
    · exact .throw _
    · exact .pure _

theorem applyRenewal_made {start : Timestamp} {row : LedgerRow} :
    MoneyTx may (applyRenewal now ws actor acc sub start price row) db := by
  refine .ite (fun _ => ?_) fun _ => ?_
  · exact (updateAccount_made fun _ _ => withPrepaid_sameCard).bind fun _ _ => .pure _
  · refine (updateAccount_made clearNext_sameCard).bind fun _ _ => writeSubscription_made.bind fun _ _ => ?_
    exact grantMonth_made.bind fun _ _ => .pure _

theorem renew_made {expectedEnd : Option Timestamp} {expectedPrice override : Option Int} :
    MoneyTx may (renew now ws actor expectedEnd expectedPrice override) db := by
  refine lock_made.bind fun _ _ => releaseStale_made.bind fun _ _ => ?_
  refine readAccount_made.bind fun _ _ => .get_bind ?_
  split
  · exact .throw _
  · refine .require_bind fun _ => .require_bind fun _ => .require_bind fun _ => ?_
    split
    · exact .throw _
    · refine .require_bind fun _ => .require_bind fun _ => ?_
      refine randomUuid_made.bind fun _ _ => ?_
      exact (debit_made (by simp) rfl).bind fun _ _ => applyRenewal_made

theorem cardSetStatus_made {status : CardStatus} {reason : Option CancelReason} :
    MoneyTx may (cardSetStatus cardId status reason) db := by
  intro r h
  unfold cardSetStatus at h
  rw [get_bind] at h
  cases hcard : db.cards.get cardId with
  | none =>
    simp only [hcard] at h
    exact (throw_ok.mp h).elim
  | some card =>
    simp only [hcard] at h
    rcases ite_ok.mp h with ⟨-, h⟩ | ⟨hmove, h⟩
    · rw [pure_ok.mp h]
    · obtain ⟨hlive, h⟩ := require_bind_ok.mp h
      obtain ⟨-, h⟩ := require_bind_ok.mp h
      rw [set_bind] at h
      let card' : Card := { card with
        status, cancelReason := if status.ended then card.cancelReason.or reason
                                else card.cancelReason }
      have hdb : r.2 = { db with
          cards := db.cards.put cardId card'
          accounts := if status.ended then db.accounts.update card.workspaceId (·.dropCard card)
            else db.accounts } := by
        unfold Table.update
        rcases ite_ok.mp h with ⟨hended, h⟩ | ⟨hended, h⟩
        · obtain ⟨_, _, hup, h⟩ := bind_ok.mp h
          cases pure_ok.mp h
          rw [if_pos hended]
          rcases updateAccount_ok hup with ⟨hnone, hdb⟩ | ⟨acc, acc', hacc, hf, hdb⟩
          · simp only at hnone hdb
            rw [hdb, hnone]
          · cases hf
            rw [hdb, hacc]
        · rw [pure_ok.mp h]
          simp only [card', hended, Bool.false_eq_true, if_false]
      rw [hdb]
      simp only [not_or] at hmove
      refine .single (.moved card' hcard ⟨rfl, rfl, rfl, hmove.2, fun hc => ?_⟩)
      have hnot : ¬status.live := fun hl => hlive ⟨hc, hl⟩
      have hne : status ≠ .canceling := fun he => hmove.1 (hc.trans he.symm)
      show status = .canceled
      cases status with
      | active | pastDue => exact absurd rfl hnot
      | canceling => exact absurd rfl hne
      | canceled => rfl

theorem startPrepaid_made {prepaid : Int} :
    MoneyTx may (startPrepaid now ws acc sub prepaid) db := by
  refine (updateAccount_made clearNext_sameCard).bind fun _ _ => writeSubscription_made.bind fun _ _ => ?_
  exact grantMonth_made.bind fun _ _ => .pure _

theorem stopCard_made : MoneyTx may (stopCard reason card) db := by
  cases card with
  | none => exact .pure _
  | some card => exact cardSetStatus_made.bind fun _ _ => .pure _

theorem returnAtDue_made : MoneyTx may (returnAtDue now ws prepaid) db := by
  cases prepaid with
  | none => exact .pure _
  | some prepaid => exact randomUuid_made.bind fun _ _ => creditBack_made (fun h => by cases h)

theorem expire_made : MoneyTx may (expire now ws acc sub card reason) db := by
  refine stopCard_made.bind fun _ _ => returnAtDue_made.bind fun _ _ => ?_
  exact (updateAccount_made clearNext_sameCard).bind fun _ _ => writeSubscription_made.bind fun _ _ => .pure _

theorem processDue_made : MoneyTx may (processDue now ws) db := by
  refine lock_made.bind fun _ _ => .get_bind ?_
  split
  · exact .pure _
  · unfold processDuePeriod
    refine releaseStale_made.bind fun _ _ => readAccount_made.bind fun _ _ => .get_bind ?_
    simp only
    split
    · exact startPrepaid_made
    · exact renew_made.bind fun _ _ => .pure _
    · exact expire_made

theorem buyPlan_made : MoneyTx may (buyPlan now ws planId interval key actor) db := by
  refine releaseStale_made.bind fun _ _ => readAccount_made.bind fun _ _ => .get_bind ?_
  refine .require_bind fun _ => ?_
  split
  · exact .throw _
  · refine .require_bind fun _ => (debit_made (by simp) rfl).bind fun _ _ => ?_
    refine (updateAccount_made clearNext_sameCard).bind fun _ _ => writeSubscription_made.bind fun _ _ => ?_
    exact grantMonth_made.bind fun _ _ => .pure _

theorem purchasePlan_made {interval : Option String} :
    MoneyTx may (purchasePlan now ws planId interval key actor) db := by
  refine parseInterval_made.bind fun _ _ => .get_bind ?_
  split
  · exact .pure _
  · refine lock_made.bind fun _ _ => .get_bind (.ite (fun _ => ?_) fun _ => ?_)
    · exact processDue_made.bind fun _ _ => .get_bind (.require_bind fun _ => buyPlan_made)
    · exact .get_bind (.require_bind fun _ => buyPlan_made)

theorem startStamp_made (sub : PaidSubscription) : MoneyTx may sub.startStamp db := by
  unfold PaidSubscription.startStamp
  split
  · exact .throw _
  · exact .pure _

theorem applyUpgrade_made {cost : UpgradeCost} :
    MoneyTx may (applyUpgrade now ws planId actor acc sub cost) db := by
  have hreturn : ∀ {db : Db} {reprice : Int},
      MoneyTx may (returnReprice now ws planId actor sub reprice) db := fun {_ _} =>
    .ite (fun _ => (startStamp_made sub).bind fun _ _ => randomUuid_made.bind fun _ _ =>
      creditBack_made (fun h => by cases h)) fun _ => .pure _
  have hdebit : ∀ {db : Db} {cost : Int},
      MoneyTx may (debitUpgrade now ws planId actor sub cost) db := fun {_ _} =>
    .ite (fun _ => (startStamp_made sub).bind fun _ _ => (debit_made (by simp) rfl).bind fun _ _ =>
      .pure _) fun _ => .pure _
  have hraise : ∀ {db : Db} {reprice : Int},
      MoneyTx may (debitReprice now ws planId actor acc sub reprice) db := fun {_ _} =>
    .ite (fun _ => (startStamp_made sub).bind fun _ _ => randomUuid_made.bind fun _ _ =>
      (debit_made (by simp) rfl).bind fun _ _ => .pure _) fun _ => .pure _
  refine grantMonth_made.bind fun _ _ => hreturn.bind fun _ _ => hdebit.bind fun _ _ => ?_
  refine hraise.bind fun _ _ => (updateAccount_made fun _ _ => reprice_sameCard).bind fun _ _ => ?_
  refine writeSubscription_made.bind fun _ _ => .get_bind (.ite (fun _ => ?_) fun _ => ?_)
  · exact grantMonth_made.bind fun _ _ => readAccount_made.bind fun _ _ => .pure _
  · exact readAccount_made.bind fun _ _ => .pure _

theorem upgrade_made : MoneyTx may (upgrade now ws planId actor) db := by
  refine lock_made.bind fun _ _ => releaseStale_made.bind fun _ _ => ?_
  refine readAccount_made.bind fun _ _ => .get_bind ?_
  split
  · exact .throw _
  · refine .require_bind fun _ => .ite (fun _ => .pure _) fun _ => .require_bind fun _ => ?_
    split
    · exact applyUpgrade_made
    · exact .throw _

theorem repriceChange_made {planId : Option Id} {interval : Interval} {newPrice : Option Int} :
    MoneyTx may (repriceChange now ws planId interval actor sub newPrice prepaid) db := by
  cases prepaid with
  | none => exact .pure _
  | some prepaid =>
    refine randomUuid_made.bind fun _ _ => .ite (fun _ => ?_) fun _ => .ite (fun _ => ?_) fun _ => ?_
    · exact (creditBack_made (fun h => by cases h)).bind fun _ _ => .pure _
    · exact (debit_made (by simp) rfl).bind fun _ _ => .pure _
    · exact .pure _

theorem scheduleChange_made {planId : Option Id} {interval : Option String} :
    MoneyTx may (scheduleChange now ws planId interval actor) db := by
  refine lock_made.bind fun _ _ => releaseStale_made.bind fun _ _ => ?_
  refine readAccount_made.bind fun _ _ => .get_bind ?_
  split
  · exact .throw _
  · refine .require_bind fun _ => .require_bind fun _ => ?_
    split
    · exact .throw _
    · refine .require_bind fun _ => ?_
      refine repriceChange_made.bind fun _ _ =>
        (updateAccount_made fun _ _ => schedule_sameCard).bind fun _ _ => ?_
      refine readAccount_made.bind fun _ _ => MadeOf.bind ?_ fun _ _ => .pure _
      exact .modify (.single (.subscriptions _ _))

theorem cardApplyRenewal_made : MoneyTx may (cardApplyRenewal now paymentId pay) db := by
  refine .get_bind ?_
  split
  · exact .pure _
  · refine readAccount_made.bind fun _ _ => ?_
    split
    · split
      · exact .pure _
      · refine .ite (fun _ => ?_) fun _ => .pure _
        refine .get_bind ?_
        split
        · exact .pure _
        · refine .ite (fun _ => .pure _) fun _ => .ite (fun _ => .pure _) fun _ => ?_
          exact purchasePlan_made.bind fun _ _ => .pure _
    · refine .ite (fun _ => .pure _) fun _ => .ite (fun _ => .pure _) fun _ => ?_
      refine .ite (fun _ => .pure _) fun _ => ?_
      refine .get_bind (.ite (fun _ => .pure _) fun _ => ?_)
      split
      · exact .pure _
      · refine .ite (fun _ => .pure _) fun _ => ?_
        split
        · exact .pure _
        · exact renew_made.bind fun _ _ => .pure _

theorem buyAiPack_made : MoneyTx may (buyAiPack now ws packId expected key actor) db := by
  refine .require_bind fun _ => lock_made.bind fun _ _ => .get_bind ?_
  split
  · exact .require_bind fun _ => .pure _
  · split
    · exact .throw _
    · refine .require_bind fun _ => ?_
      split
      · exact .throw _
      · refine .require_bind fun _ => .require_bind fun _ => ?_
        refine (debit_made (by simp) rfl).bind fun _ _ => (onWallet_made ?_).bind fun _ _ => .pure _
        exact fun _ h => .single (.purchased h)

theorem reclaimed_pos (hback : 0 < packReturn most price returned unused wallet) :
    0 < reclaimed unused (packReturn most price returned unused wallet) (wallet.getD 0) price := by
  cases wallet with
  | none => simp [packReturn] at hback
  | some wallet =>
    simp only [packReturn, Option.getD_some] at hback ⊢
    split at hback
    · omega
    · rename_i hsane
      rw [if_neg hsane]
      simp only [not_or, not_le] at hsane
      obtain ⟨hwallet, hprice⟩ := hsane
      generalize hb : min (min (max (most.getD 0) 0) (price - returned))
        (price * unused / (wallet * rial)) = back at hback ⊢
      have hshare : 0 < price * unused / (wallet * rial) := by omega
      have hrial : 0 < wallet * rial := Int.mul_pos hwallet (by decide)
      have hunused : 0 < unused := by
        by_contra hle
        have : price * unused ≤ 0 := Int.mul_nonpos_of_nonneg_of_nonpos hprice.le (by omega)
        have hle := Int.ediv_le_ediv hrial this
        rw [Int.zero_ediv] at hle
        omega
      have hceil : 0 < -(-(back * wallet) / price) := by
        have hneg : -(back * wallet) < 0 := by
          have := Int.mul_pos hback hwallet
          omega
        have := Int.ediv_neg_of_neg_of_pos hneg hprice
        omega
      have := Int.mul_pos hceil (show 0 < rial by decide)
      unfold reclaimed
      omega

theorem packReturn_worth (hback : 0 < packReturn most price returned unused wallet) :
    ∃ w, wallet = some w ∧ returned + packReturn most price returned unused wallet ≤ price ∧
      packReturn most price returned unused wallet * (w * rial) ≤
        reclaimed unused (packReturn most price returned unused wallet) (wallet.getD 0) price *
          price := by
  cases wallet with
  | none => simp [packReturn] at hback
  | some w =>
    refine ⟨w, rfl, ?_⟩
    simp only [packReturn, Option.getD_some] at hback ⊢
    split at hback
    · omega
    rename_i hsane
    rw [if_neg hsane]
    simp only [not_or, not_le] at hsane
    obtain ⟨hwallet, hprice⟩ := hsane
    generalize hb : min (min (max (most.getD 0) 0) (price - returned))
      (price * unused / (w * rial)) = back at hback ⊢
    have hrial : 0 < w * rial := Int.mul_pos hwallet (by decide)
    have hunused : back * (w * rial) ≤ unused * price := calc
      back * (w * rial) ≤ price * unused / (w * rial) * (w * rial) :=
        Int.mul_le_mul_of_nonneg_right (by omega) hrial.le
      _ ≤ price * unused := Int.ediv_mul_le _ hrial.ne'
      _ = unused * price := Int.mul_comm ..
    have hceil : back * (w * rial) ≤ -(-(back * w) / price) * rial * price := calc
      back * (w * rial) = back * w * rial := (Int.mul_assoc ..).symm
      _ ≤ -(-(back * w) / price) * price * rial := by
        have := Int.ediv_mul_le (-(back * w)) hprice.ne'
        refine Int.mul_le_mul_of_nonneg_right ?_ (by decide)
        rw [Int.neg_mul]
        omega
      _ = -(-(back * w) / price) * rial * price := Int.mul_right_comm ..
    refine ⟨by omega, ?_⟩
    unfold reclaimed
    rcases min_choice unused (-(-(back * w) / price) * rial) with hmin | hmin <;> rw [hmin]
    · exact hunused
    · exact hceil

theorem aiPackReverse_made {pack : Id} {key : Key} (hkey : key.ofReturn → may .reversal) :
    MoneyTx may (aiPackReverse now ws pack most key refundId provider) db := by
  have hlock : ∀ {db : Db}, MoneyTx may (onWallet (modify (·.lock ws))) db := fun {_} =>
    onWallet_made (.modify (.single (.locked ws)))
  refine .require_bind fun _ => .get_bind ?_
  split
  · exact .require_bind fun _ => .pure _
  · split
    · rename_i acc packKey row hacc hfind
      refine hlock.bind fun r hr => ?_
      have hwallet : ∃ w, r.2 = { db with wallet := w } ∧ w.lots = db.wallet.lots := by
        obtain ⟨w, hw, hdb⟩ := onWallet_ok hr
        obtain ⟨wallets, hlock⟩ := AiWallet.lock_eq db.wallet ws
        refine ⟨w, hdb, ?_⟩
        rw [show w = _ from congrArg Prod.snd (modify_ok.mp hw), hlock]
      obtain ⟨w, hdb, hlots⟩ := hwallet
      simp only
      split
      · exact .pure _
      · rename_i lotId lot hlot
        refine .ite (fun _ => .pure _) fun hback => ?_
        obtain ⟨id, -, hlot⟩ := Option.bind_eq_some_iff.mp hlot
        obtain ⟨l, hl, heq⟩ := Option.map_eq_some_iff.mp hlot
        cases heq
        have hget : (r.2.wallet.lots.get lotId).isSome := by
          rw [hdb, hlots, (Option.filter_eq_some_iff.mp hl).1]
          rfl
        have hpack := Table.get_eq_some_iff_mem.mpr (List.mem_of_find?_eq_some hfind)
        have hrow := List.find?_some hfind
        simp only [decide_eq_true_eq] at hrow
        obtain ⟨walletAmount, hamount, hprice, hworth⟩ := packReturn_worth (not_le.mp hback)
        refine (onWallet_made fun _ h => .single (.reclaimed hget ?_ h)).bind fun r' hr' => ?_
        · exact reclaimed_pos (not_le.mp hback)
        · obtain ⟨w', -, hdb'⟩ := onWallet_ok hr'
          have hledger : r'.2.ledger = db.ledger := by rw [hdb', hdb]
          refine MadeOf.bind (insertLedger_made ⟨rfl, by simp, by simp, fun _ => ?_⟩ hkey)
            fun _ _ => ?_
          · have hold : r'.2.ledger.get packKey = some row := by
              rw [hledger]
              exact hpack
            refine .intro hold hrow.2.2 hrow.2.1 hamount rfl (not_le.mp hback) ?_ hworth
            unfold Db.packReturned at hprice ⊢
            rw [hledger]
            exact hprice
          · exact (updateAccount_made fun _ _ => withBalance_sameCard).bind fun _ _ => .pure _
    · exact .throw _

theorem adminAdjust_made {reason : Option String} {commandKey category : Option String} :
    MoneyTx may (adminAdjust now ws amount currency reason actor commandKey category expected) db := by
  refine .require_bind fun _ => .require_bind fun _ => .require_bind fun _ => ?_
  refine .require_bind fun _ => .require_bind fun _ => ensure_made.bind fun _ _ => ?_
  refine readAccount_made.bind fun _ _ => .get_bind ?_
  split
  · exact .require_bind fun _ => .pure _
  · refine .require_bind fun _ => .require_bind fun _ => .require_bind fun _ => ?_
    refine .require_bind fun _ => MadeOf.bind (insertLedger_made ⟨rfl, ?_, ?_, ?_⟩ nofun) fun _ _ => ?_
    · simp only
      split <;> simp
    · simp only
      split <;> simp
    · simp only
      split <;> simp
    · exact (updateAccount_made fun _ _ => withBalance_sameCard).bind fun _ _ => .pure _

theorem MoneyTx.made (h : MoneyTx may m db) : MadeOf (Statement may) m db :=
  h.mono fun _ _ => .money

theorem MoneyStatement.payments (h : MoneyStatement may db db') : db'.payments = db.payments := by
  cases h <;> rfl

theorem MoneyTx.payments (h : MoneyTx (fun _ => True) m db) {r : α × Db} (hr : m db = .ok r)
    : r.2.payments = db.payments := by
  have hrun := h r hr
  generalize r.2 = db' at hrun
  induction hrun with
  | refl => rfl
  | tail _ hstep ih => exact hstep.payments.trans ih

theorem updatePayment_made (hf : ∀ pay, db.payments.get paymentId = some pay →
      Statement may db { db with payments := db.payments.put paymentId (f pay) }) :
    MadeOf (Statement may) (updatePayment paymentId f) db := by
  refine .modify ?_
  unfold Table.update
  cases hpay : db.payments.get paymentId with
  | none => exact .refl
  | some pay => exact .single (hf pay hpay)

theorem note_made
    (hf : ∀ pay : Payment, pay.Same (f pay) ∧ (f pay).purposeResult = pay.purposeResult) :
    MadeOf (Statement may) (updatePayment paymentId f) db :=
  updatePayment_made fun pay hpay => .noted hpay (hf pay).1 (.inl (hf pay).2)

theorem recordVerification_made {reference : Option String} :
    MadeOf (Statement may) (recordVerification now paymentId amount currency reference) db := by
  intro r h
  obtain ⟨pay, hpay, -, ⟨-, -, hdb⟩ | ⟨hnone, hsome, hunique, hdb⟩⟩ := recordVerification_ok h
  · rw [hdb]
  · rw [hdb]
    exact .single (.verified hpay hnone hsome hunique)

theorem matchCurrency_made : MoneyTx may (matchCurrency pay acc) db := by
  refine .ite (fun _ => .pure _) fun _ => .get_bind (.require_bind fun _ => .require_bind fun _ => ?_)
  exact (updateAccount_made (inCurrency_sameCard _)).bind fun _ _ => .pure _

theorem insertCredit_made (hpay : db.payments.get paymentId = some pay)
    (hverified : pay.verifiedAt.isSome) (hkind : ∀ id, (row id).kind = .topup)
    (hid : ∀ id, (row id).paymentId = some paymentId)
    (hws : ∀ id, (row id).workspaceId = pay.workspaceId)
    (hamount : ∀ id, (row id).amountMinor = pay.netMinor) (hrow : ∀ id, (row id).id = id) :
    MadeOf (Statement may) (insertLedger (.payment paymentId) row) db := by
  intro r h
  obtain ⟨hnew, -, hdb⟩ := insertLedger_ok h
  rw [hdb]
  exact .single (.credited hpay hverified hnew (hkind _) (hid _) (hws _) (hamount _) (hrow _))

theorem updateAccount_ledger {f : Account → Option Account} {r : Unit × Db}
    (h : updateAccount ws f db = .ok r) : r.2.ledger = db.ledger := by
  rcases updateAccount_ok h with ⟨-, hdb⟩ | ⟨_, _, -, -, hdb⟩ <;> rw [hdb]

theorem creditPayment_made (hpay : db.payments.get paymentId = some pay)
    (hverified : pay.verifiedAt.isSome) :
    MadeOf (Statement may) (creditPayment now paymentId pay) db := by
  refine ensure_made.made.bind fun r₁ h₁ => readAccount_made.made.bind fun r₂ h₂ => ?_
  refine matchCurrency_made.made.bind fun r₃ h₃ => ?_
  have hpay₃ : r₃.2.payments.get paymentId = some pay := by
    rw [matchCurrency_made.payments h₃, readAccount_made.payments h₂, ensure_made.payments h₁]
    exact hpay
  refine MadeOf.bind (insertCredit_made hpay₃ hverified (fun _ => rfl) (fun _ => rfl)
    (fun _ => rfl) (fun _ => rfl) fun _ => rfl) fun r₄ h₄ => ?_
  obtain ⟨-, hrow, hdb₄⟩ := insertLedger_ok h₄
  refine (updateAccount_made fun _ _ => withBalance_sameCard).made.bind fun r₅ h₅ => MadeOf.bind ?_ fun _ _ => .pure _
  have hget : r₅.2.ledger.get (.payment paymentId) = some r₄.1 := by
    rw [updateAccount_ledger h₅, hdb₄, hrow]
    exact Table.get_put_self _ _ _
  exact updatePayment_made fun pay' hpay' => .succeeded hpay' hget (by rw [hrow])

theorem creditPayment_payments {r : LedgerRow × Db}
    (h : creditPayment now paymentId pay db = .ok r) : ∃ id, r.2.payments =
      db.payments.update paymentId (Payment.succeeded · id) := by
  obtain ⟨_, db₁, h₁, h⟩ := bind_ok.mp h
  obtain ⟨_, db₂, h₂, h⟩ := bind_ok.mp h
  obtain ⟨_, db₃, h₃, h⟩ := bind_ok.mp h
  obtain ⟨row, db₄, h₄, h⟩ := bind_ok.mp h
  obtain ⟨_, db₅, h₅, h⟩ := bind_ok.mp h
  obtain ⟨_, db₆, h₆, h⟩ := bind_ok.mp h
  rw [pure_ok.mp h]
  have hposted : db₄.payments = db₃.payments := by rw [show db₄ = _ from (insertLedger_ok h₄).2.2]
  have hsame : db₅.payments = db.payments := by
    rw [show db₅.payments = _ from
        (updateAccount_made fun _ _ => withBalance_sameCard).payments h₅, hposted,
      show db₃.payments = _ from matchCurrency_made.payments h₃,
      show db₂.payments = _ from readAccount_made.payments h₂,
      show db₁.payments = _ from ensure_made.payments h₁]
  refine ⟨row.id, ?_⟩
  rw [show db₆ = _ from congrArg Prod.snd (modify_ok.mp h₆)]
  simp only [hsame]
  rfl

theorem creditPayment_keeps (hpay : db.payments.get paymentId = some pay) {r : LedgerRow × Db}
    (h : creditPayment now paymentId pay db = .ok r) (p : Payment)
    (hp : r.2.payments.get paymentId = some p) : p.workspaceId = pay.workspaceId := by
  obtain ⟨_, hpayments⟩ := creditPayment_payments h
  rw [hpayments, Table.get_update_self, hpay] at hp
  cases hp
  rfl

theorem spendOnPurpose_made : MoneyTx may (spendOnPurpose now paymentId pay) db := by
  unfold spendOnPurpose
  simp only
  split
  · exact .pure _
  · split
    · exact .throw _
    · exact purchasePlan_made.bind fun _ _ => .pure _
  · refine .ite (fun _ => ?_) fun _ => ?_
    · exact cardApplyRenewal_made.bind fun _ _ => .pure _
    · exact renew_made.bind fun _ _ => .pure _
  · split
    · exact .throw _
    · exact upgrade_made.bind fun _ _ => .pure _
  · refine .get_bind (readAccount_made.bind fun _ _ => .require_bind fun _ => ?_)
    exact buyAiPack_made.bind fun _ _ => .pure _

theorem spendOnFallback_made : MoneyTx may (spendOnFallback now paymentId pay result) db := by
  refine .get_bind ?_
  split
  · refine .ite (fun _ => ?_) fun _ => .pure _
    exact .tryCatch (purchasePlan_made.bind fun _ _ => .pure _) fun _ => .pure _
  · exact .pure _

theorem buyAiPack_row {r : PackResult × Db}
    (h : buyAiPack now ws packId expected key actor db = .ok r) :
    ∃ row, r.2.ledger.get (.aiPack key) = some row ∧ row.id = r.1.packLedgerId ∧
      row.workspaceId = ws ∧ row.kind = .aiPack := by
  obtain ⟨⟨acc, db₁⟩, -, ⟨row, hrow, hws, hkind, hid, hdb⟩ | ⟨hrow, _, _, _, _, h⟩⟩ := buyAiPack_ok h
  · exact ⟨row, hdb ▸ hrow, hid.symm, hws, hkind⟩
  · unfold payPack at h
    obtain ⟨row, db₂, hdebit, h⟩ := bind_ok.mp h
    obtain ⟨lot, db₃, hwallet, h⟩ := bind_ok.mp h
    rw [pure_ok.mp h]
    obtain ⟨w, -, hdb⟩ := onWallet_ok hwallet
    rcases debit_ok hdebit with ⟨hget, -⟩ | ⟨_, acc', -, -, -, -, -, hnew, hdb₂⟩
    · rw [hrow] at hget
      cases hget
    · refine ⟨row, ?_, rfl, ?_⟩
      · rw [show db₃ = _ from hdb, show db₂ = _ from hdb₂]
        exact Table.get_put_self _ _ _
      · rw [show row = _ from hnew]
        exact ⟨rfl, rfl⟩

theorem spendOnPurpose_bought (h : spendOnPurpose now paymentId pay db = .ok r)
    (hpack : r.1 = .pack packLedgerId) : ∃ key row, r.2.ledger.get key = some row ∧
      row.id = packLedgerId ∧ row.workspaceId = pay.workspaceId ∧ row.kind = .aiPack := by
  unfold spendOnPurpose at h
  cases hpurpose : pay.purpose with
  | topup =>
    simp only [hpurpose] at h
    rw [pure_ok.mp h] at hpack
    cases hpack
  | plan =>
    simp only [hpurpose] at h
    cases hplan : pay.purposeDetail.planId <;> simp only [hplan] at h
    · exact (throw_ok.mp h).elim
    · obtain ⟨_, _, -, h⟩ := bind_ok.mp h
      rw [pure_ok.mp h] at hpack
      cases hpack
  | renewal =>
    simp only [hpurpose] at h
    rcases ite_ok.mp h with ⟨-, h⟩ | ⟨-, h⟩
    · obtain ⟨result, _, -, h⟩ := bind_ok.mp h
      rw [pure_ok.mp h] at hpack
      cases result <;> cases hpack
    · obtain ⟨_, _, -, h⟩ := bind_ok.mp h
      rw [pure_ok.mp h] at hpack
      cases hpack
  | upgrade =>
    simp only [hpurpose] at h
    cases hplan : pay.purposeDetail.planId <;> simp only [hplan] at h
    · exact (throw_ok.mp h).elim
    · obtain ⟨_, _, -, h⟩ := bind_ok.mp h
      rw [pure_ok.mp h] at hpack
      cases hpack
  | aiPack =>
    simp only [hpurpose] at h
    rw [get_bind] at h
    obtain ⟨_, -, h⟩ := readAccount_bind_ok.mp h
    obtain ⟨-, h⟩ := require_bind_ok.mp h
    obtain ⟨result, db₁, hbuy, h⟩ := bind_ok.mp h
    rw [pure_ok.mp h] at hpack ⊢
    cases hpack
    exact ⟨_, buyAiPack_row hbuy⟩

theorem spendOnFallback_pack (h : spendOnFallback now paymentId pay result db = .ok r)
    (hpack : r.1 = .pack packLedgerId) : r = (result, db) := by
  unfold spendOnFallback at h
  rw [get_bind] at h
  cases result with
  | done id => exact pure_ok.mp h
  | pack id => exact pure_ok.mp h
  | error e raised =>
    cases hplan : pay.purposeDetail.planId <;> simp only [hplan] at h
    · exact pure_ok.mp h
    · rcases ite_ok.mp h with ⟨-, h⟩ | ⟨-, h⟩
      · rcases tryCatch_ok.mp h with h | ⟨_, -, h⟩
        · obtain ⟨_, _, -, h⟩ := bind_ok.mp h
          rw [pure_ok.mp h] at hpack
          cases hpack
        · rw [pure_ok.mp h] at hpack
          cases hpack
      · exact pure_ok.mp h

theorem settlePurpose_made
    (hpay : ∀ p, db.payments.get paymentId = some p → p.workspaceId = pay.workspaceId) :
    MadeOf (Statement may) (settlePurpose now paymentId pay) db := by
  refine .ite (fun _ => .pure _) fun _ => MadeOf.bind ?_ fun r₁ h₁ => ?_
  · exact .tryCatch spendOnPurpose_made.made fun _ => .pure _
  · refine spendOnFallback_made.made.bind fun r₂ h₂ => MadeOf.bind ?_ fun _ _ => .pure _
    refine updatePayment_made fun p hp => .noted hp ⟨rfl, rfl, rfl, rfl, rfl, rfl, rfl, rfl, rfl⟩
      (.inr fun packLedgerId hpack => ?_)
    have hpack : r₂.1 = .pack packLedgerId := Option.some.inj hpack
    cases spendOnFallback_pack h₂ hpack
    rcases tryCatch_ok.mp h₁ with h₁ | ⟨_, -, h₁⟩
    · rw [spendOnPurpose_made.payments h₁] at hp
      simp only [hpay p hp]
      exact spendOnPurpose_bought h₁ hpack
    · cases pure_ok.mp h₁
      cases hpack

theorem settlePayment_made : MadeOf (Statement may) (settlePayment now paymentId) db := by
  refine .get_bind ?_
  split
  · exact .throw _
  · rename_i pay hpay
    refine .ite (fun _ => .pure _) fun _ => .require_bind fun hverified => ?_
    refine MadeOf.bind (creditPayment_made hpay hverified.1) fun r hr => ?_
    refine MadeOf.bind (settlePurpose_made (creditPayment_keeps hpay hr)) fun _ _ =>
      readAccount_made.made.bind fun _ _ => .pure _

theorem reverseForRefund_made (hmay : may .reversal) :
    MoneyTx may (reverseForRefund now pay refundId credit) db := by
  rcases reverseForRefund_eq now pay refundId credit with ⟨_, heq⟩ | heq
  · rw [heq]
    exact aiPackReverse_made fun _ => hmay
  · rw [heq]
    exact .pure _

theorem releaseForRefund_made (hmay : may .reversal) :
    MoneyTx may (releaseForRefund now pay refundId credit) db := by
  refine .get_bind ?_
  split
  · exact .pure _
  · split
    · exact .pure _
    · refine .ite (fun _ => ?_) fun _ => .pure _
      exact (creditBack_made fun _ => hmay).bind fun _ _ =>
        (updateAccount_made withoutPrepaid_sameCard).bind fun _ _ => .pure _

theorem debitRefund_made {released : Int} :
    MoneyTx may (debitRefund now paymentId pay refundId credit released) db := by
  refine .get_bind ?_
  split
  · exact .pure _
  · refine .ite (fun _ => ?_) fun _ => .pure _
    refine MadeOf.bind (insertLedger_made ⟨rfl, by simp, by simp, by simp⟩ nofun) fun _ _ => ?_
    exact (updateAccount_made fun _ _ => withBalance_sameCard).bind fun _ _ => .pure _

theorem applyRefund_made (hmay : may .refund) (hreturn : may .reversal) {amount : Int}
    (hpay : db.payments.get paymentId = some pay)
    (hnew : pay.purposeDetail.refunds.get refundId = none) (hcredit : 0 < credit)
    (hleft : credit ≤ pay.netMinor - pay.refundedMinor) :
    MadeOf (Statement may) (applyRefund now paymentId pay refundId amount credit) db := by
  refine (reverseForRefund_made hreturn).made.bind fun r₁ h₁ => ?_
  refine (releaseForRefund_made hreturn).made.bind fun r₂ h₂ => ?_
  refine debitRefund_made.made.bind fun r₃ h₃ => MadeOf.bind ?_ fun _ _ => .pure _
  refine updatePayment_made fun pay' hpay' => ?_
  have hold := hpay'
  rw [debitRefund_made.payments h₃, (releaseForRefund_made trivial).payments h₂,
    (reverseForRefund_made trivial).payments h₁] at hold
  cases hpay.symm.trans hold
  exact .refunded hmay hpay' hnew hcredit hleft

theorem refundPayment_made (hmay : may .refund) (hreturn : may .reversal) :
    MadeOf (Statement may) (refundPayment now paymentId refundId amount) db := by
  refine .require_bind fun _ => .get_bind ?_
  split
  · exact .throw _
  · rename_i pay hpay
    refine .ite (fun _ => .pure _) fun hnew => .require_bind fun _ => ?_
    refine .ite (fun _ => .pure _) fun hcredit => ?_
    exact applyRefund_made hmay hreturn hpay (by simpa using fun hsome => hnew (.inr hsome))
      (not_le.mp hcredit) (min_le_right _ _)

theorem insertPayment_made (hpay : pay.Opened) : MadeOf (Statement may) (insertPayment pay) db := by
  intro r h
  unfold insertPayment at h
  rw [randomUuid_bind, get_bind] at h
  obtain ⟨-, h⟩ := require_bind_ok.mp h
  rw [set_bind] at h
  rw [pure_ok.mp h]
  exact .single (.opened hpay)

theorem noted_update {paymentId : Id}
    (hf : ∀ pay : Payment, pay.Same (f pay) ∧ (f pay).purposeResult = pay.purposeResult) :
    ReflTransGen (Statement may) db { db with payments := db.payments.update paymentId f } := by
  unfold Table.update
  cases hpay : db.payments.get paymentId with
  | none => exact .refl
  | some pay => exact .single (.noted hpay (hf pay).1 (.inl (hf pay).2))

theorem insertCard_made {currency : String} (hnew : db.findCard provider subscriptionId = none)
    (hacc : db.accounts.get ws = some acc) :
    MadeOf (Statement may) (insertCard ws provider subscriptionId currency paymentId) db := by
  intro r h
  unfold insertCard at h
  rw [randomUuid_bind, get_bind, set_bind] at h
  let card (status : CardStatus) (cancelReason : Option CancelReason) : Card :=
    { workspaceId := ws, provider, subscriptionId, currency, status, cancelReason }
  have hlink : ∀ cardId (p : Payment),
      p.Same (if p.cardId.isNone then { p with cardId := some cardId } else p) ∧
        (if p.cardId.isNone then { p with cardId := some cardId } else p).purposeResult =
          p.purposeResult := by
    intro cardId p
    split <;> exact ⟨⟨rfl, rfl, rfl, rfl, rfl, rfl, rfl, rfl, rfl⟩, rfl⟩
  cases hlive : db.liveCard ws with
  | none =>
    have hlive' : db.drawn.liveCard ws = none := hlive
    simp only [hlive', Option.isNone_none, if_true] at h
    obtain ⟨_, db₁, hup, h⟩ := bind_ok.mp h
    rw [pure_ok.mp h]
    rcases updateAccount_ok hup with ⟨hnone, -⟩ | ⟨a, a', ha, hf, hdb⟩
    · exact absurd (hacc.symm.trans hnone) (by simp)
    · cases hf
      cases hacc.symm.trans ha
      rw [show db₁ = _ from hdb]
      refine .trans (.single (.money (.saved (card .active none) rfl hnew hlive hacc))) ?_
      exact noted_update (hlink _)
  | some other =>
    have hlive' : db.drawn.liveCard ws = some other := hlive
    simp only [hlive', Option.isNone_some, Bool.false_eq_true, if_false] at h
    rw [pure_ok.mp h]
    refine .trans (.single (.money (.duplicate (card .canceling (some .duplicate)) rfl hnew))) ?_
    exact noted_update (hlink _)

theorem cardRegister_made :
    MadeOf (Statement may) (cardRegister provider subscriptionId currency paymentId) db := by
  refine .get_bind ?_
  split
  · exact .throw _
  · refine .require_bind fun _ => lock_made.made.bind fun r hr => .require_bind fun _ => .get_bind ?_
    split
    · exact .require_bind fun _ => .pure _
    · rename_i hnew
      exact insertCard_made hnew (lock_reads hr)

theorem unclaimedCharge_opened (cardId : Id) (card : Card) (txnId origin currency : String)
    (item : Option ChargeItem) (amount : Int) (positive : 0 < amount) (mismatch : Bool) :
    (unclaimedCharge cardId card txnId origin currency item amount positive mismatch).Opened := by
  unfold unclaimedCharge
  simp only
  split
  · split
    · exact ⟨rfl, rfl, rfl, rfl, rfl, rfl⟩
    · split
      · exact ⟨rfl, rfl, rfl, rfl, rfl, rfl⟩
      · split <;> exact ⟨rfl, rfl, rfl, rfl, rfl, rfl⟩
  · exact ⟨rfl, rfl, rfl, rfl, rfl, rfl⟩

theorem cardRecordCharge_made {origin : Option String} {item : Option ChargeItem}
    {paymentId : Option Id} :
    MadeOf (Statement may) (cardRecordCharge cardId txnId origin amount currency item paymentId) db := by
  unfold cardRecordCharge
  simp only
  split
  · refine .require_bind fun _ => .get_bind ?_
    split
    · exact .throw _
    · refine lock_made.made.bind fun _ _ => ?_
      split
      · exact .require_bind fun _ => .pure _
      · refine .require_bind fun _ => ?_
        split
        · refine MadeOf.bind ?_ fun _ _ => .pure _
          exact note_made fun _ => ⟨⟨rfl, rfl, rfl, rfl, rfl, rfl, rfl, rfl, rfl⟩, rfl⟩
        · exact insertPayment_made (unclaimedCharge_opened ..)
  · exact .throw _

theorem cardSettle_made :
    MadeOf (Statement may) (cardSettle now paymentId amount currency txnId) db := by
  have hsettle : ∀ {db : Db}, MadeOf (Statement may) (settleCharge now paymentId) db := fun {_} => by
    refine settlePayment_made.bind fun _ _ => ?_
    split
    · exact .pure _
    · refine MadeOf.bind ?_ fun _ _ => .pure _
      exact note_made fun _ => ⟨⟨rfl, rfl, rfl, rfl, rfl, rfl, rfl, rfl, rfl⟩, rfl⟩
  refine .get_bind ?_
  split
  · exact .throw _
  · refine .require_bind fun _ => .ite (fun _ => .pure _) fun _ => .ite (fun _ => ?_) fun _ => hsettle
    exact recordVerification_made.bind fun _ _ => hsettle

theorem bindPayment_made {ref : Option String} :
    MadeOf (Statement may) (bindPayment paymentId ref) db := by
  refine .get_bind (.require_bind fun _ => ?_)
  exact note_made fun _ => ⟨⟨rfl, rfl, rfl, rfl, rfl, rfl, rfl, rfl, rfl⟩, rfl⟩

theorem endPayment_made {status : PaymentStatus} :
    MadeOf (Statement may) (updatePayment paymentId (·.ended status)) db := by
  refine updatePayment_made fun pay hpay => ?_
  unfold Payment.ended
  split
  · rename_i h
    exact .ended hpay h.1 h.2
  · exact .noted hpay ⟨rfl, rfl, rfl, rfl, rfl, rfl, rfl, rfl, rfl⟩ (.inl rfl)

def Operation.isRefund : Operation → Bool
  | refundPayment _ _ _ => true
  | _ => false

def Operation.reverses : Operation → Bool
  | refundPayment _ _ _ => true
  | aiPackReverse _ _ _ key _ _ => key.ofReturn
  | _ => false

def Operation.isAutoRenew : Operation → Bool
  | setAutoRenew _ on => on
  | _ => false

/-- Whatever is called, and whatever others write, is a sequence of single
writes; the AI wallet's commands are its own. -/
theorem call_made (op : Operation) (hop : ∀ command, op ≠ .aiWallet command)
    (hrefund : op.isRefund → may .refund) (hrenew : op.isAutoRenew → may .autoRenew)
    (hreverse : op.reverses → may .reversal) : MadeOf (Statement may) (op.call now) db := by
  cases op with
  | ensure ws currency => exact ensure_made.made
  | recordVerification id amount currency reference => exact recordVerification_made
  | settlePayment id => exact settlePayment_made.discard
  | refundPayment id refundId amount => exact (refundPayment_made (hrefund rfl) (hreverse rfl)).discard
  | adminAdjust ws amount currency reason actor key category expected =>
    exact adminAdjust_made.made.discard
  | purchasePlan ws planId interval key actor => exact purchasePlan_made.made.discard
  | renew ws actor stop price override => exact renew_made.made.discard
  | upgrade ws planId actor => exact upgrade_made.made.discard
  | scheduleChange ws planId interval actor => exact scheduleChange_made.made.discard
  | processDue ws => exact processDue_made.made.discard
  | buyAiPack ws packId price key actor => exact buyAiPack_made.made.discard
  | aiPackReverse ws pack most key refundId provider =>
    exact (aiPackReverse_made hreverse).made.discard
  | adminReplaced ws => exact adminReplaced_made.made.discard
  | releaseStalePrepaid ws => exact releaseStale_made.made.discard
  | cardRegister provider subscriptionId currency id => exact cardRegister_made.discard
  | cardRecordCharge cardId txnId origin amount currency item id =>
    exact cardRecordCharge_made.discard
  | cardSettle id amount currency txnId => exact cardSettle_made.discard
  | cardSetStatus cardId status reason => exact cardSetStatus_made.made.discard
  | aiWallet command => exact absurd rfl (hop command)
  | editPlan planId plan => exact .modify (.single (.edited _ _ _))
  | editSettings settings => exact .modify (.single (.edited _ _ _))
  | editSubscription ws subscription => exact .modify (.single (.edited _ _ _))
  | setAutoRenew ws on =>
    intro r h
    rcases updateAccount_ok
      (show updateAccount ws (fun a => some { a with autoRenew := on }) db = .ok r from h) with
      ⟨-, hdb⟩ | ⟨acc, acc', hacc, hf, hdb⟩
    · rw [hdb]
    · cases hf
      rw [hdb]
      exact .single (.renewal on hrenew hacc)
  | createPayment pay => exact (insertPayment_made ⟨rfl, rfl, rfl, rfl, rfl, rfl⟩).discard
  | bindPayment id ref => exact bindPayment_made
  | endPayment id status => exact endPayment_made

theorem step_keeps {I : Db → Prop} (hwrite : ∀ db db', Statement may db db' → I db → I db')
    (hwallet : ∀ db w, I db → I { db with wallet := w }) (hdb : I db)
    (c : Timestamp × Operation) (hrefund : c.2.isRefund → may .refund)
    (hrenew : c.2.isAutoRenew → may .autoRenew) (hreverse : c.2.reverses → may .reversal) :
    I (db.step c) := by
  by_cases hop : ∀ command, c.2 ≠ .aiWallet command
  · exact (call_made c.2 hop hrefund hrenew hreverse).keeps hwrite hdb
  · simp only [not_forall, not_not] at hop
    obtain ⟨command, hop⟩ := hop
    unfold Db.step commit
    rw [hop]
    split
    · rename_i h
      obtain ⟨w, -, hdb'⟩ := onWallet_ok h
      simp only at hdb'
      rw [hdb']
      exact hwallet db w hdb
    · exact hdb

end Kindred.Billing
