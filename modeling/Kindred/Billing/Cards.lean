import Kindred.Billing.Payments

namespace Kindred.Billing
open Lib.Tx (require)

def cardProviders : List String := ["paddle", "paddle_sandbox"]

def Db.findCard (db : Db) (provider subscriptionId : String) : Option (Id × Card) :=
  db.cards.rows.find? fun r => r.2.provider = provider ∧ r.2.subscriptionId = subscriptionId

/-- A new card: the account's, unless one is live already. -/
def insertCard (workspaceId : Id) (provider subscriptionId currency : String) (paymentId : Id) :
    BillingTx Id := do
  let cardId ← randomUuid
  let db ← get
  let live := (db.liveCard workspaceId).isNone
  set { db with
    cards := db.cards.put cardId
      { workspaceId, provider, subscriptionId, currency
        status := if live then .active else .canceling
        cancelReason := if live then none else some .duplicate }
    payments := db.payments.update paymentId fun p =>
      if p.cardId.isNone then { p with cardId := some cardId } else p }
  if live then
    updateAccount workspaceId fun a => some { a with
      cardProvider := some provider, cardSubscriptionId := some subscriptionId, autoRenew := true }
  return cardId

/-- `billing_card_register` -/
def cardRegister (provider subscriptionId : String) (currency : Option String)
    (setupPaymentId : Id) : BillingTx Id := do
  let code := (currency.getD "").toUpper
  let db ← get
  match db.payments.get setupPaymentId with
  | none => throw .cardSetupInvalid
  | some pay =>
    require (pay.source = .cardSetup ∧ pay.provider = provider ∧ provider ∈ cardProviders ∧
      pay.currency = code ∧ subscriptionId ≠ "") .cardSetupInvalid
    let acc ← lock pay.workspaceId
    require (acc.currency = code) .accountCurrencyMismatch
    let db ← get
    match db.findCard provider subscriptionId with
    | some (cardId, card) =>
      require (card.workspaceId = pay.workspaceId) .cardConflict
      return cardId
    | none => insertCard pay.workspaceId provider subscriptionId code setupPaymentId

/-- The item of a recurring charge; a `netMinor` that is not a whole number is
none. -/
structure ChargeItem where
  netMinor : Option Int
  taxMinor : Int := 0
  planId : Option Id := none
  interval : Option String := none

def itemInterval (interval : Option String) : Option String :=
  match interval with
  | some "monthly" | some "month" => some "monthly"
  | some "yearly" | some "year" => some "yearly"
  | _ => none

def insertPayment (pay : Payment) : BillingTx Id := do
  let id ← randomUuid
  let db ← get
  require (db.payments.rows.all fun r => ¬(r.2.provider = pay.provider ∧
    (r.2.providerRef.isSome ∧ r.2.providerRef = pay.providerRef ∨
      r.2.providerPaymentId.isSome ∧ r.2.providerPaymentId = pay.providerPaymentId)))
    .uniqueViolation
  set { db with payments := db.payments.put id pay }
  return id

def Payment.claimedBy (p : Payment) (cardId : Id) (card : Card) (amount : Int) (currency : String) :
    Bool :=
  p.source = .cardCharge ∧ p.status = .pending ∧ p.workspaceId = card.workspaceId ∧
    p.cardId = some cardId ∧ p.provider = card.provider ∧ p.providerRef = none ∧
    p.providerPaymentId = none ∧ p.amountMinor = amount ∧ p.currency = currency

/-- The row of a charge that no pending one was made for. -/
def unclaimedCharge (cardId : Id) (card : Card) (txnId origin currency : String)
    (item : Option ChargeItem) (amount : Int) (positive : 0 < amount) (mismatch : Bool) : Payment :=
  let base : Payment :=
    { workspaceId := card.workspaceId, provider := card.provider, currency
      amountMinor := amount, netMinor := amount, taxMinor := 0, providerRef := some txnId
      source := .cardCharge, cardId := some cardId
      amount_check := ⟨positive, le_refl 0, (Int.add_zero amount).symm⟩ }
  if origin = "subscription_recurring" then
    match item with
    | none => { base with source := .cardRenewal, review := some .amountMismatch }
    | some item =>
      match item.netMinor with
      | none => { base with source := .cardRenewal, review := some .amountMismatch }
      | some net =>
        if h : 0 < net ∧ 0 ≤ item.taxMinor ∧ amount = net + item.taxMinor then
          { base with
            source := .cardRenewal, purpose := .renewal, netMinor := net, taxMinor := item.taxMinor
            purposeDetail := { planId := item.planId, billingInterval := itemInterval item.interval }
            amount_check := h }
        else { base with source := .cardRenewal, review := some .amountMismatch }
  else { base with
    review := some (if mismatch then .chargeMismatch else .unexpectedCharge origin) }

/-- `billing_card_record_charge`; answers the payment's id. -/
def cardRecordCharge (cardId : Id) (txnId origin : Option String) (amount : Option Int)
    (currency : Option String) (item : Option ChargeItem) (paymentId : Option Id) :
    BillingTx Id := do
  let txn := txnId.getD ""
  let code := (currency.getD "").toUpper
  if positive : 0 < amount.getD 0 then
    require (txn ≠ "") .paymentReferenceMissing
    let db ← get
    match db.cards.get cardId with
    | none => throw .cardNotFound
    | some card =>
      let _ ← lock card.workspaceId
      let named := fun r : Id × Payment => r.2.provider = card.provider ∧ r.2.providerRef = some txn
      let paid := fun r : Id × Payment =>
        r.2.provider = card.provider ∧ r.2.providerPaymentId = some txn
      match (db.payments.rows.find? named).or (db.payments.rows.find? paid) with
      | some (id, pay) =>
        require (pay.workspaceId = card.workspaceId) .cardConflict
        return id
      | none =>
        require (code = card.currency) .accountCurrencyMismatch
        let claim := if origin = some "subscription_charge" then paymentId else none
        match claim.bind fun id => ((db.payments.get id).filter fun p =>
            p.claimedBy cardId card (amount.getD 0) code).map fun _ => id with
        | some id =>
          updatePayment id fun p => { p with providerRef := some txn }
          return id
        | none =>
          insertPayment (unclaimedCharge cardId card txn (origin.getD "") code item
            (amount.getD 0) positive claim.isSome)
  else throw .cardChargeAmountInvalid

def purposeErrorOf : SettleResult → Option PurposeError
  | .settled _ _ (some (.error e _)) => some e
  | _ => none

def settleCharge (now : Timestamp) (paymentId : Id) : BillingTx SettleResult := do
  let result ← settlePayment now paymentId
  match purposeErrorOf result with
  | none => pure ()
  | some e =>
    updatePayment paymentId fun p => { p with review := p.review.or (some (.purpose e)) }
  return result

/-- `billing_card_settle` -/
def cardSettle (now : Timestamp) (paymentId : Id) (amount : Option Int)
    (currency txnId : Option String) : BillingTx SettleResult := do
  let db ← get
  match db.payments.get paymentId with
  | none => throw .paymentNotFound
  | some pay =>
    require (pay.providerRef.isNone ∨ pay.providerRef = txnId) .paymentReferenceMismatch
    if pay.status = .succeeded ∧ txnId.isSome ∧ pay.providerPaymentId = txnId then
      return .replayed pay.ledgerId
    else
      if pay.verifiedAt.isNone ∨ pay.providerPaymentId ≠ txnId then
        recordVerification now paymentId amount currency txnId
      settleCharge now paymentId

end Kindred.Billing
