import Kindred.Billing.Plans

namespace Kindred.Billing
open AiWallet (WalletTx Lot)
open Lib (total)
open Lib.Tx (require)

/-! AI credit packs. -/

def JsonValue.wholePositive : JsonValue → Option Int
  | number m 0 => if 0 < m ∧ m < 10 ^ 15 then some m else none
  | _ => none

/-- `billing_ai_pack_find`: the price and the credit. -/
def Settings.packFind (s : Settings) (currency : String) (packId : Option String) :
    Option (Int × Int) :=
  s.packs.findSome? fun p =>
    if p.currency = currency ∧ some p.id = packId ∧ p.active then
      match p.priceMinor.wholePositive, p.creditMinor.wholePositive with
      | some price, some credit => some (price, credit)
      | _, _ => none
    else none

def Settings.rate (s : Settings) (a b : String) : Option Rat :=
  (s.rates.find? fun r => r.fromCurrency = a ∧ r.toCurrency = b).map (·.rate)

/-- `billing_ai_wallet_rate` -/
def Settings.walletRate (s : Settings) (currency : String) : Option Rat :=
  if currency = "IRR" then some 1
  else (s.rate currency "IRR").or do
    let a ← s.rate currency "USD"
    let b ← s.rate "USD" "IRR"
    return a * b

/-- `billing_currency_exponent` -/
def currencyExponent (currency : String) : Nat := if currency = "IRR" then 0 else 2

def walletAmount (credit : Int) (currency : String) (rate : Rat) : Int :=
  ((credit : Rat) / 10 ^ currencyExponent currency * rate + 1 / 2).floor

def rial : Int := 1000000

def packLotKey (rowId : Id) : String := "ai_pack_lot:" ++ toString rowId

structure PackResult where
  replayed : Bool
  packLedgerId : Id
  lotId : Option Id
  priceMinor : Int
  creditMinor : Option Int
  walletAmount : Option Int
  balanceMinor : Int

def Description.credit : Description → Option Int
  | pack _ credit _ => some credit
  | _ => .none

def Description.wallet : Description → Option Int
  | pack _ _ amount => some amount
  | _ => .none

def Db.packLot (db : Db) (rowId : Id) : Option Id :=
  (db.wallet.commands.get (packLotKey rowId)).map (·.resultRef)

def payPack (now : Timestamp) (workspaceId : Id) (packId : String)
    (price credit wallet : Int) (key : String) (actor : Option Id) : BillingTx PackResult := do
  let row ← debit now workspaceId price
    { kind := .aiPack, description := .pack packId credit wallet, actorId := actor } (.aiPack key)
  let lot ← onWallet (AiWallet.aiPurchaseCredit now workspaceId (some (wallet * rial))
    (some (packLotKey row.id)) (some "ai_pack"))
  return { replayed := false, packLedgerId := row.id, lotId := lot, priceMinor := price
           creditMinor := credit, walletAmount := wallet, balanceMinor := row.balanceAfter }

/-- `billing_account_buy_ai_pack` -/
def buyAiPack (now : Timestamp) (workspaceId : Id) (packId : Option String)
    (expectedPriceMinor : Option Int) (key : String) (actor : Option Id) : BillingTx PackResult := do
  require (key ≠ "") .keyRequired
  let acc ← lock workspaceId
  let db ← get
  match db.ledger.get (.aiPack key) with
  | some row =>
    require (row.workspaceId = workspaceId ∧ row.kind = .aiPack) .idempotencyConflict
    return { replayed := true, packLedgerId := row.id, lotId := db.packLot row.id
             priceMinor := -row.amountMinor, creditMinor := row.description.credit
             walletAmount := row.description.wallet, balanceMinor := acc.balanceMinor }
  | none =>
    match db.settings.packFind acc.currency packId with
    | none => throw .aiPackNotAvailable
    | some (price, credit) =>
      require (expectedPriceMinor.all (· = price)) .quoteChanged
      match db.settings.walletRate acc.currency with
      | none => throw .aiFxUnavailable
      | some rate =>
        require (0 < rate) .aiFxUnavailable
        require (0 < walletAmount credit acc.currency rate) .aiPackNotAvailable
        payPack now workspaceId (packId.getD "") price credit
          (walletAmount credit acc.currency rate) key actor

def Key.text : Key → String
  | payment id => "payment:" ++ toString id
  | admin key => "admin:" ++ key
  | plan key => "plan:" ++ key
  | aiPack key => "ai_pack:" ++ key
  | refund key => "refund:" ++ key
  | prepaidReturnRefund key => "prepaid_return:refund:" ++ key
  | aiPackReturnRefund key => "ai_pack_return:refund:" ++ key
  | upgrade ws planId s => s!"upgrade:{ws}:{planId}:{stampText (s * Lib.Calendar.second)}"
  | renewal ws s uuid => s!"renewal:{ws}:{stampText (s * Lib.Calendar.second)}:{uuid}"
  | renewalReprice ws planId s uuid =>
    s!"renewal_reprice:upgrade:{ws}:{planId}:{stampText (s * Lib.Calendar.second)}:{uuid}"
  | renewalChange ws uuid => s!"renewal_change:{ws}:{uuid}"
  | prepaidReturn ws .admin uuid => s!"prepaid_return:{ws}:admin:{uuid}"
  | prepaidReturn ws .stale uuid => s!"prepaid_return:{ws}:stale:{uuid}"
  | prepaidReturn ws .due uuid => s!"prepaid_return:{ws}:due:{uuid}"
  | prepaidReturn ws .change uuid => s!"prepaid_return:{ws}:change:{uuid}"
  | prepaidReturn ws (.upgrade planId s) uuid =>
    s!"prepaid_return:upgrade:{ws}:{planId}:{stampText (s * Lib.Calendar.second)}:{uuid}"
  | other text => text

structure ReverseResult where
  replayed : Bool := false
  ledgerId : Option Id := none
  returnedMinor : Int := 0
  reclaimedWallet : Int := 0

def unusedCredit (lot : Option Lot) : Int :=
  (lot.map fun l => if l.live then max l.free 0 else 0).getD 0

/-- How much of a pack's price comes back: at most `most`, what earlier
reversals left of the price, and the price of the unused credit. -/
def packReturn (most : Option Int) (price returned unused : Int) (wallet : Option Int) : Int :=
  match wallet with
  | none => 0
  | some wallet =>
    if wallet ≤ 0 ∨ price ≤ 0 then 0
    else min (min (max (most.getD 0) 0) (price - returned)) (price * unused / (wallet * rial))

def reclaimed (unused back wallet price : Int) : Int :=
  min unused (-(-(back * wallet) / price) * rial)

def LedgerRow.returns (r : LedgerRow) (pack : Id) : Bool :=
  match r.description with
  | .packReturn packId _ _ _ => r.kind = .aiPackReturn ∧ packId = pack
  | _ => false

def Db.packReturned (db : Db) (workspaceId pack : Id) : Int :=
  total (fun r : Key × LedgerRow => r.2.workspaceId = workspaceId ∧ r.2.returns pack)
    (fun r => r.2.amountMinor) db.ledger.rows

def reclaimCredit (workspaceId lotId : Id) (amount : Int) (commandKey : String) : WalletTx Unit := do
  let entry ← AiWallet.insertLedger
    { workspaceId, entryType := .adjustment, amount := -amount, reason := "ai_pack_refund" }
  AiWallet.insertLedgerAllocation entry lotId amount
  AiWallet.updateLot lotId fun l => l.withAmounts (l.remainingAmount - amount) l.reservedAmount
    (if l.remainingAmount - amount ≤ 0 then .depleted else l.state)
  modify (·.recordCommand (some commandKey)
    { commandType := .adjustment, workspaceId, resultRef := entry })
  modify (·.project workspaceId)

def returnPack (now : Timestamp) (workspaceId : Id) (acc : Account) (pack lotId : Id)
    (back reclaim : Int) (key : Key) (refundId provider : String) : BillingTx ReverseResult := do
  onWallet (reclaimCredit workspaceId lotId reclaim key.text)
  let row ← insertLedger key fun id =>
    { id, workspaceId, kind := .aiPackReturn, amountMinor := back
      balanceAfter := acc.balanceMinor + back, currency := acc.currency
      description := .packReturn pack refundId provider reclaim, createdAt := now }
  updateAccount workspaceId fun a => a.withBalance (a.balanceMinor + back)
  return { ledgerId := row.id, returnedMinor := back, reclaimedWallet := reclaim }

/-- `billing_ai_pack_reverse` -/
def aiPackReverse (now : Timestamp) (workspaceId packLedgerId : Id) (maxMinor : Option Int)
    (key : Key) (refundId provider : String) : BillingTx ReverseResult := do
  require (key ≠ .other "") .keyRequired
  let db ← get
  match db.ledger.get key with
  | some row =>
    require (row.workspaceId = workspaceId ∧ row.kind = .aiPackReturn) .idempotencyConflict
    let reclaim := match row.description with
      | .packReturn _ _ _ reclaim => reclaim
      | _ => 0
    return { replayed := true, ledgerId := row.id, returnedMinor := row.amountMinor
             reclaimedWallet := reclaim }
  | none =>
    match db.accounts.get workspaceId, db.ledger.rows.find? fun r =>
        r.2.id = packLedgerId ∧ r.2.workspaceId = workspaceId ∧ r.2.kind = .aiPack with
    | some acc, some (_, pack) =>
      onWallet (modify (·.lock workspaceId))
      let lot := (db.packLot pack.id).bind fun id =>
        ((db.wallet.lots.get id).filter fun l => l.workspaceId = workspaceId).map fun l => (id, l)
      let unused := unusedCredit (lot.map Prod.snd)
      let back := packReturn maxMinor (-pack.amountMinor) (db.packReturned workspaceId pack.id)
        unused pack.description.wallet
      match lot with
      | none => return {}
      | some (lotId, _) =>
        if back ≤ 0 then return {}
        else
          returnPack now workspaceId acc pack.id lotId back
            (reclaimed unused back (pack.description.wallet.getD 0) (-pack.amountMinor)) key
            refundId provider
    | _, _ => throw .aiPackNotFound

/-- `billing_account_record_verification` -/
def recordVerification (now : Timestamp) (paymentId : Id) (amount : Option Int)
    (currency providerPaymentId : Option String) : BillingTx Unit := do
  let db ← get
  match db.payments.get paymentId with
  | none => throw .paymentNotFound
  | some pay =>
    require (amount = some pay.amountMinor) .paymentAmountMismatch
    require ((currency.getD "").toUpper = pay.currency) .paymentCurrencyMismatch
    require (providerPaymentId.getD "" ≠ "") .paymentReferenceMissing
    if pay.verifiedAt.isSome then
      require (pay.providerPaymentId = providerPaymentId) .paymentReferenceReused
    else
      require (db.payments.rows.all fun r => r.1 = paymentId ∨
        ¬(r.2.provider = pay.provider ∧ r.2.providerPaymentId = providerPaymentId))
        .paymentReferenceReused
      set { db with payments := db.payments.put paymentId { pay with
        providerPaymentId, verifiedAmountMinor := amount, verifiedAt := some now } }

def Account.inCurrency (a : Account) (currency : String) : Account := { a with currency }

def matchCurrency (pay : Payment) (acc : Account) : BillingTx Account := do
  if acc.currency = pay.currency then return acc
  else
    let db ← get
    require (acc.balanceMinor = 0 ∧
      ¬db.ledger.rows.any fun r => r.2.workspaceId = pay.workspaceId) .accountCurrencyMismatch
    require (validCurrency pay.currency) .checkViolation
    updateAccount pay.workspaceId fun a => some (a.inCurrency pay.currency)
    return acc.inCurrency pay.currency

def updatePayment (paymentId : Id) (f : Payment → Payment) : BillingTx Unit :=
  modify fun db => { db with payments := db.payments.update paymentId f }

def cardPurposeResult : Except CardRefusal PlanResult → PurposeResult
  | .error r => .error (.refused r) none
  | .ok result => .done result.ledgerId

def spendOnPurpose (now : Timestamp) (paymentId : Id) (pay : Payment) : BillingTx PurposeResult := do
  let detail := pay.purposeDetail
  let key := "payment:" ++ toString paymentId
  match pay.purpose with
  | .topup => return .done none
  | .plan =>
    match detail.planId with
    | none => throw .planNotAvailable
    | some planId =>
      let result ← purchasePlan now pay.workspaceId planId
        (some (detail.billingInterval.getD "monthly")) key pay.createdBy
      return .done result.ledgerId
  | .renewal =>
    if pay.source = .cardRenewal then
      let result ← cardApplyRenewal now paymentId pay
      return cardPurposeResult result
    else
      let result ← renew now pay.workspaceId pay.createdBy detail.periodEnd none none
      return .done result.ledgerId
  | .upgrade =>
    match detail.planId with
    | none => throw .planNotAvailable
    | some planId =>
      let result ← upgrade now pay.workspaceId planId pay.createdBy
      return .done result.ledgerId
  | .aiPack =>
    let db ← get
    let acc ← readAccount pay.workspaceId
    let credit := (db.settings.packFind acc.currency detail.packId).map Prod.snd
    -- A pack whose credit changed since checkout is a changed quote too.
    require (credit.all fun now => detail.creditMinor.all (· = now)) .quoteChanged
    let result ← buyAiPack now pay.workspaceId detail.packId detail.priceMinor key pay.createdBy
    return .pack result.packLedgerId

/-- A renewal paid after the plan ran out buys that plan again. -/
def spendOnFallback (now : Timestamp) (paymentId : Id) (pay : Payment) (result : PurposeResult) :
    BillingTx PurposeResult := do
  let db ← get
  match result, pay.purposeDetail.planId with
  | .error e _, some planId =>
    if pay.purpose = .renewal ∧ pay.source ≠ .cardRenewal ∧
        db.paidSubscription pay.workspaceId = none then
      tryCatch
        (do
          let result ← purchasePlan now pay.workspaceId planId
            (some (pay.purposeDetail.billingInterval.getD "monthly"))
            ("payment:" ++ toString paymentId) pay.createdBy
          return .done result.ledgerId)
        fun raised => return .error e (some raised)
    else return result
  | _, _ => return result

def settlePurpose (now : Timestamp) (paymentId : Id) (pay : Payment) :
    BillingTx (Option PurposeResult) := do
  if pay.purpose = .topup then return none
  else
    let result ← tryCatch (spendOnPurpose now paymentId pay)
      fun raised => return .error (.raised raised) none
    let result ← spendOnFallback now paymentId pay result
    updatePayment paymentId fun p => { p with purposeResult := some result }
    return some result

inductive SettleResult where
  | replayed (ledgerId : Option Id)
  | settled (ledgerId : Id) (balanceMinor : Int) (purposeResult : Option PurposeResult)
  deriving DecidableEq

/-- The net amount is credited, with its receipt. -/
def creditPayment (now : Timestamp) (paymentId : Id) (pay : Payment) : BillingTx LedgerRow := do
  ensure pay.workspaceId pay.currency
  let acc ← readAccount pay.workspaceId
  let acc ← matchCurrency pay acc
  let row ← insertLedger (.payment paymentId) fun id =>
    { id, workspaceId := pay.workspaceId, kind := .topup, amountMinor := pay.netMinor
      balanceAfter := acc.balanceMinor + pay.netMinor, currency := pay.currency
      paymentId, actorId := pay.createdBy, createdAt := now }
  updateAccount pay.workspaceId fun a => a.withBalance (acc.balanceMinor + pay.netMinor)
  updatePayment paymentId fun p => { p with status := .succeeded, ledgerId := some row.id }
  return row

/-- `billing_account_settle_payment` -/
def settlePayment (now : Timestamp) (paymentId : Id) : BillingTx SettleResult := do
  let db ← get
  match db.payments.get paymentId with
  | none => throw .paymentNotFound
  | some pay =>
    if pay.status = .succeeded then return .replayed pay.ledgerId
    else
      require (pay.verifiedAt.isSome ∧ pay.verifiedAmountMinor = some pay.amountMinor)
        .paymentNotVerified
      let row ← creditPayment now paymentId pay
      let result ← settlePurpose now paymentId
        { pay with status := .succeeded, ledgerId := some row.id }
      let acc ← readAccount pay.workspaceId
      return .settled row.id acc.balanceMinor result

structure RefundResult where
  replayed : Bool := false
  ledgerId : Option Id := none
  debitedMinor : Int := 0
  shortfallMinor : Int := 0
  releasedPrepaidMinor : Int := 0
  packReturnedMinor : Int := 0
  packReclaimedWallet : Int := 0

def Payment.refundShare (p : Payment) (amount : Int) : Int :=
  min (amount * p.netMinor / max p.amountMinor 1) (p.netMinor - p.refundedMinor)

def reverseForRefund (now : Timestamp) (pay : Payment) (refundId : String) (credit : Int) :
    BillingTx ReverseResult :=
  match pay.purpose, pay.purposeResult with
  | .aiPack, some (.pack packLedgerId) =>
    aiPackReverse now pay.workspaceId packLedgerId (some credit)
      (.aiPackReturnRefund (pay.provider ++ ":" ++ refundId)) refundId pay.provider
  | _, _ => return {}

def releaseForRefund (now : Timestamp) (pay : Payment) (refundId : String) (credit : Int) :
    BillingTx Int := do
  let db ← get
  match db.accounts.get pay.workspaceId with
  | none => return 0
  | some acc =>
    match acc.nextPeriodPrepaidMinor with
    | none => return 0
    | some prepaid =>
      if acc.balanceMinor < credit then
        creditBack now pay.workspaceId prepaid none
          (.prepaidReturnRefund (pay.provider ++ ":" ++ refundId))
        updateAccount pay.workspaceId fun a => some a.withoutPrepaid
        return prepaid
      else return 0

def debitRefund (now : Timestamp) (paymentId : Id) (pay : Payment) (refundId : String)
    (credit released : Int) : BillingTx (Int × Option Id) := do
  let db ← get
  match db.accounts.get pay.workspaceId with
  | none => return (0, none)
  | some acc =>
    let debit := min credit acc.balanceMinor
    if 0 < debit then
      let row ← insertLedger (.refund (pay.provider ++ ":" ++ refundId)) fun id =>
        { id, workspaceId := pay.workspaceId, kind := .refund, amountMinor := -debit
          balanceAfter := acc.balanceMinor - debit, currency := acc.currency, paymentId
          description := .refund refundId pay.provider (credit - debit) released, createdAt := now }
      updateAccount pay.workspaceId fun a => a.withBalance (a.balanceMinor - debit)
      return (debit, some row.id)
    else return (0, none)

def Payment.recordRefund (p : Payment) (refundId : String) (record : RefundRecord) : Payment :=
  { p with refundedMinor := p.refundedMinor + record.creditMinor
           purposeDetail := { p.purposeDetail with
             refunds := p.purposeDetail.refunds.put refundId record } }

def applyRefund (now : Timestamp) (paymentId : Id) (pay : Payment) (refundId : String)
    (amount credit : Int) : BillingTx RefundResult := do
  let pack ← reverseForRefund now pay refundId credit
  let released ← releaseForRefund now pay refundId credit
  let (debit, ledgerId) ← debitRefund now paymentId pay refundId credit released
  updatePayment paymentId fun p => p.recordRefund refundId
    { amountMinor := amount, creditMinor := credit, shortfallMinor := credit - debit
      releasedPrepaidMinor := released, packReturnedMinor := pack.returnedMinor
      packReclaimedWallet := pack.reclaimedWallet }
  return { ledgerId, debitedMinor := debit, shortfallMinor := credit - debit
           releasedPrepaidMinor := released, packReturnedMinor := pack.returnedMinor
           packReclaimedWallet := pack.reclaimedWallet }

/-- `billing_account_refund_payment` -/
def refundPayment (now : Timestamp) (paymentId : Id) (refundId : String) (amount : Option Int) :
    BillingTx RefundResult := do
  require (refundId ≠ "" ∧ amount.any (0 < ·)) .refundInvalid
  let db ← get
  match db.payments.get paymentId with
  | none => throw .paymentNotFound
  | some pay =>
    let row := db.ledger.get (.refund (pay.provider ++ ":" ++ refundId))
    if row.isSome ∨ (pay.purposeDetail.refunds.get refundId).isSome then
      return { replayed := true, ledgerId := row.map (·.id) }
    else
      require (pay.status = .succeeded) .refundUnsettledPayment
      let credit := pay.refundShare (amount.getD 0)
      if credit ≤ 0 then return {}
      else applyRefund now paymentId pay refundId (amount.getD 0) credit

/-- `btrim` -/
def btrim (s : String) : List Char :=
  ((s.toList.dropWhile (· = ' ')).reverse.dropWhile (· = ' ')).reverse

def adjustCategories : List String :=
  ["goodwill", "compensation", "correction", "migration", "test", "other"]

def adjustCap (currency : String) : Int :=
  if currency = "IRR" then 10000000000 else if currency = "TRY" then 200000000 else 5000000

/-- `ADJUST_RATE_LIMIT` -/
def adjustRateLimit : Nat := 30

def Db.recentAdjusts (db : Db) (now : Timestamp) (actor : Id) : Nat :=
  db.ledger.rows.countP fun r => r.2.actorId = some actor ∧
    (r.2.kind = .adminCredit ∨ r.2.kind = .adminDebit) ∧
    now - 3600 * Lib.Calendar.second ≤ r.2.createdAt

structure AdjustResult where
  replayed : Bool
  ledgerId : Id
  balanceMinor : Int

def bookAdjust (now : Timestamp) (workspaceId : Id) (acc : Account) (amount : Int) (key : String)
    (actor : Option Id) : BillingTx AdjustResult := do
  require (0 ≤ acc.balanceMinor + amount) .insufficientBalance
  let row ← insertLedger (.admin key) fun id =>
    { id, workspaceId, kind := if 0 < amount then .adminCredit else .adminDebit
      amountMinor := amount, balanceAfter := acc.balanceMinor + amount, currency := acc.currency
      actorId := actor, createdAt := now }
  updateAccount workspaceId fun a => a.withBalance (acc.balanceMinor + amount)
  return ⟨false, row.id, acc.balanceMinor + amount⟩

/-- `billing_account_admin_adjust` -/
def adminAdjust (now : Timestamp) (workspaceId : Id) (amount : Option Int)
    (currency reason : Option String) (actor : Option Id) (commandKey category : Option String)
    (expectedBalance : Option Int) : BillingTx AdjustResult := do
  let amount := amount.getD 0
  let key := commandKey.getD ""
  let code := (currency.getD "").toUpper
  require (amount ≠ 0) .adjustZero
  require (key ≠ "") .adjustMissingKey
  require (category.any (· ∈ adjustCategories)) .adjustBadCategory
  let length := (btrim (reason.getD "")).length
  require (3 ≤ length ∧ length ≤ 500) .adjustReasonRequired
  require (|amount| ≤ adjustCap code) .adjustTooLarge
  ensure workspaceId code
  let acc ← readAccount workspaceId
  let db ← get
  match db.ledger.get (.admin key) with
  | some row =>
    require (row.workspaceId = workspaceId ∧
      row.kind = (if 0 < amount then .adminCredit else .adminDebit) ∧ row.amountMinor = amount)
      .adjustKeyReused
    return ⟨true, row.id, row.balanceAfter⟩
  | none =>
    require (actor.all fun a => db.recentAdjusts now a < adjustRateLimit) .adjustRateLimited
    require (acc.currency = code) .accountCurrencyMismatch
    require (expectedBalance.all (· = acc.balanceMinor)) .adjustBalanceChanged
    bookAdjust now workspaceId acc amount key actor

end Kindred.Billing
