import Kindred.Billing.Accounts

namespace Kindred.Billing
open Lib.Calendar (second day)
open Lib.Tx (require)

inductive PlanAction where
  | none | purchase | prepaid | renewed | upgraded | expired | changeScheduled | changeCancelled

structure PlanResult where
  action : PlanAction
  replayed : Bool := false
  ledgerId : Option Id := .none
  planId : Option Id := .none
  billingInterval : Option Interval := .none
  periodStart : Option Timestamp := .none
  periodEnd : Option Timestamp := .none
  amountMinor : Option Int := .none
  repriceMinor : Option Int := .none
  nextPeriodPrepaidMinor : Option Int := .none
  balanceMinor : Option Int := .none

def Account.clearNext (a : Account) : Account := a.withoutPrepaid.withSchedule none none

def parseInterval : Option String → BillingTx (Option Interval)
  | none => return none
  | some text =>
    match Interval.parse text with
    | none => throw .intervalInvalid
    | some interval => return some interval

def renewalChange (sub : PaidSubscription) (target : Id) : ChangeType :=
  if target = sub.planId then .renewal else .change

/-- A paid renewal is kept for the next period, or starts it when that is due. -/
def applyRenewal (now : Timestamp) (workspaceId : Id) (actor : Option Id) (acc : Account)
    (sub : PaidSubscription) (start : Timestamp) (price : Int) (row : LedgerRow) :
    BillingTx PlanResult := do
  let target := acc.target sub
  let interval := acc.nextInterval sub
  let result : PlanResult :=
    { action := .prepaid, ledgerId := row.id, planId := target, billingInterval := interval
      periodStart := start, periodEnd := periodEnd start interval, amountMinor := price
      balanceMinor := row.balanceAfter }
  if now < sub.currentPeriodEnd then
    updateAccount workspaceId fun a => a.withPrepaid (some price) (some sub.currentPeriodEnd)
    return result
  else
    updateAccount workspaceId fun a => some a.clearNext
    writeSubscription workspaceId target interval (some start) (periodEnd start interval) .active
      (renewalChange sub target) actor { ledgerId := row.id }
    let _ ← grantMonth now workspaceId target (some start) (periodEnd start interval) "plan" none
    return { result with action := .renewed }

def renewalStart (now : Timestamp) (sub : PaidSubscription) : Timestamp :=
  if now - day < sub.currentPeriodEnd then sub.currentPeriodEnd else now

def payRenewal (now : Timestamp) (workspaceId : Id) (actor : Option Id) (acc : Account)
    (sub : PaidSubscription) (price : Int) : BillingTx PlanResult := do
  let start := renewalStart now sub
  let uuid ← randomUuid
  let row ← debit now workspaceId price
    { kind := .renewal, planId := acc.target sub, billingInterval := acc.nextInterval sub
      periodStart := start, periodEnd := periodEnd start (acc.nextInterval sub), actorId := actor }
    (.renewal workspaceId (stamp sub.currentPeriodEnd) uuid)
  applyRenewal now workspaceId actor acc sub start price row

/-- `billing_account_renew` -/
def renew (now : Timestamp) (workspaceId : Id) (actor : Option Id)
    (expectedPeriodEnd : Option Timestamp) (expectedPriceMinor priceOverrideMinor : Option Int) :
    BillingTx PlanResult := do
  let _ ← lock workspaceId
  let _ ← releaseStalePrepaid now workspaceId
  let acc ← readAccount workspaceId
  let db ← get
  match db.paidSubscription workspaceId with
  | none => throw .noPaidPlan
  | some sub =>
    require (expectedPeriodEnd.all fun e => |sub.currentPeriodEnd - e| < second) .periodChanged
    require (acc.nextPeriodPrepaidMinor = none) .alreadyRenewed
    require ((db.plans.get (acc.target sub)).bind (·.isFree) ≠ some true) .renewalToFree
    match priceOverrideMinor.or
        (db.planPrice (acc.target sub) acc.currency (acc.nextInterval sub).text) with
    | none => throw .planPriceUnavailable
    | some price =>
      require (0 < price) .planPriceUnavailable
      require (expectedPriceMinor.all (· = price)) .quoteChanged
      payRenewal now workspaceId actor acc sub price

def Db.liveCard (db : Db) (workspaceId : Id) : Option (Id × Card) :=
  db.cards.rows.find? fun r => r.2.workspaceId = workspaceId ∧ r.2.status.live

def Account.dropCard (a : Account) (card : Card) : Account :=
  if a.cardProvider = some card.provider ∧ a.cardSubscriptionId = some card.subscriptionId then
    { a with cardProvider := none, cardSubscriptionId := none, autoRenew := false }
  else a

def CardStatus.ended (s : CardStatus) : Bool := s = .canceling ∨ s = .canceled

/-- `billing_card_set_status`; answers whether it changed anything. -/
def cardSetStatus (cardId : Id) (status : CardStatus) (reason : Option CancelReason) :
    BillingTx Bool := do
  let db ← get
  match db.cards.get cardId with
  | none => throw .cardNotFound
  | some card =>
    if card.status = status ∨ card.status = .canceled then return false
    else
      require (¬(card.status = .canceling ∧ status.live)) .cardStatusInvalid
      let others := db.cards.rows.any fun r =>
        r.1 ≠ cardId ∧ r.2.workspaceId = card.workspaceId ∧ r.2.status.live
      require (¬(status.live ∧ others)) .uniqueViolation
      set { db with cards := db.cards.put cardId { card with
        status, cancelReason := if status.ended then card.cancelReason.or reason
                                else card.cancelReason } }
      if status.ended then updateAccount card.workspaceId fun a => some (a.dropCard card)
      return true

inductive DueReason where
  | changedToFree | cardNotPaid | notRenewed | noPrice | insufficientBalance
  deriving DecidableEq

inductive DueStep where
  | start (prepaid : Int) | renew | expire (reason : DueReason)

def Db.dueStep (db : Db) (acc : Account) (sub : PaidSubscription) (card : Option (Id × Card)) :
    DueStep :=
  let free := ((db.plans.get (acc.target sub)).bind (·.isFree)).getD true
  match acc.nextPeriodPrepaidMinor, free with
  | some prepaid, false => .start prepaid
  | _, free =>
    if card.isSome then
      .expire (if free then .changedToFree else if acc.autoRenew then .cardNotPaid else .notRenewed)
    else if free then .expire .changedToFree
    else if acc.autoRenew then
      match db.planPrice (acc.target sub) acc.currency (acc.nextInterval sub).text with
      | none => .expire .noPrice
      | some price =>
        if price ≤ 0 then .expire .noPrice
        else if price ≤ acc.balanceMinor then .renew
        else .expire .insufficientBalance
    else .expire .notRenewed

inductive DueResult where
  | none
  | plan (result : PlanResult) (autoRenew : Bool)
  | expired (reason : DueReason) (expiredAt : Timestamp) (cardCancel : Option Id)

def startPrepaid (now : Timestamp) (workspaceId : Id) (acc : Account) (sub : PaidSubscription)
    (prepaid : Int) : BillingTx DueResult := do
  let target := acc.target sub
  let interval := acc.nextInterval sub
  let start := sub.currentPeriodEnd
  let stop := periodEnd start interval
  updateAccount workspaceId fun a => some a.clearNext
  writeSubscription workspaceId target interval (some start) stop .active
    (renewalChange sub target) none { prepaidMinor := prepaid }
  let _ ← grantMonth now workspaceId target (some start) stop "plan" none
  return .plan
    { action := .renewed, planId := target, billingInterval := interval, periodStart := start
      periodEnd := stop, amountMinor := prepaid, balanceMinor := acc.balanceMinor } false

/-- The card stops with the plan; only one that did not pay is `not_renewed`. -/
def stopCard (reason : DueReason) : Option (Id × Card) → BillingTx Unit
  | none => return ()
  | some (cardId, _) => do
    let _ ← cardSetStatus cardId .canceling
      (some (if reason = .cardNotPaid then .notRenewed else .planEnded))

def returnAtDue (now : Timestamp) (workspaceId : Id) : Option Int → BillingTx Unit
  | none => return ()
  | some prepaid => do
    let uuid ← randomUuid
    creditBack now workspaceId prepaid none (.prepaidReturn workspaceId .due uuid)

def expire (now : Timestamp) (workspaceId : Id) (acc : Account) (sub : PaidSubscription)
    (card : Option (Id × Card)) (reason : DueReason) : BillingTx DueResult := do
  stopCard reason card
  returnAtDue now workspaceId acc.nextPeriodPrepaidMinor
  updateAccount workspaceId fun a => some a.clearNext
  writeSubscription workspaceId sub.planId sub.billingInterval sub.currentPeriodStart
    sub.currentPeriodEnd .expired .expire none {}
  return .expired reason sub.currentPeriodEnd (card.map Prod.fst)

def processDuePeriod (now : Timestamp) (workspaceId : Id) (sub : PaidSubscription) :
    BillingTx DueResult := do
  let _ ← releaseStalePrepaid now workspaceId
  let acc ← readAccount workspaceId
  let db ← get
  let card := db.liveCard workspaceId
  match db.dueStep acc sub card with
  | .start prepaid => startPrepaid now workspaceId acc sub prepaid
  | .renew =>
    let result ← renew now workspaceId none (some sub.currentPeriodEnd) none none
    return .plan result true
  | .expire reason => expire now workspaceId acc sub card reason

def Db.due (db : Db) (now : Timestamp) (workspaceId : Id) : Option PaidSubscription :=
  (db.paidSubscription workspaceId).filter fun sub => sub.currentPeriodEnd ≤ now

/-- `billing_account_process_due` -/
def processDue (now : Timestamp) (workspaceId : Id) : BillingTx DueResult := do
  let _ ← lock workspaceId
  let db ← get
  match db.due now workspaceId with
  | none => return .none
  | some sub => processDuePeriod now workspaceId sub

/-- Sold to anyone: active, shown, not free. -/
def Db.sellable (db : Db) (planId : Id) : Bool :=
  (db.plans.get planId).any fun p =>
    p.isActive = some true ∧ !p.isHidden ∧ p.isFree ≠ some true

def purchaseReplay (row : LedgerRow) : PlanResult :=
  { action := .purchase, replayed := true, ledgerId := row.id, planId := row.planId
    periodStart := row.periodStart, periodEnd := row.periodEnd }

/-- The purchase once no paid period runs. -/
def buyPlan (now : Timestamp) (workspaceId planId : Id) (interval : Option Interval) (key : String)
    (actor : Option Id) : BillingTx PlanResult := do
  let _ ← releaseStalePrepaid now workspaceId
  let acc ← readAccount workspaceId
  let db ← get
  require (db.sellable planId) .planNotAvailable
  match db.planPrice planId acc.currency (interval.getD .monthly).text with
  | none => throw .planPriceUnavailable
  | some price =>
    require (0 < price) .planPriceUnavailable
    let stop := periodEnd now (interval.getD .monthly)
    let row ← debit now workspaceId price
      { kind := .plan, planId, billingInterval := interval, periodStart := now, periodEnd := stop
        actorId := actor } (.plan key)
    updateAccount workspaceId fun a => some a.clearNext
    writeSubscription workspaceId planId interval (some now) stop .active .purchase actor
      { ledgerId := row.id }
    let _ ← grantMonth now workspaceId planId (some now) stop "plan" none
    return { action := .purchase, ledgerId := row.id, planId, billingInterval := interval
             periodStart := now, periodEnd := stop, amountMinor := price
             balanceMinor := row.balanceAfter }

/-- `billing_account_purchase_plan` -/
def purchasePlan (now : Timestamp) (workspaceId planId : Id) (interval : Option String)
    (key : String) (actor : Option Id) : BillingTx PlanResult := do
  let interval ← parseInterval interval
  let db ← get
  match db.ledger.get (.plan key) with
  | some row => return purchaseReplay row
  | none =>
    let _ ← lock workspaceId
    let db ← get
    -- A paid period that is due is processed first.
    if (db.due now workspaceId).isSome then
      let _ ← processDue now workspaceId
    let db ← get
    require ((db.paidSubscription workspaceId).all fun sub => sub.currentPeriodEnd ≤ now)
      .planActive
    buyPlan now workspaceId planId interval key actor

structure UpgradeCost where
  costMinor : Int
  newPriceMinor : Int
  oldPriceMinor : Int
  monthsLeft : Option Int
  nextPriceMinor : Option Int
  repriceMinor : Option Int
  deriving DecidableEq

inductive UpgradeQuote where
  | no (newPriceMinor : Option Int) (oldPriceMinor : Int)
  | yes (cost : UpgradeCost)
  deriving DecidableEq

/-- The price difference for the time left: a yearly plan's by the month,
rounded; a monthly one's once, or for each whole month of a longer window. -/
def costMinor (interval : Interval) (difference months : Int) : Int :=
  match interval with
  | .yearly => (2 * (difference * months) + 12) / 24
  | .monthly => difference * max months 1

def Db.reprice (db : Db) (acc : Option Account) (sub : PaidSubscription) (planId : Id)
    (currency : String) : Option Int × Option Int :=
  match acc with
  | none => (none, none)
  | some acc =>
    match acc.nextPeriodPrepaidMinor with
    | none => (none, none)
    | some prepaid =>
      if acc.nextPeriodStart = some sub.currentPeriodEnd then
        let next := db.planPrice planId currency (acc.nextInterval sub).text
        (next, some (next.getD 0 - prepaid))
      else (none, none)

/-- `billing_account_upgrade_cost` -/
def Db.upgradeCost (db : Db) (at_ : Timestamp) (workspaceId planId : Id) : Option UpgradeQuote :=
  match db.paidSubscription workspaceId with
  | none => none
  | some sub =>
    if sub.currentPeriodEnd ≤ at_ then none
    else
      let acc := db.accounts.get workspaceId
      let currency := (acc.map (·.currency)).getD db.settings.region.currency
      let interval := sub.interval
      let old := (db.planPrice sub.planId currency interval.text).getD 0
      match db.planPrice planId currency interval.text with
      | none => some (.no none old)
      | some new =>
        if new ≤ old then some (.no (some new) old)
        else
          let months := billingWholeMonths at_ sub.currentPeriodEnd
          let (next, reprice) := db.reprice acc sub planId currency
          some (.yes
            { costMinor := costMinor interval (new - old) months
              newPriceMinor := new, oldPriceMinor := old
              monthsLeft := if interval = .yearly ∨ 1 < months then some months else none
              nextPriceMinor := next, repriceMinor := reprice })

/-- `v_key` without its prefix: null where the period has no start. -/
def PaidSubscription.startStamp (s : PaidSubscription) : BillingTx Int :=
  match s.currentPeriodStart with
  | none => throw .notNullViolation
  | some start => return stamp start

def returnReprice (now : Timestamp) (workspaceId planId : Id) (actor : Option Id)
    (sub : PaidSubscription) (reprice : Int) : BillingTx Unit := do
  if reprice < 0 then
    let stamp ← sub.startStamp
    let uuid ← randomUuid
    creditBack now workspaceId (-reprice) actor
      (.prepaidReturn workspaceId (.upgrade planId stamp) uuid)

def debitUpgrade (now : Timestamp) (workspaceId planId : Id) (actor : Option Id)
    (sub : PaidSubscription) (cost : Int) : BillingTx Unit := do
  if 0 < cost then
    let stamp ← sub.startStamp
    let _ ← debit now workspaceId cost
      { kind := .upgrade, planId, billingInterval := sub.billingInterval, periodStart := now
        periodEnd := sub.currentPeriodEnd, actorId := actor } (.upgrade workspaceId planId stamp)

def debitReprice (now : Timestamp) (workspaceId planId : Id) (actor : Option Id) (acc : Account)
    (sub : PaidSubscription) (reprice : Int) : BillingTx Unit := do
  if 0 < reprice then
    let stamp ← sub.startStamp
    let uuid ← randomUuid
    let _ ← debit now workspaceId reprice
      { kind := .renewal, planId, billingInterval := acc.scheduledInterval.or sub.billingInterval
        periodStart := sub.currentPeriodEnd
        periodEnd := periodEnd sub.currentPeriodEnd (acc.nextInterval sub), actorId := actor }
      (.renewalReprice workspaceId planId stamp uuid)

def Account.reprice (a : Account) (next : Option Int) : Option Account :=
  match a.nextPeriodPrepaidMinor, next with
  | some _, some next =>
    (a.withPrepaid (some next) a.nextPeriodStart).map (·.withSchedule none a.scheduledInterval)
  | _, _ => some (a.withoutPrepaid.withSchedule none a.scheduledInterval)

def applyUpgrade (now : Timestamp) (workspaceId planId : Id) (actor : Option Id) (acc : Account)
    (sub : PaidSubscription) (cost : UpgradeCost) : BillingTx PlanResult := do
  let _ ← grantMonth now workspaceId sub.planId sub.currentPeriodStart sub.currentPeriodEnd "plan"
    none
  -- What the next period costs less returns first, so that it can pay the upgrade.
  returnReprice now workspaceId planId actor sub (cost.repriceMinor.getD 0)
  debitUpgrade now workspaceId planId actor sub cost.costMinor
  debitReprice now workspaceId planId actor acc sub (cost.repriceMinor.getD 0)
  updateAccount workspaceId fun a => a.reprice cost.nextPriceMinor
  writeSubscription workspaceId planId sub.billingInterval sub.currentPeriodStart
    sub.currentPeriodEnd .active .upgrade actor {}
  let db ← get
  let more := db.planAiAllowance planId workspaceId - db.planAiAllowance sub.planId workspaceId
  if 0 < more then
    let _ ← grantMonth now workspaceId planId sub.currentPeriodStart sub.currentPeriodEnd
      ("upgrade:" ++ toString planId) (some more)
  let acc ← readAccount workspaceId
  return { action := .upgraded, planId, amountMinor := cost.costMinor
           repriceMinor := cost.repriceMinor, periodEnd := sub.currentPeriodEnd
           balanceMinor := acc.balanceMinor
           nextPeriodPrepaidMinor := acc.nextPeriodPrepaidMinor }

/-- `billing_account_upgrade` -/
def upgrade (now : Timestamp) (workspaceId planId : Id) (actor : Option Id) :
    BillingTx PlanResult := do
  let _ ← lock workspaceId
  let _ ← releaseStalePrepaid now workspaceId
  let acc ← readAccount workspaceId
  let db ← get
  match db.paidSubscription workspaceId with
  | none => throw .noPaidPlan
  | some sub =>
    require (now < sub.currentPeriodEnd) .noPaidPlan
    if sub.planId = planId then
      let row := sub.currentPeriodStart.bind fun start =>
        db.ledger.get (.upgrade workspaceId planId (stamp start))
      return { action := .upgraded, replayed := true, planId, ledgerId := row.map (·.id)
               periodEnd := sub.currentPeriodEnd, balanceMinor := acc.balanceMinor }
    else
      require (db.sellable planId) .planNotAvailable
      match db.upgradeCost now workspaceId planId with
      | some (.yes cost) => applyUpgrade now workspaceId planId actor acc sub cost
      | _ => throw .notAnUpgrade

/-- A prepaid next period is re-priced to what it will be; one that can no
longer be priced returns whole. Answers the new prepayment. -/
def repriceChange (now : Timestamp) (workspaceId : Id) (planId : Option Id) (interval : Interval)
    (actor : Option Id) (sub : PaidSubscription) (newPrice : Option Int) :
    Option Int → BillingTx (Option Int)
  | none => return none
  | some prepaid => do
    let tag ← randomUuid
    if newPrice.all (· < prepaid) then
      creditBack now workspaceId (prepaid - newPrice.getD 0) actor
        (.prepaidReturn workspaceId .change tag)
    else if newPrice.any (prepaid < ·) then
      let _ ← debit now workspaceId (newPrice.getD 0 - prepaid)
        { kind := .renewal, planId, billingInterval := interval
          periodStart := sub.currentPeriodEnd
          periodEnd := periodEnd sub.currentPeriodEnd interval, actorId := actor }
        (.renewalChange workspaceId tag)
    return newPrice.filter (0 < ·)

/-- The account once the change is written. -/
def Account.schedule (a : Account) (sub : PaidSubscription) (planId : Option Id)
    (interval : Interval) (prepaid : Option Int) (start : Option Timestamp) : Option Account :=
  (a.withPrepaid prepaid start).map (·.withSchedule
    (if planId = some sub.planId then none else planId)
    (if interval = sub.interval then none else some interval))

def applyChange (now : Timestamp) (workspaceId : Id) (planId : Option Id) (interval : Interval)
    (actor : Option Id) (acc : Account) (sub : PaidSubscription) (newPrice : Option Int) :
    BillingTx PlanResult := do
  let prepaid ← repriceChange now workspaceId planId interval actor sub newPrice
    acc.nextPeriodPrepaidMinor
  let start := if acc.nextPeriodPrepaidMinor.isSome ∧ prepaid = none then none
    else acc.nextPeriodStart
  updateAccount workspaceId fun a => a.schedule sub planId interval prepaid start
  let acc ← readAccount workspaceId
  let cancelled := acc.scheduledPlanId = none ∧ acc.scheduledInterval = none
  modify fun db => { db with planChangeLog := db.planChangeLog ++ [
    { workspaceId, oldPlanId := sub.planId, newPlanId := planId
      changeType := if cancelled then .changeCancelled else .changeScheduled
      changedBy := actor, periodStart := none, periodEnd := none }] }
  return { action := if cancelled then .changeCancelled else .changeScheduled, planId
           billingInterval := interval, amountMinor := newPrice, periodEnd := sub.currentPeriodEnd
           nextPeriodPrepaidMinor := acc.nextPeriodPrepaidMinor
           balanceMinor := acc.balanceMinor }

def changeInterval (cancel : Bool) (plan : Option Plan) (sub : PaidSubscription) (asked : String) :
    Option Interval :=
  if cancel ∨ plan.any fun p => p.isFree = some true then some sub.interval
  else Interval.parse asked

/-- `billing_account_schedule_change`. A null plan passes the checks of a change
being cancelled: they compare it and get null. -/
def scheduleChange (now : Timestamp) (workspaceId : Id) (planId : Option Id)
    (interval : Option String) (actor : Option Id) : BillingTx PlanResult := do
  let _ ← lock workspaceId
  let _ ← releaseStalePrepaid now workspaceId
  let acc ← readAccount workspaceId
  let db ← get
  match db.paidSubscription workspaceId with
  | none => throw .noPaidPlan
  | some sub =>
    require (now < sub.currentPeriodEnd) .noPaidPlan
    let plan := planId.bind db.plans.get
    let asked := interval.getD sub.interval.text
    let cancel : Bool := planId.all (· = sub.planId) ∧ asked = sub.interval.text
    require (cancel ∨ plan.any fun p =>
      p.isActive = some true ∧ (!p.isHidden ∨ planId = some sub.planId)) .planNotAvailable
    match changeInterval cancel plan sub asked with
    | none => throw .intervalInvalid
    | some interval =>
      let newPrice := db.planPrice planId acc.currency interval.text
      require (newPrice.isSome ∨ cancel) .planPriceUnavailable
      applyChange now workspaceId planId interval actor acc sub newPrice

def cardCharged (detail : PurposeDetail) (target : Id) (interval : Interval) (net price : Int) :
    Option (Option Int) :=
  if detail.planId = some target ∧ detail.billingInterval = some interval.text then
    some (some (min net price))
  else if net < price then none
  else some none

def lateRenewal (now : Timestamp) (paymentId : Id) (payment : Payment) (acc : Account)
    (planId : Id) : BillingTx (Except CardRefusal PlanResult) := do
  let interval := payment.purposeDetail.billingInterval.getD "monthly"
  let db ← get
  match db.planPrice planId acc.currency interval with
  | none => return .error .priceUnavailable
  | some price =>
    if price ≤ 0 then return .error .priceUnavailable
    else if payment.netMinor < price then return .error .amountBelowPrice
    else
      let result ← purchasePlan now payment.workspaceId planId (some interval)
        ("payment:" ++ toString paymentId) none
      return .ok result

def renewFromCard (now : Timestamp) (payment : Payment) (acc : Account) (sub : PaidSubscription) :
    BillingTx (Except CardRefusal PlanResult) := do
  let db ← get
  let target := acc.target sub
  let interval := acc.nextInterval sub
  if (db.plans.get target).bind (·.isFree) = some true then return .error .renewalToFree
  else
    match db.planPrice target acc.currency interval.text with
    | none => return .error .priceUnavailable
    | some price =>
      if price ≤ 0 then return .error .priceUnavailable
      else
        match cardCharged payment.purposeDetail target interval payment.netMinor price with
        | none => return .error .amountBelowPrice
        | some charged =>
          let result ← renew now payment.workspaceId none (some sub.currentPeriodEnd)
            (some (charged.getD price)) charged
          return .ok result

/-- `billing_card_apply_renewal` -/
def cardApplyRenewal (now : Timestamp) (paymentId : Id) (payment : Payment) :
    BillingTx (Except CardRefusal PlanResult) := do
  let db ← get
  match payment.cardId.bind db.cards.get with
  | none => return .error .cardNotFound
  | some card =>
    let acc ← readAccount payment.workspaceId
    match db.paidSubscription payment.workspaceId with
    | none =>
      match payment.purposeDetail.planId with
      | none => return .error .noPaidPlan
      | some planId =>
        if card.status.ended ∧ card.cancelReason = some .notRenewed then
          lateRenewal now paymentId payment acc planId
        else return .error .noPaidPlan
    | some sub =>
      if ¬card.status.live ∨ acc.cardProvider ≠ some card.provider ∨
          acc.cardSubscriptionId ≠ some card.subscriptionId then return .error .cardNotLive
      else if ¬acc.autoRenew then return .error .autoRenewOff
      else if acc.nextPeriodPrepaidMinor.isSome ∧ acc.prepaidFollows (some sub) then
        return .error .alreadyRenewed
      else renewFromCard now payment acc sub

end Kindred.Billing
