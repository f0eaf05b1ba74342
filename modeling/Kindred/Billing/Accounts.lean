import Kindred.Billing.Book
import Kindred.AiWallet.Commands

namespace Kindred.Billing
open AiWallet (WalletTx)
open Lib.Calendar (addMonths wholeMonths second)
open Lib.Tx (require)

/-! Single statements. -/

def onWallet {α : Type} (m : WalletTx α) : BillingTx α := do
  let db ← get
  match m db.wallet with
  | .error e => throw (.wallet e)
  | .ok (a, w) =>
    set { db with wallet := w }
    return a

/-- `gen_random_uuid()` -/
def randomUuid : BillingTx Id := do
  let db ← get
  set { db with nextId := db.nextId + 1 }
  return db.nextId

/-- The account's row. Every caller reads one that exists; a null row would
break the `NOT NULL` columns it fills. -/
def readAccount (workspaceId : Id) : BillingTx Account := do
  let db ← get
  match db.accounts.get workspaceId with
  | none => throw .notNullViolation
  | some acc => return acc

def updateAccount (workspaceId : Id) (f : Account → Option Account) : BillingTx Unit := do
  let db ← get
  match db.accounts.get workspaceId with
  | none => return ()
  | some acc =>
    match f acc with
    | none => throw .checkViolation
    | some acc' => set { db with accounts := db.accounts.put workspaceId acc' }

/-- The row gets its id here: `row` is given it. -/
def insertLedger (key : Key) (row : Id → LedgerRow) : BillingTx LedgerRow := do
  let id ← randomUuid
  let db ← get
  require ((row id).amountMinor ≠ 0 ∧ 0 ≤ (row id).balanceAfter) .checkViolation
  require (db.ledger.get key = none) .uniqueViolation
  set { db with ledger := db.ledger.put key (row id) }
  return row id

/-- `^\d+(\.\d+)?$` as mantissa and scale. -/
def parseNumeric (s : String) : Option (Int × Nat) :=
  let cs := s.toList
  let whole := cs.takeWhile Char.isDigit
  let digits (ds : List Char) : Int := ds.foldl (fun n d => 10 * n + (d.toNat - 48 : Nat)) 0
  match whole, cs.dropWhile Char.isDigit with
  | [], _ => none
  | _, [] => some (digits whole, 0)
  | _, '.' :: frac =>
    if frac ≠ [] ∧ frac.all Char.isDigit then some (digits (whole ++ frac), frac.length) else none
  | _, _ => none

/-- The value's text (`->>`) where it is a plain decimal. -/
def JsonValue.numeric : JsonValue → Option (Int × Nat)
  | number m s => if 0 ≤ m then some (m, s) else none
  | string s => parseNumeric s
  | _ => none

/-- `round(numeric)` of a value that is not negative. -/
def roundNumeric (m : Int) (scale : Nat) : Int := (2 * m + 10 ^ scale) / (2 * 10 ^ scale)

def JsonValue.price (v : JsonValue) : Option Int :=
  v.numeric.bind fun (m, s) => if m ≤ 0 then none else some (roundNumeric m s)

/-- `billing_plan_price` -/
def Db.planPrice (db : Db) (planId : Option Id) (currency interval : String) : Option Int :=
  (planId.bind db.plans.get).bind fun plan =>
    if plan.isFree = some true then some 0
    else (plan.prices.get (currency, interval)).bind JsonValue.price

def Interval.months : Interval → Int
  | monthly => 1
  | yearly => 12

/-- `billing_period_end` -/
def periodEnd (start : Timestamp) (interval : Interval) : Timestamp :=
  addMonths start interval.months

/-- `billing_whole_months` -/
def billingWholeMonths (a b : Timestamp) : Int := if b ≤ a then 0 else wholeMonths a b

/-- The row `billing_account_paid_subscription` answers with. -/
structure PaidSubscription where
  planId : Id
  billingInterval : Option Interval
  currentPeriodStart : Option Timestamp
  currentPeriodEnd : Timestamp

def Db.asPaid (db : Db) (s : Subscription) : Option PaidSubscription :=
  match s.status, s.planId, s.currentPeriodEnd with
  | .active, some planId, some periodEnd =>
    if (db.plans.get planId).any fun p => p.isFree = some false then
      some ⟨planId, s.billingInterval, s.currentPeriodStart, periodEnd⟩
    else none
  | _, _, _ => none

/-- `billing_account_paid_subscription` -/
def Db.paidSubscription (db : Db) (workspaceId : Id) : Option PaidSubscription :=
  (db.subscriptions.get workspaceId).bind db.asPaid

def PaidSubscription.interval (s : PaidSubscription) : Interval := s.billingInterval.getD .monthly

def Account.target (a : Account) (s : PaidSubscription) : Id := a.scheduledPlanId.getD s.planId

def Account.nextInterval (a : Account) (s : PaidSubscription) : Interval :=
  a.scheduledInterval.getD s.interval

def validCurrency (currency : String) : Bool :=
  currency.toList.length = 3 ∧ currency.toList.all Char.isUpper

/-- `billing_account_ensure` -/
def ensure (workspaceId : Id) (currency : String) : BillingTx Unit := do
  require (validCurrency currency.toUpper) .badCurrency
  modify fun db =>
    if (db.accounts.get workspaceId).isSome then db
    else { db with accounts := db.accounts.put workspaceId { currency := currency.toUpper } }

/-- `billing_account_lock` -/
def lock (workspaceId : Id) : BillingTx Account := do
  let db ← get
  ensure workspaceId db.settings.region.currency
  readAccount workspaceId

structure Charge where
  kind : Kind
  planId : Option Id := none
  billingInterval : Option Interval := none
  periodStart : Option Timestamp := none
  periodEnd : Option Timestamp := none
  description : Description := .none
  actorId : Option Id := none

/-- `billing_account_debit` -/
def debit (now : Timestamp) (workspaceId : Id) (amount : Int) (charge : Charge) (key : Key) :
    BillingTx LedgerRow := do
  let db ← get
  match db.ledger.get key with
  | some row =>
    require (row.workspaceId = workspaceId ∧ row.kind = charge.kind ∧ row.amountMinor = -amount)
      .idempotencyConflict
    return row
  | none =>
    require (0 < amount) .amountInvalid
    let acc ← readAccount workspaceId
    require (amount ≤ acc.balanceMinor) .insufficientBalance
    let row ← insertLedger key fun id =>
      { id, workspaceId, kind := charge.kind, amountMinor := -amount
        balanceAfter := acc.balanceMinor - amount, currency := acc.currency
        planId := charge.planId, billingInterval := charge.billingInterval
        periodStart := charge.periodStart, periodEnd := charge.periodEnd
        description := charge.description, actorId := charge.actorId, createdAt := now }
    updateAccount workspaceId fun a => a.withBalance (a.balanceMinor - amount)
    return row

def Db.prepaidPlan (db : Db) (acc : Account) (workspaceId : Id) : Option Id × Option Interval :=
  match acc.nextPeriodStart with
  | none => (none, none)
  | some _ =>
    let sub := db.subscriptions.get workspaceId
    (acc.scheduledPlanId.or (sub.bind (·.planId)),
      some ((acc.scheduledInterval.or (sub.bind (·.billingInterval))).getD .monthly))

/-- `billing_account_credit_back` -/
def creditBack (now : Timestamp) (workspaceId : Id) (amount : Int) (actor : Option Id) (key : Key) :
    BillingTx Unit := do
  let db ← get
  match db.ledger.get key with
  | some row =>
    require (row.workspaceId = workspaceId ∧ row.kind = .prepaidReturn ∧ row.amountMinor = amount)
      .idempotencyConflict
  | none =>
    if 0 < amount then
      let acc ← readAccount workspaceId
      let (planId, interval) := db.prepaidPlan acc workspaceId
      let _ ← insertLedger key fun id =>
        { id, workspaceId, kind := .prepaidReturn, amountMinor := amount
          balanceAfter := acc.balanceMinor + amount, currency := acc.currency
          planId, billingInterval := interval, periodStart := acc.nextPeriodStart
          periodEnd := acc.nextPeriodStart.map fun start => periodEnd start (interval.getD .monthly)
          actorId := actor, createdAt := now }
      updateAccount workspaceId fun a => a.withBalance (a.balanceMinor + amount)
    else return ()

/-- `billing_account_admin_replaced`; answers what was returned. -/
def adminReplaced (now : Timestamp) (workspaceId : Id) : BillingTx Int := do
  let db ← get
  match db.accounts.get workspaceId with
  | none => return 0
  | some acc =>
    match acc.nextPeriodPrepaidMinor with
    | none => pure ()
    | some prepaid =>
      let uuid ← randomUuid
      creditBack now workspaceId prepaid none (.prepaidReturn workspaceId .admin uuid)
    updateAccount workspaceId fun a => some (a.withoutPrepaid.withSchedule none none)
    return acc.nextPeriodPrepaidMinor.getD 0

def Account.prepaidFollows (a : Account) (sub : Option PaidSubscription) : Bool :=
  sub.any fun s => a.nextPeriodStart = some s.currentPeriodEnd

/-- `billing_account_release_stale_prepaid`; answers what was returned. -/
def releaseStalePrepaid (now : Timestamp) (workspaceId : Id) : BillingTx Int := do
  let db ← get
  match db.accounts.get workspaceId with
  | none => return 0
  | some acc =>
    match acc.nextPeriodPrepaidMinor with
    | none => return 0
    | some prepaid =>
      if acc.prepaidFollows (db.paidSubscription workspaceId) then return 0
      else
        let uuid ← randomUuid
        creditBack now workspaceId prepaid none (.prepaidReturn workspaceId .stale uuid)
        updateAccount workspaceId fun a => some a.withoutPrepaid
        return prepaid

structure ChangeDetails where
  ledgerId : Option Id := none
  prepaidMinor : Option Int := none

/-- `billing_account_write_subscription` -/
def writeSubscription (workspaceId planId : Id) (interval : Option Interval)
    (start : Option Timestamp) (periodEnd : Timestamp) (status : SubscriptionStatus)
    (changeType : ChangeType) (actor : Option Id) (details : ChangeDetails) : BillingTx Unit :=
  modify fun db => { db with
    subscriptions := db.subscriptions.put workspaceId
      { planId := some planId, status, billingInterval := interval
        currentPeriodStart := start, currentPeriodEnd := some periodEnd }
    planChangeLog := db.planChangeLog ++ [
      { workspaceId, oldPlanId := (db.subscriptions.get workspaceId).bind (·.planId)
        newPlanId := some planId, changeType, changedBy := actor, periodStart := start
        periodEnd := some periodEnd, ledgerId := details.ledgerId
        prepaidMinor := details.prepaidMinor }] }

def cycleDown (start at_ : Timestamp) : Nat → Nat
  | 0 => 0
  | k + 1 => if at_ < addMonths start (k + 1 : Nat) then cycleDown start at_ k else k + 1

/-- `rounds` bounds the months a moment can be after the start. -/
def cycleUp (start at_ : Timestamp) : (rounds k : Nat) → Nat
  | 0, k => k
  | rounds + 1, k =>
    if addMonths start (k + 1 : Nat) ≤ at_ then cycleUp start at_ rounds (k + 1) else k

open Lib.Calendar (monthOf dateOf dayInMonth timeOfDay) in
/-- The month of the period that contains `at_`, on the boundaries `addMonths`
draws. -/
def cycleOf (start at_ : Timestamp) : Nat :=
  cycleUp start at_ (monthOf (dateOf at_) - monthOf (dateOf start) + 1).toNat
    (cycleDown start at_ (billingWholeMonths start at_).toNat)

open Lib.Calendar (monthOf dateOf dayInMonth timeOfDay) in
/-- `to_char(t, 'YYYYMMDD"T"HH24MISS')` in UTC. -/
def stampText (t : Timestamp) : String :=
  let k := monthOf (dateOf t)
  let s := timeOfDay t / second
  pad 4 (k / 12).toNat ++ pad 2 (k % 12 + 1).toNat ++ pad 2 (dayInMonth (dateOf t) + 1).toNat
    ++ "T" ++ pad 2 (s / 3600).toNat ++ pad 2 (s / 60 % 60).toNat ++ pad 2 (s % 60).toNat

example : stampText 1767225600000000 = "20260101T000000" := by decide

/-- `~ '^[0-9]{4}-[0-9]{2}$'` -/
def isCalendarCycle (cycle : String) : Bool :=
  match cycle.toList with
  | [a, b, c, d, '-', e, f] => [a, b, c, d, e, f].all Char.isDigit
  | _ => false

def isV2Cycle (cycle : String) : Bool :=
  "period:".isPrefixOf cycle || ("cycle:".isPrefixOf cycle && !"cycle:account:".isPrefixOf cycle)

/-- `billing_plan_ai_allowance`, in the wallet's unit. -/
def Db.planAiAllowance (db : Db) (planId workspaceId : Id) : Int :=
  match db.plans.get planId with
  | none => 0
  | some plan =>
    let allowance := ((db.settings.allowanceOverrides.get workspaceId).or plan.aiAllowanceIrr).or
      (plan.includedAiAllowanceIrr.or plan.aiCreditsPerMonth)
    max (allowance.getD 0) 0

def calendarLots (w : AiWallet.Wallet) (workspaceId : Id) : List (Id × AiWallet.Lot) :=
  w.lots.rows.filter fun r => r.2.workspaceId = workspaceId ∧ r.2.sourceType = .planAllowance ∧
    r.2.billingCycleId.any isCalendarCycle ∧ r.2.live ∧ 0 < r.2.remainingAmount

def retireCalendarLots (workspaceId : Id) : WalletTx Unit := do
  modify (·.lock workspaceId)
  let w ← get
  (calendarLots w workspaceId).forM (AiWallet.retireLot "legacy_allowance_superseded")
  if (calendarLots w workspaceId).isEmpty then return ()
  else modify (·.project workspaceId)

def alreadyFunded (w : AiWallet.Wallet) (workspaceId : Id) (source cycle : String)
    (periodStart cycleStart cycleEnd : Timestamp) : Bool :=
  w.lots.rows.any fun r => r.2.workspaceId = workspaceId ∧ r.2.sourceType = .planAllowance ∧
    (r.2.billingCycleId = some cycle ∧ r.2.allowanceSource = some source ∨
      source = "plan" ∧ r.2.createdAt < cycleEnd ∧
        (r.2.allowanceSource.getD "plan" = "plan" ∧ r.2.billingCycleId.any isV2Cycle ∧
            periodStart ≤ r.2.createdAt ∧ r.2.expiresAt.all (fun e => cycleStart < e) ∨
          r.2.billingCycleId.any isCalendarCycle ∧ max periodStart cycleStart ≤ r.2.createdAt))

/-- `billing_account_grant_month` of the month `now` is in. -/
def grantMonth (now : Timestamp) (workspaceId planId : Id) (start : Option Timestamp)
    (periodEnd : Timestamp) (source : String) (amount : Option Int) : BillingTx Int := do
  match start with
  | none => return 0
  | some start =>
    if now < start ∨ periodEnd ≤ now then return 0
    else
      let db ← get
      let k := cycleOf start now
      let cycleStart := addMonths start k
      let cycleEnd := min (addMonths start (k + 1 : Nat)) periodEnd
      let cycle := "cycle:account:" ++ stampText cycleStart
      let amount := amount.getD (db.planAiAllowance planId workspaceId)
      if amount ≤ 0 then return 0
      else if alreadyFunded db.wallet workspaceId source cycle start cycleStart cycleEnd then
        return 0
      else
        onWallet do
          if source = "plan" then retireCalendarLots workspaceId
          let _ ← AiWallet.aiGrantAllowance now workspaceId (some amount) (some cycle) (some source)
            (some cycleEnd)
            (some ("account_allowance:" ++ toString workspaceId ++ ":" ++ cycle ++ ":" ++ source))
        return amount

end Kindred.Billing
