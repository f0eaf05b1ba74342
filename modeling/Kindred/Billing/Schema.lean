import Kindred.AiWallet.Schema
import Mathlib.Data.Rat.Floor

namespace Kindred.Billing
open AiWallet (Wallet WalletError)

/-! Money is counted in minor units of the account's currency (`bigint`). -/

inductive Interval where
  | monthly | yearly
  deriving DecidableEq

def Interval.text : Interval → String
  | monthly => "monthly"
  | yearly => "yearly"

def Interval.parse (s : String) : Option Interval :=
  if s = "monthly" then some .monthly else if s = "yearly" then some .yearly else none

/-- A `jsonb` value of a plan's price: a number is `mantissa / 10 ^ scale`, as
`numeric` prints it. -/
inductive JsonValue where
  | null
  | bool (b : Bool)
  | number (mantissa : Int) (scale : Nat)
  | string (s : String)
  | compound
  deriving DecidableEq

/-- `billing_plans`; what is sold in a currency for an interval is at
`prices (currency, interval)`. The AI credit is in the wallet's unit. -/
structure Plan where
  isActive : Option Bool := some true
  isHidden : Bool := false
  isFree : Option Bool := some false
  prices : Table (String × String) JsonValue := .empty
  aiAllowanceIrr : Option Int := none
  includedAiAllowanceIrr : Option Int := none
  aiCreditsPerMonth : Option Int := none
  deriving DecidableEq

inductive SubscriptionStatus where
  | trialing | active | pastDue | canceled | unpaid | expired | incomplete | paused
  | freeFallback | suspended
  deriving DecidableEq

/-- `workspace_subscriptions`, one row a workspace. -/
structure Subscription where
  planId : Option Id
  status : SubscriptionStatus
  billingInterval : Option Interval
  currentPeriodStart : Option Timestamp
  currentPeriodEnd : Option Timestamp
  deriving DecidableEq

theorem noBalance : (0 : Int) ≤ 0 := by decide

theorem noPrepaid : ∀ p ∈ (none : Option Int), 0 ≤ p := by decide

/-- `billing_accounts`, one row a workspace. -/
structure Account where
  currency : String
  balanceMinor : Int := 0
  autoRenew : Bool := false
  scheduledPlanId : Option Id := none
  scheduledInterval : Option Interval := none
  nextPeriodPrepaidMinor : Option Int := none
  nextPeriodStart : Option Timestamp := none
  cardProvider : Option String := none
  cardSubscriptionId : Option String := none
  balance_check : 0 ≤ balanceMinor := by first | exact noBalance | decide
  prepaid_check : ∀ p ∈ nextPeriodPrepaidMinor, 0 ≤ p := by first | exact noPrepaid | decide
  deriving DecidableEq

def Account.withBalance (a : Account) (balance : Int) : Option Account :=
  if h : 0 ≤ balance then some { a with balanceMinor := balance, balance_check := h } else none

def Account.withPrepaid (a : Account) (prepaid : Option Int) (start : Option Timestamp) :
    Option Account :=
  if h : ∀ p ∈ prepaid, 0 ≤ p then
    some { a with nextPeriodPrepaidMinor := prepaid, nextPeriodStart := start, prepaid_check := h }
  else none

def Account.withoutPrepaid (a : Account) : Account :=
  { a with nextPeriodPrepaidMinor := none, nextPeriodStart := none, prepaid_check := nofun }

def Account.withSchedule (a : Account) (planId : Option Id) (interval : Option Interval) :
    Account :=
  { a with scheduledPlanId := planId, scheduledInterval := interval }

inductive Kind where
  | topup | renewal | upgrade | plan | aiPack | adminCredit | adminDebit | refund | prepaidReturn
  | aiPackReturn
  deriving DecidableEq

inductive ReturnCause where
  | admin | stale | due | change | upgrade (planId : Id) (stamp : Int)
  deriving DecidableEq

/-- `idempotency_key` by the shape of its text. A `uuid` is one
`gen_random_uuid()` just made; a `stamp` is a moment to the second. -/
inductive Key where
  | payment (paymentId : Id)
  | admin (commandKey : String)
  | plan (key : String)
  | aiPack (key : String)
  | refund (refundKey : String)
  | prepaidReturnRefund (refundKey : String)
  | aiPackReturnRefund (refundKey : String)
  | upgrade (workspaceId planId : Id) (stamp : Int)
  | renewal (workspaceId : Id) (stamp : Int) (uuid : Id)
  | renewalReprice (workspaceId planId : Id) (stamp : Int) (uuid : Id)
  | renewalChange (workspaceId uuid : Id)
  | prepaidReturn (workspaceId : Id) (cause : ReturnCause) (uuid : Id)
  | other (text : String)
  deriving DecidableEq

/-- What later calls read of a row's `description`. -/
inductive Description where
  | none
  | pack (packId : String) (creditMinor walletAmount : Int)
  | packReturn (packLedgerId : Id) (refundId provider : String) (reclaimedWallet : Int)
  | refund (refundId provider : String) (shortfallMinor releasedPrepaidMinor : Int)
  deriving DecidableEq

/-- `billing_account_ledger`, keyed by `idempotency_key`; append-only. -/
structure LedgerRow where
  id : Id
  workspaceId : Id
  kind : Kind
  amountMinor : Int
  balanceAfter : Int
  currency : String
  planId : Option Id := none
  billingInterval : Option Interval := none
  periodStart : Option Timestamp := none
  periodEnd : Option Timestamp := none
  paymentId : Option Id := none
  description : Description := .none
  actorId : Option Id := none
  createdAt : Timestamp
  deriving DecidableEq

inductive Purpose where
  | topup | renewal | upgrade | plan | aiPack
  deriving DecidableEq

inductive Source where
  | checkout | cardSetup | cardRenewal | cardCharge
  deriving DecidableEq

inductive PaymentStatus where
  | pending | succeeded | failed | canceled | expired
  deriving DecidableEq

/-- What a refund left under `purpose_detail.refunds`. -/
structure RefundRecord where
  amountMinor : Int
  creditMinor : Int
  shortfallMinor : Int
  releasedPrepaidMinor : Int
  packReturnedMinor : Int
  packReclaimedWallet : Int
  deriving DecidableEq

structure PurposeDetail where
  planId : Option Id := none
  billingInterval : Option String := none
  periodEnd : Option Timestamp := none
  packId : Option String := none
  priceMinor : Option Int := none
  creditMinor : Option Int := none
  refunds : Table String RefundRecord := .empty
  deriving DecidableEq

inductive BillingError where
  | badCurrency | idempotencyConflict | amountInvalid | insufficientBalance | intervalInvalid
  | planActive | planNotAvailable | planPriceUnavailable | noPaidPlan | periodChanged
  | alreadyRenewed | renewalToFree | quoteChanged | notAnUpgrade
  | keyRequired | aiPackNotAvailable | aiFxUnavailable | aiPackNotFound
  | paymentNotFound | paymentNotVerified | accountCurrencyMismatch
  | paymentAmountMismatch | paymentCurrencyMismatch | paymentReferenceMissing
  | paymentReferenceReused | paymentReferenceMismatch
  | refundInvalid | refundUnsettledPayment
  | adjustZero | adjustMissingKey | adjustBadCategory | adjustReasonRequired | adjustTooLarge
  | adjustKeyReused | adjustRateLimited | adjustBalanceChanged
  | cardSetupInvalid | cardConflict | cardStatusInvalid | cardNotFound
  | cardChargeAmountInvalid
  | notNullViolation | checkViolation | uniqueViolation
  | wallet (e : WalletError)
  deriving DecidableEq

inductive CardRefusal where
  | cardNotFound | priceUnavailable | amountBelowPrice | noPaidPlan | cardNotLive | autoRenewOff
  | alreadyRenewed | renewalToFree
  deriving DecidableEq

inductive PurposeError where
  | raised (e : BillingError)
  | refused (r : CardRefusal)
  deriving DecidableEq

/-- `purpose_result`: the error, or the ledger row the purpose is charged in and
what it did. -/
inductive PurposeResult where
  | error (e : PurposeError) (fallback : Option BillingError)
  | done (ledgerId : Option Id)
  | pack (packLedgerId : Id)
  deriving DecidableEq

inductive Review where
  | amountMismatch | chargeMismatch
  | unexpectedCharge (origin : String)
  | purpose (e : PurposeError)
  deriving DecidableEq

/-- `billing_account_payments` -/
structure Payment where
  workspaceId : Id
  provider : String
  currency : String
  amountMinor : Int
  netMinor : Int
  taxMinor : Int
  purpose : Purpose := .topup
  purposeDetail : PurposeDetail := {}
  purposeResult : Option PurposeResult := none
  status : PaymentStatus := .pending
  providerRef : Option String := none
  providerPaymentId : Option String := none
  ledgerId : Option Id := none
  createdBy : Option Id := none
  source : Source := .checkout
  cardId : Option Id := none
  review : Option Review := none
  verifiedAmountMinor : Option Int := none
  verifiedAt : Option Timestamp := none
  refundedMinor : Int := 0
  amount_check : 0 < netMinor ∧ 0 ≤ taxMinor ∧ amountMinor = netMinor + taxMinor
  deriving DecidableEq

inductive CardStatus where
  | active | pastDue | canceling | canceled
  deriving DecidableEq

def CardStatus.live (s : CardStatus) : Bool := s = .active ∨ s = .pastDue

inductive CancelReason where
  | duplicate | notRenewed | planEnded | given (text : String)
  deriving DecidableEq

/-- `billing_account_cards` -/
structure Card where
  workspaceId : Id
  provider : String
  subscriptionId : String
  currency : String
  status : CardStatus := .active
  cancelReason : Option CancelReason := none
  deriving DecidableEq

inductive ChangeType where
  | purchase | renewal | change | upgrade | expire | changeScheduled | changeCancelled
  deriving DecidableEq

/-- `plan_change_log` -/
structure PlanChange where
  workspaceId : Id
  oldPlanId : Option Id
  newPlanId : Option Id
  changeType : ChangeType
  changedBy : Option Id
  periodStart : Option Timestamp
  periodEnd : Option Timestamp
  ledgerId : Option Id := none
  prepaidMinor : Option Int := none
  deriving DecidableEq

/-- One entry of `billing_settings.ai_packs` for a currency. -/
structure Pack where
  currency : String
  id : String
  active : Bool := true
  priceMinor : JsonValue
  creditMinor : JsonValue
  deriving DecidableEq

/-- An open row of `ai_exchange_rates`. -/
structure ExchangeRate where
  fromCurrency : String
  toCurrency : String
  rate : Rat
  deriving DecidableEq

inductive Region where
  | iran | turkey | other
  deriving DecidableEq

/-- `billing_region_currency` -/
def Region.currency : Region → String
  | iran => "IRR"
  | turkey => "TRY"
  | other => "USD"

structure Settings where
  region : Region := .other
  packs : List Pack := []
  rates : List ExchangeRate := []
  allowanceOverrides : Table Id Int := .empty
  deriving DecidableEq

structure Db where
  nextId : Id
  wallet : Wallet
  settings : Settings
  plans : Table Id Plan
  subscriptions : Table Id Subscription
  accounts : Table Id Account
  ledger : Table Key LedgerRow
  payments : Table Id Payment
  cards : Table Id Card
  planChangeLog : List PlanChange
  deriving DecidableEq

/-- No rows. -/
def Db.empty : Db where
  nextId := 0
  wallet := .empty
  settings := {}
  plans := .empty
  subscriptions := .empty
  accounts := .empty
  ledger := .empty
  payments := .empty
  cards := .empty
  planChangeLog := []

abbrev BillingTx := Tx Db BillingError

end Kindred.Billing
