import Kindred.Database
import Mathlib.Data.List.Sort
import Mathlib.Algebra.BigOperators.Group.List.Basic

namespace Kindred.AiWallet

/-! Credit is counted in millionths of a Rial, the scale of every `numeric(24,6)`
column; the server rounds what it sends to that scale (`toStoredIrr`). -/

inductive SourceType where
  | planAllowance | purchased | adjustment | refundCompensation
  deriving DecidableEq

inductive LotState where
  | active | expiring | expired | depleted
  deriving DecidableEq

/-- `workspace_ai_balance_lots`; its check constraint is a field. -/
structure Lot where
  workspaceId : Id
  sourceType : SourceType
  allowanceSource : Option String := none
  billingCycleId : Option String := none
  originalAmount : Int
  remainingAmount : Int
  reservedAmount : Int := 0
  expiresAt : Option Timestamp := none
  state : LotState := .active
  createdAt : Timestamp
  amounts_sane : 0 ≤ reservedAmount ∧ reservedAmount ≤ remainingAmount
  deriving DecidableEq

/-- The lot with other amounts, unless `lot_amounts_sane` refuses them. -/
def Lot.withAmounts (l : Lot) (remaining reserved : Int) (state : LotState) : Option Lot :=
  if h : 0 ≤ reserved ∧ reserved ≤ remaining then
    some { l with remainingAmount := remaining, reservedAmount := reserved, state := state
                  amounts_sane := h }
  else none

/-- `amount` more of the lot is reserved. -/
def Lot.hold (amount : Int) (l : Lot) : Option Lot :=
  l.withAmounts l.remainingAmount (l.reservedAmount + amount) l.state

def Lot.giveBack (amount : Int) (l : Lot) : Option Lot :=
  l.withAmounts l.remainingAmount (max (l.reservedAmount - amount) 0) l.state

def Lot.charge (amount : Int) (l : Lot) : Option Lot :=
  l.withAmounts (l.remainingAmount - amount) (max (l.reservedAmount - amount) 0)
    (if l.remainingAmount - amount ≤ 0 then .depleted else l.state)

/-- A new lot of `max(amount, 0)`, nothing of it reserved. -/
def Lot.fresh (workspaceId : Id) (sourceType : SourceType) (amount : Int) (now : Timestamp) :
    Lot where
  workspaceId := workspaceId
  sourceType := sourceType
  originalAmount := max amount 0
  remainingAmount := max amount 0
  createdAt := now
  amounts_sane := ⟨le_refl 0, le_max_right amount 0⟩

def Lot.free (l : Lot) : Int := l.remainingAmount - l.reservedAmount

def Lot.live (l : Lot) : Bool := l.state = .active ∨ l.state = .expiring

def Lot.unexpired (l : Lot) (now : Timestamp) : Bool :=
  match l.expiresAt with
  | none => true
  | some e => now < e

/-- `ORDER BY (expires_at IS NULL), expires_at ASC`. -/
def expiresFirst (a b : Option Timestamp) : Bool :=
  match a, b with
  | some x, some y => x ≤ y
  | some _, none => true
  | none, some _ => false
  | none, none => true

/-- The same, then `created_at ASC`. -/
def Lot.spentBefore (a b : Lot) : Bool :=
  if a.expiresAt = b.expiresAt then a.createdAt ≤ b.createdAt
  else expiresFirst a.expiresAt b.expiresAt

inductive ReservationState where
  | active | settled | released | expired
  deriving DecidableEq

structure Reservation where
  workspaceId : Id
  runId : Option Id
  amount : Int
  state : ReservationState := .active
  deriving DecidableEq

structure ReservationAllocation where
  reservationId : Id
  lotId : Id
  amount : Int
  deriving DecidableEq

inductive EntryType where
  | charge | refund | adjustment | grant | purchase | expiration
  deriving DecidableEq

/-- `workspace_ai_ledger`: rows are only ever inserted. -/
structure LedgerEntry where
  workspaceId : Id
  runId : Option Id := none
  entryType : EntryType
  amount : Int
  billingCycleId : Option String := none
  reason : Option String := none
  deriving DecidableEq

structure LedgerAllocation where
  ledgerEntryId : Id
  lotId : Id
  amount : Int
  deriving DecidableEq

inductive CommandType where
  | settleRun | refund | adjustment | grantAllowance | reserve | release | purchase
  deriving DecidableEq

/-- `ai_billing_commands`, keyed by `idempotency_key`. -/
structure Command where
  commandType : CommandType
  workspaceId : Id
  runId : Option Id := none
  resultRef : Id
  deriving DecidableEq

inductive RunMode where
  | meterOnly | enforced
  deriving DecidableEq

inductive RunStatus where
  | running | usageRecorded | settlementPending | settled | failed | cancelled
  deriving DecidableEq

/-- `ai_runs`, its billing columns. -/
structure Run where
  workspaceId : Id
  operationKey : String
  requestHash : String
  mode : RunMode := .meterOnly
  status : RunStatus := .running
  reservationId : Option Id := none
  providerCostUsd : Int := 0
  internalCostIrr : Int := 0
  customerChargeIrr : Int := 0
  platformAbsorbed : Int := 0
  deriving DecidableEq

/-- `ai_run_settlements`, keyed by `run_id`. -/
structure Settlement where
  id : Id
  workspaceId : Id
  billingCycleId : String
  providerCostUsd : Int
  internalCostIrr : Int
  customerChargeIrr : Int
  platformAbsorbed : Int
  ledgerEntryId : Option Id := none
  deriving DecidableEq

/-- `workspace_ai_wallets`: the projection of the lots, and the lifetime charge. -/
structure WalletRow where
  availableAmount : Int := 0
  reservedAmount : Int := 0
  lifetimeCharged : Int := 0
  deriving DecidableEq

structure Wallet where
  nextId : Id
  wallets : Table Id WalletRow
  lots : Table Id Lot
  reservations : Table Id Reservation
  reservationAllocations : List ReservationAllocation
  ledger : Table Id LedgerEntry
  ledgerAllocations : List LedgerAllocation
  commands : Table String Command
  runs : Table Id Run
  settlements : Table Id Settlement
  deriving DecidableEq

/-- No rows. -/
def Wallet.empty : Wallet where
  nextId := 0
  wallets := .empty
  lots := .empty
  reservations := .empty
  reservationAllocations := []
  ledger := .empty
  ledgerAllocations := []
  commands := .empty
  runs := .empty
  settlements := .empty

inductive WalletError where
  | idempotencyConflict | unknownRun | nothingToRefund | refundCapExceeded
  | lotAmountsSane | foreignKey
  deriving DecidableEq

abbrev WalletTx := Tx Wallet WalletError

end Kindred.AiWallet
