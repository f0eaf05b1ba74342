import Kindred.AiWallet.Schema
import Kindred.Lib.Waterfall

namespace Kindred.AiWallet
open Lib (total)
open Lib.Tx (require)

/-! Single statements. -/

/-- `ai_wallet_lock`: the wallet row exists from here on. -/
def Wallet.lock (w : Wallet) (workspaceId : Id) : Wallet :=
  if (w.wallets.get workspaceId).isSome then w
  else { w with wallets := w.wallets.put workspaceId {} }

/-- `ai_wallet_project` -/
def Wallet.project (w : Wallet) (workspaceId : Id) : Wallet :=
  let live := fun r : Id × Lot => r.2.workspaceId = workspaceId ∧ r.2.live
  { w with wallets := w.wallets.update workspaceId fun row =>
      { row with availableAmount := total live (fun r => r.2.free) w.lots.rows
                 reservedAmount := total live (fun r => r.2.reservedAmount) w.lots.rows } }

/-- `ai_available_balance` -/
def Wallet.availableBalance (w : Wallet) (now : Timestamp) (workspaceId : Id) : Int :=
  total (fun r : Id × Lot => r.2.workspaceId = workspaceId ∧ r.2.live ∧ r.2.unexpired now)
    (fun r => r.2.free) w.lots.rows

def Wallet.spendable (w : Wallet) (now : Timestamp) (workspaceId : Id) : List (Id × Lot) :=
  (w.lots.rows.filter fun r => r.2.workspaceId = workspaceId ∧ r.2.live ∧ r.2.unexpired now ∧
    r.2.reservedAmount < r.2.remainingAmount).insertionSort fun a b => a.2.spentBefore b.2

/-- `GREATEST(COALESCE(p, 0), 0)` -/
def asked (p : Option Int) : Int := max (p.getD 0) 0

def insertLot (lot : Lot) : WalletTx Id := do
  let w ← get
  set { w with nextId := w.nextId + 1, lots := w.lots.put w.nextId lot }
  return w.nextId

def updateLot (id : Id) (f : Lot → Option Lot) : WalletTx Unit := do
  let w ← get
  match w.lots.get id with
  | none => return ()
  | some lot =>
    match f lot with
    | none => throw .lotAmountsSane
    | some lot' => set { w with lots := w.lots.put id lot' }

def insertLedger (entry : LedgerEntry) : WalletTx Id := do
  let w ← get
  set { w with nextId := w.nextId + 1, ledger := w.ledger.put w.nextId entry }
  return w.nextId

def insertLedgerAllocation (ledgerEntryId lotId : Id) (amount : Int) : WalletTx Unit :=
  modify fun w =>
    { w with ledgerAllocations := w.ledgerAllocations ++ [⟨ledgerEntryId, lotId, amount⟩] }

def insertReservation (workspaceId : Id) (runId : Option Id) : WalletTx Id := do
  let w ← get
  require (runId.all fun r => (w.runs.get r).isSome) .foreignKey
  set { w with nextId := w.nextId + 1
               reservations := w.reservations.put w.nextId ⟨workspaceId, runId, 0, .active⟩ }
  return w.nextId

def insertReservationAllocation (reservationId lotId : Id) (amount : Int) : WalletTx Unit := do
  let w ← get
  require ((w.reservations.get reservationId).isSome) .foreignKey
  let row : ReservationAllocation := ⟨reservationId, lotId, amount⟩
  set { w with reservationAllocations := w.reservationAllocations ++ [row] }

def Wallet.sumReservation (w : Wallet) (reservationId : Id) : Wallet :=
  let sum := total (fun a => a.reservationId = reservationId) ReservationAllocation.amount
    w.reservationAllocations
  { w with reservations := w.reservations.update reservationId fun r => { r with amount := sum } }

def Wallet.linkRun (w : Wallet) (runId : Option Id) (reservationId : Id) : Wallet :=
  match runId with
  | none => w
  | some run =>
    { w with runs := w.runs.update run fun r => { r with reservationId := some reservationId } }

/-- The `result_ref` of an earlier call with this key. -/
def Wallet.replay (w : Wallet) (commandKey : Option String) : Option Id :=
  commandKey.bind fun key => (w.commands.get key).map Command.resultRef

/-- `ON CONFLICT (idempotency_key) DO NOTHING` -/
def Wallet.recordCommand (w : Wallet) (commandKey : Option String) (c : Command) : Wallet :=
  match commandKey with
  | none => w
  | some key =>
    if (w.commands.get key).isSome then w else { w with commands := w.commands.put key c }

def aiBeginRun (workspaceId : Id) (operationKey requestHash : String) (mode : Option RunMode) :
    WalletTx Id := do
  let w ← get
  match w.runs.rows.find? fun r => r.2.operationKey = operationKey with
  | some (id, r) =>
    require (r.requestHash = requestHash) .idempotencyConflict
    return id
  | none =>
    let run : Run := { workspaceId, operationKey, requestHash, mode := mode.getD .meterOnly }
    set { w with nextId := w.nextId + 1, runs := w.runs.put w.nextId run }
    return w.nextId

/-- Hold up to `left` of the lots for a reservation; answers what was not found. -/
def holdLots (reservationId : Id) : Int → List (Id × Lot) → WalletTx Int
  | left, [] => return left
  | left, (id, lot) :: lots =>
    if left ≤ 0 then return left
    else if 0 < min left lot.free then do
      updateLot id (Lot.hold (min left lot.free))
      insertReservationAllocation reservationId id (min left lot.free)
      holdLots reservationId (left - min left lot.free) lots
    else holdLots reservationId left lots

inductive ReserveResult where
  | replayed (reservationId : Id) (reserved : Option Int)
  | reserved (reservationId : Id) (requested : Int) (reserved : Option Int)
      (shortfall : Int)

def aiReserve (now : Timestamp) (workspaceId : Id) (runId : Option Id) (amount : Option Int)
    (commandKey : Option String) : WalletTx ReserveResult := do
  modify (·.lock workspaceId)
  let w ← get
  match w.replay commandKey with
  | some id => return .replayed id ((w.reservations.get id).map (·.amount))
  | none =>
    let id ← insertReservation workspaceId runId
    let left ← holdLots id (asked amount) (w.spendable now workspaceId)
    modify (·.sumReservation id)
    modify (·.linkRun runId id)
    modify (·.project workspaceId)
    modify (·.recordCommand commandKey ⟨.reserve, workspaceId, runId, id⟩)
    let w ← get
    return .reserved id (amount.getD 0) ((w.reservations.get id).map (·.amount)) left

def aiTopupReservation (now : Timestamp) (runId : Id) (delta : Option Int) :
    WalletTx Int := do
  let w ← get
  match w.runs.get runId with
  | none => return 0
  | some run =>
    match run.reservationId with
    | none => return 0
    | some id =>
      modify (·.lock run.workspaceId)
      let left ← holdLots id (asked delta) (w.spendable now run.workspaceId)
      modify (·.sumReservation id)
      modify (·.project run.workspaceId)
      return asked delta - left

def Wallet.allocationsOf (w : Wallet) (reservationId : Id) : List ReservationAllocation :=
  w.reservationAllocations.filter fun a => a.reservationId = reservationId

def giveBack (a : ReservationAllocation) : WalletTx Unit :=
  updateLot a.lotId (Lot.giveBack a.amount)

def Lot.finish (l : Lot) (workspaceId : Id) : Lot :=
  if h : l.workspaceId = workspaceId ∧ l.state = .expiring ∧ l.reservedAmount = 0 then
    { l with state := .expired, remainingAmount := 0
             amounts_sane := ⟨by rw [h.2.2], by rw [h.2.2]⟩ }
  else l

def Reservation.release (r : Reservation) : Reservation :=
  if r.state = .active then { r with state := .released, amount := 0 } else r

def aiReleaseReservation (reservationId : Id) : WalletTx Unit := do
  let w ← get
  match w.reservations.get reservationId with
  | none => return ()
  | some r =>
    modify (·.lock r.workspaceId)
    (w.allocationsOf reservationId).forM giveBack
    modify fun w => { w with
      reservationAllocations :=
        w.reservationAllocations.filter fun a => a.reservationId ≠ reservationId
      reservations := w.reservations.update reservationId Reservation.release }
    modify (·.project r.workspaceId)
    modify fun w => { w with lots := w.lots.mapValues fun l => l.finish r.workspaceId }
    modify (·.project r.workspaceId)

/-- What the wallet pays of a charge and what the platform absorbs, once the
reservation is topped up to it. -/
def fundCharge (now : Timestamp) (runId : Id) (reservationId : Option Id) (charge : Int) :
    WalletTx (Int × Int) := do
  if 0 < charge then
    match reservationId with
    | none => return (0, charge)
    | some id =>
      let w ← get
      match w.reservations.get id with
      | none => return (charge, 0)
      | some r =>
        if r.amount < charge then
          let added ← aiTopupReservation now runId (some (charge - r.amount))
          if added < charge - r.amount then
            -- CAP_AND_ABSORB: never create a negative balance.
            let absorbed := charge - r.amount - added
            return (charge - absorbed, absorbed)
          else return (charge, 0)
        else return (charge, 0)
  else return (charge, 0)

def Wallet.chargeOrder (w : Wallet) (allocations : List ReservationAllocation) :
    List (Id × Int) :=
  let joined := allocations.filterMap fun a => (w.lots.get a.lotId).map fun l => (a, l.expiresAt)
  (joined.insertionSort fun a b => expiresFirst a.2 b.2).map fun r => (r.1.lotId, r.1.amount)

def chargeLots (ledgerEntryId : Id) : Int → List (Id × Int) → WalletTx Unit
  | _, [] => return ()
  | left, (lotId, amount) :: rows =>
    if left ≤ 0 then return ()
    else do
      updateLot lotId (Lot.charge (min left amount))
      insertLedgerAllocation ledgerEntryId lotId (min left amount)
      chargeLots ledgerEntryId (left - min left amount) rows

inductive SettleResult where
  | replayed (settlementId : Id)
  | settled (settlementId : Id) (charged absorbed availableBefore availableAfter : Int)

def insertSettlement (runId : Id) (settlement : Id → Settlement) : WalletTx Id := do
  let w ← get
  set { w with nextId := w.nextId + 1
               settlements := w.settlements.put runId (settlement w.nextId) }
  return w.nextId

def postCharge (run : Run) (runId : Id) (cycle : String) (charge : Int) : WalletTx Unit :=
  if 0 < charge then do
    let entry ← insertLedger
      { workspaceId := run.workspaceId, runId, entryType := .charge, amount := -charge
        billingCycleId := cycle, reason := "ai_run_settlement" }
    let w ← get
    chargeLots entry charge (w.chargeOrder (run.reservationId.elim [] w.allocationsOf))
    modify fun w => { w with
      settlements := w.settlements.update runId fun s => { s with ledgerEntryId := entry }
      wallets := w.wallets.update run.workspaceId fun row =>
        { row with lifetimeCharged := row.lifetimeCharged + charge } }
  else return ()

def closeReservation (reservationId : Option Id) : WalletTx Unit :=
  match reservationId with
  | none => return ()
  | some id => do
    aiReleaseReservation id
    modify fun w => { w with
      reservations := w.reservations.update id fun r => { r with state := .settled } }

def aiSettleRun (now : Timestamp) (runId : Id) (commandKey : Option String)
    (providerCostUsd internalCostIrr customerChargeIrr : Option Int)
    (billingCycleId : Option String) : WalletTx SettleResult := do
  let w ← get
  match w.replay commandKey with
  | some id => return .replayed id
  | none =>
    match w.runs.get runId with
    | none => throw .unknownRun
    | some run =>
      match w.settlements.get runId with
      | some s => return .replayed s.id
      | none =>
        modify (·.lock run.workspaceId)
        let cycle := billingCycleId.getD (monthText now)
        let availableBefore := w.availableBalance now run.workspaceId
        let (charge, absorbed) ← fundCharge now runId run.reservationId
          (if run.mode = .meterOnly then 0 else asked customerChargeIrr)
        let settlement ← insertSettlement runId fun id =>
          { id, workspaceId := run.workspaceId, billingCycleId := cycle
            providerCostUsd := providerCostUsd.getD 0
            internalCostIrr := internalCostIrr.getD 0
            customerChargeIrr := charge, platformAbsorbed := absorbed }
        postCharge run runId cycle charge
        closeReservation run.reservationId
        modify fun w => { w with runs := w.runs.update runId fun r =>
          { r with status := .settled
                   providerCostUsd := providerCostUsd.getD 0
                   internalCostIrr := internalCostIrr.getD 0
                   customerChargeIrr := charge
                   platformAbsorbed := r.platformAbsorbed + absorbed } }
        modify (·.project run.workspaceId)
        let after ← get
        modify (·.recordCommand commandKey ⟨.settleRun, run.workspaceId, runId, settlement⟩)
        return .settled settlement charge absorbed availableBefore
          (after.availableBalance now run.workspaceId)

def fundLot (lot : Lot) (entryType : EntryType) (reason : Option String) : WalletTx (Id × Id) := do
  let id ← insertLot lot
  let entry ← insertLedger
    { workspaceId := lot.workspaceId, entryType, amount := lot.originalAmount
      billingCycleId := lot.billingCycleId, reason }
  insertLedgerAllocation entry id lot.originalAmount
  return (id, entry)

def allowanceLot (now : Timestamp) (workspaceId : Id) (amount : Option Int)
    (billingCycleId : Option String) (allowanceSource : String) (expiresAt : Option Timestamp) :
    WalletTx Id := do
  let w ← get
  match w.lots.rows.find? fun r => r.2.workspaceId = workspaceId ∧
      r.2.sourceType = .planAllowance ∧ billingCycleId.isSome ∧
      r.2.billingCycleId = billingCycleId ∧ r.2.allowanceSource = some allowanceSource with
  | some r => return r.1
  | none =>
    let (lot, _) ← fundLot { Lot.fresh workspaceId .planAllowance (asked amount) now with
      allowanceSource := some allowanceSource, billingCycleId, expiresAt } .grant "plan_allowance"
    return lot

def aiGrantAllowance (now : Timestamp) (workspaceId : Id) (amount : Option Int)
    (billingCycleId allowanceSource : Option String) (expiresAt : Option Timestamp)
    (commandKey : Option String) : WalletTx Id := do
  modify (·.lock workspaceId)
  let w ← get
  match w.replay commandKey with
  | some id => return id
  | none =>
    let lot ← allowanceLot now workspaceId amount billingCycleId (allowanceSource.getD "plan")
      expiresAt
    modify (·.project workspaceId)
    modify (·.recordCommand commandKey
      { commandType := .grantAllowance, workspaceId, resultRef := lot })
    return lot

def aiPurchaseCredit (now : Timestamp) (workspaceId : Id) (amount : Option Int)
    (commandKey reason : Option String) : WalletTx Id := do
  modify (·.lock workspaceId)
  let w ← get
  match w.replay commandKey with
  | some id => return id
  | none =>
    let (lot, _) ← fundLot (Lot.fresh workspaceId .purchased (asked amount) now) .purchase reason
    modify (·.project workspaceId)
    modify (·.recordCommand commandKey
      { commandType := .purchase, workspaceId, resultRef := lot })
    return lot

def Wallet.chargesOf (w : Wallet) (runId : Id) : List (Id × Int × Lot) :=
  w.ledgerAllocations.filterMap fun la =>
    match w.ledger.get la.ledgerEntryId with
    | none => none
    | some entry =>
      if entry.runId = some runId ∧ entry.entryType = .charge then
        (w.lots.get la.lotId).map fun l => (la.lotId, la.amount, l)
      else none

/-- The lot that takes back `take` of a charge: its own, or a new one of this
month where the charged allowance has expired. -/
def refundTarget (now : Timestamp) (workspaceId lotId : Id) (lot : Lot) (take : Int) :
    WalletTx Id :=
  if lot.sourceType = .planAllowance ∧ (lot.state = .expired ∨ !lot.unexpired now) then do
    require (0 ≤ take) .lotAmountsSane
    insertLot { Lot.fresh workspaceId .refundCompensation take now with
      billingCycleId := some (monthText now)
      expiresAt := some (Lib.Calendar.monthFloor now 1) }
  else do
    updateLot lotId fun l => l.withAmounts (l.remainingAmount + take) l.reservedAmount
      (if l.state = .depleted then .active else l.state)
    return lotId

def refundLots (now : Timestamp) (workspaceId ledgerEntryId : Id) :
    Int → List (Id × Int × Lot) → WalletTx Int
  | _, [] => return 0
  | left, (lotId, amount, lot) :: rows =>
    if left ≤ 0 then return 0
    else do
      let target ← refundTarget now workspaceId lotId lot (min left amount)
      insertLedgerAllocation ledgerEntryId target (min left amount)
      let refunded ← refundLots now workspaceId ledgerEntryId (left - min left amount) rows
      return min left amount + refunded

inductive RefundResult where
  | replayed (ledgerEntryId : Id)
  | refunded (ledgerEntryId : Id) (refunded : Int)
  deriving DecidableEq

def aiRefundRun (now : Timestamp) (runId : Id) (amount : Option Int)
    (reason commandKey : Option String) : WalletTx RefundResult := do
  let w ← get
  match w.replay commandKey with
  | some id => return .replayed id
  | none =>
    match w.runs.get runId with
    | none => throw .unknownRun
    | some run =>
      modify (·.lock run.workspaceId)
      let charged := ((w.settlements.get runId).map (·.customerChargeIrr)).getD 0
      require (0 < charged) .nothingToRefund
      let already := total
        (fun r : Id × LedgerEntry => r.2.runId = some runId ∧ r.2.entryType = .refund)
        (fun r => r.2.amount) w.ledger.rows
      let left := min (asked amount) (charged - already)
      require (0 < left) .refundCapExceeded
      let entry ← insertLedger
        { workspaceId := run.workspaceId, runId, entryType := .refund, amount := left
          billingCycleId := some (monthText now), reason := reason.getD "refund" }
      let refunded ← refundLots now run.workspaceId entry left (w.chargesOf runId)
      modify (·.project run.workspaceId)
      modify (·.recordCommand commandKey ⟨.refund, run.workspaceId, runId, entry⟩)
      return .refunded entry refunded

def aiAdjustBalance (now : Timestamp) (workspaceId : Id) (amount : Option Int)
    (reason commandKey : Option String) : WalletTx Id := do
  let w ← get
  match w.replay commandKey with
  | some id => return id
  | none =>
    modify (·.lock workspaceId)
    let (_, entry) ← fundLot (Lot.fresh workspaceId .adjustment (asked amount) now) .adjustment
      (reason.getD "manual_adjustment")
    modify (·.project workspaceId)
    modify (·.recordCommand commandKey
      { commandType := .adjustment, workspaceId, resultRef := entry })
    return entry

def writeOff (reason : String) (id : Id) (lot : Lot) : WalletTx Unit :=
  if 0 < lot.free then do
    let entry ← insertLedger
      { workspaceId := lot.workspaceId, entryType := .expiration, amount := -lot.free
        billingCycleId := lot.billingCycleId, reason }
    insertLedgerAllocation entry id lot.free
  else return ()

def retireLot (reason : String) (r : Id × Lot) : WalletTx Unit := do
  writeOff reason r.1 r.2
  updateLot r.1 fun l => l.withAmounts r.2.reservedAmount l.reservedAmount
    (if 0 < r.2.reservedAmount then .expiring else .expired)

def expireLot (r : Id × Lot) : WalletTx Unit := do
  retireLot "lot_expired" r
  modify (·.project r.2.workspaceId)

def aiExpireLots (now : Timestamp) : WalletTx Nat := do
  let w ← get
  let due := w.lots.rows.filter fun r =>
    r.2.live ∧ !r.2.unexpired now ∧ 0 < r.2.remainingAmount
  due.forM expireLot
  return due.length

inductive WalletCommand where
  | grantAllowance (workspaceId : Id) (amount : Option Int)
      (billingCycleId allowanceSource : Option String) (expiresAt : Option Timestamp)
      (commandKey : Option String)
  | purchaseCredit (workspaceId : Id) (amount : Option Int) (commandKey reason : Option String)
  | beginRun (workspaceId : Id) (operationKey requestHash : String) (mode : Option RunMode)
  | reserve (workspaceId : Id) (runId : Option Id) (amount : Option Int)
      (commandKey : Option String)
  | topupReservation (runId : Id) (delta : Option Int)
  | releaseReservation (reservationId : Id)
  | settleRun (runId : Id) (commandKey : Option String)
      (providerCostUsd internalCostIrr customerChargeIrr : Option Int)
      (billingCycleId : Option String)
  | refundRun (runId : Id) (amount : Option Int) (reason commandKey : Option String)
  | adjustBalance (workspaceId : Id) (amount : Option Int) (reason commandKey : Option String)
  | expireLots

def WalletCommand.call (now : Timestamp) : WalletCommand → WalletTx Unit
  | grantAllowance ws amount cycle source expires key =>
    discard (aiGrantAllowance now ws amount cycle source expires key)
  | purchaseCredit ws amount key reason => discard (aiPurchaseCredit now ws amount key reason)
  | beginRun ws key hash mode => discard (aiBeginRun ws key hash mode)
  | reserve ws run amount key => discard (aiReserve now ws run amount key)
  | topupReservation run delta => discard (aiTopupReservation now run delta)
  | releaseReservation id => aiReleaseReservation id
  | settleRun run key usd irr charge cycle =>
    discard (aiSettleRun now run key usd irr charge cycle)
  | refundRun run amount reason key => discard (aiRefundRun now run amount reason key)
  | adjustBalance ws amount reason key => discard (aiAdjustBalance now ws amount reason key)
  | expireLots => discard (aiExpireLots now)

def walletStep (w : Wallet) (c : Timestamp × WalletCommand) : Wallet :=
  Lib.Tx.commit (c.2.call c.1) w

end Kindred.AiWallet
