import Kindred.AiWallet.Books
import Kindred.Lib.Exclusive

/-! Calls of one command under way at the same time. Every statement sees what is
committed; the rows under a call's locks are written by nobody else until it
commits, so what it does under them is run where it commits. -/

namespace Kindred.AiWallet
open Lib (AtMostOne Table Meets run run_keeps total)
open Lib.Tx

/-- A command that takes a key. -/
inductive KeyedCommand where
  | grant (workspaceId : Id) (amount : Option Int) (billingCycleId allowanceSource : Option String)
      (expiresAt : Option Timestamp)
  | purchase (workspaceId : Id) (amount : Option Int) (reason : Option String)
  | adjust (workspaceId : Id) (amount : Option Int) (reason : Option String)
  | refund (runId : Id) (amount : Option Int) (reason : Option String)
  | settle (runId : Id) (providerCostUsd internalCostIrr customerChargeIrr : Option Int)
      (billingCycleId : Option String)
  deriving DecidableEq

/-- The function, and the workspace or the run it is called for. -/
def KeyedCommand.target : KeyedCommand → CommandType × Id
  | grant ws _ _ _ _ => (.grantAllowance, ws)
  | purchase ws _ _ => (.purchase, ws)
  | adjust ws _ _ => (.adjustment, ws)
  | refund run _ _ => (.refund, run)
  | settle run _ _ _ _ => (.settleRun, run)

def grantBody (now : Timestamp) (workspaceId : Id) (amount : Option Int)
    (billingCycleId allowanceSource : Option String) (expiresAt : Option Timestamp)
    (commandKey : Option String) : WalletTx Id := do
  let lot ← allowanceLot now workspaceId amount billingCycleId (allowanceSource.getD "plan")
    expiresAt
  modify (·.project workspaceId)
  modify (·.recordCommand commandKey
    { commandType := .grantAllowance, workspaceId, resultRef := lot })
  return lot

def purchaseBody (now : Timestamp) (workspaceId : Id) (amount : Option Int)
    (commandKey reason : Option String) : WalletTx Id := do
  let (lot, _) ← fundLot (Lot.fresh workspaceId .purchased (asked amount) now) .purchase reason
  modify (·.project workspaceId)
  modify (·.recordCommand commandKey { commandType := .purchase, workspaceId, resultRef := lot })
  return lot

def adjustBody (now : Timestamp) (workspaceId : Id) (amount : Option Int)
    (reason commandKey : Option String) : WalletTx Id := do
  modify (·.lock workspaceId)
  let (_, entry) ← fundLot (Lot.fresh workspaceId .adjustment (asked amount) now) .adjustment
    (reason.getD "manual_adjustment")
  modify (·.project workspaceId)
  modify (·.recordCommand commandKey { commandType := .adjustment, workspaceId, resultRef := entry })
  return entry

def refundBody (now : Timestamp) (run : Run) (runId : Id) (amount : Option Int)
    (reason commandKey : Option String) : WalletTx RefundResult := do
  let w ← get
  modify (·.lock run.workspaceId)
  let charged := ((w.settlements.get runId).map (·.customerChargeIrr)).getD 0
  require (0 < charged) .nothingToRefund
  let already := total
    (fun r : Id × LedgerEntry => r.2.runId = some runId ∧ r.2.entryType = .refund)
    (fun r => r.2.amount) w.ledger.rows
  let left := min (asked amount) (charged - already)
  require (0 < left) .refundCapExceeded
  let entry ← insertLedger
    { workspaceId := run.workspaceId, runId, entryType := .refund, amount := left
      billingCycleId := some (monthText now), reason := reason.getD "refund" }
  let refunded ← refundLots now run.workspaceId entry left (w.chargesOf runId)
  modify (·.project run.workspaceId)
  modify (·.recordCommand commandKey ⟨.refund, run.workspaceId, runId, entry⟩)
  return .refunded entry refunded

def settleBody (now : Timestamp) (run : Run) (runId : Id) (commandKey : Option String)
    (providerCostUsd internalCostIrr customerChargeIrr : Option Int)
    (billingCycleId : Option String) : WalletTx SettleResult := do
  let w ← get
  modify (·.lock run.workspaceId)
  let cycle := billingCycleId.getD (monthText now)
  let availableBefore := w.availableBalance now run.workspaceId
  let (charge, absorbed) ← fundCharge now runId run.reservationId
    (if run.mode = .meterOnly then 0 else asked customerChargeIrr)
  let settlement ← insertSettlement runId fun id =>
    { id, workspaceId := run.workspaceId, billingCycleId := cycle
      providerCostUsd := providerCostUsd.getD 0
      internalCostIrr := internalCostIrr.getD 0
      customerChargeIrr := charge, platformAbsorbed := absorbed }
  postCharge run runId cycle charge
  closeReservation run.reservationId
  modify fun w => { w with runs := w.runs.update runId fun r =>
    { r with status := .settled
             providerCostUsd := providerCostUsd.getD 0
             internalCostIrr := internalCostIrr.getD 0
             customerChargeIrr := charge
             platformAbsorbed := r.platformAbsorbed + absorbed } }
  modify (·.project run.workspaceId)
  let after ← get
  modify (·.recordCommand commandKey ⟨.settleRun, run.workspaceId, runId, settlement⟩)
  return .settled settlement charge absorbed availableBefore
    (after.availableBalance now run.workspaceId)

theorem aiGrantAllowance_eq (now : Timestamp) (ws : Id) (amount : Option Int)
    (cycle source : Option String) (expiresAt : Option Timestamp) (key : Option String) :
    aiGrantAllowance now ws amount cycle source expiresAt key = (do
      modify (·.lock ws)
      let w ← get
      match w.replay key with
      | some id => return id
      | none => grantBody now ws amount cycle source expiresAt key) := rfl

theorem aiPurchaseCredit_eq (now : Timestamp) (ws : Id) (amount : Option Int)
    (key reason : Option String) :
    aiPurchaseCredit now ws amount key reason = (do
      modify (·.lock ws)
      let w ← get
      match w.replay key with
      | some id => return id
      | none => purchaseBody now ws amount key reason) := rfl

theorem aiAdjustBalance_eq (now : Timestamp) (ws : Id) (amount : Option Int)
    (reason key : Option String) :
    aiAdjustBalance now ws amount reason key = (do
      let w ← get
      match w.replay key with
      | some id => return id
      | none => adjustBody now ws amount reason key) := rfl

theorem aiRefundRun_eq (now : Timestamp) (runId : Id) (amount : Option Int)
    (reason key : Option String) :
    aiRefundRun now runId amount reason key = (do
      let w ← get
      match w.replay key with
      | some id => return .replayed id
      | none =>
        match w.runs.get runId with
        | none => throw .unknownRun
        | some run => refundBody now run runId amount reason key) := by
  funext w
  rw [aiRefundRun, get_bind, get_bind]
  cases w.replay key with
  | some id => rfl
  | none => cases w.runs.get runId <;> rfl

theorem aiSettleRun_eq (now : Timestamp) (runId : Id) (key : Option String)
    (usd irr charge : Option Int) (cycle : Option String) :
    aiSettleRun now runId key usd irr charge cycle = (do
      let w ← get
      match w.replay key with
      | some id => return .replayed id
      | none =>
        match w.runs.get runId with
        | none => throw .unknownRun
        | some run =>
          match w.settlements.get runId with
          | some s => return .replayed s.id
          | none => settleBody now run runId key usd irr charge cycle) := by
  funext w
  rw [aiSettleRun, get_bind, get_bind]
  cases w.replay key with
  | some id => rfl
  | none =>
    cases w.runs.get runId with
    | none => rfl
    | some run => cases w.settlements.get runId <;> rfl

/-- Where a call is. `checked`: its key was not found; `runLocked`: it holds the
run's row; `locked`: it holds the wallet's. -/
inductive Phase where
  | started | checked | runLocked | locked
  | returned (applied : Bool) (resultRef : Id)
  | raised (e : WalletError)
  deriving DecidableEq

/-- The calls with one key. -/
structure Sessions where
  key : String
  wallet : Wallet
  calls : List (KeyedCommand × Phase)

def Sessions.start (key : String) (wallet : Wallet) (calls : List KeyedCommand) : Sessions :=
  ⟨key, wallet, calls.map fun c => (c, .started)⟩

def KeyedCommand.workspace (c : KeyedCommand) (w : Wallet) : Option Id :=
  match c with
  | grant ws _ _ _ _ | purchase ws _ _ | adjust ws _ _ => some ws
  | refund run _ _ | settle run _ _ _ _ => (w.runs.get run).map (·.workspaceId)

def Sessions.walletFree (s : Sessions) (workspaceId : Option Id) : Bool :=
  s.calls.all fun c => ¬(c.2 = .locked ∧ c.1.workspace s.wallet = workspaceId)

def KeyedCommand.run : KeyedCommand → Option Id
  | refund run _ _ | settle run _ _ _ _ => some run
  | _ => none

def KeyedCommand.settledIn (c : KeyedCommand) (w : Wallet) : Option Id :=
  match c with
  | settle run _ _ _ _ => (w.settlements.get run).map (·.id)
  | _ => none

def Sessions.runFree (s : Sessions) (runId : Id) : Bool :=
  s.calls.all fun c => ¬((c.2 = .runLocked ∨ c.2 = .locked) ∧ c.1.run = some runId)

def Sessions.at_ (s : Sessions) (i : Nat) (c : KeyedCommand) (phase : Phase) : Sessions :=
  { s with calls := s.calls.set i (c, phase) }

def RefundResult.ref : RefundResult → Id
  | replayed id | refunded id _ => id

def SettleResult.ref : SettleResult → Id
  | replayed id | settled id _ _ _ _ => id

def KeyedCommand.body (now : Timestamp) (key : String) (w : Wallet) : KeyedCommand → WalletTx Id
  | grant ws amount cycle source expiresAt => grantBody now ws amount cycle source expiresAt key
  | purchase ws amount reason => purchaseBody now ws amount key reason
  | adjust ws amount reason => adjustBody now ws amount reason key
  | refund runId amount reason =>
    match w.runs.get runId with
    | none => throw .unknownRun
    | some run => do return (← refundBody now run runId amount reason key).ref
  | settle runId usd irr charge cycle =>
    match w.runs.get runId with
    | none => throw .unknownRun
    | some run => do return (← settleBody now run runId key usd irr charge cycle).ref

def Sessions.check (s : Sessions) (i : Nat) (c : KeyedCommand) (found : Phase) : Sessions :=
  match s.wallet.replay s.key with
  | some id => s.at_ i c (.returned false id)
  | none => s.at_ i c found

/-- The call takes its next lock, and reads what it reads before the one after;
one that has to wait does nothing. -/
def Sessions.advance (s : Sessions) (i : Nat) (c : KeyedCommand) : Phase → Sessions
  | .started =>
    match c with
    | .grant ws _ _ _ _ | .purchase ws _ _ =>
      if s.walletFree ws then { s with wallet := s.wallet.lock ws }.check i c .locked else s
    | _ => s.check i c .checked
  | .checked =>
    match c.run with
    | none => if s.walletFree (c.workspace s.wallet) then s.at_ i c .locked else s
    | some runId =>
      if s.runFree runId then
        match s.wallet.runs.get runId, c.settledIn s.wallet with
        | none, _ => s.at_ i c (.raised .unknownRun)
        | some _, some settlement => s.at_ i c (.returned false settlement)
        | some _, none => s.at_ i c .runLocked
      else s
  | .runLocked => if s.walletFree (c.workspace s.wallet) then s.at_ i c .locked else s
  | _ => s

def Sessions.commit (s : Sessions) (now : Timestamp) (i : Nat) (c : KeyedCommand) : Sessions :=
  match c.body now s.key s.wallet s.wallet with
  | .ok (ref, wallet) => { s with wallet }.at_ i c (.returned true ref)
  | .error e => s.at_ i c (.raised e)

/-- The call goes one step on. -/
def Sessions.step (s : Sessions) (t : Timestamp × Nat) : Sessions :=
  match s.calls[t.2]? with
  | none => s
  | some (c, .locked) => s.commit t.1 t.2 c
  | some (c, phase) => s.advance t.2 c phase

/-- An adjustment or a refund that takes the wallet's lock finds its key as
unrecorded as when it looked. -/
def Sessions.Timely (s : Sessions) (t : Timestamp × Nat) : Prop :=
  match s.calls[t.2]? with
  | some (.adjust .., .checked) | some (.refund .., .runLocked) => s.wallet.replay s.key = none
  | _ => True

instance (s : Sessions) (t : Timestamp × Nat) : Decidable (s.Timely t) := by
  unfold Sessions.Timely
  split <;> infer_instance

structure Wallet.SameKeys (w w' : Wallet) : Prop where
  commands : w'.commands = w.commands
  settlements : ∀ run, (w'.settlements.get run).map (·.id) = (w.settlements.get run).map (·.id)

abbrev Unkeyed {α : Type} (m : WalletTx α) (w : Wallet) : Prop := MadeOf Wallet.SameKeys m w

section Bodies
variable {now : Timestamp} {ws runId : Id} {key : Option String} {w : Wallet} {k : String}
  {amount : Option Int} {reason : Option String} {α : Type} {cycle : Option String}
  {r : Id × Wallet}

theorem Unkeyed.same {m : WalletTx α} (h : Unkeyed m w) {r : α × Wallet} (hr : m w = .ok r) :
    w.SameKeys r.2 := by
  have hrun := h r hr
  generalize r.2 = w' at hrun
  induction hrun with
  | refl => exact ⟨rfl, fun _ => rfl⟩
  | tail _ hstep ih =>
    exact ⟨hstep.commands.trans ih.commands,
      fun run => (hstep.settlements run).trans (ih.settlements run)⟩

theorem OffBooks.unkeyed {m : WalletTx α} (h : OffBooks m w) : Unkeyed m w := by
  refine h.mono fun w w' hsame => ⟨hsame.commands, fun run => ?_⟩
  have hid := congrArg (Option.map Settlement.id) (hsame.settlements run)
  simpa only [Option.map_map, Function.comp_def, Settlement.unposted] using hid

theorem Wallet.SameKeys.replay {w' : Wallet} (h : w.SameKeys w') (key : Option String) :
    w'.replay key = w.replay key := by
  simp only [Wallet.replay, h.commands]

theorem recordCommand_replay {c : Command} (h : w.replay k = none) :
    (w.recordCommand k c).replay k = some c.resultRef := by
  have hnone : (w.commands.get k).isSome = false := by
    simpa [Wallet.replay] using h
  simp [Wallet.recordCommand, Wallet.replay, hnone]

theorem record_ok {c : Command} {a : α} (h : w.replay k = none) {r : α × Wallet}
    (hr : (do modify (·.project ws); modify (·.recordCommand k c); return a : WalletTx α) w = .ok r)
    : r.1 = a ∧ r.2.replay k = some c.resultRef := by
  rw [modify_bind, modify_bind] at hr
  cases pure_ok.mp hr
  exact ⟨rfl, recordCommand_replay h⟩

theorem grantBody_records {source : Option String} {expiresAt : Option Timestamp}
    (h : w.replay k = none) (hr : grantBody now ws amount cycle source expiresAt k w = .ok r) :
    r.2.replay k = some r.1 := by
  obtain ⟨lot, w₁, hlot, hr⟩ := bind_ok.mp hr
  have hsame : w.SameKeys w₁ := allowanceLot_offBooks.unkeyed.same hlot
  obtain ⟨href, hreplay⟩ := record_ok (by rw [hsame.replay, h]) hr
  rw [href, hreplay]

theorem purchaseBody_records (h : w.replay k = none)
    (hr : purchaseBody now ws amount k reason w = .ok r) : r.2.replay k = some r.1 := by
  obtain ⟨⟨lot, _⟩, w₁, hlot, hr⟩ := bind_ok.mp hr
  have hsame : w.SameKeys w₁ := fundLot_offBooks.unkeyed.same hlot
  obtain ⟨href, hreplay⟩ := record_ok (by rw [hsame.replay, h]) hr
  rw [href, hreplay]

theorem adjustBody_records (h : w.replay k = none)
    (hr : adjustBody now ws amount reason k w = .ok r) : r.2.replay k = some r.1 := by
  obtain ⟨_, w₁, hlock, hr⟩ := bind_ok.mp hr
  obtain ⟨⟨_, entry⟩, w₂, hlot, hr⟩ := bind_ok.mp hr
  have hsame₁ : w.SameKeys w₁ := lock_offBooks.unkeyed.same hlock
  have hsame₂ : w₁.SameKeys w₂ := fundLot_offBooks.unkeyed.same hlot
  obtain ⟨href, hreplay⟩ := record_ok (by rw [hsame₂.replay, hsame₁.replay, h]) hr
  rw [href, hreplay]

theorem refundBody_records {run : Run} (h : w.replay k = none) {r : RefundResult × Wallet}
    (hr : refundBody now run runId amount reason k w = .ok r) : r.2.replay k = some r.1.ref := by
  unfold refundBody at hr
  rw [get_bind] at hr
  obtain ⟨_, w₁, hlock, hr⟩ := bind_ok.mp hr
  obtain ⟨-, hr⟩ := require_bind_ok.mp hr
  obtain ⟨-, hr⟩ := require_bind_ok.mp hr
  obtain ⟨entry, w₂, hentry, hr⟩ := bind_ok.mp hr
  obtain ⟨refunded, w₃, hlots, hr⟩ := bind_ok.mp hr
  have hsame₁ : w.SameKeys w₁ := lock_offBooks.unkeyed.same hlock
  have hsame₂ : w₁.SameKeys w₂ := insertLedger_offBooks.unkeyed.same hentry
  have hsame₃ : w₂.SameKeys w₃ := refundLots_offBooks.unkeyed.same hlots
  obtain ⟨href, hreplay⟩ :=
    record_ok (by rw [hsame₃.replay, hsame₂.replay, hsame₁.replay, h]) hr
  rw [href, hreplay]
  rfl

theorem settleBody_records {run : Run} {usd irr charge : Option Int} (h : w.replay k = none)
    {r : SettleResult × Wallet} (hr : settleBody now run runId k usd irr charge cycle w = .ok r) :
    r.2.replay k = some r.1.ref ∧ (r.2.settlements.get runId).map (·.id) = some r.1.ref := by
  unfold settleBody at hr
  rw [get_bind] at hr
  obtain ⟨_, w₁, hlock, hr⟩ := bind_ok.mp hr
  obtain ⟨⟨paid, absorbed⟩, w₂, hfund, hr⟩ := bind_ok.mp hr
  obtain ⟨settlement, w₃, hinsert, hr⟩ := bind_ok.mp hr
  obtain ⟨_, w₄, hpost, hr⟩ := bind_ok.mp hr
  obtain ⟨_, w₅, hclose, hr⟩ := bind_ok.mp hr
  have hsame₁ : w.SameKeys w₁ := lock_offBooks.unkeyed.same hlock
  have hsame₂ : w₁.SameKeys w₂ := fundCharge_offBooks.unkeyed.same hfund
  have hsame₄ : w₃.SameKeys w₄ := postCharge_offBooks.unkeyed.same hpost
  have hsame₅ : w₄.SameKeys w₅ := closeReservation_offBooks.unkeyed.same hclose
  have hsettled : w₃.replay k = w₂.replay k ∧
      (w₃.settlements.get runId).map (·.id) = some settlement := by
    unfold insertSettlement at hinsert
    rw [get_bind, set_bind] at hinsert
    cases pure_ok.mp hinsert
    exact ⟨rfl, by simp⟩
  rw [modify_bind, modify_bind, get_bind, modify_bind] at hr
  cases pure_ok.mp hr
  have hnone : w₅.replay k = none := by
    rw [hsame₅.replay, hsame₄.replay, hsettled.1, hsame₂.replay, hsame₁.replay, h]
  refine ⟨recordCommand_replay hnone, ?_⟩
  obtain ⟨commands, hrecord⟩ := recordCommand_eq
    ({ w₅ with runs := w₅.runs.update runId fun r => { r with
      status := .settled, providerCostUsd := usd.getD 0, internalCostIrr := irr.getD 0
      customerChargeIrr := paid, platformAbsorbed := r.platformAbsorbed + absorbed } }.project
        run.workspaceId) k ⟨.settleRun, run.workspaceId, runId, settlement⟩
  simp only [hrecord]
  exact (hsame₅.settlements runId).trans ((hsame₄.settlements runId).trans hsettled.2)

end Bodies

def KeyedCommand.answer (c : KeyedCommand) (w : Wallet) (key : String) : Option Id :=
  (w.replay key).or (c.settledIn w)

/-- The function called alone, and the reference it returns. -/
def KeyedCommand.call (now : Timestamp) (key : String) : KeyedCommand → WalletTx Id
  | grant ws amount cycle source expiresAt =>
    aiGrantAllowance now ws amount cycle source expiresAt key
  | purchase ws amount reason => aiPurchaseCredit now ws amount key reason
  | adjust ws amount reason => aiAdjustBalance now ws amount reason key
  | refund run amount reason => do return (← aiRefundRun now run amount reason key).ref
  | settle run usd irr charge cycle => do
    return (← aiSettleRun now run key usd irr charge cycle).ref

def KeyedCommand.locksFirst : KeyedCommand → Option Id
  | grant ws _ _ _ _ | purchase ws _ _ => some ws
  | _ => none

/-- A step of a call, from one phase to another. -/
inductive Move (s : Sessions) (c : KeyedCommand) : Phase → Wallet → Phase → Prop where
  | replayed {id : Id} (wallets : Table Id WalletRow)
      (hw : wallets = s.wallet.wallets ∨ s.walletFree (c.workspace s.wallet))
      (h : s.wallet.replay s.key = some id) :
      Move s c .started { s.wallet with wallets } (.returned false id)
  | checked (hlooks : c.locksFirst = none) (h : s.wallet.replay s.key = none) :
      Move s c .started s.wallet .checked
  | lockedFirst (wallets : Table Id WalletRow) {ws : Id} (hws : c.locksFirst = some ws)
      (hlock : ({ s.wallet with wallets } : Wallet).lock ws = { s.wallet with wallets })
      (hfree : s.walletFree (c.workspace s.wallet)) (h : s.wallet.replay s.key = none) :
      Move s c .started { s.wallet with wallets } .locked
  | lockedChecked (hrun : c.run = none) (hfree : s.walletFree (c.workspace s.wallet)) :
      Move s c .checked s.wallet .locked
  | unknownRun : Move s c .checked s.wallet (.raised .unknownRun)
  | settled {id : Id} (h : c.settledIn s.wallet = some id) :
      Move s c .checked s.wallet (.returned false id)
  | runLocked {run : Id} (hrun : c.run = some run) (hfree : s.runFree run)
      (h : c.settledIn s.wallet = none) : Move s c .checked s.wallet .runLocked
  | lockedRun (hfree : s.walletFree (c.workspace s.wallet)) :
      Move s c .runLocked s.wallet .locked
  | applied {now : Timestamp} {r : Id × Wallet} (h : c.body now s.key s.wallet s.wallet = .ok r) :
      Move s c .locked r.2 (.returned true r.1)
  | raised {e : WalletError} : Move s c .locked s.wallet (.raised e)

section Steps
variable {s : Sessions} {c : KeyedCommand} {i : Nat}

theorem lock_lock (w : Wallet) (ws : Id) : (w.lock ws).lock ws = w.lock ws := by
  unfold Wallet.lock
  cases h : w.wallets.get ws with
  | some row => simp [h]
  | none => simp

theorem check_moves (s : Sessions) (i : Nat) (c : KeyedCommand) (wallets : Table Id WalletRow)
    (hw : wallets = s.wallet.wallets ∨ s.walletFree (c.workspace s.wallet)) {found : Phase}
    (hfound : s.wallet.replay s.key = none → Move s c .started { s.wallet with wallets } found) :
    ∃ w p', Move s c .started w p' ∧
      { s with wallet := { s.wallet with wallets } }.check i c found =
        { s with wallet := w }.at_ i c p' := by
  unfold Sessions.check
  cases h : s.wallet.replay s.key with
  | some id =>
    refine ⟨_, _, .replayed wallets hw h, ?_⟩
    rw [show ({ s.wallet with wallets } : Wallet).replay s.key = some id from h]
  | none =>
    refine ⟨_, _, hfound h, ?_⟩
    rw [show ({ s.wallet with wallets } : Wallet).replay s.key = none from h]

theorem advance_moves (s : Sessions) (i : Nat) (c : KeyedCommand) (p : Phase) :
    s.advance i c p = s ∨
      ∃ w p', Move s c p w p' ∧ s.advance i c p = { s with wallet := w }.at_ i c p' := by
  cases p with
  | started =>
    cases c with
    | grant ws | purchase ws =>
      simp only [Sessions.advance]
      split
      · rename_i hfree
        obtain ⟨wallets, hlock⟩ := lock_eq s.wallet ws
        have hlocked := lock_lock s.wallet ws
        rw [hlock] at hlocked ⊢
        refine .inr (check_moves s i _ wallets (.inr ?_) (.lockedFirst wallets rfl hlocked ?_))
        all_goals exact hfree
      · exact .inl rfl
    | adjust | refund | settle =>
      exact .inr (check_moves s i _ s.wallet.wallets (.inl rfl) (.checked rfl))
  | checked =>
    simp only [Sessions.advance]
    cases hrun : c.run with
    | none =>
      simp only
      split
      · rename_i hfree
        exact .inr ⟨_, _, .lockedChecked hrun hfree, rfl⟩
      · exact .inl rfl
    | some run =>
      simp only
      split
      · rename_i hfree
        cases s.wallet.runs.get run with
        | none => exact .inr ⟨_, _, .unknownRun, rfl⟩
        | some r =>
          cases h : c.settledIn s.wallet with
          | some id => exact .inr ⟨_, _, .settled h, rfl⟩
          | none => exact .inr ⟨_, _, .runLocked hrun hfree h, rfl⟩
      · exact .inl rfl
  | runLocked =>
    simp only [Sessions.advance]
    split
    · rename_i hfree
      exact .inr ⟨_, _, .lockedRun hfree, rfl⟩
    · exact .inl rfl
  | locked | returned | raised => exact .inl rfl

theorem step_moves (s : Sessions) (t : Timestamp × Nat) :
    s.step t = s ∨ ∃ c p w p', s.calls[t.2]? = some (c, p) ∧ Move s c p w p' ∧
      s.step t = { s with wallet := w }.at_ t.2 c p' := by
  unfold Sessions.step
  split
  · exact .inl rfl
  · rename_i c hc
    refine .inr ⟨c, .locked, ?_⟩
    unfold Sessions.commit
    cases h : c.body t.1 s.key s.wallet s.wallet with
    | ok r => exact ⟨r.2, .returned true r.1, hc, .applied h, rfl⟩
    | error e => exact ⟨s.wallet, .raised e, hc, .raised, rfl⟩
  · rename_i c p _ hc
    rcases advance_moves s t.2 c p with h | ⟨w, p', hmove, h⟩
    · exact .inl h
    · exact .inr ⟨c, p, w, p', hc, hmove, h⟩

/-- What is written under its locks is what the function answers with from then on. -/
theorem body_answers {now : Timestamp} {key : String} {w : Wallet} (h : c.answer w key = none)
    {r : Id × Wallet} (hr : c.body now key w w = .ok r) :
    r.2.replay key = some r.1 ∧ c.answer r.2 key = some r.1 ∧
      (c.target.1 = .settleRun → c.settledIn r.2 = some r.1) := by
  have hreplay : w.replay key = none := (Option.or_eq_none_iff.mp h).1
  suffices hrec : r.2.replay key = some r.1 ∧
      (c.target.1 = .settleRun → c.settledIn r.2 = some r.1) by
    refine ⟨hrec.1, ?_, hrec.2⟩
    rw [KeyedCommand.answer, hrec.1, Option.some_or]
  cases c with
  | grant => exact ⟨grantBody_records hreplay hr, by simp [KeyedCommand.target]⟩
  | purchase => exact ⟨purchaseBody_records hreplay hr, by simp [KeyedCommand.target]⟩
  | adjust => exact ⟨adjustBody_records hreplay hr, by simp [KeyedCommand.target]⟩
  | refund run =>
    simp only [KeyedCommand.body] at hr
    cases hrun : w.runs.get run with
    | none => simp only [hrun] at hr; cases hr
    | some row =>
      simp only [hrun] at hr
      obtain ⟨result, w₁, hbody, hr⟩ := bind_ok.mp hr
      cases pure_ok.mp hr
      exact ⟨refundBody_records hreplay hbody, by simp [KeyedCommand.target]⟩
  | settle run =>
    simp only [KeyedCommand.body] at hr
    cases hrun : w.runs.get run with
    | none => simp only [hrun] at hr; cases hr
    | some row =>
      simp only [hrun] at hr
      obtain ⟨result, w₁, hbody, hr⟩ := bind_ok.mp hr
      cases pure_ok.mp hr
      have hrec := settleBody_records hreplay hbody
      exact ⟨hrec.1, fun _ => hrec.2⟩

theorem call_eq_body {now : Timestamp} {key : String} {w : Wallet} (h : c.answer w key = none)
    (hlock : ∀ ws, c.locksFirst = some ws → w.lock ws = w) :
    c.call now key w = c.body now key w w := by
  obtain ⟨hreplay, hsettled⟩ := Option.or_eq_none_iff.mp h
  cases c with
  | grant ws =>
    simp only [KeyedCommand.call, KeyedCommand.body, aiGrantAllowance_eq]
    rw [modify_bind, hlock ws rfl, get_bind, hreplay]
  | purchase ws =>
    simp only [KeyedCommand.call, KeyedCommand.body, aiPurchaseCredit_eq]
    rw [modify_bind, hlock ws rfl, get_bind, hreplay]
  | adjust ws =>
    simp only [KeyedCommand.call, KeyedCommand.body, aiAdjustBalance_eq]
    rw [get_bind, hreplay]
  | refund run =>
    simp only [KeyedCommand.call, KeyedCommand.body, aiRefundRun_eq]
    rw [bind_assoc, get_bind, hreplay]
    cases w.runs.get run <;> rfl
  | settle run =>
    have hnone : w.settlements.get run = none := by
      simpa [KeyedCommand.settledIn] using hsettled
    simp only [KeyedCommand.call, KeyedCommand.body, aiSettleRun_eq]
    rw [bind_assoc, get_bind, hreplay, hnone]
    cases w.runs.get run <;> rfl

end Steps

def Phase.holdsRun : Phase → Prop
  | .runLocked | .locked => True
  | _ => False

/-- What a call has found by its phase, in calls that started from `w₀`. -/
def Sessions.Found (w₀ : Wallet) (s : Sessions) (c : KeyedCommand) : Phase → Prop
  | .started | .raised _ => True
  | .checked => c.locksFirst = none ∧ w₀.replay s.key = none
  | .runLocked => w₀.replay s.key = none ∧ c.settledIn s.wallet = none ∧ c.run.isSome
  | .locked => w₀.replay s.key = none ∧ c.answer s.wallet s.key = none ∧
      ∀ ws, c.locksFirst = some ws → s.wallet.lock ws = s.wallet
  | .returned applied ref => c.answer s.wallet s.key = some ref ∧
      (applied → c.answer w₀ s.key = none)

/-- All but the wallets' rows is as in `w₀`. -/
def Sessions.Untouched (w₀ : Wallet) (s : Sessions) : Prop :=
  ∃ wallets, s.wallet = { w₀ with wallets }

def Sessions.Applied (w₀ : Wallet) (s : Sessions) (c : KeyedCommand) (ref : Id) : Prop :=
  ∃ now before after wallets, c.call now s.key { w₀ with wallets := before } = .ok (ref, after) ∧
    s.wallet = { after with wallets }

/-- What holds between any two steps, of calls with the target of `c₀`. -/
structure Sessions.Sound (w₀ : Wallet) (c₀ : KeyedCommand) (s : Sessions) : Prop where
  target : ∀ call ∈ s.calls, call.1.target = c₀.target
  fresh : s.wallet.replay s.key = none → w₀.replay s.key = none
  answered : ∀ id, c₀.answer w₀ s.key = some id → c₀.answer s.wallet s.key = some id
  recorded : c₀.target.1 = .settleRun → w₀.replay s.key = none →
    ∀ id, s.wallet.replay s.key = some id → c₀.settledIn s.wallet = some id
  found : ∀ call ∈ s.calls, s.Found w₀ call.1 call.2
  walletHeld : AtMostOne (·.2 = .locked) s.calls
  runHeld : AtMostOne (fun call => call.2.holdsRun ∧ call.1.run.isSome) s.calls
  once : AtMostOne (fun call => ∃ ref, call.2 = .returned true ref) s.calls
  effect : (∀ call ∈ s.calls, ∀ ref, call.2 ≠ .returned true ref) ∧ s.Untouched w₀ ∨
    ∃ c ref, (c, .returned true ref) ∈ s.calls ∧ s.Applied w₀ c ref

section Invariant
variable {w₀ : Wallet} {c c' : KeyedCommand} {s : Sessions} {c₀ : KeyedCommand} {p : Phase}
  {p' : Phase}

theorem settledIn_congr (h : c.target = c'.target) (w : Wallet) :
    c.settledIn w = c'.settledIn w := by
  cases c <;> cases c' <;> simp_all [KeyedCommand.target, KeyedCommand.settledIn]

theorem answer_congr (h : c.target = c'.target) (w : Wallet) (key : String) :
    c.answer w key = c'.answer w key := by
  rw [KeyedCommand.answer, KeyedCommand.answer, settledIn_congr h]

theorem workspace_congr (h : c.target = c'.target) (w : Wallet) :
    c.workspace w = c'.workspace w := by
  cases c <;> cases c' <;> simp_all [KeyedCommand.target, KeyedCommand.workspace]

theorem run_congr (h : c.target = c'.target) : c.run = c'.run := by
  cases c <;> cases c' <;> simp_all [KeyedCommand.target, KeyedCommand.run]

theorem settledIn_none (h : c.target.1 ≠ .settleRun) (w : Wallet) : c.settledIn w = none := by
  cases c <;> simp_all [KeyedCommand.target, KeyedCommand.settledIn]

theorem start_sound (key : String) (w₀ : Wallet) {calls : List KeyedCommand}
    (h : ∀ c ∈ calls, c.target = c₀.target) : (Sessions.start key w₀ calls).Sound w₀ c₀ := by
  have hstarted : ∀ call ∈ (Sessions.start key w₀ calls).calls,
      call.2 = .started ∧ call.1 ∈ calls := by
    intro call hcall
    obtain ⟨c, hc, rfl⟩ := List.mem_map.mp hcall
    exact ⟨rfl, hc⟩
  constructor
  case target => exact fun call hcall => h _ (hstarted call hcall).2
  case fresh => exact id
  case answered => exact fun _ => id
  case recorded =>
    intro _ hnone id hid
    cases hnone.symm.trans hid
  case found =>
    intro call hcall
    rw [(hstarted call hcall).1]
    trivial
  case walletHeld => exact .of_none fun call hcall => by simp [(hstarted call hcall).1]
  case runHeld =>
    exact .of_none fun call hcall => by simp [(hstarted call hcall).1, Phase.holdsRun]
  case once => exact .of_none fun call hcall => by simp [(hstarted call hcall).1]
  case effect =>
    exact .inl ⟨fun call hcall ref => by simp [(hstarted call hcall).1], w₀.wallets, rfl⟩

theorem Move.start_ne {w : Wallet} (h : Move s c p w p') : ∀ ref, p ≠ .returned true ref := by
  intro ref
  cases h <;> simp

theorem Sessions.Sound.target_at (h : s.Sound w₀ c₀) {i : Nat} (hc : s.calls[i]? = some (c, p)) :
    c.target = c₀.target :=
  h.target _ (List.mem_of_getElem? hc)

theorem Sessions.Sound.found_at (h : s.Sound w₀ c₀) {i : Nat} (hc : s.calls[i]? = some (c, p)) :
    s.Found w₀ c p :=
  h.found _ (List.mem_of_getElem? hc)

theorem Sessions.Sound.wallet_free (h : s.Sound w₀ c₀) {i j : Nat} (hc : s.calls[i]? = some (c, p))
    (hfree : s.walletFree (c.workspace s.wallet)) (hc' : s.calls[j]? = some (c', p')) :
    p' ≠ .locked := by
  have hws := workspace_congr ((h.target_at hc').trans (h.target_at hc).symm) s.wallet
  have := List.all_eq_true.mp hfree _ (List.mem_of_getElem? hc')
  simpa [hws] using this

theorem Sessions.Sound.run_free (h : s.Sound w₀ c₀) {i j : Nat} {run : Id}
    (hc : s.calls[i]? = some (c, p)) (hrun : c.run = some run) (hfree : s.runFree run)
    (hc' : s.calls[j]? = some (c', p')) : ¬p'.holdsRun := by
  have hrun' := run_congr ((h.target_at hc').trans (h.target_at hc).symm)
  have := List.all_eq_true.mp hfree _ (List.mem_of_getElem? hc')
  cases p' <;> simp_all [Phase.holdsRun]

/-- A step that commits nothing. -/
theorem Sessions.Sound.moved (h : s.Sound w₀ c₀) {i : Nat} (hc : s.calls[i]? = some (c, p))
    (wallets : Table Id WalletRow)
    (hw : wallets = s.wallet.wallets ∨ s.walletFree (c.workspace s.wallet))
    (hp : ∀ ref, p ≠ .returned true ref) (hp' : ∀ ref, p' ≠ .returned true ref)
    (hfound : ({ s with wallet := { s.wallet with wallets } } : Sessions).Found w₀ c p')
    (hlocked : p' = .locked → s.walletFree (c.workspace s.wallet))
    (hrun : p'.holdsRun → c.run.isSome → p.holdsRun ∨ ∃ run, c.run = some run ∧ s.runFree run) :
    ({ s with wallet := { s.wallet with wallets } }.at_ i c p').Sound w₀ c₀ := by
  constructor
  case target =>
    intro call hcall
    rcases List.mem_or_eq_of_mem_set hcall with hold | rfl
    · exact h.target call hold
    · exact h.target_at hc
  case fresh => exact h.fresh
  case answered => exact h.answered
  case recorded => exact h.recorded
  case found =>
    intro call hcall
    rcases List.mem_or_eq_of_mem_set hcall with hold | rfl
    · obtain ⟨j, hj⟩ := List.getElem?_of_mem hold
      have hthis := h.found call hold
      obtain ⟨c₁, p₁⟩ := call
      cases p₁ with
      | locked =>
        -- its row is nobody else's to write
        obtain rfl := hw.resolve_right fun hfree => h.wallet_free hc hfree hj rfl
        exact hthis
      | _ => exact hthis
    · exact hfound
  case walletHeld =>
    refine h.walletHeld.set i _ fun hl j a _ ha => ?_
    exact h.wallet_free hc (hlocked hl) ha
  case runHeld =>
    by_cases hheld : p.holdsRun
    · exact h.runHeld.set_keeps hc fun hx => ⟨hheld, hx.2⟩
    · refine h.runHeld.set i _ fun hx j a _ ha hpa => ?_
      obtain ⟨run, hrun, hfree⟩ := (hrun hx.1 hx.2).resolve_left hheld
      exact h.run_free hc hrun hfree ha hpa.1
  case once => exact h.once.set_keeps hc fun ⟨ref, href⟩ => absurd href (hp' ref)
  case effect =>
    refine h.effect.imp ?_ ?_
    · rintro ⟨hnobody, before, hbefore⟩
      refine ⟨fun call hcall ref => ?_, wallets, by simp only [hbefore, Sessions.at_]⟩
      rcases List.mem_or_eq_of_mem_set hcall with hold | rfl
      · exact hnobody call hold ref
      · exact hp' ref
    · rintro ⟨c₁, ref, hc₁, now, before, after, wallets', hcall, hafter⟩
      obtain ⟨j, hj⟩ := List.getElem?_of_mem hc₁
      have hne : i ≠ j := by
        rintro rfl
        rw [hc] at hj
        cases hj
        exact hp ref rfl
      exact ⟨c₁, ref, List.mem_of_getElem? ((List.getElem?_set_ne hne).trans hj), now, before,
        after, wallets, hcall, by simp only [hafter, Sessions.at_]⟩

/-- A commit. -/
theorem Sessions.Sound.committed (h : s.Sound w₀ c₀) {i : Nat}
    (hc : s.calls[i]? = some (c, .locked)) {now : Timestamp} {r : Id × Wallet}
    (hr : c.body now s.key s.wallet s.wallet = .ok r) :
    ({ s with wallet := r.2 }.at_ i c (.returned true r.1)).Sound w₀ c₀ := by
  obtain ⟨hfresh, hnone, hlock⟩ := h.found_at hc
  obtain ⟨hreplay, hanswer, hsettled⟩ := body_answers hnone hr
  have htarget := h.target_at hc
  have hnone₀ : c₀.answer s.wallet s.key = none := by rw [← answer_congr htarget, hnone]
  have hbefore : c₀.answer w₀ s.key = none := by
    cases hw : c₀.answer w₀ s.key with
    | none => rfl
    | some id => cases hnone₀.symm.trans (h.answered id hw)
  -- nobody has returned, and nobody else holds a lock
  have hothers : ∀ (j : Nat) (a : KeyedCommand × Phase), j ≠ i → s.calls[j]? = some a →
      (∀ applied ref, a.2 ≠ .returned applied ref) ∧ a.2 ≠ .locked ∧
        (a.2 = .runLocked → a.1.run.isNone) := by
    intro j a hj ha
    refine ⟨fun applied ref hret => ?_, fun hl => ?_, fun hl => ?_⟩
    · have hfound := h.found_at ha
      rw [hret] at hfound
      rw [Sessions.Found, answer_congr (h.target_at ha), hnone₀] at hfound
      cases hfound.1
    · exact hj (h.walletHeld j i a _ ha hc hl rfl)
    · rw [← Option.not_isSome_iff_eq_none.trans Option.isNone_iff_eq_none.symm]
      intro hsome
      have hrun := run_congr ((h.target_at ha).trans htarget.symm)
      exact hj (h.runHeld j i a _ ha hc ⟨by simp [hl, Phase.holdsRun], hsome⟩
        ⟨trivial, by rwa [← hrun]⟩)
  constructor
  case target =>
    intro call hcall
    rcases List.mem_or_eq_of_mem_set hcall with hold | rfl
    · exact h.target call hold
    · exact htarget
  case fresh =>
    intro hnone'
    cases hreplay.symm.trans hnone'
  case answered =>
    intro id hid
    cases hbefore.symm.trans hid
  case recorded =>
    intro hsettle _ id hid
    cases hreplay.symm.trans hid
    rw [← settledIn_congr htarget]
    exact hsettled (by rwa [htarget])
  case found =>
    intro call hcall
    obtain ⟨j, hj⟩ := List.getElem?_of_mem hcall
    rw [Sessions.at_, List.getElem?_set] at hj
    split at hj
    · split at hj
      · cases hj
        refine ⟨hanswer, fun _ => ?_⟩
        rw [answer_congr htarget]
        exact hbefore
      · cases hj
    · rename_i hne
      obtain ⟨hret, hlocked, hrun⟩ := hothers j call (Ne.symm hne) hj
      have hfound := h.found_at hj
      obtain ⟨c₁, p₁⟩ := call
      cases p₁ with
      | started | raised => trivial
      | checked => exact hfound
      | locked => exact absurd rfl hlocked
      | returned applied ref => exact absurd rfl (hret applied ref)
      | runLocked =>
        have hnorun := hrun rfl
        simp only [Option.isNone_iff_eq_none] at hnorun
        rw [Sessions.Found, hnorun] at hfound
        simp at hfound
  case walletHeld => exact h.walletHeld.set_keeps hc (by simp)
  case runHeld => exact h.runHeld.set_keeps hc (by simp [Phase.holdsRun])
  case once =>
    refine h.once.set i _ fun _ j a hj ha => ?_
    rintro ⟨ref, href⟩
    exact (hothers j a hj ha).1 true ref href
  case effect =>
    have hlt : i < s.calls.length := (List.getElem?_eq_some_iff.mp hc).1
    refine .inr ⟨c, r.1, List.mem_of_getElem? (List.getElem?_set_self hlt), ?_⟩
    rcases h.effect with ⟨-, before, hbefore⟩ | ⟨c₁, ref, hc₁, -⟩
    · refine ⟨now, before, r.2, r.2.wallets, ?_, rfl⟩
      rw [← hbefore]
      exact (call_eq_body hnone hlock).trans hr
    · obtain ⟨j, hj⟩ := List.getElem?_of_mem hc₁
      have hne : j ≠ i := by
        rintro rfl
        rw [hc] at hj
        cases hj
      exact absurd rfl ((hothers j _ hne hj).1 true ref)

/-- A step keeps them all, where an adjustment and a refund lock in time. -/
theorem Sessions.step_sound (h : s.Sound w₀ c₀) (t : Timestamp × Nat) (htimely : s.Timely t) :
    (s.step t).Sound w₀ c₀ := by
  obtain hstep | ⟨c, p, w, p', hc, hmove, hstep⟩ := step_moves s t
  · rwa [hstep]
  rw [hstep]
  have hfound := h.found_at hc
  have hnone_answer : c.settledIn s.wallet = none → s.wallet.replay s.key = none →
      c.answer s.wallet s.key = none := by
    intro hs hk
    rw [KeyedCommand.answer, hs, hk]
    rfl
  have hstart := hmove.start_ne
  cases hmove with
  | @replayed id wallets hw hid =>
    refine h.moved hc wallets hw hstart (by simp) ⟨?_, by simp⟩ (by simp) (by simp [Phase.holdsRun])
    have hanswer : c.answer s.wallet s.key = some id := by
      rw [KeyedCommand.answer, hid, Option.some_or]
    exact hanswer
  | checked hlooks hnone =>
    exact h.moved hc s.wallet.wallets (.inl rfl) hstart (by simp) ⟨hlooks, h.fresh hnone⟩ (by simp)
      (by simp [Phase.holdsRun])
  | @lockedFirst wallets ws hws hlock hfree hnone =>
    have hrun : c.run = none := by
      cases c <;> first | rfl | cases hws
    have hanswer : c.answer s.wallet s.key = none := by
      refine hnone_answer ?_ hnone
      cases c <;> first | rfl | cases hws
    refine h.moved hc wallets (.inr hfree) hstart (by simp)
      ⟨h.fresh hnone, hanswer, fun ws' hws' => ?_⟩ (fun _ => hfree) (by simp [hrun])
    cases hws.symm.trans hws'
    exact hlock
  | lockedChecked hrun hfree =>
    have hnone : s.wallet.replay s.key = none := by
      unfold Sessions.Timely at htimely
      rw [hc] at htimely
      cases c with
      | adjust => exact htimely
      | grant | purchase => cases hfound.1
      | refund | settle => cases hrun
    refine h.moved hc s.wallet.wallets (.inl rfl) hstart (by simp)
      ⟨h.fresh hnone, hnone_answer ?_ hnone, by simp [hfound.1]⟩ (fun _ => hfree) (by simp [hrun])
    cases c <;> simp_all [KeyedCommand.run, KeyedCommand.settledIn]
  | unknownRun =>
    exact h.moved hc s.wallet.wallets (.inl rfl) hstart (by simp) trivial (by simp) (by simp [Phase.holdsRun])
  | @settled id hid =>
    refine h.moved hc s.wallet.wallets (.inl rfl) hstart (by simp) ⟨?_, by simp⟩ (by simp)
      (by simp [Phase.holdsRun])
    -- where the key is recorded too, it is the same settlement
    rw [KeyedCommand.answer]
    cases hk : s.wallet.replay s.key with
    | none => rwa [Option.none_or]
    | some id' =>
      have hsettle : c.target.1 = .settleRun := by
        by_contra hne
        cases (settledIn_none hne s.wallet).symm.trans hid
      have hrec := h.recorded (by rwa [← h.target_at hc]) hfound.2 id' hk
      rw [← settledIn_congr (h.target_at hc), hid] at hrec
      exact hrec.symm
  | runLocked hrun hfree hnone =>
    exact h.moved hc s.wallet.wallets (.inl rfl) hstart (by simp) ⟨hfound.2, hnone, by simp [hrun]⟩ (by simp)
      fun _ _ => .inr ⟨_, hrun, hfree⟩
  | lockedRun hfree =>
    obtain ⟨hfresh, hsettled, hrun⟩ := hfound
    have hnone : s.wallet.replay s.key = none := by
      unfold Sessions.Timely at htimely
      rw [hc] at htimely
      cases c with
      | refund => exact htimely
      | settle run =>
        cases hk : s.wallet.replay s.key with
        | none => rfl
        | some id =>
          have hrec := h.recorded (by rw [← h.target_at hc]; rfl) hfresh id hk
          rw [← settledIn_congr (h.target_at hc), hsettled] at hrec
          cases hrec
      | grant | purchase | adjust => cases hrun
    have hlooks : c.locksFirst = none := by
      cases c <;> simp_all [KeyedCommand.locksFirst, KeyedCommand.run]
    exact h.moved hc s.wallet.wallets (.inl rfl) hstart (by simp)
      ⟨hfresh, hnone_answer hsettled hnone, by simp [hlooks]⟩ (fun _ => hfree)
      fun _ _ => .inl trivial
  | applied hr => exact h.committed hc hr
  | raised =>
    exact h.moved hc s.wallet.wallets (.inl rfl) hstart (by simp) trivial (by simp) (by simp [Phase.holdsRun])

end Invariant

/-- One reference for every call, and one effect for them all: one of them was
applied, or none where the function answers in `w₀` already. -/
structure Sessions.ExactlyOnce (w₀ : Wallet) (c₀ : KeyedCommand) (s : Sessions) : Prop where
  oneRef : ∀ call ∈ s.calls, ∀ call' ∈ s.calls, ∀ applied applied' ref ref',
    call.2 = .returned applied ref → call'.2 = .returned applied' ref' → ref = ref'
  once : AtMostOne (fun call => ∃ ref, call.2 = .returned true ref) s.calls
  effect :
    (s.Untouched w₀ ∧ ∀ call ∈ s.calls, ∀ applied ref, call.2 = .returned applied ref →
      applied = false ∧ c₀.answer w₀ s.key = some ref) ∨
    (c₀.answer w₀ s.key = none ∧
      ∃ call ∈ s.calls, ∃ ref, call.2 = .returned true ref ∧ s.Applied w₀ call.1 ref)

theorem Sessions.Sound.exactlyOnce {w₀ : Wallet} {c₀ : KeyedCommand} {s : Sessions}
    (h : s.Sound w₀ c₀) : s.ExactlyOnce w₀ c₀ := by
  have hreturned : ∀ call ∈ s.calls, ∀ applied ref, call.2 = .returned applied ref →
      c₀.answer s.wallet s.key = some ref ∧ (applied → c₀.answer w₀ s.key = none) := by
    intro call hcall applied ref href
    have hfound := h.found call hcall
    rw [href] at hfound
    rw [← answer_congr (h.target call hcall), ← answer_congr (h.target call hcall)]
    exact hfound
  constructor
  case oneRef =>
    intro call hcall call' hcall' applied applied' ref ref' href href'
    have hans := (hreturned call hcall applied ref href).1
    have hans' := (hreturned call' hcall' applied' ref' href').1
    exact Option.some.inj (hans.symm.trans hans')
  case once => exact h.once
  case effect =>
    rcases h.effect with ⟨hnobody, hsame⟩ | ⟨c, ref, hc, happlied⟩
    · refine .inl ⟨hsame, fun call hcall applied ref href => ?_⟩
      have happlied : applied = false := by
        cases applied with
        | false => rfl
        | true => exact absurd href (hnobody call hcall ref)
      obtain ⟨wallets, hwallet⟩ := hsame
      have hans := (hreturned call hcall applied ref href).1
      rw [hwallet] at hans
      exact ⟨happlied, hans⟩
    · exact .inr ⟨(hreturned _ hc true ref rfl).2 rfl, _, hc, ref, rfl, happlied⟩

/-- However the calls of one function with one key interleave, for one workspace
or run: a grant, a purchase and a settlement always, an adjustment and a refund
where none takes the wallet's lock after its key was recorded since it looked. -/
theorem keyed_exactly_once (key : String) (w₀ : Wallet) (c₀ : KeyedCommand)
    (calls : List KeyedCommand) (hsame : ∀ c ∈ calls, c.target = c₀.target)
    (schedule : List (Timestamp × Nat))
    (htimely : Meets Sessions.step Sessions.Timely (.start key w₀ calls) schedule) :
    (run Sessions.step (.start key w₀ calls) schedule).ExactlyOnce w₀ c₀ := by
  have hstep : ∀ (s : Sessions) t, s.Sound w₀ c₀ → s.Timely t → (s.step t).Sound w₀ c₀ :=
    fun _ t h ht => Sessions.step_sound h t ht
  have hsound : (run Sessions.step (.start key w₀ calls) schedule).Sound w₀ c₀ :=
    run_keeps hstep (start_sound key w₀ hsame) htimely
  exact hsound.exactlyOnce

/-- The second of two adjustments looks after the first has committed. -/
theorem keyed_exactly_once_adjusts :
    (run Sessions.step (.start "k" .empty [.adjust 9 (some 5) none, .adjust 9 (some 5) none])
      [(0, 0), (0, 0), (1, 0), (1, 1)]).ExactlyOnce .empty (.adjust 9 none none) :=
  keyed_exactly_once "k" .empty (.adjust 9 none none) _ (by simp [KeyedCommand.target]) _
    (by decide +kernel)

/-- Both look before either locks, and both are applied. -/
theorem overlapping_adjusts_applied_twice :
    ¬(run Sessions.step (.start "k" .empty [.adjust 9 (some 5) none, .adjust 9 (some 5) none])
      [(0, 0), (0, 1), (0, 0), (1, 0), (1, 1), (2, 1)]).ExactlyOnce .empty
        (.adjust 9 none none) := by
  intro h
  have htwice : (run Sessions.step
      (.start "k" .empty [.adjust 9 (some 5) none, .adjust 9 (some 5) none])
      [(0, 0), (0, 1), (0, 0), (1, 0), (1, 1), (2, 1)]).calls =
        [(.adjust 9 (some 5) none, .returned true 1),
          (.adjust 9 (some 5) none, .returned true 3)] := by
    decide +kernel
  have hone := h.oneRef (.adjust 9 (some 5) none, .returned true 1) (by rw [htwice]; simp)
    (.adjust 9 (some 5) none, .returned true 3) (by rw [htwice]; simp) true true 1 3 rfl rfl
  cases hone

end Kindred.AiWallet
