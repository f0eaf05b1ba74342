import Kindred.AiBilling.RunContext
import Kindred.AiWallet.Settling

/-! The budget of a run in ENFORCED mode: what is reserved when it opens, and what must be reserved
before each further step. -/

namespace Kindred.AiBilling
open AiWallet (Wallet aiReserve aiTopupReservation allocationsFor)
open Lib (Table)
open Lib.Tx

/-- What a run's context keeps of its budget; amounts are in units of `scaleFactor`. -/
structure BudgetContext where
  runId : Id
  workspaceId : Id
  enforced : Bool
  reservationId : Option Id
  sellMultiplier : Int
  billingFxRate : Int
  /-- `totals.internalCostIrr`: it begins at nothing, also where the run is resumed. -/
  internalCostIrr : Int := 0

def BudgetContext.applyMultiplier (ctx : BudgetContext) (internalIrr : Int) : Int :=
  mul internalIrr ctx.sellMultiplier

def BudgetContext.customerCharge (ctx : BudgetContext) (providerCostUsd : Int) : Int :=
  ctx.applyMultiplier (mul providerCostUsd ctx.billingFxRate)

/-- What `reserveForRun` asks for, of the provider cost it estimated. -/
def BudgetContext.opening (ctx : BudgetContext) (providerCost : Int) : Int :=
  if ctx.customerCharge providerCost = 0 then scaleFactor else ctx.customerCharge providerCost

def reserveForRun (uuidText : Id → String) (now : Timestamp) (ctx : BudgetContext)
    (providerCost : Int) (w : Wallet) : Bool × BudgetContext × Wallet :=
  match aiReserve now ctx.workspaceId (some ctx.runId)
      (some (toStoredIrr (ctx.opening providerCost)))
      (some ("reserve:" ++ uuidText ctx.runId)) w with
  | .error _ => (false, ctx, w)
  | .ok (.replayed id reserved, w') =>
    (0 < reserved.getD 0, { ctx with reservationId := some id }, w')
  | .ok (.reserved id _ reserved _, w') =>
    (0 < reserved.getD 0, { ctx with reservationId := some id }, w')

structure PricedUsage where
  componentType : String
  quantity : String
  terms : String
  usd : Int
  internalIrr : Int

def PricedUsage.event (c : PricedUsage) (step : RunStep) : UsageEvent :=
  { step, componentType := c.componentType, quantity := c.quantity
    payload := { terms := c.terms, providerCostUsd := c.usd
                 internalCostIrr := toStoredIrr c.internalIrr } }

def ingestAll (step : RunStep) (db : BillingDb) : List PricedUsage → Option Int × BillingDb
  | [] => (some 0, db)
  | c :: cs =>
    match db.ingestUsageEvent (c.event step) with
    | none => (none, db)
    | some (result, db') =>
      let (cost, db'') := ingestAll step db' cs
      (cost.map fun cost => if result = .inserted then c.internalIrr + cost else cost, db'')

def BudgetContext.recordUsage (ctx : BudgetContext) (step : RunStep) (components : List PricedUsage)
    (db : BillingDb) : BudgetContext × BillingDb :=
  match ingestAll step db components with
  | (none, db') => (ctx, db')
  | (some cost, db') => ({ ctx with internalCostIrr := ctx.internalCostIrr + cost }, db')

def reservedBy (w : Wallet) (reservationId : Option Id) : Int :=
  fromStoredIrr (((reservationId.bind w.reservations.get).map (·.amount)).getD 0)

/-- Whether it returned, and the wallet it leaves: a top-up that falls short stays. -/
def ensureBudgetForNextStep (now : Timestamp) (ctx : BudgetContext) (expectedIrr : Int) (w : Wallet) :
    Bool × Wallet :=
  if !ctx.enforced then (true, w)
  else
    let reserved := reservedBy w ctx.reservationId
    let needed := ctx.internalCostIrr + expectedIrr
    if needed ≤ reserved then (true, w)
    else
      let delta := needed - reserved
      match aiTopupReservation now ctx.runId (some (toStoredIrr delta)) w with
      | .error _ => (false, w)
      | .ok (added, w') => (¬fromStoredIrr added < delta, w')

def recordedCharge (db : BillingDb) (ctx : BudgetContext) : Int :=
  ctx.applyMultiplier
    ((db.eventsOf ctx.runId).map fun e => fromStoredIrr e.payload.internalCostIrr).sum

def runReserved (w : Wallet) (runId : Id) : Int :=
  reservedBy w ((w.runs.get runId).bind (·.reservationId))

def Funded (db : BillingDb) (ctx : BudgetContext) (expectedIrr : Int) (w : Wallet) : Prop :=
  recordedCharge db ctx + expectedIrr ≤ runReserved w ctx.runId

def heldBy (w : Wallet) (reservationId : Id) : Int :=
  ((w.allocationsOf reservationId).map (·.amount)).sum

variable {v added : Int}

section Topup
variable {now : Timestamp} {w w' : Wallet} {runId id : Id} {run : AiWallet.Run} {delta : Int}

theorem toStoredIrr_of_pos (h : 0 < v) : toStoredIrr v = (v + 500000) / 1000000 := by
  unfold toStoredIrr
  rw [Int.sign_eq_one_of_pos h, Int.one_mul]
  omega

theorem toStoredIrr_nonneg (h : 0 ≤ v) : 0 ≤ toStoredIrr v := by
  rcases h.lt_or_eq with h | h
  · rw [toStoredIrr_of_pos h]
    omega
  · rw [← h]
    rfl

/-- After a top-up the amount is what the allocations come to. -/
theorem topup_reserved (hrun : w.runs.get runId = some run) (hid : run.reservationId = some id)
    (hstored : 0 ≤ delta) (h : aiTopupReservation now runId (some delta) w = .ok (added, w')) :
    added = min delta (w.availableBalance now run.workspaceId) ∧
      runReserved w' runId = if (w.reservations.get id).isSome then
        fromStoredIrr (heldBy w id + added) else 0 := by
  rw [aiTopupReservation, get_bind] at h
  obtain ⟨wallets, hlock⟩ := AiWallet.lock_eq w run.workspaceId
  simp only [hrun, hid, modify_bind, hlock] at h
  obtain ⟨left, w₁, hhold, h⟩ := bind_ok.mp h
  cases pure_ok.mp h
  obtain ⟨takes, table, htakes, hleft, -, -, hw₁⟩ :=
    AiWallet.holdLots_ok AiWallet.spendable_free hhold
  have hasked : AiWallet.asked (some delta) = delta := AiWallet.asked_of_nonneg hstored
  have hsum : (takes.map Prod.snd).sum = min delta (w.availableBalance now run.workspaceId) := by
    rw [htakes, hasked]
    exact AiWallet.sum_holds hstored
  have hadded : AiWallet.asked (some delta) - left = (takes.map Prod.snd).sum := by
    omega
  have hw₁ : w₁ = _ := hw₁
  refine ⟨hadded.trans hsum, ?_⟩
  have hamount : Lib.total (fun a : AiWallet.ReservationAllocation => a.reservationId = id)
      (·.amount) w₁.reservationAllocations = heldBy w id + (takes.map Prod.snd).sum := by
    have hnew : Lib.total (fun a : AiWallet.ReservationAllocation => a.reservationId = id)
        (·.amount) (allocationsFor id takes) = (takes.map Prod.snd).sum := by
      rw [Lib.total_eq_sum_filter, AiWallet.filter_allocationsFor]
      unfold allocationsFor
      rw [List.map_map]
      rfl
    have hheld : w₁.reservationAllocations =
        w.reservationAllocations ++ allocationsFor id takes := by rw [hw₁]; rfl
    rw [hheld, Lib.total_append, hnew, Lib.total_eq_sum_filter]
    rfl
  have hruns : w₁.runs = w.runs := by rw [hw₁]
  have hreservations : w₁.reservations = w.reservations := by rw [hw₁]
  rw [hadded, ← hamount]
  unfold runReserved reservedBy
  simp only [Wallet.project, Wallet.sumReservation, hruns, hrun, Option.bind_some, hid,
    hreservations, Table.get_update_self]
  cases w.reservations.get id with
  | none => rfl
  | some r => rfl

theorem topup_known (hrun : w.runs.get runId = some run) (hid : run.reservationId = some id)
    (hadded : 0 < added) (h : aiTopupReservation now runId (some delta) w = .ok (added, w')) :
    (w.reservations.get id).isSome := by
  rcases AiWallet.topup_ok h with ⟨hnone, -⟩ | ⟨run', id', table, wallets, reservations, hrun', hid',
    -, hknown, -, hsum, -⟩
  · rw [hrun, Option.bind_some, hid] at hnone
    cases hnone
  · cases hrun.symm.trans hrun'
    cases hid.symm.trans hid'
    rcases hknown with hnil | hknown
    · have hsum : added = _ := hsum
      rw [hsum, hnil] at hadded
      cases hadded
    · exact hknown

theorem min_covers {delta free : Int} (hdelta : 0 < delta) :
    ¬fromStoredIrr (min (toStoredIrr delta) free) < delta ↔
      delta ≤ fromStoredIrr (toStoredIrr delta) ∧ toStoredIrr delta ≤ free := by
  rw [toStoredIrr_of_pos hdelta]
  unfold fromStoredIrr
  omega

end Topup

section Guard
variable {now : Timestamp} {w : Wallet} {ctx : BudgetContext} {expectedIrr : Int}

def BudgetContext.missing (ctx : BudgetContext) (w : Wallet) (expectedIrr : Int) : Int :=
  ctx.internalCostIrr + expectedIrr - reservedBy w ctx.reservationId

theorem ensure_within (h : ctx.missing w expectedIrr ≤ 0) :
    ensureBudgetForNextStep now ctx expectedIrr w = (true, w) := by
  unfold BudgetContext.missing at h
  unfold ensureBudgetForNextStep
  split
  · rfl
  · rw [if_pos (by omega)]

/-- A top-up is taken for enough when all that it asks for, rounded, is free and is no less than
what was missing. -/
structure ToppedUp (now : Timestamp) (w : Wallet) (runId : Id) (delta : Int) (id : Id) : Prop where
  known : (w.reservations.get id).isSome
  run : ∃ run, w.runs.get runId = some run ∧ run.reservationId = some id ∧
    toStoredIrr delta ≤ w.availableBalance now run.workspaceId
  rounded : delta ≤ fromStoredIrr (toStoredIrr delta)

theorem ensure_beyond (now : Timestamp) (henforced : ctx.enforced = true) (h : 0 < ctx.missing w expectedIrr) :
    let r := ensureBudgetForNextStep now ctx expectedIrr w
    (r.1 = true ↔ ∃ id, ToppedUp now w ctx.runId (ctx.missing w expectedIrr) id) ∧
      ∀ id, ToppedUp now w ctx.runId (ctx.missing w expectedIrr) id → runReserved r.2 ctx.runId =
        fromStoredIrr (heldBy w id + toStoredIrr (ctx.missing w expectedIrr)) := by
  have hmore : ¬ctx.internalCostIrr + expectedIrr ≤ reservedBy w ctx.reservationId := by
    unfold BudgetContext.missing at h
    omega
  have hstored := toStoredIrr_nonneg h.le
  unfold ensureBudgetForNextStep
  simp only [henforced, Bool.not_true, Bool.false_eq_true, if_false, if_neg hmore]
  rw [show ctx.internalCostIrr + expectedIrr - reservedBy w ctx.reservationId =
    ctx.missing w expectedIrr from rfl]
  generalize ctx.missing w expectedIrr = delta at *
  cases htopup : aiTopupReservation now ctx.runId (some (toStoredIrr delta)) w with
  | error e =>
    have hno : ∀ id, ¬ToppedUp now w ctx.runId delta id := by
      rintro id ⟨hknown, ⟨run, hrun, hid, -⟩, -⟩
      obtain ⟨r, hr⟩ := AiWallet.aiTopupReservation_succeeds now
        (some (toStoredIrr delta)) hrun hid hknown
      cases htopup.symm.trans hr
    simp [hno]
  | ok answer =>
    obtain ⟨added, w'⟩ := answer
    simp only [decide_eq_true_eq]
    refine ⟨⟨fun hcovers => ?_, ?_⟩, ?_⟩
    · have hadded : 0 < added := by
        unfold fromStoredIrr at hcovers
        omega
      rcases AiWallet.topup_ok htopup with ⟨-, hzero⟩ | ⟨run, id, -, -, -, hrun, hid, -⟩
      · cases hzero
        cases hadded
      · have hknown := topup_known hrun hid hadded htopup
        rw [(topup_reserved hrun hid hstored htopup).1, min_covers h] at hcovers
        exact ⟨id, hknown, ⟨run, hrun, hid, hcovers.2⟩, hcovers.1⟩
    · rintro ⟨id, -, ⟨run, hrun, hid, hfree⟩, hrounded⟩
      rw [(topup_reserved hrun hid hstored htopup).1, min_covers h]
      exact ⟨hrounded, hfree⟩
    · rintro id ⟨hknown, ⟨run, hrun, hid, hfree⟩, -⟩
      obtain ⟨hadded, hreserved⟩ := topup_reserved hrun hid hstored htopup
      rw [hreserved, if_pos hknown, hadded, min_eq_left hfree]

end Guard

def uncounted (db : BillingDb) (ctx : BudgetContext) : Int :=
  recordedCharge db ctx - ctx.internalCostIrr

/-- A workspace with a thousand rials, and a run that opened with fifty dollars estimated, at one
rial a dollar and sold at `multiplier`; its first step used sixty. -/
def meteredRun (multiplier : Int) : BudgetContext × BillingDb :=
  let w := Lib.run AiWallet.walletStep .empty
    [(0, .purchaseCredit 9 (some 1000000000) none none), (1, .beginRun 9 "op" "h" (some .enforced))]
  let ctx : BudgetContext :=
    { runId := 2, workspaceId := 9, enforced := true, reservationId := none
      sellMultiplier := multiplier * scaleFactor, billingFxRate := scaleFactor }
  let (_, ctx, w) := reserveForRun (fun _ => "r") 2 ctx (50 * scaleFactor) w
  ctx.recordUsage ⟨2, .completion, 1, 1⟩
    [⟨"INPUT_TOKENS", "60", "t", 60 * scaleFactor, 60 * scaleFactor⟩] { wallet := w }

end Kindred.AiBilling
