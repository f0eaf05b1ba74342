import Kindred.AiBilling.RunContext
import Kindred.AiBilling.Settlement

/-! What is settled stays settled, and what is not is recovered. -/

namespace Kindred.AiBilling
open AiWallet (Wallet WalletTx RunStatus Settlement OffBooks)
open Lib (Table run Meets)

def BillingDb.costOf (db : BillingDb) (runId : Id) : Int :=
  ((db.eventsOf runId).map (·.payload.internalCostIrr)).sum

structure BillingDb.Accounted (db : BillingDb) : Prop where
  status : ∀ runId st, db.wallet.settlements.get runId = some st →
    db.statusOf runId = some .settled
  cost : ∀ runId st, db.wallet.settlements.get runId = some st →
    st.internalCostIrr = db.costOf runId

/-- Only recoveries that began after the first `n` calls go on. -/
def BillingEvent.recovers (n : ℕ) : BillingEvent → Bool
  | .start (.runAiBillingRecovery ..) => true
  | .start _ => false
  | .advance _ i | .fail i | .crash i => n ≤ i

section Claim
variable (uuidText : Id → String) (maxRows : ℕ)

def Billing.PickedForever (s : Billing) (runId : Id) : Prop :=
  ∀ es : List BillingEvent, (∀ e ∈ es, e.recovers s.calls.length) →
    (run (Billing.step uuidText maxRows) s es).db.awaitsSettlement runId

/-- Of a run that has a settlement no statement sets the status and none adds an event; and the
settlement that it gets is told of all its events. -/
def Statement.Careful (db : BillingDb) : Statement → Prop
  | .ingest e => db.wallet.settlements.get e.step.runId = none ∨ db.usage.any fun u => u.key = e.key
  | .setStatus runId _ => db.wallet.settlements.get runId = none
  | .settle b events =>
    db.wallet.settlements.get b.runId = none → events = db.eventsOf b.runId
  | _ => True

instance (db : BillingDb) : (st : Statement) → Decidable (st.Careful db)
  | .ingest _ | .setStatus .. | .settle .. => by unfold Statement.Careful; infer_instance
  | .readEvents _ | .release _ | .expireReservation _ | .selectStale _ | .selectPending _
  | .selectOrphans _ | .expireLots => .isTrue trivial

def Billing.Careful (s : Billing) : BillingEvent → Prop
  | .advance _ i => ∀ r ∈ s.next i, r.1.Careful s.db
  | _ => True

instance (s : Billing) : (e : BillingEvent) → Decidable (s.Careful e)
  | .advance .. => by unfold Billing.Careful; infer_instance
  | .start _ | .fail _ | .crash _ => .isTrue trivial

def BillingDb.NoSettlements (db : BillingDb) : Prop :=
  db.wallet.settlements = .empty ∧
    ∀ runId, db.wallet.commands.get (settleKey uuidText runId) = none

end Claim

variable {w : Wallet} {runId : Id} {now : Timestamp} {s : Billing}

section Statements
variable {uuidText : Id → String} {maxRows : ℕ} {db db' : BillingDb}

structure BillingDb.Closed (uuidText : Id → String) (db : BillingDb) : Prop
    extends db.Accounted where
  keyed : ∀ runId, (db.wallet.replay (some (settleKey uuidText runId))).isSome →
    (db.wallet.settlements.get runId).isSome

theorem settleKey_injective (h : Function.Injective uuidText) :
    Function.Injective (settleKey uuidText) := by
  intro a b hab
  exact h (by simpa [settleKey, String.ext_iff] using hab)

theorem BillingDb.Closed.offBooks (h : db.Closed uuidText) (hsame : db.wallet.SameBooks w)
    : BillingDb.Closed uuidText { db with wallet := w } := by
  have hold {runId : Id} {st : Settlement} (hst : w.settlements.get runId = some st) :
      ∃ st', db.wallet.settlements.get runId = some st' ∧
        st'.internalCostIrr = st.internalCostIrr := by
    have hmap := hsame.settlements runId
    rw [hst, Option.map_some, eq_comm, Option.map_eq_some_iff] at hmap
    obtain ⟨st', hst', heq⟩ := hmap
    exact ⟨st', hst', congrArg (·.internalCostIrr) heq⟩
  refine ⟨⟨fun runId st hst => ?_, fun runId st hst => ?_⟩, fun runId hkey => ?_⟩
  · obtain ⟨st', hst', -⟩ := hold hst
    have hstatus := h.status runId st' hst'
    unfold BillingDb.statusOf at hstatus ⊢
    rwa [hsame.runs]
  · obtain ⟨st', hst', hcost⟩ := hold hst
    rw [← hcost]
    exact h.cost runId st' hst'
  · rw [hsame.replay] at hkey
    have hsome := h.keyed runId hkey
    have hmap := congrArg Option.isSome (hsame.settlements runId)
    simpa [hsome] using hmap

theorem BillingDb.Closed.commit {α : Type} (h : db.Closed uuidText) {m : WalletTx α}
    (hm : OffBooks m db.wallet) :
    BillingDb.Closed uuidText { db with wallet := Lib.Tx.commit m db.wallet } := by
  unfold Lib.Tx.commit
  cases hr : m db.wallet with
  | error e => exact h
  | ok r => exact h.offBooks (hm.same hr)

theorem BillingDb.Closed.setStatus (h : db.Closed uuidText) (status : RunStatus)
    (hnone : db.wallet.settlements.get runId = none) :
    (db.setStatus runId status).Closed uuidText := by
  refine ⟨⟨fun id st hst => ?_, h.cost⟩, h.keyed⟩
  have hne : id ≠ runId := by
    rintro rfl
    rw [show db.wallet.settlements.get id = some st from hst] at hnone
    cases hnone
  have hstatus := h.status id st hst
  unfold BillingDb.statusOf BillingDb.setStatus at *
  rwa [Table.get_update_ne _ _ hne]

theorem BillingDb.Closed.ingest (h : db.Closed uuidText) {e : UsageEvent} {r : Ingested × BillingDb}
    (hcareful : (Statement.ingest e).Careful db) (hr : db.ingestUsageEvent e = some r) :
    r.2.Closed uuidText := by
  unfold BillingDb.ingestUsageEvent at hr
  split at hr
  · cases hr
  · split at hr
    · cases hr
      exact h
    · rename_i hnew
      cases hr
      have hunsettled : db.wallet.settlements.get e.step.runId = none := by
        refine hcareful.resolve_right fun hany => ?_
        obtain ⟨u, hu, hkey⟩ := List.any_eq_true.mp hany
        exact absurd hkey (List.find?_eq_none.mp hnew u hu)
      refine ⟨⟨h.status, fun runId st hst => ?_⟩, h.keyed⟩
      have hne : e.step.runId ≠ runId := by
        rintro rfl
        rw [show db.wallet.settlements.get e.step.runId = some st from hst] at hunsettled
        cases hunsettled
      rw [h.cost runId st hst]
      simp [BillingDb.costOf, BillingDb.eventsOf, List.filter_append, hne]

theorem toStoredIrr_sum (events : List UsageEvent) :
    toStoredIrr (events.map fun e => fromStoredIrr e.payload.internalCostIrr).sum =
      (events.map (·.payload.internalCostIrr)).sum := by
  have hsum : (events.map fun e => fromStoredIrr e.payload.internalCostIrr).sum =
      fromStoredIrr (events.map (·.payload.internalCostIrr)).sum := by
    induction events with
    | nil => rfl
    | cons e events ih =>
      rw [List.map_cons, List.sum_cons, ih, List.map_cons, List.sum_cons]
      exact (Int.add_mul _ _ _).symm
  rw [hsum, toStoredIrr_fromStoredIrr]

theorem BillingDb.Closed.settles (huuid : Function.Injective uuidText) (h : db.Closed uuidText)
    {irr : Option Int} (hsettles : db.wallet.Settles runId (some (settleKey uuidText runId)) irr w)
    (hirr : irr.getD 0 = db.costOf runId) : BillingDb.Closed uuidText { db with wallet := w } := by
  have hother {id : Id} {st : Settlement} (hid : id ≠ runId)
      (hst : w.settlements.get id = some st) : ∃ st', db.wallet.settlements.get id = some st' ∧
        st'.internalCostIrr = st.internalCostIrr := by
    have hmap := hsettles.settlements id hid
    rw [hst, Option.map_some, eq_comm, Option.map_eq_some_iff] at hmap
    obtain ⟨st', hst', heq⟩ := hmap
    exact ⟨st', hst', congrArg (·.internalCostIrr) heq⟩
  have hcost {st : Settlement} (hst : w.settlements.get runId = some st) :
      st.internalCostIrr = db.costOf runId := by
    have hmap := hsettles.cost
    rw [hst, Option.map_some, Option.some.injEq] at hmap
    rw [hmap, hirr]
  refine ⟨⟨fun id st hst => ?_, fun id st hst => ?_⟩, fun id hkey => ?_⟩
  · by_cases hid : id = runId
    · subst hid
      exact hsettles.status
    · obtain ⟨st', hst', -⟩ := hother hid hst
      have hstatus := h.status id st' hst'
      unfold BillingDb.statusOf at hstatus ⊢
      rwa [hsettles.runs id hid]
  · by_cases hid : id = runId
    · subst hid
      exact hcost hst
    · obtain ⟨st', hst', hcost'⟩ := hother hid hst
      rw [← hcost']
      exact h.cost id st' hst'
  · by_cases hid : id = runId
    · subst hid
      have hsome := congrArg Option.isSome hsettles.cost
      simpa using hsome
    · have hne : (some (settleKey uuidText id) : Option String) ≠ settleKey uuidText runId :=
        fun hkeys => hid (settleKey_injective huuid (Option.some.inj hkeys))
      rw [hsettles.replays _ hne] at hkey
      have hmap := congrArg Option.isSome (hsettles.settlements id hid)
      simpa [h.keyed id hkey] using hmap

theorem BillingDb.Closed.settle (huuid : Function.Injective uuidText) (h : db.Closed uuidText)
    {b : Settling} {events : List UsageEvent} (hcareful : (Statement.settle b events).Careful db) :
    BillingDb.Closed uuidText { db with
      wallet := Lib.Tx.commit (b.settleRun uuidText now events) db.wallet } := by
  unfold Lib.Tx.commit
  cases hr : b.settleRun uuidText now events db.wallet with
  | error e => exact h
  | ok r =>
    obtain ⟨hsame, -⟩ | hsettles := AiWallet.settle_books hr
    · dsimp only
      rw [hsame]
      exact h
    · refine h.settles huuid hsettles ?_
      rw [Option.getD_some, toStoredIrr_sum, hcareful hsettles.unsettled]
      rfl

theorem BillingDb.Closed.exec (huuid : Function.Injective uuidText) (h : db.Closed uuidText)
    {st : Statement} {r : BillingDb × List Statement} (hcareful : st.Careful db)
    (hr : st.exec uuidText maxRows now db = some r) : r.1.Closed uuidText := by
  cases st with
  | ingest e =>
    obtain ⟨p, hp, rfl⟩ := Option.map_eq_some_iff.mp hr
    exact h.ingest hcareful hp
  | setStatus runId status =>
    cases hr
    exact h.setStatus status hcareful
  | settle b events =>
    cases hr
    exact h.settle huuid hcareful
  | release id =>
    cases hr
    exact h.commit AiWallet.release_offBooks
  | expireLots =>
    cases hr
    exact h.commit AiWallet.expireLots_offBooks
  | expireReservation id =>
    cases hr
    exact h.offBooks ⟨rfl, rfl, fun _ => rfl⟩
  | readEvents b =>
    cases hr
    exact h
  | selectStale ids =>
    cases hr
    exact h
  | selectPending runs =>
    cases hr
    exact h
  | selectOrphans ids =>
    cases hr
    exact h

theorem closed_step (huuid : Function.Injective uuidText) {e : BillingEvent}
    (h : s.db.Closed uuidText) (hcareful : s.Careful e) :
    (s.step uuidText maxRows e).db.Closed uuidText := by
  cases e with
  | start c => exact h
  | crash i => exact h
  | advance now i =>
    unfold Billing.step
    dsimp only
    cases hnext : s.next i with
    | none => exact h
    | some r =>
      obtain ⟨st, rest⟩ := r
      dsimp only
      cases hexec : st.exec uuidText maxRows now s.db with
      | none => exact h
      | some r => exact h.exec huuid (hcareful _ hnext) hexec
  | fail i =>
    unfold Billing.step
    dsimp only
    cases s.next i <;> exact h

end Statements

section Recoveries
variable {uuidText : Id → String} {maxRows : ℕ}

theorem step_last (db : BillingDb) (calls : List (List Statement)) (st : Statement)
    (rest more : List Statement) (now : Timestamp) {db' : BillingDb}
    (h : st.exec uuidText maxRows now db = some (db', more)) :
    Billing.step uuidText maxRows { db, calls := calls ++ [st :: rest] }
      (.advance now calls.length) = { db := db', calls := calls ++ [more ++ rest] } := by
  simp [Billing.step, Billing.next, h]

/-- A recovery that picks the run up settles it. -/
theorem Billing.not_pickedForever (h : s.db.Closed uuidText) (hcovered : s.db.wallet.Covered)
    (runId : Id) : ¬s.PickedForever uuidText maxRows runId := by
  intro hforever
  obtain ⟨db, calls⟩ := s
  have hawaits : db.awaitsSettlement runId := hforever [] nofun
  obtain ⟨status, hstatus, hopen⟩ := (Option.any_eq_true _ _).mp hawaits
  obtain ⟨r, hrun, rfl⟩ := Option.map_eq_some_iff.mp hstatus
  have hset : db.wallet.settlements.get runId = none := by
    cases hst : db.wallet.settlements.get runId with
    | none => rfl
    | some st =>
      rw [h.status runId st hst] at hstatus
      rw [← Option.some.inj hstatus] at hopen
      cases hopen
  have hkey : db.wallet.replay (some (settleKey uuidText runId)) = none := by
    cases hreplay : db.wallet.replay (some (settleKey uuidText runId)) with
    | none => rfl
    | some id =>
      have hsome := h.keyed runId (by rw [hreplay]; rfl)
      rw [hset] at hsome
      cases hsome
  let b : Settling := { runId, sellMultiplier := 0, billingCycleId := "", recovered := true }
  let events := (db.eventsOf runId).take maxRows
  -- the recovery selects the run, reads its events and settles it
  have hend := hforever
    [.start (.runAiBillingRecovery [] [b] []), .advance 0 calls.length, .advance 0 calls.length,
      .advance 0 calls.length, .advance 0 calls.length] (by simp [BillingEvent.recovers])
  have hpending : (Statement.selectPending [b]).exec uuidText maxRows 0 db =
      some (db, [.readEvents b]) := by
    simp [Statement.exec, b, hawaits]
  simp only [Lib.run_cons, Lib.run_nil] at hend
  rw [show Billing.step uuidText maxRows { db, calls }
      (.start (.runAiBillingRecovery [] [b] [])) = { db, calls := calls ++
        [[.selectStale [], .selectPending [b], .selectOrphans [], .expireLots]] } from rfl,
    step_last db calls _ _ [] 0 rfl, List.nil_append, step_last db calls _ _ _ 0 hpending,
    List.singleton_append, step_last db calls _ _ [.settle b events] 0 rfl,
    List.singleton_append, step_last db calls _ _ [] 0 rfl] at hend
  have hsucceeds : Lib.Tx.Succeeds (b.settleRun uuidText 0 events) db.wallet :=
    AiWallet.aiSettleRun_succeeds hcovered hrun hkey hset
  obtain ⟨result, hresult⟩ := Lib.Tx.commit_of_succeeds hsucceeds
  obtain ⟨-, hreplayed⟩ | hsettles := AiWallet.settle_books hresult
  · rw [show b.runId = runId from rfl, hkey, hset] at hreplayed
    simp at hreplayed
  · have hsettled : BillingDb.statusOf { db with
        wallet := Lib.Tx.commit (b.settleRun uuidText 0 events) db.wallet } runId =
          some .settled := hsettles.status
    rw [BillingDb.awaitsSettlement, hsettled] at hend
    cases hend

end Recoveries

/-- What is settled is accounted for, and no run is picked up for ever where the lots reserve what is
allocated of them. -/
structure Billing.Settled (uuidText : Id → String) (maxRows : ℕ) (s : Billing) : Prop where
  accounted : s.db.Accounted
  recovered : s.db.wallet.Covered → ∀ runId, ¬s.PickedForever uuidText maxRows runId

theorem closed_start {uuidText : Id → String} {db : BillingDb} (h : db.NoSettlements uuidText) :
    db.Closed uuidText := by
  have hnone {runId : Id} {st : Settlement} : db.wallet.settlements.get runId ≠ some st := by
    rw [h.1, Table.get_empty]
    exact nofun
  refine ⟨⟨fun _ _ hst => absurd hst hnone, fun _ _ hst => absurd hst hnone⟩, fun runId hkey => ?_⟩
  simp [Wallet.replay, h.2 runId] at hkey

def oneRun : BillingDb where
  wallet := { Wallet.empty with
    nextId := 2
    runs := Table.empty.put 1 { workspaceId := 0, operationKey := "message:1", requestHash := "h" } }

def firstStep : RunStep where
  runId := 1
  kind := .completion
  seq := 1
  attemptNo := 1

def recorded : List BillingEvent :=
  [.start (.recordStepUsage firstStep (some [{
      componentType := "input_tokens", quantity := "1200"
      payload := { terms := "openai", providerCostUsd := 300, internalCostIrr := 25000000 } }])),
    .advance 1 0, .advance 2 0]

def settlement : Settling where
  runId := 1
  sellMultiplier := 1500000000000
  billingCycleId := "2026-01"

def settledOnce : List BillingEvent :=
  recorded ++ [.start (.settleAiRun settlement), .advance 3 1, .advance 4 1, .advance 5 1]

def settledTwice : List BillingEvent :=
  settledOnce ++ [.start (.settleAiRun settlement), .advance 6 2, .advance 7 2, .advance 8 2]

end Kindred.AiBilling
