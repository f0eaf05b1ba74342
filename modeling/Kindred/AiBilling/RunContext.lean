import Kindred.AiWallet.Commands

/-! AI runs: their usage is recorded, they are settled or fail, and a recovery settles those that
were left. -/

namespace Kindred.AiBilling
open AiWallet (Wallet WalletTx RunStatus SettleResult aiSettleRun aiReleaseReservation aiExpireLots)

/-- `SCALE_FACTOR` -/
def scaleFactor : Int := 1000000000000

def mul (a b : Int) : Int := (a * b).tdiv scaleFactor

/-- `toStoredIrr`: in millionths, and a half is rounded away from zero. -/
def toStoredIrr (v : Int) : Int := v.sign * ((v.natAbs + 500000) / 1000000)

/-- `fromString` of a column that is counted in millionths. -/
def fromStoredIrr (v : Int) : Int := v * 1000000

theorem toStoredIrr_fromStoredIrr (v : Int) : toStoredIrr (fromStoredIrr v) = v := by
  unfold toStoredIrr fromStoredIrr
  rw [Int.sign_mul, Int.natAbs_mul]
  have hrounds : ((v.natAbs * (1000000 : Int).natAbs : ℕ) + 500000 : Int) / 1000000 = v.natAbs := by
    push_cast
    omega
  rw [hrounds, show Int.sign 1000000 = 1 from rfl, mul_one, Int.sign_mul_natAbs]

inductive StepKind where
  | completion | embedding | retrieval | tool
  deriving DecidableEq

/-- `ai_run_steps`, by its unique key. -/
structure RunStep where
  runId : Id
  kind : StepKind
  seq : ℕ
  attemptNo : ℕ
  deriving DecidableEq

/-- What of a usage event is hashed; `terms` has its provider, model, unit, native amount, currency
and rate card. -/
structure Payload where
  terms : String
  providerCostUsd : Int
  internalCostIrr : Int
  deriving DecidableEq

/-- `ai_usage_events`; `quantity` is part of `usage_event_key`. -/
structure UsageEvent where
  step : RunStep
  componentType : String
  quantity : String
  payload : Payload
  deriving DecidableEq

/-- `UNIQUE (step_id, component_type, usage_event_key)` -/
def UsageEvent.key (e : UsageEvent) : RunStep × String × String :=
  (e.step, e.componentType, e.quantity)

structure BillingDb where
  wallet : Wallet
  usage : List UsageEvent := []

def BillingDb.eventsOf (db : BillingDb) (runId : Id) : List UsageEvent :=
  db.usage.filter (·.step.runId = runId)

def BillingDb.statusOf (db : BillingDb) (runId : Id) : Option RunStatus :=
  (db.wallet.runs.get runId).map (·.status)

def BillingDb.setStatus (db : BillingDb) (runId : Id) (status : RunStatus) : BillingDb :=
  { db with wallet := { db.wallet with
      runs := db.wallet.runs.update runId fun r => { r with status } } }

inductive Ingested where
  | inserted | noop | conflict
  deriving DecidableEq

/-- `ai_ingest_usage_event`; none where it raises. -/
def BillingDb.ingestUsageEvent (db : BillingDb) (e : UsageEvent) : Option (Ingested × BillingDb) :=
  if (db.wallet.runs.get e.step.runId).isNone then none
  else
    match db.usage.find? fun u => u.key = e.key with
    | some u => some (if u.payload = e.payload then .noop else .conflict, db)
    | none => some (.inserted, { db with usage := db.usage ++ [e] })

structure Settling where
  runId : Id
  sellMultiplier : Int
  cap : Option Int := none
  billingCycleId : String
  recovered : Bool := false

def Settling.charge (b : Settling) (internalIrr : Int) : Int :=
  let charge := mul internalIrr b.sellMultiplier
  match b.cap with
  | some cap => if cap < charge then cap else charge
  | none => charge

/-- The statements that the calls send to the database, one at a time. -/
inductive Statement where
  | ingest (e : UsageEvent)
  | setStatus (runId : Id) (status : RunStatus)
  | readEvents (b : Settling)
  | settle (b : Settling) (events : List UsageEvent)
  | release (reservationId : Id)
  | expireReservation (reservationId : Id)
  | selectStale (ids : List Id)
  | selectPending (runs : List Settling)
  | selectOrphans (ids : List Id)
  | expireLots

def Settling.afterRead (b : Settling) (events : List UsageEvent) : List Statement :=
  if b.recovered then [.settle b events]
  else [.setStatus b.runId .settlementPending, .settle b events]

def RunStatus.awaitsSettlement (s : RunStatus) : Bool :=
  s = .usageRecorded ∨ s = .settlementPending

def BillingDb.awaitsSettlement (db : BillingDb) (runId : Id) : Bool :=
  (db.statusOf runId).any RunStatus.awaitsSettlement

section Statements
variable (uuidText : Id → String) (maxRows : ℕ)

def settleKey (runId : Id) : String := "settle:" ++ uuidText runId

/-- `ledger.settleRun`, of the events that were read. -/
def Settling.settleRun (now : Timestamp) (b : Settling) (events : List UsageEvent) :
    WalletTx SettleResult :=
  let providerUsd := (events.map (·.payload.providerCostUsd)).sum
  let internalIrr := (events.map fun e => fromStoredIrr e.payload.internalCostIrr).sum
  aiSettleRun now b.runId (some (settleKey uuidText b.runId)) (some providerUsd)
    (some (toStoredIrr internalIrr)) (some (toStoredIrr (b.charge internalIrr)))
    (some b.billingCycleId)

/-- The database after a statement, and what its caller sends next because of it; none where the
caller gives up. `maxRows` bounds what one read answers; what is stale, and the `LIMIT`, leave any of
the rows that a recovery selects. -/
def Statement.exec (now : Timestamp) (db : BillingDb) :
    Statement → Option (BillingDb × List Statement)
  | .ingest e => (db.ingestUsageEvent e).map fun r => (r.2, [])
  | .setStatus runId status => some (db.setStatus runId status, [])
  | .readEvents b => some (db, b.afterRead ((db.eventsOf b.runId).take maxRows))
  | .settle b events =>
    some ({ db with wallet := Lib.Tx.commit (b.settleRun uuidText now events) db.wallet }, [])
  | .release id =>
    some ({ db with wallet := Lib.Tx.commit (aiReleaseReservation id) db.wallet }, [])
  | .expireReservation id =>
    some ({ db with wallet := { db.wallet with
      reservations := db.wallet.reservations.update id fun r => { r with state := .expired } } }, [])
  | .selectStale ids =>
    let stale := ids.filter fun id => (db.wallet.reservations.get id).any (·.state = .active)
    some (db, stale.flatMap fun id => [.release id, .expireReservation id])
  | .selectPending runs =>
    some (db, (runs.filter fun b => db.awaitsSettlement b.runId).map fun b =>
      .readEvents { b with recovered := true })
  | .selectOrphans ids =>
    let orphans := ids.filter fun id => db.statusOf id = some .running
    some (db, orphans.flatMap fun id =>
      (((db.wallet.runs.get id).bind (·.reservationId)).map Statement.release).toList ++
        [.setStatus id .cancelled])
  | .expireLots => some ({ db with wallet := Lib.Tx.commit (aiExpireLots now) db.wallet }, [])

/-- What a caller goes on with when a statement has failed: only what ingests usage throws, and
what reads takes no row for an answer. -/
def Statement.failed : Statement → Option (List Statement)
  | .ingest _ => none
  | .readEvents b => some (b.afterRead [])
  | _ => some []

end Statements

structure Component where
  componentType : String
  quantity : String
  payload : Payload

/-- `priced` is none where a rate is missing and the run is ENFORCED. -/
def recordStepUsage (step : RunStep) (priced : Option (List Component)) : List Statement :=
  match priced with
  | none => []
  | some components =>
    (components.map fun c => .ingest {
      step, componentType := c.componentType, quantity := c.quantity, payload := c.payload }) ++
    [.setStatus step.runId .usageRecorded]

def settleAiRun (b : Settling) : List Statement := [.readEvents { b with recovered := false }]

def failAiRun (runId : Id) (reservationId : Option Id) : List Statement :=
  (reservationId.map Statement.release).toList ++ [.setStatus runId .failed]

def runAiBillingRecovery (stale : List Id) (pending : List Settling) (orphans : List Id) :
    List Statement :=
  [.selectStale stale, .selectPending pending, .selectOrphans orphans, .expireLots]

inductive BillingCall where
  | recordStepUsage (step : RunStep) (priced : Option (List Component))
  | settleAiRun (b : Settling)
  | failAiRun (runId : Id) (reservationId : Option Id)
  | runAiBillingRecovery (stale : List Id) (pending : List Settling) (orphans : List Id)

def BillingCall.statements : BillingCall → List Statement
  | .recordStepUsage step priced => AiBilling.recordStepUsage step priced
  | .settleAiRun b => AiBilling.settleAiRun b
  | .failAiRun runId reservationId => AiBilling.failAiRun runId reservationId
  | .runAiBillingRecovery stale pending orphans =>
    AiBilling.runAiBillingRecovery stale pending orphans

/-- A call begins; the next statement of one is carried out, or fails; its process dies. -/
inductive BillingEvent where
  | start (c : BillingCall)
  | advance (now : Timestamp) (i : ℕ)
  | fail (i : ℕ)
  | crash (i : ℕ)

/-- The database, and what each call has yet to send. -/
structure Billing where
  db : BillingDb
  calls : List (List Statement) := []

def Billing.next (s : Billing) (i : ℕ) : Option (Statement × List Statement) :=
  s.calls[i]?.bind fun
    | [] => none
    | st :: rest => some (st, rest)

section Calls
variable (uuidText : Id → String) (maxRows : ℕ)

def Billing.step (s : Billing) : BillingEvent → Billing
  | .start c => { s with calls := s.calls ++ [c.statements] }
  | .advance now i =>
    match s.next i with
    | none => s
    | some (st, rest) =>
      match st.exec uuidText maxRows now s.db with
      | none => { s with calls := s.calls.set i [] }
      | some (db, more) => { db, calls := s.calls.set i (more ++ rest) }
  | .fail i =>
    match s.next i with
    | none => s
    | some (st, rest) =>
      { s with calls := s.calls.set i ((st.failed.map (· ++ rest)).getD []) }
  | .crash i => { s with calls := s.calls.set i [] }

end Calls

end Kindred.AiBilling
