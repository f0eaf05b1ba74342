import Kindred.AiBilling.Decimal

/-! What an attempt costs by the rate card of its model, what of it a run's context remembers,
and what the two settlements charge. -/

namespace Kindred.AiBilling

structure RateCardComponent where
  componentType : String
  unitAmount : Int
  perUnits : Int

structure RateCard where
  id : String
  currency : String
  components : List RateCardComponent

/-- `D.div`, of a divisor that is not zero. -/
def div (a b : Int) : Int := (a * scaleFactor).tdiv b

structure NormalizedComponent where
  componentType : String
  quantity : ℕ
  unit : String

def priceComponent (card : RateCard) (componentType : String) (quantity : ℕ) : Int × Bool :=
  match card.components.find? fun c => c.componentType = componentType with
  | none => (0, false)
  | some comp =>
    let qty : Int := quantity * scaleFactor
    if comp.perUnits = 0 then (0, true)
    else (div (mul qty comp.unitAmount) comp.perUnits, true)

/-- What `resolveRateCard` and `resolveFx` answer at a moment. -/
structure Rates where
  card : String → String → Option RateCard
  fx : String → String → Option Int

def Rates.resolveFx (r : Rates) (source target : String) : Option Int :=
  if source = target then some scaleFactor else r.fx source target

structure NormalizedUsage where
  provider : String
  requestedModel : Option String
  actualModel : Option String
  components : List NormalizedComponent

/-- `a || b` of texts. -/
def orElse (a : Option String) (b : String) : String :=
  match a with
  | some s => if s = "" then b else s
  | none => b

def NormalizedUsage.model (u : NormalizedUsage) : String :=
  orElse u.actualModel (orElse u.requestedModel "unknown")

structure RunPrices where
  sellMultiplier : Option Int
  billingFxRate : Option Int

structure AiRunContext where
  enforced : Bool
  sellMultiplier : Int
  billingFxRate : Int
  billingCycleId : String
  stepSeq : ℕ := 0
  fallbackCapModel : Option String := none
  fallbackUsage : Option NormalizedUsage := none

/-- The context that `beginAiRun` makes of the row, and of the policy and the rate it found. -/
def beginAiRun (row : RunPrices) (enforced : Bool) (policy fx : Option Int) (cycle : String) :
    AiRunContext where
  enforced
  sellMultiplier := row.sellMultiplier.getD (policy.getD scaleFactor)
  billingFxRate := row.billingFxRate.getD (fx.getD 0)
  billingCycleId := cycle

structure RecordUsageArgs where
  stepKind : StepKind
  attemptNo : ℕ
  usage : NormalizedUsage
  platformFallback : Bool
  userSelectedModel : Option String

def RecordUsageArgs.capModel (a : RecordUsageArgs) : Option String :=
  if a.platformFallback then a.userSelectedModel.filter (· ≠ "") else none

structure ComponentCost where
  native : Int
  usd : Int
  irr : Int

def componentCost (card : Option RateCard) (usageFx : Option Int) (billingFxRate : Int)
    (c : NormalizedComponent) : ComponentCost :=
  let native := match card with
    | some card => (priceComponent card c.componentType c.quantity).1
    | none => 0
  let usd := match usageFx with
    | some rate => mul native rate
    | none => native
  ⟨native, usd, mul usd billingFxRate⟩

structure Attempt where
  ctx : ℕ
  args : RecordUsageArgs
  step : RunStep
  card : Option RateCard
  usageFx : Option Int
  billingFxRate : Int
  pending : List NormalizedComponent
  inserted : List (NormalizedComponent × Int) := []
  ended : Bool := false

def Attempt.event (a : Attempt) (c : NormalizedComponent) : UsageEvent :=
  let cost := componentCost a.card a.usageFx a.billingFxRate c
  { step := a.step
    componentType := c.componentType
    quantity := toString c.quantity
    payload := {
      terms := String.intercalate "|" [a.args.usage.provider, a.args.usage.model, c.unit,
        decToString cost.native, (a.card.map (·.currency)).getD "USD", (a.card.map (·.id)).getD ""]
      providerCostUsd := cost.usd
      internalCostIrr := toStoredIrr cost.irr } }

/-- A run on which contexts record. -/
structure Metering where
  db : BillingDb
  row : RunPrices
  contexts : List AiRunContext := []
  attempts : List Attempt := []

inductive MeteringEvent where
  | beginAiRun (enforced : Bool) (policy fx : Option Int) (cycle : String)
  | recordStepUsage (i : ℕ) (args : RecordUsageArgs) (rates : Rates) (opens : Bool)
  | ingest (j : ℕ)
  | recorded (j : ℕ)
  | elsewhere (e : UsageEvent)

section
variable (runId : Id)

def Metering.startAttempt (s : Metering) (i : ℕ) (ctx : AiRunContext) (args : RecordUsageArgs)
    (rates : Rates) (opens : Bool) : Metering :=
  let ctx := { ctx with stepSeq := ctx.stepSeq + 1 }
  let s := { s with contexts := s.contexts.set i ctx }
  let card := rates.card args.usage.provider args.usage.model
  let usageFx := card.bind fun c =>
    if c.currency = "USD" then none else rates.resolveFx c.currency "USD"
  let unpriced := card.all fun c => c.currency ≠ "USD" && usageFx.isNone
  if !opens || ctx.enforced && unpriced then s
  else
    { s with attempts := s.attempts ++ [{
        ctx := i, args, step := ⟨runId, args.stepKind, ctx.stepSeq, args.attemptNo⟩
        card, usageFx, billingFxRate := ctx.billingFxRate, pending := args.usage.components }] }

def Metering.ingestNext (s : Metering) (j : ℕ) (a : Attempt) (c : NormalizedComponent)
    (rest : List NormalizedComponent) : Metering :=
  match s.db.ingestUsageEvent (a.event c) with
  | none => { s with attempts := s.attempts.set j { a with ended := true } }
  | some (.inserted, db) =>
    { s with
      db
      attempts := s.attempts.set j { a with
        pending := rest
        inserted := a.inserted ++ [(c, (a.event c).payload.internalCostIrr)] } }
  | some (_, db) => { s with db, attempts := s.attempts.set j { a with pending := rest } }

def AiRunContext.remember (ctx : AiRunContext) (args : RecordUsageArgs) : AiRunContext :=
  match args.capModel with
  | some model => { ctx with fallbackCapModel := some model, fallbackUsage := some args.usage }
  | none => ctx

def Metering.step (s : Metering) : MeteringEvent → Metering
  | .beginAiRun enforced policy fx cycle =>
    { s with contexts := s.contexts ++ [AiBilling.beginAiRun s.row enforced policy fx cycle] }
  | .recordStepUsage i args rates opens =>
    match s.contexts[i]? with
    | none => s
    | some ctx => s.startAttempt runId i ctx args rates opens
  | .ingest j =>
    match s.attempts[j]? with
    | none => s
    | some a =>
      match a.ended, a.pending with
      | false, c :: rest => s.ingestNext j a c rest
      | _, _ => s
  | .recorded j =>
    match s.attempts[j]? with
    | none => s
    | some a =>
      match a.ended, a.pending, s.contexts[a.ctx]? with
      | false, [], some ctx =>
        { s with
          contexts := s.contexts.set a.ctx (ctx.remember a.args)
          attempts := s.attempts.set j { a with ended := true } }
      | _, _, _ => s
  | .elsewhere e =>
    if e.step.runId = runId then s
    else
      match s.db.ingestUsageEvent e with
      | none => s
      | some (_, db) => { s with db }

def AiRunContext.cap (ctx : AiRunContext) (rates : Rates) : Option Int :=
  match ctx.fallbackCapModel, ctx.fallbackUsage with
  | some model, some usage =>
    (rates.card usage.provider model).map fun card =>
      let capUsd := (usage.components.map fun c =>
        (priceComponent card c.componentType c.quantity).1).sum
      mul (mul capUsd ctx.billingFxRate) ctx.sellMultiplier
  | _, _ => none

def AiRunContext.settling (ctx : AiRunContext) (rates : Rates) : Settling where
  runId
  sellMultiplier := ctx.sellMultiplier
  cap := ctx.cap rates
  billingCycleId := ctx.billingCycleId

def RunPrices.settling (row : RunPrices) (cycle : String) : Settling where
  runId
  sellMultiplier := row.sellMultiplier.getD scaleFactor
  billingCycleId := cycle
  recovered := true

end

/-- The charge that a settlement sends to `ai_settle_run`, for the events that it read. -/
def Settling.charged (b : Settling) (events : List UsageEvent) : Int :=
  toStoredIrr (b.charge (events.map fun e => fromStoredIrr e.payload.internalCostIrr).sum)

end Kindred.AiBilling
