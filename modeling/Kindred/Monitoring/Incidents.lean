import Kindred.Database

/-! The alert evaluator: rules that are read against the collector, incidents that open and resolve
after a streak, and the passes that write them. Metrics and thresholds are of any type that can be
compared and divided. -/

namespace Kindred.Monitoring
open Lib (Table)

inductive AlertRuleKind where
  | count | ratio | perfP95 | perfP99 | perfErrorRate | processAvg | processRatio | combined
  deriving DecidableEq

/-- `resolved` is what the row of an incident says once it is over. -/
inductive Severity where
  | warn | critical | resolved
  deriving DecidableEq

/-- A row of `alert_rules`. -/
structure AlertRule (V : Type) where
  slug : String
  kind : AlertRuleKind
  metric : Option String := none
  numerator : Option String := none
  denominator : Option String := none
  routeGroup : Option String := none
  windowSeconds : ℕ := 300
  warnThreshold : V
  criticalThreshold : V
  minSample : ℕ := 0
  subrules : List String := []
  aggregation : Option String := none
  enabled : Bool := true

inductive ProcessAverageMetric where
  | eventLoopLagMs | rssPctOfBudget | heapUsedOverTotal | heapUsedOverLimit

structure Collector (V : Type) where
  queryRealtimeCount : String → ℕ → V
  queryRealtimeRatio : String → String → ℕ → ℕ × ℕ
  queryPerfPercentile : String → ℕ → ℕ → V × ℕ
  queryPerfErrorRate : String → ℕ → V × ℕ
  queryProcessAverage : ProcessAverageMetric → ℕ → Option ℕ → V × ℕ

structure RuleEvalResult (V : Type) where
  severity : Option Severity
  threshold : Option V
  value : V
  sample : Option ℕ

structure Opening (V : Type) where
  at_ : Int
  severity : Severity
  metricValue : V
  thresholdValue : Option V
  sampleSize : Option ℕ
  deriving DecidableEq

structure Transition (V : Type) where
  at_ : Int
  fromSeverity : Severity
  toSeverity : Severity
  metricValue : V
  thresholdValue : Option V
  sampleSize : Option ℕ
  deriving DecidableEq

structure Resolution (V : Type) where
  at_ : Int
  metricValue : V
  sampleSize : Option ℕ
  deriving DecidableEq

structure Details (V : Type) where
  kind : AlertRuleKind
  metric : Option String
  numerator : Option String
  denominator : Option String
  routeGroup : Option String
  aggregation : Option String
  subrules : List String
  opened : Opening V
  transitions : List (Transition V) := []
  resolved : Option (Resolution V) := none
  deriving DecidableEq

inductive EventState where
  | open_ | resolved
  deriving DecidableEq

/-- A row of `alert_events`: an incident. -/
structure AlertEvent (V : Type) where
  ruleId : Id
  ruleSlug : String
  severity : Severity
  state : EventState := .open_
  metricValue : V
  thresholdValue : Option V
  windowSeconds : ℕ
  sampleSize : Option ℕ
  details : Details V
  resolvedAt : Option Int := none
  deriving DecidableEq

structure OpenAlert (V : Type) where
  id : Id
  ruleId : Id
  ruleSlug : String
  severity : Severity
  metricValue : V
  thresholdValue : Option V
  sampleSize : Option ℕ
  details : Details V
  deriving DecidableEq

def AlertEvent.openAlert {V : Type} (e : AlertEvent V) (id : Id) : OpenAlert V :=
  { id, ruleId := e.ruleId, ruleSlug := e.ruleSlug, severity := e.severity
    metricValue := e.metricValue, thresholdValue := e.thresholdValue, sampleSize := e.sampleSize
    details := e.details }

section Rules
variable {V : Type} [LE V] [DecidableLE V] [NatCast V] [Div V]

def classifyThreshold (value : V) (rule : AlertRule V) : Option Severity × Option V :=
  if rule.criticalThreshold ≤ value then (some .critical, some rule.criticalThreshold)
  else if rule.warnThreshold ≤ value then (some .warn, some rule.warnThreshold)
  else (none, none)

def classified (rule : AlertRule V) (value : V) (sample : Option ℕ) : RuleEvalResult V :=
  let (severity, threshold) := classifyThreshold value rule
  { severity, threshold, value, sample }

def inert (sample : ℕ) : RuleEvalResult V :=
  { severity := none, threshold := none, value := (0 : ℕ), sample := some sample }

def sampled (rule : AlertRule V) (answer : V × ℕ) : RuleEvalResult V :=
  if answer.2 < max rule.minSample 1 then inert answer.2
  else classified rule answer.1 (some answer.2)

def evaluateSyncRule (rule : AlertRule V) (collector : Collector V) (budgetBytes : ℕ) :
    RuleEvalResult V :=
  match rule.kind with
  | .count =>
    classified rule (collector.queryRealtimeCount (rule.metric.getD "") rule.windowSeconds) none
  | .ratio =>
    let (num, den) := collector.queryRealtimeRatio (rule.numerator.getD "")
      (rule.denominator.getD "") rule.windowSeconds
    if den = 0 ∨ den < rule.minSample then inert den
    else classified rule ((num : V) / (den : V)) (some den)
  | .perfP95 =>
    sampled rule (collector.queryPerfPercentile (rule.routeGroup.getD "") 95 rule.windowSeconds)
  | .perfP99 =>
    sampled rule (collector.queryPerfPercentile (rule.routeGroup.getD "") 99 rule.windowSeconds)
  | .perfErrorRate =>
    sampled rule (collector.queryPerfErrorRate (rule.routeGroup.getD "") rule.windowSeconds)
  | .processAvg =>
    if rule.metric = some "event_loop_lag_ms" then
      sampled rule
        (collector.queryProcessAverage .eventLoopLagMs rule.windowSeconds (some budgetBytes))
    else if rule.metric = some "rss_pct_of_budget" then
      sampled rule
        (collector.queryProcessAverage .rssPctOfBudget rule.windowSeconds (some budgetBytes))
    else inert 0
  | .processRatio =>
    if rule.metric = some "heap_used_over_total" then
      sampled rule (collector.queryProcessAverage .heapUsedOverTotal rule.windowSeconds none)
    else if rule.metric = some "heap_used_over_limit" then
      sampled rule (collector.queryProcessAverage .heapUsedOverLimit rule.windowSeconds none)
    else inert 0
  | .combined => { severity := none, threshold := none, value := (0 : ℕ), sample := none }

/-- The distinct slugs among `wanted` that have an open incident. -/
def openSlugs (wanted : List String) (openIndex : Table Id (OpenAlert V)) : List String :=
  ((openIndex.rows.map fun r => r.2.ruleSlug).filter fun slug => wanted.contains slug).dedup

def evaluateCombinedRule (rule : AlertRule V) (openIndex : Table Id (OpenAlert V)) :
    RuleEvalResult V :=
  classified rule ((openSlugs rule.subrules openIndex).length : ℕ) (some rule.subrules.length)

end Rules

structure FlapState where
  breach : ℕ := 0
  clear : ℕ := 0

def openStreak : ℕ := 3

def clearStreak : ℕ := 3

def maxTransitions : ℕ := 20

inductive Change (V : Type) where
  | opened (e : AlertEvent V)
  | changed (entry : OpenAlert V)
  | resolved (id : Id) (r : Resolution V)
  deriving DecidableEq

section Results
variable {V : Type}

def opening (ruleId : Id) (rule : AlertRule V) (result : RuleEvalResult V) (severity : Severity)
    (now : Int) : AlertEvent V where
  ruleId := ruleId
  ruleSlug := rule.slug
  severity := severity
  metricValue := result.value
  thresholdValue := result.threshold
  windowSeconds := rule.windowSeconds
  sampleSize := result.sample
  details :=
    { kind := rule.kind, metric := rule.metric, numerator := rule.numerator
      denominator := rule.denominator, routeGroup := rule.routeGroup
      aggregation := rule.aggregation, subrules := rule.subrules
      opened :=
        { at_ := now, severity, metricValue := result.value, thresholdValue := result.threshold
          sampleSize := result.sample } }

/-- `slice(-MAX_TRANSITIONS + 1)` keeps the last nineteen. -/
def transitioned (entry : OpenAlert V) (result : RuleEvalResult V) (severity : Severity)
    (now : Int) : OpenAlert V :=
  let prior := entry.details.transitions
  { entry with
    severity
    metricValue := result.value
    thresholdValue := result.threshold
    sampleSize := result.sample
    details.transitions := prior.drop (prior.length - (maxTransitions - 1)) ++
      [{ at_ := now, fromSeverity := entry.severity, toSeverity := severity
         metricValue := result.value, thresholdValue := result.threshold
         sampleSize := result.sample }] }

/-- `applyRuleResult` up to its write: the streaks, and what is to be written. -/
def applyRuleResult (ruleId : Id) (rule : AlertRule V) (result : RuleEvalResult V) (now : Int)
    (flap : FlapState) (open_ : Option (OpenAlert V)) : FlapState × Option (Change V) :=
  match result.severity with
  | some severity =>
    let flap : FlapState := { breach := flap.breach + 1, clear := 0 }
    match open_ with
    | none =>
      if flap.breach < openStreak then (flap, none)
      else (flap, some (.opened (opening ruleId rule result severity now)))
    | some entry =>
      if entry.severity ≠ severity then
        (flap, some (.changed (transitioned entry result severity now)))
      else (flap, none)
  | none =>
    match open_ with
    | some entry =>
      let flap : FlapState := { breach := 0, clear := flap.clear + 1 }
      if flap.clear < clearStreak then (flap, none)
      else (flap, some (.resolved entry.id
        { at_ := now, metricValue := result.value, sampleSize := result.sample }))
    | none => ({}, none)

end Results

/-- How a write ends: its answer may be lost after it took effect. -/
inductive Fault where
  | none | lost | refused

/-- A pass that is under way. `collector` is what the collector tells while a rule is evaluated,
`faults` what becomes of a write for it. -/
structure Pass (V : Type) where
  now : Int
  budgetBytes : ℕ
  collector : Id → Collector V
  faults : Id → Fault
  remaining : List (Id × AlertRule V)
  openIndex : Table Id (OpenAlert V)

/-- `maxRows`: what a read returns at most. Three components are no part of the program: `made` counts
the incidents there ever were, `seen` lists for each rule which of its evaluations found a breach, the
last one first, and `changes` is what the latest pass has written. -/
structure Evaluator (V : Type) where
  maxRows : ℕ
  rules : Table Id (AlertRule V) := .empty
  events : Table Id (AlertEvent V) := .empty
  flaps : Table Id FlapState := .empty
  pass : Option (Pass V) := none
  made : ℕ := 0
  seen : Table Id (List Bool) := .empty
  changes : Table Id (Change V) := .empty

/-- `ids`: the enabled rules in the order the database returns them. -/
structure Reading (V : Type) where
  ids : List Id
  now : Int
  perfMemoryBudgetMb : Option ℕ
  collector : Id → Collector V
  faults : Id → Fault
  readFails : Bool := false

inductive Action (V : Type) where
  | editRule (id : Id) (rule : AlertRule V)
  | begin (r : Reading V)
  | round

namespace Evaluator
variable {V : Type}

def flapOf (s : Evaluator V) (id : Id) : FlapState := (s.flaps.get id).getD {}

def seenOf (s : Evaluator V) (id : Id) : List Bool := (s.seen.get id).getD []

def openEvents (events : Table Id (AlertEvent V)) : List (Id × AlertEvent V) :=
  (events.rows.filter fun r => r.2.state = .open_).reverse

def indexed (index : Table Id (OpenAlert V)) (row : Id × AlertEvent V) : Table Id (OpenAlert V) :=
  if (index.get row.2.ruleId).isSome then index
  else index.put row.2.ruleId (row.2.openAlert row.1)

def loadOpenAlertIndex (maxRows : ℕ) (events : Table Id (AlertEvent V)) : Table Id (OpenAlert V) :=
  ((openEvents events).take maxRows).foldl indexed .empty

def enabledIds (s : Evaluator V) : List Id :=
  (s.rules.rows.filter fun r => r.2.enabled).map Prod.fst

def Answer (s : Evaluator V) (ids : List Id) : Prop :=
  ids.Nodup ∧ ids.length = min s.maxRows s.enabledIds.length ∧ ∀ id ∈ ids, id ∈ s.enabledIds

instance (s : Evaluator V) (ids : List Id) : Decidable (s.Answer ids) :=
  inferInstanceAs (Decidable (_ ∧ _ ∧ _))

def orderedRules (rules : List (Id × AlertRule V)) : List (Id × AlertRule V) :=
  (rules.filter fun r => r.2.kind ≠ .combined) ++ rules.filter fun r => r.2.kind = .combined

def withRows (s : Evaluator V) (ids : List Id) : List (Id × AlertRule V) :=
  ids.filterMap fun id => (s.rules.get id).map fun rule => (id, rule)

def begun (r : Reading V) (s : Evaluator V) : Pass V where
  now := r.now
  budgetBytes := ((r.perfMemoryBudgetMb.filter fun mb => mb ≠ 0).getD 512) * 1024 * 1024
  collector := r.collector
  faults := r.faults
  remaining := []
  openIndex := loadOpenAlertIndex s.maxRows s.events

/-- The reads of `evaluateAlertRulesInMemory`. -/
def begin (r : Reading V) (s : Evaluator V) : Evaluator V :=
  if s.pass.isNone ∧ r.readFails = false ∧ s.Answer r.ids then
    { s with
      changes := .empty
      pass := some { s.begun r with remaining := orderedRules (s.withRows r.ids) } }
  else s

def write (ruleId : Id) (c : Change V) (s : Evaluator V) : Evaluator V :=
  let s := { s with changes := s.changes.put ruleId c }
  match c with
  | .opened e => { s with events := s.events.put s.made e, made := s.made + 1 }
  | .changed entry =>
    { s with events := s.events.update entry.id fun e =>
      { e with
        severity := entry.severity
        metricValue := entry.metricValue
        thresholdValue := entry.thresholdValue
        sampleSize := entry.sampleSize
        details := entry.details } }
  | .resolved id r =>
    { s with events := s.events.update id fun e =>
      { e with
        state := .resolved
        severity := .resolved
        resolvedAt := some r.at_
        metricValue := r.metricValue
        sampleSize := r.sampleSize
        details.resolved := some r } }

/-- The same change on the index; `made` is the id of a row that was inserted. -/
def mirrored (ruleId made : Id) (c : Change V) (index : Table Id (OpenAlert V)) :
    Table Id (OpenAlert V) :=
  match c with
  | .opened e => index.put ruleId (e.openAlert made)
  | .changed entry => index.put ruleId entry
  | .resolved _ _ => index.erase ruleId

/-- A resolved incident takes its streak along. -/
def settled (c : Change V) (flap : FlapState) : FlapState :=
  match c with
  | .resolved _ _ => { flap with clear := 0 }
  | _ => flap

def noted (id : Id) (flap : FlapState) (breached : Bool) (s : Evaluator V) : Evaluator V :=
  { s with flaps := s.flaps.put id flap, seen := s.seen.put id (breached :: s.seenOf id) }

/-- The rest of `applyRuleResult`. A write that fails throws, which ends the pass. -/
def carryOut (p : Pass V) (id : Id) (rest : List (Id × AlertRule V)) (breached : Bool)
    (flap : FlapState) (change : Option (Change V)) (s : Evaluator V) : Evaluator V :=
  let s := s.noted id flap breached
  match change with
  | none => { s with pass := some { p with remaining := rest } }
  | some c =>
    match p.faults id with
    | .refused => { s with pass := none }
    | .lost => { s.write id c with pass := none }
    | .none => { s.write id c with
        flaps := s.flaps.put id (settled c flap)
        pass := some { p with remaining := rest, openIndex := mirrored id s.made c p.openIndex } }

section Rounds
variable [LE V] [DecidableLE V] [NatCast V] [Div V]

def evaluate (p : Pass V) (id : Id) (rule : AlertRule V) : RuleEvalResult V :=
  if rule.kind = .combined then evaluateCombinedRule rule p.openIndex
  else evaluateSyncRule rule (p.collector id) p.budgetBytes

def evaluateRule (p : Pass V) (id : Id) (rule : AlertRule V) (rest : List (Id × AlertRule V))
    (s : Evaluator V) : Evaluator V :=
  let result := evaluate p id rule
  let r := applyRuleResult id rule result p.now (s.flapOf id) (p.openIndex.get id)
  s.carryOut p id rest result.severity.isSome r.1 r.2

def round (s : Evaluator V) : Evaluator V :=
  match s.pass with
  | none => s
  | some p =>
    match p.remaining with
    | [] => { s with pass := none }
    | (id, rule) :: rest => s.evaluateRule p id rule rest

def act (s : Evaluator V) : Action V → Evaluator V
  | .editRule id rule => { s with rules := s.rules.put id rule }
  | .begin r => s.begin r
  | .round => s.round

end Rounds

end Evaluator

end Kindred.Monitoring
