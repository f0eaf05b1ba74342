import Mathlib.Data.Int.ConditionallyCompleteOrder
import Kindred.AiBilling.Pricing
import Kindred.AiBilling.Recovery

/-! The charge of a run as its context settles it and as the recovery does, beside what it would be
with every fallback at the cheaper of two models. -/

namespace Kindred.AiBilling
open Lib (run)

def Attempt.used (a : Attempt) : Int := (a.inserted.map Prod.snd).sum

def Attempt.chosen (rates : Rates) (a : Attempt) : Option Int :=
  a.args.capModel.bind fun model => (rates.card a.args.usage.provider model).bind fun card =>
    let priced (usageFx : Option Int) : Int := (a.inserted.map fun r =>
      toStoredIrr (componentCost (some card) usageFx a.billingFxRate r.1).irr).sum
    if card.currency = "USD" then some (priced none)
    else (rates.resolveFx card.currency "USD").map fun rate => priced (some rate)

def Attempt.cheaper (rates : Rates) (a : Attempt) : Int :=
  match a.chosen rates with
  | some chosen => min a.used chosen
  | none => a.used

def Attempt.excess (rates : Rates) (a : Attempt) : Int := a.used - a.cheaper rates

def billed (multiplier cost : Int) : Int := toStoredIrr (mul (fromStoredIrr cost) multiplier)

namespace Metering

def atCheaper (s : Metering) (rates : Rates) : Int := (s.attempts.map (·.cheaper rates)).sum

def excess (s : Metering) (rates : Rates) : Int := (s.attempts.map (·.excess rates)).sum

def multiplier (s : Metering) : Int := s.row.sellMultiplier.getD scaleFactor

variable (runId : Id) (maxRows : ℕ)

def read (s : Metering) : List UsageEvent := (s.db.eventsOf runId).take maxRows

def costOf (events : List UsageEvent) : Int := (events.map (·.payload.internalCostIrr)).sum

def unread (s : Metering) : Int := costOf ((s.db.eventsOf runId).drop maxRows)

def inlineCharge (s : Metering) (ctx : AiRunContext) (rates : Rates) : Int :=
  (ctx.settling runId rates).charged (s.read runId maxRows)

def recoveryCharge (s : Metering) (cycle : String) : Int :=
  (s.row.settling runId cycle).charged (s.read runId maxRows)

/-- What the fallbacks cost over the models that the user chose does not show in the charge. -/
def FallbacksCheap (s : Metering) (rates : Rates) : Prop :=
  billed s.multiplier (s.atCheaper rates + s.excess rates - s.unread runId maxRows) ≤
    billed s.multiplier (s.atCheaper rates)

/-- What a context remembers of a fallback takes nothing off the run's charge. Where the row has no
multiplier, the one of the context also comes to the same charge, or what is remembered is that
charge. -/
def ContextAgrees (s : Metering) (ctx : AiRunContext) (rates : Rates) : Prop :=
  let cost := costOf (s.read runId maxRows)
  let uncut := ∀ cap ∈ ctx.cap rates, billed s.multiplier cost ≤ toStoredIrr cap
  match s.row.sellMultiplier with
  | some _ => uncut
  | none =>
    billed ctx.sellMultiplier cost = billed s.multiplier cost ∧ uncut ∨
      ∃ cap ∈ ctx.cap rates, toStoredIrr cap = billed s.multiplier cost ∧
        billed s.multiplier cost ≤ billed ctx.sellMultiplier cost

end Metering

instance (s : Metering) (runId : Id) (maxRows : ℕ) (rates : Rates) :
    Decidable (s.FallbacksCheap runId maxRows rates) := by
  unfold Metering.FallbacksCheap; infer_instance

instance (s : Metering) (runId : Id) (maxRows : ℕ) (ctx : AiRunContext) (rates : Rates) :
    Decidable (s.ContextAgrees runId maxRows ctx rates) := by
  unfold Metering.ContextAgrees
  cases s.row.sellMultiplier <;> infer_instance

theorem toStoredIrr_mono : Monotone toStoredIrr := by
  intro a b hab
  unfold toStoredIrr
  rcases lt_trichotomy a 0 with ha | ha | ha <;> rcases lt_trichotomy b 0 with hb | hb | hb <;>
    simp only [Int.sign_eq_one_of_pos, Int.sign_eq_neg_one_of_neg, ha, hb, Int.sign_zero] <;> omega

theorem sum_fromStoredIrr (events : List UsageEvent) :
    (events.map fun e => fromStoredIrr e.payload.internalCostIrr).sum =
      fromStoredIrr (Metering.costOf events) := by
  induction events with
  | nil => rfl
  | cons e events ih =>
    rw [List.map_cons, List.sum_cons, ih, Metering.costOf, Metering.costOf, List.map_cons,
      List.sum_cons]
    exact (Int.add_mul _ _ _).symm

variable {j i : ℕ} {ctx : AiRunContext}

section
variable {runId : Id} {maxRows : ℕ} {db : BillingDb} {s : Metering} {db' : BillingDb}
  {e : UsageEvent} {a : Attempt}

theorem recoveryCharge_eq (s : Metering) (cycle : String) : s.recoveryCharge runId maxRows cycle =
      billed s.multiplier (Metering.costOf (s.read runId maxRows)) := by
  unfold Metering.recoveryCharge Settling.charged
  rw [sum_fromStoredIrr]
  rfl

theorem inlineCharge_eq (s : Metering) (ctx : AiRunContext) (rates : Rates) :
    s.inlineCharge runId maxRows ctx rates =
      match ctx.cap rates with
      | some cap => min (toStoredIrr cap)
          (billed ctx.sellMultiplier (Metering.costOf (s.read runId maxRows)))
      | none => billed ctx.sellMultiplier (Metering.costOf (s.read runId maxRows)) := by
  unfold Metering.inlineCharge Settling.charged
  rw [sum_fromStoredIrr]
  unfold Settling.charge AiRunContext.settling billed
  cases ctx.cap rates with
  | none => rfl
  | some cap =>
    dsimp only
    rw [← toStoredIrr_mono.map_min]
    congr 1
    split <;> omega

theorem sum_used (s : Metering) (rates : Rates) :
    (s.attempts.map Attempt.used).sum = s.atCheaper rates + s.excess rates := by
  unfold Metering.atCheaper Metering.excess
  induction s.attempts with
  | nil => rfl
  | cons a as ih =>
    simp only [List.map_cons, List.sum_cons, ih, Attempt.excess]
    omega

theorem costOf_append (es es' : List UsageEvent) :
    Metering.costOf (es ++ es') = Metering.costOf es + Metering.costOf es' := by
  simp [Metering.costOf]

/-- What was inserted for the attempts is what is stored of the run, and every context has the
multiplier of the row. -/
structure Metering.Sound (runId : Id) (s : Metering) : Prop where
  steps : ∀ a ∈ s.attempts, a.step.runId = runId
  costs : (s.attempts.map Attempt.used).sum = Metering.costOf (s.db.eventsOf runId)
  frozen : ∀ ctx ∈ s.contexts, ∀ m ∈ s.row.sellMultiplier, ctx.sellMultiplier = m

theorem ingest_inserted (h : db.ingestUsageEvent e = some (.inserted, db')) :
    db'.usage = db.usage ++ [e] := by
  unfold BillingDb.ingestUsageEvent at h
  split at h
  · cases h
  · split at h
    · split at h <;> cases h
    · cases h
      rfl

theorem ingest_kept {r : Ingested} (h : db.ingestUsageEvent e = some (r, db'))
    (hr : r ≠ .inserted) : db' = db := by
  unfold BillingDb.ingestUsageEvent at h
  split at h
  · cases h
  · split at h
    · split at h <;> cases h <;> rfl
    · cases h
      exact (hr rfl).elim

theorem eventsOf_append (h : db'.usage = db.usage ++ [e]) :
    db'.eventsOf runId = db.eventsOf runId ++ if e.step.runId = runId then [e] else [] := by
  unfold BillingDb.eventsOf
  rw [h, List.filter_append]
  congr 1
  by_cases he : e.step.runId = runId <;> simp [he]

theorem sum_used_set {as : List Attempt} (ha : as[j]? = some a) (a' : Attempt) :
    ((as.set j a').map Attempt.used).sum = (as.map Attempt.used).sum - a.used + a'.used := by
  induction as generalizing j with
  | nil => simp at ha
  | cons b as ih =>
    cases j with
    | zero =>
      cases ha
      simp only [List.set_cons_zero, List.map_cons, List.sum_cons]
      omega
    | succ j =>
      have ih := ih (j := j) (by simpa using ha)
      simp only [List.set_cons_succ, List.map_cons, List.sum_cons, ih]
      omega

theorem Metering.Sound.setAttempt (h : s.Sound runId) {a' : Attempt} (ha : s.attempts[j]? = some a)
    (hstep : a'.step = a.step)
    (hcost : costOf (db.eventsOf runId) = costOf (s.db.eventsOf runId) - a.used + a'.used) :
    Metering.Sound runId { s with db, attempts := s.attempts.set j a' } := by
  refine ⟨fun b hb => ?_, ?_, h.frozen⟩
  · rcases List.mem_or_eq_of_mem_set hb with hb | rfl
    · exact h.steps b hb
    · rw [hstep]
      exact h.steps a (List.mem_of_getElem? ha)
  · have hsum := sum_used_set ha a'
    have hcosts := h.costs
    show ((s.attempts.set j a').map Attempt.used).sum = costOf (db.eventsOf runId)
    omega

theorem Metering.Sound.ingestNext (h : s.Sound runId) {c : NormalizedComponent}
    {rest : List NormalizedComponent} (ha : s.attempts[j]? = some a) :
    (s.ingestNext j a c rest).Sound runId := by
  have hrun : a.step.runId = runId := h.steps a (List.mem_of_getElem? ha)
  unfold Metering.ingestNext
  cases hi : s.db.ingestUsageEvent (a.event c) with
  | none =>
    refine h.setAttempt ha ?_ ?_
    · rfl
    · simp only [Attempt.used]
      omega
  | some r =>
    obtain ⟨r, db⟩ := r
    cases r with
    | inserted =>
      refine h.setAttempt ha ?_ ?_
      · rfl
      · rw [eventsOf_append (ingest_inserted hi),
          if_pos (show (a.event c).step.runId = runId from hrun), costOf_append]
        simp only [Attempt.used, List.map_append, List.sum_append, costOf, List.map_cons,
          List.map_nil, List.sum_cons, List.sum_nil]
        omega
    | noop =>
      rw [ingest_kept hi nofun]
      refine h.setAttempt ha ?_ ?_
      · rfl
      · simp only [Attempt.used]
        omega
    | conflict =>
      rw [ingest_kept hi nofun]
      refine h.setAttempt ha ?_ ?_
      · rfl
      · simp only [Attempt.used]
        omega

theorem remember_multiplier (ctx : AiRunContext) (args : RecordUsageArgs) :
    (ctx.remember args).sellMultiplier = ctx.sellMultiplier := by
  unfold AiRunContext.remember
  split <;> rfl

theorem frozen_set (h : s.Sound runId) (hctx : s.contexts[i]? = some ctx) (ctx' : AiRunContext)
    (hm : ctx'.sellMultiplier = ctx.sellMultiplier) :
    ∀ c ∈ s.contexts.set i ctx', ∀ m ∈ s.row.sellMultiplier, c.sellMultiplier = m := by
  intro c hc m hrow
  rcases List.mem_or_eq_of_mem_set hc with hc | rfl
  · exact h.frozen c hc m hrow
  · rw [hm]
    exact h.frozen ctx (List.mem_of_getElem? hctx) m hrow

theorem Metering.Sound.startAttempt (h : s.Sound runId) (hctx : s.contexts[i]? = some ctx)
    (args : RecordUsageArgs) (rates : Rates) (opens : Bool) :
    (s.startAttempt runId i ctx args rates opens).Sound runId := by
  have hfrozen := frozen_set h hctx { ctx with stepSeq := ctx.stepSeq + 1 } rfl
  simp only [Metering.startAttempt]
  split
  · exact ⟨h.steps, h.costs, hfrozen⟩
  · refine ⟨fun a ha => ?_, ?_, hfrozen⟩
    · rcases List.mem_append.mp ha with ha | ha
      · exact h.steps a ha
      · rw [List.mem_singleton.mp ha]
    · rw [List.map_append, List.sum_append, h.costs]
      simp [Attempt.used]

theorem Metering.Sound.step (h : s.Sound runId) (e : MeteringEvent) :
    (s.step runId e).Sound runId := by
  cases e with
  | beginAiRun enforced policy fx cycle =>
    refine ⟨h.steps, h.costs, fun ctx hctx m hm => ?_⟩
    rcases List.mem_append.mp hctx with hctx | hctx
    · exact h.frozen ctx hctx m hm
    · rw [List.mem_singleton.mp hctx]
      have hrow : s.row.sellMultiplier = some m := hm
      simp [beginAiRun, hrow]
  | recordStepUsage i args rates opens =>
    simp only [Metering.step]
    cases hctx : s.contexts[i]? with
    | none => exact h
    | some ctx => exact h.startAttempt hctx args rates opens
  | ingest j =>
    simp only [Metering.step]
    cases ha : s.attempts[j]? with
    | none => exact h
    | some a =>
      dsimp only
      split
      · exact h.ingestNext ha
      · exact h
  | recorded j =>
    simp only [Metering.step]
    cases ha : s.attempts[j]? with
    | none => exact h
    | some a =>
      dsimp only
      split
      · rename_i ctx _ _ hctx
        have hset : Metering.Sound runId
            { s with attempts := s.attempts.set j { a with ended := true } } := by
          refine h.setAttempt ha ?_ ?_
          · rfl
          · simp only [Attempt.used]
            omega
        exact ⟨hset.steps, hset.costs, frozen_set h hctx _ (remember_multiplier ctx a.args)⟩
      · exact h
  | elsewhere e =>
    simp only [Metering.step]
    split
    · exact h
    · rename_i hne
      cases hi : s.db.ingestUsageEvent e with
      | none => exact h
      | some r =>
        obtain ⟨r, db⟩ := r
        refine ⟨h.steps, ?_, h.frozen⟩
        rw [h.costs]
        by_cases hr : r = .inserted
        · subst hr
          rw [eventsOf_append (ingest_inserted hi), if_neg hne, List.append_nil]
        · rw [ingest_kept hi hr]

theorem sound_start (h : db.eventsOf runId = []) (row : RunPrices) :
    Metering.Sound runId { db, row } :=
  ⟨fun _ ha => (List.not_mem_nil ha).elim, by rw [h]; rfl,
    fun _ hc => (List.not_mem_nil hc).elim⟩

theorem read_cost (h : s.Sound runId) (rates : Rates) : Metering.costOf (s.read runId maxRows) =
      s.atCheaper rates + s.excess rates - s.unread runId maxRows := by
  have hsplit := costOf_append (s.read runId maxRows) ((s.db.eventsOf runId).drop maxRows)
  rw [Metering.read, List.take_append_drop] at hsplit
  have hcosts := h.costs
  have hused := sum_used s rates
  unfold Metering.unread Metering.read
  omega

end

/-- The model that the user chose at three dollars a million tokens, and the one that the platform
falls back to at `price`. -/
def listed (price : Int) : Rates where
  card _ model :=
    let amount := if model = "chosen" then 3 else price
    some ⟨model, "USD", [⟨"INPUT_TOKENS", amount * scaleFactor, 1000000 * scaleFactor⟩]⟩
  fx _ _ := none

def fallbackRun (price : Int) : Metering :=
  run (Metering.step 1) { db := oneRun, row := ⟨some scaleFactor, some (600000 * scaleFactor)⟩ }
    [.beginAiRun false none none "2026-01",
      .recordStepUsage 0 ⟨.completion, 1, ⟨"openai", some "chosen", some "fallback",
        [⟨"INPUT_TOKENS", 1000, "TOKEN"⟩]⟩, true, some "chosen"⟩ (listed price) true,
      .ingest 0, .recorded 0]

end Kindred.AiBilling
