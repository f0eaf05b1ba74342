import Kindred.Entitlement.Effects

/-!
When a job is given up. A claim is one more attempt whatever becomes of it, so the attempts of a
job are not the lookups that failed.
-/

namespace Kindred.Entitlement
open Lib (Table Meets run)

def Worker.failsLookup (w : Worker) (io : Io) : Option Id :=
  match w.task with
  | .read pass =>
    if io.readFails ∧ pass.pages < max w.pagesPerLease 1 then some pass.job.id else none
  | _ => none

def failedLookup (s : State) : Action → Option Id
  | .work k io => (s.workers.get k).bind (·.failsLookup io)
  | _ => none

def enqueued (s : State) : Action → Option Id
  | .enqueue scope _ _ => some ((s.db.activeJob scope).elim s.db.nextId (·.1))
  | _ => none

/-- The fan-out, and the claims of each job that have ended in a failed lookup since it was last
enqueued. -/
structure Watched where
  state : State := {}
  failures : Id → ℕ := fun _ => 0

def Watched.step (s : Watched) (a : Action) : Watched where
  state := Entitlement.step s.state a
  failures id :=
    if enqueued s.state a = some id then 0
    else if failedLookup s.state a = some id then s.failures id + 1
    else s.failures id

/-- The row is the claim's still, of the newest generation, in its `n`th claim or a later one. -/
def Db.spent (db : Db) (token : ℕ) (job : ClaimRow) (n : ℕ) : Bool :=
  (db.jobs.get job.id).any fun j =>
    j.claimToken = some token && j.requestedGeneration ≤ job.generation && n ≤ j.attempts

/-- From the tenth claim on, a lookup fails only of a job of which nine have failed already, and no
other stop is made in the millionth claim. -/
def Spares (s : Watched) : Action → Bool
  | .work k io => (s.state.workers.get k).all fun w =>
    match w.task with
    | .read pass => (w.failsLookup io).isNone || !s.state.db.spent w.token pass.job 10 ||
        9 ≤ s.failures pass.job.id
    | .release job _ _ maxAttempts =>
      maxAttempts ≠ 1000000 || !s.state.db.spent w.token job 1000000 || 10 ≤ s.failures job.id
    | _ => true
  | _ => true

def Watched.Counted (s : Watched) (token : ℕ) (job : ClaimRow) : Prop :=
  s.state.db.spent token job 10 → 10 ≤ s.failures job.id

def Watched.Justified (s : Watched) (token : ℕ) : Task → Prop
  | .checkpoint pass .lookupFailed => s.Counted token pass.job
  | .release job _ _ maxAttempts =>
    maxAttempts = 1 ∧ job.scope = .plan none ∨ maxAttempts = 1000000 ∨
      maxAttempts = 10 ∧ s.Counted token job
  | _ => True

structure Watched.Fair (s : Watched) : Prop where
  sound : Sound s.state
  task : ∀ k w, s.state.workers.get k = some w → s.Justified w.token w.task
  failed : ∀ id j, s.state.db.jobs.get id = some j → j.scope ≠ .plan none → j.status = .failed →
    10 ≤ s.failures id

variable {s : Watched} {a : Action} {job : ClaimRow} {w : Worker}

variable {id : Id} {n k : ℕ} {io : Io}

theorem failures_le (h : enqueued s.state a ≠ some id) :
    s.failures id ≤ (s.step a).failures id := by
  simp only [Watched.step, if_neg h]
  split <;> omega

/-- Of the jobs that are there, an active one is enqueued again, and it is of a new generation. -/
theorem enqueued_again (hs : Sound s.state) {j j' : FanoutJob}
    (hj : s.state.db.jobs.get id = some j) (h : enqueued s.state a = some id)
    (hj' : (step s.state a).db.jobs.get id = some j') :
    j.active ∧ j'.requestedGeneration = j.requestedGeneration + 1 := by
  cases a with
  | enqueue scope source now =>
    rw [enqueued, Option.some_inj] at h
    cases hfound : s.state.db.activeJob scope with
    | none =>
      rw [hfound] at h
      exact absurd (hs.ids id j hj) (h ▸ Nat.lt_irrefl _)
    | some r =>
      obtain ⟨hr, hactive, -⟩ := activeJob_some hfound
      rw [hfound, Option.elim_some] at h
      subst h
      rw [hj] at hr
      cases hr
      simp only [step, enqueueEntitlementFanout, hfound, Table.get_update_self, hj,
        Option.map_some, Option.some_inj] at hj'
      subst hj'
      exact ⟨hactive, rfl⟩
  | _ => cases h

theorem spent_iff {db : Db} {token : ℕ} :
    db.spent token job n ↔ ∃ j, db.jobs.get job.id = some j ∧ j.claimToken = some token ∧
      j.requestedGeneration ≤ job.generation ∧ n ≤ j.attempts := by
  simp [Db.spent, Option.any_eq_true, and_assoc]

/-- A claim that stays the newest was not enqueued again, and no attempt came to it. -/
theorem spent_step (hs : Sound s.state) (hw : s.state.workers.get k = some w) (hjob : job ∈ w.rows)
    (h : (step s.state a).db.spent w.token job n) :
    s.state.db.spent w.token job n ∧ enqueued s.state a ≠ some job.id := by
  obtain ⟨j', hj', htoken, hgen, hn⟩ := spent_iff.mp h
  obtain ⟨i, hi, -, hle⟩ := hs.claims k w hw job hjob
  have hlt := hs.token k w hw
  rcases row_of_step hj' with ⟨j, hj, hstep⟩ | ⟨scope, source, now, -, -, -, rfl⟩
  · rw [hi] at hj
    cases hj
    have hnot : enqueued s.state a ≠ some job.id := by
      intro henqueued
      have := (enqueued_again hs hi henqueued hj').2
      omega
    refine ⟨spent_iff.mpr ⟨i, hi, ?_⟩, hnot⟩
    cases hstep with
    | same => exact ⟨htoken, hgen, hn⟩
    | enqueued => exact ⟨htoken, (Nat.le_succ _).trans hgen, hn⟩
    | claimed =>
      rw [FanoutJob.claimed, Option.some_inj] at htoken
      omega
    | written _ _ _ _ hwrote =>
      cases hwrote with
      | advanced => exact ⟨htoken, hgen, hn⟩
      | requeued | completed | deadLettered | retried => cases htoken
  · cases htoken

theorem Watched.Counted.step (hs : Sound s.state) (hw : s.state.workers.get k = some w)
    (hjob : job ∈ w.rows) (h : s.Counted w.token job) : (s.step a).Counted w.token job := by
  intro hspent
  obtain ⟨hspent, hnot⟩ := spent_step hs hw hjob hspent
  exact (h hspent).trans (failures_le hnot)

theorem mem_rows (h : w.task.job = some job) : job ∈ w.rows := by
  simp [Worker.rows, h]

theorem Watched.Justified.step (hs : Sound s.state) (hw : s.state.workers.get k = some w)
    (h : s.Justified w.token w.task) : (s.step a).Justified w.token w.task := by
  cases ht : w.task with
  | checkpoint pass after =>
    rw [ht] at h
    cases after with
    | lookupFailed => exact Watched.Counted.step hs hw (mem_rows (by rw [ht]; rfl)) h
    | _ => trivial
  | release job _ _ maxAttempts =>
    rw [ht] at h
    refine h.imp_right (Or.imp_right (And.imp_right ?_))
    exact Watched.Counted.step hs hw (mem_rows (by rw [ht]; rfl))
  | _ => trivial

theorem counted_of_failed {pass : Pass} (hs : Sound s.state) (hw : s.state.workers.get k = some w)
    (ht : w.task = .read pass) (hfails : io.readFails ∧ pass.pages < max w.pagesPerLease 1)
    (hc : Spares s (.work k io)) : (s.step (.work k io)).Counted w.token pass.job := by
  intro hspent
  obtain ⟨hspent, hnot⟩ := spent_step hs hw (mem_rows (by rw [ht]; rfl)) hspent
  have hfailed : w.failsLookup io = some pass.job.id := by
    simp only [Worker.failsLookup, ht, if_pos hfails]
  have hnine : 9 ≤ s.failures pass.job.id := by
    simpa [Spares, hw, ht, hfailed, hspent] using hc
  have hlookup : failedLookup s.state (.work k io) = some pass.job.id := by
    rw [failedLookup, hw, Option.bind_some, hfailed]
  simp only [Watched.step, if_neg hnot, if_pos hlookup]
  omega

theorem justified_of_turns {task : Task} (hs : Sound s.state) (hw : s.state.workers.get k = some w)
    (hjustified : s.Justified w.token w.task) (hc : Spares s (.work k io))
    (h : Turns s.state.db w io task) : (s.step (.work k io)).Justified w.token task := by
  cases h with
  | @stopped pass ht after hafter =>
    cases after with
    | lookupFailed => exact counted_of_failed hs hw ht (hafter rfl) hc
    | _ => trivial
  | @checkpointed pass after ht =>
    rw [ht] at hjustified
    cases after with
    | nextPage => trivial
    | lookupFailed =>
      have hjob : pass.job ∈ w.rows := mem_rows (by rw [ht]; rfl)
      exact .inr (.inr ⟨rfl, Watched.Counted.step hs hw hjob hjustified⟩)
    | retryableStop | budget => exact .inr (.inl rfl)
  | @lost pass after ht =>
    rw [ht] at hjustified
    cases after with
    | lookupFailed =>
      have hjob : pass.job ∈ w.rows := mem_rows (by rw [ht]; rfl)
      exact .inr (.inr ⟨rfl, Watched.Counted.step hs hw hjob hjustified⟩)
    | _ => trivial
  | page | lastPage | nextPage | gaveUp | resolved | passed | ended => trivial

theorem failed_step (h : s.Fair) (hc : Spares s a) {j' : FanoutJob}
    (hj' : (step s.state a).db.jobs.get id = some j') (hscope : j'.scope ≠ .plan none)
    (hfailed : j'.status = .failed) : 10 ≤ (s.step a).failures id := by
  rcases row_of_step hj' with ⟨j, hj, hstep⟩ | ⟨scope, source, now, -, -, -, rfl⟩
  · cases hstep with
    | same =>
      refine (h.failed id j' hj hscope hfailed).trans (failures_le fun henqueued => ?_)
      have hactive := (enqueued_again h.sound hj henqueued hj').1
      simp [FanoutJob.active, hfailed] at hactive
    | enqueued _ _ hactive =>
      dsimp only at hfailed
      simp [FanoutJob.active, hfailed] at hactive
    | claimed => cases hfailed
    | @written k io w job _ hw hjob hid hheld hwrote =>
      cases hwrote with
      | advanced => rw [(held_iff hheld).1] at hfailed; cases hfailed
      | requeued | completed | retried => cases hfailed
      | @deadLettered _ _ _ maxAttempts ht hgen hspent =>
        rw [ht] at hjob
        cases hjob
        subst hid
        obtain ⟨i, hi, hiscope, -⟩ := h.sound.claims k w hw job (mem_rows (by rw [ht]; rfl))
        rw [hj] at hi
        cases hi
        have hjustified := h.task k w hw
        rw [ht] at hjustified
        have hat : ∀ n, n ≤ j.attempts → s.state.db.spent w.token job n := fun n hn =>
          spent_iff.mpr ⟨j, hj, (held_iff hheld).2.1, hgen, hn⟩
        refine le_trans ?_ (failures_le (by simp [enqueued]))
        rcases hjustified with ⟨-, hnone⟩ | rfl | ⟨rfl, hcounted⟩
        · exact absurd (hiscope.trans hnone) hscope
        · simpa [Spares, hw, ht, hat 1000000 (by omega)] using hc
        · exact hcounted (hat 10 (by omega))
  · cases hfailed

theorem fair_step (s : Watched) (a : Action) (h : s.Fair) (hc : Spares s a) : (s.step a).Fair where
  sound := sound_step s.state a h.sound
  task := by
    intro k w' hw'
    cases worker_of_step hw' with
    | same _ hw => exact (h.task k w' hw).step h.sound hw
    | claimed htask => rw [htask]; trivial
    | @worked io w hw hworks =>
      rw [hworks.token]
      generalize (workerStep s.state.db w io).1 = db' at hworks
      cases hworks with
      | malformed _ _ hscope => exact .inl ⟨rfl, hscope⟩
      | begun => trivial
      | turned _ ht => exact justified_of_turns h.sound hw (h.task k w hw) hc ht
  failed id j' hj' := failed_step h hc hj'

/-- A well-formed job is given up after ten claims that ended in a failed lookup. -/
theorem given_up_after_ten (as : List Action)
    (h : Meets Watched.step (fun s a => Spares s a) {} as) :
    ∀ id j, (run Watched.step {} as).state.db.jobs.get id = some j → j.scope ≠ .plan none →
      j.status = .failed → 10 ≤ (run Watched.step {} as).failures id := by
  have hfair : Watched.Fair {} := ⟨sound_nothing, by simp, by simp⟩
  exact (Lib.run_keeps fair_step hfair h).failed

/-- The job waits after `n` claims. -/
def waiting (n : ℕ) (now : Int) (counts : Counts) (lastErrorCode : Option String) : State where
  db := {
    jobs := .put .empty 0 {
      scope := .platform, source := "plan", attempts := n, counts, nextAttemptAt := now
      lastErrorCode, createdAt := 0 }
    nextId := 1
    nextToken := n
    workspaces := [1] }

def enqueueAll : List Action := [.setWorkspaces [1], .enqueue .platform "plan" 0]

def lease (now : Int) (readFails : Bool) (tasks : ℕ) : List Action :=
  .claim 0 "worker" 1 300 1 1 [] now .answered :: .replicate tasks (.work 0 { now, readFails })

def stopped (n : ℕ) : List Action := (List.range n).flatMap fun (i : ℕ) => lease (30 * i) false 6

def lookupsLost (n : ℕ) : List Action :=
  (List.range n).flatMap fun (i : ℕ) => lease (300 * i) true 5

section
variable (n : ℕ) (now : Int) (counts : Counts) (code : Option String) (f : Id → ℕ)

attribute [local simp] lease List.replicate Watched.step step claimEntitlementFanoutJobs candidates
  waiting FanoutJob.claimable FanoutJob.active Table.put Table.empty Table.get Table.mapKeyed
  ClaimRow.of FanoutJob.claimed workerStep Worker.lease Table.update FanoutJob.heldBy
  afterCheckpoint failEntitlementFanout FanoutJob.unclaimed Table.erase Option.filter
  Pass.hasProgress Pass.start enqueued failedLookup Worker.failsLookup

theorem run_enqueueAll : run Watched.step {} enqueueAll = ⟨waiting 0 0 {} none, fun _ => 0⟩ := by
  simp [enqueueAll, enqueueEntitlementFanout, Db.activeJob]

theorem run_stopped (hn : n + 1 < 1000000) :
    run Watched.step ⟨waiting n now counts code, f⟩ (lease now false 6) =
      ⟨waiting (n + 1) (now + 30) (counts.add { retryableFailures := 1 })
        (some "fanout_workspace_retryable"), f⟩ := by
  have hn : ¬1000000 ≤ n + 1 := by omega
  simp [readKeysetPage, Db.members, resolveFanoutEligibility, advanceEntitlementFanout, hn]

theorem run_lookupLost (hn : n + 1 < 10) :
    run Watched.step ⟨waiting n now counts code, f⟩ (lease now true 5) =
      ⟨waiting (n + 1) (now + 300) counts (some "fanout_lookup_failed"),
        fun id => if 0 = id then f id + 1 else f id⟩ := by
  have hn : ¬10 ≤ n + 1 := by omega
  simp [hn]

theorem run_lastLookup (hn : 10 ≤ n + 1) :
    ∃ j, (run Watched.step ⟨waiting n now counts code, f⟩ (lease now true 5)).state.db.jobs.get 0 =
        some j ∧ j.scope = .platform ∧ j.status = .failed ∧
      (run Watched.step ⟨waiting n now counts code, f⟩ (lease now true 5)).failures 0 =
        f 0 + 1 := by
  simp [hn]

theorem meets_lookupLost (hn : n ≤ f 0) :
    Meets Watched.step (fun s a => Spares s a) ⟨waiting n now counts code, f⟩
      (lease now true 5) := by
  have h : n < 9 ∨ 9 ≤ f 0 := by omega
  simp [Meets, Spares, Db.spent, h]

end

theorem run_stops (n : ℕ) (hn : n < 1000000) :
    ∃ counts code, run Watched.step ⟨waiting 0 0 {} none, fun _ => 0⟩ (stopped n) =
      ⟨waiting n (30 * n) counts code, fun _ => 0⟩ := by
  induction n with
  | zero => exact ⟨{}, none, rfl⟩
  | succ n ih =>
    obtain ⟨counts, code, ih⟩ := ih (by omega)
    refine ⟨counts.add { retryableFailures := 1 }, some "fanout_workspace_retryable", ?_⟩
    rw [stopped, List.range_succ, List.flatMap_append, List.flatMap_singleton, Lib.run_append]
    rw [stopped] at ih
    rw [ih, run_stopped n _ counts code _ hn, Nat.cast_succ, mul_add, mul_one]

theorem run_lookups (n : ℕ) (hn : n < 10) :
    ∃ code, Meets Watched.step (fun s a => Spares s a) ⟨waiting 0 0 {} none, fun _ => 0⟩
        (lookupsLost n) ∧ run Watched.step ⟨waiting 0 0 {} none, fun _ => 0⟩ (lookupsLost n) =
        ⟨waiting n (300 * n) {} code, fun id => if 0 = id then n else 0⟩ := by
  induction n with
  | zero => exact ⟨none, trivial, by simp [lookupsLost]⟩
  | succ n ih =>
    obtain ⟨code, hmeets, hrun⟩ := ih (by omega)
    refine ⟨some "fanout_lookup_failed", ?_⟩
    rw [lookupsLost, List.range_succ, List.flatMap_append, List.flatMap_singleton, Lib.run_append]
    rw [lookupsLost] at hmeets hrun
    rw [hrun, run_lookupLost n _ {} code _ hn]
    refine ⟨hmeets.append (hrun ▸ meets_lookupLost n _ {} code _ (by simp)), ?_⟩
    simp [mul_add]
    grind

/-- Nine leases are stopped by a workspace, and the tenth by a lookup that fails. -/
theorem given_up_after_one :
    ∃ j, (run Watched.step {} (enqueueAll ++ stopped 9 ++ lease 270 true 5)).state.db.jobs.get 0 =
        some j ∧ j.scope ≠ .plan none ∧ j.status = .failed ∧
      (run Watched.step {} (enqueueAll ++ stopped 9 ++ lease 270 true 5)).failures 0 = 1 := by
  obtain ⟨counts, code, hstops⟩ := run_stops 9 (by omega)
  rw [Lib.run_append, Lib.run_append, run_enqueueAll, hstops]
  obtain ⟨j, hj, hscope, hfailed, hone⟩ :=
    run_lastLookup 9 270 counts code (fun _ => 0) (Nat.le_refl 10)
  exact ⟨j, hj, by rw [hscope]; nofun, hfailed, hone⟩

theorem given_up_after_ten_lookups :
    ∃ j, (run Watched.step {}
        (enqueueAll ++ lookupsLost 9 ++ lease 2700 true 5)).state.db.jobs.get 0 = some j ∧ j.status = .failed ∧
      10 ≤ (run Watched.step {} (enqueueAll ++ lookupsLost 9 ++ lease 2700 true 5)).failures 0 := by
  obtain ⟨code, hmeets, hrun⟩ := run_lookups 9 (by omega)
  have hall : Meets Watched.step (fun s a => Spares s a) {}
      (enqueueAll ++ lookupsLost 9 ++ lease 2700 true 5) := by
    refine .append (.append ⟨rfl, rfl, trivial⟩ (run_enqueueAll ▸ hmeets)) ?_
    rw [Lib.run_append, run_enqueueAll, hrun]
    exact meets_lookupLost 9 2700 {} code _ (by simp)
  have hten := given_up_after_ten _ hall 0
  rw [Lib.run_append, Lib.run_append, run_enqueueAll, hrun] at hten ⊢
  obtain ⟨j, hj, hscope, hfailed, -⟩ := run_lastLookup 9 2700 {} code
    (fun id => if 0 = id then 9 else 0) (Nat.le_refl 10)
  exact ⟨j, hj, hfailed, hten j hj (by rw [hscope]; nofun) hfailed⟩

end Kindred.Entitlement
