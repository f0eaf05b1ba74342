import Kindred.Entitlement.Fanout

/-!
What a step of the fan-out does to a row and to a worker, and what holds in
every state: one job a scope, one worker a token.
-/

namespace Kindred.Entitlement
open Lib (Table)

def Task.job : Task → Option ClaimRow
  | .next => none
  | .read pass | .resolve pass _ _ | .catchup pass _ _ _ | .checkpoint pass _ | .complete pass =>
    some pass.job
  | .release job _ _ _ => some job

/-- The row `j` as the write of its holder leaves it. -/
inductive Wrote (task : Task) (now : Int) (j : FanoutJob) : FanoutJob → Prop
  | advanced {pass : Pass} {after : After} (ht : task = .checkpoint pass after) (counts : Counts)
    (expires : Int) :
    Wrote task now j { j with
      cursorWorkspaceId := pass.lastSuccessfulCursor
      cursorGeneration := if pass.lastSuccessfulCursor.isNone then none
        else some pass.job.generation
      counts := counts
      claimExpiresAt := some expires }
  | requeued (counts : Counts) (errorCode : Option String) :
    Wrote task now j { j.requeued now with counts := counts, lastErrorCode := errorCode }
  | completed {pass : Pass} (ht : task = .complete pass)
    (h : j.requestedGeneration ≤ pass.job.generation) (counts : Counts) :
    Wrote task now j { j.unclaimed with
      status := .completed
      completedGeneration := pass.job.generation
      cursorWorkspaceId := pass.lastSuccessfulCursor
      cursorGeneration := some pass.job.generation
      counts := counts
      completedAt := some now }
  | deadLettered {job : ClaimRow} {errorCode : String} {seconds : Int} {attempts : ℕ}
    (ht : task = .release job errorCode seconds attempts)
    (hgen : j.requestedGeneration ≤ job.generation) (hspent : max attempts 1 ≤ j.attempts)
    (next : Int) :
    Wrote task now j { j.unclaimed with
      status := .failed, lastErrorCode := some errorCode, nextAttemptAt := next }
  | retried {job : ClaimRow} (ht : task.job = some job) (errorCode : String) (next : Int) :
    Wrote task now j { j.unclaimed with
      status := .pending
      lastErrorCode := some errorCode
      nextAttemptAt := next
      cursorGeneration := if j.cursorWorkspaceId.isNone then none else some job.generation }

inductive Writes (w : Worker) (now : Int) (db : Db) : Db → Prop
  | nothing : Writes w now db db
  | row {job : ClaimRow} {j j' : FanoutJob} (hjob : w.task.job = some job)
    (hj : db.jobs.get job.id = some j) (hheld : j.heldBy (w.lease job) now)
    (h : Wrote w.task now j j') : Writes w now db { db with jobs := db.jobs.put job.id j' }

variable {id : Id} {j : FanoutJob} {w : Worker} {db : Db} {now : Int} {w' : Worker} {s : State}
  {a : Action} {j' : FanoutJob} {io : Io} {db' : Db} {r : ClaimRow}

theorem update_eq_put {t : Table Id FanoutJob} (h : t.get id = some j) (f : FanoutJob → FanoutJob) :
    t.update id f = t.put id (f j) := by
  simp [Table.update, h]

variable {pass : Pass} {lease : Lease} {skipped : List Id} {k : ℕ}

theorem advance_writes {after : After} (ht : w.task = .checkpoint pass after)
    (leaseSeconds now : Int) (db : Db) :
    Writes w now db (advanceEntitlementFanout pass.job.id (w.lease pass.job)
      pass.lastSuccessfulCursor pass.pending leaseSeconds now db).1 := by
  have hjob : w.task.job = some pass.job := by rw [ht]; rfl
  unfold advanceEntitlementFanout
  split
  · rename_i h
    cases hj : db.jobs.get pass.job.id with
    | none => simp [hj] at h
    | some j =>
      rw [hj, Option.any_some] at h
      rw [update_eq_put hj]
      exact .row hjob hj h (.advanced ht _ _)
  · exact .nothing

theorem held_of_filter (h : (db.jobs.get id).filter (·.heldBy lease now) = some j) :
    db.jobs.get id = some j ∧ j.heldBy lease now := by
  simpa [Option.filter_eq_some_iff] using h

theorem complete_writes (ht : w.task = .complete pass) (now : Int) (db : Db) :
    Writes w now db (completeEntitlementFanout pass.job.id (w.lease pass.job)
      pass.lastSuccessfulCursor pass.pending now db).1 := by
  have hjob : w.task.job = some pass.job := by rw [ht]; rfl
  unfold completeEntitlementFanout
  split
  · exact .nothing
  · rename_i j h
    obtain ⟨hj, hheld⟩ := held_of_filter h
    split
    · rw [update_eq_put hj]
      exact .row hjob hj hheld (.requeued _ j.lastErrorCode)
    · rename_i hle
      rw [update_eq_put hj]
      exact .row hjob hj hheld (.completed ht (not_lt.mp hle) _)

theorem fail_writes {job : ClaimRow} {code : String} {seconds : Int} {attempts : ℕ}
    (ht : w.task = .release job code seconds attempts) (now : Int) (db : Db) : Writes w now db
      (failEntitlementFanout job.id (w.lease job) code seconds attempts now db).1 := by
  have hjob : w.task.job = some job := by rw [ht]; rfl
  unfold failEntitlementFanout
  split
  · exact .nothing
  · rename_i j h
    obtain ⟨hj, hheld⟩ := held_of_filter h
    split
    · rw [update_eq_put hj]
      exact .row hjob hj hheld (.requeued j.counts _)
    · rename_i hgen
      split
      · rename_i hspent
        rw [update_eq_put hj]
        exact .row hjob hj hheld (.deadLettered ht (not_lt.mp hgen) hspent _)
      · rw [update_eq_put hj]
        exact .row hjob hj hheld (.retried hjob _ _)

/-- The step sees to the workspace `x`: its catch-up is queued, or nothing is due to it. -/
def Worker.seesTo (w : Worker) (io : Io) (x : Id) : Prop :=
  (∃ pass rest short reason, w.task = .resolve pass (x :: rest) short ∧
    resolveFanoutEligibility io.access = .ineligible reason) ∨
  ∃ pass rest short, w.task = .catchup pass x rest short ∧ io.catchupOk

inductive Turns (db : Db) (w : Worker) (io : Io) : Task → Prop
  | stopped {pass : Pass} (ht : w.task = .read pass) (after : After)
    (hafter : after = .lookupFailed → io.readFails ∧ pass.pages < max w.pagesPerLease 1) :
    Turns db w io (.checkpoint pass after)
  | page {pass : Pass} (ht : w.task = .read pass) {page : List Id} {short : Bool}
    (hpage : page = readKeysetPage db pass.job.scope pass.lastSuccessfulCursor (max w.pageSize 1))
    (hshort : short = decide (page.length < max w.pageSize 1)) :
    Turns db w io (.resolve { pass with pages := pass.pages + 1 } page short)
  | lastPage {pass : Pass} (ht : w.task = .resolve pass [] true) : Turns db w io (.complete pass)
  | nextPage {pass : Pass} (ht : w.task = .resolve pass [] false) :
    Turns db w io (.checkpoint pass .nextPage)
  | gaveUp {pass : Pass} {x : Id} {rest : List Id} {short : Bool}
    (ht : w.task = .resolve pass (x :: rest) short ∨ w.task = .catchup pass x rest short)
    (pending : Counts) :
    Turns db w io (.checkpoint { pass with pending := pending } .retryableStop)
  | resolved {pass : Pass} {x : Id} {rest : List Id} {short : Bool}
    (ht : w.task = .resolve pass (x :: rest) short) : Turns db w io (.catchup pass x rest short)
  | passed {pass : Pass} {x : Id} {rest : List Id} {short : Bool}
    (ht : w.task = .resolve pass (x :: rest) short ∨ w.task = .catchup pass x rest short)
    (hsees : w.seesTo io x) (pending : Counts) :
    Turns db w io
      (.resolve { pass with pending := pending, lastSuccessfulCursor := some x } rest short)
  | checkpointed {pass : Pass} {after : After} (ht : w.task = .checkpoint pass after)
    (pending : Counts) : Turns db w io (afterCheckpoint { pass with pending := pending } after)
  | lost {pass : Pass} {after : After} (ht : w.task = .checkpoint pass after) :
    Turns db w io (afterLostCheckpoint pass after)
  | ended {job : ClaimRow} (ht : w.task.job = some job) : Turns db w io .next

inductive Works (db : Db) (w : Worker) (io : Io) : Db → Option Worker → Prop
  | done (ht : w.task = .next) (hj : w.jobs = []) : Works db w io db none
  | malformed {job : ClaimRow} {jobs : List ClaimRow} (ht : w.task = .next)
    (hj : w.jobs = job :: jobs) (hscope : job.scope = .plan none) :
    Works db w io db (some { w with jobs, task := .release job "malformed_job" 3600 1 })
  | begun {job : ClaimRow} {jobs : List ClaimRow} (ht : w.task = .next) (hj : w.jobs = job :: jobs) :
    Works db w io db (some { w with jobs, task := .read (.start job) })
  | turned {db' : Db} {task : Task} (hdb : Writes w io.now db db') (ht : Turns db w io task) :
    Works db w io db' (some { w with task })

theorem workerStep_works (db : Db) (w : Worker) (io : Io) :
    Works db w io (workerStep db w io).1 (workerStep db w io).2 := by
  unfold workerStep
  cases ht : w.task with
  | next =>
    cases hj : w.jobs with
    | nil => exact .done ht hj
    | cons job jobs =>
      dsimp only
      split
      · rename_i hscope
        exact .malformed ht hj hscope
      · exact .begun ht hj
  | read pass =>
    dsimp only
    split
    · exact .turned .nothing (.stopped ht .budget (by simp))
    · rename_i hpages
      split
      · rename_i hfails
        exact .turned .nothing (.stopped ht .lookupFailed fun _ => ⟨hfails, not_le.mp hpages⟩)
      · exact .turned .nothing (.page ht rfl rfl)
  | resolve pass rest short =>
    cases rest with
    | nil =>
      cases short
      · exact .turned .nothing (.nextPage ht)
      · exact .turned .nothing (.lastPage ht)
    | cons x rest =>
      dsimp only
      split
      · exact .turned .nothing (.gaveUp (.inl ht) _)
      · rename_i reason hreason
        exact .turned .nothing (.passed (.inl ht) (.inl ⟨_, _, _, reason, ht, hreason⟩) _)
      · exact .turned .nothing (.resolved ht)
  | catchup pass x rest short =>
    dsimp only
    split
    · rename_i hok
      exact .turned .nothing (.passed (.inr ht) (.inr ⟨_, _, _, ht, hok⟩) _)
    · exact .turned .nothing (.gaveUp (.inr ht) _)
  | checkpoint pass after =>
    dsimp only
    split
    · by_cases hrefused : io.delivery = .refused
      · simp only [if_pos hrefused]
        exact .turned .nothing (.lost ht)
      · simp only [if_neg hrefused]
        have hdb := advance_writes ht w.leaseSeconds io.now db
        split
        · exact .turned hdb (.checkpointed ht _)
        · exact .turned hdb (.lost ht)
    · exact .turned .nothing (.checkpointed ht pass.pending)
  | complete pass =>
    have hjob : w.task.job = some pass.job := by rw [ht]; rfl
    dsimp only
    split
    · exact .turned .nothing (.ended hjob)
    · exact .turned (complete_writes ht io.now db) (.ended hjob)
  | release job errorCode retrySeconds maxAttempts =>
    have hjob : w.task.job = some job := by rw [ht]; rfl
    dsimp only
    split
    · exact .turned .nothing (.ended hjob)
    · exact .turned (fail_writes ht io.now db) (.ended hjob)

theorem Turns.job {task : Task} (h : Turns db w io task) {job : ClaimRow}
    (hjob : task.job = some job) : w.task.job = some job := by
  cases h with
  | stopped ht | page ht | lastPage ht | nextPage ht | resolved ht => rw [ht]; exact hjob
  | gaveUp ht | passed ht =>
    rcases ht with ht | ht <;> rw [ht] <;> exact hjob
  | checkpointed ht =>
    rename_i pass after pending
    rw [ht]
    cases after <;> exact hjob
  | lost ht =>
    rename_i pass after
    rw [ht]
    cases after <;> first | exact hjob | cases hjob
  | ended => cases hjob

def Worker.rows (w : Worker) : List ClaimRow := w.task.job.toList ++ w.jobs

theorem Works.rows (h : Works db w io db' (some w')) (hr : r ∈ w'.rows) : r ∈ w.rows := by
  cases h with
  | malformed ht hj | begun ht hj => simpa [Worker.rows, Task.job, Pass.start, ht, hj] using hr
  | turned hdb ht =>
    simp only [Worker.rows, List.mem_append, Option.mem_toList] at hr ⊢
    exact hr.imp_left ht.job

theorem Works.token (h : Works db w io db' (some w')) : w'.token = w.token := by
  cases h <;> rfl

theorem activeJob_some {scope : FanoutScope} (h : db.activeJob scope = some (id, j)) :
    db.jobs.get id = some j ∧ j.active ∧ j.scope = scope := by
  have hmem := List.mem_of_mem_head? h
  simpa [List.mem_mergeSort, Table.get_eq_some_iff_mem] using hmem

theorem activeJob_none {scope : FanoutScope} (h : db.activeJob scope = none)
    (hj : db.jobs.get id = some j) (hactive : j.active) : j.scope ≠ scope := by
  have hnil := List.head?_eq_none_iff.mp h
  have hlength := congrArg List.length hnil
  rw [List.length_mergeSort, List.length_nil, List.length_eq_zero_iff,
    List.filter_eq_nil_iff] at hlength
  simpa [hactive] using hlength _ (Table.get_eq_some_iff_mem.mp hj)

inductive RowStep (s : State) (id : Id) (j : FanoutJob) : Action → FanoutJob → Prop
  | same (a : Action) : RowStep s id j a j
  | enqueued (source : String) (now : Int) (hactive : j.active) :
    RowStep s id j (.enqueue j.scope source now) { j with
      requestedGeneration := j.requestedGeneration + 1
      nextAttemptAt := min j.nextAttemptAt now
      source }
  | claimed {k : ℕ} {workerId : String} {limit leaseSeconds : Int} {pageSize pages : ℕ}
    {skipped : List Id} {now : Int} {delivery : Delivery} (hc : j.claimable now) (lease : Int) :
    RowStep s id j (.claim k workerId limit leaseSeconds pageSize pages skipped now delivery)
      (j.claimed s.db.nextToken workerId lease now)
  | written {k : ℕ} {io : Io} {w : Worker} {job : ClaimRow} {j' : FanoutJob}
    (hw : s.workers.get k = some w) (hjob : w.task.job = some job) (hid : job.id = id)
    (hheld : j.heldBy (w.lease job) io.now) (h : Wrote w.task io.now j j') :
    RowStep s id j (.work k io) j'

def FanoutJob.fresh (scope : FanoutScope) (source : String) (now : Int) : FanoutJob :=
  { scope, source, nextAttemptAt := now, createdAt := now }

theorem claimable_of_candidate {limit : Int} (h : id ∈ candidates skipped limit now db) :
    ∃ j, db.jobs.get id = some j ∧ j.claimable now := by
  obtain ⟨⟨_, j⟩, hrow, rfl⟩ := List.mem_map.mp h
  have hmem := List.mem_of_mem_take hrow
  rw [List.mem_mergeSort, List.mem_filter] at hmem
  exact ⟨j, Table.get_eq_some_iff_mem.mpr hmem.1, by simpa using (Bool.and_eq_true .. ▸ hmem.2).1⟩

theorem get_claim (workerId : String) (skipped : List Id) (limit leaseSeconds now : Int) (db : Db)
    (id : Id) :
    (claimEntitlementFanoutJobs workerId skipped limit leaseSeconds now db).1.jobs.get id =
      (db.jobs.get id).map fun j => if id ∈ candidates skipped limit now db then
        j.claimed db.nextToken workerId leaseSeconds now else j := by
  simp [claimEntitlementFanoutJobs]

theorem row_of_step (h : (step s a).db.jobs.get id = some j') :
    (∃ j, s.db.jobs.get id = some j ∧ RowStep s id j a j') ∨
      ∃ scope source now, a = .enqueue scope source now ∧ id = s.db.nextId ∧
        s.db.activeJob scope = none ∧ j' = .fresh scope source now := by
  cases a with
  | enqueue scope source now =>
    simp only [step, enqueueEntitlementFanout] at h
    split at h
    · rename_i id₀ j₀ hfound
      obtain ⟨hj₀, hactive, hscope⟩ := activeJob_some hfound
      left
      by_cases hid : id = id₀
      · subst hid
        rw [Table.get_update_self, hj₀] at h
        cases h
        subst hscope
        exact ⟨j₀, hj₀, .enqueued source now hactive⟩
      · rw [Table.get_update_ne _ _ hid] at h
        exact ⟨j', h, .same _⟩
    · rename_i hactive
      by_cases hid : id = s.db.nextId
      · subst hid
        rw [Table.get_put_self] at h
        cases h
        exact .inr ⟨scope, source, now, rfl, rfl, hactive, rfl⟩
      · rw [Table.get_put_ne _ _ hid] at h
        exact .inl ⟨j', h, .same _⟩
  | claim k workerId limit leaseSeconds pageSize pages skipped now delivery =>
    left
    simp only [step] at h
    split at h
    · exact ⟨j', h, .same _⟩
    · have h : (claimEntitlementFanoutJobs workerId skipped (min (max limit 1) 5)
          (max leaseSeconds 30) now s.db).1.jobs.get id = some j' := by
        split at h <;> exact h
      rw [get_claim, Option.map_eq_some_iff] at h
      obtain ⟨j, hj, rfl⟩ := h
      refine ⟨j, hj, ?_⟩
      split
      · rename_i hmem
        obtain ⟨j₁, hj₁, hc⟩ := claimable_of_candidate hmem
        rw [hj] at hj₁
        cases hj₁
        exact .claimed hc _
      · exact .same _
  | work k io =>
    left
    simp only [step] at h
    split at h
    · exact ⟨j', h, .same _⟩
    · rename_i w hw
      have hworks := workerStep_works s.db w io
      generalize (workerStep s.db w io).2 = next at hworks
      have h : (workerStep s.db w io).1.jobs.get id = some j' := h
      generalize (workerStep s.db w io).1 = db' at h hworks
      cases hworks with
      | done | malformed | begun => exact ⟨j', h, .same _⟩
      | turned hdb ht =>
        cases hdb with
        | nothing => exact ⟨j', h, .same _⟩
        | row hjob hj hheld hwrote =>
          rename_i job j j₁
          by_cases hid : id = job.id
          · subst hid
            rw [Table.get_put_self] at h
            cases h
            exact ⟨j, hj, .written hw hjob rfl hheld hwrote⟩
          · rw [Table.get_put_ne _ _ hid] at h
            exact ⟨j', h, .same _⟩
  | die | setWorkspaces | setSubscriptions => exact .inl ⟨j', h, .same _⟩

/-- No row goes away. -/
theorem row_kept (hids : ∀ id j, s.db.jobs.get id = some j → id < s.db.nextId) (a : Action)
    (hj : s.db.jobs.get id = some j) :
    ∃ j', (step s a).db.jobs.get id = some j' ∧ RowStep s id j a j' := by
  have hlt := hids id j hj
  have hsome : ((step s a).db.jobs.get id).isSome := by
    cases a with
    | enqueue scope source now =>
      simp only [step, enqueueEntitlementFanout]
      split
      · rw [Table.get_update]
        split
        · rename_i hid
          simp [← hid, hj]
        · simp [hj]
      · rw [Table.get_put_ne _ _ hlt.ne, hj]
        rfl
    | claim =>
      simp only [step]
      split
      · simp [hj]
      · split <;> simp [get_claim, hj]
    | work k io =>
      simp only [step]
      split
      · simp [hj]
      · rename_i w hw
        have hworks := workerStep_works s.db w io
        generalize (workerStep s.db w io).2 = next at hworks
        show ((workerStep s.db w io).1.jobs.get id).isSome
        generalize (workerStep s.db w io).1 = db' at hworks
        cases hworks with
        | done | malformed | begun => simp [hj]
        | turned hdb ht =>
          cases hdb with
          | nothing => simp [hj]
          | row => simp [Table.get_put, hj]; split <;> simp
    | die | setWorkspaces | setSubscriptions => simp [step, hj]
  obtain ⟨j', hj'⟩ := Option.isSome_iff_exists.mp hsome
  rcases row_of_step hj' with ⟨j₁, hj₁, hstep⟩ | ⟨_, _, _, _, hid, _⟩
  · rw [hj] at hj₁
    cases hj₁
    exact ⟨j', hj', hstep⟩
  · exact absurd hid hlt.ne

inductive WorkerStep (s : State) (k : ℕ) (w' : Worker) : Action → Prop
  | same (a : Action) (hw : s.workers.get k = some w') : WorkerStep s k w' a
  | claimed {workerId : String} {limit leaseSeconds : Int} {pageSize pages : ℕ} {skipped : List Id}
    {now : Int} {delivery : Delivery} (htask : w'.task = .next)
    (htoken : w'.token = s.db.nextToken)
    (hclaim : ∃ n lease,
      ((step s (.claim k workerId limit leaseSeconds pageSize pages skipped now delivery)).db,
        w'.jobs) = claimEntitlementFanoutJobs workerId skipped n lease now s.db) :
    WorkerStep s k w' (.claim k workerId limit leaseSeconds pageSize pages skipped now delivery)
  | worked {io : Io} {w : Worker} (hw : s.workers.get k = some w)
    (h : Works s.db w io (workerStep s.db w io).1 (some w')) : WorkerStep s k w' (.work k io)

theorem claim_rows {workerId : String} {limit leaseSeconds : Int}
    (h : r ∈ (claimEntitlementFanoutJobs workerId skipped limit leaseSeconds now db).2) :
    ∃ j, db.jobs.get r.id = some j ∧ j.claimable now ∧
      (claimEntitlementFanoutJobs workerId skipped limit leaseSeconds now db).1.jobs.get r.id =
        some (j.claimed db.nextToken workerId leaseSeconds now) ∧
      r = .of r.id (j.claimed db.nextToken workerId leaseSeconds now) := by
  obtain ⟨id, hid, hr⟩ := List.mem_filterMap.mp h
  obtain ⟨j, hj, hc⟩ := claimable_of_candidate hid
  rw [Table.get_mapKeyed, hj, Option.map_some, Option.map_some, if_pos hid] at hr
  cases hr
  refine ⟨j, hj, hc, ?_, rfl⟩
  rw [get_claim]
  simp [ClaimRow.of, hj, hid]

theorem worker_of_step (h : (step s a).workers.get k = some w') : WorkerStep s k w' a := by
  cases a with
  | enqueue | setWorkspaces | setSubscriptions => exact .same _ h
  | claim k₀ workerId limit leaseSeconds pageSize pages skipped now delivery =>
    simp only [step] at h
    split at h
    · exact .same _ h
    · rename_i hfree
      split at h
      · exact .same _ h
      · rename_i hlost
        by_cases hk : k = k₀
        · subst hk
          rw [Table.get_put_self] at h
          cases h
          refine .claimed rfl rfl ⟨min (max limit 1) 5, max leaseSeconds 30, ?_⟩
          simp only [step, if_neg hfree, if_neg hlost]
        · rw [Table.get_put_ne _ _ hk] at h
          exact .same _ h
  | work k₀ io =>
    simp only [step] at h
    split at h
    · exact .same _ h
    · rename_i w hw
      have hworks := workerStep_works s.db w io
      by_cases hk : k = k₀
      · subst hk
        cases hnext : (workerStep s.db w io).2 with
        | none =>
          simp [hnext, Table.get_erase] at h
        | some w₁ =>
          simp only [hnext, Table.get_put_self] at h
          cases h
          exact .worked hw (hnext ▸ hworks)
      · split at h
        · rw [Table.get_erase, if_neg hk] at h
          exact .same _ h
        · rw [Table.get_put_ne _ _ hk] at h
          exact .same _ h
  | die k₀ =>
    rw [step, Table.get_erase] at h
    split at h
    · cases h
    · exact .same _ h

structure FanoutJob.Sound (j : FanoutJob) : Prop where
  processing : ∀ g, j.processingGeneration = some g → g ≤ j.requestedGeneration
  cursor : ∀ g, j.cursorGeneration = some g → g ≤ j.requestedGeneration
  running : j.status = .running → j.cursorWorkspaceId.isSome →
    j.cursorGeneration = j.processingGeneration

structure Sound (s : State) : Prop where
  ids : ∀ id j, s.db.jobs.get id = some j → id < s.db.nextId
  single : ∀ id id' j j', s.db.jobs.get id = some j → s.db.jobs.get id' = some j' →
    j.active → j'.active → j.scope = j'.scope → id = id'
  job : ∀ id j, s.db.jobs.get id = some j → j.Sound
  claims : ∀ k w, s.workers.get k = some w → ∀ r ∈ w.rows, ∃ j, s.db.jobs.get r.id = some j ∧
    j.scope = r.scope ∧ r.generation ≤ j.requestedGeneration
  token : ∀ k w, s.workers.get k = some w → w.token < s.db.nextToken
  holder : ∀ k k' w w', s.workers.get k = some w → s.workers.get k' = some w' →
    w.token = w'.token → k = k'

theorem sound_nothing : Sound {} := by
  constructor <;> simp

theorem held_iff (h : j.heldBy lease now) :
    j.status = .running ∧ j.claimToken = some lease.token ∧ j.workerId = some lease.workerId ∧
      j.processingGeneration = some lease.generation ∧ j.claimExpiresAt.any (now < ·) := by
  simpa [FanoutJob.heldBy] using h

theorem RowStep.scope (h : RowStep s id j a j') : j'.scope = j.scope := by
  cases h with
  | same | enqueued | claimed => rfl
  | written _ _ _ _ hwrote => cases hwrote <;> rfl

theorem RowStep.active (h : RowStep s id j a j') (hactive : j'.active) : j.active := by
  cases h with
  | same => exact hactive
  | enqueued _ _ hj => exact hj
  | claimed hc =>
    simp only [FanoutJob.claimable, Bool.and_eq_true] at hc
    exact hc.1.1
  | written _ _ _ hheld =>
    simp [FanoutJob.active, (held_iff hheld).1]

theorem RowStep.requested (h : RowStep s id j a j') :
    j.requestedGeneration ≤ j'.requestedGeneration := by
  cases h with
  | same | claimed => exact le_rfl
  | enqueued => exact Nat.le_succ _
  | written _ _ _ _ hwrote => cases hwrote <;> exact le_rfl

theorem RowStep.sound (h : RowStep s id j a j') (hs : j.Sound) : j'.Sound := by
  obtain ⟨hp, hc, hr⟩ := hs
  cases h with
  | same => exact ⟨hp, hc, hr⟩
  | enqueued => exact ⟨fun g hg => (hp g hg).trans (Nat.le_succ _),
      fun g hg => (hc g hg).trans (Nat.le_succ _), hr⟩
  | claimed hclaimable lease =>
    refine ⟨?_, ?_, ?_⟩
    · simp [FanoutJob.claimed]
    · intro g hg
      simp only [FanoutJob.claimed] at hg ⊢
      split at hg
      · exact hc g hg
      · cases hg
    · intro _ hsome
      by_cases hkept : j.cursorGeneration = some j.requestedGeneration
      · simp [FanoutJob.claimed, hkept]
      · simp [FanoutJob.claimed, hkept] at hsome
  | @written _ _ w job _ _ hjob _ hheld hwrote =>
    obtain ⟨hstatus, -, -, hgen, -⟩ := held_iff hheld
    have hle : job.generation ≤ j.requestedGeneration := hp _ hgen
    cases hwrote with
    | @advanced pass after ht =>
      rw [ht] at hjob
      cases hjob
      refine ⟨hp, ?_, ?_⟩
      · intro g hg
        split at hg
        · cases hg
        · cases hg
          exact hle
      · intro _ hsome
        have hnone : pass.lastSuccessfulCursor.isNone = false := by
          simpa [Option.isSome_iff_ne_none] using hsome
        simp [hnone, hgen, Worker.lease]
    | requeued => exact ⟨by simp [FanoutJob.requeued, FanoutJob.unclaimed],
        by simp [FanoutJob.requeued], by simp [FanoutJob.requeued]⟩
    | @completed pass ht =>
      rw [ht] at hjob
      cases hjob
      exact ⟨by simp [FanoutJob.unclaimed], by simpa [FanoutJob.unclaimed] using hle, by simp⟩
    | deadLettered =>
      exact ⟨by simp [FanoutJob.unclaimed], hc, by simp⟩
    | @retried job' ht =>
      rw [ht] at hjob
      cases hjob
      refine ⟨by simp [FanoutJob.unclaimed], ?_, by simp⟩
      intro g hg
      split at hg
      · cases hg
      · cases hg
        exact hle

theorem Writes.counters (h : Writes w now db db') :
    db'.nextId = db.nextId ∧ db'.nextToken = db.nextToken := by
  cases h <;> exact ⟨rfl, rfl⟩

theorem Works.counters {next : Option Worker} (h : Works db w io db' next) :
    db'.nextId = db.nextId ∧ db'.nextToken = db.nextToken := by
  cases h with
  | done | malformed | begun => exact ⟨rfl, rfl⟩
  | turned hdb => exact hdb.counters

theorem counters_step (s : State) (a : Action) :
    s.db.nextId ≤ (step s a).db.nextId ∧ s.db.nextToken ≤ (step s a).db.nextToken := by
  cases a with
  | enqueue =>
    simp only [step, enqueueEntitlementFanout]
    split <;> simp
  | claim =>
    simp only [step]
    split
    · simp
    · split <;> simp [claimEntitlementFanoutJobs]
  | work k io =>
    simp only [step]
    split
    · simp
    · rename_i w _
      have h := (workerStep_works s.db w io).counters
      exact ⟨h.1.ge, h.2.ge⟩
  | die | setWorkspaces | setSubscriptions => simp [step]

theorem WorkerStep.token (h : WorkerStep s k w' a) :
    (∃ w, s.workers.get k = some w ∧ w.token = w'.token) ∨
      w'.token = s.db.nextToken ∧ s.db.nextToken < (step s a).db.nextToken ∧
        ∃ workerId limit leaseSeconds pageSize pages skipped now delivery,
          a = .claim k workerId limit leaseSeconds pageSize pages skipped now delivery := by
  cases h with
  | same _ hw => exact .inl ⟨w', hw, rfl⟩
  | claimed _ htoken hclaim =>
    obtain ⟨_, _, hclaim⟩ := hclaim
    refine .inr ⟨htoken, ?_, _, _, _, _, _, _, _, _, rfl⟩
    have hdb := congrArg Prod.fst hclaim
    dsimp only at hdb
    rw [hdb]
    exact Nat.lt_succ_self _
  | worked hw hworks => exact .inl ⟨_, hw, hworks.token.symm⟩

theorem WorkerStep.claims (h : WorkerStep s k w' a) (hs : Sound s) (hr : r ∈ w'.rows) :
    ∃ j, (step s a).db.jobs.get r.id = some j ∧ j.scope = r.scope ∧
      r.generation ≤ j.requestedGeneration := by
  have hkept : (∃ w, s.workers.get k = some w ∧ r ∈ w.rows) →
      ∃ j, (step s a).db.jobs.get r.id = some j ∧ j.scope = r.scope ∧
        r.generation ≤ j.requestedGeneration := by
    rintro ⟨w, hw, hr⟩
    obtain ⟨j, hj, hscope, hle⟩ := hs.claims k w hw r hr
    obtain ⟨j', hj', hstep⟩ := row_kept hs.ids a hj
    exact ⟨j', hj', hstep.scope.trans hscope, hle.trans hstep.requested⟩
  cases h with
  | same _ hw => exact hkept ⟨w', hw, hr⟩
  | claimed htask _ hclaim =>
    obtain ⟨_, _, hclaim⟩ := hclaim
    have hdb := congrArg Prod.fst hclaim
    have hr : r ∈ w'.jobs := by simpa [Worker.rows, Task.job, htask] using hr
    rw [show w'.jobs = _ by exact congrArg Prod.snd hclaim] at hr
    obtain ⟨j, -, -, hj, hof⟩ := claim_rows hr
    refine ⟨_, hdb ▸ hj, ?_⟩
    rw [hof]
    exact ⟨rfl, le_rfl⟩
  | worked hw hworks => exact hkept ⟨_, hw, hworks.rows hr⟩

theorem sound_step (s : State) (a : Action) (hs : Sound s) : Sound (step s a) where
  ids := by
    intro id j' hj'
    rcases row_of_step hj' with ⟨j, hj, -⟩ | ⟨scope, source, now, rfl, rfl, hnone, -⟩
    · exact (hs.ids id j hj).trans_le (counters_step s a).1
    · simp only [step, enqueueEntitlementFanout, hnone]
      exact Nat.lt_succ_self _
  single := by
    intro id id' j j' hj hj' hactive hactive' hscope
    rcases row_of_step hj with ⟨i, hi, hstep⟩ | ⟨scope, source, now, rfl, rfl, hnone, rfl⟩ <;>
      rcases row_of_step hj' with ⟨i', hi', hstep'⟩ | ⟨scope', source', now', ha, rfl, hnone', rfl⟩
    · exact hs.single id id' i i' hi hi' (hstep.active hactive) (hstep'.active hactive')
        (hstep.scope.symm.trans (hscope.trans hstep'.scope))
    · exact absurd (hstep.scope.symm.trans hscope)
        (activeJob_none hnone' hi (hstep.active hactive))
    · exact absurd (hstep'.scope.symm.trans hscope.symm)
        (activeJob_none hnone hi' (hstep'.active hactive'))
    · rfl
  job := by
    intro id j' hj'
    rcases row_of_step hj' with ⟨j, hj, hstep⟩ | ⟨scope, source, now, rfl, rfl, -, rfl⟩
    · exact hstep.sound (hs.job id j hj)
    · constructor <;> simp [FanoutJob.fresh]
  claims k w' hw' r hr := (worker_of_step hw').claims hs hr
  token := by
    intro k w' hw'
    rcases (worker_of_step hw').token with ⟨w, hw, htoken⟩ | ⟨htoken, hlt, -⟩
    · have := hs.token k w hw
      have := (counters_step s a).2
      omega
    · omega
  holder := by
    intro k k' w w' hw hw' heq
    rcases (worker_of_step hw).token with ⟨v, hv, hvw⟩ | ⟨hnew, -, hclaim⟩ <;>
      rcases (worker_of_step hw').token with ⟨v', hv', hvw'⟩ | ⟨hnew', -, hclaim'⟩
    · exact hs.holder k k' v v' hv hv' (hvw.trans (heq.trans hvw'.symm))
    · have := hs.token k v hv
      omega
    · have := hs.token k' v' hv'
      omega
    · obtain ⟨_, _, _, _, _, _, _, _, rfl⟩ := hclaim
      obtain ⟨_, _, _, _, _, _, _, _, ha⟩ := hclaim'
      cases ha
      rfl

theorem sound_reached (as : List Action) : Sound (reached as) :=
  Lib.run_invariant sound_step sound_nothing as

end Kindred.Entitlement
