import Kindred.Lib.Table
import Kindred.Lib.Transaction
import Mathlib.Data.Rat.Floor

/-! The background jobs: workers that poll one table, claim a row and work on it until they
finish or their lease runs out. Every statement is a transaction of its own. -/

namespace Kindred.Jobs
open Lib (Table run run_append Meets run_invariant)

inductive JobStatus where
  | queued | running | processing | completed | failed | cancelled
  deriving DecidableEq

namespace JobStatus

def taken (s : JobStatus) : Bool := s == .running || s == .processing

def final (s : JobStatus) : Bool := s == .completed || s == .failed || s == .cancelled

end JobStatus

/-- A row of `background_jobs`; times are in milliseconds. -/
structure BackgroundJob where
  jobType : String
  status : JobStatus := .queued
  priority : Int := 100
  lockedBy : Option String := none
  lockedAt : Option Int := none
  lockExpiresAt : Option Int := none
  attempts : ℕ := 0
  maxAttempts : ℕ := 2
  progress : Int := 0
  progressStage : Option String := none
  cancelRequested : Bool := false
  errorMessage : Option String := none
  errorCategory : Option String := none
  startedAt : Option Int := none
  finishedAt : Option Int := none
  createdAt : Int

namespace BackgroundJob

/-- `lt` on a NULL expiry finds no row. -/
def eligible (jobTypes : List String) (now : Int) (j : BackgroundJob) : Bool :=
  jobTypes.contains j.jobType && (j.status == .queued ||
    j.status.taken && j.lockExpiresAt.any fun expires => expires < now)

def before (j k : BackgroundJob) : Bool :=
  j.priority < k.priority || j.priority == k.priority && j.createdAt < k.createdAt

end BackgroundJob

/-- What `claimNextJob` read of the row that it will try to claim. -/
structure Candidate where
  id : String
  status : JobStatus
  attempts : ℕ
  maxAttempts : ℕ

structure Claim where
  job : String
  attempts : ℕ
  workerId : String
  deriving DecidableEq

/-- `claim`: the one whose job failed. -/
structure Failure where
  claim : Claim
  errorMessage : String
  errorCategory : String
  retryable : Bool

/-- A call that has read and has yet to write. -/
inductive Call where
  | claiming (workerId : String) (lockTtlSeconds : Int) (now : Int) (cand : Candidate)
  | failing (f : Failure) (attempts maxAttempts : ℕ)

/-- `calls` and `claims` grow at their end; a call that has written is `none`. -/
structure Queue where
  jobs : Table String BackgroundJob := .empty
  calls : List (Option Call) := []
  claims : List Claim := []

namespace Queue

def enqueueJob (id jobType : String) (priority : Option Int) (maxAttempts : Option ℕ) (now : Int)
    (q : Queue) : Queue :=
  if (q.jobs.get id).isSome then q
  else { q with jobs := q.jobs.put id {
    jobType, priority := priority.getD 100, maxAttempts := maxAttempts.getD 2, createdAt := now } }

/-- The read of `claimNextJob`: of rows of one priority and time any may come first. -/
def findCandidate (jobTypes : List String) (workerId : String) (lockTtlSeconds now : Int)
    (id : String) (q : Queue) : Queue :=
  match q.jobs.get id with
  | none => q
  | some j =>
    if j.eligible jobTypes now ∧
        (q.jobs.rows.all fun r => !(r.2.eligible jobTypes now && r.2.before j)) then
      { q with calls := q.calls ++ [some (.claiming workerId lockTtlSeconds now
          { id, status := j.status, attempts := j.attempts, maxAttempts := j.maxAttempts })] }
    else q

def exhaust (now : Int) (j : BackgroundJob) : BackgroundJob :=
  if j.status == .queued || j.status.taken then
    { j with status := .failed, finishedAt := some now, errorCategory := some "limit_exceeded",
             errorMessage := some "max_attempts_exceeded" }
  else j

def claimed (workerId : String) (nowRead lockExpires : Int) (attempts : ℕ) (j : BackgroundJob) :
    BackgroundJob :=
  { j with
    status := .running
    lockedBy := some workerId
    lockedAt := some nowRead
    lockExpiresAt := some lockExpires
    attempts := attempts + 1
    startedAt := some nowRead
    progress := 0
    progressStage := none
    errorMessage := none
    errorCategory := none }

/-- The write of `claimNextJob`. -/
def claim (workerId : String) (lockTtlSeconds nowRead now : Int) (cand : Candidate) (q : Queue) :
    Queue :=
  if cand.attempts ≥ cand.maxAttempts then
    { q with jobs := q.jobs.update cand.id (exhaust nowRead) }
  else if (q.jobs.get cand.id).any fun j =>
      j.status == cand.status && j.attempts == cand.attempts then
    { q with
      jobs := q.jobs.update cand.id
        (claimed workerId nowRead (now + lockTtlSeconds * 1000) cand.attempts)
      claims := q.claims ++ [⟨cand.id, cand.attempts + 1, workerId⟩] }
  else q

structure Beat where
  lockTtlSeconds : Int
  progress : Option ℚ := none
  progressStage : Option String := none
  status : Option { s : JobStatus // s.taken } := none

def beaten (workerId : String) (b : Beat) (now : Int) (j : BackgroundJob) : BackgroundJob :=
  if j.lockedBy = some workerId then
    { j with
      lockExpiresAt := some (now + b.lockTtlSeconds * 1000)
      progress := (b.progress.map fun p => max 0 (min 100 ⌊p + 1 / 2⌋)).getD j.progress
      progressStage := (b.progressStage.filter fun stage => stage ≠ "").or j.progressStage
      status := (b.status.map Subtype.val).getD j.status }
  else j

def completed (now : Int) (j : BackgroundJob) : BackgroundJob :=
  if j.status.taken then
    { j with status := .completed, progress := 100, finishedAt := some now, errorMessage := none,
             errorCategory := none }
  else j

def nonRetryable : List String :=
  ["invalid_target", "blocked_target", "cancelled", "limit_exceeded"]

/-- The read of `failJob`. -/
def readFailing (f : Failure) (q : Queue) : Queue :=
  match q.jobs.get f.claim.job with
  | none => q
  | some j =>
    if j.status.final then q
    else { q with calls := q.calls ++ [some (.failing f j.attempts j.maxAttempts)] }

/-- The write of `failJob`. -/
def failed (f : Failure) (attempts maxAttempts : ℕ) (now : Int) (j : BackgroundJob) :
    BackgroundJob :=
  if j.status.taken || j.status == .queued then
    let retryable := f.retryable && !nonRetryable.contains f.errorCategory && attempts < maxAttempts
    let message := if f.errorMessage = "" then "unknown_error" else f.errorMessage
    { j with
      status := if retryable then .queued else .failed
      errorMessage := some (String.ofList (message.toList.take 1000))
      errorCategory := some f.errorCategory
      finishedAt := if retryable then none else some now
      lockedBy := none
      lockedAt := none
      lockExpiresAt := none }
  else j

def cancelRequest (j : BackgroundJob) : BackgroundJob :=
  if j.status == .queued || j.status.taken then { j with cancelRequested := true } else j

def cancelledRunning (now : Int) (j : BackgroundJob) : BackgroundJob :=
  if j.status.taken then { j with status := .cancelled, finishedAt := some now } else j

def cancelledQueued (now : Int) (j : BackgroundJob) : BackgroundJob :=
  if j.status == .queued then { j with status := .cancelled, finishedAt := some now } else j

end Queue

/-- What the workers and the callers of the queue do. A worker calls for the job that it claimed. -/
inductive Action where
  | enqueueJob (id jobType : String) (priority : Option Int) (maxAttempts : Option ℕ) (now : Int)
  | findCandidate (jobTypes : List String) (workerId : String) (lockTtlSeconds now : Int)
      (id : String)
  | write (call : ℕ) (now : Int)
  | heartbeatJob (c : Claim) (b : Queue.Beat) (now : Int)
  | completeJob (c : Claim) (now : Int)
  | readFailing (f : Failure)
  | requestJobCancel (id : String)
  | acknowledgeJobCancel (c : Claim) (now : Int)
  | cancelQueuedJob (id : String) (now : Int)

variable {j : BackgroundJob} {c : Claim} {q' : Queue} {a : Action}

namespace Queue

def write (call : ℕ) (now : Int) (q : Queue) : Queue :=
  match q.calls[call]? with
  | some (some (.claiming workerId ttl nowRead cand)) =>
    { q with calls := q.calls.set call none }.claim workerId ttl nowRead now cand
  | some (some (.failing f attempts maxAttempts)) =>
    { q with
      calls := q.calls.set call none
      jobs := q.jobs.update f.claim.job (failed f attempts maxAttempts now) }
  | _ => q

def step (q : Queue) : Action → Queue
  | .enqueueJob id jobType priority maxAttempts now =>
    q.enqueueJob id jobType priority maxAttempts now
  | .findCandidate jobTypes workerId ttl now id => q.findCandidate jobTypes workerId ttl now id
  | .write call now => q.write call now
  | .heartbeatJob c b now => { q with jobs := q.jobs.update c.job (beaten c.workerId b now) }
  | .completeJob c now => { q with jobs := q.jobs.update c.job (completed now) }
  | .readFailing f => q.readFailing f
  | .requestJobCancel id => { q with jobs := q.jobs.update id cancelRequest }
  | .acknowledgeJobCancel c now => { q with jobs := q.jobs.update c.job (cancelledRunning now) }
  | .cancelQueuedJob id now => { q with jobs := q.jobs.update id (cancelledQueued now) }

def Steady (f : BackgroundJob → BackgroundJob) : Prop :=
  ∀ j, (f j).attempts = j.attempts ∧ (f j).maxAttempts = j.maxAttempts

theorem steady_exhaust (now : Int) : Steady (exhaust now) := by
  intro j
  unfold exhaust
  split <;> exact ⟨rfl, rfl⟩

theorem steady_beaten (workerId : String) (b : Beat) (now : Int) :
    Steady (beaten workerId b now) := by
  intro j
  unfold beaten
  split <;> exact ⟨rfl, rfl⟩

theorem steady_completed (now : Int) : Steady (completed now) := by
  intro j
  unfold completed
  split <;> exact ⟨rfl, rfl⟩

theorem steady_failed (f : Failure) (attempts maxAttempts : ℕ) (now : Int) :
    Steady (failed f attempts maxAttempts now) := by
  intro j
  unfold failed
  split <;> exact ⟨rfl, rfl⟩

theorem steady_cancelRequest : Steady cancelRequest := by
  intro j
  unfold cancelRequest
  split <;> exact ⟨rfl, rfl⟩

theorem steady_cancelledRunning (now : Int) : Steady (cancelledRunning now) := by
  intro j
  unfold cancelledRunning
  split <;> exact ⟨rfl, rfl⟩

theorem steady_cancelledQueued (now : Int) : Steady (cancelledQueued now) := by
  intro j
  unfold cancelledQueued
  split <;> exact ⟨rfl, rfl⟩

/-- No claim is made: every row keeps its count, and a new one has none. -/
structure Quiet (q q' : Queue) : Prop where
  claims : q'.claims = q.claims
  kept : ∀ id j, q.jobs.get id = some j →
    ∃ j', q'.jobs.get id = some j' ∧ j'.attempts = j.attempts ∧ j'.maxAttempts = j.maxAttempts
  fresh : ∀ id j', q'.jobs.get id = some j' → q.jobs.get id = none → j'.attempts = 0
  calls : ∀ w ttl now cand, some (.claiming w ttl now cand) ∈ q'.calls →
    some (.claiming w ttl now cand) ∈ q.calls ∨ cand.status.final = false ∧
      ∃ j, q.jobs.get cand.id = some j ∧ j.maxAttempts = cand.maxAttempts

structure Claims (q q' : Queue) (c : Claim) : Prop where
  claims : q'.claims = q.claims ++ [c]
  row : ∃ w ttl now cand j, some (.claiming w ttl now cand) ∈ q.calls ∧
    q.jobs.get c.job = some j ∧ cand.id = c.job ∧ c.attempts = j.attempts + 1 ∧
    j.attempts < cand.maxAttempts ∧
    ∃ j', q'.jobs.get c.job = some j' ∧ j'.attempts = c.attempts ∧ j'.maxAttempts = j.maxAttempts
  others : ∀ id, id ≠ c.job → q'.jobs.get id = q.jobs.get id
  calls : ∀ c, some c ∈ q'.calls → some c ∈ q.calls

theorem quiet_refl (q : Queue) : Quiet q q :=
  ⟨rfl, fun _ j h => ⟨j, h, rfl, rfl⟩, fun _ _ h hn => by simp [hn] at h, fun _ _ _ _ => .inl⟩

variable {q q' : Queue}

theorem quiet_update {id : String} {f : BackgroundJob → BackgroundJob} (hf : Steady f)
    (hjobs : q'.jobs = q.jobs.update id f) (hclaims : q'.claims = q.claims)
    (hcalls : ∀ c, some c ∈ q'.calls → some c ∈ q.calls) : Quiet q q' := by
  refine ⟨hclaims, fun k j h => ?_, fun k j' h hn => ?_, fun _ _ _ _ h => .inl (hcalls _ h)⟩
  · rw [hjobs, Table.get_update]
    by_cases hk : k = id
    · subst hk
      exact ⟨f j, by simp [h], hf j⟩
    · exact ⟨j, by simp [hk, h], rfl, rfl⟩
  · rw [hjobs, Table.get_update] at h
    by_cases hk : k = id
    · subst hk
      simp [hn] at h
    · simp [hk, hn] at h

theorem mem_of_mem_set_none {calls : List (Option Call)} {i : ℕ} {c : Call}
    (h : some c ∈ calls.set i none) : some c ∈ calls := by
  rcases List.mem_or_eq_of_mem_set h with h | h
  · exact h
  · cases h

theorem not_final_of_eligible {jobTypes : List String} {now : Int}
    (h : j.eligible jobTypes now = true) : j.status.final = false := by
  revert h
  unfold BackgroundJob.eligible JobStatus.taken JobStatus.final
  cases j.status <;> simp

theorem step_cases (q : Queue) (a : Action) : Quiet q (q.step a) ∨ ∃ c, Claims q (q.step a) c := by
  cases a with
  | enqueueJob id jobType priority maxAttempts now =>
    left
    simp only [step, enqueueJob]
    split
    · exact quiet_refl q
    · rename_i hid
      rw [Option.not_isSome_iff_eq_none] at hid
      refine ⟨rfl, fun k j h => ?_, fun k j' h hn => ?_, fun _ _ _ _ h => .inl h⟩
      · have hk : k ≠ id := fun e => by simp [e, hid] at h
        exact ⟨j, by simpa [Table.get_put_ne _ _ hk] using h, rfl, rfl⟩
      · dsimp only at h
        rw [Table.get_put] at h
        split at h
        · cases h
          rfl
        · simp [hn] at h
  | findCandidate jobTypes workerId ttl now id =>
    left
    simp only [step, findCandidate]
    cases hj : q.jobs.get id with
    | none => exact quiet_refl q
    | some j =>
      dsimp only
      split
      · rename_i hcand
        refine ⟨rfl, fun _ j h => ⟨j, h, rfl, rfl⟩, fun _ _ h hn => by simp [hn] at h, ?_⟩
        intro w ttl' now' cand h
        rcases List.mem_append.mp h with h | h
        · exact .inl h
        · simp only [List.mem_singleton, Option.some.injEq, Call.claiming.injEq] at h
          obtain ⟨-, -, -, rfl⟩ := h
          exact .inr ⟨not_final_of_eligible hcand.1, j, hj, rfl⟩
      · exact quiet_refl q
  | write call now =>
    simp only [step, write]
    split
    · rename_i workerId ttl nowRead cand hcall
      have hmem : some (.claiming workerId ttl nowRead cand) ∈ q.calls :=
        List.mem_of_getElem? hcall
      unfold claim
      split
      · exact .inl (quiet_update (steady_exhaust nowRead) rfl rfl fun _ => mem_of_mem_set_none)
      · rename_i hlt
        split
        · rename_i hcas
          obtain ⟨j, hj, hcas⟩ := (Option.any_eq_true _ _).mp hcas
          simp only [Bool.and_eq_true, beq_iff_eq] at hcas
          refine .inr ⟨_, rfl, ⟨workerId, ttl, nowRead, cand, j, hmem, hj, rfl, ?_, ?_, ?_⟩, ?_,
            fun _ => mem_of_mem_set_none⟩
          · rw [hcas.2]
          · omega
          · exact ⟨claimed workerId nowRead (now + ttl * 1000) cand.attempts j,
              (Table.get_update_self _ _ _).trans (by rw [hj]; rfl), rfl, rfl⟩
          · exact fun id hid => Table.get_update_ne _ _ hid
        · exact .inl ⟨rfl, fun _ j h => ⟨j, h, rfl, rfl⟩, fun _ _ h hn => by simp [hn] at h,
            fun _ _ _ _ h => .inl (mem_of_mem_set_none h)⟩
    · rename_i f attempts maxAttempts hcall
      exact .inl (quiet_update (steady_failed f attempts maxAttempts now) rfl rfl
        fun _ => mem_of_mem_set_none)
    · exact .inl (quiet_refl q)
  | heartbeatJob c b now =>
    exact .inl (quiet_update (steady_beaten c.workerId b now) rfl rfl fun _ h => h)
  | completeJob c now => exact .inl (quiet_update (steady_completed now) rfl rfl fun _ h => h)
  | readFailing f =>
    left
    simp only [step, readFailing]
    cases hj : q.jobs.get f.claim.job with
    | none => exact quiet_refl q
    | some j =>
      dsimp only
      split
      · exact quiet_refl q
      · refine ⟨rfl, fun _ j h => ⟨j, h, rfl, rfl⟩, fun _ _ h hn => by simp [hn] at h, ?_⟩
        intro w ttl now cand h
        rcases List.mem_append.mp h with h | h
        · exact .inl h
        · simp at h
  | requestJobCancel id => exact .inl (quiet_update steady_cancelRequest rfl rfl fun _ h => h)
  | acknowledgeJobCancel c now =>
    exact .inl (quiet_update (steady_cancelledRunning now) rfl rfl fun _ h => h)
  | cancelQueuedJob id now =>
    exact .inl (quiet_update (steady_cancelledQueued now) rfl rfl fun _ h => h)

structure Inv (q : Queue) : Prop where
  bound : ∀ id j, q.jobs.get id = some j → j.attempts ≤ j.maxAttempts
  reading : ∀ w ttl now cand, some (.claiming w ttl now cand) ∈ q.calls →
    cand.status.final = false ∧
      ∃ j, q.jobs.get cand.id = some j ∧ j.maxAttempts = cand.maxAttempts
  reached : ∀ c ∈ q.claims, ∃ j, q.jobs.get c.job = some j ∧ c.attempts ≤ j.attempts
  order : q.claims.Pairwise fun c c' => c.job = c'.job → c.attempts < c'.attempts

theorem Inv.quiet (h : q.Inv) (hq : Quiet q q') : q'.Inv := by
  refine ⟨fun id j' hj' => ?_, fun w ttl now cand hc => ?_, fun c hc => ?_, ?_⟩
  · cases hj : q.jobs.get id with
    | none =>
      rw [hq.fresh id j' hj' hj]
      exact Nat.zero_le _
    | some j =>
      obtain ⟨j'', hj'', ha, hm⟩ := hq.kept id j hj
      rw [hj'] at hj''
      cases hj''
      rw [ha, hm]
      exact h.bound id j hj
  · have hcand : cand.status.final = false ∧
        ∃ j, q.jobs.get cand.id = some j ∧ j.maxAttempts = cand.maxAttempts :=
      (hq.calls w ttl now cand hc).elim (h.reading w ttl now cand) fun h => h
    obtain ⟨hs, j, hj, hm⟩ := hcand
    obtain ⟨j', hj', -, hm'⟩ := hq.kept _ j hj
    exact ⟨hs, j', hj', hm'.trans hm⟩
  · rw [hq.claims] at hc
    obtain ⟨j, hj, ha⟩ := h.reached c hc
    obtain ⟨j', hj', ha', -⟩ := hq.kept _ j hj
    exact ⟨j', hj', ha'.symm ▸ ha⟩
  · rw [hq.claims]
    exact h.order

theorem Inv.claims (h : q.Inv) (hq : Claims q q' c) : q'.Inv := by
  obtain ⟨w, ttl, now, cand, j, hcall, hj, hid, hatt, hlt, j', hj', hatt', hmax'⟩ := hq.row
  have hmax : j.maxAttempts = cand.maxAttempts := by
    obtain ⟨-, j'', hj'', hm⟩ := h.reading w ttl now cand hcall
    rw [hid, hj] at hj''
    cases hj''
    exact hm
  -- every row goes on with its bound, and no count goes down
  have hkept : ∀ id k, q.jobs.get id = some k →
      ∃ k', q'.jobs.get id = some k' ∧ k.attempts ≤ k'.attempts ∧ k'.maxAttempts = k.maxAttempts := by
    intro id k hk
    by_cases he : id = c.job
    · subst he
      rw [hj] at hk
      cases hk
      exact ⟨j', hj', by omega, hmax'⟩
    · exact ⟨k, by rw [hq.others id he, hk], Nat.le_refl _, rfl⟩
  refine ⟨fun id k hk => ?_, fun w ttl now cand hc => ?_, fun c' hc' => ?_, ?_⟩
  · by_cases he : id = c.job
    · subst he
      rw [hj'] at hk
      cases hk
      omega
    · rw [hq.others id he] at hk
      exact h.bound id k hk
  · obtain ⟨hs, k, hk, hm⟩ := h.reading w ttl now cand (hq.calls _ hc)
    obtain ⟨k', hk', -, hm'⟩ := hkept _ k hk
    exact ⟨hs, k', hk', hm'.trans hm⟩
  · rw [hq.claims] at hc'
    rcases List.mem_append.mp hc' with hc' | hc'
    · obtain ⟨k, hk, ha⟩ := h.reached c' hc'
      obtain ⟨k', hk', ha', -⟩ := hkept _ k hk
      exact ⟨k', hk', Nat.le_trans ha ha'⟩
    · rw [List.mem_singleton.mp hc']
      exact ⟨j', hj', Nat.le_of_eq hatt'.symm⟩
  · rw [hq.claims, List.pairwise_append]
    refine ⟨h.order, List.pairwise_singleton _ _, fun b hb c' hc' hjob => ?_⟩
    rw [List.mem_singleton.mp hc'] at hjob ⊢
    obtain ⟨k, hk, ha⟩ := h.reached b hb
    rw [hjob, hj] at hk
    cases hk
    omega

theorem Inv.step (h : q.Inv) (a : Action) : (q.step a).Inv :=
  (step_cases q a).elim h.quiet fun ⟨_, hc⟩ => h.claims hc

def Lost (q : Queue) (c : Claim) : Prop := ∃ c', [c, c'].Sublist q.claims ∧ c'.job = c.job

theorem Inv.lost (h : q.Inv) (hc : q.Lost c) :
    ∃ j, q.jobs.get c.job = some j ∧ c.attempts < j.attempts := by
  obtain ⟨c', hsub, hjob⟩ := hc
  have hlt : c.attempts < c'.attempts := by
    have hpair := h.order.sublist hsub
    simp only [List.pairwise_cons, List.mem_singleton] at hpair
    exact hpair.1 c' rfl hjob.symm
  obtain ⟨j, hj, ha⟩ := h.reached c' (hsub.subset (by simp))
  exact ⟨j, hjob ▸ hj, by omega⟩

end Queue

def reached (as : List Action) : Queue := run Queue.step {} as

theorem inv_reached (as : List Action) : (reached as).Inv :=
  run_invariant (I := Queue.Inv) (fun _ a h => h.step a)
    ⟨by simp, by simp, by simp, List.Pairwise.nil⟩ as

def Action.claim (q : Queue) : Action → Option Claim
  | .heartbeatJob c _ _ => some c
  | .completeJob c _ => some c
  | .readFailing f => some f.claim
  | .acknowledgeJobCancel c _ => some c
  | .write call _ =>
    match q.calls[call]? with
    | some (some (.failing f _ _)) => some f.claim
    | _ => none
  | _ => none

def Action.ownedBy (c : Claim) (j : BackgroundJob) : Action → Prop
  | .heartbeatJob _ b _ => j.lockedBy = some c.workerId →
      j.attempts ≤ c.attempts ∧ (b.status.isSome → ¬j.status.final)
  | .completeJob _ _ => j.status.taken → j.attempts ≤ c.attempts
  | .acknowledgeJobCancel _ _ => j.status.taken → j.attempts ≤ c.attempts
  | .write _ _ => j.status.taken ∨ j.status = .queued → j.attempts ≤ c.attempts
  | _ => True

instance (c : Claim) (j : BackgroundJob) : (a : Action) → Decidable (a.ownedBy c j)
  | .heartbeatJob _ _ _ => inferInstanceAs (Decidable (_ → _ ∧ _))
  | .completeJob _ _ => inferInstanceAs (Decidable (_ → _))
  | .acknowledgeJobCancel _ _ => inferInstanceAs (Decidable (_ → _))
  | .write _ _ => inferInstanceAs (Decidable (_ ∨ _ → _))
  | .enqueueJob _ _ _ _ _ => isTrue trivial
  | .findCandidate _ _ _ _ _ => isTrue trivial
  | .readFailing _ => isTrue trivial
  | .requestJobCancel _ => isTrue trivial
  | .cancelQueuedJob _ _ => isTrue trivial

def Owned (q : Queue) (a : Action) : Prop :=
  ∀ c ∈ a.claim q, ∀ j ∈ q.jobs.get c.job, a.ownedBy c j

instance (q : Queue) (a : Action) : Decidable (Owned q a) :=
  inferInstanceAs (Decidable (∀ c ∈ a.claim q, ∀ j ∈ q.jobs.get c.job, a.ownedBy c j))

def lease (q : Queue) (id : String) : Option (JobStatus × Option String × Option Int × Option Int) :=
  (q.jobs.get id).map fun j => (j.status, j.lockedBy, j.lockedAt, j.lockExpiresAt)

def LeasesKept (as : List Action) : Prop :=
  ∀ bs a cs c, as = bs ++ a :: cs → a.claim (reached bs) = some c → (reached bs).Lost c →
    lease (reached (bs ++ [a])) = lease (reached bs)

def FinalStays (as : List Action) : Prop :=
  ∀ bs a cs id j, as = bs ++ a :: cs → (reached bs).jobs.get id = some j → j.status.final →
    ∃ j', (reached (bs ++ [a])).jobs.get id = some j' ∧ j'.status = j.status

variable {q : Queue} {id : String} {f : BackgroundJob → BackgroundJob}

theorem lease_update (hjobs : q'.jobs = q.jobs.update id f)
    (hf : ∀ j, q.jobs.get id = some j → f j = j) : lease q' = lease q := by
  funext k
  unfold lease
  rw [hjobs, Table.get_update]
  by_cases hk : k = id
  · subst hk
    cases hj : q.jobs.get k with
    | none => simp
    | some j => simp [hf j hj]
  · simp [hk]

theorem lease_step_of_lost (hinv : q.Inv) (ha : Owned q a) (hc : a.claim q = some c)
    (hlost : q.Lost c) : lease (q.step a) = lease q := by
  obtain ⟨j, hj, hlt⟩ := hinv.lost hlost
  have ha := ha c hc j hj
  have hone : ∀ k, q.jobs.get c.job = some k → k = j := by
    intro k hk
    rw [hj] at hk
    cases hk
    rfl
  cases a with
  | enqueueJob => cases hc
  | findCandidate => cases hc
  | write call now =>
    simp only [Queue.step, Queue.write]
    simp only [Action.claim] at hc
    split
    · rename_i hcall
      simp [hcall] at hc
    · rename_i f attempts maxAttempts hcall
      simp only [hcall, Option.some.injEq] at hc
      subst hc
      refine lease_update rfl fun k hk => ?_
      rw [hone k hk]
      have hno : ¬(j.status.taken || j.status == .queued) = true := fun h => by
        have := ha (by simpa using h)
        omega
      unfold Queue.failed
      rw [if_neg hno]
    · rfl
  | heartbeatJob c' b now =>
    cases hc
    refine lease_update rfl fun k hk => ?_
    rw [hone k hk]
    have hno : ¬j.lockedBy = some c.workerId := fun h => by
      have := (ha h).1
      omega
    unfold Queue.beaten
    rw [if_neg hno]
  | completeJob c' now =>
    cases hc
    refine lease_update rfl fun k hk => ?_
    rw [hone k hk]
    have hno : ¬j.status.taken = true := fun h => by
      have := ha h
      omega
    unfold Queue.completed
    rw [if_neg hno]
  | readFailing f =>
    simp only [Queue.step, Queue.readFailing]
    split
    · rfl
    · split <;> rfl
  | requestJobCancel => cases hc
  | acknowledgeJobCancel c' now =>
    cases hc
    refine lease_update rfl fun k hk => ?_
    rw [hone k hk]
    have hno : ¬j.status.taken = true := fun h => by
      have := ha h
      omega
    unfold Queue.cancelledRunning
    rw [if_neg hno]
  | cancelQueuedJob => cases hc

theorem not_live_of_final {s : JobStatus} (h : s.final = true) :
    s.taken = false ∧ (s == .queued) = false := by
  revert h
  unfold JobStatus.final JobStatus.taken
  cases s <;> simp

theorem status_update {k : String} (hjobs : q'.jobs = q.jobs.update k f)
    (hf : ∀ j, q.jobs.get k = some j → j.status.final → (f j).status = j.status)
    (hj : q.jobs.get id = some j) (hfinal : j.status.final) :
    ∃ j', q'.jobs.get id = some j' ∧ j'.status = j.status := by
  rw [hjobs, Table.get_update]
  by_cases hk : id = k
  · subst hk
    exact ⟨f j, by simp [hj], hf j hj hfinal⟩
  · exact ⟨j, by simp [hk, hj], rfl⟩

theorem final_step (hinv : q.Inv) (ha : Owned q a) (hj : q.jobs.get id = some j)
    (hfinal : j.status.final) : ∃ j', (q.step a).jobs.get id = some j' ∧ j'.status = j.status := by
  cases a with
  | enqueueJob k jobType priority maxAttempts now =>
    simp only [Queue.step, Queue.enqueueJob]
    split
    · exact ⟨j, hj, rfl⟩
    · rename_i hk
      have hne : id ≠ k := fun e => hk (by simp [← e, hj])
      exact ⟨j, (Table.get_put_ne _ _ hne).trans hj, rfl⟩
  | findCandidate jobTypes workerId ttl now k =>
    refine ⟨j, ?_, rfl⟩
    simp only [Queue.step, Queue.findCandidate]
    split
    · exact hj
    · split <;> exact hj
  | write call now =>
    simp only [Queue.step, Queue.write]
    split
    · rename_i workerId ttl nowRead cand hcall
      have hcand := (hinv.reading _ _ _ _ (List.mem_of_getElem? hcall)).1
      unfold Queue.claim
      split
      · refine status_update rfl (fun k hk hfinal => ?_) hj hfinal
        simp [Queue.exhaust, not_live_of_final hfinal]
      · split
        · rename_i hcas
          refine status_update rfl (fun k hk hfinal => ?_) hj hfinal
          -- what was read was not over, and the row is as it was read
          obtain ⟨k', hk', hcas⟩ := (Option.any_eq_true _ _).mp hcas
          simp only [Bool.and_eq_true, beq_iff_eq] at hcas
          rw [hk] at hk'
          cases hk'
          rw [hcas.1, hcand] at hfinal
          cases hfinal
        · exact ⟨j, hj, rfl⟩
    · refine status_update rfl (fun k hk hfinal => ?_) hj hfinal
      simp [Queue.failed, not_live_of_final hfinal]
    · exact ⟨j, hj, rfl⟩
  | heartbeatJob c b now =>
    refine status_update rfl (fun k hk hfinal => ?_) hj hfinal
    unfold Queue.beaten
    split
    · rename_i hlocked
      have hnone := ((ha c rfl k hk) hlocked).2
      cases hb : b.status with
      | none => rfl
      | some s => exact absurd hfinal (hnone (by simp [hb]))
    · rfl
  | completeJob c now =>
    refine status_update rfl (fun k hk hfinal => ?_) hj hfinal
    simp [Queue.completed, not_live_of_final hfinal]
  | readFailing f =>
    refine ⟨j, ?_, rfl⟩
    simp only [Queue.step, Queue.readFailing]
    split
    · exact hj
    · split <;> exact hj
  | requestJobCancel k =>
    refine status_update rfl (fun k hk hfinal => ?_) hj hfinal
    simp [Queue.cancelRequest, not_live_of_final hfinal]
  | acknowledgeJobCancel c now =>
    refine status_update rfl (fun k hk hfinal => ?_) hj hfinal
    simp [Queue.cancelledRunning, not_live_of_final hfinal]
  | cancelQueuedJob k now =>
    refine status_update rfl (fun k hk hfinal => ?_) hj hfinal
    simp [Queue.cancelledQueued, not_live_of_final hfinal]

theorem queue_owned (as : List Action) (h : Meets Queue.step Owned {} as) :
    LeasesKept as ∧ FinalStays as ∧
      ∀ id j, (reached as).jobs.get id = some j → j.attempts ≤ j.maxAttempts := by
  have hstep : ∀ bs a, reached (bs ++ [a]) = (reached bs).step a := by
    intro bs a
    unfold reached
    rw [run_append]
    rfl
  refine ⟨?_, ?_, (inv_reached as).bound⟩
  · rintro bs a cs c rfl hc hlost
    rw [hstep]
    exact lease_step_of_lost (inv_reached bs) h.append_right.1 hc hlost
  · rintro bs a cs id j rfl hj hfinal
    rw [hstep]
    exact final_step (inv_reached bs) h.append_right.1 hj hfinal

def takenOver : List Action :=
  [.enqueueJob "job-1" "seo_crawl" none none 0,
    .findCandidate ["seo_crawl"] "worker-a" 30 0 "job-1", .write 0 0,
    .findCandidate ["seo_crawl"] "worker-b" 30 60000 "job-1", .write 1 60000]

def first : Claim := ⟨"job-1", 1, "worker-a"⟩

def second : Claim := ⟨"job-1", 2, "worker-b"⟩

theorem queue_owned_taken_over :
    let as := takenOver ++ [.heartbeatJob first { lockTtlSeconds := 30 } 61000,
      .completeJob second 62000, .completeJob first 63000]
    LeasesKept as ∧ FinalStays as ∧
      ∀ id j, (reached as).jobs.get id = some j → j.attempts ≤ j.maxAttempts :=
  queue_owned _ (by decide +kernel)

def late : Action :=
  .heartbeatJob second { lockTtlSeconds := 30, status := some ⟨.processing, rfl⟩ } 62000

/-- The first worker ends the second one's job, and a heartbeat begins a job again that was over. -/
theorem ended_by_another :
    ¬LeasesKept (takenOver ++ [.completeJob first 61000]) ∧
    ¬FinalStays (takenOver ++ [.completeJob second 61000] ++ [late]) := by
  constructor
  · intro h
    have hlost : (reached takenOver).Lost first := ⟨second, by decide +kernel, rfl⟩
    have hlease := congrFun (h takenOver _ [] first rfl rfl hlost) "job-1"
    revert hlease
    decide +kernel
  · intro h
    have hover : ((reached (takenOver ++ [.completeJob second 61000])).jobs.get "job-1").map
        BackgroundJob.status = some .completed := by decide +kernel
    have hagain : ((reached (takenOver ++ [.completeJob second 61000] ++ [late])).jobs.get
        "job-1").map BackgroundJob.status = some .processing := by decide +kernel
    obtain ⟨j, hj, hs⟩ := Option.map_eq_some_iff.mp hover
    obtain ⟨j', hj', hs'⟩ := h _ late [] "job-1" j rfl hj (by rw [hs]; rfl)
    rw [hj', Option.map_some, hs', hs] at hagain
    cases hagain

end Kindred.Jobs
