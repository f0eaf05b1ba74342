import Kindred.Entitlement.Effects
import Mathlib.Data.List.Induction

/-!
Nothing is lost on the way: no job ends while a workspace that was in the scope
all along has not been seen to.
-/

namespace Kindred.Entitlement
open Lib (Table)

/-- The walk is past the workspace `x`. -/
def Past (x : Id) (cursor : Option Id) : Prop := ∃ c ∈ cursor, x ≤ c

variable {db : Db} {cursor : Option Id} {task : Task} {now : Int}

theorem members_of_page {scope : FanoutScope} {n : ℕ} {x : Id} (hx : x ∈ db.members scope)
    (hcursor : ¬Past x cursor) : x ∈ readKeysetPage db scope cursor n ∨
      n ≤ (readKeysetPage db scope cursor n).length ∧
        ∀ y ∈ readKeysetPage db scope cursor n, y < x := by
  unfold readKeysetPage
  set all := ((db.members scope).filter fun w => cursor.all (· < w)).mergeSort (· ≤ ·) with hall
  have hmem : x ∈ all := by
    rw [hall, List.mem_mergeSort, List.mem_filter]
    refine ⟨hx, ?_⟩
    cases cursor with
    | none => rfl
    | some c => simpa [Past] using hcursor
  have hsorted : all.Pairwise (· ≤ ·) := by
    have := List.pairwise_mergeSort' (· ≤ ·) ((db.members scope).filter fun w => cursor.all (· < w))
    simpa [hall] using this
  rw [← List.take_append_drop n all] at hmem hsorted
  rcases List.mem_append.mp hmem with hmem | hmem
  · exact .inl hmem
  · by_cases hin : x ∈ all.take n
    · exact .inl hin
    · right
      have hlong : 0 < (all.drop n).length := List.length_pos_of_mem hmem
      rw [List.length_drop] at hlong
      refine ⟨by rw [List.length_take]; omega, fun y hy => ?_⟩
      have hle := (List.pairwise_append.mp hsorted).2.2 y hy x hmem
      exact lt_of_le_of_ne hle fun h => hin (h ▸ hy)

theorem page_sorted (db : Db) (scope : FanoutScope) (cursor : Option Id) (n : ℕ) :
    (readKeysetPage db scope cursor n).Pairwise (· ≤ ·) := by
  have := List.pairwise_mergeSort' (· ≤ ·) ((db.members scope).filter fun w => cursor.all (· < w))
  exact (by simpa using this : List.Pairwise _ _).take

/-- What is left of a page still holds `x`, or ends before it. -/
def Ahead (x : Id) (rest : List Id) (short : Bool) : Prop :=
  x ∈ rest ∨ short = false ∧ ∀ y ∈ rest, y < x

theorem ahead_of_page {scope : FanoutScope} {n : ℕ} {x : Id} (hx : x ∈ db.members scope)
    (hcursor : ¬Past x cursor) : Ahead x (readKeysetPage db scope cursor n)
      ((readKeysetPage db scope cursor n).length < n) := by
  rcases members_of_page hx hcursor with hmem | ⟨hlong, hlt⟩
  · exact .inl hmem
  · exact .inr ⟨by simpa using hlong, hlt⟩

/-- What the task owes to the workspace `x`, where `H` says that it was seen to. -/
def Task.Owes (x : Id) (H : Prop) : Task → Prop
  | .next | .release .. => True
  | .read pass | .checkpoint pass _ => Past x pass.lastSuccessfulCursor → H
  | .resolve pass rest short => rest.Pairwise (· ≤ ·) ∧ (Past x pass.lastSuccessfulCursor → H) ∧
      (H ∨ Ahead x rest short)
  | .catchup pass y rest short => (y :: rest).Pairwise (· ≤ ·) ∧
      (Past x pass.lastSuccessfulCursor → H) ∧ (H ∨ Ahead x (y :: rest) short)
  | .complete _ => H

theorem Task.Owes.mono {x : Id} {H H' : Prop} (hH : H → H') (h : task.Owes x H) :
    task.Owes x H' := by
  cases task with
  | next | release => trivial
  | read | checkpoint => exact fun hp => hH (h hp)
  | resolve | catchup => exact ⟨h.1, fun hp => hH (h.2.1 hp), h.2.2.imp_left hH⟩
  | complete => exact hH h

variable {w : Worker} {s : State} {a : Action} {scope : FanoutScope} {x : Id} {H H' : Prop}
  {j : FanoutJob} {job : ClaimRow} {id : Id} {j' : FanoutJob}

theorem Turns.owes {io : Io} (ht : Turns db w io task)
    (hmem : ∀ job, w.task.job = some job → x ∈ db.members job.scope) (hsees : w.seesTo io x → H)
    (h : w.task.Owes x H) : task.Owes x H := by
  cases ht with
  | stopped ht => simpa [ht, Task.Owes] using h
  | @page pass ht page short hpage hshort =>
    have h : Past x pass.lastSuccessfulCursor → H := by simpa [ht, Task.Owes] using h
    refine ⟨hpage ▸ page_sorted .., h, ?_⟩
    by_cases hpast : Past x pass.lastSuccessfulCursor
    · exact .inl (h hpast)
    · subst hpage hshort
      exact .inr (ahead_of_page (hmem _ (by rw [ht]; rfl)) hpast)
  | lastPage ht =>
    rw [ht] at h
    simpa [Ahead, Task.Owes] using h.2.2
  | nextPage ht =>
    rw [ht] at h
    exact h.2.1
  | gaveUp ht =>
    rcases ht with ht | ht <;> rw [ht] at h <;> exact h.2.1
  | resolved ht =>
    rw [ht] at h
    exact h
  | @passed pass y rest short ht hy pending =>
    have h : (y :: rest).Pairwise (· ≤ ·) ∧ (Past x pass.lastSuccessfulCursor → H) ∧
        (H ∨ Ahead x (y :: rest) short) := by
      rcases ht with ht | ht <;> rw [ht] at h <;> exact h
    obtain ⟨hsorted, -, howes⟩ := h
    have hat : x = y → H := fun he => hsees (he ▸ hy)
    refine ⟨hsorted.tail, ?_, ?_⟩
    · rintro ⟨c, hc, hle⟩
      cases hc
      rcases howes with hH | hin | ⟨-, hlt⟩
      · exact hH
      · rcases List.mem_cons.mp hin with he | hin
        · exact hat he
        · exact hat (le_antisymm hle (List.rel_of_pairwise_cons hsorted hin))
      · exact absurd (hlt y List.mem_cons_self) (not_lt.mpr hle)
    · rcases howes with hH | hin | ⟨hshort, hlt⟩
      · exact .inl hH
      · rcases List.mem_cons.mp hin with he | hin
        · exact .inl (hat he)
        · exact .inr (.inl hin)
      · exact .inr (.inr ⟨hshort, fun z hz => hlt z (List.mem_cons_of_mem _ hz)⟩)
  | @checkpointed pass after ht =>
    rw [ht] at h
    cases after <;> first | exact h | trivial
  | @lost pass after ht => cases after <;> trivial
  | ended => trivial

def Current (db : Db) (r : ClaimRow) : Prop :=
  ∃ j, db.jobs.get r.id = some j ∧ j.active ∧ j.requestedGeneration = r.generation

/-- What the walks of a scope owe to `x`. -/
structure Covered (scope : FanoutScope) (x : Id) (H : Prop) (s : State) : Prop where
  row : ∀ id j, s.db.jobs.get id = some j → j.scope = scope → j.active →
    j.cursorGeneration = some j.requestedGeneration → Past x j.cursorWorkspaceId → H
  claimed : ∀ k w, s.workers.get k = some w → ∀ r ∈ w.jobs, r.scope = scope → Current s.db r →
    r.cursorGeneration = some r.generation → Past x r.cursorWorkspaceId → H
  task : ∀ k w, s.workers.get k = some w → ∀ job, w.task.job = some job → job.scope = scope →
    Current s.db job → w.task.Owes x H

/-- A step of a worker on a job of the scope sees to `x`. -/
def SeesTo (s : State) (scope : FanoutScope) (x : Id) (a : Action) : Prop :=
  ∃ k io w job, a = .work k io ∧ s.workers.get k = some w ∧ w.task.job = some job ∧
    job.scope = scope ∧ w.seesTo io x

def Action.enqueues (scope : FanoutScope) : Action → Prop
  | .enqueue scope' _ _ => scope' = scope
  | _ => False

theorem mem_rows_of_task (h : w.task.job = some job) : job ∈ w.rows := by
  simp [Worker.rows, h]

theorem mem_rows_of_jobs (h : job ∈ w.jobs) : job ∈ w.rows := by
  simp [Worker.rows, h]

theorem current_back (hs : Sound s) (ha : ¬a.enqueues scope) {k : ℕ} (hw : s.workers.get k = some w)
    {r : ClaimRow} (hr : r ∈ w.rows) (hscope : r.scope = scope) (h : Current (step s a).db r) :
    Current s.db r := by
  obtain ⟨j', hj', hactive, hgen⟩ := h
  obtain ⟨j, hj, hjr, -⟩ := hs.claims k w hw r hr
  obtain ⟨j₁, hj₁, hstep⟩ := row_kept hs.ids a hj
  rw [hj'] at hj₁
  cases hj₁
  refine ⟨j, hj, hstep.active hactive, ?_⟩
  cases hstep with
  | same | claimed => exact hgen
  | enqueued => exact absurd (hjr.trans hscope) ha
  | written _ _ _ _ hwrote => cases hwrote <;> exact hgen

theorem current_of_held (hj : s.db.jobs.get job.id = some j) (hheld : j.heldBy (w.lease job) now)
    (hgen : j.requestedGeneration = job.generation) : Current s.db job :=
  ⟨j, hj, by simp [FanoutJob.active, (held_iff hheld).1], hgen⟩

theorem covered_row (hs : Sound s) (hc : Covered scope x H s) (ha : ¬a.enqueues scope)
    (hj : s.db.jobs.get id = some j) (hstep : RowStep s id j a j') (hscope : j'.scope = scope)
    (hactive : j'.active) (hgen : j'.cursorGeneration = some j'.requestedGeneration)
    (hpast : Past x j'.cursorWorkspaceId) : H := by
  have hscope₀ : j.scope = scope := hstep.scope.symm.trans hscope
  have hactive₀ := hstep.active hactive
  cases hstep with
  | same => exact hc.row id j hj hscope hactive hgen hpast
  | enqueued => exact absurd hscope₀ ha
  | claimed hclaimable lease =>
    by_cases hkept : j.cursorGeneration = some j.requestedGeneration
    · refine hc.row id j hj hscope₀ hactive₀ hkept ?_
      simpa [FanoutJob.claimed, hkept] using hpast
    · simp [FanoutJob.claimed, hkept] at hgen
  | @written k io w job _ hw hjob hid hheld hwrote =>
    subst hid
    obtain ⟨jr, hjr, hjscope, hle⟩ := hs.claims k w hw job (mem_rows_of_task hjob)
    rw [hj] at hjr
    cases hjr
    have howes : j.requestedGeneration = job.generation → w.task.Owes x H := fun hg =>
      hc.task k w hw job hjob (hjscope.symm.trans hscope₀) (current_of_held hj hheld hg)
    cases hwrote with
    | @advanced pass after ht =>
      rw [ht] at hjob howes
      cases hjob
      have ⟨c, hcur, _⟩ := hpast
      have hcur : pass.lastSuccessfulCursor = some c := hcur
      simp only [hcur, Option.isNone_some, Bool.false_eq_true, if_false, Option.some.injEq] at hgen
      exact howes hgen.symm hpast
    | requeued => cases hgen
    | completed | deadLettered => cases hactive
    | @retried job' ht =>
      rw [ht] at hjob
      cases hjob
      have ⟨c, hcur, _⟩ := hpast
      have hcur : j.cursorWorkspaceId = some c := hcur
      simp only [FanoutJob.unclaimed, hcur, Option.isNone_some, Bool.false_eq_true, if_false,
        Option.some.injEq] at hgen
      obtain ⟨hstatus, -, -, hprocessing, -⟩ := held_iff hheld
      have hrun := (hs.job _ j hj).running hstatus (by simp [hcur])
      refine hc.row _ j hj hscope₀ hactive₀ ?_ hpast
      rw [hrun, hprocessing, ← hgen]
      rfl

theorem covered_step (hs : Sound s) (hc : Covered scope x H s) (ha : ¬a.enqueues scope)
    (hmem : x ∈ s.db.members scope) (hH : H → H') (hsees : SeesTo s scope x a → H') :
    Covered scope x H' (step s a) where
  row := by
    intro id j' hj' hscope hactive hgen hpast
    rcases row_of_step hj' with ⟨j, hj, hstep⟩ | ⟨_, _, _, _, -, -, rfl⟩
    · exact hH (covered_row hs hc ha hj hstep hscope hactive hgen hpast)
    · obtain ⟨c, hcur, -⟩ := hpast
      cases hcur
  claimed := by
    intro k w' hw' r hr hscope hcurrent hgen hpast
    apply hH
    cases worker_of_step hw' with
    | same _ hw =>
      exact hc.claimed k w' hw r hr hscope
        (current_back hs ha hw (mem_rows_of_jobs hr) hscope hcurrent) hgen hpast
    | claimed _ _ hclaim =>
      obtain ⟨_, _, hclaim⟩ := hclaim
      rw [show w'.jobs = _ by exact congrArg Prod.snd hclaim] at hr
      obtain ⟨j, hj, hclaimable, -, hof⟩ := claim_rows hr
      rw [hof] at hscope hgen hpast
      simp only [FanoutJob.claimable, Bool.and_eq_true] at hclaimable
      by_cases hkept : j.cursorGeneration = some j.requestedGeneration
      · refine hc.row r.id j hj hscope hclaimable.1.1 hkept ?_
        simpa [ClaimRow.of, FanoutJob.claimed, hkept] using hpast
      · simp [ClaimRow.of, FanoutJob.claimed, hkept] at hgen
    | worked hw hworks =>
      rename_i io w
      have hr' : r ∈ w.jobs := by
        generalize (workerStep s.db w io).1 = db' at hworks
        cases hworks with
        | malformed _ hj | begun _ hj => simp [hj, hr]
        | turned => exact hr
      exact hc.claimed k w hw r hr' hscope
        (current_back hs ha hw (mem_rows_of_jobs hr') hscope hcurrent) hgen hpast
  task := by
    intro k w' hw' job hjob hscope hcurrent
    cases worker_of_step hw' with
    | same _ hw =>
      exact (hc.task k w' hw job hjob hscope
        (current_back hs ha hw (mem_rows_of_task hjob) hscope hcurrent)).mono hH
    | claimed htask =>
      rw [htask] at hjob
      cases hjob
    | worked hw hworks =>
      rename_i io w
      have hcurrent := current_back hs ha hw (hworks.rows (mem_rows_of_task hjob)) hscope hcurrent
      generalize (workerStep s.db w io).1 = db' at hworks
      cases hworks with
      | malformed => trivial
      | @begun job' jobs ht hj =>
        cases hjob
        rintro ⟨c, hcur, hle⟩
        simp only [Pass.start, Option.mem_def, Option.ite_none_right_eq_some] at hcur hscope hcurrent
        exact hH (hc.claimed k w hw _ (by simp [hj]) hscope hcurrent hcur.1 ⟨c, hcur.2, hle⟩)
      | turned hdb ht =>
        have hjob := ht.job hjob
        refine ht.owes ?_ ?_ ((hc.task k w hw job hjob hscope hcurrent).mono hH)
        · intro job' hjob'
          rw [hjob] at hjob'
          cases hjob'
          exact hscope ▸ hmem
        · exact fun h => hsees ⟨k, io, w, job, rfl, hw, hjob, hscope, h⟩

/-- The active row of a scope that was just asked for has no cursor of that generation. -/
theorem enqueued_row (hs : Sound s) {source : String}
    (h : (step s (.enqueue scope source now)).db.jobs.get id = some j') (hscope : j'.scope = scope)
    (hactive : j'.active) :
    (∃ j, s.db.jobs.get id = some j ∧ j'.requestedGeneration = j.requestedGeneration + 1 ∧
      j'.cursorGeneration = j.cursorGeneration) ∨
      s.db.jobs.get id = none ∧ j' = .fresh scope source now := by
  simp only [step, enqueueEntitlementFanout] at h
  split at h
  · rename_i id₀ j₀ hfound
    obtain ⟨hj₀, hactive₀, hscope₀⟩ := activeJob_some hfound
    by_cases hid : id = id₀
    · subst hid
      rw [Table.get_update_self, hj₀] at h
      cases h
      exact .inl ⟨j₀, hj₀, rfl, rfl⟩
    · rw [Table.get_update_ne _ _ hid] at h
      exact absurd (hs.single id id₀ j' j₀ h hj₀ hactive hactive₀ (hscope.trans hscope₀.symm)) hid
  · rename_i hnone
    by_cases hid : id = s.db.nextId
    · subst hid
      rw [Table.get_put_self] at h
      cases h
      refine .inr ⟨?_, rfl⟩
      cases hnew : s.db.jobs.get s.db.nextId with
      | none => rfl
      | some j => exact absurd (hs.ids _ j hnew) (lt_irrefl _)
    · rw [Table.get_put_ne _ _ hid] at h
      exact absurd hscope (activeJob_none hnone h hactive)

theorem covered_enqueue (hs : Sound s) (scope : FanoutScope) (source : String) (now : Int) (x : Id)
    (H : Prop) : Covered scope x H (step s (.enqueue scope source now)) := by
  have hstale : ∀ k w, s.workers.get k = some w → ∀ r ∈ w.rows, r.scope = scope →
      ¬Current (step s (.enqueue scope source now)).db r := by
    rintro k w hw r hr hscope ⟨j', hj', hactive, hgen⟩
    obtain ⟨j, hj, hjscope, hle⟩ := hs.claims k w hw r hr
    obtain ⟨j₁, hj₁, hstep⟩ := row_kept hs.ids (.enqueue scope source now) hj
    rw [hj'] at hj₁
    cases hj₁
    rcases enqueued_row hs hj' (hstep.scope.trans (hjscope.trans hscope)) hactive with
      ⟨j₂, hj₂, hbump, -⟩ | ⟨hnew, -⟩
    · rw [hj] at hj₂
      cases hj₂
      omega
    · simp [hj] at hnew
  refine ⟨?_, ?_, ?_⟩
  · rintro id j' hj' hscope hactive hgen ⟨c, hcur, -⟩
    rcases enqueued_row hs hj' hscope hactive with ⟨j, hj, hbump, hcursor⟩ | ⟨-, rfl⟩
    · have := (hs.job id j hj).cursor _ (hcursor.symm.trans hgen)
      omega
    · cases hcur
  · exact fun k w hw r hr hscope hcurrent =>
      absurd hcurrent (hstale k w hw r (mem_rows_of_jobs hr) hscope)
  · exact fun k w hw job hjob hscope hcurrent =>
      absurd hcurrent (hstale k w hw job (mem_rows_of_task hjob) hscope)

theorem reached_snoc (as : List Action) (a : Action) :
    reached (as ++ [a]) = step (reached as) a := by
  simp [reached, Lib.run_append]

theorem covered_run (bs : List Action) (scope : FanoutScope) (source : String) (now : Int) (x : Id)
    (cs : List Action) (hcs : ∀ c ∈ cs, ¬c.enqueues scope) (hmem : ∀ ds es, cs = ds ++ es →
      x ∈ (reached (bs ++ .enqueue scope source now :: ds)).db.members scope) : Covered scope x
      (∃ ds c es, cs = ds ++ c :: es ∧
        SeesTo (reached (bs ++ .enqueue scope source now :: ds)) scope x c)
      (reached (bs ++ .enqueue scope source now :: cs)) := by
  induction cs using List.reverseRecOn with
  | nil =>
    rw [reached_snoc]
    exact covered_enqueue (sound_reached bs) scope source now x _
  | append_singleton cs c ih =>
    have hcovered := ih (fun d hd => hcs d (List.mem_append_left _ hd)) fun ds es he =>
      hmem ds (es ++ [c]) (by rw [he, List.append_assoc])
    rw [← List.cons_append, ← List.append_assoc, reached_snoc]
    refine covered_step (sound_reached _) hcovered (hcs c (by simp)) (hmem cs [c] rfl) ?_ ?_
    · rintro ⟨ds, d, es, rfl, hsees⟩
      exact ⟨ds, d, es ++ [c], by simp, hsees⟩
    · exact fun hsees => ⟨cs, c, [], rfl, hsees⟩

theorem last_enqueue (as : List Action) (hj : (reached as).db.jobs.get id = some j)
    (hscope : j.scope = scope) : ∃ bs source now cs, as = bs ++ .enqueue scope source now :: cs ∧
      ∀ c ∈ cs, ¬c.enqueues scope := by
  induction as using List.reverseRecOn generalizing j with
  | nil => simp [reached] at hj
  | append_singleton as a ih =>
    by_cases ha : a.enqueues scope
    · cases a with
      | enqueue scope' source now =>
        cases ha
        exact ⟨as, source, now, [], rfl, by simp⟩
      | _ => cases ha
    · rw [reached_snoc] at hj
      rcases row_of_step hj with ⟨i, hi, hstep⟩ | ⟨scope', source, now, rfl, -, -, rfl⟩
      · obtain ⟨bs, source, now, cs, rfl, hcs⟩ := ih hi (hstep.scope.symm.trans hscope)
        refine ⟨bs, source, now, cs ++ [a], by simp, ?_⟩
        intro c hc
        rcases List.mem_append.mp hc with hc | hc
        · exact hcs c hc
        · rw [List.mem_singleton.mp hc]
          exact ha
      · exact absurd hscope ha

/-- No two jobs of a scope are active. -/
def OneJobAScope (s : State) : Prop :=
  ∀ id id' j j', s.db.jobs.get id = some j → s.db.jobs.get id' = some j' → j.active → j'.active →
    j.scope = j'.scope → id = id'

def FanoutJob.Moved (j j' : FanoutJob) : Prop :=
  (j'.status ≠ j.status ∧ j'.status ≠ .running) ∨ j'.counts ≠ j.counts ∨
    (j'.cursorWorkspaceId ≠ j.cursorWorkspaceId ∧ j'.cursorWorkspaceId.isSome)

/-- The worker `k` has the lease of the job and works on it. -/
def Holds (s : State) (k : ℕ) (id : Id) (j : FanoutJob) (now : Int) : Prop :=
  ∃ w job, s.workers.get k = some w ∧ w.task.job = some job ∧ job.id = id ∧
    j.heldBy (w.lease job) now

def HolderMoves (s : State) (a : Action) : Prop :=
  ∀ id j j', s.db.jobs.get id = some j → (step s a).db.jobs.get id = some j' → j.Moved j' →
    ∃ k io, a = .work k io ∧ Holds s k id j io.now ∧ ∀ k', Holds s k' id j io.now → k' = k

def Completes (s : State) (scope : FanoutScope) (a : Action) : Prop :=
  ∃ id j j', s.db.jobs.get id = some j ∧ j.scope = scope ∧ j.status ≠ .completed ∧
    (step s a).db.jobs.get id = some j' ∧ j'.status = .completed

theorem row_step_of_both (hs : Sound s) (hj : s.db.jobs.get id = some j)
    (hj' : (step s a).db.jobs.get id = some j') : RowStep s id j a j' := by
  obtain ⟨j₁, hj₁, hstep⟩ := row_kept hs.ids a hj
  rw [hj'] at hj₁
  cases hj₁
  exact hstep

theorem holder_moves (hs : Sound s) (a : Action) : HolderMoves s a := by
  intro id j j' hj hj' hmoved
  cases row_step_of_both hs hj hj' with
  | same => simp [FanoutJob.Moved] at hmoved
  | enqueued => simp [FanoutJob.Moved] at hmoved
  | claimed =>
    simp only [FanoutJob.Moved, FanoutJob.claimed] at hmoved
    rcases hmoved with hm | hm | ⟨hne, hsome⟩
    · exact absurd rfl hm.2
    · exact absurd rfl hm
    · split at hne
      · exact absurd rfl hne
      · rename_i hkept
        simp [hkept] at hsome
  | @written k io w job _ hw hjob hid hheld hwrote =>
    refine ⟨k, io, rfl, ⟨w, job, hw, hjob, hid, hheld⟩, ?_⟩
    rintro k' ⟨w', job', hw', -, -, hheld'⟩
    have htoken := (held_iff hheld').2.1.symm.trans (held_iff hheld).2.1
    exact hs.holder k' k w' w hw' hw (Option.some.inj htoken)

theorem completes_covered (hs : Sound s) (hc : Covered scope x H s) (h : Completes s scope a) :
    H := by
  obtain ⟨id, j, j', hj, hscope, hstatus, hj', hdone⟩ := h
  cases row_step_of_both hs hj hj' with
  | same | enqueued => exact absurd hdone hstatus
  | claimed => cases hdone
  | @written k io w job _ hw hjob hid hheld hwrote =>
    subst hid
    obtain ⟨jr, hjr, hjscope, hle⟩ := hs.claims k w hw job (mem_rows_of_task hjob)
    rw [hj] at hjr
    cases hjr
    cases hwrote with
    | advanced => exact absurd hdone hstatus
    | requeued | deadLettered | retried => cases hdone
    | @completed pass ht hgen =>
      have howes := hc.task k w hw job hjob (hjscope.symm.trans hscope)
      rw [ht] at hjob howes
      cases hjob
      exact howes (current_of_held hj hheld (le_antisymm hgen hle))

end Kindred.Entitlement
