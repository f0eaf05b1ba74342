import Kindred.Deletion.System

/-!
What one step does to the row of a job and to a worker, and what it leaves
alone.
-/

namespace Kindred.Deletion
open Lib (Table Dialogue)

inductive Asked (db : Db) (w : World) (id : Id) : Ask → Option DeletionJob → Prop
  | same {q : Ask} : Asked db w id q (db.jobs.get id)
  | renewed {token : ℕ} {j : DeletionJob} (get : db.jobs.get id = some j)
      (held : j.leaseToken = some token) :
      Asked db w id (.renewLease id token)
        (some { j with leaseExpiresAt := some (db.now + leaseSeconds * 1000) })
  | patched {token : ℕ} {j : DeletionJob} {patch : Patch} (get : db.jobs.get id = some j)
      (held : j.leaseToken = some token) :
      Asked db w id (.persist id token patch) (some (patch.apply j))
  | purged {actor workspaceId : Id} {j : DeletionJob} (get : db.jobs.get id = some j)
      (workspace : j.workspaceId = workspaceId)
      (present : (db.workspaces.get workspaceId).isSome) (isAdmin : w.isAdmin)
      (purge : w.purge = none) (delivered : w.delivery ≠ .refused) :
      Asked db w id (.deleteWorkspace actor workspaceId) none

variable {db : Db} {w : World} {id : Id} {token : ℕ} {s : System} {a : Act} {k : ℕ}
  {worker : Worker}

theorem holds_iff : db.holds id token ↔
    ∃ j, db.jobs.get id = some j ∧ j.leaseToken = some token := by
  simp [Db.holds, Option.any_eq_true]

theorem asked_of_answer (db : Db) (w : World) (id : Id) (q : Ask) :
    Asked db w id q ((answerAsk db w q).1.jobs.get id) := by
  cases q with
  | renewLease id' token =>
    have hrow : Asked db w id (.renewLease id' token)
        ((renewWorkspaceDeletionLease id' token leaseSeconds db).1.jobs.get id) := by
      unfold renewWorkspaceDeletionLease
      split
      · rename_i hholds
        obtain ⟨j, hj, ht⟩ := holds_iff.mp hholds
        by_cases he : id = id'
        · subst he
          simp only [Table.get_update_self, hj, Option.map_some]
          exact .renewed hj ht
        · simp only [Table.get_update_ne _ _ he]
          exact .same
      · exact .same
    unfold answerAsk
    cases hd : w.delivery with
    | refused => exact .same
    | _ => exact hrow
  | persist id' token patch =>
    have hrow : Asked db w id (.persist id' token patch)
        ((updateFenced id' token patch db).1.jobs.get id) := by
      unfold updateFenced
      split
      · rename_i hholds
        obtain ⟨j, hj, ht⟩ := holds_iff.mp hholds
        by_cases he : id = id'
        · subst he
          simp only [Table.get_update_self, hj, Option.map_some]
          exact .patched hj ht
        · simp only [Table.get_update_ne _ _ he]
          exact .same
      · exact .same
    unfold answerAsk
    cases hd : w.delivery with
    | refused => exact .same
    | _ => exact hrow
  | deleteWorkspace actor workspaceId =>
    have hrow : w.delivery ≠ .refused → Asked db w id (.deleteWorkspace actor workspaceId)
        ((adminDeleteWorkspace w.isAdmin w.purge workspaceId db).1.jobs.get id) := by
      intro hdelivered
      unfold adminDeleteWorkspace
      split
      · exact .same
      · rename_i hadmin
        split
        · exact .same
        · rename_i hpresent
          cases hpurge : w.purge with
          | some error => exact .same
          | none =>
            have hsame : Asked db w id (.deleteWorkspace actor workspaceId) (db.jobs.get id) := .same
            simp only [adminPurgeWorkspaces, Table.get_keep]
            cases hj : db.jobs.get id with
            | none => simpa [hj] using hsame
            | some j =>
              by_cases hws : j.workspaceId = workspaceId
              · have hpurged : Asked db w id (.deleteWorkspace actor workspaceId) none :=
                  .purged hj hws (Option.isSome_iff_ne_none.mpr (by simpa using hpresent))
                    (by simpa using hadmin) hpurge hdelivered
                simpa [Option.filter, hws] using hpurged
              · simpa [Option.filter, hj, hws] using hsame
    unfold answerAsk
    cases hd : w.delivery with
    | refused => exact .same
    | _ => exact hrow (by simp [hd])
  | _ => exact .same

inductive RowStep (s : System) (id : Id) : Act → Option DeletionJob → Prop
  | same {a : Act} : RowStep s id a (s.db.jobs.get id)
  | enqueued {workspaceId actor : Id} (active : s.db.workspaces.get workspaceId = some .active) :
      RowStep s id (.enqueueWorkspaceDeletion workspaceId actor)
        (some { workspaceId, requestedBy := actor, requestedAt := s.db.now })
  | retried {j : DeletionJob} (get : s.db.jobs.get id = some j) (failed : j.status = .failed) :
      RowStep s id (.retryWorkspaceDeletion id) (some { j with
        status := .storageCleanup, nextRetryAt := none, lockedBy := none, leaseExpiresAt := none
        errorMessage := none })
  | claimed {k : ℕ} {workerId : String} {skipped : List Id} {delivery : Delivery}
      {j : DeletionJob} (get : s.db.jobs.get id = some j) :
      RowStep s id (.claim k workerId skipped delivery)
        (some (j.claimed s.db.nextToken workerId leaseSeconds s.db.now))
  | asked {k : ℕ} {w : World} {worker : Worker} {q : Ask}
      {next : Reply q → Dialogue Ask Reply (Except Thrown Unit)} {r : Option DeletionJob}
      (get : s.workers.get k = some worker) (task : worker.task = .ask q next)
      (asked : Asked s.db w id q r) : RowStep s id (.work k w) r

structure Aside (s s' : System) : Prop where
  jobs : s'.db.jobs = s.db.jobs
  workspaces : s'.db.workspaces = s.db.workspaces
  workers : s'.workers = s.workers
  nextId : s.db.nextId ≤ s'.db.nextId
  nextToken : s.db.nextToken ≤ s'.db.nextToken

theorem aside_self (s : System) : Aside s s := ⟨rfl, rfl, rfl, le_refl _, le_refl _⟩

theorem aside_acquire (s : System) (wr : Writer) (w : WriterWorld) :
    Aside s { s with db := (acquireOwnerWriteLease wr.ownerKind wr.ownerId w.purpose w.leaseSeconds
      w.waited s.db).1 } := by
  unfold acquireOwnerWriteLease
  dsimp only
  split
  · exact ⟨rfl, rfl, rfl, Nat.le_succ _, Nat.le_succ _⟩
  · exact ⟨rfl, rfl, rfl, le_refl _, le_refl _⟩

theorem aside_renew (s : System) (lease : Id) (token leaseSeconds : ℕ) :
    Aside s { s with db := (renewOwnerWriteLease lease token leaseSeconds s.db).1 } := by
  unfold renewOwnerWriteLease
  split <;> exact ⟨rfl, rfl, rfl, le_refl _, le_refl _⟩

theorem aside_answerWriter (s : System) (wr : Writer) (w : WriterWorld) (q : WriterAsk) :
    Aside s (answerWriter s wr w q).1 := by
  cases q with
  | acquire =>
    unfold answerWriter
    cases w.delivery with
    | refused => exact aside_self s
    | _ => exact aside_acquire s wr w
  | renew =>
    unfold answerWriter
    dsimp only
    split
    · exact aside_renew s _ _ _
    · exact aside_renew s _ _ _
    · exact aside_self s
  | put =>
    unfold answerWriter
    dsimp only
    split <;> exact ⟨rfl, rfl, rfl, le_refl _, le_refl _⟩
  | response write =>
    unfold answerWriter
    dsimp only
    split <;> exact ⟨rfl, rfl, rfl, le_refl _, le_refl _⟩
  | release =>
    unfold answerWriter
    dsimp only
    split <;> exact ⟨rfl, rfl, rfl, le_refl _, le_refl _⟩
  | _ => exact aside_self s

def Act.elsewhere : Act → Prop
  | .elapse _ | .createProfile | .enqueueUserDeletion .. | .endUserDeletion _ | .claimUser ..
  | .checkUser .. | .listUser _ | .stopUser _ | .beginWrite .. | .write .. | .heartbeat ..
  | .stopWriter _ | .land _ => True
  | _ => False

theorem aside_act (s : System) (ha : a.elsewhere) : Aside s (act s a) := by
  cases a with
  | elapse _ | listUser _ | stopUser _ | stopWriter _ | land _ =>
    exact ⟨rfl, rfl, rfl, le_refl _, le_refl _⟩
  | endUserDeletion id =>
    simp only [act, endUserDeletion]
    split <;> exact ⟨rfl, rfl, rfl, le_refl _, le_refl _⟩
  | claimUser k id =>
    simp only [act]
    split
    · split <;> exact ⟨rfl, rfl, rfl, le_refl _, le_refl _⟩
    · exact aside_self s
  | checkUser k delivery =>
    simp only [act, checkUser]
    split
    · exact aside_self s
    · split <;> exact ⟨rfl, rfl, rfl, le_refl _, le_refl _⟩
  | createProfile => exact ⟨rfl, rfl, rfl, Nat.le_succ _, le_refl _⟩
  | enqueueUserDeletion userId actor =>
    simp only [act, enqueueUserDeletion]
    split
    · exact ⟨rfl, rfl, rfl, le_refl _, le_refl _⟩
    · exact ⟨rfl, rfl, rfl, Nat.le_succ _, le_refl _⟩
  | beginWrite k ownerKind ownerId kind =>
    simp only [act]
    split <;> exact ⟨rfl, rfl, rfl, le_refl _, le_refl _⟩
  | write k w =>
    simp only [act]
    split
    · exact aside_self s
    · rename_i wr _
      unfold writeOnce
      split
      · exact ⟨rfl, rfl, rfl, le_refl _, le_refl _⟩
      · have h := aside_answerWriter s wr w
        rename_i q next _
        exact ⟨(h q).jobs, (h q).workspaces, (h q).workers, (h q).nextId, (h q).nextToken⟩
  | heartbeat k delivery leaseSeconds =>
    simp only [act]
    split
    · exact aside_self s
    · rename_i wr _
      have h := aside_answerWriter s wr { delivery, leaseSeconds } .renew
      exact ⟨h.jobs, h.workspaces, h.workers, h.nextId, h.nextToken⟩
  | _ => exact ha.elim

theorem claim_spec {workerId : String} {lease : Int} {skipped : List Id} {r : Id × DeletionJob}
    (h : (claimWorkspaceDeletionJob workerId lease skipped db).2 = some r) :
    ∃ j, db.jobs.get r.1 = some j ∧ r.2 = j.claimed db.nextToken workerId lease db.now ∧
      (claimWorkspaceDeletionJob workerId lease skipped db).1 =
        { db with jobs := db.jobs.put r.1 r.2, nextToken := db.nextToken + 1 } := by
  unfold claimWorkspaceDeletionJob at h ⊢
  split at h
  · cases h
  · rename_i id j hnext
    cases h
    refine ⟨j, ?_, rfl, ?_⟩
    · have hmem := List.mem_of_mem_head? (show _ ∈ (List.head? _) from hnext)
      rw [List.mem_insertionSort, List.mem_filter] at hmem
      exact Table.get_eq_some_iff_mem.mpr hmem.1
    · simp

theorem rowStep_aside (h : Aside s (act s a)) : RowStep s id a ((act s a).db.jobs.get id) := by
  rw [h.jobs]
  exact .same

theorem rowStep (s : System) (a : Act) (id : Id) : RowStep s id a ((act s a).db.jobs.get id) := by
  cases a with
  | enqueueWorkspaceDeletion workspaceId actor =>
    simp only [act, enqueueWorkspaceDeletion]
    split
    · rename_i hactive
      by_cases he : id = s.db.nextId
      · subst he
        simp only [Table.get_put_self]
        exact .enqueued hactive
      · simp only [Table.get_put_ne _ _ he]
        exact .same
    · exact .same
  | retryWorkspaceDeletion id' =>
    simp only [act, retryWorkspaceDeletionJob]
    by_cases he : id = id'
    · subst he
      have hsame : RowStep s id (.retryWorkspaceDeletion id) (s.db.jobs.get id) := .same
      rw [Table.get_update_self]
      cases hj : s.db.jobs.get id with
      | none => simpa [hj] using hsame
      | some j =>
        rw [Option.map_some]
        split
        · rename_i hfailed
          exact .retried hj hfailed
        · rwa [hj] at hsame
    · rw [Table.get_update_ne _ _ he]
      exact .same
  | claim k workerId skipped delivery =>
    simp only [act]
    split
    · exact .same
    · split
      · rename_i db hclaim
        have hdb : db = s.db := by
          unfold claimWorkspaceDeletionJob at hclaim
          split at hclaim
          · cases hclaim
            rfl
          · cases hclaim
        rw [hdb]
        exact .same
      · rename_i db id' row hclaim
        obtain ⟨j, hj, hrow, hdb⟩ := claim_spec (congrArg Prod.snd hclaim)
        rw [hclaim] at hdb
        dsimp only at hj hrow hdb
        have hput : RowStep s id (.claim k workerId skipped delivery) (db.jobs.get id) := by
          rw [hdb]
          by_cases he : id = id'
          · subst he
            simp only [Table.get_put_self, hrow]
            exact .claimed hj
          · simp only [Table.get_put_ne _ _ he]
            exact .same
        split
        · exact hput
        · exact hput
  | work k w =>
    simp only [act]
    split
    · exact .same
    · rename_i worker hk
      unfold workOnce
      split
      · exact .same
      · rename_i q next htask
        exact .asked hk htask (asked_of_answer s.db w id q)
  | createWorkspace | stopWorker k => exact .same
  | _ => exact rowStep_aside (aside_act s trivial)

structure Ages (db db' : Db) : Prop where
  nextId : db.nextId ≤ db'.nextId
  nextToken : db.nextToken ≤ db'.nextToken
  workspaces : ∀ workspaceId, (db'.workspaces.get workspaceId).isSome →
    (db.workspaces.get workspaceId).isSome ∨ workspaceId = db.nextId ∧ db.nextId < db'.nextId
  active : ∀ workspaceId, db'.workspaces.get workspaceId = some .active →
    db.workspaces.get workspaceId = some .active ∨ workspaceId = db.nextId

theorem ages_self (db : Db) : Ages db db :=
  ⟨le_refl _, le_refl _, fun _ h => .inl h, fun _ h => .inl h⟩

theorem Aside.ages {s' : System} (h : Aside s s') : Ages s.db s'.db :=
  ⟨h.nextId, h.nextToken, fun _ hw => .inl (h.workspaces ▸ hw), fun _ hw => .inl (h.workspaces ▸ hw)⟩

theorem ages_enqueue (db : Db) (workspaceId actor : Id) :
    Ages db (enqueueWorkspaceDeletion workspaceId actor db) := by
  unfold enqueueWorkspaceDeletion
  split
  · rename_i hactive
    refine ⟨Nat.le_succ _, le_refl _, fun u hu => .inl ?_, fun u hu => .inl ?_⟩
    · by_cases he : u = workspaceId
      · simp [he, hactive]
      · rwa [Table.get_put_ne _ _ he] at hu
    · by_cases he : u = workspaceId
      · rw [he]
        exact hactive
      · rwa [Table.get_put_ne _ _ he] at hu
  · exact ages_self db

theorem ages_claim (db : Db) (workerId : String) (lease : Int) (skipped : List Id) :
    Ages db (claimWorkspaceDeletionJob workerId lease skipped db).1 := by
  unfold claimWorkspaceDeletionJob
  split
  · exact ages_self db
  · exact ⟨le_refl _, Nat.le_succ _, fun _ h => .inl h, fun _ h => .inl h⟩

theorem ages_answer (db : Db) (w : World) (q : Ask) : Ages db (answerAsk db w q).1 := by
  cases q with
  | renewLease id token =>
    have hages : Ages db (renewWorkspaceDeletionLease id token leaseSeconds db).1 := by
      unfold renewWorkspaceDeletionLease
      split <;> exact ⟨le_refl _, le_refl _, fun _ h => .inl h, fun _ h => .inl h⟩
    simp only [answerAsk]
    cases w.delivery with
    | refused => exact ages_self db
    | _ => exact hages
  | persist id token patch =>
    have hages : Ages db (updateFenced id token patch db).1 := by
      unfold updateFenced
      split <;> exact ⟨le_refl _, le_refl _, fun _ h => .inl h, fun _ h => .inl h⟩
    simp only [answerAsk]
    cases w.delivery with
    | refused => exact ages_self db
    | _ => exact hages
  | deleteWorkspace actor workspaceId =>
    have hages : Ages db (adminDeleteWorkspace w.isAdmin w.purge workspaceId db).1 := by
      unfold adminDeleteWorkspace
      split
      · exact ages_self db
      · split
        · exact ages_self db
        · split
          · exact ages_self db
          · refine ⟨le_refl _, le_refl _, fun u hu => .inl ?_, fun u hu => .inl ?_⟩ <;>
              simp only [adminPurgeWorkspaces, Table.get_erase] at hu <;> split at hu
            · cases hu
            · exact hu
            · cases hu
            · exact hu
    simp only [answerAsk]
    cases w.delivery with
    | refused => exact ages_self db
    | _ => exact hages
  | _ => exact ages_self db

theorem ages_act (s : System) (a : Act) : Ages s.db (act s a).db := by
  cases a with
  | createWorkspace =>
    refine ⟨Nat.le_succ _, le_refl _, fun u hu => ?_, fun u hu => ?_⟩ <;>
      by_cases he : u = s.db.nextId
    · exact .inr ⟨he, Nat.lt_succ_self _⟩
    · simp only [act, Table.get_put_ne _ _ he] at hu
      exact .inl hu
    · exact .inr he
    · simp only [act, Table.get_put_ne _ _ he] at hu
      exact .inl hu
  | enqueueWorkspaceDeletion workspaceId actor => exact ages_enqueue s.db workspaceId actor
  | retryWorkspaceDeletion id | stopWorker k =>
    exact ⟨le_refl _, le_refl _, fun _ h => .inl h, fun _ h => .inl h⟩
  | claim k workerId skipped delivery =>
    have hages := ages_claim s.db workerId leaseSeconds skipped
    simp only [act]
    split
    · exact ages_self _
    · split
      · rename_i hclaim
        rwa [hclaim] at hages
      · rename_i hclaim
        rw [hclaim] at hages
        split <;> exact hages
  | work k w =>
    simp only [act]
    split
    · exact ages_self _
    · unfold workOnce
      split
      · exact ages_self _
      · rename_i q next _
        exact ages_answer s.db w q
  | _ => exact Aside.ages (aside_act s trivial)

theorem Ages.absent {db db' : Db} (h : Ages db db') {workspaceId : Id}
    (hlt : workspaceId < db.nextId) (hnone : db.workspaces.get workspaceId = none) :
    db'.workspaces.get workspaceId = none := by
  rw [← Option.not_isSome_iff_eq_none] at hnone ⊢
  intro hsome
  rcases h.workspaces workspaceId hsome with hbefore | ⟨rfl, -⟩
  · exact hnone hbefore
  · exact lt_irrefl _ hlt

def claimOf (s : System) (workerId : String) (id : Id) (j : DeletionJob) : ClaimedJob :=
  let row := j.claimed s.db.nextToken workerId leaseSeconds s.db.now
  ⟨id, s.db.nextToken, { row with storageScopes := reloaded row.storageScopes }⟩

inductive WorkerStep (s : System) (k : ℕ) : Act → Worker → Prop
  | other {a : Act} {worker : Worker} (get : s.workers.get k = some worker)
      (other : ∀ w, a ≠ .work k w) : WorkerStep s k a worker
  | answered {w : World} {worker : Worker} {q : Ask}
      {next : Reply q → Dialogue Ask Reply (Except Thrown Unit)}
      (get : s.workers.get k = some worker) (task : worker.task = .ask q next) :
      WorkerStep s k (.work k w) { worker with
        told := heard worker.told q (answerAsk s.db w q).2
        task := next (answerAsk s.db w q).2 }
  | claimed {workerId : String} {skipped : List Id} {delivery : Delivery} {id : Id}
      {j : DeletionJob} (free : s.workers.get k = none) (get : s.db.jobs.get id = some j)
      (row : (act s (.claim k workerId skipped delivery)).db.jobs.get id =
        some (j.claimed s.db.nextToken workerId leaseSeconds s.db.now))
      (nextToken : (act s (.claim k workerId skipped delivery)).db.nextToken = s.db.nextToken + 1) :
      WorkerStep s k (.claim k workerId skipped delivery)
        { job := claimOf s workerId id j, task := (workOn (claimOf s workerId id j)).run }

theorem workerStep_aside (h : Aside s (act s a)) (ha : ∀ k w, a ≠ .work k w)
    (hk : (act s a).workers.get k = some worker) : WorkerStep s k a worker :=
  .other (h.workers ▸ hk) (ha k)

theorem workerStep (hk : (act s a).workers.get k = some worker) : WorkerStep s k a worker := by
  cases a with
  | claim k' workerId skipped delivery =>
    simp only [act] at hk
    split at hk
    · exact .other hk (by simp)
    · rename_i hfree
      split at hk
      · exact .other hk (by simp)
      · rename_i db id row hclaim
        obtain ⟨j, hj, hrow, hdb⟩ := claim_spec (congrArg Prod.snd hclaim)
        rw [hclaim] at hdb
        dsimp only at hj hrow hdb
        split at hk
        · exact .other hk (by simp)
        · rename_i hdelivery
          by_cases he : k = k'
          · subst he
            have hact : (act s (.claim k workerId skipped delivery)).db = db := by
              simp only [act, if_neg hfree, hclaim, if_neg hdelivery]
            rw [Table.get_put_self, hrow] at hk
            cases hk
            refine .claimed (by simpa using (not_or.mp hfree).1) hj ?_ ?_
            · rw [hact, hdb, Table.get_put_self, hrow]
            · rw [hact, hdb]
          · rw [Table.get_put_ne _ _ he] at hk
            exact .other hk (by simp)
  | work k' w =>
    simp only [act] at hk
    split at hk
    · rename_i hnone
      refine .other hk ?_
      rintro w' ⟨⟩
      rw [hnone] at hk
      cases hk
    · rename_i worker' hk'
      unfold workOnce at hk
      split at hk
      · by_cases he : k = k'
        · simp [he, Table.get_erase] at hk
        · simp only [Table.get_erase, if_neg he] at hk
          refine .other hk ?_
          rintro w' ⟨⟩
          exact he rfl
      · rename_i q next htask
        by_cases he : k = k'
        · subst he
          rw [Table.get_put_self] at hk
          cases hk
          exact .answered hk' htask
        · rw [Table.get_put_ne _ _ he] at hk
          refine .other hk ?_
          rintro w' ⟨⟩
          exact he rfl
  | stopWorker k' =>
    simp only [act, Table.get_erase] at hk
    split at hk
    · cases hk
    · exact .other hk (by simp)
  | createWorkspace | enqueueWorkspaceDeletion _ _ | retryWorkspaceDeletion _ =>
    exact .other hk (by simp)
  | _ => exact workerStep_aside (aside_act s trivial) (by simp) hk

end Kindred.Deletion
