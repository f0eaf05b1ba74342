import Kindred.Deletion.Steps

/-!
Fencing of the deletion jobs: a worker writes to a job only while the row has
the token of its claim. The job goes to its database once all scopes are
settled, and it is finished when the workspace is gone.
-/

namespace Kindred.Deletion
open Lib (Table Dialogue run Meets run_keeps)
open Lib.Dialogue (Setting Obeys upon)

def settledIn (state : ScopeCleanupState) (scope : String) : Bool :=
  (state.get scope).any fun p => p.settled &&
    (!truthy p.dedupOf ||
      (state.get (p.dedupOf.getD "")).any fun q => q.settled && !truthy q.dedupOf)

def Fenced (s : System) (a : Act) : Prop :=
  ∀ k w, a = .work k w → ∀ id, (act s a).db.jobs.get id ≠ s.db.jobs.get id →
    ∃ worker, s.workers.get k = some worker ∧ worker.job.id = id ∧ s.db.holds id worker.job.token

def SettledFirst (s : System) (a : Act) : Prop :=
  ∀ id j', (act s a).db.jobs.get id = some j' → j'.status = .dbCleanup →
    (∀ j, s.db.jobs.get id = some j → j.status ≠ .dbCleanup) →
    ∃ k w worker names, a = .work k w ∧ s.workers.get k = some worker ∧ worker.job.id = id ∧
      s.db.holds id worker.job.token ∧ worker.told = some names ∧
      ∀ name ∈ names, settledIn j'.storageScopes name

def Finished (db : Db) : Prop :=
  ∀ id j, db.jobs.get id = some j → j.status = .completed → db.workspaces.get j.workspaceId = none

structure Safe (s : System) (a : Act) : Prop where
  fenced : Fenced s a
  settled : SettledFirst s a
  finished : Finished (act s a).db

def listed (names : List String) (state : ScopeCleanupState) : Bool :=
  state.rows.all fun r => r.2.settled || r.1 ∈ names

def carefulAsk (db : Db) (job : ClaimedJob) (w : World) : Ask → Bool
  | .scopes _ => match w.vendors with
    | .ok vendors => !db.holds job.id job.token ||
      (db.jobs.get job.id).all fun j => listed (scopeNames vendors) j.storageScopes
    | .error _ => true
  | .deleteWorkspace _ workspaceId =>
    w.delivery = .refused || !w.isAdmin || w.purge.isSome ||
      (db.workspaces.get workspaceId).isNone ||
      db.jobs.rows.all fun r => r.2.workspaceId ≠ workspaceId ||
        r.1 = job.id && r.2.leaseToken = some job.token
  | .workspaceExists workspaceId =>
    w.delivery = .answered || (db.workspaces.get workspaceId).isNone
  | _ => true

/-- The scopes that are told include those that are begun, a purge that takes effect is the
holder's, and that a workspace exists is not overlooked. -/
def careful (s : System) : Act → Bool
  | .work k w => match s.workers.get k with
    | none => true
    | some worker => match worker.task with
      | .done _ => true
      | .ask q _ => carefulAsk s.db worker.job w q
  | _ => true

structure Copies (state : ScopeCleanupState) : Prop where
  named : state.get "" = none
  copied : ∀ scope p, state.get scope = some p → truthy p.dedupOf →
    ∃ q, state.get (p.dedupOf.getD "") = some q ∧ ¬truthy q.dedupOf

structure Touched (scope : String) (state state' : ScopeCleanupState) : Prop where
  others : ∀ u, u ≠ scope → state'.get u = state.get u
  copies : scope ≠ "" → Copies state → Copies state'

variable {state state' state'' : ScopeCleanupState} {scope : String} {p q : ScopeProgress}
  {α β : Type} {post : α → Prop} {names : List String}

theorem Touched.refl (scope : String) (state : ScopeCleanupState) : Touched scope state state :=
  ⟨fun _ _ => rfl, fun _ hc => hc⟩

theorem Touched.trans (h : Touched scope state state') (h' : Touched scope state' state'') :
    Touched scope state state'' :=
  ⟨fun u hu => (h'.others u hu).trans (h.others u hu), fun hs hc => h'.copies hs (h.copies hs hc)⟩

theorem touched_put (state : ScopeCleanupState) (scope : String) (hq : ¬truthy q.dedupOf) :
    Touched scope state (state.put scope q) := by
  refine ⟨fun u hu => Table.get_put_ne _ _ hu, fun hs hc => ⟨?_, fun u r hr hcopy => ?_⟩⟩
  · rw [Table.get_put_ne _ _ hs.symm, hc.named]
  by_cases hu : u = scope
  · subst hu
    rw [Table.get_put_self] at hr
    cases hr
    exact absurd hcopy hq
  · rw [Table.get_put_ne _ _ hu] at hr
    obtain ⟨t, ht, hnot⟩ := hc.copied u r hr hcopy
    by_cases htarget : r.dedupOf.getD "" = scope
    · exact ⟨q, by rw [htarget, Table.get_put_self], hq⟩
    · exact ⟨t, by rw [Table.get_put_ne _ _ htarget, ht], hnot⟩

theorem touched_copy {target : String} (hnew : state.get scope = none)
    (htarget : state.get target = some p) (hp : ¬truthy p.dedupOf) (hq : q.dedupOf = some target) :
    Touched scope state (state.put scope q) := by
  refine ⟨fun u hu => Table.get_put_ne _ _ hu, fun hs hc => ⟨?_, fun u r hr hcopy => ?_⟩⟩
  · rw [Table.get_put_ne _ _ hs.symm, hc.named]
  have hkeep : ∀ v t, state.get v = some t → (state.put scope q).get v = some t := fun v t ht => by
    rw [Table.get_put_ne, ht]
    rintro rfl
    simp [hnew] at ht
  by_cases hu : u = scope
  · subst hu
    rw [Table.get_put_self] at hr
    cases hr
    exact ⟨p, by simpa [hq] using hkeep target p htarget, hp⟩
  · rw [Table.get_put_ne _ _ hu] at hr
    obtain ⟨t, ht, hnot⟩ := hc.copied u r hr hcopy
    exact ⟨t, hkeep _ t ht, hnot⟩

def savesCopies : Setting Query Answer Unit where
  may _ q := ∀ state, q = .persist state → Copies state
  fair _ _ _ := True
  after _ _ _ := ()

def Minds {α : Type} (post : α → Prop) (m : Prog α) : Prop :=
  Obeys savesCopies (upon (fun _ _ => True) fun _ => post) () m.run

theorem Minds.bind {m : Prog α} {f : α → Prog β} {post' : β → Prop} (h : Minds post m)
    (hf : ∀ a, post a → Minds post' (f a)) : Minds post' (m >>= f) :=
  Obeys.bindExcept h fun _ a ha => hf a ha

theorem minds_pure {a : α} (h : post a) : Minds post (pure a) := h

theorem minds_resolve (scope : String) : Minds (fun _ => True) (resolve scope) :=
  ⟨by rintro _ ⟨⟩, fun _ _ => trivial⟩

theorem minds_list (config : StorageConfig) (prefixKey : String) (cursor : Option String) :
    Minds (fun _ => True) (listWithConfig config prefixKey cursor) := by
  refine ⟨by rintro _ ⟨⟩, fun a _ => ?_⟩
  cases a <;> trivial

theorem minds_clock : Minds (fun _ => True) dateNow :=
  ⟨by rintro _ ⟨⟩, fun _ _ => trivial⟩

theorem minds_deleteKeys (ctx : ScopeCleanupContext) (config : StorageConfig) (keys : List String)
    (deleted : ℕ) (lastHeartbeat : Int) :
    Minds (fun _ => True) (deleteKeysWithRetry ctx config keys deleted lastHeartbeat) := by
  have hasks := deleteKeys_asks ctx config keys deleted lastHeartbeat
  refine Obeys.mono (hasks.obeys (I := fun _ => True) trivial ?_ fun _ _ _ _ _ _ => trivial) ?_
  · intro _ q _ hq state hpersist
    simp [hpersist, Query.deletes] at hq
  · rintro _ (_ | _) _ <;> trivial

theorem minds_persist (h : Copies state) : Minds (fun _ => True) (persist state) := by
  refine ⟨?_, fun a _ => ?_⟩
  · rintro _ ⟨⟩
    exact h
  · cases a <;> trivial

def Left (state : ScopeCleanupState) (scope : String) (r : Visit × ScopeCleanupState) : Prop :=
  Touched scope state r.2 ∧
    match r.1 with
    | .next => ∃ p, r.2.get scope = some p ∧ p.settled
    | .stop outcome => outcome ≠ .advance

theorem Left.after {r : Visit × ScopeCleanupState} (h : Left state' scope r)
    (ht : Touched scope state state') : Left state scope r := ⟨ht.trans h.1, h.2⟩

theorem not_copy_of_open (h : ¬p.settled) : ¬truthy p.dedupOf := fun hcopy =>
  h (by simp [ScopeProgress.settled, hcopy])

theorem minds_put {v : Visit} (hs : scope ≠ "") (hc : Copies state) (hq : ¬truthy q.dedupOf)
    (hvisit : match v with | .next => q.settled | .stop outcome => outcome ≠ .advance) :
    Minds (Left state scope) (do
      persist (state.put scope q)
      pure (v, state.put scope q)) := by
  have ht := touched_put state scope hq
  refine (minds_persist (ht.copies hs hc)).bind fun _ _ => minds_pure ⟨ht, ?_⟩
  cases v with
  | next => exact ⟨q, Table.get_put_self .., hvisit⟩
  | stop outcome => exact hvisit

theorem dedupOf_afterFailure (p : ScopeProgress) (message : String) (httpStatus : Option ℕ) :
    (p.afterFailure message httpStatus).dedupOf = p.dedupOf := by
  unfold ScopeProgress.afterFailure
  dsimp only
  split <;> rfl

theorem minds_scopeFailed (hs : scope ≠ "") (hc : Copies state) (hp : ¬truthy p.dedupOf)
    (message : String) (httpStatus : Option ℕ) :
    Minds (Left state scope) (scopeFailed state scope p message httpStatus) := by
  have hq : ¬truthy (p.afterFailure message httpStatus).dedupOf := by
    rwa [dedupOf_afterFailure]
  have ht := touched_put state scope hq
  have hrecord : Minds (fun r => r =
      (decide ((p.afterFailure message httpStatus).status = .skippedUnreachable),
        state.put scope (p.afterFailure message httpStatus)))
      (recordScopeFailure state scope p message httpStatus) :=
    (minds_persist (ht.copies hs hc)).bind fun _ _ => minds_pure rfl
  refine hrecord.bind ?_
  rintro _ rfl
  refine minds_pure ⟨ht, ?_⟩
  by_cases hskip : (p.afterFailure message httpStatus).status = .skippedUnreachable
  · simp only [hskip, decide_true, if_true]
    exact ⟨_, Table.get_put_self .., by simp [ScopeProgress.settled, hskip]⟩
  · simp [hskip]

theorem minds_verifyScope (ctx : ScopeCleanupContext) (config : StorageConfig) (hs : scope ≠ "")
    (hc : Copies state) (hp : ¬truthy p.dedupOf) (hdone : p.status = .done) :
    Minds (Left state scope) (verifyScope ctx state scope p config) := by
  unfold verifyScope
  split
  · exact minds_pure ⟨.refl .., by simp⟩
  · refine (minds_list config _ none).bind fun listing _ => ?_
    split
    · exact minds_scopeFailed hs hc hp _ _
    · dsimp only
      split
      · exact minds_put (v := .next) hs hc hp (by simp [ScopeProgress.settled, hdone])
      · refine minds_clock.bind fun startedAt _ => ?_
        refine (minds_deleteKeys ctx config _ _ _).bind fun delResult _ => ?_
        split
        · exact minds_pure ⟨touched_put state scope (by exact hp), by simp⟩
        · split
          · exact minds_scopeFailed hs hc (by exact hp) _ _
          · exact minds_put (v := .stop .progress) hs hc hp (by simp)

theorem minds_cleanScope (ctx : ScopeCleanupContext) (config : StorageConfig) (hs : scope ≠ "")
    (hc : Copies state) (hp : ¬truthy p.dedupOf) :
    Minds (Left state scope) (cleanScope ctx state scope p config) := by
  refine (minds_list config _ p.cursor).bind fun listing _ => ?_
  split
  · exact minds_scopeFailed hs hc hp _ _
  · refine minds_clock.bind fun startedAt _ => ?_
    refine (minds_deleteKeys ctx config _ _ _).bind fun delResult _ => ?_
    split
    · exact minds_pure ⟨touched_put state scope (by exact hp), by simp⟩
    · split
      · exact minds_scopeFailed hs hc (by exact hp) _ _
      · exact minds_put (v := .stop .progress) hs hc hp (by simp)

theorem minds_visitScope (ctx : ScopeCleanupContext) (hs : scope ≠ "") (hc : Copies state)
    (hopen : ∀ p, state.get scope = some p → ¬p.settled) :
    Minds (Left state scope) (visitScope ctx state scope) := by
  refine (minds_resolve scope).bind fun resolution _ => ?_
  have hstop : ∀ message, Minds (Left state scope) (pure (.stop (.error message), state)) :=
    fun message => minds_pure ⟨.refl .., by simp⟩
  rcases resolution with e | (config | reason)
  · exact hstop _
  · dsimp only
    split
    · rename_i existing hget
      have hp := not_copy_of_open (hopen _ hget)
      split
      · rename_i hverify
        exact minds_verifyScope ctx config hs hc hp hverify.1
      · split
        · exact hstop _
        · exact minds_cleanScope ctx config hs hc hp
    · rename_i hnew
      split
      · rename_i target htarget
        obtain ⟨src, hsrc, -, -, hcopy⟩ := find_done htarget
        have ht (q : ScopeProgress) (hq : q.dedupOf = some target) :
            Touched scope state (state.put scope q) := touched_copy hnew hsrc hcopy hq
        refine (minds_persist ((ht _ rfl).copies hs hc)).bind fun _ _ => minds_pure ⟨ht _ rfl, ?_⟩
        have htarget : target ≠ "" := by
          rintro rfl
          simp [hc.named] at hsrc
        exact ⟨_, Table.get_put_self .., by simp [ScopeProgress.settled, truthy, htarget]⟩
      · have ht := touched_put state scope
          (q := { status := .inProgress, fingerprint := some (storageConfigFingerprint config) })
          (by simp [truthy])
        refine Obeys.mono (minds_cleanScope ctx config hs (ht.copies hs hc) (by simp [truthy])) ?_
        rintro _ (_ | r) hr
        · trivial
        · exact hr.after ht
  · dsimp only
    split
    · exact minds_put (v := .next) hs hc (by simp [truthy]) (by simp [ScopeProgress.settled])
    · exact hstop _

theorem settledIn_of_all (hc : Copies state)
    (hall : ∀ u ∈ names, ∃ p, state.get u = some p ∧ p.settled)
    (hlisted : ∀ u p, state.get u = some p → ¬p.settled → u ∈ names) {name : String}
    (hname : name ∈ names) : settledIn state name := by
  obtain ⟨p, hp, hsettled⟩ := hall name hname
  simp only [settledIn, hp, Option.any_some, hsettled, Bool.true_and, Bool.or_eq_true,
    Bool.not_eq_true', Option.any_eq_true]
  by_cases hcopy : truthy p.dedupOf
  · obtain ⟨q, hq, hnot⟩ := hc.copied name p hp hcopy
    refine .inr ⟨q, hq, ?_⟩
    have hqs : q.settled := by
      by_contra hopen
      obtain ⟨q', hq', hs⟩ := hall _ (hlisted _ q hq hopen)
      rw [hq] at hq'
      cases hq'
      exact hopen hs
    simp [hqs, hnot]
  · simp [hcopy]

def Ends (names : List String) (L : Prop) (r : Outcome × ScopeCleanupState) : Prop :=
  Copies r.2 ∧ (r.1 = .advance → L → ∀ name ∈ names, settledIn r.2 name)

theorem minds_visit (ctx : ScopeCleanupContext) {L : Prop} (hnames : ∀ u ∈ names, u ≠ "")
    (front rest : List String) (hsplit : names = front ++ rest) (hc : Copies state)
    (hfront : ∀ u ∈ front, ∃ p, state.get u = some p ∧ p.settled)
    (hlisted : L → ∀ u p, state.get u = some p → ¬p.settled → u ∈ names) :
    Minds (Ends names L) (visit ctx rest state) := by
  induction rest generalizing front state with
  | nil =>
    refine minds_pure ⟨hc, fun _ hL name hname => ?_⟩
    rw [List.append_nil] at hsplit
    subst hsplit
    exact settledIn_of_all hc hfront (hlisted hL) hname
  | cons scope rest ih =>
    have hmem : scope ∈ names := by simp [hsplit]
    have hsplit' : names = (front ++ [scope]) ++ rest := by simp [hsplit]
    unfold visit
    split
    · rename_i hsettled
      refine ih (front ++ [scope]) hsplit' hc (fun u hu => ?_) hlisted
      rcases List.mem_append.mp hu with hu | hu
      · exact hfront u hu
      · rw [List.mem_singleton.mp hu]
        simpa [Option.any_eq_true] using hsettled
    · rename_i hopen
      have hopen' : ∀ p, state.get scope = some p → ¬p.settled := fun p hp hs =>
        hopen (by simp [hp, hs])
      refine (minds_visitScope ctx (hnames scope hmem) hc hopen').bind ?_
      rintro ⟨v, state'⟩ ⟨ht, hvisit⟩
      have hc' := ht.copies (hnames scope hmem) hc
      cases v with
      | stop outcome => exact minds_pure ⟨hc', fun hadvance => absurd hadvance hvisit⟩
      | next =>
        refine ih (front ++ [scope]) hsplit' hc' (fun u hu => ?_) fun hL u p hp hu => ?_
        · rcases List.mem_append.mp hu with hu | hu
          · obtain ⟨p, hp, hs⟩ := hfront u hu
            have hne : u ≠ scope := by
              rintro rfl
              exact hopen' p hp hs
            exact ⟨p, (ht.others u hne).trans hp, hs⟩
          · rw [List.mem_singleton.mp hu]
            exact hvisit
        · by_cases hne : u = scope
          · rw [hne]
            exact hmem
          · exact hlisted hL u p ((ht.others u hne).symm.trans hp) hu

structure Known where
  told : Option (List String) := none
  gone : Bool := false

def Complete (names : List String) (job : ClaimedJob) : Prop :=
  ∀ u p, job.row.storageScopes.get u = some p → ¬p.settled → u ∈ names

structure MayPersist (job : ClaimedJob) (known : Known) (patch : Patch) : Prop where
  scopes : ∀ state, patch.storageScopes = some state →
    Copies state ∧ (known.told = none → state = job.row.storageScopes)
  advance : patch.status = some .dbCleanup → ∃ names state, known.told = some names ∧
    patch.storageScopes = some state ∧
    (Complete names job → ∀ name ∈ names, settledIn state name)
  complete : patch.status = some .completed → known.gone

def MayAsk (job : ClaimedJob) (known : Known) : Ask → Prop
  | .persist id token patch => id = job.id ∧ token = job.token ∧ MayPersist job known patch
  | .renewLease id token => id = job.id ∧ token = job.token
  | .scopes _ => known.told = none
  | .deleteWorkspace _ workspaceId | .workspaceExists workspaceId =>
    workspaceId = job.row.workspaceId
  | _ => True

def FairReply : (q : Ask) → Reply q → Prop
  | .scopes _, .ok names => ∀ name ∈ names, name ≠ ""
  | _, _ => True

def learnt (gone : Bool) : (q : Ask) → Reply q → Bool
  | .deleteWorkspace .., error => gone || error.isNone
  | .workspaceExists _, data => gone || !data.getD false
  | _, _ => gone

def working (job : ClaimedJob) : Setting Ask Reply Known where
  may := MayAsk job
  fair _ := FairReply
  after known q a := ⟨heard known.told q a, learnt known.gone q a⟩

def Works {α : Type} (job : ClaimedJob) (post : Known → α → Prop) (known : Known)
    (m : WorkerProg α) : Prop :=
  Obeys (working job) (upon (fun _ _ => True) post) known m.run

variable {job : ClaimedJob} {known : Known} {γ δ : Type} {ends : Known → γ → Prop} {db : Db}
  {w : World} {id : Id} {token k : ℕ} {s : System} {a : Act} {worker : Worker} {j j' : DeletionJob}
  {q : Ask} {next : Reply q → Dialogue Ask Reply (Except Thrown Unit)}

theorem works_pure {a : γ} (h : ends known a) : Works job ends known (pure a) := h

theorem Works.bind {m : WorkerProg γ} {f : γ → WorkerProg δ} {ends' : Known → δ → Prop}
    (h : Works job ends known m) (hf : ∀ known a, ends known a → Works job ends' known (f a)) :
    Works job ends' known (m >>= f) :=
  Obeys.bindExcept h hf

theorem works_persist {patch : Patch} (h : MayPersist job known patch) :
    Works job (fun k _ => k = known) known (persistFenced job patch) := by
  refine ⟨⟨rfl, rfl, h⟩, fun a _ => ?_⟩
  cases a with
  | saved => rfl
  | refused why => trivial
  | lost why => trivial

theorem mayPersist_plain {patch : Patch} (hscopes : patch.storageScopes = none)
    (hadvance : patch.status ≠ some .dbCleanup) (hcomplete : patch.status ≠ some .completed) :
    MayPersist job known patch :=
  ⟨by simp [hscopes], fun h => absurd h hadvance, fun h => absurd h hcomplete⟩

theorem works_retry (hc : Copies state) (hsame : known.told = none → state = job.row.storageScopes)
    (errorMessage : String) :
    Works job (fun _ _ => True) known (retryOrFail job state errorMessage) := by
  unfold retryOrFail
  dsimp only
  split
  · refine Obeys.mono (works_persist ⟨?_, by simp, by simp⟩) ?_
    · rintro _ ⟨⟩
      exact ⟨hc, hsame⟩
    · rintro _ (_ | _) _ <;> trivial
  · refine ⟨trivial, fun now _ => ?_⟩
    refine Obeys.mono (works_persist ⟨?_, by simp, by simp⟩) ?_
    · rintro _ ⟨⟩
      exact ⟨hc, hsame⟩
    · rintro _ (_ | _) _ <;> trivial

theorem works_walkAsks (htold : known.told = some names) (q : Query)
    (hq : ∀ state, q = .persist state → Copies state) :
    (walkAsks job q).Obeys (working job) (fun k _ => k.told = some names) known := by
  cases q with
  | heartbeat => exact ⟨⟨rfl, rfl⟩, fun _ _ => htold⟩
  | persist state =>
    refine ⟨⟨rfl, rfl, ?_, by simp, by simp⟩, fun _ _ => htold⟩
    rintro _ ⟨⟩
    exact ⟨hq state rfl, by simp [htold]⟩
  | _ => exact ⟨trivial, fun _ _ => htold⟩

theorem works_walkScopes (htold : known.told = some names) (hnames : ∀ u ∈ names, u ≠ "")
    (hc : Copies job.row.storageScopes) :
    Works job (fun k r => k.told = some names ∧ Ends names (Complete names job) r) known
      (walkScopes job names) := by
  have hvisit := minds_visit (walkContext job names) (L := Complete names job) hnames [] names rfl hc
    (by simp) fun hL => hL
  refine Obeys.mono (Obeys.handle (R := fun _ k => k.told = some names) hvisit htold ?_) ?_
  · intro _ k q hk hq
    exact Obeys.mono (works_walkAsks hk q hq) fun k' _ hk' => ⟨trivial, hk'⟩
  · rintro k (e | r) ⟨_, hk, hr⟩
    · trivial
    · exact ⟨hk, hr⟩

theorem works_release : Works job (fun _ _ => True) known (persistFenced job { release := true }) := by
  refine Obeys.mono (works_persist (mayPersist_plain rfl (by simp) (by simp))) ?_
  rintro _ (_ | _) _ <;> trivial

theorem works_runStorageCleanup (htold : known.told = none) (hc : Copies job.row.storageScopes) :
    Works job (fun _ _ => True) known (runStorageCleanup job) := by
  refine ⟨trivial, fun busy _ => ?_⟩
  cases busy with
  | true => exact works_release
  | false =>
    refine ⟨trivial, fun quiescent _ => ?_⟩
    rcases quiescent with err | (_ | _)
    · exact works_retry hc (fun _ => rfl) _
    · exact works_release
    · refine ⟨htold, fun scopes hfair => ?_⟩
      rcases scopes with err | names
      · exact works_retry hc (fun _ => rfl) _
      · refine Works.bind (works_walkScopes rfl hfair hc) ?_
        rintro k ⟨outcome, state⟩ ⟨hk, hcopies, hends⟩
        have hnot : k.told = none → state = job.row.storageScopes := by simp [hk]
        cases outcome with
        | error message => exact works_retry hcopies hnot message
        | advance =>
          refine Obeys.mono (works_persist ⟨?_, ?_, by simp⟩) ?_
          · rintro _ ⟨⟩
            exact ⟨hcopies, hnot⟩
          · exact fun _ => ⟨names, state, hk, rfl, hends rfl⟩
          · rintro _ (_ | _) _ <;> trivial
        | progress =>
          refine Obeys.mono (works_persist ⟨?_, by simp, by simp⟩) ?_
          · rintro _ ⟨⟩
            exact ⟨hcopies, hnot⟩
          · rintro _ (_ | _) _ <;> trivial

theorem works_back (message : String) :
    Works job (fun _ _ => True) known (do
      persistFenced job
        { status := some .storageCleanup, release := true, errorMessage := some message }
      pure false) :=
  (works_persist (mayPersist_plain rfl (by simp) (by simp))).bind fun _ _ _ => works_pure trivial

theorem works_reassertSafeToPurge :
    Works job (fun _ _ => True) known (reassertSafeToPurge job) := by
  refine ⟨trivial, fun busy _ => ?_⟩
  cases busy with
  | true => exact works_back _
  | false =>
    refine ⟨trivial, fun quiescent _ => ?_⟩
    rcases quiescent with err | (_ | _)
    · exact works_back _
    · exact works_back _
    · exact works_pure trivial

theorem works_cdnCall : Works job (fun k _ => k = known) known cdnCall := by
  refine ⟨trivial, fun a _ => ?_⟩
  cases a with
  | error e => trivial
  | ok a => rfl

theorem works_finishJob (hgone : known.gone) :
    Works job (fun _ _ => True) known (finishJob job) := by
  refine works_cdnCall.bind ?_
  rintro _ _ rfl
  refine ⟨trivial, fun now _ => ?_⟩
  refine Obeys.mono (works_persist ⟨by simp, by simp, fun _ => hgone⟩) ?_
  rintro _ (_ | _) _ <;> trivial

theorem works_workspaceStillExists :
    Works job (fun k still => still = false → k.gone) known
      (workspaceStillExists job.row.workspaceId) :=
  ⟨rfl, fun data _ hgone => by simp [working, learnt, hgone]⟩

theorem works_runDbCleanup (hc : Copies job.row.storageScopes) :
    Works job (fun _ _ => True) known (runDbCleanup job) := by
  refine works_reassertSafeToPurge.bind fun k safe _ => ?_
  split
  · refine works_cdnCall.bind ?_
    rintro _ _ rfl
    refine ⟨rfl, fun error _ => ?_⟩
    cases error with
    | none => exact works_finishJob (by simp [working, learnt])
    | some error =>
      refine works_workspaceStillExists.bind fun k still hgone => ?_
      cases still with
      | true => exact works_retry hc (fun _ => rfl) _
      | false => exact works_finishJob (hgone rfl)
  · exact works_pure trivial

theorem works_workOn (htold : known.told = none) (hc : Copies job.row.storageScopes) :
    Works job (fun _ _ => True) known (workOn job) := by
  unfold workOn
  split
  · exact works_runStorageCleanup htold hc
  · split
    · exact works_runDbCleanup hc
    · exact works_pure trivial

structure WorkerFit (db : Db) (worker : Worker) : Prop where
  token : worker.job.token < db.nextToken
  workspace : worker.job.row.workspaceId < db.nextId
  held : ∀ j, db.jobs.get worker.job.id = some j → j.leaseToken = some worker.job.token →
    j.workspaceId = worker.job.row.workspaceId ∧
      (worker.told = none → ∀ u, j.storageScopes.get u = worker.job.row.storageScopes.get u) ∧
      ∀ names, worker.told = some names → Complete names worker.job
  works : ∃ gone : Bool, (gone → db.workspaces.get worker.job.row.workspaceId = none) ∧
    Obeys (working worker.job) (fun _ _ => True) ⟨worker.told, gone⟩ worker.task

structure JobsFit (s : System) : Prop where
  workspaces : ∀ workspaceId, (s.db.workspaces.get workspaceId).isSome → workspaceId < s.db.nextId
  jobs : ∀ id j, s.db.jobs.get id = some j → j.workspaceId < s.db.nextId ∧ Copies j.storageScopes
  finished : Finished s.db
  workers : ∀ k worker, s.workers.get k = some worker → WorkerFit s.db worker
  alone : ∀ k k' worker worker', s.workers.get k = some worker →
    s.workers.get k' = some worker' → worker.job.token = worker'.job.token → k = k'

theorem JobsFit.mayAsk (h : JobsFit s) (hk : s.workers.get k = some worker)
    (htask : worker.task = .ask q next) :
    ∃ gone : Bool, (gone → s.db.workspaces.get worker.job.row.workspaceId = none) ∧
      MayAsk worker.job ⟨worker.told, gone⟩ q := by
  obtain ⟨gone, hgone, hworks⟩ := (h.workers k worker hk).works
  rw [htask] at hworks
  exact ⟨gone, hgone, hworks.1⟩

/-- A row with a token that was minted before had it before, and only the worker of that token has
changed its records. -/
theorem JobsFit.row_before (h : JobsFit s) {t : ℕ} (hj : (act s a).db.jobs.get id = some j')
    (ht : j'.leaseToken = some t) (hlt : t < s.db.nextToken) :
    ∃ j, s.db.jobs.get id = some j ∧ j.leaseToken = some t ∧ j'.workspaceId = j.workspaceId ∧
      (j'.storageScopes = j.storageScopes ∨
        ∃ k w worker, a = .work k w ∧ s.workers.get k = some worker ∧ worker.job.token = t) := by
  have hstep := rowStep s a id
  rw [hj] at hstep
  generalize hr : some j' = r at hstep
  cases hstep with
  | same => exact ⟨j', hr.symm, ht, rfl, .inl rfl⟩
  | enqueued active =>
    cases hr
    cases ht
  | retried get failed =>
    cases hr
    exact ⟨_, get, ht, rfl, .inl rfl⟩
  | claimed get =>
    cases hr
    cases ht
    exact absurd hlt (lt_irrefl _)
  | asked get task asked =>
    cases asked with
    | same => exact ⟨j', hr.symm, ht, rfl, .inl rfl⟩
    | renewed getJob held =>
      cases hr
      exact ⟨_, getJob, ht, rfl, .inl rfl⟩
    | patched getJob held =>
      cases hr
      obtain ⟨_, -, -, htoken, -⟩ := h.mayAsk get task
      have hsame : some _ = some t := held.symm.trans ht
      refine ⟨_, getJob, ht, rfl, .inr ⟨_, _, _, rfl, get, ?_⟩⟩
      cases hsame
      exact htoken.symm
    | purged _ _ _ _ _ _ => cases hr

theorem JobsFit.worker_other (h : JobsFit s) (hk : s.workers.get k = some worker)
    (hother : ∀ w, a ≠ .work k w) : WorkerFit (act s a).db worker := by
  have hages := ages_act s a
  have hfit := h.workers k worker hk
  obtain ⟨gone, hgone, hworks⟩ := hfit.works
  refine ⟨hfit.token.trans_le hages.nextToken, hfit.workspace.trans_le hages.nextId, ?_,
    gone, fun hg => hages.absent hfit.workspace (hgone hg), hworks⟩
  intro j' hj' ht
  obtain ⟨j, hj, htoken, hworkspace, hscopes⟩ := h.row_before hj' ht hfit.token
  obtain ⟨hsame, huntold, htold⟩ := hfit.held j hj htoken
  refine ⟨hworkspace.trans hsame, fun hnone u => ?_, htold⟩
  rcases hscopes with heq | ⟨k', w, worker', ha, hk', htoken'⟩
  · rw [heq]
    exact huntold hnone u
  · have hkk := h.alone k' k worker' worker hk' hk htoken'
    subst hkk
    exact absurd ha (hother w)

theorem learnt_sound (hcareful : carefulAsk s.db worker.job w q) {gone : Bool}
    (hmay : MayAsk worker.job ⟨worker.told, gone⟩ q)
    (hgone : gone → s.db.workspaces.get worker.job.row.workspaceId = none)
    (hfresh : worker.job.row.workspaceId < s.db.nextId)
    (hlearnt : learnt gone q (answerAsk s.db w q).2) :
    (answerAsk s.db w q).1.workspaces.get worker.job.row.workspaceId = none := by
  have hold := fun hg => (ages_answer s.db w q).absent hfresh (hgone hg)
  cases q with
  | deleteWorkspace actor workspaceId =>
    rcases Bool.or_eq_true_iff.mp hlearnt with hg | hnone
    · exact hold hg
    · have hws : workspaceId = worker.job.row.workspaceId := hmay
      subst hws
      unfold answerAsk adminDeleteWorkspace at hnone ⊢
      cases hd : w.delivery <;> simp only [hd] at hnone ⊢
      · split
        · simp_all
        · split
          · simp_all
          · cases hp : w.purge with
            | some error => simp_all
            | none => simp [adminPurgeWorkspaces, Table.get_erase]
      · cases hnone
      · cases hnone
  | workspaceExists workspaceId =>
    rcases Bool.or_eq_true_iff.mp hlearnt with hg | hnone
    · exact hold hg
    · have hws : workspaceId = worker.job.row.workspaceId := hmay
      subst hws
      simp only [carefulAsk, Bool.or_eq_true, decide_eq_true_eq, Option.isNone_iff_eq_none]
        at hcareful
      rcases hcareful with hanswered | habsent
      · simpa [answerAsk, hanswered] using hnone
      · exact habsent
  | _ => exact hold hlearnt

theorem fair_answer (db : Db) (w : World) (q : Ask) : FairReply q (answerAsk db w q).2 := by
  cases q with
  | scopes workspaceId =>
    simp only [answerAsk]
    cases w.vendors with
    | error e => trivial
    | ok vendors => exact fun name hname => ne_empty_of_mem_scopeNames hname
  | _ => trivial

theorem complete_of_listed {row : DeletionJob} (hlisted : listed names row.storageScopes)
    (hsame : ∀ u, row.storageScopes.get u = worker.job.row.storageScopes.get u) :
    Complete names worker.job := by
  intro u p hp hopen
  rw [← hsame, Table.get_eq_some_iff_mem] at hp
  have hall := List.all_eq_true.mp hlisted _ hp
  simpa [hopen] using hall

/-- The row after an answer, while it still has the worker's token. -/
theorem held_answer (hfit : WorkerFit s.db worker) {gone : Bool}
    (hmay : MayAsk worker.job ⟨worker.told, gone⟩ q) (hcareful : carefulAsk s.db worker.job w q)
    (hj' : (answerAsk s.db w q).1.jobs.get worker.job.id = some j')
    (ht : j'.leaseToken = some worker.job.token) :
    j'.workspaceId = worker.job.row.workspaceId ∧
      (heard worker.told q (answerAsk s.db w q).2 = none →
        ∀ u, j'.storageScopes.get u = worker.job.row.storageScopes.get u) ∧
      ∀ names, heard worker.told q (answerAsk s.db w q).2 = some names →
        Complete names worker.job := by
  have hasked := asked_of_answer s.db w worker.job.id q
  rw [hj'] at hasked
  generalize hr : some j' = r at hasked
  cases hasked with
  | same =>
    obtain ⟨hws, huntold, htold⟩ := hfit.held j' hr.symm ht
    cases q with
    | scopes workspaceId =>
      cases hv : w.vendors with
      | error e => exact ⟨hws, by simpa [answerAsk, hv, heard, Except.map] using huntold,
          by simpa [answerAsk, hv, heard, Except.map] using htold⟩
      | ok vendors =>
        have hholds : s.db.holds worker.job.id worker.job.token :=
          holds_iff.mpr ⟨j', hr.symm, ht⟩
        have hlisted : listed (scopeNames vendors) j'.storageScopes := by
          have hrow : s.db.jobs.get worker.job.id = some j' := hr.symm
          simpa [carefulAsk, hv, hholds, hrow] using hcareful
        refine ⟨hws, by simp [answerAsk, hv, heard, Except.map], fun names hnames => ?_⟩
        have heq : scopeNames vendors = names := by
          simpa [answerAsk, hv, heard, Except.map] using hnames
        exact heq ▸ complete_of_listed hlisted (huntold hmay)
    | _ => exact ⟨hws, huntold, htold⟩
  | renewed get held =>
    cases hr
    have hold := hfit.held _ get ht
    exact hold
  | patched get held =>
    cases hr
    obtain ⟨hws, huntold, htold⟩ := hfit.held _ get ht
    refine ⟨hws, fun hnone u => ?_, htold⟩
    obtain ⟨-, -, hpersist⟩ := hmay
    rename_i j patch
    cases hs : patch.storageScopes with
    | none => simpa [Patch.apply, hs] using huntold hnone u
    | some state => simp [Patch.apply, hs, (hpersist.scopes state hs).2 hnone]
  | purged _ _ _ _ _ _ => cases hr

theorem JobsFit.worker_self (h : JobsFit s) (hk : s.workers.get k = some worker)
    (htask : worker.task = .ask q next) (hcareful : carefulAsk s.db worker.job w q) :
    WorkerFit (act s (.work k w)).db
      { worker with
        told := heard worker.told q (answerAsk s.db w q).2
        task := next (answerAsk s.db w q).2 } := by
  have hdb : (act s (.work k w)).db = (answerAsk s.db w q).1 := by
    simp only [act, hk, workOnce, htask]
  have hages := ages_act s (.work k w)
  have hfit := h.workers k worker hk
  obtain ⟨gone, hgone, hworks⟩ := hfit.works
  rw [htask] at hworks
  refine ⟨hfit.token.trans_le hages.nextToken, hfit.workspace.trans_le hages.nextId, ?_,
    learnt gone q (answerAsk s.db w q).2, ?_, hworks.2 _ (fair_answer s.db w q)⟩
  · rw [hdb]
    intro j' hj' ht
    exact held_answer hfit hworks.1 hcareful hj' ht
  · rw [hdb]
    exact learnt_sound hcareful hworks.1 hgone hfit.workspace

theorem copies_empty : Copies .empty := ⟨rfl, by simp⟩

theorem copies_reloaded (h : Copies state) : Copies (reloaded state) :=
  ⟨by rw [get_reloaded, h.named], fun u p hp hcopy => by
    rw [get_reloaded] at hp
    simpa using h.copied u p hp hcopy⟩

theorem JobsFit.row_act (h : JobsFit s) (hj : (act s a).db.jobs.get id = some j') :
    j'.workspaceId < (act s a).db.nextId ∧ Copies j'.storageScopes := by
  have hages := ages_act s a
  have hkept : ∀ j, s.db.jobs.get id = some j →
      j.workspaceId < (act s a).db.nextId ∧ Copies j.storageScopes := fun j hj =>
    ⟨(h.jobs id j hj).1.trans_le hages.nextId, (h.jobs id j hj).2⟩
  have hstep := rowStep s a id
  rw [hj] at hstep
  generalize hr : some j' = r at hstep
  cases hstep with
  | same => exact hkept j' hr.symm
  | enqueued active =>
    cases hr
    exact ⟨(h.workspaces _ (by simp [active])).trans_le hages.nextId, copies_empty⟩
  | retried get failed =>
    cases hr
    have hold := hkept _ get
    exact hold
  | claimed get =>
    cases hr
    have hold := hkept _ get
    exact hold
  | asked get task asked =>
    cases asked with
    | same => exact hkept j' hr.symm
    | renewed getJob held =>
      cases hr
      have hold := hkept _ getJob
      exact hold
    | patched getJob held =>
      cases hr
      obtain ⟨_, -, -, -, hpersist⟩ := h.mayAsk get task
      have hold := hkept _ getJob
      refine ⟨hold.1, ?_⟩
      rename_i patch _ _
      cases hs : patch.storageScopes with
      | none => simpa [Patch.apply, hs] using hold.2
      | some state => simpa [Patch.apply, hs] using (hpersist.scopes state hs).1
    | purged _ _ _ _ _ _ => cases hr

theorem JobsFit.finished_act (h : JobsFit s) : Finished (act s a).db := by
  intro id j' hj' hcompleted
  have hages := ages_act s a
  have hkept : ∀ j, s.db.jobs.get id = some j → j.status = .completed →
      (act s a).db.workspaces.get j.workspaceId = none := fun j hj hc =>
    hages.absent (h.jobs id j hj).1 (h.finished id j hj hc)
  have hstep := rowStep s a id
  rw [hj'] at hstep
  generalize hr : some j' = r at hstep
  cases hstep with
  | same => exact hkept j' hr.symm hcompleted
  | enqueued active =>
    cases hr
    cases hcompleted
  | retried get failed =>
    cases hr
    cases hcompleted
  | claimed get =>
    cases hr
    have hold := hkept _ get
    refine hold ?_
    simp only [DeletionJob.claimed] at hcompleted
    split at hcompleted
    · cases hcompleted
    · exact hcompleted
  | asked get task asked =>
    cases asked with
    | same => exact hkept j' hr.symm hcompleted
    | renewed getJob held =>
      cases hr
      have hold := hkept _ getJob
      exact hold hcompleted
    | patched getJob held =>
      cases hr
      obtain ⟨gone, hgone, hid, htoken, hpersist⟩ := h.mayAsk get task
      have hold := hkept _ getJob
      rename_i patch _
      cases hs : patch.status with
      | none => exact hold (by simpa [Patch.apply, hs] using hcompleted)
      | some status =>
        have hstatus : status = .completed := by simpa [Patch.apply, hs] using hcompleted
        have hfit := h.workers _ _ get
        have hws := (hfit.held _ (hid ▸ getJob) (htoken ▸ held)).1
        have habsent := hages.absent hfit.workspace (hgone (hpersist.complete (hstatus ▸ hs)))
        simpa [Patch.apply, hws] using habsent
    | purged _ _ _ _ _ _ => cases hr

theorem JobsFit.workspace_act (h : JobsFit s) (workspaceId : Id)
    (hw : ((act s a).db.workspaces.get workspaceId).isSome) :
    workspaceId < (act s a).db.nextId := by
  have hages := ages_act s a
  rcases hages.workspaces workspaceId hw with hbefore | ⟨rfl, hlt⟩
  · exact (h.workspaces workspaceId hbefore).trans_le hages.nextId
  · exact hlt

theorem careful_asked (hcareful : careful s (.work k w)) (hk : s.workers.get k = some worker)
    (htask : worker.task = .ask q next) : carefulAsk s.db worker.job w q := by
  simpa [careful, hk, htask] using hcareful

theorem token_act (hk : (act s a).workers.get k = some worker) :
    (∃ worker', s.workers.get k = some worker' ∧ worker'.job.token = worker.job.token) ∨
      s.workers.get k = none ∧ worker.job.token = s.db.nextToken ∧
        ∃ workerId skipped delivery, a = .claim k workerId skipped delivery := by
  cases workerStep hk with
  | other get _ => exact .inl ⟨_, get, rfl⟩
  | answered get _ => exact .inl ⟨_, get, rfl⟩
  | claimed free _ _ _ => exact .inr ⟨free, rfl, _, _, _, rfl⟩

theorem JobsFit.worker_act (h : JobsFit s) (hcareful : careful s a)
    (hk : (act s a).workers.get k = some worker) : WorkerFit (act s a).db worker := by
  cases workerStep hk with
  | other get other => exact h.worker_other get other
  | answered get task => exact h.worker_self get task (careful_asked hcareful get task)
  | claimed free get row nextToken =>
    obtain ⟨hworkspace, hcopies⟩ := h.jobs _ _ get
    refine ⟨?_, hworkspace.trans_le (ages_act s _).nextId, ?_, false, by simp, ?_⟩
    · rw [nextToken]
      exact Nat.lt_succ_self _
    · intro j' hj' _
      have hrow : some j' = some _ := hj'.symm.trans row
      cases hrow
      exact ⟨rfl, fun _ u => (get_reloaded _ u).symm, by simp⟩
    · refine Obeys.mono (works_workOn rfl (copies_reloaded hcopies)) ?_
      simp

theorem jobsFit_step (s : System) (a : Act) (h : JobsFit s) (hcareful : careful s a) :
    JobsFit (act s a) where
  workspaces := h.workspace_act
  jobs _ _ hj := h.row_act hj
  finished := h.finished_act
  workers _ _ hk := h.worker_act hcareful hk
  alone k k' worker worker' hk hk' htoken := by
    rcases token_act hk with ⟨w₁, h₁, ht₁⟩ | ⟨hfree, hnew, _, _, _, ha⟩
    · rcases token_act hk' with ⟨w₂, h₂, ht₂⟩ | ⟨hfree', hnew', -⟩
      · exact h.alone k k' w₁ w₂ h₁ h₂ (by rw [ht₁, ht₂, htoken])
      · have hlt := (h.workers k w₁ h₁).token
        rw [ht₁, htoken, hnew'] at hlt
        exact absurd hlt (lt_irrefl _)
    · rcases token_act hk' with ⟨w₂, h₂, ht₂⟩ | ⟨hfree', hnew', _, _, _, ha'⟩
      · have hlt := (h.workers k' w₂ h₂).token
        rw [ht₂, ← htoken, hnew] at hlt
        exact absurd hlt (lt_irrefl _)
      · rw [ha] at ha'
        cases ha'
        rfl

theorem JobsFit.fenced (h : JobsFit s) (hcareful : careful s a) : Fenced s a := by
  rintro k w rfl id hchanged
  have hstep := rowStep s (.work k w) id
  generalize (act s (.work k w)).db.jobs.get id = r at hstep hchanged
  cases hstep with
  | same => exact absurd rfl hchanged
  | asked get task asked =>
    rename_i worker q next
    obtain ⟨_, -, hmay⟩ := h.mayAsk get task
    refine ⟨worker, get, ?_⟩
    cases asked with
    | same => exact absurd rfl hchanged
    | renewed getJob held =>
      obtain ⟨rfl, rfl⟩ := hmay
      exact ⟨rfl, holds_iff.mpr ⟨_, getJob, held⟩⟩
    | patched getJob held =>
      obtain ⟨rfl, rfl, -⟩ := hmay
      exact ⟨rfl, holds_iff.mpr ⟨_, getJob, held⟩⟩
    | purged getJob workspace present isAdmin purge delivered =>
      rename_i j
      have hasked := careful_asked hcareful get task
      have hws := Option.isSome_iff_ne_none.mp present
      simp only [carefulAsk, Bool.or_eq_true, decide_eq_true_eq, isAdmin, purge, delivered, hws,
        Option.isNone_iff_eq_none, Option.isSome_none, Bool.not_true, Bool.false_eq_true,
        false_or, List.all_eq_true] at hasked
      have hrow := hasked _ (Table.get_eq_some_iff_mem.mp getJob)
      simp only [workspace, ne_eq, not_true, false_or, Bool.and_eq_true, decide_eq_true_eq] at hrow
      exact ⟨hrow.1.symm, holds_iff.mpr ⟨j, getJob, hrow.2⟩⟩

theorem JobsFit.settledFirst (h : JobsFit s) : SettledFirst s a := by
  intro id j' hj' hstatus hnew
  have hstep := rowStep s a id
  rw [hj'] at hstep
  generalize hr : some j' = r at hstep
  cases hstep with
  | same => exact absurd hstatus (hnew j' hr.symm)
  | enqueued active =>
    cases hr
    cases hstatus
  | retried get failed =>
    cases hr
    cases hstatus
  | claimed get =>
    cases hr
    simp only [DeletionJob.claimed] at hstatus
    split at hstatus
    · cases hstatus
    · exact absurd hstatus (hnew _ get)
  | asked get task asked =>
    rename_i k w worker q next
    cases asked with
    | same => exact absurd hstatus (hnew j' hr.symm)
    | renewed getJob held =>
      cases hr
      have hold := hnew _ getJob
      exact absurd hstatus hold
    | purged _ _ _ _ _ _ => cases hr
    | patched getJob held =>
      cases hr
      rename_i token j patch
      obtain ⟨_, -, rfl, rfl, hpersist⟩ := h.mayAsk get task
      have hadvance : patch.status = some .dbCleanup := by
        cases hs : patch.status with
        | none => exact absurd (by simpa [Patch.apply, hs] using hstatus) (hnew _ getJob)
        | some status => simpa [Patch.apply, hs] using hstatus
      obtain ⟨names, state, htold, hstate, hsettled⟩ := hpersist.advance hadvance
      have hcomplete := ((h.workers _ _ get).held _ getJob held).2.2 names htold
      refine ⟨k, w, worker, names, rfl, get, rfl, holds_iff.mpr ⟨j, getJob, held⟩, htold, ?_⟩
      simpa [Patch.apply, hstate] using hsettled hcomplete

theorem JobsFit.safe (h : JobsFit s) (hcareful : careful s a) : Safe s a :=
  ⟨h.fenced hcareful, h.settledFirst, h.finished_act⟩

theorem jobsFit_start : JobsFit {} where
  workspaces := by simp
  jobs := by simp
  finished := by simp [Finished]
  workers := by simp
  alone := by simp

theorem safe_of_fit (as : List Act) (s : System) (h : JobsFit s)
    (hcareful : Meets act (fun s a => careful s a) s as) : Meets act Safe s as := by
  induction as generalizing s with
  | nil => trivial
  | cons a as ih => exact ⟨h.safe hcareful.1, ih _ (jobsFit_step s a h hcareful.1) hcareful.2⟩

/-- In a run whose steps are careful every step is safe. -/
theorem deletion_fenced (as : List Act) (hcareful : Meets act (fun s a => careful s a) {} as) :
    Meets act Safe {} as :=
  safe_of_fit as {} jobsFit_start hcareful

/-- Nothing is configured, so no storage is left to empty. -/
def bare : World where
  storage
    | .resolve _ => .ok (.unconfigured "none")
    | .list .. => .ok { success := true }
    | .delete .. => .ok { success := true }
    | .heartbeat => .ok true
    | .persist _ => .saved
    | .clock => 0

def settledRun : List Act :=
  [.createWorkspace, .enqueueWorkspaceDeletion 0 9, .claim 0 "wsdel-1" [] .answered] ++
    List.replicate 11 (.work 0 bare) ++ [.claim 0 "wsdel-1" [] .answered]

def overlookedRun : List Act :=
  settledRun ++ List.replicate 4 (.work 0 { bare with purge := some "timeout" }) ++
    [.work 0 { bare with delivery := .refused }] ++ List.replicate 3 (.work 0 bare)

theorem finished_of_safe (as : List Act) (h : Meets act Safe {} as) :
    Finished (systemAfter as).db :=
  run_keeps (I := fun s => Finished s.db) (fun _ _ _ hsafe => hsafe.finished) jobsFit_start.finished h

theorem overlookedRun_unsafe : ¬Meets act Safe {} overlookedRun := by
  intro h
  have hpresent : ((systemAfter overlookedRun).db.jobs.get 1).any fun j =>
      j.status = .completed &&
        ((systemAfter overlookedRun).db.workspaces.get j.workspaceId).isSome := by decide
  obtain ⟨j, hj, hcompleted⟩ := (Option.any_eq_true _ _).mp hpresent
  simp only [Bool.and_eq_true, decide_eq_true_eq] at hcompleted
  have habsent := finished_of_safe overlookedRun h 1 j hj hcompleted.1
  rw [habsent] at hcompleted
  exact absurd hcompleted.2 (by simp)

def purgedRun : List Act := settledRun ++ List.replicate 7 (.work 0 bare)

theorem purgedRun_safe : Meets act Safe {} purgedRun :=
  deletion_fenced purgedRun (by decide)

end Kindred.Deletion
