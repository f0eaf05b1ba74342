import Kindred.Deletion.Steps

/-!
Owner write leases against the deletion of their owner. A lease is granted only
while nobody deletes the owner; a worker lists the owner's storage only after it
was answered that every lease expired a grace period ago. Between the two stands
the row of a lease, which is gone only when its writer gave it back or when it
expired long ago.
-/

namespace Kindred.Deletion
open Lib (Table Dialogue run Meets)
open Lib.Dialogue (Setting Obeys Asks upon)

def graceMs : Int := reconciliationGraceSeconds * 1000

def inTime (s : System) : Bool :=
  s.writes.rows.all fun r => (s.db.lastExpiry.get r.2.lease).all fun e => s.db.now < e + graceMs

def listedOwner (s : System) : Act → Option (OwnerKind × Id)
  | .work k _ => match s.workers.get k with
    | none => none
    | some worker => match worker.task with
      | .ask (.storage (.list ..)) _ => some (.workspace, worker.job.row.workspaceId)
      | _ => none
  | .listUser k => match s.userWalks.get k with
    | none => none
    | some walk => if walk.cleared && !walk.ended then some (.user, walk.userId) else none
  | _ => none

def QuietListing (s : System) (a : Act) : Prop :=
  ∀ kind owner, listedOwner s a = some (kind, owner) →
    ∀ n write, s.writes.get n = some write → write.ownerKind = kind → write.ownerId = owner →
      write.failed ∧ s.db.leases.get write.lease = none

def Db.queued (db : Db) : OwnerKind → Id → Bool
  | .workspace, owner => db.jobs.rows.any fun r => r.2.workspaceId = owner
  | .user, owner => db.userJobLive owner

def GrantedInTime (s : System) (a : Act) : Prop :=
  ∀ id l, (act s a).db.leases.get id = some l → s.db.leases.get id = none →
    s.db.writable l.ownerKind l.ownerId ∧ ¬s.db.queued l.ownerKind l.ownerId

def ExtendedInTime (s : System) (a : Act) : Prop :=
  ∀ id l l', s.db.leases.get id = some l → (act s a).db.leases.get id = some l' →
    l'.leaseExpiresAt ≠ l.leaseExpiresAt → s.db.now < l.leaseExpiresAt

structure Guarded (s : System) (a : Act) : Prop where
  listing : QuietListing s a
  granted : GrantedInTime s a
  extended : ExtendedInTime s a

/-- The row of a lease is there, or it was given back, or it expired long ago. -/
structure Kept (db : Db) (lease : Id) (kind : OwnerKind) (owner : Id) (back : Prop) : Prop where
  old : lease < db.nextId
  expiry : ∃ e, db.lastExpiry.get lease = some e ∧
    (db.leases.get lease = none → back ∨ e + 3600000 < db.now)
  owner : ∀ l, db.leases.get lease = some l → l.ownerKind = kind ∧ l.ownerId = owner

structure Ledger (db : Db) : Prop where
  rows : ∀ id l, db.leases.get id = some l →
    id < db.nextId ∧ db.lastExpiry.get id = some l.leaseExpiresAt
  expiries : ∀ id e, db.lastExpiry.get id = some e → id < db.nextId

variable {db db' : Db} {lease : Id} {kind : OwnerKind} {owner : Id} {back back' : Prop}
  {purpose : String} {seconds waited : ℕ} {id : Id} {token : ℕ}

theorem Kept.imp (h : Kept db lease kind owner back) (hb : back → back') :
    Kept db lease kind owner back' := by
  obtain ⟨e, he, hgone⟩ := h.expiry
  exact ⟨h.old, ⟨e, he, fun hnone => (hgone hnone).imp_left hb⟩, h.owner⟩

structure Later (db db' : Db) : Prop where
  now : db.now ≤ db'.now
  nextId : db.nextId ≤ db'.nextId
  leases : db'.leases = db.leases
  lastExpiry : db'.lastExpiry = db.lastExpiry

theorem Kept.later (h : Kept db lease kind owner back) (hl : Later db db') :
    Kept db' lease kind owner back := by
  obtain ⟨e, he, hgone⟩ := h.expiry
  refine ⟨h.old.trans_le hl.nextId, ⟨e, by rw [hl.lastExpiry, he], fun hnone => ?_⟩, ?_⟩
  · rw [hl.leases] at hnone
    have hnow := hl.now
    rcases hgone hnone with hb | hlong
    · exact .inl hb
    · exact .inr (by omega)
  · rw [hl.leases]
    exact h.owner

theorem Ledger.later (h : Ledger db) (hl : Later db db') : Ledger db' := by
  refine ⟨?_, ?_⟩
  · rw [hl.leases, hl.lastExpiry]
    exact fun id l hrow => ⟨(h.rows id l hrow).1.trans_le hl.nextId, (h.rows id l hrow).2⟩
  · rw [hl.lastExpiry]
    exact fun id e he => (h.expiries id e he).trans_le hl.nextId

inductive Acquired (db : Db) (kind : OwnerKind) (owner : Id) (id : Id) :
    Id → Option OwnerWriteLease → Option Int → Prop
  | same {next : Id} : Acquired db kind owner id next (db.leases.get id) (db.lastExpiry.get id)
  | swept {next : Id} {l : OwnerWriteLease} (get : db.leases.get id = some l)
      (long : l.leaseExpiresAt + 3600000 < db.now) :
      Acquired db kind owner id next none (db.lastExpiry.get id)
  | granted {next : Id} {l : OwnerWriteLease} (new : id = db.nextId) (old : id < next)
      (writable : db.writable kind owner) (ownerKind : l.ownerKind = kind)
      (ownerId : l.ownerId = owner) :
      Acquired db kind owner id next (some l) (some l.leaseExpiresAt)

theorem writable_keep (db : Db) (p : Id → OwnerWriteLease → Bool) (kind : OwnerKind) (owner : Id) :
    ({ db with leases := db.leases.keep p } : Db).writable kind owner = db.writable kind owner := by
  cases kind <;> rfl

theorem acquired (db : Db) (kind : OwnerKind) (owner : Id) (purpose : String)
    (seconds waited : ℕ) (id : Id) :
    Acquired db kind owner id
      (acquireOwnerWriteLease kind owner purpose seconds waited db).1.nextId
      ((acquireOwnerWriteLease kind owner purpose seconds waited db).1.leases.get id)
      ((acquireOwnerWriteLease kind owner purpose seconds waited db).1.lastExpiry.get id) := by
  have hswept (next : Id) : Acquired db kind owner id next
      ((db.leases.keep fun _ l => db.now - waited - 3600000 ≤ l.leaseExpiresAt).get id)
      (db.lastExpiry.get id) := by
    rw [Table.get_keep]
    cases hl : db.leases.get id with
    | none => simpa [hl] using @Acquired.same db kind owner id next
    | some l =>
      by_cases hkeep : db.now - waited - 3600000 ≤ l.leaseExpiresAt
      · simpa [Option.filter, hkeep, hl] using
          @Acquired.same db kind owner id next
      · simpa [Option.filter, hkeep] using
          @Acquired.swept db kind owner id next l hl (by omega)
  unfold acquireOwnerWriteLease
  dsimp only
  split
  · rename_i hwritable
    rw [writable_keep] at hwritable
    by_cases he : id = db.nextId
    · subst he
      simp only [Table.get_put_self]
      exact .granted rfl (Nat.lt_succ_self _) hwritable rfl rfl
    · simp only [Table.get_put_ne _ _ he]
      exact hswept _
  · exact hswept _

structure LeasesOnly (db db' : Db) : Prop where
  now : db'.now = db.now
  nextId : db.nextId ≤ db'.nextId
  jobs : db'.jobs = db.jobs
  workspaces : db'.workspaces = db.workspaces
  profiles : db'.profiles = db.profiles
  userJobs : db'.userJobs = db.userJobs

theorem leasesOnly_acquire (db : Db) (kind : OwnerKind) (owner : Id) (purpose : String)
    (seconds waited : ℕ) :
    LeasesOnly db (acquireOwnerWriteLease kind owner purpose seconds waited db).1 := by
  unfold acquireOwnerWriteLease
  dsimp only
  split
  · exact ⟨rfl, Nat.le_succ _, rfl, rfl, rfl, rfl⟩
  · exact ⟨rfl, le_refl _, rfl, rfl, rfl, rfl⟩

theorem leasesOnly_renew (db : Db) (id : Id) (token seconds : ℕ) :
    LeasesOnly db (renewOwnerWriteLease id token seconds db).1 := by
  unfold renewOwnerWriteLease
  split <;> exact ⟨rfl, le_refl _, rfl, rfl, rfl, rfl⟩

theorem Kept.acquire (h : Kept db lease kind owner back) (hledger : Ledger db)
    (kind' : OwnerKind) (owner' : Id) (purpose : String) (seconds waited : ℕ) :
    Kept (acquireOwnerWriteLease kind' owner' purpose seconds waited db).1 lease kind owner
      back := by
  have honly := leasesOnly_acquire db kind' owner' purpose seconds waited
  have hacquired := acquired db kind' owner' purpose seconds waited lease
  obtain ⟨e, he, hgone⟩ := h.expiry
  generalize hdb : (acquireOwnerWriteLease kind' owner' purpose seconds waited db).1 = db'
    at honly hacquired ⊢
  generalize hrow : db'.leases.get lease = row at hacquired
  generalize hlast : db'.lastExpiry.get lease = last at hacquired
  cases hacquired with
  | same =>
    exact ⟨h.old.trans_le honly.nextId, ⟨e, hlast.trans he, by rwa [hrow, honly.now]⟩,
      by rw [hrow]; exact h.owner⟩
  | swept get long =>
    have hexpiry := (hledger.rows _ _ get).2
    refine ⟨h.old.trans_le honly.nextId, ⟨_, hlast.trans hexpiry, fun _ => .inr ?_⟩, ?_⟩
    · rwa [honly.now]
    · simp [hrow]
  | granted new _ _ _ _ => exact absurd new h.old.ne

theorem Ledger.acquire (h : Ledger db) (kind : OwnerKind) (owner : Id) (purpose : String)
    (seconds waited : ℕ) :
    Ledger (acquireOwnerWriteLease kind owner purpose seconds waited db).1 := by
  have honly := leasesOnly_acquire db kind owner purpose seconds waited
  have hacquired := acquired db kind owner purpose seconds waited
  generalize (acquireOwnerWriteLease kind owner purpose seconds waited db).1 = db'
    at honly hacquired ⊢
  refine ⟨fun id l hl => ?_, fun id e he => ?_⟩
  · have hrow := hacquired id
    rw [hl] at hrow
    generalize hr : some l = row at hrow
    generalize db'.lastExpiry.get id = last at hrow ⊢
    cases hrow with
    | same => exact ⟨(h.rows id l hr.symm).1.trans_le honly.nextId, (h.rows id l hr.symm).2⟩
    | swept _ _ => cases hr
    | granted _ old _ _ _ =>
      cases hr
      exact ⟨old, rfl⟩
  · have hrow := hacquired id
    rw [he] at hrow
    generalize hr : some e = last at hrow
    generalize db'.leases.get id = row at hrow
    cases hrow with
    | same => exact (h.expiries id e hr.symm).trans_le honly.nextId
    | swept _ _ => exact (h.expiries id e hr.symm).trans_le honly.nextId
    | granted _ old _ _ _ => exact old

theorem get_renewed (db : Db) (id : Id) (token seconds : ℕ) (id' : Id) :
    (id' = id ∧ ∃ l e, db.leases.get id = some l ∧ db.now < l.leaseExpiresAt ∧
      (renewOwnerWriteLease id token seconds db).1.leases.get id =
        some { l with leaseExpiresAt := e } ∧
      (renewOwnerWriteLease id token seconds db).1.lastExpiry.get id = some e) ∨
    (renewOwnerWriteLease id token seconds db).1.leases.get id' = db.leases.get id' ∧
      (renewOwnerWriteLease id token seconds db).1.lastExpiry.get id' =
        db.lastExpiry.get id' := by
  unfold renewOwnerWriteLease
  split
  · rename_i hlive
    obtain ⟨l, hl, hlive⟩ := (Option.any_eq_true _ _).mp hlive
    simp only [Bool.and_eq_true, decide_eq_true_eq] at hlive
    by_cases he : id' = id
    · exact .inl ⟨he, l, db.now + seconds * 1000, hl, hlive.2, by simp [hl], by simp⟩
    · exact .inr ⟨by simp [Table.get_update_ne _ _ he], by simp [Table.get_put_ne _ _ he]⟩
  · exact .inr ⟨rfl, rfl⟩

theorem Kept.renew (h : Kept db lease kind owner back) (id : Id) (token seconds : ℕ) :
    Kept (renewOwnerWriteLease id token seconds db).1 lease kind owner back := by
  have honly := leasesOnly_renew db id token seconds
  obtain ⟨e, he, hgone⟩ := h.expiry
  rcases get_renewed db id token seconds lease with
    ⟨rfl, l, e', hl, hlive, hrow, hlast⟩ | ⟨hrow, hlast⟩
  · refine ⟨h.old.trans_le honly.nextId, ⟨e', hlast, by simp [hrow]⟩, ?_⟩
    rw [hrow]
    rintro _ ⟨⟩
    exact h.owner l hl
  · exact ⟨h.old.trans_le honly.nextId, ⟨e, hlast.trans he, by rwa [hrow, honly.now]⟩,
      by rw [hrow]; exact h.owner⟩

theorem Ledger.renew (h : Ledger db) (id : Id) (token seconds : ℕ) :
    Ledger (renewOwnerWriteLease id token seconds db).1 := by
  have honly := leasesOnly_renew db id token seconds
  refine ⟨fun id' l' hl' => ?_, fun id' e he => ?_⟩ <;>
    rcases get_renewed db id token seconds id' with
      ⟨rfl, l, e', hl, hlive, hrow, hlast⟩ | ⟨hrow, hlast⟩
  · rw [hrow] at hl'
    cases hl'
    exact ⟨(h.rows _ l hl).1.trans_le honly.nextId, hlast⟩
  · rw [hrow] at hl'
    exact ⟨(h.rows id' l' hl').1.trans_le honly.nextId, hlast.trans (h.rows id' l' hl').2⟩
  · exact (h.rows _ l hl).1.trans_le honly.nextId
  · rw [hlast] at he
    exact (h.expiries id' e he).trans_le honly.nextId

theorem get_released (db : Db) (id : Id) (token : ℕ) {id' : Id} (hne : id' ≠ id) :
    (releaseOwnerWriteLease id token db).leases.get id' = db.leases.get id' := by
  simp only [releaseOwnerWriteLease, Table.get_keep]
  cases hl : db.leases.get id' <;> simp [Option.filter, hne]

theorem get_released_some {id' : Id} {l : OwnerWriteLease}
    (h : (releaseOwnerWriteLease id token db).leases.get id' = some l) :
    db.leases.get id' = some l := by
  simp only [releaseOwnerWriteLease, Table.get_keep, Option.filter_eq_some_iff] at h
  exact h.1

theorem Kept.release (h : Kept db lease kind owner back) (id : Id) (token : ℕ) :
    Kept (releaseOwnerWriteLease id token db) lease kind owner (back ∨ lease = id) := by
  obtain ⟨e, he, hgone⟩ := h.expiry
  refine ⟨h.old, ⟨e, he, fun hnone => ?_⟩, fun l hl => h.owner l (get_released_some hl)⟩
  by_cases heq : lease = id
  · exact .inl (.inr heq)
  · rw [get_released db id token heq] at hnone
    exact (hgone hnone).imp_left .inl

theorem Ledger.release (h : Ledger db) (id : Id) (token : ℕ) :
    Ledger (releaseOwnerWriteLease id token db) :=
  ⟨fun _ _ hl => h.rows _ _ (get_released_some hl), h.expiries⟩

structure Holding where
  asked : Bool := false
  acquired : Bool := false
  begun : List ℕ := []
  pending : List ℕ := []
  released : Bool := false

def Holding.may (h : Holding) : WriterAsk → Prop
  | .acquire => ¬h.asked
  | .put => h.acquired ∧ ¬h.released
  | .response write => write ∈ h.begun
  | .release => h.pending = []
  | _ => True

def Holding.after (h : Holding) : (q : WriterAsk) → WriterReply q → Holding
  | .acquire, granted => { h with asked := true, acquired := granted }
  | .put, write => { h with begun := write :: h.begun, pending := write :: h.pending }
  | .response write, _ => { h with pending := h.pending.filter (· ≠ write) }
  | .release, _ => { h with released := true }
  | _, _ => h

def holding : Setting WriterAsk WriterReply Holding where
  may := Holding.may
  fair _ _ _ := True
  after := Holding.after

structure Quiescent (h : Holding) : Prop where
  asked : h.asked
  acquired : h.acquired
  unreleased : ¬h.released
  pending : h.pending = []

structure Busy (writes : List ℕ) (h : Holding) : Prop where
  asked : h.asked
  acquired : h.acquired
  unreleased : ¬h.released
  begun : ∀ n ∈ writes, n ∈ h.begun
  pending : ∀ n ∈ h.pending, n ∈ writes

variable {α β : Type} {post : α → Holding → Prop} {h : Holding} {thrown : Holding → Prop}
  {s s' : System} {wr wr' : Writer} {k n : ℕ} {a : Act} {u : System}

def Writes {α : Type} (thrown : Holding → Prop) (post : α → Holding → Prop) (h : Holding)
    (m : WriterProg α) : Prop :=
  Obeys holding (upon (fun h _ => thrown h) fun h a => post a h) h m.run

theorem writes_pure {a : α} (ha : post a h) : Writes thrown post h (pure a) := ha

theorem Writes.bind {m : WriterProg α} {f : α → WriterProg β} {post' : β → Holding → Prop}
    (hm : Writes thrown post h m) (hf : ∀ a h, post a h → Writes thrown post' h (f a)) :
    Writes thrown post' h (m >>= f) :=
  Obeys.bindExcept hm fun h a ha => hf a h ha

theorem writes_ask (q : WriterAsk) (hq : h.may q) :
    Writes thrown (fun a h' => h' = h.after q a) h
      (ExceptT.lift (Dialogue.query (A := WriterReply) q)) :=
  ⟨hq, fun _ _ => rfl⟩

theorem writes_prepare (hs : Quiescent h) :
    Writes Quiescent (fun _ => Quiescent) h prepare := by
  refine ⟨trivial, fun a _ => ?_⟩
  cases a <;> exact hs

theorem writes_attempt {m : WriterProg α} {Q : Holding → Prop} (hm : Writes Q (fun _ => Q) h m) :
    Writes thrown (fun _ => Q) h (attempt m) := by
  have hlift : Obeys holding (fun h _ => Q h) h m.run := by
    refine Obeys.mono hm ?_
    rintro h (_ | _) hq <;> exact hq
  exact Obeys.bind hlift fun h a hq => hq

theorem Quiescent.busy (hs : Quiescent h) : Busy [] h :=
  ⟨hs.asked, hs.acquired, hs.unreleased, by simp, by simp [hs.pending]⟩

theorem Busy.quiescent (hb : Busy [] h) : Quiescent h :=
  ⟨hb.asked, hb.acquired, hb.unreleased, List.eq_nil_iff_forall_not_mem.mpr fun n hn => by
    simpa using hb.pending n hn⟩

theorem writes_beginCall {writes : List ℕ} (hb : Busy writes h) :
    Writes thrown (fun write => Busy (write :: writes)) h beginCall := by
  refine ⟨⟨hb.acquired, hb.unreleased⟩, fun write _ => ⟨hb.asked, hb.acquired, hb.unreleased, ?_, ?_⟩⟩
  · intro n hn
    rcases List.mem_cons.mp hn with rfl | hn
    · exact List.mem_cons_self
    · exact List.mem_cons_of_mem _ (hb.begun n hn)
  · intro n hn
    rcases List.mem_cons.mp hn with rfl | hn
    · exact List.mem_cons_self
    · exact List.mem_cons_of_mem _ (hb.pending n hn)

theorem writes_endCall {write : ℕ} {writes : List ℕ} (hb : Busy (write :: writes) h) :
    Writes (Busy writes) (fun _ => Busy writes) h (endCall write) := by
  have hafter : Busy writes { h with pending := h.pending.filter (· ≠ write) } := by
    refine ⟨hb.asked, hb.acquired, hb.unreleased, ?_, ?_⟩
    · exact fun n hn => hb.begun n (List.mem_cons_of_mem _ hn)
    · intro n hn
      simp only [List.mem_filter, decide_eq_true_eq] at hn
      exact (List.mem_cons.mp (hb.pending n hn.1)).resolve_left hn.2
  refine ⟨hb.begun write List.mem_cons_self, fun a _ => ?_⟩
  cases a <;> exact hafter

theorem writes_providerCall (hs : Quiescent h) :
    Writes Quiescent (fun _ => Quiescent) h providerCall := by
  refine (writes_beginCall hs.busy).bind fun write h hb => ?_
  refine Obeys.mono (writes_endCall hb) ?_
  rintro h (_ | _) hb <;> exact hb.quiescent

theorem writes_beginCalls (n : ℕ) {open' : List ℕ} (hb : Busy open' h) :
    Writes thrown (fun writes => Busy (writes ++ open')) h (beginCalls n) := by
  induction n generalizing open' h with
  | zero => exact writes_pure hb
  | succ n ih =>
    refine (writes_beginCall hb).bind fun write h hb => ?_
    refine (ih hb).bind fun writes h hb => writes_pure ?_
    have hmem : ∀ m, m ∈ writes ++ write :: open' ↔ m ∈ write :: writes ++ open' := fun m => by
      simp only [List.mem_append, List.mem_cons]
      tauto
    exact ⟨hb.asked, hb.acquired, hb.unreleased, fun m hm => hb.begun m ((hmem m).mpr hm),
      fun m hm => (hmem m).mp (hb.pending m hm)⟩

theorem writes_endCalls (writes : List ℕ) (hb : Busy writes h) :
    Writes thrown (fun _ => Quiescent) h (endCalls writes) := by
  induction writes generalizing h with
  | nil => exact writes_pure hb.quiescent
  | cons write writes ih => exact (writes_attempt (writes_endCall hb)).bind fun _ h hb => ih hb

theorem writes_doUpload (replicas : ℕ) (hs : Quiescent h) :
    Writes Quiescent (fun _ => Quiescent) h (doUpload replicas) := by
  refine (writes_prepare hs).bind fun ready h hs => ?_
  split
  · exact writes_pure hs
  · refine (writes_attempt (writes_providerCall hs)).bind fun result h hs => ?_
    have hmirror (success : Bool) : Writes Quiescent (fun _ => Quiescent) h (do
        if success then
          let writes ← beginCalls replicas
          endCalls writes
        pure success) := by
      split
      · refine (writes_beginCalls replicas hs.busy).bind fun writes h hb => ?_
        rw [List.append_nil] at hb
        exact (writes_endCalls writes hb).bind fun _ h hs => writes_pure hs
      · exact writes_pure hs
    exact hmirror _

theorem writes_uploadWithConfig (hs : Quiescent h) :
    Writes Quiescent (fun _ => Quiescent) h uploadWithConfig := by
  refine (writes_prepare hs).bind fun ready h hs => ?_
  split
  · exact writes_pure hs
  · exact writes_providerCall hs

theorem writes_withOwnerWriteLease {fn : WriterProg α} (hasked : ¬h.asked) (hpending : h.pending = [])
    (hreleased : ¬h.released)
    (hfn : ∀ h, Quiescent h → Writes Quiescent (fun _ => Quiescent) h fn) :
    Writes (fun _ => True) (fun _ _ => True) h (withOwnerWriteLease fn) := by
  refine ⟨hasked, fun granted _ => ?_⟩
  cases granted with
  | false => trivial
  | true =>
    have hs : Quiescent { h with asked := true, acquired := true } :=
      ⟨rfl, rfl, hreleased, hpending⟩
    have hquiet {h : Holding} (hs : Quiescent h) :
        Writes (fun _ => True) (fun _ => Quiescent) h fn := by
      refine Obeys.mono (hfn h hs) ?_
      rintro h (_ | _) hq
      · trivial
      · exact hq
    refine (hquiet hs).bind fun result h hs => ?_
    refine (writes_ask .renew trivial).bind ?_
    rintro stillHeld _ rfl
    refine (writes_ask .leaseLost trivial).bind ?_
    rintro leaseLost _ rfl
    split
    · exact writes_pure trivial
    · exact (writes_ask .release hs.pending).bind fun _ _ _ => writes_pure trivial

theorem writes_recordUnderLease (hs : Quiescent h) :
    Writes (fun _ => True) (fun _ => Quiescent) h recordUnderLease := by
  refine (writes_attempt (writes_prepare hs)).bind fun ready h hs => ?_
  cases ready with
  | error err => exact writes_pure hs
  | ok _ =>
    refine (writes_attempt (writes_providerCall hs)).bind fun started h hs => ?_
    cases started with
    | error err => exact writes_pure hs
    | ok _ =>
      refine (writes_attempt (writes_prepare hs)).bind fun told h hs => ?_
      cases told with
      | ok _ => exact writes_pure hs
      | error err =>
        refine (writes_attempt (writes_prepare hs)).bind fun stopped h hs => ?_
        cases stopped <;> exact writes_pure hs

theorem writes_program (kind : WriterKind) :
    Writes (fun _ => True) (fun _ _ => True) {} kind.program := by
  cases kind with
  | upload replicas =>
    exact writes_withOwnerWriteLease (by simp) rfl (by simp) fun h hs => writes_doUpload replicas hs
  | uploadWithConfig =>
    exact writes_withOwnerWriteLease (by simp) rfl (by simp) fun h hs => writes_uploadWithConfig hs
  | recording =>
    refine (writes_ask (h := {}) .acquire Bool.false_ne_true).bind ?_
    rintro granted _ rfl
    cases granted with
    | false => exact writes_pure trivial
    | true =>
      have hs : Quiescent (Holding.after {} .acquire true) :=
        ⟨rfl, rfl, Bool.false_ne_true, rfl⟩
      refine (writes_recordUnderLease hs).bind ?_
      rintro ⟨result, releaseLeaseNow⟩ h hs
      dsimp only
      split
      · exact (writes_ask .release hs.pending).bind fun _ _ _ => by cases result <;> trivial
      · cases result <;> trivial

structure WriterHolds (s : System) (wr : Writer) (h : Holding) : Prop where
  obeys : Obeys holding (fun _ _ => True) h wr.task
  acquired : h.acquired → wr.lease.isSome
  asked : ¬h.asked → wr.lease = none
  begun : ∀ n ∈ h.begun, n < s.nextWrite ∧
    ∀ write, s.writes.get n = some write → ∃ token, wr.lease = some (write.lease, token)
  kept : ∀ lease token, wr.lease = some (lease, token) →
    Kept s.db lease wr.ownerKind wr.ownerId h.released
  pending : ∀ lease token, wr.lease = some (lease, token) →
    ∀ n write, s.writes.get n = some write → write.lease = lease → write.failed ∨ n ∈ h.pending

structure LeasesFit (s : System) : Prop where
  ledger : Ledger s.db
  writers : ∀ k wr, s.writers.get k = some wr → ∃ h, WriterHolds s wr h
  alone : ∀ k k' wr wr' lease token token', s.writers.get k = some wr →
    s.writers.get k' = some wr' → wr.lease = some (lease, token) →
    wr'.lease = some (lease, token') → k = k'
  writes : ∀ n write, s.writes.get n = some write →
    n < s.nextWrite ∧ Kept s.db write.lease write.ownerKind write.ownerId write.failed

def Fewer (writes writes' : Table ℕ Write) : Prop :=
  ∀ n write', writes'.get n = some write' → ∃ write, writes.get n = some write ∧
    write'.lease = write.lease ∧ write'.ownerKind = write.ownerKind ∧
    write'.ownerId = write.ownerId ∧ (write.failed → write'.failed)

theorem fewer_self (writes : Table ℕ Write) : Fewer writes writes :=
  fun _ write hw => ⟨write, hw, rfl, rfl, rfl, fun hf => hf⟩

theorem fewer_erase (writes : Table ℕ Write) (n : ℕ) : Fewer writes (writes.erase n) := by
  intro m write' hm
  rw [Table.get_erase] at hm
  split at hm
  · cases hm
  · exact ⟨write', hm, rfl, rfl, rfl, fun hf => hf⟩

theorem fewer_failed (writes : Table ℕ Write) (n : ℕ) :
    Fewer writes (writes.update n fun x => { x with failed := true }) := by
  intro m write' hm
  rw [Table.get_update] at hm
  split at hm
  · rename_i he
    obtain ⟨write, hw, rfl⟩ := Option.map_eq_some_iff.mp hm
    exact ⟨write, he ▸ hw, rfl, rfl, rfl, fun _ => rfl⟩
  · exact ⟨write', hm, rfl, rfl, rfl, fun hf => hf⟩

theorem WriterHolds.mono (hw : WriterHolds s wr h)
    (hkept : ∀ lease token, wr.lease = some (lease, token) →
      Kept s'.db lease wr.ownerKind wr.ownerId h.released)
    (hnext : s.nextWrite ≤ s'.nextWrite) (hfewer : Fewer s.writes s'.writes) :
    WriterHolds s' wr h where
  obeys := hw.obeys
  acquired := hw.acquired
  asked := hw.asked
  begun n hn := by
    refine ⟨(hw.begun n hn).1.trans_le hnext, fun write' hw' => ?_⟩
    obtain ⟨write, hwrite, hlease, -⟩ := hfewer n write' hw'
    rw [hlease]
    exact (hw.begun n hn).2 write hwrite
  kept := hkept
  pending lease token hlease n write' hw' hwl := by
    obtain ⟨write, hwrite, hsame, -, -, hfailed⟩ := hfewer n write' hw'
    exact (hw.pending lease token hlease n write hwrite (hsame ▸ hwl)).imp_left hfailed

structure Unwritten (s s' : System) : Prop where
  later : Later s.db s'.db
  writers : s'.writers = s.writers
  writes : s'.writes = s.writes
  nextWrite : s'.nextWrite = s.nextWrite

theorem LeasesFit.unwritten (hf : LeasesFit s) (hu : Unwritten s s') : LeasesFit s' where
  ledger := hf.ledger.later hu.later
  writers k wr hk := by
    rw [hu.writers] at hk
    obtain ⟨h, hw⟩ := hf.writers k wr hk
    exact ⟨h, hw.mono (fun lease token hl => (hw.kept lease token hl).later hu.later)
      hu.nextWrite.ge (hu.writes ▸ fewer_self _)⟩
  alone := by
    rw [hu.writers]
    exact hf.alone
  writes := by
    rw [hu.writes, hu.nextWrite]
    exact fun n write hw => ⟨(hf.writes n write hw).1, (hf.writes n write hw).2.later hu.later⟩

theorem later_self (db : Db) : Later db db := ⟨le_refl _, le_refl _, rfl, rfl⟩

theorem later_answer (db : Db) (w : World) (q : Ask) : Later db (answerAsk db w q).1 := by
  cases q with
  | renewLease id token =>
    have hlater : Later db (renewWorkspaceDeletionLease id token leaseSeconds db).1 := by
      unfold renewWorkspaceDeletionLease
      split <;> exact ⟨le_refl _, le_refl _, rfl, rfl⟩
    simp only [answerAsk]
    cases w.delivery with
    | refused => exact later_self db
    | _ => exact hlater
  | persist id token patch =>
    have hlater : Later db (updateFenced id token patch db).1 := by
      unfold updateFenced
      split <;> exact ⟨le_refl _, le_refl _, rfl, rfl⟩
    simp only [answerAsk]
    cases w.delivery with
    | refused => exact later_self db
    | _ => exact hlater
  | deleteWorkspace actor workspaceId =>
    have hlater : Later db (adminDeleteWorkspace w.isAdmin w.purge workspaceId db).1 := by
      unfold adminDeleteWorkspace
      split
      · exact later_self db
      · split
        · exact later_self db
        · split
          · exact later_self db
          · exact ⟨le_refl _, le_refl _, rfl, rfl⟩
    simp only [answerAsk]
    cases w.delivery with
    | refused => exact later_self db
    | _ => exact hlater
  | _ => exact later_self db

def Act.writing : Act → Prop
  | .beginWrite .. | .write .. | .heartbeat .. | .stopWriter _ | .land _ => True
  | _ => False

theorem unwritten_act (s : System) (ha : ¬a.writing) : Unwritten s (act s a) := by
  cases a with
  | elapse ms =>
    refine ⟨⟨?_, le_refl _, rfl, rfl⟩, rfl, rfl, rfl⟩
    simp only [act]
    omega
  | createWorkspace | createProfile => exact ⟨⟨le_refl _, Nat.le_succ _, rfl, rfl⟩, rfl, rfl, rfl⟩
  | enqueueWorkspaceDeletion workspaceId actor =>
    simp only [act, enqueueWorkspaceDeletion]
    split
    · exact ⟨⟨le_refl _, Nat.le_succ _, rfl, rfl⟩, rfl, rfl, rfl⟩
    · exact ⟨later_self _, rfl, rfl, rfl⟩
  | enqueueUserDeletion userId actor =>
    simp only [act, enqueueUserDeletion]
    split
    · exact ⟨later_self _, rfl, rfl, rfl⟩
    · exact ⟨⟨le_refl _, Nat.le_succ _, rfl, rfl⟩, rfl, rfl, rfl⟩
  | retryWorkspaceDeletion _ | stopWorker _ | listUser _ | stopUser _ =>
    exact ⟨⟨le_refl _, le_refl _, rfl, rfl⟩, rfl, rfl, rfl⟩
  | endUserDeletion id =>
    simp only [act, endUserDeletion]
    split <;> exact ⟨⟨le_refl _, le_refl _, rfl, rfl⟩, rfl, rfl, rfl⟩
  | claimUser k id =>
    simp only [act]
    split
    · split <;> exact ⟨later_self _, rfl, rfl, rfl⟩
    · exact ⟨later_self _, rfl, rfl, rfl⟩
  | checkUser k delivery =>
    simp only [act, checkUser]
    split
    · exact ⟨later_self _, rfl, rfl, rfl⟩
    · split <;> exact ⟨later_self _, rfl, rfl, rfl⟩
  | claim k workerId skipped delivery =>
    have hclaim : Later s.db (claimWorkspaceDeletionJob workerId leaseSeconds skipped s.db).1 := by
      unfold claimWorkspaceDeletionJob
      split
      · exact later_self _
      · exact ⟨le_refl _, le_refl _, rfl, rfl⟩
    simp only [act]
    split
    · exact ⟨later_self _, rfl, rfl, rfl⟩
    · split
      · rename_i hc
        rw [hc] at hclaim
        exact ⟨hclaim, rfl, rfl, rfl⟩
      · rename_i hc
        rw [hc] at hclaim
        split <;> exact ⟨hclaim, rfl, rfl, rfl⟩
  | work k w =>
    simp only [act]
    split
    · exact ⟨later_self _, rfl, rfl, rfl⟩
    · unfold workOnce
      split
      · exact ⟨later_self _, rfl, rfl, rfl⟩
      · rename_i q next _
        exact ⟨later_answer s.db w q, rfl, rfl, rfl⟩
  | _ => exact absurd trivial ha

theorem LeasesFit.turn (hf : LeasesFit s) {wr₁ : Writer} (hwriters : u.writers = s.writers)
    (hledger : Ledger u.db) (hself : ∃ h, WriterHolds u wr₁ h)
    (hothers : ∀ k' wr', k' ≠ k → s.writers.get k' = some wr' → ∃ h, WriterHolds u wr' h)
    (halone : ∀ k' wr' lease token token', k' ≠ k → s.writers.get k' = some wr' →
      wr₁.lease = some (lease, token) → wr'.lease ≠ some (lease, token'))
    (hwrites : ∀ n write, u.writes.get n = some write →
      n < u.nextWrite ∧ Kept u.db write.lease write.ownerKind write.ownerId write.failed) :
    LeasesFit { u with writers := u.writers.put k wr₁ } where
  ledger := hledger
  writers k' wr' hk' := by
    have hmono : ∀ {wr h}, WriterHolds u wr h →
        WriterHolds { u with writers := u.writers.put k wr₁ } wr h := fun hw =>
      hw.mono hw.kept (le_refl _) (fewer_self _)
    by_cases he : k' = k
    · subst he
      rw [Table.get_put_self] at hk'
      cases hk'
      obtain ⟨h, hw⟩ := hself
      exact ⟨h, hmono hw⟩
    · rw [Table.get_put_ne _ _ he, hwriters] at hk'
      obtain ⟨h, hw⟩ := hothers k' wr' he hk'
      exact ⟨h, hmono hw⟩
  alone k' k'' wr' wr'' lease token token' hk' hk'' hl' hl'' := by
    rw [hwriters] at hk' hk''
    by_cases he' : k' = k <;> by_cases he'' : k'' = k
    · rw [he', he'']
    · subst he'
      rw [Table.get_put_self] at hk'
      rw [Table.get_put_ne _ _ he''] at hk''
      cases hk'
      exact absurd hl'' (halone k'' wr'' lease token token' he'' hk'' hl')
    · subst he''
      rw [Table.get_put_self] at hk''
      rw [Table.get_put_ne _ _ he'] at hk'
      cases hk''
      exact absurd hl' (halone k' wr' lease token' token he' hk' hl'')
    · rw [Table.get_put_ne _ _ he'] at hk'
      rw [Table.get_put_ne _ _ he''] at hk''
      exact hf.alone k' k'' wr' wr'' lease token token' hk' hk'' hl' hl''
  writes := hwrites

theorem acquire_granted
    (hg : (acquireOwnerWriteLease kind owner purpose seconds waited db).2 = some (lease, token)) :
    lease = db.nextId ∧
      Kept (acquireOwnerWriteLease kind owner purpose seconds waited db).1 lease kind owner
        False := by
  unfold acquireOwnerWriteLease at hg ⊢
  dsimp only at hg ⊢
  split at hg
  · rename_i hwritable
    cases hg
    rw [if_pos hwritable]
    refine ⟨rfl, Nat.lt_succ_self _, ⟨_, Table.get_put_self .., by simp⟩, ?_⟩
    intro l hl
    rw [Table.get_put_self] at hl
    cases hl
    exact ⟨rfl, rfl⟩
  · cases hg

theorem LeasesFit.others_mono (hf : LeasesFit s)
    (hkept : ∀ {lease kind owner back}, Kept s.db lease kind owner back →
      Kept u.db lease kind owner back) (hnext : s.nextWrite ≤ u.nextWrite)
    (hfewer : Fewer s.writes u.writes) (k' : ℕ) (wr' : Writer) (hk' : s.writers.get k' = some wr') :
    ∃ h, WriterHolds u wr' h := by
  obtain ⟨h, hw⟩ := hf.writers k' wr' hk'
  exact ⟨h, hw.mono (fun lease token hl => hkept (hw.kept lease token hl)) hnext hfewer⟩

theorem LeasesFit.writes_mono (hf : LeasesFit s)
    (hkept : ∀ {lease kind owner back}, Kept s.db lease kind owner back →
      Kept u.db lease kind owner back) (hnext : s.nextWrite ≤ u.nextWrite)
    (hfewer : Fewer s.writes u.writes) (n : ℕ) (write' : Write)
    (hw' : u.writes.get n = some write') :
    n < u.nextWrite ∧ Kept u.db write'.lease write'.ownerKind write'.ownerId write'.failed := by
  obtain ⟨write, hw, hlease, hkind, howner, hfailed⟩ := hfewer n write' hw'
  have hold := hf.writes n write hw
  rw [hlease, hkind, howner]
  exact ⟨hold.1.trans_le hnext, (hkept hold.2).imp hfailed⟩

theorem LeasesFit.turn_db (hf : LeasesFit s) (hk : s.writers.get k = some wr) {wr₁ : Writer}
    (hledger : Ledger db)
    (hkept : ∀ {lease kind owner back}, Kept s.db lease kind owner back →
      Kept db lease kind owner back) (hlease : wr₁.lease = wr.lease)
    (hself : ∃ h, WriterHolds { s with db } wr₁ h) :
    LeasesFit { s with db, writers := s.writers.put k wr₁ } :=
  hf.turn (u := { s with db }) rfl hledger hself
    (fun k' wr' _ hk' => hf.others_mono (u := { s with db }) hkept (le_refl _) (fewer_self _)
      k' wr' hk')
    (fun k' wr' lease token token' hne hk' hl hl' =>
      hne (hf.alone k' k wr' wr lease token' token hk' hk hl' (hlease ▸ hl)))
    (hf.writes_mono (u := { s with db }) hkept (le_refl _) (fewer_self _))

theorem LeasesFit.erase (hf : LeasesFit s) (k : ℕ) :
    LeasesFit { s with writers := s.writers.erase k } := by
  have hget : ∀ k' wr', (s.writers.erase k).get k' = some wr' → s.writers.get k' = some wr' := by
    intro k' wr' hk'
    rw [Table.get_erase] at hk'
    split at hk'
    · cases hk'
    · exact hk'
  refine ⟨hf.ledger, fun k' wr' hk' => ?_, fun k' k'' wr' wr'' lease t t' hk' hk'' => ?_, hf.writes⟩
  · obtain ⟨h, hw⟩ := hf.writers k' wr' (hget k' wr' hk')
    exact ⟨h, hw.mono hw.kept (le_refl _) (fewer_self _)⟩
  · exact hf.alone k' k'' wr' wr'' lease t t' (hget k' wr' hk') (hget k'' wr'' hk'')

abbrev WriterTask := Dialogue WriterAsk WriterReply (Except Thrown (Option Bool))

variable {q : WriterAsk} {next : WriterReply q → WriterTask} {job : ClaimedJob} {cleared : Bool}
  {d : Dialogue Ask Reply α}

theorem WriterHolds.answered (hw : WriterHolds s wr h) (htask : wr.task = .ask q next)
    (a : WriterReply q) (hafter : h.after q a = h)
    (hkept : ∀ lease token, wr.lease = some (lease, token) →
      Kept u.db lease wr.ownerKind wr.ownerId h.released) (hwrites : u.writes = s.writes)
    (hnext : u.nextWrite = s.nextWrite) : WriterHolds u { wr with task := next a } h := by
  have hobeys := hw.obeys
  rw [htask] at hobeys
  have hrest := hobeys.2 a trivial
  rw [show holding.after h q a = h from hafter] at hrest
  have hm : WriterHolds u wr h := hw.mono hkept hnext.ge (hwrites ▸ fewer_self _)
  exact ⟨hrest, hm.acquired, hm.asked, hm.begun, hm.kept, hm.pending⟩

section
variable {next : WriterReply .acquire → WriterTask}

theorem LeasesFit.acquire (hf : LeasesFit s) (hw : WriterHolds s wr h)
    (htask : wr.task = .ask .acquire next) (hledger : Ledger db)
    (hkept : ∀ {lease kind owner back}, Kept s.db lease kind owner back →
      Kept db lease kind owner back) {granted : Option (Id × ℕ)}
    (hnew : ∀ lease token, granted = some (lease, token) →
      lease = s.db.nextId ∧ Kept db lease wr.ownerKind wr.ownerId False) {reply : Bool}
    (hreply : reply → granted.isSome) :
    LeasesFit { s with
      db
      writers := s.writers.put k { wr with lease := granted, task := next reply } } := by
  have hobeys := hw.obeys
  rw [htask] at hobeys
  obtain ⟨hmay, hnext⟩ := hobeys
  have hnone : wr.lease = none := hw.asked hmay
  refine hf.turn (u := { s with db }) rfl hledger ⟨h.after .acquire reply, ?_⟩
    (fun k' wr' _ hk' => hf.others_mono (u := { s with db }) hkept (le_refl _) (fewer_self _)
      k' wr' hk')
    ?_ (hf.writes_mono (u := { s with db }) hkept (le_refl _) (fewer_self _))
  · refine ⟨hnext reply trivial, hreply, fun hnot => absurd rfl hnot, fun n hn => ?_, ?_, ?_⟩
    · obtain ⟨hlt, hlease⟩ := hw.begun n hn
      refine ⟨hlt, fun write hwrite => ?_⟩
      obtain ⟨token, hl⟩ := hlease write hwrite
      rw [hnone] at hl
      cases hl
    · exact fun lease token hl => (hnew lease token hl).2.imp False.elim
    · intro lease token hl n write hwrite hsame
      have hold := (hf.writes n write hwrite).2.old
      rw [hsame, (hnew lease token hl).1] at hold
      exact absurd hold (lt_irrefl _)
  · intro k' wr' lease token token' _ hk' hl hl'
    obtain ⟨h', hw'⟩ := hf.writers k' wr' hk'
    have hold := (hw'.kept lease token' hl').old
    rw [(hnew lease token hl).1] at hold
    exact lt_irrefl _ hold

end

section
variable {next : WriterReply .put → WriterTask}

theorem LeasesFit.put (hf : LeasesFit s) (hk : s.writers.get k = some wr) (hw : WriterHolds s wr h)
    (htask : wr.task = .ask .put next) (hlease : wr.lease = some (lease, token)) :
    LeasesFit { s with
      writes := s.writes.put s.nextWrite
        { lease, ownerKind := wr.ownerKind, ownerId := wr.ownerId }
      nextWrite := s.nextWrite + 1
      writers := s.writers.put k { wr with task := next s.nextWrite } } := by
  have hobeys := hw.obeys
  rw [htask] at hobeys
  obtain ⟨⟨hacquired, hunreleased⟩, hnext⟩ := hobeys
  have hnew : ∀ n, n < s.nextWrite → ∀ write : Write,
      (s.writes.put s.nextWrite write).get n = s.writes.get n := fun n hn write =>
    Table.get_put_ne _ _ hn.ne
  refine hf.turn (u := { s with
      writes := s.writes.put s.nextWrite
        { lease, ownerKind := wr.ownerKind, ownerId := wr.ownerId }
      nextWrite := s.nextWrite + 1 }) rfl hf.ledger
    ⟨h.after .put s.nextWrite, ⟨hnext s.nextWrite trivial, hw.acquired, hw.asked, ?_, hw.kept, ?_⟩⟩
    ?_ ?_ ?_
  · intro n hn
    rcases List.mem_cons.mp hn with rfl | hn
    · refine ⟨Nat.lt_succ_self _, fun write hwrite => ?_⟩
      rw [Table.get_put_self] at hwrite
      cases hwrite
      exact ⟨token, hlease⟩
    · obtain ⟨hlt, hl⟩ := hw.begun n hn
      exact ⟨Nat.lt_succ_of_lt hlt, fun write hwrite => hl write (hnew n hlt _ ▸ hwrite)⟩
  · intro lease' token' hl' n write hwrite hsame
    rw [Table.get_put] at hwrite
    split at hwrite
    · rename_i hn
      exact .inr (hn ▸ List.mem_cons_self)
    · exact (hw.pending lease' token' hl' n write hwrite hsame).imp_right (List.mem_cons_of_mem _)
  · intro k' wr' hne hk'
    obtain ⟨h', hw'⟩ := hf.writers k' wr' hk'
    refine ⟨h', hw'.obeys, hw'.acquired, hw'.asked, fun n hn => ?_, hw'.kept, ?_⟩
    · obtain ⟨hlt, hl⟩ := hw'.begun n hn
      exact ⟨Nat.lt_succ_of_lt hlt, fun write hwrite => hl write (hnew n hlt _ ▸ hwrite)⟩
    · intro lease' token' hl' n write hwrite hsame
      rw [Table.get_put] at hwrite
      split at hwrite
      · cases hwrite
        rw [← hsame] at hl'
        exact absurd (hf.alone k' k wr' wr _ token' token hk' hk hl' hlease) hne
      · exact hw'.pending lease' token' hl' n write hwrite hsame
  · exact fun k' wr' lease' t t' hne hk' hl hl' =>
      hne (hf.alone k' k wr' wr lease' t' t hk' hk hl' hl)
  · intro n write hwrite
    rw [Table.get_put] at hwrite
    split at hwrite
    · rename_i hn
      cases hwrite
      exact ⟨hn ▸ Nat.lt_succ_self _, (hw.kept lease token hlease).imp fun hb => absurd hb hunreleased⟩
    · obtain ⟨hlt, hkept⟩ := hf.writes n write hwrite
      exact ⟨Nat.lt_succ_of_lt hlt, hkept⟩

end

section
variable {n : ℕ} {next : WriterReply (.response n) → WriterTask}

theorem LeasesFit.response (hf : LeasesFit s) (hk : s.writers.get k = some wr)
    (hw : WriterHolds s wr h) (htask : wr.task = .ask (.response n) next)
    {writes : Table ℕ Write} (hfewer : Fewer s.writes writes)
    (hended : ∀ write, writes.get n = some write → write.failed) (a : Except Thrown Bool) :
    LeasesFit { s with writes, writers := s.writers.put k { wr with task := next a } } := by
  have hobeys := hw.obeys
  rw [htask] at hobeys
  have hm : WriterHolds { s with writes } wr h := hw.mono hw.kept (le_refl _) hfewer
  refine hf.turn (u := { s with writes }) rfl hf.ledger
    ⟨h.after (.response n) a, ⟨hobeys.2 a trivial, hm.acquired, hm.asked, hm.begun, hm.kept, ?_⟩⟩
    (fun k' wr' _ hk' => hf.others_mono (u := { s with writes }) (fun hkept => hkept) (le_refl _)
      hfewer k' wr' hk')
    (fun k' wr' lease t t' hne hk' hl hl' => hne (hf.alone k' k wr' wr lease t' t hk' hk hl' hl))
    (hf.writes_mono (u := { s with writes }) (fun hkept => hkept) (le_refl _) hfewer)
  intro lease token hl m write hwrite hsame
  by_cases hmn : m = n
  · exact .inl (hended write (hmn ▸ hwrite))
  · refine (hm.pending lease token hl m write hwrite hsame).imp_right fun hmem => ?_
    simp [Holding.after, hmem, hmn]

end

section
variable {next : WriterReply .release → WriterTask}

theorem LeasesFit.release (hf : LeasesFit s) (hk : s.writers.get k = some wr)
    (hw : WriterHolds s wr h) (htask : wr.task = .ask .release next)
    (hlease : wr.lease = some (lease, token)) :
    LeasesFit { s with
      db := releaseOwnerWriteLease lease token s.db
      writers := s.writers.put k { wr with task := next () } } := by
  have hobeys := hw.obeys
  rw [htask] at hobeys
  obtain ⟨hpending, hnext⟩ := hobeys
  refine hf.turn (u := { s with db := releaseOwnerWriteLease lease token s.db }) rfl
    (hf.ledger.release lease token)
    ⟨h.after .release (), ⟨hnext () trivial, hw.acquired, hw.asked, hw.begun, ?_, hw.pending⟩⟩
    (fun k' wr' hne hk' => ?_)
    (fun k' wr' lease' t t' hne hk' hl hl' => hne (hf.alone k' k wr' wr lease' t' t hk' hk hl' hl))
    (fun n write hwrite => ?_)
  · exact fun lease' t hl => ((hw.kept lease' t hl).release lease token).imp fun _ => rfl
  · obtain ⟨h', hw'⟩ := hf.writers k' wr' hk'
    refine ⟨h', hw'.mono (fun lease' t hl => ?_) (le_refl _) (fewer_self _)⟩
    refine ((hw'.kept lease' t hl).release lease token).imp fun hb => hb.resolve_right ?_
    rintro rfl
    exact hne (hf.alone k' k wr' wr lease' t token hk' hk hl hlease)
  · obtain ⟨hlt, hkept⟩ := hf.writes n write hwrite
    refine ⟨hlt, (hkept.release lease token).imp fun hb => ?_⟩
    rcases hb with hb | hb
    · exact hb
    · have hopen := hw.pending lease token hlease n write hwrite hb
      rw [show h.pending = [] from hpending] at hopen
      simpa using hopen

end

theorem LeasesFit.write (hf : LeasesFit s) (hk : s.writers.get k = some wr) (w : WriterWorld) :
    LeasesFit (writeOnce s k wr w) := by
  obtain ⟨h, hw⟩ := hf.writers k wr hk
  unfold writeOnce
  split
  · exact hf.erase k
  · rename_i q next htask
    have hobeys := hw.obeys
    rw [htask] at hobeys
    obtain ⟨hmay, hnext⟩ := hobeys
    cases q with
    | acquire =>
      simp only [answerWriter]
      have hnone : wr.lease = none := hw.asked hmay
      cases w.delivery with
      | answered =>
        exact hf.acquire hw htask (hf.ledger.acquire ..) (fun hkept => hkept.acquire hf.ledger ..)
          (fun lease token hg => acquire_granted hg) fun hr => hr
      | refused =>
        have hdenied : LeasesFit { s with
            writers := s.writers.put k { wr with lease := none, task := next false } } :=
          hf.acquire hw htask hf.ledger (fun hkept => hkept) (by simp) (by simp)
        simpa only [hnone] using hdenied
      | lost =>
        have hunheard : LeasesFit { s with
            db := (acquireOwnerWriteLease wr.ownerKind wr.ownerId w.purpose w.leaseSeconds w.waited
              s.db).1
            writers := s.writers.put k { wr with lease := none, task := next false } } :=
          hf.acquire hw htask (hf.ledger.acquire ..) (fun hkept => hkept.acquire hf.ledger ..)
            (by simp) (by simp)
        simpa only [hnone] using hunheard
    | prepare =>
      exact hf.turn_db hk hf.ledger (fun hkept => hkept) rfl
        ⟨h, hw.answered htask _ rfl hw.kept rfl rfl⟩
    | put =>
      obtain ⟨⟨lease, token⟩, hlease⟩ := Option.isSome_iff_exists.mp (hw.acquired hmay.1)
      simp only [answerWriter, hlease]
      exact hlease ▸ hf.put hk hw htask hlease
    | response n =>
      simp only [answerWriter]
      split
      · refine hf.response hk hw htask (fewer_erase _ n) (fun write hwrite => ?_) _
        simp [Table.get_erase] at hwrite
      · refine hf.response hk hw htask (fewer_failed _ n) (fun write hwrite => ?_) _
        rw [Table.get_update_self] at hwrite
        obtain ⟨_, _, rfl⟩ := Option.map_eq_some_iff.mp hwrite
        rfl
    | renew =>
      simp only [answerWriter]
      split
      · rename_i lease token hlease hd
        exact hf.turn_db hk (hf.ledger.renew ..) (fun hkept => hkept.renew ..) rfl
          ⟨h, hw.answered htask _ rfl (fun l t hl => (hw.kept l t hl).renew ..) rfl rfl⟩
      · rename_i lease token hlease hd
        exact hf.turn_db hk (hf.ledger.renew ..) (fun hkept => hkept.renew ..) rfl
          ⟨h, hw.answered htask _ rfl (fun l t hl => (hw.kept l t hl).renew ..) rfl rfl⟩
      · exact hf.turn_db hk hf.ledger (fun hkept => hkept) rfl
          ⟨h, hw.answered htask _ rfl hw.kept rfl rfl⟩
    | leaseLost =>
      exact hf.turn_db hk hf.ledger (fun hkept => hkept) rfl
        ⟨h, hw.answered htask _ rfl hw.kept rfl rfl⟩
    | release =>
      simp only [answerWriter]
      split
      · rename_i lease token hlease _
        exact hf.release hk hw htask hlease
      · rename_i lease token hlease _
        exact hf.release hk hw htask hlease
      · exact hf.turn_db hk hf.ledger (fun hkept => hkept) rfl
          ⟨h.after .release (), ⟨hnext () trivial, hw.acquired, hw.asked, hw.begun,
            fun l t hl => (hw.kept l t hl).imp fun _ => rfl, hw.pending⟩⟩

theorem heartbeatOf_eq (s : System) (wr : Writer) (delivery : Delivery) (seconds : ℕ) :
    ∃ (db : Db) (held : Bool), heartbeatOf s wr delivery seconds =
        ({ s with db }, if held then wr else { wr with leaseLost := true }) ∧
      (db = s.db ∨
        ∃ lease token, db = (renewOwnerWriteLease lease token seconds s.db).1) := by
  unfold heartbeatOf answerWriter
  dsimp only
  split
  · exact ⟨_, _, rfl, .inr ⟨_, _, rfl⟩⟩
  · exact ⟨_, false, rfl, .inr ⟨_, _, rfl⟩⟩
  · exact ⟨_, false, rfl, .inl rfl⟩

theorem LeasesFit.heartbeat (hf : LeasesFit s) (hk : s.writers.get k = some wr)
    (delivery : Delivery) (seconds : ℕ) :
    LeasesFit { (heartbeatOf s wr delivery seconds).1 with
      writers := (heartbeatOf s wr delivery seconds).1.writers.put k
        (heartbeatOf s wr delivery seconds).2 } := by
  obtain ⟨h, hw⟩ := hf.writers k wr hk
  have hself (held : Bool) {db : Db} (hm : WriterHolds { s with db } wr h) :
      ∃ h, WriterHolds { s with db } (if held then wr else { wr with leaseLost := true }) h := by
    cases held
    · exact ⟨h, hm.obeys, hm.acquired, hm.asked, hm.begun, hm.kept, hm.pending⟩
    · exact ⟨h, hm⟩
  have hlease (held : Bool) :
      (if held then wr else { wr with leaseLost := true }).lease = wr.lease := by
    cases held <;> rfl
  obtain ⟨db, held, heq, rfl | ⟨lease, token, rfl⟩⟩ := heartbeatOf_eq s wr delivery seconds
  · rw [heq]
    exact hf.turn_db hk hf.ledger (fun hkept => hkept) (hlease held) (hself held hw)
  · rw [heq]
    exact hf.turn_db hk (hf.ledger.renew ..) (fun hkept => hkept.renew ..) (hlease held)
      (hself held (hw.mono (fun l t hl => (hw.kept l t hl).renew ..) (le_refl _) (fewer_self _)))

theorem leasesFit_act (s : System) (a : Act) (hf : LeasesFit s) : LeasesFit (act s a) := by
  cases a with
  | beginWrite k ownerKind ownerId kind =>
    simp only [act]
    split
    · exact hf
    · refine hf.turn rfl hf.ledger ⟨{}, ?_⟩ (fun k' wr' _ hk' => hf.writers k' wr' hk')
        (by simp) hf.writes
      refine ⟨Obeys.mono (writes_program kind) (by simp), by simp, by simp, by simp, by simp, by simp⟩
  | write k w =>
    simp only [act]
    split
    · exact hf
    · rename_i wr hk
      exact hf.write hk w
  | heartbeat k delivery seconds =>
    simp only [act]
    split
    · exact hf
    · rename_i wr hk
      exact hf.heartbeat hk delivery seconds
  | stopWriter k => exact hf.erase k
  | land n =>
    refine ⟨hf.ledger, fun k' wr' hk' => ?_, hf.alone, ?_⟩
    · exact hf.others_mono (u := { s with writes := s.writes.erase n }) (fun hkept => hkept)
        (le_refl _) (fewer_erase _ n) k' wr' hk'
    · exact hf.writes_mono (u := { s with writes := s.writes.erase n }) (fun hkept => hkept)
        (le_refl _) (fewer_erase _ n)
  | _ => exact hf.unwritten (unwritten_act s (by simp [Act.writing]))

inductive WriterDb (db : Db) : Db → Prop
  | same : WriterDb db db
  | acquired (kind : OwnerKind) (owner : Id) (purpose : String) (seconds waited : ℕ) :
      WriterDb db (acquireOwnerWriteLease kind owner purpose seconds waited db).1
  | renewed (id : Id) (token seconds : ℕ) :
      WriterDb db (renewOwnerWriteLease id token seconds db).1
  | released (id : Id) (token : ℕ) : WriterDb db (releaseOwnerWriteLease id token db)

theorem writerDb_answer (s : System) (wr : Writer) (w : WriterWorld) (q : WriterAsk) :
    WriterDb s.db (answerWriter s wr w q).1.db := by
  cases q with
  | acquire =>
    simp only [answerWriter]
    cases w.delivery with
    | refused => exact .same
    | _ => exact .acquired ..
  | put =>
    simp only [answerWriter]
    split <;> exact .same
  | response n =>
    simp only [answerWriter]
    split <;> exact .same
  | renew =>
    simp only [answerWriter]
    split
    · exact .renewed ..
    · exact .renewed ..
    · exact .same
  | release =>
    simp only [answerWriter]
    split
    · exact .released ..
    · exact .released ..
    · exact .same
  | _ => exact .same

theorem writerDb_act (s : System) (ha : a.writing) : WriterDb s.db (act s a).db := by
  cases a with
  | beginWrite k ownerKind ownerId kind =>
    simp only [act]
    split <;> exact .same
  | write k w =>
    simp only [act]
    split
    · exact .same
    · unfold writeOnce
      split
      · exact .same
      · exact writerDb_answer s _ w _
  | heartbeat k delivery seconds =>
    simp only [act]
    split
    · exact .same
    · rename_i wr _
      exact writerDb_answer s wr { delivery, leaseSeconds := seconds } .renew
  | stopWriter k | land n => exact .same
  | _ => exact ha.elim

theorem WriterDb.only (h : WriterDb db db') : LeasesOnly db db' := by
  cases h with
  | same => exact ⟨rfl, le_refl _, rfl, rfl, rfl, rfl⟩
  | acquired kind owner purpose seconds waited => exact leasesOnly_acquire ..
  | renewed id token seconds => exact leasesOnly_renew ..
  | released id token => exact ⟨rfl, le_refl _, rfl, rfl, rfl, rfl⟩

inductive LeaseStep (db : Db) (id : Id) : Option OwnerWriteLease → Prop
  | same : LeaseStep db id (db.leases.get id)
  | gone : LeaseStep db id none
  | granted {l : OwnerWriteLease} (new : id = db.nextId)
      (writable : db.writable l.ownerKind l.ownerId) : LeaseStep db id (some l)
  | renewed {l : OwnerWriteLease} {e : Int} (get : db.leases.get id = some l)
      (live : db.now < l.leaseExpiresAt) : LeaseStep db id (some { l with leaseExpiresAt := e })

theorem leaseStep_writer (h : WriterDb db db') (id : Id) : LeaseStep db id (db'.leases.get id) := by
  cases h with
  | same => exact .same
  | acquired kind owner purpose seconds waited =>
    have hacquired := acquired db kind owner purpose seconds waited id
    generalize (acquireOwnerWriteLease kind owner purpose seconds waited db).1 = db'
      at hacquired ⊢
    generalize db'.leases.get id = row at hacquired ⊢
    generalize db'.lastExpiry.get id = last at hacquired
    cases hacquired with
    | same => exact .same
    | swept _ _ => exact .gone
    | granted new _ writable ownerKind ownerId =>
      subst ownerKind ownerId
      exact .granted new writable
  | renewed id' token seconds =>
    rcases get_renewed db id' token seconds id with
      ⟨rfl, l, e, hl, hlive, hrow, -⟩ | ⟨hrow, -⟩
    · rw [hrow]
      exact .renewed hl hlive
    · rw [hrow]
      exact .same
  | released id' token =>
    cases hrow : (releaseOwnerWriteLease id' token db).leases.get id with
    | none => exact .gone
    | some l =>
      rw [← get_released_some hrow]
      exact .same

theorem leaseStep (s : System) (a : Act) (id : Id) :
    LeaseStep s.db id ((act s a).db.leases.get id) := by
  by_cases ha : a.writing
  · exact leaseStep_writer (writerDb_act s ha) id
  · rw [(unwritten_act s ha).later.leases]
    exact .same

theorem now_act (s : System) (a : Act) : s.db.now ≤ (act s a).db.now := by
  by_cases ha : a.writing
  · exact (writerDb_act s ha).only.now.ge
  · exact (unwritten_act s ha).later.now

theorem LeasesFit.extendedInTime (hf : LeasesFit s) : ExtendedInTime s a := by
  intro id l l' hl hl' hchanged
  have hstep := leaseStep s a id
  rw [hl'] at hstep
  generalize hr : some l' = row at hstep
  cases hstep with
  | same =>
    rw [hl] at hr
    cases hr
    exact absurd rfl hchanged
  | gone => cases hr
  | granted new _ =>
    have hold := (hf.ledger.rows id l hl).1
    rw [new] at hold
    exact absurd hold (lt_irrefl _)
  | renewed get live =>
    rw [hl] at get
    cases get
    exact live

/-- Every lease of the owner expired a grace period ago. -/
def Clear (db : Db) (kind : OwnerKind) (owner : Id) : Prop :=
  ∀ id l, db.leases.get id = some l → l.ownerKind = kind → l.ownerId = owner →
    l.leaseExpiresAt + graceMs ≤ db.now

theorem clear_act (hclear : Clear s.db kind owner) (hnot : ¬s.db.writable kind owner) :
    Clear (act s a).db kind owner := by
  intro id l' hl' hkind howner
  have hnow := now_act s a
  have hstep := leaseStep s a id
  rw [hl'] at hstep
  generalize hr : some l' = row at hstep
  cases hstep with
  | same =>
    have hold := hclear id l' hr.symm hkind howner
    omega
  | gone => cases hr
  | granted _ writable =>
    cases hr
    subst hkind howner
    exact absurd writable hnot
  | renewed get live =>
    cases hr
    have hold := hclear id _ get hkind howner
    have hgrace : 0 < graceMs := by decide
    omega

theorem clear_of_answer
    (h : hasActiveOwnerWriteLeases kind owner reconciliationGraceSeconds db = false) :
    Clear db kind owner := by
  intro id l hl hkind howner
  have hnot := List.any_eq_false.mp h _ (Table.get_eq_some_iff_mem.mp hl)
  simp only [hkind, howner, decide_true, Bool.true_and, decide_eq_true_eq] at hnot
  simp only [graceMs]
  omega

def listing (job : ClaimedJob) : Setting Ask Reply Bool where
  may cleared
    | .storage (.list ..) => cleared
    | .activeWriteLeases workspaceId => workspaceId = job.row.workspaceId
    | _ => True
  fair _ _ _ := True
  after cleared
    | .activeWriteLeases _, active => cleared || !active
    | _, _ => cleared

def Ask.harmless : Ask → Prop
  | .storage (.list ..) | .activeWriteLeases _ => False
  | _ => True

/-- A question that may be put once no writer is left. -/
def Ask.later : Ask → Prop
  | .activeWriteLeases _ => False
  | _ => True

theorem obeys_harmless (h : d.Asks Ask.harmless) :
    d.Obeys (listing job) (fun _ _ => True) cleared := by
  refine h.obeys (I := fun _ => True) trivial (fun cleared q _ hq => ?_) fun _ _ _ _ _ _ => trivial
  cases q with
  | storage q => cases q <;> first | exact hq.elim | trivial
  | activeWriteLeases _ => exact hq.elim
  | _ => trivial

theorem obeys_later (h : d.Asks Ask.later) : d.Obeys (listing job) (fun _ _ => True) true := by
  refine Obeys.mono (h.obeys (I := fun cleared => cleared = true) rfl (fun cleared q hc hq => ?_)
    fun cleared q a hc hq _ => ?_) fun _ _ _ => trivial
  · cases q with
    | storage q => cases q <;> first | exact hc | trivial
    | activeWriteLeases _ => exact hq.elim
    | _ => trivial
  · cases q with
    | activeWriteLeases _ => exact hq.elim
    | _ => exact hc

theorem asks_later (h : d.Asks Ask.harmless) : d.Asks Ask.later := by
  induction d with
  | done a => trivial
  | ask q k ih =>
    refine ⟨?_, fun a => ih a (h.2 a)⟩
    cases q with
    | activeWriteLeases _ => exact h.1
    | _ => trivial

theorem asks_persist (job : ClaimedJob) (patch : Patch) :
    (persistFenced job patch).run.Asks Ask.harmless := by
  refine ⟨trivial, fun a => ?_⟩
  cases a <;> trivial

theorem asks_retryOrFail (job : ClaimedJob) (state : ScopeCleanupState) (message : String) :
    (retryOrFail job state message).run.Asks Ask.harmless := by
  unfold retryOrFail
  dsimp only
  split
  · exact asks_persist job _
  · exact ⟨trivial, fun now => asks_persist job _⟩

theorem asks_walk (job : ClaimedJob) (scopes : List String) :
    (walkScopes job scopes).run.Asks Ask.later := by
  refine Asks.handle (fun q => ?_) _
  cases q <;> exact ⟨trivial, fun _ => trivial⟩

theorem obeys_runStorageCleanup (job : ClaimedJob) (cleared : Bool) :
    (runStorageCleanup job).run.Obeys (listing job) (fun _ _ => True) cleared := by
  refine ⟨rfl, fun active _ => ?_⟩
  cases active with
  | true => exact obeys_harmless (asks_persist job _)
  | false =>
    have hcleared : (cleared || !false) = true := by simp
    show Dialogue.Obeys (listing job) _ (cleared || !false) _
    rw [hcleared]
    refine obeys_later ⟨trivial, fun quiescent => ?_⟩
    rcases quiescent with err | (_ | _)
    · exact asks_later (asks_retryOrFail job _ _)
    · exact asks_later (asks_persist job _)
    · refine ⟨trivial, fun scopes => ?_⟩
      rcases scopes with err | scopes
      · exact asks_later (asks_retryOrFail job _ _)
      · refine (asks_walk job scopes).bindExcept ?_
        rintro ⟨outcome, state⟩
        cases outcome with
        | error message => exact asks_later (asks_retryOrFail job _ _)
        | advance => exact asks_later (asks_persist job _)
        | progress => exact asks_later (asks_persist job _)

theorem asks_finishJob (job : ClaimedJob) : (finishJob job).run.Asks Ask.harmless := by
  refine ⟨trivial, fun a => ?_⟩
  cases a with
  | error e => trivial
  | ok _ => exact ⟨trivial, fun now => asks_persist job _⟩

theorem asks_back (job : ClaimedJob) (message : String) :
    Asks Ask.harmless (do
      persistFenced job
        { status := some .storageCleanup, release := true, errorMessage := some message }
      pure false : WorkerProg Bool).run :=
  (asks_persist job _).bindExcept fun _ => trivial

theorem asks_purge (job : ClaimedJob) :
    Asks Ask.harmless (do
      cdnCall
      match ← deleteWorkspace job.row.requestedBy job.row.workspaceId with
      | some error =>
        if ← workspaceStillExists job.row.workspaceId then
          retryOrFail job job.row.storageScopes s!"db cleanup failed: {error}"
        else finishJob job
      | none => finishJob job : WorkerProg Unit).run := by
  refine ⟨trivial, fun a => ?_⟩
  cases a with
  | error e => trivial
  | ok _ =>
    refine ⟨trivial, fun error => ?_⟩
    cases error with
    | none => exact asks_finishJob job
    | some error =>
      have hlookup : Asks Ask.harmless (workspaceStillExists job.row.workspaceId).run :=
        ⟨trivial, fun _ => trivial⟩
      refine hlookup.bindExcept fun still => ?_
      cases still
      · exact asks_finishJob job
      · exact asks_retryOrFail job _ _

theorem obeys_runDbCleanup (job : ClaimedJob) (cleared : Bool) :
    (runDbCleanup job).run.Obeys (listing job) (fun _ _ => True) cleared := by
  have hmono {γ : Type} {cleared : Bool} {d : WorkerProg γ} (hd : Asks Ask.harmless d.run) :
      Obeys (listing job) (upon (fun _ _ => True) fun _ _ => True) cleared d.run :=
    Obeys.mono (obeys_harmless hd) (by rintro _ (_ | _) _ <;> trivial)
  have hreassert : Obeys (listing job) (upon (fun _ _ => True) fun _ _ => True) cleared
      (reassertSafeToPurge job).run := by
    refine ⟨rfl, fun active _ => ?_⟩
    cases active with
    | true => exact hmono (asks_back job _)
    | false =>
      refine ⟨trivial, fun quiescent _ => ?_⟩
      rcases quiescent with err | (_ | _)
      · exact hmono (asks_back job _)
      · exact hmono (asks_back job _)
      · trivial
  have hall : Obeys (listing job) (upon (fun _ _ => True) fun _ _ => True) cleared
      (runDbCleanup job).run := by
    refine hreassert.bindExcept fun cleared safe _ => hmono ?_
    split
    · exact asks_purge job
    · trivial
  exact Obeys.mono hall fun _ _ _ => trivial

theorem obeys_workOn (job : ClaimedJob) (cleared : Bool) :
    (workOn job).run.Obeys (listing job) (fun _ _ => True) cleared := by
  unfold workOn
  split
  · exact obeys_runStorageCleanup job cleared
  · split
    · exact obeys_runDbCleanup job cleared
    · trivial

structure Walking (db : Db) (worker : Worker) : Prop where
  old : worker.job.row.workspaceId < db.nextId
  inactive : db.workspaces.get worker.job.row.workspaceId ≠ some .active
  walks : ∃ cleared : Bool, (cleared → Clear db .workspace worker.job.row.workspaceId) ∧
    Obeys (listing worker.job) (fun _ _ => True) cleared worker.task

def UserFit (db : Db) (walk : UserWalk) : Prop :=
  walk.ended = false →
    db.userJobLive walk.userId ∧ (walk.cleared → Clear db .user walk.userId)

structure OwnersFit (s : System) : Prop where
  workspaces : ∀ workspaceId, (s.db.workspaces.get workspaceId).isSome → workspaceId < s.db.nextId
  jobs : ∀ id j, s.db.jobs.get id = some j →
    j.workspaceId < s.db.nextId ∧ s.db.workspaces.get j.workspaceId ≠ some .active
  userJobs : ∀ id j, s.db.userJobs.get id = some j → id < s.db.nextId
  workers : ∀ k worker, s.workers.get k = some worker → Walking s.db worker
  userWalks : ∀ k walk, s.userWalks.get k = some walk → UserFit s.db walk

theorem inactive_act {workspaceId : Id} (hlt : workspaceId < s.db.nextId)
    (h : s.db.workspaces.get workspaceId ≠ some .active) :
    (act s a).db.workspaces.get workspaceId ≠ some .active := by
  intro hactive
  rcases (ages_act s a).active workspaceId hactive with hbefore | rfl
  · exact h hbefore
  · exact lt_irrefl _ hlt

theorem OwnersFit.jobs_act (ho : OwnersFit s) {j' : DeletionJob}
    (hj' : (act s a).db.jobs.get id = some j') :
    j'.workspaceId < (act s a).db.nextId ∧
      (act s a).db.workspaces.get j'.workspaceId ≠ some .active := by
  have hkept : ∀ j, s.db.jobs.get id = some j → j.workspaceId < (act s a).db.nextId ∧
      (act s a).db.workspaces.get j.workspaceId ≠ some .active := fun j hj =>
    ⟨(ho.jobs id j hj).1.trans_le (ages_act s a).nextId,
      inactive_act (ho.jobs id j hj).1 (ho.jobs id j hj).2⟩
  have hstep := rowStep s a id
  rw [hj'] at hstep
  generalize hr : some j' = r at hstep
  cases hstep with
  | same => exact hkept j' hr.symm
  | enqueued active =>
    cases hr
    refine ⟨(ho.workspaces _ (by simp [active])).trans_le (ages_act s _).nextId, ?_⟩
    simp [act, enqueueWorkspaceDeletion, active]
  | retried get failed =>
    cases hr
    have hold := hkept _ get
    exact hold
  | claimed get =>
    cases hr
    have hold := hkept _ get
    exact hold
  | asked get task asked =>
    cases asked with
    | same => exact hkept j' hr.symm
    | renewed getJob held =>
      cases hr
      have hold := hkept _ getJob
      exact hold
    | patched getJob held =>
      cases hr
      have hold := hkept _ getJob
      exact hold
    | purged _ _ _ _ _ _ => cases hr

theorem unwritable_workspace {workspaceId : Id}
    (h : s.db.workspaces.get workspaceId ≠ some .active) :
    ¬s.db.writable .workspace workspaceId := by
  simpa [Db.writable] using h

theorem OwnersFit.workers_act (ho : OwnersFit s) {worker : Worker}
    (hk : (act s a).workers.get k = some worker) : Walking (act s a).db worker := by
  cases workerStep hk with
  | other get other =>
    have hwalk := ho.workers _ _ get
    obtain ⟨cleared, hcleared, hobeys⟩ := hwalk.walks
    exact ⟨hwalk.old.trans_le (ages_act s a).nextId, inactive_act hwalk.old hwalk.inactive, cleared,
      fun hc => clear_act (hcleared hc) (unwritable_workspace hwalk.inactive), hobeys⟩
  | answered get task =>
    rename_i w worker q next
    have hwalk := ho.workers _ _ get
    obtain ⟨cleared, hcleared, hobeys⟩ := hwalk.walks
    rw [task] at hobeys
    refine ⟨hwalk.old.trans_le (ages_act s _).nextId, inactive_act hwalk.old hwalk.inactive, _, ?_,
      hobeys.2 (answerAsk s.db w q).2 trivial⟩
    intro hc
    have hclear : Clear s.db .workspace worker.job.row.workspaceId := by
      cases q with
      | activeWriteLeases workspaceId =>
        rcases Bool.or_eq_true_iff.mp hc with hc | hanswer
        · exact hcleared hc
        · have hws : workspaceId = worker.job.row.workspaceId := hobeys.1
          subst hws
          simp only [answerAsk] at hanswer
          split at hanswer
          · exact clear_of_answer (by simpa using hanswer)
          all_goals cases hanswer
      | _ => exact hcleared hc
    exact clear_act hclear (unwritable_workspace hwalk.inactive)
  | claimed free get row nextToken =>
    have hjob := ho.jobs _ _ get
    exact ⟨hjob.1.trans_le (ages_act s _).nextId, inactive_act hjob.1 hjob.2, false, by simp,
      obeys_workOn _ false⟩

theorem userJobLive_iff : db.userJobLive owner ↔
    ∃ id j, db.userJobs.get id = some j ∧ j.userId = owner ∧ j.live := by
  simp only [Db.userJobLive, List.any_eq_true, Bool.and_eq_true, decide_eq_true_eq]
  constructor
  · rintro ⟨⟨id, j⟩, hmem, hj⟩
    exact ⟨id, j, Table.get_eq_some_iff_mem.mpr hmem, hj⟩
  · rintro ⟨id, j, hj, hrest⟩
    exact ⟨(id, j), Table.get_eq_some_iff_mem.mp hj, hrest⟩

theorem unwritable_user (h : s.db.userJobLive owner) : ¬s.db.writable .user owner := by
  simp [Db.writable, h]

def Act.users : Act → Prop
  | .enqueueUserDeletion .. | .endUserDeletion _ | .claimUser .. | .checkUser .. | .stopUser _ => True
  | _ => False

theorem userWalks_answer (s : System) (wr : Writer) (w : WriterWorld) (q : WriterAsk) :
    (answerWriter s wr w q).1.userWalks = s.userWalks := by
  cases q with
  | acquire =>
    simp only [answerWriter]
    cases w.delivery <;> rfl
  | put | response n | renew | release =>
    simp only [answerWriter]
    split <;> rfl
  | _ => rfl

theorem userJobs_answer (db : Db) (w : World) (q : Ask) :
    (answerAsk db w q).1.userJobs = db.userJobs := by
  cases q with
  | renewLease id token =>
    have hsame : (renewWorkspaceDeletionLease id token leaseSeconds db).1.userJobs =
        db.userJobs := by
      unfold renewWorkspaceDeletionLease
      split <;> rfl
    simp only [answerAsk]
    cases w.delivery with
    | refused => rfl
    | _ => exact hsame
  | persist id token patch =>
    have hsame : (updateFenced id token patch db).1.userJobs = db.userJobs := by
      unfold updateFenced
      split <;> rfl
    simp only [answerAsk]
    cases w.delivery with
    | refused => rfl
    | _ => exact hsame
  | deleteWorkspace actor workspaceId =>
    have hsame : (adminDeleteWorkspace w.isAdmin w.purge workspaceId db).1.userJobs =
        db.userJobs := by
      unfold adminDeleteWorkspace
      split
      · rfl
      · split
        · rfl
        · split <;> rfl
    simp only [answerAsk]
    cases w.delivery with
    | refused => rfl
    | _ => exact hsame
  | _ => rfl

theorem users_act (s : System) (ha : ¬a.users) :
    (act s a).db.userJobs = s.db.userJobs ∧ (act s a).userWalks = s.userWalks := by
  cases a with
  | write k w =>
    refine ⟨(writerDb_act (a := .write k w) s trivial).only.userJobs, ?_⟩
    simp only [act]
    split
    · rfl
    · unfold writeOnce
      split
      · rfl
      · exact userWalks_answer s _ w _
  | heartbeat k delivery seconds =>
    refine ⟨(writerDb_act (a := .heartbeat k delivery seconds) s trivial).only.userJobs, ?_⟩
    simp only [act]
    split
    · rfl
    · exact userWalks_answer s _ _ .renew
  | beginWrite k ownerKind ownerId kind =>
    simp only [act]
    split <;> exact ⟨rfl, rfl⟩
  | enqueueWorkspaceDeletion workspaceId actor =>
    refine ⟨?_, rfl⟩
    simp only [act, enqueueWorkspaceDeletion]
    split <;> rfl
  | claim k workerId skipped delivery =>
    have hclaim : (claimWorkspaceDeletionJob workerId leaseSeconds skipped s.db).1.userJobs =
        s.db.userJobs := by
      unfold claimWorkspaceDeletionJob
      split <;> rfl
    simp only [act]
    split
    · exact ⟨rfl, rfl⟩
    · split
      · rename_i hc
        rw [hc] at hclaim
        exact ⟨hclaim, rfl⟩
      · rename_i hc
        rw [hc] at hclaim
        split <;> exact ⟨hclaim, rfl⟩
  | work k w =>
    simp only [act]
    split
    · exact ⟨rfl, rfl⟩
    · unfold workOnce
      split
      · exact ⟨rfl, rfl⟩
      · exact ⟨userJobs_answer s.db w _, rfl⟩
  | elapse _ | createWorkspace | createProfile | retryWorkspaceDeletion _ | stopWorker _
  | listUser _ | stopWriter _ | land _ => exact ⟨rfl, rfl⟩
  | _ => exact absurd trivial ha

theorem userFit_act {walk : UserWalk} (h : UserFit s.db walk)
    (hlive : walk.ended = false → s.db.userJobLive walk.userId →
      (act s a).db.userJobLive walk.userId) : UserFit (act s a).db walk := by
  intro hended
  obtain ⟨hbefore, hclear⟩ := h hended
  exact ⟨hlive hended hbefore, fun hc => clear_act (hclear hc) (unwritable_user hbefore)⟩

theorem OwnersFit.userWalks_act (ho : OwnersFit s) {walk : UserWalk}
    (hk : (act s a).userWalks.get k = some walk) : UserFit (act s a).db walk := by
  by_cases ha : a.users
  · cases a with
    | enqueueUserDeletion userId actor =>
      refine userFit_act (ho.userWalks k walk hk) fun _ hlive => ?_
      simp only [act, enqueueUserDeletion]
      split
      · exact hlive
      · obtain ⟨id, j, hj, hrest⟩ := userJobLive_iff.mp hlive
        refine userJobLive_iff.mpr ⟨id, j, ?_, hrest⟩
        exact (Table.get_put_ne _ _ (ho.userJobs id j hj).ne).trans hj
    | endUserDeletion id =>
      simp only [act, endUserDeletion] at hk
      split at hk
      · rename_i hnone
        refine userFit_act (ho.userWalks k walk hk) fun _ hlive => ?_
        simpa [act, endUserDeletion, hnone] using hlive
      · rename_i j hj
        rw [Table.get_mapValues] at hk
        obtain ⟨before, hbefore, rfl⟩ := Option.map_eq_some_iff.mp hk
        split
        · exact fun hended => by cases hended
        · rename_i hother
          refine userFit_act (ho.userWalks k before hbefore) fun _ hlive => ?_
          obtain ⟨id', j', hj', hrest⟩ := userJobLive_iff.mp hlive
          simp only [act, endUserDeletion, hj]
          refine userJobLive_iff.mpr ⟨id', j', ?_, hrest⟩
          refine (Table.get_put_ne _ _ ?_).trans hj'
          rintro rfl
          rw [hj] at hj'
          cases hj'
          exact hother hrest.1.symm
    | claimUser k' id =>
      have hdb : (act s (.claimUser k' id)).db = s.db := by
        simp only [act]
        split
        · split <;> rfl
        · rfl
      rw [hdb]
      simp only [act] at hk
      split at hk
      · rename_i j hfree hj
        split at hk
        · rename_i hlive
          by_cases he : k = k'
          · subst he
            rw [Table.get_put_self] at hk
            cases hk
            exact fun _ => ⟨userJobLive_iff.mpr ⟨id, j, hj, rfl, hlive⟩, by simp⟩
          · rw [Table.get_put_ne _ _ he] at hk
            exact ho.userWalks k walk hk
        · exact ho.userWalks k walk hk
      · exact ho.userWalks k walk hk
    | checkUser k' delivery =>
      have hdb : (act s (.checkUser k' delivery)).db = s.db := by
        simp only [act, checkUser]
        split
        · rfl
        · split <;> rfl
      rw [hdb]
      simp only [act, checkUser] at hk
      split at hk
      · exact ho.userWalks k walk hk
      · rename_i before hbefore
        split at hk
        · rename_i hclear
          by_cases he : k = k'
          · subst he
            rw [Table.get_put_self] at hk
            cases hk
            intro hended
            have hlive := (ho.userWalks k before hbefore hended).1
            exact ⟨hlive, fun _ => clear_of_answer (by simpa using hclear.2)⟩
          · rw [Table.get_put_ne _ _ he] at hk
            exact ho.userWalks k walk hk
        · rw [Table.get_erase] at hk
          split at hk
          · cases hk
          · exact ho.userWalks k walk hk
    | stopUser k' =>
      simp only [act, Table.get_erase] at hk
      split at hk
      · cases hk
      · exact ho.userWalks k walk hk
    | _ => exact ha.elim
  · obtain ⟨hjobs, hwalks⟩ := users_act s ha
    rw [hwalks] at hk
    refine userFit_act (ho.userWalks k walk hk) fun _ hlive => ?_
    rwa [Db.userJobLive, hjobs]

theorem OwnersFit.userJobs_act (ho : OwnersFit s) {j' : UserDeletionJob}
    (hj' : (act s a).db.userJobs.get id = some j') : id < (act s a).db.nextId := by
  have hkept : ∀ j, s.db.userJobs.get id = some j → id < (act s a).db.nextId := fun j hj =>
    (ho.userJobs id j hj).trans_le (ages_act s a).nextId
  by_cases ha : a.users
  · cases a with
    | enqueueUserDeletion userId actor =>
      simp only [act, enqueueUserDeletion] at hj' hkept ⊢
      split at hj'
      · rename_i hrefused
        rw [if_pos hrefused] at hkept ⊢
        exact hkept j' hj'
      · rename_i hrefused
        rw [if_neg hrefused] at hkept ⊢
        by_cases he : id = s.db.nextId
        · rw [he]
          exact Nat.lt_succ_self _
        · exact hkept j' (by rwa [Table.get_put_ne _ _ he] at hj')
    | endUserDeletion id' =>
      simp only [act, endUserDeletion] at hj'
      split at hj'
      · exact hkept j' hj'
      · rename_i j hj
        by_cases he : id = id'
        · subst he
          exact hkept j hj
        · exact hkept j' (by rwa [Table.get_put_ne _ _ he] at hj')
    | claimUser k' id' =>
      simp only [act] at hj'
      split at hj'
      · split at hj' <;> exact hkept j' hj'
      · exact hkept j' hj'
    | checkUser k' delivery =>
      simp only [act, checkUser] at hj'
      split at hj'
      · exact hkept j' hj'
      · split at hj' <;> exact hkept j' hj'
    | stopUser k' => exact hkept j' hj'
    | _ => exact ha.elim
  · rw [(users_act s ha).1] at hj'
    exact hkept j' hj'

theorem ownersFit_act (s : System) (a : Act) (ho : OwnersFit s) : OwnersFit (act s a) where
  workspaces workspaceId hw := by
    rcases (ages_act s a).workspaces workspaceId hw with hbefore | ⟨rfl, hlt⟩
    · exact (ho.workspaces workspaceId hbefore).trans_le (ages_act s a).nextId
    · exact hlt
  jobs _ _ hj := ho.jobs_act hj
  userJobs _ _ hj := ho.userJobs_act hj
  workers _ _ hk := ho.workers_act hk
  userWalks _ _ hk := ho.userWalks_act hk

theorem OwnersFit.grantedInTime (ho : OwnersFit s) : GrantedInTime s a := by
  intro id l' hl' hnone
  have hstep := leaseStep s a id
  rw [hl'] at hstep
  generalize hr : some l' = row at hstep
  cases hstep with
  | same =>
    rw [hnone] at hr
    cases hr
  | gone => cases hr
  | renewed get _ =>
    rw [hnone] at get
    cases get
  | granted _ writable =>
    cases hr
    refine ⟨writable, fun hqueued => ?_⟩
    cases hkind : l'.ownerKind with
    | workspace =>
      rw [hkind] at writable hqueued
      obtain ⟨⟨id', j⟩, hmem, hj⟩ := List.any_eq_true.mp hqueued
      have hinactive := (ho.jobs id' j (Table.get_eq_some_iff_mem.mpr hmem)).2
      rw [decide_eq_true_eq.mp hj] at hinactive
      exact unwritable_workspace hinactive writable
    | user =>
      rw [hkind] at writable hqueued
      exact unwritable_user hqueued writable

theorem LeasesFit.quiet (hf : LeasesFit s) (htime : inTime s) (hclear : Clear s.db kind owner)
    {write : Write} (hw : s.writes.get n = some write) (hkind : write.ownerKind = kind)
    (howner : write.ownerId = owner) : write.failed ∧ s.db.leases.get write.lease = none := by
  obtain ⟨e, he, hgone⟩ := (hf.writes n write hw).2.expiry
  have hin := List.all_eq_true.mp htime _ (Table.get_eq_some_iff_mem.mp hw)
  simp only [he, Option.all_some, decide_eq_true_eq] at hin
  have hgrace : graceMs = 600000 := by decide
  cases hrow : s.db.leases.get write.lease with
  | none =>
    refine ⟨(hgone hrow).resolve_right fun hlong => ?_, rfl⟩
    omega
  | some l =>
    obtain ⟨hk, ho⟩ := (hf.writes n write hw).2.owner l hrow
    have hexpired := hclear _ l hrow (hk.trans hkind) (ho.trans howner)
    have hlast := (hf.ledger.rows _ l hrow).2
    rw [he] at hlast
    cases hlast
    omega

theorem LeasesFit.quietListing (hf : LeasesFit s) (ho : OwnersFit s) (htime : inTime s) :
    QuietListing s a := by
  intro kind owner hlisted n write hw hkind howner
  refine hf.quiet htime ?_ hw hkind howner
  unfold listedOwner at hlisted
  split at hlisted
  · split at hlisted
    · cases hlisted
    · rename_i worker hk
      obtain ⟨cleared, hcleared, hobeys⟩ := (ho.workers _ worker hk).walks
      split at hlisted
      · rename_i htask
        rw [htask] at hobeys
        cases hlisted
        exact hcleared hobeys.1
      · cases hlisted
  · split at hlisted
    · cases hlisted
    · rename_i walk hk
      split at hlisted
      · rename_i hwalk
        simp only [Bool.and_eq_true, Bool.not_eq_true'] at hwalk
        cases hlisted
        exact (ho.userWalks _ walk hk hwalk.2).2 hwalk.1
      · cases hlisted
  · cases hlisted

structure DeletionFit (s : System) : Prop where
  leases : LeasesFit s
  owners : OwnersFit s

theorem deletionFit_start : DeletionFit {} where
  leases := ⟨⟨by simp, by simp⟩, by simp, by simp, by simp⟩
  owners := ⟨by simp, by simp, by simp, by simp, by simp⟩

theorem deletionFit_act (s : System) (a : Act) (h : DeletionFit s) : DeletionFit (act s a) :=
  ⟨leasesFit_act s a h.leases, ownersFit_act s a h.owners⟩

theorem guarded_of_fit (as : List Act) (s : System) (h : DeletionFit s)
    (htime : Meets act (fun s _ => inTime s) s as) : Meets act Guarded s as := by
  induction as generalizing s with
  | nil => trivial
  | cons a as ih =>
    exact ⟨⟨h.leases.quietListing h.owners htime.1, h.owners.grantedInTime,
      h.leases.extendedInTime⟩, ih _ (deletionFit_act s a h) htime.2⟩

/-- While writes end in time, no storage is listed under a write, and no lease is granted to an
owner whose deletion is queued or extended once it has expired. -/
theorem leases_guard_deletion (as : List Act) (htime : Meets act (fun s _ => inTime s) {} as) :
    Meets act Guarded {} as :=
  guarded_of_fit as {} deletionFit_start htime

def NeverExtended (s : System) (a : Act) : Prop :=
  ∀ id l l', s.db.leases.get id = some l → (act s a).db.leases.get id = some l' →
    s.db.queued l.ownerKind l.ownerId → l'.leaseExpiresAt ≤ l.leaseExpiresAt

def renewedRun : List Act :=
  [.createWorkspace, .beginWrite 0 .workspace 0 (.upload 0), .write 0 {},
    .enqueueWorkspaceDeletion 0 9, .elapse 30000, .heartbeat 0 .answered 120]

theorem renewedRun_extends :
    Meets act (fun s _ => inTime s) {} renewedRun ∧ ¬Meets act NeverExtended {} renewedRun := by
  refine ⟨by decide, fun h => ?_⟩
  let lease (e : Int) : OwnerWriteLease :=
    { leaseToken := 0, ownerKind := .workspace, ownerId := 0, purpose := "upload"
      leaseExpiresAt := e }
  have hsplit : Meets act NeverExtended {} (renewedRun.take 5 ++ renewedRun.drop 5) := h
  have hlast := hsplit.append_right
  exact absurd (hlast.1 1 (lease 120000) (lease 150000) rfl rfl (by decide)) (by decide)

def stored : World where
  storage
    | .resolve _ => .ok (.configured { provider := "local" })
    | .list .. => .ok { success := true }
    | .delete .. => .ok { success := true }
    | .heartbeat => .ok true
    | .persist _ => .saved
    | .clock => 0

def waitedRun : List Act :=
  renewedRun ++ List.replicate 7 (.write 0 {}) ++ [.claim 0 "wsdel-1" [] .answered] ++
    List.replicate 5 (.work 0 stored)

theorem waitedRun_guarded : Meets act Guarded {} waitedRun :=
  leases_guard_deletion waitedRun (by decide)

end Kindred.Deletion
