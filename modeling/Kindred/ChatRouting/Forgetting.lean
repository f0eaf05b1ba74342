import Kindred.ChatRouting.Starving
import Kindred.ChatRouting.Timeouts
import Mathlib.Data.List.Induction

/-! Which conversations a pass of the ticker forgets when calls fail. -/

namespace Kindred.ChatRouting
open Lib (Table run)
open Lib.Tx

/-- Somebody has the conversation, or a later pass can hand it out. -/
def ChatDb.Remembered (db : ChatDb) (id : Id) : Prop :=
  (db.holder id).isSome = true ∨ ∃ row, db.states.get id = some row ∧
    (row.prechatDeadline.isSome = true ∨ row.waitingSince.isSome = true)

structure Touches (id : Id) (db db' : ChatDb) : Prop where
  widgetSettings : db'.widgetSettings = db.widgetSettings
  others : ∀ id', id' ≠ id → db'.conversations.get id' = db.conversations.get id' ∧
    db'.states.get id' = db.states.get id'
  own : ∀ c, db.conversations.get id = some c → ∃ c', db'.conversations.get id = some c' ∧
    c'.workspaceId = c.workspaceId ∧ c'.routable = c.routable

namespace Touches
variable {id : Id} {db db' db'' : ChatDb}

theorem refl (id : Id) (db : ChatDb) : Touches id db db :=
  ⟨rfl, fun _ _ => ⟨rfl, rfl⟩, fun c hc => ⟨c, hc, rfl, rfl⟩⟩

theorem trans (h : Touches id db db') (h' : Touches id db' db'') : Touches id db db'' := by
  refine ⟨h'.widgetSettings.trans h.widgetSettings, fun id' hne => ?_, fun c hc => ?_⟩
  · obtain ⟨hconv, hstate⟩ := h.others id' hne
    obtain ⟨hconv', hstate'⟩ := h'.others id' hne
    exact ⟨hconv'.trans hconv, hstate'.trans hstate⟩
  · obtain ⟨c', hc', hws, hroutable⟩ := h.own c hc
    obtain ⟨c'', hc'', hws', hroutable'⟩ := h'.own c' hc'
    exact ⟨c'', hc'', hws'.trans hws, hroutable'.trans hroutable⟩

theorem ite {p : Prop} [Decidable p] (h : Touches id db db') :
    Touches id db (if p then db' else db) := by
  split
  · exact h
  · exact refl id db

theorem assign (db : ChatDb) (id : Id) (user : Option Id) : Touches id db (db.assign id user) := by
  refine ⟨rfl, fun id' hne => ⟨?_, rfl⟩, fun c hc => ⟨{ c with assignedTo := user }, ?_, rfl, rfl⟩⟩
  · rw [ChatDb.assign_conversation]
    cases db.conversations.get id' <;> simp [hne]
  · rw [ChatDb.assign_conversation, hc]
    simp

theorem upsertState (db : ChatDb) (id : Id) (row : RoutingState)
    (update : RoutingState → RoutingState) : Touches id db (db.upsertState id row update) := by
  refine ⟨rfl, fun id' hne => ⟨rfl, ?_⟩, fun c hc => ⟨c, hc, rfl, rfl⟩⟩
  rw [ChatDb.upsertState_state, if_neg hne]

theorem updateState (db : ChatDb) (id : Id) (update : RoutingState → RoutingState) :
    Touches id db (db.updateState id update) := by
  refine ⟨rfl, fun id' hne => ⟨rfl, ?_⟩, fun c hc => ⟨c, hc, rfl, rfl⟩⟩
  rw [ChatDb.updateState_state]
  cases db.states.get id' <;> simp [hne]

theorem claimed (now : Timestamp) (p : ClaimArgs) (order : ClaimOrder) (user : Id) (db : ChatDb) :
    Touches p.conversationId db (claimed now p order user db) := by
  refine (assign db p.conversationId (some user)).trans ?_
  have hupsert := upsertState { db.assign p.conversationId (some user) with
    lastAssigned := (ChatRouting.claimed now p order user db).lastAssigned
    cursors := (ChatRouting.claimed now p order user db).cursors } p.conversationId
  exact ⟨(hupsert _ _).widgetSettings, (hupsert _ _).others, (hupsert _ _).own⟩

theorem commit_claim (now : Timestamp) (p : ClaimArgs) (db : ChatDb) :
    Touches p.conversationId db (commit (chatRouteClaim now p) db) := by
  unfold commit
  cases h : chatRouteClaim now p db with
  | error e => exact refl _ db
  | ok r =>
    obtain ⟨outcome, db'⟩ := r
    obtain ⟨-, rfl⟩ | ⟨order, user, -, -, -, rfl⟩ := chatRouteClaim_cases h
    · exact refl _ db'
    · exact claimed now p order user db

theorem release (now : Timestamp) (ws id : Id) (from_ : Option Id) (reason : Option WaitReason)
    (db : ChatDb) : Touches id db (commit (chatRoutingRelease now ws id from_ reason) db) := by
  obtain h | ⟨c, holder, why, -, -, -, -, h⟩ := release_cases now ws id from_ reason db
  · rw [h]
    exact refl id db
  · rw [h]
    exact (assign db id none).trans (upsertState _ id _ _)

theorem compareAndAssign (ws id : Id) (from_ user : Option Id) (db : ChatDb) :
    Touches id db (compareAndAssign ws id from_ user db) := by
  obtain h | ⟨c, -, -, h⟩ := compareAndAssign_cases ws id from_ user db
  · rw [h]
    exact refl id db
  · rw [h]
    exact assign db id user

theorem wait (now : Timestamp) (ws id : Id) (reason : Option WaitReason) (fromTicker : Bool)
    (db : ChatDb) : Touches id db (chatRoutingWait now ws id reason fromTicker db) := by
  unfold chatRoutingWait
  cases reason with
  | none => exact updateState db id _
  | some reason =>
    cases db.conversationOf ws id with
    | none => exact refl id db
    | some c => exact upsertState db id _ _

theorem recordWait (s : Scene) (ws id : Id) (reason : Option WaitReason) (fromTicker : Bool)
    (db : ChatDb) : Touches id db (recordWait s ws id reason fromTicker db) :=
  ite (wait s.now ws id reason fromTicker db)

theorem patchMetadata (s : Scene) (call : Call) (id : Id) {patch : Conversation → Conversation}
    (hpatch : ∀ c, (patch c).workspaceId = c.workspaceId ∧ (patch c).routable = c.routable)
    (db : ChatDb) : Touches id db (patchMetadata s call id patch db) := by
  refine ite ⟨rfl, fun id' hne => ⟨?_, rfl⟩, fun c hc => ⟨patch c, ?_, hpatch c⟩⟩
  · simp [Table.get_update_ne _ _ hne]
  · simp [hc]

theorem notPending (s : Scene) (id : Id) (db : ChatDb) :
    Touches id db (ChatRouting.patchMetadata s .patch id Conversation.notPending db) := by
  refine patchMetadata s .patch id ?_ db
  exact fun _ => ⟨rfl, rfl⟩

theorem withPerson (s : Scene) (id : Id) (db : ChatDb) :
    Touches id db (ChatRouting.patchMetadata s .patch id Conversation.withPerson db) := by
  refine patchMetadata s .patch id ?_ db
  exact fun _ => ⟨rfl, rfl⟩

theorem releaseIfSeatLocked (s : Scene) (ws id : Id) (c : Conversation) (db : ChatDb) :
    Touches id db (releaseIfSeatLocked s ws id c db).2 := by
  unfold ChatRouting.releaseIfSeatLocked
  cases c.assignedTo with
  | none => exact refl id db
  | some holder =>
    dsimp only
    split
    · exact ite (compareAndAssign ws id _ _ db)
    · exact refl id db

theorem resolveDepartment {s : Scene} {c : Conversation} {departmentId : Option Id}
    (h : resolveConversationDepartment s id c db = some (departmentId, db')) :
    Touches id db db' := by
  unfold resolveConversationDepartment at h
  split at h
  · cases h
    exact refl id db
  · split at h
    · cases h
    · cases h
      exact refl id db
    · cases h
      refine patchMetadata s .patchDepartment id ?_ db
      exact fun _ => ⟨rfl, rfl⟩

theorem pickFrom (s : Scene) (a : PickArgs) (xs : List Search) (attempt : ℕ) (anyOnline : Bool)
    (db : ChatDb) : Touches a.conversationId db (pickFrom s a xs attempt anyOnline db).2 := by
  induction xs generalizing attempt anyOnline db with
  | nil => exact refl _ db
  | cons x rest ih =>
    have hcommit : Touches a.conversationId db
        (commit (chatRouteClaim s.now (a.claimArgs x)) db) := commit_claim s.now (a.claimArgs x) db
    unfold ChatRouting.pickFrom
    split
    · exact refl _ db
    · exact ih attempt anyOnline db
    · dsimp only
      split
      · exact ite hcommit
      · exact ite hcommit
      · split
        · exact refl _ db
        · rename_i outcome db' hclaim
          have hdb' : commit (chatRouteClaim s.now (a.claimArgs x)) db = db' := by
            simp [commit, hclaim]
          rw [hdb'] at hcommit
          split <;> first | exact hcommit | exact hcommit.trans (ih (attempt + 1) true db')

theorem settle (s : Scene) (ws id : Id) (mode : AssignmentMode) (fromTicker : Bool) (db : ChatDb)
    (picked : PickResult) : Touches id db (settle s ws id mode fromTicker db picked).2 := by
  cases picked with
  | assigned user method => exact withPerson s id db
  | alreadyAssigned holder => exact notPending s id db
  | notRoutable holder => exact refl id db
  | none reason =>
    exact (recordWait s ws id (some reason) fromTicker db).trans (notPending s id _)
  | error => exact recordWait s ws id _ fromTicker db
  | throws => exact refl id db

end Touches

variable {s : Scene} {settings : ChatRoutingSettings} {cache : RoutingCache} {p : Pass}
  {departmentId : Option Id} {c : Conversation} {t : Turn}

variable {ws id : Id} {a : PickArgs} {db' db : ChatDb} {now : Timestamp} {locked : List Id}
  {r : DueRow}

theorem pickArgs_ids {departmentOnly : Bool} {from_ : Option Id} {cache' : RoutingCache}
    (h : pickArgs s ws id departmentId settings departmentOnly from_ cache = (some a, cache')) :
    a.workspaceId = ws ∧ a.conversationId = id ∧ a.reassignFrom = from_ := by
  unfold pickArgs at h
  split at h
  · cases h
  · dsimp only at h
    split at h
    · cases h
    · cases h
      exact ⟨rfl, rfl, rfl⟩

theorem routeUnassigned_touches (s : Scene) (ws id : Id) (c : Conversation) (fromTicker : Bool)
    (cache : RoutingCache) (db : ChatDb) :
    Touches id db (routeUnassigned s ws id c fromTicker cache db).2.2 := by
  unfold routeUnassigned
  split
  · exact .refl id db
  · split
    · exact .refl id db
    · rename_i departmentId db' hdepartment
      have hdb' := Touches.resolveDepartment hdepartment
      split
      · exact hdb'.trans ((Touches.ite (Touches.recordWait s ws id none false db')).trans
          (Touches.notPending s id _))
      · split
        · exact hdb'
        · rename_i a cache'' ha
          have hpick := Touches.pickFrom s a (a.searches s) 0 false db'
          rw [(pickArgs_ids ha).2.1] at hpick
          exact (hdb'.trans hpick).trans (Touches.settle s ws id _ fromTicker _ _)

theorem route_touches (s : Scene) (ws id : Id) (fromTicker : Bool) (cache : RoutingCache)
    (db : ChatDb) :
    Touches id db (routeConversationToOperator s ws id fromTicker cache db).2.2 := by
  unfold routeConversationToOperator
  split
  · rename_i c _ _
    have hrelease := Touches.releaseIfSeatLocked s ws id c db
    split
    · exact .refl id db
    · dsimp only
      split
      · exact hrelease.trans (Touches.notPending s id _)
      · exact hrelease.trans (routeUnassigned_touches s ws id c fromTicker cache _)
  · exact .refl id db

theorem reassign_touches (s : Scene) (ws id from_ : Id) (cache : RoutingCache) (db : ChatDb) :
    Touches id db (reassignAfterFirstResponseTimeout s ws id from_ cache db).2.2 := by
  unfold reassignAfterFirstResponseTimeout
  split
  · split
    · exact .refl id db
    · split
      · exact .refl id db
      · split
        · exact .refl id db
        · split
          · exact .refl id db
          · rename_i a cache'' ha
            have hpick := Touches.pickFrom s a (a.searches s) 0 false db
            rw [(pickArgs_ids ha).2.1] at hpick
            change Touches id db (pickOperator s a db).2 at hpick
            cases hpicked : pickOperator s a db with
            | mk picked db' =>
              rw [hpicked] at hpick
              have hrelease := fun reason : WaitReason =>
                hpick.trans (Touches.release s.now ws id (some from_) (some reason) db')
              cases picked with
              | none reason =>
                dsimp only
                split
                · have hcommit := hrelease reason
                  unfold commit at hcommit
                  split
                  · rename_i hok
                    rw [hok] at hcommit
                    exact hcommit
                  · rename_i hok
                    rw [hok] at hcommit
                    exact hcommit
                  · exact hpick
                · dsimp only
                  split
                  · exact hrelease reason
                  · exact hpick
                · dsimp only
                  split
                  · exact hrelease reason
                  · exact hpick
              | assigned user method =>
                refine hpick.trans (Touches.patchMetadata s .patch id ?_ db')
                exact fun _ => ⟨rfl, rfl⟩
              | alreadyAssigned holder => exact hpick
              | notRoutable holder => exact hpick
              | error => exact hpick
              | throws => exact hpick
  · exact .refl id db

section Remembered
variable {db : ChatDb} {ws id : Id}

theorem remembered_congr (hholder : db'.holder id = db.holder id) (hstates : db'.states = db.states)
    : db'.Remembered id ↔ db.Remembered id := by
  unfold ChatDb.Remembered
  rw [hholder, hstates]

theorem patchMetadata_states (s : Scene) (call : Call) (patch : Conversation → Conversation)
    (db : ChatDb) : (patchMetadata s call id patch db).states = db.states := by
  unfold patchMetadata
  split <;> rfl

@[simp] theorem remembered_notPending (s : Scene) :
    (patchMetadata s .patch id Conversation.notPending db).Remembered id ↔ db.Remembered id :=
  remembered_congr (holder_notPending ..) (patchMetadata_states ..)

@[simp] theorem remembered_withPerson (s : Scene) :
    (patchMetadata s .patch id Conversation.withPerson db).Remembered id ↔ db.Remembered id :=
  remembered_congr (holder_withPerson ..) (patchMetadata_states ..)

theorem remembered_recordWait {c : Conversation} (hc : db.conversationOf ws id = some c) (s : Scene)
    (reason : WaitReason) (fromTicker : Bool) :
    (recordWait s ws id (some reason) fromTicker db).Remembered id ↔
      db.Remembered id ∨ (s.ends .wait).lands = true := by
  unfold recordWait
  split
  · rename_i hlands
    simp only [hlands, or_true, iff_true]
    refine .inr ?_
    simp only [chatRoutingWait, hc, ChatDb.upsertState_state, if_true]
    refine ⟨_, rfl, .inr ?_⟩
    cases db.states.get id with
    | none => rfl
    | some row => cases h : row.waitingSince <;> simp [RoutingState.wait, h]
  · rename_i hlost
    simp [hlost]

end Remembered

def HasTaker (a : PickArgs) (db : ChatDb) (x : Search) : Prop :=
  ∃ user ∈ x.candidates, a.reassignFrom ≠ some user ∧
    db.MayTake a.workspaceId a.conversationId user

/-- The calls of the search end so that somebody is given the conversation, or the wait is
recorded: no claim throws (or it gives the conversation all the same), nor does the read
of the owner's row, and `chat_routing_wait`, where it comes to that, is committed. -/
def SearchKeeps (s : Scene) (a : PickArgs) (db : ChatDb) : List Search → ℕ → Prop
  | [], _ => (s.ends .wait).lands = true
  | x :: rest, attempt =>
    match if x.ofOwner then ownerReceives s a else some true with
    | none => False
    | some false => SearchKeeps s a db rest attempt
    | some true =>
      match s.ends (.claim attempt) with
      | .answers => HasTaker a db x ∨ SearchKeeps s a db rest (attempt + 1)
      | .fails done => done = true ∧ HasTaker a db x ∨ (s.ends .wait).lands = true
      | .throws done => done = true ∧ HasTaker a db x

theorem remembered_pickFrom {s : Scene} (hfree : db.Free a.workspaceId a.conversationId)
    (ha : a.reassignFrom = none) (mode : AssignmentMode) (fromTicker : Bool) (xs : List Search)
    (attempt : ℕ) (anyOnline : Bool) : (settle s a.workspaceId a.conversationId mode fromTicker
        (pickFrom s a xs attempt anyOnline db).2 (pickFrom s a xs attempt anyOnline db).1).2.Remembered
          a.conversationId ↔ db.Remembered a.conversationId ∨ SearchKeeps s a db xs attempt := by
  obtain ⟨c, hget, hws, -, -⟩ := id hfree
  have hc : db.conversationOf a.workspaceId a.conversationId = some c :=
    ChatDb.conversationOf_eq_some.mpr ⟨hget, hws⟩
  have hheld : ∀ (x : Search) order user,
      ((claimed s.now (a.claimArgs x) order user db).holder a.conversationId).isSome = true := by
    intro x order user
    have hto := holder_claimed s.now (a.claimArgs x) order user hget
    exact Option.isSome_iff_exists.mpr ⟨user, hto⟩
  have hgiven : ∀ (x : Search) order user,
      (claimed s.now (a.claimArgs x) order user db).Remembered a.conversationId :=
    fun x order user => .inl (hheld x order user)
  induction xs generalizing attempt anyOnline with
  | nil =>
    simp only [pickFrom, settle, SearchKeeps, remembered_notPending]
    exact remembered_recordWait hc s _ fromTicker
  | cons x rest ih =>
    -- What the claim itself does: it gives the conversation to a taker, or does nothing.
    have hclaim := chatRouteClaim_takes s.now (hfree.takes ha x)
    rw [show (∃ user ∈ x.candidates, a.reassignFrom ≠ some user ∧
      db.MayTake a.workspaceId a.conversationId user) ↔ HasTaker a db x from Iff.rfl] at hclaim
    cases hguard : if x.ofOwner then ownerReceives s a else some true with
    | none => simp only [pickFrom, SearchKeeps, hguard, settle, or_false]
    | some asked =>
    cases asked with
    | false =>
      simp only [pickFrom, SearchKeeps, hguard]
      exact ih attempt anyOnline
    | true =>
      cases hends : s.ends (.claim attempt) with
      | answers =>
        simp only [pickFrom, SearchKeeps, hguard, hends]
        obtain ⟨⟨order, user, hok⟩, htaker⟩ | ⟨⟨outcome, hok, hbusy⟩, hnone⟩ := hclaim
        · simp [hok, settle, htaker, hgiven]
        · obtain rfl | rfl := hbusy
          all_goals
            simp only [hok, hnone, false_or]
            exact ih (attempt + 1) true
      | fails done =>
        simp only [pickFrom, SearchKeeps, hguard, hends, settle]
        obtain ⟨⟨order, user, hok⟩, htaker⟩ | ⟨⟨outcome, hok, -⟩, hnone⟩ := hclaim
        · cases done with
          | false => simpa [htaker] using remembered_recordWait hc s .allBusy fromTicker
          | true =>
            simp only [commit, hok, htaker, and_self, true_or, or_true, iff_true, if_true]
            refine .inl ?_
            rw [holder_recordWait]
            exact hheld x order user
        · have hcommit : commit (chatRouteClaim s.now (a.claimArgs x)) db = db := by
            simp [commit, hok]
          simpa [hcommit, hnone] using remembered_recordWait hc s .allBusy fromTicker
      | throws done =>
        simp only [pickFrom, SearchKeeps, hguard, hends, settle]
        obtain ⟨⟨order, user, hok⟩, htaker⟩ | ⟨⟨outcome, hok, -⟩, hnone⟩ := hclaim
        · cases done with
          | false => simp
          | true => simp [commit, hok, htaker, hgiven]
        · simp [commit, hok, hnone]

theorem remembered_resolveDepartment
    (h : resolveConversationDepartment s id c db = some (departmentId, db')) :
    db'.Remembered id ↔ db.Remembered id := by
  unfold resolveConversationDepartment at h
  split at h
  · cases h
    rfl
  · split at h
    · cases h
    · cases h
      rfl
    · rename_i departmentId _ _
      cases h
      exact remembered_congr (holder_patchMetadata s .patchDepartment id
        (fun c => { c with departmentId := some departmentId }) (fun _ => rfl) db id)
        (patchMetadata_states ..)

def Pass.seatChecked (p : Pass) (t : Turn) : ChatDb :=
  match t.2.ends .conversation, p.db.conversationOf t.1.workspaceId t.1.conversationId with
  | .answers, some c =>
    (releaseIfSeatLocked t.2 t.1.workspaceId t.1.conversationId c p.db).2
  | _, _ => p.db

def Pass.Keeps (p : Pass) (t : Turn) : Prop :=
  (t.1.kind = .timeout ∨ ¬p.Tries t) ∧ p.db.Remembered t.1.conversationId ∨
  (t.1.kind ≠ .timeout ∧ p.Tries t) ∧ ((p.seatChecked t).Remembered t.1.conversationId ∨
    t.2.ends .conversation = .answers ∧ ∃ a db, p.search t p.cache = some (a, db) ∧
      SearchKeeps t.2 a db (a.searches t.2) 0)

def Pass.Automatic (p : Pass) (ws : Id) : Prop :=
  (∀ row, p.db.widgetSettings.get ws = some row → row.assignmentMode ≠ .manual) ∧
    ∀ settings, p.cache.settings.get ws = some settings → settings.mode ≠ .manual

theorem mode_ne_manual (hauto : p.Automatic ws) (hplan : s.planAllows ws ≠ some false)
    (hdb : db.widgetSettings = p.db.widgetSettings)
    (h : loadRoutingSettings s db ws p.cache = some (settings, cache)) :
    settings.mode ≠ .manual := by
  have hallowed : (s.planAllows ws).getD true = true := by
    cases hp : s.planAllows ws with
    | none => rfl
    | some b => cases b with
      | false => exact absurd hp hplan
      | true => rfl
  unfold loadRoutingSettings at h
  cases hhit : p.cache.settings.get ws with
  | some hit =>
    simp only [hhit, Option.some.injEq, Prod.mk.injEq] at h
    exact h.1 ▸ hauto.2 hit hhit
  | none =>
    cases hends : s.ends .settings with
    | answers =>
      simp only [hhit, hends, hdb, hallowed, if_true, Option.some.injEq, Prod.mk.injEq] at h
      obtain ⟨rfl, -⟩ := h
      cases hrow : p.db.widgetSettings.get ws with
      | none => simp
      | some row => simpa using hauto.1 row hrow
    | fails done =>
      simp only [hhit, hends, hallowed, if_true, Option.some.injEq, Prod.mk.injEq] at h
      obtain ⟨rfl, -⟩ := h
      simp
    | throws done => simp [hhit, hends] at h

/-- A run leaves remembered just what `Pass.Keeps` says. -/
theorem remembered_route {row : DueRow} (fromTicker : Bool)
    (hc : p.db.conversationOf row.workspaceId row.conversationId = some c)
    (hroutable : c.routable = true) (hauto : p.Automatic row.workspaceId)
    (hplan : s.planAllows row.workspaceId ≠ some false) :
    (routeConversationToOperator s row.workspaceId row.conversationId fromTicker p.cache
      p.db).2.2.Remembered row.conversationId ↔
      (p.seatChecked (row, s)).Remembered row.conversationId ∨
        s.ends .conversation = .answers ∧ ∃ a db, p.search (row, s) p.cache = some (a, db) ∧
          SearchKeeps s a db (a.searches s) 0 := by
  cases hends : s.ends .conversation with
  | fails done | throws done =>
    rw [route_unread (.inl (by simp [hends]))]
    simp [Pass.seatChecked, hends]
  | answers =>
    have hchecked : p.seatChecked (row, s) = (releaseIfSeatLocked s row.workspaceId
        row.conversationId c p.db).2 := by
      simp [Pass.seatChecked, hends, hc]
    rw [hchecked]
    unfold Pass.search
    dsimp only
    rw [hc, Option.bind_some]
    by_cases hfree : c.assignedTo = none ∨ (releaseIfSeatLocked s row.workspaceId
        row.conversationId c p.db).1 = true
    swap
    · rw [route_held hends hc hroutable hfree]
      simp [hfree]
    rw [route_free hends hc hroutable hfree, if_pos ⟨hroutable, hfree⟩]
    have hfree' := releaseIfSeatLocked_free hc hroutable hfree
    have hsettings := (Touches.releaseIfSeatLocked s row.workspaceId row.conversationId c
      p.db).widgetSettings
    generalize (releaseIfSeatLocked s row.workspaceId row.conversationId c p.db).2 = db at *
    unfold routeUnassigned
    cases hload : loadRoutingSettings s db row.workspaceId p.cache with
    | none => simp
    | some r =>
      obtain ⟨settings, cache⟩ := r
      have hmode := mode_ne_manual hauto hplan hsettings hload
      simp only [Option.bind_some, hmode, if_false]
      cases hdepartment : resolveConversationDepartment s row.conversationId c db with
      | none => simp
      | some r =>
        obtain ⟨departmentId, db'⟩ := r
        rw [← remembered_resolveDepartment hdepartment]
        simp only [Option.bind_some]
        cases ha : pickArgs s row.workspaceId row.conversationId departmentId settings
            c.departmentOnly none cache with
        | mk a cache' =>
          cases a with
          | none => simp
          | some a =>
            obtain ⟨haws, haid, hfrom⟩ := pickArgs_ids ha
            have hfree'' := hfree'.resolveDepartment hdepartment
            rw [← haws, ← haid] at hfree'' ⊢
            have hsearch := @remembered_pickFrom a db' s hfree'' hfrom settings.mode fromTicker
              (a.searches s) 0 false
            simpa [pickOperator] using hsearch

theorem remembered_turn (hc : p.db.conversationOf t.1.workspaceId t.1.conversationId = some c)
    (hroutable : c.routable = true) (hauto : p.Automatic t.1.workspaceId)
    (hplan : t.2.planAllows t.1.workspaceId ≠ some false) (hkind : t.1.kind ≠ .timeout) :
    (p.turn t).db.Remembered t.1.conversationId ↔ p.Keeps t := by
  obtain ⟨row, s⟩ := t
  have hroute := fun fromTicker => remembered_route fromTicker hc hroutable hauto hplan
  unfold Pass.turn Pass.Keeps Pass.Tries
  dsimp only at *
  cases hk : row.kind with
  | prechat => simpa using hroute false
  | waiting =>
    by_cases hskip : row.workspaceId ∈ p.nobodyOnline
    · simp [hskip]
    · simpa [hskip] using hroute true
  | timeout => exact absurd hk hkind

theorem remembered_turn_nobody (hkind : t.1.kind = .timeout) (hnobody : t.1.assignee = none) :
    (p.turn t).db.Remembered t.1.conversationId ↔ p.Keeps t := by
  unfold Pass.turn Pass.Keeps
  simp [hkind, hnobody]

theorem turn_touches (p : Pass) (t : Turn) : Touches t.1.conversationId p.db (p.turn t).db := by
  obtain ⟨row, s⟩ := t
  unfold Pass.turn
  dsimp only
  cases row.kind with
  | prechat => exact route_touches s _ _ _ _ _
  | waiting =>
    dsimp only
    split
    · exact .refl _ _
    · exact route_touches s _ _ _ _ _
  | timeout =>
    cases row.assignee with
    | none => exact .refl _ _
    | some from_ => exact reassign_touches s _ _ _ _ _

theorem loaded_cases {loaded : RoutingCache}
    (h : loadRoutingSettings s db ws cache = some (settings, loaded)) :
    loaded.settings = cache.settings ∨ loaded.settings = cache.settings.put ws settings := by
  unfold loadRoutingSettings at h
  cases hhit : cache.settings.get ws with
  | some hit =>
    simp only [hhit, Option.some.injEq, Prod.mk.injEq] at h
    exact .inl (h.2 ▸ rfl)
  | none =>
    cases hends : s.ends .settings with
    | answers | fails done =>
      simp only [hhit, hends, Option.some.injEq, Prod.mk.injEq] at h
      obtain ⟨rfl, rfl⟩ := h
      exact .inr rfl
    | throws done => simp [hhit, hends] at h

theorem pickArgs_settings (s : Scene) (ws id : Id) (departmentId : Option Id)
    (settings : ChatRoutingSettings) (departmentOnly : Bool) (from_ : Option Id)
    (cache : RoutingCache) :
    (pickArgs s ws id departmentId settings departmentOnly from_ cache).2.settings =
      cache.settings := by
  unfold pickArgs chatPool
  cases cache.pools.get (ws, departmentId) with
  | some hit =>
    dsimp only
    split <;> rfl
  | none =>
    cases resolveChatRoutingPool s ws departmentId with
    | none => rfl
    | some pool =>
      dsimp only [Option.map_some]
      split <;> rfl

def SettingsFrom (s : Scene) (ws : Id) (widgetSettings : Table Id WidgetSettings)
    (cache cache' : RoutingCache) : Prop :=
  cache'.settings = cache.settings ∨ ∃ db settings loaded, db.widgetSettings = widgetSettings ∧
    loadRoutingSettings s db ws cache = some (settings, loaded) ∧ cache'.settings = loaded.settings

theorem routeUnassigned_settings (s : Scene) (ws id : Id) (c : Conversation) (fromTicker : Bool)
    (cache : RoutingCache) (db : ChatDb) : SettingsFrom s ws db.widgetSettings cache
      (routeUnassigned s ws id c fromTicker cache db).2.1 := by
  unfold routeUnassigned
  cases hload : loadRoutingSettings s db ws cache with
  | none => exact .inl rfl
  | some r =>
    obtain ⟨settings, loaded⟩ := r
    refine .inr ⟨db, settings, loaded, rfl, hload, ?_⟩
    cases resolveConversationDepartment s id c db with
    | none => rfl
    | some r =>
      obtain ⟨departmentId, db'⟩ := r
      dsimp only
      split
      · rfl
      · have hkept := pickArgs_settings s ws id departmentId settings c.departmentOnly none loaded
        split <;> rename_i ha <;> rw [ha] at hkept <;> exact hkept

theorem route_settings (s : Scene) (ws id : Id) (fromTicker : Bool) (cache : RoutingCache)
    (db : ChatDb) : SettingsFrom s ws db.widgetSettings cache
      (routeConversationToOperator s ws id fromTicker cache db).2.1 := by
  unfold routeConversationToOperator
  split
  · rename_i c _ _
    split
    · exact .inl rfl
    · dsimp only
      split
      · exact .inl rfl
      · have hsame := (Touches.releaseIfSeatLocked s ws id c db).widgetSettings
        rw [← hsame]
        exact routeUnassigned_settings s ws id c fromTicker cache _
  · exact .inl rfl

theorem reassign_settings (s : Scene) (ws id from_ : Id) (cache : RoutingCache) (db : ChatDb) :
    SettingsFrom s ws db.widgetSettings cache
      (reassignAfterFirstResponseTimeout s ws id from_ cache db).2.1 := by
  unfold reassignAfterFirstResponseTimeout
  split
  · rename_i c _ _
    split
    · exact .inl rfl
    · cases hload : loadRoutingSettings s db ws cache with
      | none => exact .inl rfl
      | some r =>
        obtain ⟨settings, loaded⟩ := r
        refine .inr ⟨db, settings, loaded, rfl, hload, ?_⟩
        dsimp only
        split
        · rfl
        · have hkept := pickArgs_settings s ws id c.departmentId settings c.departmentOnly
            (some from_) loaded
          split <;> rename_i ha <;> rw [ha] at hkept
          · exact hkept
          · split <;> try exact hkept
            split <;> try exact hkept
            split <;> exact hkept
  · exact .inl rfl

theorem Pass.Automatic.turn (h : p.Automatic ws) (hplan : t.2.planAllows ws ≠ some false)
    : (p.turn t).Automatic ws := by
  refine ⟨fun row hrow => h.1 row ((turn_touches p t).widgetSettings ▸ hrow), ?_⟩
  have hfrom : SettingsFrom t.2 t.1.workspaceId p.db.widgetSettings p.cache (p.turn t).cache := by
    obtain ⟨row, s⟩ := t
    unfold Pass.turn
    dsimp only
    cases row.kind with
    | prechat => exact route_settings ..
    | waiting =>
      dsimp only
      split
      · exact .inl rfl
      · exact route_settings ..
    | timeout =>
      cases row.assignee with
      | none => exact .inl rfl
      | some from_ => exact reassign_settings ..
  intro settings hget
  obtain hsame | ⟨db, loadedSettings, loaded, hdb, hload, hsame⟩ := hfrom
  · rw [hsame] at hget
    exact h.2 settings hget
  · rw [hsame] at hget
    obtain hkept | hput := loaded_cases hload
    · rw [hkept] at hget
      exact h.2 settings hget
    · rw [hput] at hget
      by_cases hws : ws = t.1.workspaceId
      · subst hws
        rw [Table.get_put_self] at hget
        cases hget
        exact mode_ne_manual h hplan hdb hload
      · rw [Table.get_put_ne _ _ hws] at hget
        exact h.2 settings hget

structure Pass.Routes (p : Pass) (ws id : Id) : Prop where
  conversation : ∃ c, p.db.conversationOf ws id = some c ∧ c.routable = true
  automatic : p.Automatic ws

theorem Pass.Routes.turn (h : p.Routes ws id) (hplan : t.2.planAllows ws ≠ some false)
    : (p.turn t).Routes ws id := by
  refine ⟨?_, h.automatic.turn hplan⟩
  obtain ⟨c, hc, hroutable⟩ := h.conversation
  obtain ⟨hget, hws⟩ := ChatDb.conversationOf_eq_some.mp hc
  have htouches := turn_touches p t
  by_cases hid : id = t.1.conversationId
  · subst hid
    obtain ⟨c', hc', hws', hroutable'⟩ := htouches.own c hget
    exact ⟨c', ChatDb.conversationOf_eq_some.mpr ⟨hc', hws'.trans hws⟩, hroutable'.trans hroutable⟩
  · refine ⟨c, ChatDb.conversationOf_eq_some.mpr ⟨?_, hws⟩, hroutable⟩
    rw [(htouches.others id hid).1]
    exact hget

/-- The last of the turns that the pass gives the conversation leaves it remembered; or it
is given none, and is remembered to begin with. -/
def LastTurnKeeps (start : Pass) (turns : List Turn) (id : Id) : Prop :=
  (∀ pre t post, turns = pre ++ t :: post → t.1.conversationId = id →
    (∀ t' ∈ post, t'.1.conversationId ≠ id) → (run Pass.turn start pre).Keeps t) ∧
  ((∀ t ∈ turns, t.1.conversationId ≠ id) → start.db.Remembered id)

def TurnsOf (turns : List Turn) (ws id : Id) : Prop :=
  ∀ t ∈ turns, t.2.planAllows ws ≠ some false ∧ (t.1.conversationId = id →
    t.1.kind = .timeout ∧ t.1.assignee = none ∨ t.1.kind ≠ .timeout ∧ t.1.workspaceId = ws)

theorem remembered_run {start : Pass} (hstart : start.Routes ws id) {turns : List Turn}
    (hturns : TurnsOf turns ws id) : (run Pass.turn start turns).Routes ws id ∧
      ((run Pass.turn start turns).db.Remembered id ↔ LastTurnKeeps start turns id) := by
  induction turns using List.reverseRecOn with
  | nil => exact ⟨hstart, by simp [LastTurnKeeps]⟩
  | append_singleton turns t ih =>
    have hlast := hturns t (List.mem_append_right _ (List.mem_singleton.mpr rfl))
    obtain ⟨hroutes, hrest⟩ := ih fun t' ht' => hturns t' (List.mem_append_left _ ht')
    rw [Lib.run_append]
    refine ⟨hroutes.turn hlast.1, ?_⟩
    show ((run Pass.turn start turns).turn t).db.Remembered id ↔ _
    by_cases hid : t.1.conversationId = id
    · have hkept : ((run Pass.turn start turns).turn t).db.Remembered t.1.conversationId ↔
          (run Pass.turn start turns).Keeps t := by
        obtain ⟨hkind, hnobody⟩ | ⟨hkind, rfl⟩ := hlast.2 hid
        · exact remembered_turn_nobody hkind hnobody
        · subst hid
          obtain ⟨c, hc, hroutable⟩ := hroutes.conversation
          exact remembered_turn hc hroutable hroutes.automatic hlast.1 hkind
      subst hid
      rw [hkept]
      constructor
      · intro hkeeps
        refine ⟨fun pre t' post hsplit hid' hpost => ?_, fun hnone => ?_⟩
        · -- The last turn is of the conversation, so nothing comes after `t'`.
          obtain rfl | ⟨post', x, rfl⟩ := List.eq_nil_or_concat' post
          · obtain ⟨rfl, hcons⟩ := List.append_inj' hsplit rfl
            cases hcons
            exact hkeeps
          · rw [show pre ++ t' :: (post' ++ [x]) = (pre ++ t' :: post') ++ [x] by simp] at hsplit
            obtain ⟨-, hcons⟩ := List.append_inj' hsplit rfl
            cases hcons
            exact absurd rfl (hpost t (by simp))
        · exact absurd rfl (hnone t (by simp))
      · intro h
        exact h.1 turns t [] rfl rfl (by simp)
    · have hother := (turn_touches (run Pass.turn start turns) t).others id fun h => hid h.symm
      have hsame : ((run Pass.turn start turns).turn t).db.Remembered id ↔
          (run Pass.turn start turns).db.Remembered id := by
        unfold ChatDb.Remembered ChatDb.holder
        rw [hother.1, hother.2]
      rw [hsame, hrest]
      refine and_congr ⟨fun h pre t' post hsplit hid' hpost => ?_,
        fun h pre t' post hsplit hid' hpost => ?_⟩ ?_
      · obtain rfl | ⟨post', x, rfl⟩ := List.eq_nil_or_concat' post
        · obtain ⟨-, hcons⟩ := List.append_inj' hsplit rfl
          cases hcons
          exact absurd hid' hid
        · rw [show pre ++ t' :: (post' ++ [x]) = (pre ++ t' :: post') ++ [x] by simp] at hsplit
          obtain ⟨hsplit, -⟩ := List.append_inj' hsplit rfl
          exact h pre t' post' hsplit hid' fun y hy => hpost y (List.mem_append_left _ hy)
      · refine h pre t' (post ++ [t]) (by rw [hsplit]; simp) hid' fun y hy => ?_
        obtain hy | hy := List.mem_append.mp hy
        · exact hpost y hy
        · rw [List.mem_singleton.mp hy]
          exact hid
      · simp [or_imp, forall_and, hid]

theorem handWaiting_rows {limit : ℕ} (h : r ∈ (handWaiting now limit locked db).1)
    (hfit : db.RowsFit) :
    ∃ c, db.conversationOf r.workspaceId r.conversationId = some c ∧ c.assignedTo = none ∧
      c.routable = true := by
  obtain ⟨⟨id, row⟩, hmem, rfl⟩ := List.mem_map.mp h
  rw [orderBy, List.mem_insertionSort] at hmem
  obtain ⟨hmem, hdue⟩ := List.mem_filter.mp hmem
  have hrow := Table.get_eq_some_iff_mem.mpr hmem
  obtain ⟨row', hin⟩ := mem_firstDue (decide_eq_true_eq.mp hdue)
  obtain ⟨hin, -⟩ := List.mem_filter.mp hin
  obtain ⟨-, hopen⟩ := List.mem_filter.mp hin
  simp only [Bool.and_eq_true, Option.any_eq_true, decide_eq_true_eq] at hopen
  obtain ⟨-, c, hc, hnobody, hroutable, -⟩ := hopen
  refine ⟨c, ChatDb.conversationOf_eq_some.mpr ⟨hc, ?_⟩, hnobody, hroutable⟩
  exact (hfit id row c hrow hc).symm

theorem forgetWaits_conversations (now : Timestamp) (db : ChatDb) :
    (forgetWaits now db).conversations = db.conversations := rfl

theorem spendPrechat_conversations (now : Timestamp) (limit : ℕ) (locked : List Id)
    (db : ChatDb) : (spendPrechat now limit locked db).2.conversations = db.conversations := rfl

theorem chatRoutingDue_handed {limit : Option Int} (hfit : db.RowsFit)
    (h : r ∈ (chatRoutingDue now limit locked db).1) (hkind : r.kind ≠ .timeout) :
    ∃ c, db.conversationOf r.workspaceId r.conversationId = some c ∧ c.assignedTo = none ∧
      c.routable = true := by
  unfold chatRoutingDue at h
  generalize (min (max (limit.getD 100) 1) 1000).toNat = n at h
  have hkeeps := (spendPrechat_keeps now n locked db).trans (forgetWaits_keeps now _)
  rw [List.mem_append, List.mem_append] at h
  obtain (hprechat | hwaiting) | htimeout := h
  · obtain ⟨id, -, hr⟩ := List.mem_filterMap.mp hprechat
    obtain ⟨c, hc, hr⟩ := Option.bind_eq_some_iff.mp hr
    split at hr
    · rename_i hopen
      obtain ⟨row, hrow, rfl⟩ := Option.map_eq_some_iff.mp hr
      refine ⟨c, ChatDb.conversationOf_eq_some.mpr ⟨hc, ?_⟩, hopen.1, hopen.2.1⟩
      exact (hfit id row c hrow hc).symm
    · cases hr
  · obtain ⟨c, hc, hnobody, hroutable⟩ := handWaiting_rows hwaiting (hkeeps.rowsFit hfit)
    refine ⟨c, ?_, hnobody, hroutable⟩
    rw [ChatDb.conversationOf_eq_some, forgetWaits_conversations, spendPrechat_conversations] at hc
    exact ChatDb.conversationOf_eq_some.mpr hc
  · obtain ⟨row, -, rfl⟩ := List.mem_map.mp htimeout
    exact absurd rfl hkind

def AutomaticMode (db : ChatDb) (scenes : ℕ → Scene) (ws : Id) : Prop :=
  (∀ row, db.widgetSettings.get ws = some row → row.assignmentMode ≠ .manual) ∧
    ∀ i, (scenes i).planAllows ws ≠ some false

/-- Whether calls fail or not, a conversation that was handed out is with somebody after the
pass, or has a deadline or a wait, just when its last turn keeps it so. -/
theorem handed_remembered_iff (now : Timestamp) (locked : List Id) (due : CallEnd)
    (scenes : ℕ → Scene) (db : ChatDb) (hfit : db.RowsFit) (hdue : due.lands = true)
    (row : DueRow) (hrow : row ∈ (chatRoutingDue now (some batch) locked db).1)
    (hkind : row.kind ≠ .timeout) (hauto : AutomaticMode db scenes row.workspaceId) :
    (runChatRoutingOnce now locked due scenes db).db.Remembered row.conversationId ↔
      LastTurnKeeps (dueRows now locked due db).2 (turnsOf (dueRows now locked due db).1 scenes)
        row.conversationId := by
  obtain ⟨c, hc, hnobody, hroutable⟩ := chatRoutingDue_handed hfit hrow hkind
  have hkeeps := chatRoutingDue_keeps now (some batch) locked db
  have hstart : (dueRows now locked due db).2.Routes row.workspaceId row.conversationId := by
    unfold dueRows
    simp only [hdue, if_true]
    refine ⟨⟨c, ?_, hroutable⟩, fun r hr => ?_, fun settings hsettings => ?_⟩
    · exact hc
    · rw [hkeeps.widgetSettings] at hr
      exact hauto.1 r hr
    · cases hsettings
  refine (remembered_run hstart ?_).2
  -- The conversation was with nobody, so a timeout that names it is of nobody.
  intro t ht
  obtain ⟨⟨row', i⟩, hmem, rfl⟩ := List.mem_map.mp ht
  refine ⟨hauto.2 i, fun hid => ?_⟩
  have hmem' : row' ∈ (chatRoutingDue now (some batch) locked db).1 := by
    have hin := List.fst_mem_of_mem_zipIdx hmem
    dsimp only [dueRows] at hin
    split at hin
    · exact hin
    · cases hin
  obtain ⟨hget, hws⟩ := ChatDb.conversationOf_eq_some.mp hc
  by_cases hkind' : row'.kind = .timeout
  · refine .inl ⟨hkind', ?_⟩
    cases hassignee : row'.assignee with
    | none => rfl
    | some from_ =>
      obtain ⟨-, -, -, -, -, hheld, -⟩ := chatRoutingDue_timeouts hmem' hkind' hassignee
      have hid' : row'.conversationId = row.conversationId := hid
      rw [hid', ChatDb.holder, hget, Option.bind_some, hnobody] at hheld
      cases hheld
  · refine .inr ⟨hkind', ?_⟩
    obtain ⟨c', hc', -, -⟩ := chatRoutingDue_handed hfit hmem' hkind'
    obtain ⟨hget', hws'⟩ := ChatDb.conversationOf_eq_some.mp hc'
    have hid' : row'.conversationId = row.conversationId := hid
    rw [hid', hget] at hget'
    cases hget'
    exact hws'.symm.trans hws

instance (db : ChatDb) (id : Id) : Decidable (db.Remembered id) :=
  decidable_of_iff ((db.holder id).isSome = true ∨ (db.states.get id).any (fun row =>
    row.prechatDeadline.isSome || row.waitingSince.isSome) = true) (by
      simp [ChatDb.Remembered, Option.any_eq_true])

def formDue : ChatDb where
  conversations := Table.empty.put 2 { workspaceId := 1, routingPending := true }
  members := (Table.empty.put (1, 7) {}).put (1, 8) {}
  states := Table.empty.put 2 { workspaceId := 1, prechatDeadline := some 0 }

theorem formDue_rowsFit : formDue.RowsFit := by
  intro id row c hrow hc
  have hids : id = 2 := by
    by_contra hne
    simp [formDue, Table.get_put_ne _ _ hne] at hrow
  subst hids
  simp only [formDue, Table.get_put_self, Option.some.injEq] at hrow hc
  rw [← hrow, ← hc]

theorem formDue_automatic (s : Scene) (h : s.planAllows = fun _ => some true) :
    AutomaticMode formDue (fun _ => s) 1 := by
  refine ⟨fun row hrow => ?_, fun _ => by simp [h]⟩
  cases hrow

def formRow : DueRow where
  conversationId := 2
  workspaceId := 1
  kind := .prechat

theorem handed_remembered_form :
    LastTurnKeeps (dueRows (minutes 1) [] .answers formDue).2
      (turnsOf (dueRows (minutes 1) [] .answers formDue).1 fun _ => deskScene) 2 :=
  (handed_remembered_iff (minutes 1) [] .answers (fun _ => deskScene) formDue formDue_rowsFit rfl
    formRow (by decide +kernel) (by decide) (formDue_automatic deskScene rfl)).mp
    (by decide +kernel)

def unreadScene : Scene := { deskScene with
  ends := fun call => if call = .conversation then .fails false else .answers }

theorem handed_forgotten :
    formRow ∈ (chatRoutingDue (minutes 1) (some batch) [] formDue).1 ∧
      AutomaticMode formDue (fun _ => unreadScene) 1 ∧
      ¬(runChatRoutingOnce (minutes 1) [] .answers (fun _ => unreadScene) formDue).db.Remembered 2 :=
  ⟨by decide +kernel, formDue_automatic unreadScene rfl, by decide +kernel⟩

end Kindred.ChatRouting
