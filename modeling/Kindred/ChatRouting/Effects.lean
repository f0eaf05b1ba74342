import Kindred.ChatRouting.Functions

/-! What each function of chat routing does to who has a conversation, to the
members' loads and to the skip lists. -/

namespace Kindred.ChatRouting
open Lib (Table)
open Lib.Tx

variable {ws v id : Id} {c : Conversation} {user : Option Id} {db' db : ChatDb} {p : ClaimArgs}
  {order : ClaimOrder} {es : List Eligible} {now : Timestamp} {outcome : ClaimOutcome}

namespace ChatDb
variable (db : ChatDb) (id : Id)

theorem conversationOf_eq_some {db : ChatDb} {id : Id} :
    db.conversationOf ws id = some c ↔ db.conversations.get id = some c ∧ c.workspaceId = ws := by
  simp [conversationOf, Option.filter_eq_some_iff]

theorem openLoad_assign_le (h : user ≠ some v) (ws : Id) :
    (db.assign id user).openLoad ws v ≤ db.openLoad ws v := by
  refine Table.countP_update_le _ fun c _ hp => ?_
  simp [h] at hp

theorem openLoad_assign_le_succ (user : Option Id) (ws v : Id) :
    (db.assign id user).openLoad ws v ≤ db.openLoad ws v + 1 :=
  Table.countP_update_le_succ _ _ _ _

theorem openLoad_assign_of_ne (h : ∀ c, db.conversations.get id = some c → c.workspaceId ≠ ws)
    (user : Option Id) (v : Id) : (db.assign id user).openLoad ws v = db.openLoad ws v := by
  refine Table.countP_update_eq _ fun c hc => ?_
  simp [h c hc]

@[simp] theorem openLoad_upsertState (row : RoutingState) (update : RoutingState → RoutingState)
    (ws v : Id) : (db.upsertState id row update).openLoad ws v = db.openLoad ws v := rfl

@[simp] theorem openLoad_updateState (update : RoutingState → RoutingState) (ws v : Id) :
    (db.updateState id update).openLoad ws v = db.openLoad ws v := rfl

def holder (db : ChatDb) (id : Id) : Option Id :=
  (db.conversations.get id).bind (·.assignedTo)

theorem holder_assign (id' : Id) (user : Option Id) : (db.assign id user).holder id' =
      if id' = id then (db.conversations.get id).bind fun _ => user else db.holder id' := by
  unfold holder
  rw [assign_conversation]
  by_cases hid : id' = id
  · subst hid
    simp only [if_true]
    cases db.conversations.get id' <;> rfl
  · simp only [if_neg hid]
    cases db.conversations.get id' <;> rfl

theorem cap_congr {db : ChatDb} (h : db'.widgetSettings = db.widgetSettings) (ws : Id) (m : Member)
    : db'.cap ws m = db.cap ws m := by
  simp [cap, defaultCap, h]

end ChatDb

def SkipListOk (skip : List Id) : Prop := skip.length ≤ 50 ∧ skip.Nodup

variable {skip : List Id} {cursor : Option Id}

theorem joinSkip_ok (h : SkipListOk skip) (user : Id) : SkipListOk (joinSkip skip user) := by
  unfold joinSkip
  split
  · exact h
  · rename_i hmem
    constructor
    · simp only [List.length_drop, List.length_append, List.length_singleton]
      omega
    · refine List.Nodup.sublist (List.drop_sublist _ _) ?_
      exact List.Nodup.append h.2 (List.nodup_singleton user) (by simpa using hmem)

theorem mem_joinSkip_imp {user : Id} (h : v ∈ joinSkip skip user) : v ∈ skip ∨ v = user := by
  unfold joinSkip at h
  split at h
  · exact .inl h
  · simpa using List.mem_of_mem_drop h

def ChatDb.SkipListsOk (db : ChatDb) : Prop :=
  ∀ id row, db.states.get id = some row → SkipListOk row.skipUserIds

namespace ChatDb
variable {db : ChatDb} {id : Id}

theorem SkipListsOk.upsert (h : db.SkipListsOk) {row : RoutingState}
    {update : RoutingState → RoutingState} (hrow : SkipListOk row.skipUserIds)
    (hupdate : ∀ s, SkipListOk s.skipUserIds → SkipListOk (update s).skipUserIds) :
    (db.upsertState id row update).SkipListsOk := by
  intro id' s hs
  rw [upsertState_state] at hs
  split at hs
  · cases hold : db.states.get id with
    | none =>
      simp only [hold, Option.map_none, Option.getD_none, Option.some.injEq] at hs
      exact hs ▸ hrow
    | some old =>
      simp only [hold, Option.map_some, Option.getD_some, Option.some.injEq] at hs
      exact hs ▸ hupdate old (h id old hold)
  · exact h id' s hs

theorem SkipListsOk.update (h : db.SkipListsOk) {update : RoutingState → RoutingState}
    (hupdate : ∀ s, SkipListOk s.skipUserIds → SkipListOk (update s).skipUserIds) :
    (db.updateState id update).SkipListsOk := by
  intro id' s hs
  rw [updateState_state] at hs
  cases hold : db.states.get id' with
  | none =>
    rw [hold] at hs
    cases hs
  | some old =>
    simp only [hold, Option.map_some, Option.some.injEq] at hs
    subst hs
    split
    · exact hupdate old (h id' old hold)
    · exact h id' old hold

theorem skipUserIds_upsert (db : ChatDb) (id id' : Id) (row : RoutingState)
    (update : RoutingState → RoutingState) : (db.upsertState id row update).skipUserIds id' =
      if id' = id then (((db.states.get id).map update).getD row).skipUserIds
      else db.skipUserIds id' := by
  unfold skipUserIds
  rw [upsertState_state]
  split <;> rfl

end ChatDb

theorem skipListOk_singleton (user : Id) : SkipListOk [user] := by simp [SkipListOk]

theorem skipListOk_toList (user : Option Id) : SkipListOk user.toList := by
  cases user <;> simp [SkipListOk]

structure Offered (db : ChatDb) (p : ClaimArgs) (user : Id) : Prop where
  candidate : some user ∈ p.candidates
  member : ∃ m, db.members.get (p.workspaceId, user) = some m ∧ m.receiving = true
  notExpected : p.expectedAssignee ≠ some user

def UnderCap (db : ChatDb) (workspaceId user : Id) : Prop :=
  ∀ m, db.members.get (workspaceId, user) = some m → db.openLoad workspaceId user < db.cap workspaceId m

/-- The conversation is the workspace's, open, and with whom the claim expects. -/
def ClaimArgs.Takes (p : ClaimArgs) (db : ChatDb) : Prop :=
  ∃ c, db.conversations.get p.conversationId = some c ∧ c.workspaceId = p.workspaceId ∧
    c.routable = true ∧ c.assignedTo = p.expectedAssignee

theorem rowAnswer_eq_none
    (h : rowAnswer p (db.conversationOf p.workspaceId p.conversationId) = none) : p.Takes db := by
  cases hc : db.conversationOf p.workspaceId p.conversationId with
  | none =>
    rw [hc] at h
    cases h
  | some c =>
    obtain ⟨hget, hws⟩ := ChatDb.conversationOf_eq_some.mp hc
    refine ⟨c, hget, hws, ?_⟩
    simp only [hc, rowAnswer] at h
    by_cases hr : c.routable = true
    · refine ⟨hr, ?_⟩
      by_contra hne
      cases he : p.expectedAssignee with
      | none => simp_all
      | some user => simp_all
    · simp [hr] at h

theorem rowAnswer_of_takes (h : p.Takes db) :
    rowAnswer p (db.conversationOf p.workspaceId p.conversationId) = none := by
  obtain ⟨c, hget, hws, hr, ha⟩ := h
  have hc : db.conversationOf p.workspaceId p.conversationId = some c :=
    ChatDb.conversationOf_eq_some.mpr ⟨hget, hws⟩
  cases he : p.expectedAssignee <;> simp_all [rowAnswer]

theorem mem_places {r : Id × ℕ} (h : r ∈ p.places) : some r.1 ∈ p.candidates := by
  obtain ⟨⟨user, i⟩, hmem, hr⟩ := List.mem_filterMap.mp h
  cases user with
  | none => cases hr
  | some user =>
    simp only [Option.bind_some] at hr
    split at hr
    · cases hr
      exact List.fst_mem_of_mem_zipIdx hmem
    · cases hr

theorem mem_eligible {e : Eligible} (h : e ∈ eligible db p skip) :
    Offered db p e.userId ∧ e.userId ∉ skip ∧
      ∃ m, db.members.get (p.workspaceId, e.userId) = some m ∧ e.cap = db.cap p.workspaceId m ∧
        e.openLoad = db.openLoad p.workspaceId e.userId := by
  obtain ⟨r, hr, he⟩ := List.mem_filterMap.mp h
  obtain ⟨m, hm, rfl⟩ := Option.map_eq_some_iff.mp he
  obtain ⟨hm, hoffers⟩ := Option.filter_eq_some_iff.mp hm
  simp only [ClaimArgs.offers, Bool.and_eq_true, decide_eq_true_eq] at hoffers
  exact ⟨⟨mem_places hr, ⟨m, hm, hoffers.1.1⟩, fun he => hoffers.2 he.symm⟩, hoffers.1.2,
    m, hm, rfl, rfl⟩

theorem mem_of_pick {user : Id} (h : pick order cursor es = some user)
    : ∃ e ∈ es, e.userId = user ∧ e.openLoad < e.cap := by
  obtain ⟨e, he, rfl⟩ := Option.map_eq_some_iff.mp h
  have hmem := List.mem_of_mem_head? (Option.mem_def.mpr he)
  rw [List.mem_insertionSort] at hmem
  obtain ⟨hmem, hload⟩ := List.mem_filter.mp hmem
  exact ⟨e, hmem, rfl, decide_eq_true_eq.mp hload⟩

theorem pick_eq_none_iff : pick order cursor es = none ↔ ∀ e ∈ es, e.cap ≤ e.openLoad := by
  unfold pick
  rw [Option.map_eq_none_iff, List.head?_eq_none_iff, ← List.length_eq_zero_iff,
    List.length_insertionSort, List.length_eq_zero_iff, List.filter_eq_nil_iff]
  simp

theorem pick_offered {user : Id} (h : pick order cursor (eligible db p skip) = some user) :
    Offered db p user ∧ user ∉ skip ∧ UnderCap db p.workspaceId user := by
  obtain ⟨e, he, rfl, hroom⟩ := mem_of_pick h
  obtain ⟨hoffered, hskip, m, hm, hcap, hload⟩ := mem_eligible he
  refine ⟨hoffered, hskip, fun m' hm' => ?_⟩
  rw [hm] at hm'
  cases hm'
  rwa [hcap, hload] at hroom

theorem release_cases (now : Timestamp) (ws id : Id) (from_ : Option Id) (reason : Option WaitReason)
    (db : ChatDb) : commit (chatRoutingRelease now ws id from_ reason) db = db ∨
      ∃ c holder why, db.conversationOf ws id = some c ∧ c.assignedTo = some holder ∧
        from_ = some holder ∧ reason = some why ∧
        commit (chatRoutingRelease now ws id from_ reason) db = (db.assign id none).upsertState id
            { freshWait now ws why with skipUserIds := [holder] } (·.release now holder why) := by
  unfold chatRoutingRelease
  cases reason with
  | none => exact .inl rfl
  | some why =>
    dsimp only
    unfold commit
    rw [get_bind]
    cases hc : db.conversationOf ws id with
    | none => exact .inl rfl
    | some c =>
      cases from_ with
      | none => exact .inl rfl
      | some holder =>
        by_cases hholds : c.assignedTo = some holder ∧ c.live
        · simp only [if_pos hholds]
          exact .inr ⟨c, holder, why, rfl, hholds.1, rfl, rfl, rfl⟩
        · simp only [if_neg hholds]
          exact .inl rfl

structure ChatDb.Elsewhere (ws : Id) (db db' : ChatDb) : Prop where
  members : db'.members = db.members
  widgetSettings : db'.widgetSettings = db.widgetSettings
  conversation : ∀ id c, db.conversations.get id = some c → c.workspaceId ≠ ws →
    db'.conversations.get id = some c ∧ db'.skipUserIds id = db.skipUserIds id
  openLoad : ∀ ws' user, ws' ≠ ws → db'.openLoad ws' user = db.openLoad ws' user

theorem elsewhere_assign (h : db.conversationOf ws id = some c) (user : Option Id)
    (row : RoutingState) (update : RoutingState → RoutingState) :
    db.Elsewhere ws ((db.assign id user).upsertState id row update) := by
  obtain ⟨hget, hws⟩ := ChatDb.conversationOf_eq_some.mp h
  refine ⟨rfl, rfl, fun id' c' hc' hne => ?_, fun ws' v hne => ?_⟩
  · have hid : id' ≠ id := by
      rintro rfl
      rw [hget] at hc'
      cases hc'
      exact hne hws
    constructor
    · simp [ChatDb.assign_conversation, hc', hid]
    · rw [ChatDb.skipUserIds_upsert, if_neg hid]
      rfl
  · refine ChatDb.openLoad_assign_of_ne db id (fun c' hc' => ?_) user v
    rw [hget] at hc'
    cases hc'
    rw [hws]
    exact Ne.symm hne

theorem release_elsewhere (now : Timestamp) (ws id : Id) (from_ : Option Id)
    (reason : Option WaitReason) (db : ChatDb) :
    db.Elsewhere ws (commit (chatRoutingRelease now ws id from_ reason) db) := by
  obtain h | ⟨c, holder, why, hc, -, -, -, h⟩ := release_cases now ws id from_ reason db
  · rw [h]
    exact ⟨rfl, rfl, fun _ _ hc _ => ⟨hc, rfl⟩, fun _ _ _ => rfl⟩
  · rw [h]
    exact elsewhere_assign hc none _ _

theorem release_skipLists {from_ : Option Id} {reason : Option WaitReason} (hdb : db.SkipListsOk) :
    (commit (chatRoutingRelease now ws id from_ reason) db).SkipListsOk := by
  obtain h | ⟨c, holder, why, -, -, -, -, h⟩ := release_cases now ws id from_ reason db
  · rwa [h]
  · rw [h]
    exact ChatDb.SkipListsOk.upsert hdb (skipListOk_singleton holder) fun s hs =>
      joinSkip_ok hs holder

theorem release_openLoad_le (now : Timestamp) (ws id : Id) (from_ : Option Id)
    (reason : Option WaitReason) (db : ChatDb) (ws' v : Id) :
    (commit (chatRoutingRelease now ws id from_ reason) db).openLoad ws' v ≤ db.openLoad ws' v := by
  obtain h | ⟨c, holder, why, -, -, -, -, h⟩ := release_cases now ws id from_ reason db
  · rw [h]
  · rw [h]
    exact ChatDb.openLoad_assign_le db id (by simp) ws'

theorem releaseMember_conversation (ws user : Id) (missed : List Id) (db : ChatDb) (id : Id) :
    (chatRoutingReleaseMember ws user missed db).conversations.get id =
      (db.conversations.get id).map fun c =>
        if c.workspaceId = ws ∧ c.assignedTo = some user ∧ c.live ∧ id ∉ missed then
          { c with assignedTo := none }
        else c := by
  simp [chatRoutingReleaseMember]

theorem releaseMember_openLoad_le (ws user : Id) (missed : List Id) (db : ChatDb) (ws' v : Id) :
    (chatRoutingReleaseMember ws user missed db).openLoad ws' v ≤ db.openLoad ws' v := by
  unfold ChatDb.openLoad chatRoutingReleaseMember Table.mapKeyed
  rw [List.countP_map]
  refine List.countP_mono_left fun r _ hr => ?_
  simp only [Function.comp_apply] at hr
  split at hr
  · simp at hr
  · exact hr

theorem releaseMember_elsewhere (ws user : Id) (missed : List Id) (db : ChatDb) :
    db.Elsewhere ws (chatRoutingReleaseMember ws user missed db) := by
  refine ⟨rfl, rfl, fun id c hc hne => ⟨?_, rfl⟩, fun ws' v hne => ?_⟩
  · rw [releaseMember_conversation, hc]
    simp [hne]
  · unfold ChatDb.openLoad chatRoutingReleaseMember Table.mapKeyed
    rw [List.countP_map]
    refine List.countP_congr fun r _ => ?_
    simp only [Function.comp_apply]
    split
    · rename_i hr
      have hws : r.2.workspaceId ≠ ws' := hr.1 ▸ Ne.symm hne
      simp [hws]
    · rfl

theorem skip_skipLists (hdb : db.SkipListsOk) : (chatRoutingSkip ws id user db).SkipListsOk := by
  unfold chatRoutingSkip
  cases user with
  | none =>
    refine hdb.update fun s hs => ?_
    split
    · exact ⟨by simp, List.nodup_nil⟩
    · exact hs
  | some user =>
    cases db.conversationOf ws id with
    | none => exact hdb
    | some c => exact hdb.upsert (skipListOk_singleton user) fun s hs => joinSkip_ok hs user

/-- Who joins a list is the one the call names. -/
theorem mem_skip_imp {id' : Id} (h : v ∈ (chatRoutingSkip ws id user db).skipUserIds id') :
    v ∈ db.skipUserIds id' ∨ id' = id ∧ user = some v := by
  unfold chatRoutingSkip at h
  cases user with
  | none =>
    refine .inl ?_
    unfold ChatDb.skipUserIds at h ⊢
    simp only [ChatDb.updateState_state, Option.map_map] at h
    cases hs : db.states.get id' with
    | none => simp [hs] at h
    | some s =>
      simp only [hs, Option.map_some, Function.comp_apply, Option.getD_some] at h ⊢
      split at h
      · split at h
        · cases h
        · exact h
      · exact h
  | some user =>
    cases hc : db.conversationOf ws id with
    | none =>
      rw [hc] at h
      exact .inl h
    | some c =>
      rw [hc] at h
      rw [ChatDb.skipUserIds_upsert] at h
      split at h
      · rename_i hid
        subst hid
        cases hs : db.states.get id' with
        | none =>
          simp only [hs, Option.map_none, Option.getD_none, List.mem_singleton] at h
          exact .inr ⟨rfl, by rw [h]⟩
        | some s =>
          simp only [hs, Option.map_some, Option.getD_some] at h
          obtain h | h := mem_joinSkip_imp h
          · exact .inl (by simpa [ChatDb.skipUserIds, hs] using h)
          · exact .inr ⟨rfl, by rw [h]⟩
      · exact .inl h

theorem skip_conversations (ws id : Id) (user : Option Id) (db : ChatDb) :
    (chatRoutingSkip ws id user db).conversations = db.conversations ∧
      (chatRoutingSkip ws id user db).members = db.members ∧
      (chatRoutingSkip ws id user db).widgetSettings = db.widgetSettings := by
  unfold chatRoutingSkip
  cases user with
  | none => exact ⟨rfl, rfl, rfl⟩
  | some user => dsimp only; cases db.conversationOf ws id <;> exact ⟨rfl, rfl, rfl⟩

theorem compareAndAssign_cases (ws id : Id) (from_ user : Option Id) (db : ChatDb) :
    compareAndAssign ws id from_ user db = db ∨
      ∃ c, db.conversationOf ws id = some c ∧ c.assignedTo = from_ ∧
        compareAndAssign ws id from_ user db = db.assign id user := by
  unfold compareAndAssign
  cases hc : db.conversationOf ws id with
  | none => exact .inl rfl
  | some c =>
    dsimp only
    by_cases hfrom : c.assignedTo = from_
    · rw [if_pos hfrom]
      exact .inr ⟨c, rfl, hfrom, rfl⟩
    · rw [if_neg hfrom]
      exact .inl rfl

section Claimed
variable (now : Timestamp) (p : ClaimArgs) (order : ClaimOrder) (user : Id) (db : ChatDb)

@[simp] theorem claimed_members : (claimed now p order user db).members = db.members := rfl

@[simp] theorem claimed_widgetSettings :
    (claimed now p order user db).widgetSettings = db.widgetSettings := rfl

@[simp] theorem claimed_messages : (claimed now p order user db).messages = db.messages := rfl

@[simp] theorem claimed_conversations : (claimed now p order user db).conversations =
      (db.assign p.conversationId (some user)).conversations := rfl

theorem claimed_openLoad (ws v : Id) : (claimed now p order user db).openLoad ws v =
      (db.assign p.conversationId (some user)).openLoad ws v := rfl

theorem claimed_skipLists {db : ChatDb} (hdb : db.SkipListsOk) :
    (claimed now p order user db).SkipListsOk := by
  refine ChatDb.SkipListsOk.upsert (fun id row h => hdb id row h) ?_ fun s hs => ?_
  · exact skipListOk_toList p.expectedAssignee
  · cases h : p.expectedAssignee with
    | none => simpa [h] using hs
    | some holder => simpa [h] using joinSkip_ok hs holder

theorem claimed_elsewhere {db : ChatDb} (h : p.Takes db) :
    db.Elsewhere p.workspaceId (claimed now p order user db) := by
  obtain ⟨c, hget, hws, -, -⟩ := h
  have hc : db.conversationOf p.workspaceId p.conversationId = some c :=
    ChatDb.conversationOf_eq_some.mpr ⟨hget, hws⟩
  have helse := fun row update => elsewhere_assign hc (some user) row update
  exact ⟨rfl, rfl, fun id c' hc' hne => (helse _ _).conversation id c' hc' hne,
    fun ws' v hne => (helse {workspaceId := 0} id).openLoad ws' v hne⟩

variable {db} in
theorem holder_claimed {c : Conversation} (hc : db.conversations.get p.conversationId = some c) :
    (claimed now p order user db).holder p.conversationId = some user := by
  have hassign := db.holder_assign p.conversationId p.conversationId (some user)
  rw [if_pos rfl, hc] at hassign
  exact hassign

variable {db user} in
theorem claimed_row {id : Id} {row : RoutingState}
    (h : (claimed now p order user db).states.get id = some row) :
    id ≠ p.conversationId ∧ db.states.get id = some row ∨
      id = p.conversationId ∧ row.assignedTo = some user ∧ row.assignedAt = some now ∧
        (row.timeoutDueAt = if 0 < db.responseTimeout p.workspaceId then
          some (now + minutes (db.responseTimeout p.workspaceId)) else none) ∧
        (row.workspaceId = p.workspaceId ∨
          ∃ old, db.states.get id = some old ∧ row.workspaceId = old.workspaceId) := by
  unfold claimed at h
  rw [ChatDb.upsertState_state] at h
  split at h
  · rename_i hid
    subst hid
    refine .inr ⟨rfl, ?_⟩
    rw [ChatDb.assign_states] at h
    cases hold : db.states.get p.conversationId with
    | none =>
      simp only [hold, Option.map_none, Option.getD_none, Option.some.injEq] at h
      subst h
      exact ⟨rfl, rfl, rfl, .inl rfl⟩
    | some old =>
      simp only [hold, Option.map_some, Option.getD_some, Option.some.injEq] at h
      subst h
      exact ⟨rfl, rfl, rfl, .inr ⟨old, rfl, rfl⟩⟩
  · rename_i hid
    exact .inl ⟨hid, h⟩

end Claimed

theorem rowAnswer_ne_assigned {c : Option Conversation} (h : rowAnswer p c = some outcome)
    (user : Id) : outcome ≠ .assigned user := by
  rintro rfl
  cases c with
  | none => cases h
  | some c =>
    unfold rowAnswer at h
    dsimp only at h
    split at h
    · cases h
    split at h
    · cases h
    split at h <;> cases h

theorem chatRouteClaim_eq (now : Timestamp) (p : ClaimArgs) (db : ChatDb) :
    chatRouteClaim now p db =
      match p.checked with
      | .error e => .error e
      | .ok order =>
        match rowAnswer p (db.conversationOf p.workspaceId p.conversationId) with
        | some outcome => .ok (outcome, db)
        | none =>
          let es := eligible db p (db.skipUserIds p.conversationId)
          claimEnd now p order es (pick order (db.cursorOf p) es) db := by
  unfold chatRouteClaim
  cases p.checked with
  | error e => rfl
  | ok order =>
    have hlift : ∀ f : ClaimOrder → RoutingTx ClaimOutcome,
        (liftM (Except.ok order : Except RoutingError ClaimOrder) >>= f) db = f order db :=
      fun _ => rfl
    rw [hlift, get_bind]
    cases rowAnswer p (db.conversationOf p.workspaceId p.conversationId) <;> rfl

theorem chatRouteClaim_cases (h : chatRouteClaim now p db = .ok (outcome, db')) :
    (∀ user, outcome ≠ .assigned user) ∧ db' = db ∨
      ∃ order user, outcome = .assigned user ∧ p.Takes db ∧
        pick order (db.cursorOf p) (eligible db p (db.skipUserIds p.conversationId)) = some user ∧
        db' = claimed now p order user db := by
  rw [chatRouteClaim_eq] at h
  cases hchecked : p.checked with
  | error e => simp [hchecked] at h
  | ok order =>
    simp only [hchecked] at h
    cases hrow : rowAnswer p (db.conversationOf p.workspaceId p.conversationId) with
    | some answer =>
      simp only [hrow, Except.ok.injEq, Prod.mk.injEq] at h
      obtain ⟨rfl, rfl⟩ := h
      exact .inl ⟨rowAnswer_ne_assigned hrow, rfl⟩
    | none =>
      simp only [hrow] at h
      cases hpick : pick order (db.cursorOf p)
          (eligible db p (db.skipUserIds p.conversationId)) with
      | none =>
        rw [hpick] at h
        cases pure_ok.mp h
        refine .inl ⟨fun user => ?_, rfl⟩
        split <;> simp
      | some user =>
        rw [hpick] at h
        obtain ⟨-, h⟩ := require_bind_ok.mp h
        cases pure_ok.mp h
        exact .inr ⟨order, user, rfl, rowAnswer_eq_none hrow, hpick, rfl⟩

end Kindred.ChatRouting
