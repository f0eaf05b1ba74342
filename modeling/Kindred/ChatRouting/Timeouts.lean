import Kindred.ChatRouting.Effects

/-! First-response timeouts: what `chat_routing_due` hands out, and what is done
about it later. -/

namespace Kindred.ChatRouting
open Lib (Table run)
open Lib.Tx

structure Given where
  user : Id
  byRouting : Bool
  at_ : Timestamp
  deriving DecidableEq

/-- A timeout that was handed out. `looked`: its conversation has been read. -/
structure Handed where
  conversationId : Id
  workspaceId : Id
  from_ : Id
  looked : Bool := false
  deriving DecidableEq

def Handed.takeover (h : Handed) (p : ClaimArgs) : ClaimArgs :=
  { p with
    workspaceId := h.workspaceId, conversationId := h.conversationId
    method := some "timeout_reassign", expectedAssignee := some h.from_ }

structure Desk where
  db : ChatDb
  clock : Timestamp
  handed : List Handed := []
  given : Table Id Given := .empty

namespace Desk

def holder (s : Desk) (id : Id) : Option Id := s.db.holder id

def claim (s : Desk) (p : ClaimArgs) : Desk × Option ClaimOutcome :=
  match chatRouteClaim s.clock p s.db with
  | .ok (.assigned user, db) =>
    ({ s with db, given := s.given.put p.conversationId ⟨user, true, s.clock⟩ }, some (.assigned user))
  | .ok (outcome, db) => ({ s with db }, some outcome)
  | .error _ => (s, none)

def move (s : Desk) (workspaceId conversationId : Id) (from_ user : Option Id) : Desk :=
  let db := compareAndAssign workspaceId conversationId from_ user s.db
  match (s.db.conversationOf workspaceId conversationId).filter (·.assignedTo = from_), user with
  | some _, some user =>
    { s with db, given := s.given.put conversationId ⟨user, false, s.clock⟩ }
  | _, _ => { s with db }

def due (s : Desk) (limit : Option Int) (locked : List Id) : Desk :=
  let (rows, db) := chatRoutingDue s.clock limit locked s.db
  let timeouts := rows.filterMap fun r =>
    if r.kind = .timeout then
      r.assignee.map fun from_ =>
        { conversationId := r.conversationId, workspaceId := r.workspaceId, from_ }
    else none
  { s with db, handed := s.handed ++ timeouts }

/-- `reassignAfterFirstResponseTimeout` reads the conversation, and the workspace's mode. -/
def look (s : Desk) (i : ℕ) (h : Handed) (manual : Bool) : Desk :=
  match s.db.conversationOf h.workspaceId h.conversationId with
  | some c =>
    if c.assignedTo = some h.from_ ∧ c.routable ∧ ¬manual then
      { s with handed := s.handed.set i { h with looked := true } }
    else { s with handed := s.handed.eraseIdx i }
  | none => { s with handed := s.handed.eraseIdx i }

def reassign (s : Desk) (i : ℕ) (h : Handed) (p : ClaimArgs) : Desk :=
  let (s', outcome) := s.claim (h.takeover p)
  if outcome = some .allBusy ∨ outcome = some .none then s'
  else { s' with handed := s'.handed.eraseIdx i }

def release (s : Desk) (i : ℕ) (h : Handed) (reason : WaitReason) : Desk :=
  { s with
    db := commit (chatRoutingRelease s.clock h.workspaceId h.conversationId (some h.from_)
      (some reason)) s.db
    handed := s.handed.eraseIdx i }

end Desk

inductive DeskAction where
  | claim (p : ClaimArgs)
  | move (workspaceId conversationId : Id) (from_ user : Option Id)
  | wait (workspaceId conversationId : Id) (reason : Option WaitReason) (fromTicker : Bool)
  | deferPrechat (workspaceId conversationId : Id) (deadline : Timestamp)
  | skip (workspaceId conversationId : Id) (userId : Option Id)
  | releaseMember (workspaceId userId : Id) (missed : List Id)
  | message (conversationId : Id) (senderId : Option Id)
  | due (limit : Option Int) (locked : List Id)
  | look (i : ℕ) (manual : Bool)
  | reassign (i : ℕ) (p : ClaimArgs)
  | release (i : ℕ) (reason : WaitReason)

namespace Desk

def act (s : Desk) : DeskAction → Desk
  | .claim p => (s.claim { p with expectedAssignee := none }).1
  | .move ws id from_ user => s.move ws id from_ user
  | .wait ws id reason fromTicker =>
    { s with db := chatRoutingWait s.clock ws id reason fromTicker s.db }
  | .deferPrechat ws id deadline =>
    { s with db := chatRoutingDeferPrechat ws id deadline s.db }
  | .skip ws id user => { s with db := chatRoutingSkip ws id user s.db }
  | .releaseMember ws user missed =>
    { s with db := chatRoutingReleaseMember ws user missed s.db }
  | .message id sender =>
    { s with db := { s.db with messages := ⟨id, sender, s.clock⟩ :: s.db.messages } }
  | .due limit locked => s.due limit locked
  | .look i manual =>
    match s.handed[i]? with
    | some h => s.look i h manual
    | none => s
  | .reassign i p =>
    match s.handed[i]? with
    | some h => if h.looked then s.reassign i h p else s
    | none => s
  | .release i reason =>
    match s.handed[i]? with
    | some h => if h.looked then s.release i h reason else s
    | none => s

def tick (s : Desk) (t : Timestamp) : Desk := { s with clock := max s.clock t }

def step (s : Desk) (r : Timestamp × DeskAction) : Desk := (s.tick r.1).act r.2

end Desk

/-- The hold the member has on the conversation is routing's, is as old as the
workspace's timeout, and the member has not written in it. -/
structure Desk.Silent (s : Desk) (h : Handed) (since : Timestamp) : Prop where
  given : s.given.get h.conversationId = some ⟨h.from_, true, since⟩
  late : since + minutes (s.db.responseTimeout h.workspaceId) ≤ s.clock
  silent : ∀ m ∈ s.db.messages, m.conversationId = h.conversationId →
    m.senderId = some h.from_ → m.createdAt < since

/-- Every row is of its conversation's workspace. -/
def ChatDb.RowsFit (db : ChatDb) : Prop :=
  ∀ id row c, db.states.get id = some row → db.conversations.get id = some c →
    row.workspaceId = c.workspaceId

structure Desk.Inv (s : Desk) : Prop where
  rowsFit : s.db.RowsFit
  deadlines : ∀ id row dueAt user, s.db.states.get id = some row → row.timeoutDueAt = some dueAt →
    row.assignedTo = some user → s.holder id = some user →
      ∃ since, row.assignedAt = some since ∧ s.given.get id = some ⟨user, true, since⟩ ∧
        since + minutes (s.db.responseTimeout row.workspaceId) ≤ dueAt
  handed : ∀ h ∈ s.handed, s.holder h.conversationId = some h.from_ → ∃ since, s.Silent h since

variable {id ws : Id} {c : Conversation} {row : RoutingState} {db : ChatDb} {r : DueRow}
  {h : Handed} {since : Timestamp} {g : Given} {p : ClaimArgs} {i : ℕ} {s : Desk}

namespace ChatDb.RowsFit
variable {db : ChatDb}

theorem upsertState (h : db.RowsFit) (hc : db.conversations.get id = some c)
    {update : RoutingState → RoutingState} (hrow : row.workspaceId = c.workspaceId)
    (hupdate : ∀ s, (update s).workspaceId = s.workspaceId) :
    (db.upsertState id row update).RowsFit := by
  intro id' row' c' hget hc'
  rw [upsertState_state] at hget
  rw [upsertState_conversations] at hc'
  split at hget
  · rename_i hid
    subst hid
    rw [hc] at hc'
    cases hc'
    cases hold : db.states.get id' with
    | none =>
      simp only [hold, Option.map_none, Option.getD_none, Option.some.injEq] at hget
      exact hget ▸ hrow
    | some old =>
      simp only [hold, Option.map_some, Option.getD_some, Option.some.injEq] at hget
      subst hget
      exact (hupdate old).trans (h id' old c hold hc)
  · exact h id' row' c' hget hc'

theorem assign (h : db.RowsFit) (id : Id) (user : Option Id) : (db.assign id user).RowsFit := by
  intro id' row c' hrow hc'
  rw [assign_conversation, Option.map_eq_some_iff] at hc'
  obtain ⟨c, hc, rfl⟩ := hc'
  have hws := h id' row c hrow hc
  split <;> exact hws

end ChatDb.RowsFit

structure ChatDb.Keeps (db db' : ChatDb) : Prop where
  widgetSettings : db'.widgetSettings = db.widgetSettings
  messages : db'.messages = db.messages
  rowsFit : db.RowsFit → db'.RowsFit
  holder : ∀ id, db'.holder id = none ∨ db'.holder id = db.holder id
  rows : ∀ id row' dueAt', db'.states.get id = some row' → row'.timeoutDueAt = some dueAt' →
    ∃ row dueAt, db.states.get id = some row ∧ row.timeoutDueAt = some dueAt ∧ dueAt ≤ dueAt' ∧
      row'.assignedTo = row.assignedTo ∧ row'.assignedAt = row.assignedAt ∧
      row'.workspaceId = row.workspaceId

namespace ChatDb.Keeps
variable {db db' db'' : ChatDb} {update : RoutingState → RoutingState}

theorem refl (db : ChatDb) : db.Keeps db :=
  ⟨rfl, rfl, id, fun _ => .inr rfl, fun _ row' dueAt' h hdue =>
    ⟨row', dueAt', h, hdue, Int.le_refl _, rfl, rfl, rfl⟩⟩

theorem trans (h : db.Keeps db') (h' : db'.Keeps db'') : db.Keeps db'' := by
  refine ⟨h'.widgetSettings.trans h.widgetSettings, h'.messages.trans h.messages,
    h'.rowsFit ∘ h.rowsFit, fun id => ?_, fun id row'' dueAt'' hrow'' hd'' => ?_⟩
  · obtain hnone | hsame := h'.holder id
    · exact .inl hnone
    · rw [hsame]
      exact h.holder id
  · obtain ⟨row', dueAt', hrow', hd', hle', hto', hat', hws'⟩ := h'.rows id row'' dueAt'' hrow'' hd''
    obtain ⟨row, dueAt, hrow, hd, hle, hto, hat, hws⟩ := h.rows id row' dueAt' hrow' hd'
    exact ⟨row, dueAt, hrow, hd, Int.le_trans hle hle', hto'.trans hto, hat'.trans hat,
      hws'.trans hws⟩

theorem updateStates {f : Id → RoutingState → RoutingState}
    (hf : ∀ id row, (f id row).workspaceId = row.workspaceId ∧
      (f id row).assignedTo = row.assignedTo ∧ (f id row).assignedAt = row.assignedAt)
    (hdue : ∀ id row dueAt', db.states.get id = some row → (f id row).timeoutDueAt = some dueAt' →
      ∃ dueAt, row.timeoutDueAt = some dueAt ∧ dueAt ≤ dueAt') :
    db.Keeps (db.updateStates f) := by
  have hget : ∀ id row', (db.updateStates f).states.get id = some row' →
      ∃ row, db.states.get id = some row ∧ row' = f id row := by
    intro id row' h
    simp only [ChatDb.updateStates, Table.get_mapKeyed, Option.map_eq_some_iff] at h
    obtain ⟨row, hrow, rfl⟩ := h
    exact ⟨row, hrow, rfl⟩
  refine ⟨rfl, rfl, fun hfit id row' c h hc => ?_, fun _ => .inr rfl, fun id row' dueAt' h hd => ?_⟩
  · obtain ⟨row, hrow, rfl⟩ := hget id row' h
    rw [(hf id row).1]
    exact hfit id row c hrow hc
  · obtain ⟨row, hrow, rfl⟩ := hget id row' h
    obtain ⟨dueAt, hdueAt, hle⟩ := hdue id row dueAt' hrow hd
    exact ⟨row, dueAt, hrow, hdueAt, hle, (hf id row).2.1, (hf id row).2.2, (hf id row).1⟩

theorem upsertState (hc : db.conversations.get id = some c)
    (hrow : row.workspaceId = c.workspaceId ∧ row.timeoutDueAt = none)
    (hupdate : ∀ s, (update s).workspaceId = s.workspaceId ∧ ((update s).timeoutDueAt = none ∨
      (update s).timeoutDueAt = s.timeoutDueAt ∧ (update s).assignedTo = s.assignedTo ∧
        (update s).assignedAt = s.assignedAt)) : db.Keeps (db.upsertState id row update) := by
  refine ⟨rfl, rfl, fun hfit => hfit.upsertState hc hrow.1 fun s => (hupdate s).1,
    fun _ => .inr rfl, fun id' row' dueAt' h hd => ?_⟩
  · rw [upsertState_state] at h
    split at h
    · rename_i hid
      subst hid
      cases hold : db.states.get id' with
      | none =>
        simp only [hold, Option.map_none, Option.getD_none, Option.some.injEq] at h
        rw [← h, hrow.2] at hd
        cases hd
      | some old =>
        simp only [hold, Option.map_some, Option.getD_some, Option.some.injEq] at h
        subst h
        obtain ⟨hws, hnone | ⟨hdue, hto, hat⟩⟩ := hupdate old
        · rw [hnone] at hd
          cases hd
        · exact ⟨old, dueAt', rfl, hdue ▸ hd, Int.le_refl _, hto, hat, hws⟩
    · exact ⟨row', dueAt', h, hd, Int.le_refl _, rfl, rfl, rfl⟩

theorem updateState (hupdate : ∀ s, (update s).workspaceId = s.workspaceId ∧
      (update s).timeoutDueAt = s.timeoutDueAt ∧ (update s).assignedTo = s.assignedTo ∧
      (update s).assignedAt = s.assignedAt) : db.Keeps (db.updateState id update) := by
  have hget : ∀ id' row', (db.updateState id update).states.get id' = some row' →
      ∃ row, db.states.get id' = some row ∧ row'.workspaceId = row.workspaceId ∧
        row'.timeoutDueAt = row.timeoutDueAt ∧ row'.assignedTo = row.assignedTo ∧
        row'.assignedAt = row.assignedAt := by
    intro id' row' h
    rw [updateState_state, Option.map_eq_some_iff] at h
    obtain ⟨row, hrow, rfl⟩ := h
    refine ⟨row, hrow, ?_⟩
    split
    · exact hupdate row
    · exact ⟨rfl, rfl, rfl, rfl⟩
  refine ⟨rfl, rfl, fun hfit id' row' c h hc => ?_, fun _ => .inr rfl,
    fun id' row' dueAt' h hd => ?_⟩
  · obtain ⟨row, hrow, hws, -⟩ := hget id' row' h
    exact hws.trans (hfit id' row c hrow hc)
  · obtain ⟨row, hrow, hws, hdue, hto, hat⟩ := hget id' row' h
    exact ⟨row, dueAt', hrow, hdue.symm.trans hd, Int.le_refl _, hto, hat, hws⟩

theorem conversations {f : Id → Conversation → Conversation}
    (hstates : db'.states = db.states) (hsettings : db'.widgetSettings = db.widgetSettings)
    (hmessages : db'.messages = db.messages)
    (hget : ∀ id, db'.conversations.get id = (db.conversations.get id).map (f id))
    (hf : ∀ id c, (f id c).workspaceId = c.workspaceId ∧
      ((f id c).assignedTo = none ∨ (f id c).assignedTo = c.assignedTo)) : db.Keeps db' := by
  refine ⟨hsettings, hmessages, fun hfit id row c' hrow hc' => ?_, fun id => ?_,
    fun id row' dueAt' h' hd => ?_⟩
  · rw [hget, Option.map_eq_some_iff] at hc'
    obtain ⟨c, hc, rfl⟩ := hc'
    rw [(hf id c).1]
    exact hfit id row c (hstates ▸ hrow) hc
  · unfold ChatDb.holder
    rw [hget]
    cases db.conversations.get id with
    | none => exact .inl rfl
    | some c => exact (hf id c).2
  · exact ⟨row', dueAt', hstates ▸ h', hd, Int.le_refl _, rfl, rfl, rfl⟩

theorem assign_none (db : ChatDb) (id : Id) : db.Keeps (db.assign id none) := by
  refine conversations rfl rfl rfl (fun id' => db.assign_conversation id id' none) fun id' c => ?_
  split
  · exact ⟨rfl, .inl rfl⟩
  · exact ⟨rfl, .inr rfl⟩

end ChatDb.Keeps

theorem release_keeps (now : Timestamp) (ws id : Id) (from_ : Option Id)
    (reason : Option WaitReason) (db : ChatDb) :
    db.Keeps (commit (chatRoutingRelease now ws id from_ reason) db) := by
  obtain h | ⟨c, holder, why, hc, -, -, -, h⟩ := release_cases now ws id from_ reason db
  · rw [h]
    exact .refl db
  · rw [h]
    obtain ⟨hget, hws⟩ := ChatDb.conversationOf_eq_some.mp hc
    have hgone : (db.assign id none).conversations.get id = some { c with assignedTo := none } := by
      simp [ChatDb.assign_conversation, hget]
    refine (ChatDb.Keeps.assign_none db id).trans ?_
    exact ChatDb.Keeps.upsertState hgone ⟨hws.symm, rfl⟩ fun s => ⟨rfl, .inl rfl⟩

theorem wait_keeps (now : Timestamp) (ws id : Id) (reason : Option WaitReason) (fromTicker : Bool)
    (db : ChatDb) : db.Keeps (chatRoutingWait now ws id reason fromTicker db) := by
  unfold chatRoutingWait
  cases reason with
  | none =>
    refine ChatDb.Keeps.updateState fun s => ?_
    split <;> exact ⟨rfl, rfl, rfl, rfl⟩
  | some reason =>
    cases hc : db.conversationOf ws id with
    | none => exact .refl db
    | some c =>
      obtain ⟨hget, -⟩ := ChatDb.conversationOf_eq_some.mp hc
      exact ChatDb.Keeps.upsertState hget ⟨rfl, rfl⟩ fun s => ⟨rfl, .inr ⟨rfl, rfl, rfl⟩⟩

theorem deferPrechat_keeps (ws id : Id) (deadline : Timestamp) (db : ChatDb) :
    db.Keeps (chatRoutingDeferPrechat ws id deadline db) := by
  unfold chatRoutingDeferPrechat
  cases hc : db.conversationOf ws id with
  | none => exact .refl db
  | some c =>
    obtain ⟨hget, -⟩ := ChatDb.conversationOf_eq_some.mp hc
    exact ChatDb.Keeps.upsertState hget ⟨rfl, rfl⟩ fun s => ⟨rfl, .inr ⟨rfl, rfl, rfl⟩⟩

theorem skip_keeps (ws id : Id) (user : Option Id) (db : ChatDb) :
    db.Keeps (chatRoutingSkip ws id user db) := by
  unfold chatRoutingSkip
  cases user with
  | none =>
    refine ChatDb.Keeps.updateState fun s => ?_
    split <;> exact ⟨rfl, rfl, rfl, rfl⟩
  | some user =>
    cases hc : db.conversationOf ws id with
    | none => exact .refl db
    | some c =>
      obtain ⟨hget, -⟩ := ChatDb.conversationOf_eq_some.mp hc
      exact ChatDb.Keeps.upsertState hget ⟨rfl, rfl⟩ fun s => ⟨rfl, .inr ⟨rfl, rfl, rfl⟩⟩

theorem releaseMember_keeps (ws user : Id) (missed : List Id) (db : ChatDb) :
    db.Keeps (chatRoutingReleaseMember ws user missed db) := by
  refine ChatDb.Keeps.conversations rfl rfl rfl (releaseMember_conversation ws user missed db)
    fun id c => ?_
  split
  · exact ⟨rfl, .inl rfl⟩
  · exact ⟨rfl, .inr rfl⟩

theorem spendPrechat_keeps (now : Timestamp) (limit : ℕ) (locked : List Id) (db : ChatDb) :
    db.Keeps (spendPrechat now limit locked db).2 := by
  refine ChatDb.Keeps.updateStates (fun id row => ?_) fun id row dueAt' _ h => ?_
  · split <;> exact ⟨rfl, rfl, rfl⟩
  · refine ⟨dueAt', ?_, Int.le_refl _⟩
    split at h <;> exact h

theorem forgetWaits_keeps (now : Timestamp) (db : ChatDb) : db.Keeps (forgetWaits now db) := by
  refine ChatDb.Keeps.updateStates (fun id row => ?_) fun id row dueAt' _ h => ?_
  · split
    · split <;> exact ⟨rfl, rfl, rfl⟩
    · exact ⟨rfl, rfl, rfl⟩
  · refine ⟨dueAt', ?_, Int.le_refl _⟩
    split at h
    · split at h <;> exact h
    · exact h

theorem handWaiting_keeps (now : Timestamp) (limit : ℕ) (locked : List Id) (db : ChatDb) :
    db.Keeps (handWaiting now limit locked db).2 := by
  refine ChatDb.Keeps.updateStates (fun id row => ?_) fun id row dueAt' _ h => ?_
  · split <;> exact ⟨rfl, rfl, rfl⟩
  · refine ⟨dueAt', ?_, Int.le_refl _⟩
    split at h <;> exact h

theorem forgetTimeouts_keeps (now : Timestamp) (db : ChatDb) :
    db.Keeps (forgetTimeouts now db) := by
  refine ChatDb.Keeps.updateStates (fun id row => ?_) fun id row dueAt' _ h => ?_
  · split
    · split <;> exact ⟨rfl, rfl, rfl⟩
    · exact ⟨rfl, rfl, rfl⟩
  · refine ⟨dueAt', ?_, Int.le_refl _⟩
    split at h
    · split at h
      · cases h
      · exact h
    · exact h

variable {limit : ℕ} {locked : List Id} {key : RoutingState → Timestamp × Timestamp}
  {now : Timestamp}

theorem mem_firstDue {rows : List (Id × RoutingState)} (h : id ∈ firstDue limit locked key rows)
    : ∃ row, (id, row) ∈ rows := by
  obtain ⟨r, hr, rfl⟩ := List.mem_map.mp h
  have hsorted := List.mem_of_mem_take hr
  rw [orderBy, List.mem_insertionSort] at hsorted
  exact ⟨r.2, (List.mem_filter.mp hsorted).1⟩

theorem mem_firstDue_dueBy {at_ : RoutingState → Option Timestamp} {only : Conversation → Bool}
    (h : id ∈ firstDue limit locked key (db.dueBy at_ now only))
    (hrow : db.states.get id = some row) :
    (∃ dueAt, at_ row = some dueAt ∧ dueAt ≤ now) ∧
      ∃ c, db.conversations.get id = some c ∧ only c = true := by
  obtain ⟨row', hmem⟩ := mem_firstDue h
  obtain ⟨hmem, hdue⟩ := List.mem_filter.mp hmem
  have hget := Table.get_eq_some_iff_mem.mpr hmem
  rw [hrow] at hget
  cases hget
  simp only [Bool.and_eq_true, Option.any_eq_true, decide_eq_true_eq] at hdue
  obtain ⟨⟨dueAt, hat, hle⟩, c, hc, honly⟩ := hdue
  exact ⟨⟨dueAt, hat, hle⟩, c, hc, honly⟩

theorem handTimeouts_keeps (now : Timestamp) (limit : ℕ) (locked : List Id) (db : ChatDb) :
    db.Keeps (handTimeouts now limit locked db).2 := by
  refine ChatDb.Keeps.updateStates (fun id row => ?_) fun id row dueAt' hrow h => ?_
  · split <;> exact ⟨rfl, rfl, rfl⟩
  · split at h
    · rename_i hmem
      obtain ⟨⟨dueAt, hdueAt, hle⟩, -⟩ := mem_firstDue_dueBy hmem hrow
      refine ⟨dueAt, hdueAt, ?_⟩
      cases h
      have hpos : (0 : ℤ) ≤ minutes 2 := by decide
      exact Int.le_trans hle (Int.le_add_of_nonneg_right hpos)
    · exact ⟨dueAt', h, Int.le_refl _⟩

/-- A timeout is handed out for whoever has the conversation, who has not written in it
since routing gave it to them. -/
theorem handTimeouts_rows (h : r ∈ (handTimeouts now limit locked (forgetTimeouts now db)).1) :
    ∃ row dueAt, db.states.get r.conversationId = some row ∧ row.timeoutDueAt = some dueAt ∧
      dueAt ≤ now ∧ db.holder r.conversationId = row.assignedTo ∧
      db.answered r.conversationId row = false ∧ r.assignee = row.assignedTo ∧
      r.workspaceId = row.workspaceId := by
  obtain ⟨⟨id, row⟩, hmem, rfl⟩ := List.mem_map.mp h
  obtain ⟨hmem, hdue⟩ := List.mem_filter.mp hmem
  have hrow := Table.get_eq_some_iff_mem.mpr hmem
  obtain ⟨⟨dueAt, hdueAt, hle⟩, c, hc, -⟩ :=
    mem_firstDue_dueBy (decide_eq_true_eq.mp hdue) hrow
  have hconv : db.conversations.get id = some c := hc
  simp only [forgetTimeouts, ChatDb.updateStates, Table.get_mapKeyed,
    Option.map_eq_some_iff] at hrow
  obtain ⟨old, hold, hrow⟩ := hrow
  rw [hconv] at hrow
  -- A row that does not apply has lost its deadline.
  cases hd : old.timeoutDueAt with
  | none =>
    simp only [hd] at hrow
    rw [← hrow, hd] at hdueAt
    cases hdueAt
  | some dueAt' =>
    simp only [hd] at hrow
    split at hrow
    · rw [← hrow] at hdueAt
      cases hdueAt
    · rename_i hstays
      subst hrow
      rw [hd] at hdueAt
      cases hdueAt
      simp only [not_and, not_or, Decidable.not_not, Bool.not_eq_true] at hstays
      obtain ⟨hto, -, -, -, hanswered⟩ := hstays hle
      refine ⟨old, dueAt, hold, hd, hle, ?_, hanswered, rfl, rfl⟩
      simp [ChatDb.holder, hconv, hto]

theorem ChatDb.responseTimeout_congr {db' : ChatDb} (h : db'.widgetSettings = db.widgetSettings)
    (ws : Id) : db'.responseTimeout ws = db.responseTimeout ws := by
  simp [ChatDb.responseTimeout, h]

theorem chatRoutingDue_keeps (now : Timestamp) (limit : Option Int) (locked : List Id)
    (db : ChatDb) : db.Keeps (chatRoutingDue now limit locked db).2 := by
  unfold chatRoutingDue
  generalize (min (max (limit.getD 100) 1) 1000).toNat = n
  have hwaits := (forgetWaits_keeps now (spendPrechat now n locked db).2).trans
    (handWaiting_keeps now n locked _)
  have htimeouts := (forgetTimeouts_keeps now
    (handWaiting now n locked (forgetWaits now (spendPrechat now n locked db).2)).2).trans
    (handTimeouts_keeps now n locked _)
  exact ((spendPrechat_keeps now n locked db).trans hwaits).trans htimeouts

theorem chatRoutingDue_timeouts {limit : Option Int}
    (h : r ∈ (chatRoutingDue now limit locked db).1) (hkind : r.kind = .timeout) {from_ : Id}
    (hfrom : r.assignee = some from_) :
    ∃ row dueAt, db.states.get r.conversationId = some row ∧ row.timeoutDueAt = some dueAt ∧
      dueAt ≤ now ∧ db.holder r.conversationId = some from_ ∧ row.assignedTo = some from_ ∧
      db.answered r.conversationId row = false ∧ r.workspaceId = row.workspaceId := by
  unfold chatRoutingDue at h
  generalize (min (max (limit.getD 100) 1) 1000).toNat = n at h
  have hkeeps := ((spendPrechat_keeps now n locked db).trans (forgetWaits_keeps now _)).trans
    (handWaiting_keeps now n locked _)
  rw [List.mem_append, List.mem_append] at h
  obtain (hprechat | hwaiting) | htimeout := h
  · obtain ⟨id, -, hr⟩ := List.mem_filterMap.mp hprechat
    obtain ⟨c, -, hr⟩ := Option.bind_eq_some_iff.mp hr
    split at hr
    · obtain ⟨row, -, rfl⟩ := Option.map_eq_some_iff.mp hr
      cases hkind
    · cases hr
  · obtain ⟨x, -, rfl⟩ := List.mem_map.mp hwaiting
    cases hkind
  · obtain ⟨row', dueAt', hrow', hd', hle', hheld, hanswered, hassignee, hws⟩ :=
      handTimeouts_rows htimeout
    obtain ⟨row, dueAt, hrow, hd, hle, hto, hat, hws'⟩ := hkeeps.rows _ row' dueAt' hrow' hd'
    have hfrom' : row'.assignedTo = some from_ := hassignee.symm.trans hfrom
    refine ⟨row, dueAt, hrow, hd, Int.le_trans hle hle', ?_, hto ▸ hfrom', ?_, hws.trans hws'⟩
    · obtain hnone | hsame := hkeeps.holder r.conversationId
      · rw [hnone, hfrom'] at hheld
        cases hheld
      · rw [← hsame, hheld, hfrom']
    · have hsame : db.answered r.conversationId row =
          (handWaiting now n locked (forgetWaits now (spendPrechat now n locked db).2)).2.answered
            r.conversationId row' := by
        unfold ChatDb.answered
        rw [hto, hat, hkeeps.messages]
      rw [hsame, hanswered]

def Handed.Same (x y : Handed) : Prop :=
  x.conversationId = y.conversationId ∧ x.workspaceId = y.workspaceId ∧ x.from_ = y.from_

namespace Desk
variable {s s' : Desk} {id : Id} {user : Id} {x : Handed}

theorem Silent.keeps (hs : s.Silent h since) (hk : s.db.Keeps s'.db) (hgiven : s'.given = s.given)
    (hclock : s.clock ≤ s'.clock) :
    s'.Silent h since := by
  refine ⟨by rw [hgiven]; exact hs.given, ?_, fun m hm => ?_⟩
  · rw [ChatDb.responseTimeout_congr hk.widgetSettings]
    exact Int.le_trans hs.late hclock
  · rw [hk.messages] at hm
    exact hs.silent m hm

theorem Inv.keeps (h : s.Inv) (hk : s.db.Keeps s'.db) (hgiven : s'.given = s.given)
    (hclock : s.clock ≤ s'.clock)
    (hhanded : ∀ x ∈ s'.handed, ∃ y ∈ s.handed, y.Same x) : s'.Inv := by
  have hheld : ∀ id user, s'.holder id = some user → s.holder id = some user := by
    intro id user hid
    obtain hnone | hsame := hk.holder id
    · exact absurd (hnone.symm.trans hid) (by simp)
    · exact hsame.symm.trans hid
  refine ⟨hk.rowsFit h.rowsFit, ?_, ?_⟩
  · intro id row' dueAt' user hrow' hd' hto' hid
    obtain ⟨row, dueAt, hrow, hd, hle, hto, hat, hws⟩ := hk.rows id row' dueAt' hrow' hd'
    obtain ⟨since, hsince, hg, hlate⟩ :=
      h.deadlines id row dueAt user hrow hd (hto ▸ hto') (hheld id user hid)
    refine ⟨since, hat.trans hsince, by rw [hgiven]; exact hg, ?_⟩
    rw [ChatDb.responseTimeout_congr hk.widgetSettings, hws]
    exact Int.le_trans hlate hle
  · intro x hx hid
    obtain ⟨y, hy, hconv, hws, hfrom⟩ := hhanded x hx
    obtain ⟨since, hsilent⟩ := h.handed y hy (by rw [hconv, hfrom]; exact hheld _ _ hid)
    obtain ⟨hg, hlate, hquiet⟩ := hsilent.keeps hk hgiven hclock
    rw [hconv, hfrom] at hg hquiet
    rw [hws] at hlate
    exact ⟨since, hg, hlate, hquiet⟩

theorem Silent.given_other (hs : s.Silent h since) (hid : h.conversationId ≠ id)
    (hgiven : s'.given = s.given.put id g) (hsettings : s'.db.widgetSettings = s.db.widgetSettings)
    (hmessages : s'.db.messages = s.db.messages) (hclock : s'.clock = s.clock) :
    s'.Silent h since := by
  refine ⟨?_, ?_, ?_⟩
  · rw [hgiven, Table.get_put_ne _ _ hid]
    exact hs.given
  · rw [ChatDb.responseTimeout_congr hsettings, hclock]
    exact hs.late
  · rw [hmessages]
    exact hs.silent

theorem claim_cases (s : Desk) (p : ClaimArgs) :
    (s.claim p).1 = s ∧ (∀ user, (s.claim p).2 ≠ some (.assigned user)) ∨
      ∃ order user, p.Takes s.db ∧ s.claim p =
        ({ s with db := claimed s.clock p order user s.db
                  given := s.given.put p.conversationId ⟨user, true, s.clock⟩ },
          some (.assigned user)) := by
  unfold claim
  cases hclaim : chatRouteClaim s.clock p s.db with
  | error e => exact .inl ⟨rfl, fun _ => by simp⟩
  | ok r =>
    obtain ⟨outcome, db⟩ := r
    obtain ⟨hnobody, rfl⟩ | ⟨order, user, rfl, htakes, -, rfl⟩ := chatRouteClaim_cases hclaim
    · cases outcome with
      | assigned user => exact absurd rfl (hnobody user)
      | _ => exact .inl ⟨rfl, fun _ => by simp⟩
    · exact .inr ⟨order, user, htakes, rfl⟩

/-- Nobody in `handed` is given the conversation again. -/
def NotAgain (s : Desk) (id user : Id) : Prop :=
  ∀ x ∈ s.handed, x.conversationId = id → x.from_ ≠ user

theorem Inv.handed_given (h : s.Inv) (hquiet : s.NotAgain id user)
    (hgiven : s'.given = s.given.put id g)
    (hholder : ∀ id', s'.holder id' = if id' = id then some user else s.holder id')
    (hsettings : s'.db.widgetSettings = s.db.widgetSettings)
    (hmessages : s'.db.messages = s.db.messages) (hclock : s'.clock = s.clock)
    (hhanded : ∀ x ∈ s'.handed, x ∈ s.handed) (hx : x ∈ s'.handed)
    (hid : s'.holder x.conversationId = some x.from_) : ∃ since, s'.Silent x since := by
  rw [hholder] at hid
  split at hid
  · rename_i heq
    cases hid
    exact absurd rfl (hquiet x (hhanded x hx) heq)
  · rename_i hne
    obtain ⟨since, hsilent⟩ := h.handed x (hhanded x hx) hid
    exact ⟨since, hsilent.given_other hne hgiven hsettings hmessages hclock⟩

theorem Inv.claimed (h : s.Inv) {order : ClaimOrder} (htakes : p.Takes s.db)
    (hquiet : s.NotAgain p.conversationId user) (hdb : s'.db = claimed s.clock p order user s.db)
    (hgiven : s'.given = s.given.put p.conversationId ⟨user, true, s.clock⟩)
    (hclock : s'.clock = s.clock) (hhanded : ∀ x ∈ s'.handed, x ∈ s.handed) : s'.Inv := by
  obtain ⟨c, hc, hws, -, -⟩ := htakes
  have hholder : ∀ id, s'.holder id =
      if id = p.conversationId then some user else s.holder id := by
    intro id
    have hassign := s.db.holder_assign p.conversationId id (some user)
    rw [hc] at hassign
    show s'.db.holder id = _
    rw [hdb]
    exact hassign
  have hsettings : s'.db.widgetSettings = s.db.widgetSettings := by rw [hdb]; rfl
  refine ⟨?_, fun id row dueAt holder hget hdue hto hid => ?_,
    fun x hx hid => h.handed_given hquiet hgiven hholder hsettings (by rw [hdb]; rfl) hclock
      hhanded hx hid⟩
  · have hfit := h.rowsFit.assign p.conversationId (some user)
    have hgone : (s.db.assign p.conversationId (some user)).conversations.get p.conversationId =
        some { c with assignedTo := some user } := by
      simp [ChatDb.assign_conversation, hc]
    rw [hdb]
    exact hfit.upsertState hgone hws.symm fun _ => rfl
  · rw [hholder] at hid
    rw [ChatDb.responseTimeout_congr hsettings]
    rw [hdb] at hget
    obtain ⟨hne, hget⟩ | ⟨rfl, hto', hat, hdue', hrowWs⟩ := claimed_row _ _ _ hget
    · rw [if_neg hne] at hid
      obtain ⟨since, hsince, hg, hlate⟩ := h.deadlines id row dueAt holder hget hdue hto hid
      refine ⟨since, hsince, ?_, hlate⟩
      rw [hgiven, Table.get_put_ne _ _ hne]
      exact hg
    · have hws' : row.workspaceId = p.workspaceId := by
        obtain hrowWs | ⟨old, hold, hrowWs⟩ := hrowWs
        · exact hrowWs
        · rw [hrowWs, h.rowsFit _ old c hold hc, hws]
      rw [if_pos rfl] at hid
      cases hid
      rw [hws']
      rw [hdue'] at hdue
      split at hdue
      · cases hdue
        refine ⟨s.clock, hat, ?_, Int.le_refl _⟩
        simp [hgiven]
      · cases hdue

theorem Inv.moved (h : s.Inv) (hc : s.db.conversationOf ws id = some c)
    (hquiet : s.NotAgain id user)
    (hstale : ∀ row, s.db.states.get id = some row → row.assignedTo = some user →
      row.timeoutDueAt = none) (hdb : s'.db = s.db.assign id (some user))
    (hgiven : s'.given = s.given.put id ⟨user, false, s.clock⟩) (hclock : s'.clock = s.clock)
    (hhanded : s'.handed = s.handed) : s'.Inv := by
  have hholder : ∀ id', s'.holder id' = if id' = id then some user else s.holder id' := by
    intro id'
    have hassign := s.db.holder_assign id id' (some user)
    rw [(ChatDb.conversationOf_eq_some.mp hc).1] at hassign
    show s'.db.holder id' = _
    rw [hdb]
    exact hassign
  have hsettings : s'.db.widgetSettings = s.db.widgetSettings := by rw [hdb]; rfl
  refine ⟨hdb ▸ h.rowsFit.assign id (some user), fun id' row dueAt holder hget hdue hto hid => ?_,
    fun x hx hid => h.handed_given hquiet hgiven hholder hsettings (by rw [hdb]; rfl) hclock
      (fun _ hmem => hhanded ▸ hmem) hx hid⟩
  rw [hholder] at hid
  rw [hdb, ChatDb.assign_states] at hget
  rw [ChatDb.responseTimeout_congr hsettings]
  split at hid
  · rename_i hid'
    subst hid'
    cases hid
    rw [hstale row hget hto] at hdue
    cases hdue
  · rename_i hne
    obtain ⟨since, hsince, hg, hlate⟩ := h.deadlines id' row dueAt holder hget hdue hto hid
    refine ⟨since, hsince, ?_, hlate⟩
    rw [hgiven, Table.get_put_ne _ _ hne]
    exact hg

theorem Inv.message (h : s.Inv) {sender : Option Id} (t : Timestamp)
    (hquiet : ∀ x ∈ s.handed, x.conversationId = id → sender = some x.from_ →
      s.holder id ≠ some x.from_) :
    ({ s with db := { s.db with messages := ⟨id, sender, t⟩ :: s.db.messages } } : Desk).Inv := by
  refine ⟨h.rowsFit, h.deadlines, fun x hx hid => ?_⟩
  obtain ⟨since, hg, hlate, hsilent⟩ := h.handed x hx hid
  refine ⟨since, hg, hlate, fun m hm hconv hsender => ?_⟩
  obtain rfl | hm := List.mem_cons.mp hm
  · cases hconv
    exact absurd hid (hquiet x hx rfl hsender)
  · exact hsilent m hm hconv hsender

/-- The timeouts that are handed out are of holds routing gave, as old as they say, and
the members have not written. -/
theorem Inv.due (h : s.Inv) (limit : Option Int) (locked : List Id) : (s.due limit locked).Inv := by
  have hkeeps := chatRoutingDue_keeps s.clock limit locked s.db
  have hinv : ({ s with db := (chatRoutingDue s.clock limit locked s.db).2 } : Desk).Inv :=
    h.keeps hkeeps rfl (Int.le_refl _) fun x hx => ⟨x, hx, rfl, rfl, rfl⟩
  refine ⟨hinv.rowsFit, hinv.deadlines, fun x hx hid => ?_⟩
  obtain hx | hx := List.mem_append.mp hx
  · obtain ⟨since, hg, hlate, hsilent⟩ := hinv.handed x hx hid
    exact ⟨since, hg, hlate, hsilent⟩
  obtain ⟨r, hr, hx⟩ := List.mem_filterMap.mp hx
  split at hx
  · rename_i hkind
    obtain ⟨from_, hfrom, rfl⟩ := Option.map_eq_some_iff.mp hx
    obtain ⟨row, dueAt, hrow, hdue, hle, hheld, hto, hanswered, hws⟩ :=
      chatRoutingDue_timeouts hr hkind hfrom
    obtain ⟨since, hsince, hg, hlate⟩ :=
      h.deadlines r.conversationId row dueAt from_ hrow hdue hto hheld
    have hsilent : s.Silent
        { conversationId := r.conversationId, workspaceId := r.workspaceId, from_ } since := by
      refine ⟨hg, ?_, fun m hm hconv hsender => ?_⟩
      · rw [hws]
        exact Int.le_trans hlate hle
      · by_contra hlater
        have hsince' := Int.not_lt.mp hlater
        have hmet := List.any_eq_false.mp hanswered m hm
        simp [hconv, hsender, hto, hsince, hsince'] at hmet
    exact ⟨since, hsilent.keeps hkeeps rfl (Int.le_refl _)⟩
  · cases hx

theorem handed_set {l : List Handed} {y : Handed} (hi : l[i]? = some x)
    (hy : y ∈ l.set i { x with looked := true }) : ∃ z ∈ l, z.Same y := by
  obtain hy | rfl := List.mem_or_eq_of_mem_set hy
  · exact ⟨y, hy, rfl, rfl, rfl⟩
  · exact ⟨x, List.mem_of_getElem? hi, rfl, rfl, rfl⟩

theorem Inv.look (h : s.Inv) (hi : s.handed[i]? = some x) (manual : Bool) :
    (s.look i x manual).Inv := by
  have herased : ({ s with handed := s.handed.eraseIdx i } : Desk).Inv :=
    h.keeps (.refl s.db) rfl (Int.le_refl _) fun y hy =>
      ⟨y, List.mem_of_mem_eraseIdx hy, rfl, rfl, rfl⟩
  unfold Desk.look
  split
  · split
    · exact h.keeps (.refl s.db) rfl (Int.le_refl _) fun y hy => handed_set hi hy
    · exact herased
  · exact herased

end Desk

/-- Whom a claim gives the conversation. -/
def Desk.picked (s : Desk) (p : ClaimArgs) : Option Id :=
  match (s.claim p).2 with
  | some (.assigned user) => some user
  | _ => none

/-- While a timeout is under way, its member is not given the conversation again, and
does not write in it; and nobody takes by hand a conversation that its row still names
them for, with a deadline. -/
def DeskAction.Quiet (s : Desk) : DeskAction → Prop
  | .claim p => ∀ user ∈ s.picked { p with expectedAssignee := none },
      s.NotAgain p.conversationId user
  | .move ws id from_ to_ => ∀ c ∈ s.db.conversationOf ws id, c.assignedTo = from_ →
      ∀ user ∈ to_, s.NotAgain id user ∧ ∀ row ∈ s.db.states.get id,
        row.assignedTo = some user → row.timeoutDueAt = none
  | .message id sender => ∀ x ∈ s.handed, x.conversationId = id → sender = some x.from_ →
      s.holder id ≠ some x.from_
  | .reassign i p => ∀ x ∈ s.handed[i]?, ∀ user ∈ s.picked (x.takeover p),
      s.NotAgain x.conversationId user
  | _ => True

namespace Desk
variable {s : Desk}

theorem picked_of_claim {user : Id} {s' : Desk} (h : s.claim p = (s', some (.assigned user)))
    : s.picked p = some user := by
  simp [picked, h]

theorem Inv.move (h : s.Inv) {from_ to_ : Option Id}
    (hquiet : (DeskAction.move ws id from_ to_).Quiet s) : (s.move ws id from_ to_).Inv := by
  unfold Desk.move compareAndAssign
  cases hc : s.db.conversationOf ws id with
  | none => exact h.keeps (.refl s.db) rfl (Int.le_refl _) fun x hx => ⟨x, hx, rfl, rfl, rfl⟩
  | some c =>
    by_cases hfrom : c.assignedTo = from_
    · cases to_ with
      | none =>
        simp only [Option.filter_some, hfrom, decide_true, if_true]
        exact h.keeps (.assign_none s.db id) rfl (Int.le_refl _) fun x hx => ⟨x, hx, rfl, rfl, rfl⟩
      | some user =>
        obtain ⟨hagain, hstale⟩ := hquiet c hc hfrom user rfl
        simp only [Option.filter_some, hfrom, decide_true, if_true]
        exact h.moved hc hagain hstale rfl rfl rfl rfl
    · simp only [Option.filter_some, hfrom, decide_false, if_false, Bool.false_eq_true]
      exact h.keeps (.refl s.db) rfl (Int.le_refl _) fun x hx => ⟨x, hx, rfl, rfl, rfl⟩

theorem Inv.reassign (h : s.Inv) {x : Handed}
    (hquiet : ∀ user ∈ s.picked (x.takeover p), s.NotAgain x.conversationId user) :
    (s.reassign i x p).Inv := by
  unfold Desk.reassign
  obtain ⟨heq, hnobody⟩ | ⟨order, user, htakes, heq⟩ := s.claim_cases (x.takeover p)
  · dsimp only
    split
    · rwa [heq]
    · rw [heq]
      exact h.keeps (.refl s.db) rfl (Int.le_refl _) fun y hy =>
        ⟨y, List.mem_of_mem_eraseIdx hy, rfl, rfl, rfl⟩
  · rw [heq]
    exact h.claimed htakes (hquiet user (picked_of_claim heq)) rfl rfl rfl fun _ hmem =>
      List.mem_of_mem_eraseIdx hmem

theorem Inv.act (h : s.Inv) {a : DeskAction} (hquiet : a.Quiet s) : (s.act a).Inv := by
  have hsame : ∀ {db : ChatDb}, s.db.Keeps db → ({ s with db } : Desk).Inv := fun hk =>
    h.keeps hk rfl (Int.le_refl _) fun x hx => ⟨x, hx, rfl, rfl, rfl⟩
  cases a with
  | claim p =>
    obtain ⟨heq, -⟩ | ⟨order, user, htakes, heq⟩ :=
      s.claim_cases { p with expectedAssignee := none }
    · rwa [Desk.act, heq]
    · rw [Desk.act, heq]
      exact h.claimed htakes (hquiet user (picked_of_claim heq)) rfl rfl rfl fun _ => id
  | move ws id from_ to_ => exact h.move hquiet
  | wait ws id reason fromTicker => exact hsame (wait_keeps s.clock ws id reason fromTicker s.db)
  | deferPrechat ws id deadline => exact hsame (deferPrechat_keeps ws id deadline s.db)
  | skip ws id user => exact hsame (skip_keeps ws id user s.db)
  | releaseMember ws user missed => exact hsame (releaseMember_keeps ws user missed s.db)
  | message id sender => exact h.message s.clock hquiet
  | due limit locked => exact h.due limit locked
  | look i manual =>
    unfold Desk.act
    dsimp only
    cases hi : s.handed[i]? with
    | none => exact h
    | some x => exact h.look hi manual
  | reassign i p =>
    unfold Desk.act
    dsimp only
    cases hi : s.handed[i]? with
    | none => exact h
    | some x =>
      dsimp only
      split
      · exact h.reassign fun user hpicked => hquiet x hi user hpicked
      · exact h
  | release i reason =>
    unfold Desk.act
    dsimp only
    cases hi : s.handed[i]? with
    | none => exact h
    | some x =>
      dsimp only
      split
      · exact h.keeps (release_keeps ..) rfl (Int.le_refl _) fun y hy =>
          ⟨y, List.mem_of_mem_eraseIdx hy, rfl, rfl, rfl⟩
      · exact h

end Desk

/-- No timeout is under way, and no row has a deadline. -/
structure Desk.Starts (s : Desk) : Prop where
  handed : s.handed = []
  rowsFit : s.db.RowsFit
  deadlines : ∀ id row, s.db.states.get id = some row → row.timeoutDueAt = none

theorem Desk.Starts.inv (h : s.Starts) : s.Inv := by
  refine ⟨h.rowsFit, fun id row dueAt user hrow hdue => ?_, fun x hx => ?_⟩
  · rw [h.deadlines id row hrow] at hdue
    cases hdue
  · rw [h.handed] at hx
    cases hx

theorem Desk.Inv.tick (h : s.Inv) (t : Timestamp) : (s.tick t).Inv :=
  h.keeps (.refl s.db) rfl (Int.le_max_left _ _) fun x hx => ⟨x, hx, rfl, rfl, rfl⟩

def DeskAction.ofTimeout (s : Desk) : DeskAction → Option Handed
  | .reassign i _ | .release i _ => s.handed[i]?
  | _ => none

/-- The step takes the conversation from the member on account of the timeout. -/
structure Desk.TimesOut (s : Desk) (a : DeskAction) (x : Handed) : Prop where
  timeout : a.ofTimeout s = some x
  held : s.holder x.conversationId = some x.from_
  taken : (s.act a).holder x.conversationId ≠ some x.from_

def Desk.QuietStep (s : Desk) (r : Timestamp × DeskAction) : Prop := r.2.Quiet (s.tick r.1)

/-- Whoever a timeout takes a conversation from has it from routing, for as long as the
workspace's timeout at least, and has not written in it since. -/
theorem timeouts_take_silent (s : Desk) (hs : s.Starts) (as : List (Timestamp × DeskAction))
    (hquiet : Lib.Meets Desk.step Desk.QuietStep s as) :
    ∀ pre r post, as = pre ++ r :: post → ∀ x,
      ((run Desk.step s pre).tick r.1).TimesOut r.2 x →
        ∃ since, ((run Desk.step s pre).tick r.1).Silent x since := by
  intro pre r post hsplit x htimes
  have hpre : Lib.Meets Desk.step Desk.QuietStep s pre := by
    rw [hsplit] at hquiet
    exact hquiet.append_left
  have hinv : (run Desk.step s pre).Inv :=
    Lib.run_keeps (I := Desk.Inv) (fun _ r hs hr => (hs.tick r.1).act hr) hs.inv hpre
  have hmem : x ∈ (run Desk.step s pre).handed := by
    obtain ⟨htimeout, -, -⟩ := htimes
    cases ha : r.2 with
    | reassign i p =>
      rw [ha] at htimeout
      exact List.mem_of_getElem? htimeout
    | release i reason =>
      rw [ha] at htimeout
      exact List.mem_of_getElem? htimeout
    | _ =>
      rw [ha] at htimeout
      cases htimeout
  exact (hinv.tick r.1).handed x hmem htimes.held

instance (s : Desk) (id user : Id) : Decidable (s.NotAgain id user) :=
  inferInstanceAs (Decidable (∀ x ∈ s.handed, x.conversationId = id → x.from_ ≠ user))

instance (s : Desk) : (a : DeskAction) → Decidable (a.Quiet s)
  | .claim p => inferInstanceAs (Decidable (∀ user ∈ s.picked { p with expectedAssignee := none },
      s.NotAgain p.conversationId user))
  | .move ws id from_ to_ => inferInstanceAs (Decidable (∀ c ∈ s.db.conversationOf ws id,
      c.assignedTo = from_ → ∀ user ∈ to_, s.NotAgain id user ∧ ∀ row ∈ s.db.states.get id,
        row.assignedTo = some user → row.timeoutDueAt = none))
  | .message id sender => inferInstanceAs (Decidable (∀ x ∈ s.handed, x.conversationId = id →
      sender = some x.from_ → s.holder id ≠ some x.from_))
  | .reassign i p => inferInstanceAs (Decidable (∀ x ∈ s.handed[i]?,
      ∀ user ∈ s.picked (x.takeover p), s.NotAgain x.conversationId user))
  | .wait _ _ _ _ | .deferPrechat _ _ _ | .skip _ _ _ | .releaseMember _ _ _ | .due _ _
  | .look _ _ | .release _ _ => isTrue trivial

instance (s : Desk) (r : Timestamp × DeskAction) : Decidable (s.QuietStep r) :=
  inferInstanceAs (Decidable (r.2.Quiet (s.tick r.1)))

def quietDesk : Desk where
  db := {
    conversations := Table.empty.put 1 { workspaceId := 1 }
    members := (Table.empty.put (1, 7) {}).put (1, 8) {} }
  clock := 0

theorem quietDesk_starts : quietDesk.Starts := by
  refine ⟨rfl, fun id row c hrow => ?_, fun id row hrow => ?_⟩ <;> cases hrow

def toMember (user : Id) : ClaimArgs where
  workspaceId := 1
  conversationId := 1
  candidates := [some user]
  order := some .given
  poolKey := none
  method := some "auto"

def goneQuiet : List (Timestamp × DeskAction) :=
  [(0, .claim (toMember 7)), (minutes 6, .due none []), (minutes 6, .look 0 false)]

def quietTimeout : Handed where
  conversationId := 1
  workspaceId := 1
  from_ := 7
  looked := true

theorem timeouts_take_silent_reassign :
    ∃ since, ((run Desk.step quietDesk goneQuiet).tick (minutes 6)).Silent quietTimeout since :=
  timeouts_take_silent quietDesk quietDesk_starts
    (goneQuiet ++ [(minutes 6, .reassign 0 (toMember 8))]) (by decide +kernel) goneQuiet _ []
    rfl quietTimeout ⟨by decide +kernel, by decide +kernel, by decide +kernel⟩

def answered : List (Timestamp × DeskAction) := goneQuiet ++ [(minutes 6, .message 1 (some 7))]

def takenBack : List (Timestamp × DeskAction) :=
  [(0, .claim (toMember 7)), (minutes 3, .move 1 1 (some 7) none),
    (minutes 3, .skip 1 1 (some 7)), (minutes 4, .move 1 1 none (some 7)), (minutes 6, .due none []), (minutes 6, .look 0 false)]

theorem taken_from_who_answered :
    let replied := (run Desk.step quietDesk answered).tick (minutes 7)
    let byHand := (run Desk.step quietDesk takenBack).tick (minutes 7)
    (replied.TimesOut (.release 0 .nobodyOnline) quietTimeout ∧
        ¬∃ since, replied.Silent quietTimeout since) ∧
      byHand.TimesOut (.release 0 .nobodyOnline) quietTimeout ∧
        ¬∃ since, byHand.Silent quietTimeout since := by
  refine ⟨⟨⟨by decide +kernel, by decide +kernel, by decide +kernel⟩, ?_⟩,
    ⟨by decide +kernel, by decide +kernel, by decide +kernel⟩, ?_⟩
  · rintro ⟨since, hg, -, hsilent⟩
    have hgiven : ((run Desk.step quietDesk answered).tick (minutes 7)).given.get 1 =
        some ⟨7, true, 0⟩ := by decide +kernel
    cases hgiven.symm.trans hg
    have hearlier := hsilent ⟨1, some 7, minutes 6⟩ (by decide +kernel) rfl rfl
    exact absurd hearlier (by decide)
  · rintro ⟨since, hg, -, -⟩
    have hgiven : ((run Desk.step quietDesk takenBack).tick (minutes 7)).given.get 1 =
        some ⟨7, false, minutes 4⟩ := by decide +kernel
    cases hgiven.symm.trans hg

end Kindred.ChatRouting
