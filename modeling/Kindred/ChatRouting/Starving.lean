import Kindred.ChatRouting.Searches

/-! Whom a pass of the ticker leaves waiting. -/

namespace Kindred.ChatRouting
open Lib (Table run)
open Lib.Tx

def Pass.search (p : Pass) (t : Turn) (cache : RoutingCache) : Option (PickArgs × ChatDb) :=
  let ws := t.1.workspaceId
  let id := t.1.conversationId
  (p.db.conversationOf ws id).bind fun c =>
    let (released, db) := releaseIfSeatLocked t.2 ws id c p.db
    if c.routable ∧ (c.assignedTo = none ∨ released) then
      (loadRoutingSettings t.2 db ws cache).bind fun (settings, cache) =>
        (resolveConversationDepartment t.2 id c db).bind fun (departmentId, db) =>
          if settings.mode = .manual then none
          else (pickArgs t.2 ws id departmentId settings c.departmentOnly none cache).1.map (·, db)
    else none

/-- It waits for an operator, and somebody of its own pools, as they are, can take it. -/
def Pass.Takeable (p : Pass) (t : Turn) : Prop :=
  p.db.holder t.1.conversationId = none ∧
    ∃ a db, p.search t {} = some (a, db) ∧ CanBeTaken t.2 a db

def Pass.Finds (p : Pass) (t : Turn) : Prop :=
  ∃ a db, p.search t p.cache = some (a, db) ∧ CanBeTaken t.2 a db

def Pass.FindsNobody (p : Pass) (t : Turn) : Prop :=
  t.1.kind = .waiting ∧ ∃ a db, p.search t p.cache = some (a, db) ∧
    ∀ user, a.InPools t.2 user → ¬a.Present t.2 user

def Pass.Tries (p : Pass) (t : Turn) : Prop :=
  t.1.kind = .waiting → t.1.workspaceId ∉ p.nobodyOnline

theorem holder_patchMetadata (s : Scene) (call : Call) (id : Id)
    (patch : Conversation → Conversation) (hpatch : ∀ c, (patch c).assignedTo = c.assignedTo) (db : ChatDb) (id' : Id) :
    (patchMetadata s call id patch db).holder id' = db.holder id' := by
  unfold patchMetadata
  split
  · unfold ChatDb.holder
    by_cases hid : id' = id
    · subst hid
      cases h : db.conversations.get id' <;> simp [h, hpatch]
    · simp [Table.get_update_ne _ _ hid]
  · rfl

@[simp] theorem holder_notPending (s : Scene) (call : Call) (id : Id) (db : ChatDb) (id' : Id) :
    (patchMetadata s call id Conversation.notPending db).holder id' = db.holder id' :=
  holder_patchMetadata s call id Conversation.notPending (fun _ => rfl) db id'

@[simp] theorem holder_withPerson (s : Scene) (call : Call) (id : Id) (db : ChatDb) (id' : Id) :
    (patchMetadata s call id Conversation.withPerson db).holder id' = db.holder id' :=
  holder_patchMetadata s call id Conversation.withPerson (fun _ => rfl) db id'

@[simp] theorem holder_recordWait (s : Scene) (ws id : Id) (reason : Option WaitReason) (fromTicker : Bool)
    (db : ChatDb) (id' : Id) :
    (recordWait s ws id reason fromTicker db).holder id' = db.holder id' := by
  unfold recordWait chatRoutingWait
  split
  · cases reason with
    | none => rfl
    | some reason => cases db.conversationOf ws id <;> rfl
  · rfl

variable {departmentId : Option Id} {a : PickArgs}

variable {s : Scene} {ws id : Id} {cache : RoutingCache} {db : ChatDb} {c : Conversation}

theorem pickArgs_cases {settings : ChatRoutingSettings} {departmentOnly : Bool}
    (h : (pickArgs s ws id departmentId settings departmentOnly none cache).1 = some a) :
    a.workspaceId = ws ∧ a.conversationId = id ∧ a.reassignFrom = none := by
  unfold pickArgs at h
  split at h
  · cases h
  · dsimp only at h
    split at h
    · cases h
    · cases h
      exact ⟨rfl, rfl, rfl⟩

def ChatDb.Free (db : ChatDb) (ws id : Id) : Prop :=
  ∃ c, db.conversations.get id = some c ∧ c.workspaceId = ws ∧ c.routable = true ∧
    c.assignedTo = none

theorem ChatDb.Free.patchMetadata (h : db.Free ws id) (s : Scene) (call : Call)
    {patch : Conversation → Conversation}
    (hpatch : ∀ c, (patch c).assignedTo = c.assignedTo ∧ (patch c).workspaceId = c.workspaceId ∧
      (patch c).routable = c.routable) : (patchMetadata s call id patch db).Free ws id := by
  unfold ChatRouting.patchMetadata
  split
  · obtain ⟨c, hc, hws, hroutable, hnobody⟩ := h
    obtain ⟨hto, hws', hroutable'⟩ := hpatch c
    exact ⟨patch c, by simp [hc], hws'.trans hws, hroutable'.trans hroutable, hto.trans hnobody⟩
  · exact h

theorem ChatDb.Free.resolveDepartment {db' : ChatDb} (h : db.Free ws id)
    (hd : resolveConversationDepartment s id c db = some (departmentId, db')) : db'.Free ws id := by
  unfold resolveConversationDepartment at hd
  split at hd
  · cases hd
    exact h
  · split at hd
    · cases hd
    · cases hd
      exact h
    · cases hd
      exact h.patchMetadata s _ fun _ => ⟨rfl, rfl, rfl⟩

theorem releaseIfSeatLocked_free (hc : db.conversationOf ws id = some c)
    (hroutable : c.routable = true)
    (h : c.assignedTo = none ∨ (releaseIfSeatLocked s ws id c db).1 = true) :
    (releaseIfSeatLocked s ws id c db).2.Free ws id := by
  obtain ⟨hget, hws⟩ := ChatDb.conversationOf_eq_some.mp hc
  unfold releaseIfSeatLocked at h ⊢
  cases hto : c.assignedTo with
  | none => exact ⟨c, hget, hws, hroutable, hto⟩
  | some holder =>
    simp only [hto] at h
    split at h
    · rename_i hpaused
      obtain h | h := h
      · cases h
      have hends : s.ends .seatRelease = .answers := of_decide_eq_true h
      simp only [hpaused, hends, CallEnd.lands, if_true]
      refine ⟨{ c with assignedTo := none }, ?_, hws, hroutable, rfl⟩
      simp [compareAndAssign, hc, hto, ChatDb.assign_conversation, hget]
    · obtain h | h := h <;> cases h

theorem ChatDb.Free.takes (h : db.Free a.workspaceId a.conversationId) (ha : a.reassignFrom = none)
    (x : Search) : (a.claimArgs x).Takes db := by
  obtain ⟨c, hc, hws, hroutable, hnobody⟩ := h
  exact ⟨c, hc, hws, hroutable, hnobody.trans ha.symm⟩

section Route
variable {s : Scene} {ws id : Id} {fromTicker : Bool} {cache : RoutingCache} {db : ChatDb}
  {c : Conversation}

theorem route_unread (h : s.ends .conversation ≠ .answers ∨ db.conversationOf ws id = none) :
    routeConversationToOperator s ws id fromTicker cache db = ({ outcome := .error }, cache, db) := by
  unfold routeConversationToOperator
  cases hends : s.ends .conversation with
  | answers =>
    rw [hends] at h
    rw [h.resolve_left (by simp)]
  | fails | throws => rfl

theorem route_unroutable (hends : s.ends .conversation = .answers)
    (hc : db.conversationOf ws id = some c) (h : c.routable = false) :
    routeConversationToOperator s ws id fromTicker cache db =
      ({ outcome := .notRoutable, assignedTo := c.assignedTo }, cache, db) := by
  unfold routeConversationToOperator
  rw [hends, hc]
  simp [h]

theorem route_held (hends : s.ends .conversation = .answers)
    (hc : db.conversationOf ws id = some c) (hroutable : c.routable = true)
    (h : ¬(c.assignedTo = none ∨ (releaseIfSeatLocked s ws id c db).1 = true)) :
    routeConversationToOperator s ws id fromTicker cache db =
      ({ outcome := .alreadyAssigned, assignedTo := c.assignedTo }, cache,
        patchMetadata s .patch id Conversation.notPending (releaseIfSeatLocked s ws id c db).2) := by
  unfold routeConversationToOperator
  rw [hends, hc]
  simp only [not_or, Bool.not_eq_true] at h
  obtain ⟨user, hto⟩ := Option.ne_none_iff_exists'.mp h.1
  simp [hroutable, h.2, hto]

theorem route_free (hends : s.ends .conversation = .answers)
    (hc : db.conversationOf ws id = some c) (hroutable : c.routable = true)
    (h : c.assignedTo = none ∨ (releaseIfSeatLocked s ws id c db).1 = true) :
    routeConversationToOperator s ws id fromTicker cache db =
      routeUnassigned s ws id c fromTicker cache (releaseIfSeatLocked s ws id c db).2 := by
  unfold routeConversationToOperator
  rw [hends, hc]
  simp only [hroutable, not_true_eq_false, if_false]
  rw [if_neg]
  obtain h | h := h <;> simp [h]

end Route

section Answered
variable {s : Scene} (hs : s.Answers) {p : Pass} {row : DueRow}
include hs

theorem loadRoutingSettings_answers (db : ChatDb) (ws : Id) (cache : RoutingCache) :
    ∃ settings cache', loadRoutingSettings s db ws cache = some (settings, cache') := by
  unfold loadRoutingSettings
  cases cache.settings.get ws with
  | some hit => exact ⟨hit, cache, rfl⟩
  | none => exact ⟨_, _, by simp only [hs .settings]; rfl⟩

theorem resolveConversationDepartment_answers (id : Id) (c : Conversation) (db : ChatDb) :
    ∃ departmentId db', resolveConversationDepartment s id c db = some (departmentId, db') := by
  unfold resolveConversationDepartment
  cases c.departmentId with
  | some departmentId => exact ⟨_, _, rfl⟩
  | none =>
    simp only [hs.rows]
    cases (s.visitorDepartment id).toList with
    | nil => exact ⟨_, _, rfl⟩
    | cons departmentId rest => exact ⟨_, _, rfl⟩

theorem chatPool_answers (ws : Id) (departmentId : Option Id) (cache : RoutingCache) :
    ∃ pool cache', chatPool s ws departmentId cache = some (pool, cache') := by
  have hpool : ∃ pool, resolveChatRoutingPool s ws departmentId = some pool := by
    unfold resolveChatRoutingPool
    simp only [hs.rows]
    cases departmentId with
    | none => exact ⟨_, rfl⟩
    | some departmentId =>
      dsimp only
      split
      · exact ⟨_, rfl⟩
      · exact ⟨_, rfl⟩
  unfold chatPool
  cases cache.pools.get (ws, departmentId) with
  | some hit => exact ⟨hit, cache, rfl⟩
  | none =>
    obtain ⟨pool, hpool⟩ := hpool
    exact ⟨pool, _, by simp only [hpool]; rfl⟩

theorem pickArgs_answers (ws id : Id) (departmentId : Option Id) (settings : ChatRoutingSettings)
    (departmentOnly : Bool) (cache : RoutingCache) :
    ∃ a cache', pickArgs s ws id departmentId settings departmentOnly none cache =
      (some a, cache') := by
  obtain ⟨pool, cache', hpool⟩ := chatPool_answers hs ws departmentId cache
  unfold pickArgs
  simp only [hpool, hs.rows]
  cases settings.ownerFallback <;> exact ⟨_, _, rfl⟩

theorem routeUnassigned_cases (c : Conversation) (fromTicker : Bool) (cache : RoutingCache)
    (hfree : db.Free ws id) :
    ∃ settings cache' departmentId db', loadRoutingSettings s db ws cache = some (settings, cache') ∧
      resolveConversationDepartment s id c db = some (departmentId, db') ∧ db'.Free ws id ∧
      (settings.mode = .manual ∧ (∃ db'', db''.holder id = none ∧
        routeUnassigned s ws id c fromTicker cache db = ({ outcome := .manualQueue }, cache', db'')) ∨
      settings.mode ≠ .manual ∧ ∃ a cache'',
        pickArgs s ws id departmentId settings c.departmentOnly none cache' = (some a, cache'') ∧
        routeUnassigned s ws id c fromTicker cache db =
          let (picked, db) := pickOperator s a db'
          let (result, db) := settle s ws id settings.mode fromTicker db picked
          (result, cache'', db)) := by
  obtain ⟨settings, cache', hsettings⟩ := loadRoutingSettings_answers hs db ws cache
  obtain ⟨departmentId, db', hdepartment⟩ := resolveConversationDepartment_answers hs id c db
  have hfree' := hfree.resolveDepartment hdepartment
  refine ⟨settings, cache', departmentId, db', hsettings, hdepartment, hfree', ?_⟩
  unfold routeUnassigned
  simp only [hsettings, hdepartment]
  by_cases hmanual : settings.mode = .manual
  · refine .inl ⟨hmanual, _, ?_, by rw [if_pos hmanual]⟩
    obtain ⟨c', hc', -, -, hnobody⟩ := hfree'
    have hholder : db'.holder id = none := by simp [ChatDb.holder, hc', hnobody]
    rw [holder_notPending]
    split
    · rwa [holder_recordWait]
    · exact hholder
  · obtain ⟨a, cache'', ha⟩ := pickArgs_answers hs ws id departmentId settings c.departmentOnly cache'
    refine .inr ⟨hmanual, a, cache'', ha, ?_⟩
    rw [if_neg hmanual, ha]

/-- A run comes to a search, or ends without telling that nobody is there. -/
theorem route_cases (p : Pass) (row : DueRow) (fromTicker : Bool) :
    (∃ a db cache mode, p.search (row, s) p.cache = some (a, db) ∧ a.reassignFrom = none ∧
      a.workspaceId = row.workspaceId ∧ a.conversationId = row.conversationId ∧
      db.Free row.workspaceId row.conversationId ∧
      routeConversationToOperator s row.workspaceId row.conversationId fromTicker p.cache p.db =
        let (picked, db) := pickOperator s a db
        let (result, db) := settle s row.workspaceId row.conversationId mode fromTicker db picked
        (result, cache, db)) ∨
    p.search (row, s) p.cache = none ∧
      (routeConversationToOperator s row.workspaceId row.conversationId fromTicker p.cache
        p.db).1.outcome ≠ .noEligibleAgent ∧
      (p.db.holder row.conversationId = none → (routeConversationToOperator s row.workspaceId
        row.conversationId fromTicker p.cache p.db).2.2.holder row.conversationId = none) := by
  unfold Pass.search
  dsimp only
  cases hc : p.db.conversationOf row.workspaceId row.conversationId with
  | none =>
    rw [route_unread (.inr hc)]
    exact .inr ⟨rfl, by simp, fun h => h⟩
  | some c =>
    rw [Option.bind_some]
    by_cases hroutable : c.routable = true
    swap
    · rw [route_unroutable (hs .conversation) hc (by simpa using hroutable)]
      exact .inr ⟨by simp [hroutable], by simp, fun h => h⟩
    by_cases hfree : c.assignedTo = none ∨ (releaseIfSeatLocked s row.workspaceId
        row.conversationId c p.db).1 = true
    swap
    · rw [route_held (hs .conversation) hc hroutable hfree]
      refine .inr ⟨by simp [hfree], by simp, fun h => ?_⟩
      have hget := (ChatDb.conversationOf_eq_some.mp hc).1
      have hnobody : c.assignedTo = none := by simpa [ChatDb.holder, hget] using h
      exact absurd (.inl hnobody) hfree
    rw [route_free (hs .conversation) hc hroutable hfree]
    obtain ⟨settings, cache', departmentId, db', hsettings, hdepartment, hfree', hrest⟩ :=
      routeUnassigned_cases hs c fromTicker p.cache (releaseIfSeatLocked_free hc hroutable hfree)
    rw [if_pos ⟨hroutable, hfree⟩]
    simp only [hsettings, hdepartment, Option.bind_some]
    obtain ⟨hmanual, db'', hnobody, hroute⟩ | ⟨hmode, a, cache'', ha, hroute⟩ := hrest
    · rw [hroute]
      exact .inr ⟨by simp [hmanual], by simp, fun _ => hnobody⟩
    · obtain ⟨haws, haid, hfrom⟩ := pickArgs_cases (by rw [ha])
      refine .inl ⟨a, db', cache'', settings.mode, ?_, hfrom, haws, haid, hfree', hroute⟩
      simp [hmode, ha]

/-- The run leaves with nobody a conversation that nobody in its pools can take, and tells
that nobody is there when nobody of them is. -/
theorem route_search (fromTicker : Bool) (hsearch : p.search (row, s) p.cache = some (a, db)) :
    let r := routeConversationToOperator s row.workspaceId row.conversationId fromTicker p.cache p.db
    ((r.2.2.holder row.conversationId).isSome ↔ CanBeTaken s a db) ∧
      (r.1.outcome = .noEligibleAgent ↔ ∀ user, a.InPools s user → ¬a.Present s user) := by
  obtain ⟨a', db', cache', mode, hsearch', hfrom, haws, haid, hfree, hroute⟩ | ⟨hnone, -⟩ :=
    route_cases hs p row fromTicker
  swap
  · rw [hnone] at hsearch
    cases hsearch
  rw [hsearch'] at hsearch
  cases hsearch
  have hpresent : CanBeTaken s a db → ¬∀ user, a.InPools s user → ¬a.Present s user :=
    fun ⟨user, hin, hthere, _⟩ hnobody => hnobody user hin hthere
  rw [hroute]
  have htakes : ∀ x, (a.claimArgs x).Takes db :=
    ChatDb.Free.takes (by rwa [haws, haid]) hfrom
  obtain ⟨c, hget, -, -, hnobody⟩ := hfree
  obtain ⟨hcan, x, order, user, method, hpick⟩ | ⟨hcannot, reason, hpick, hreason⟩ :=
    pickOperator_cases hs hfrom htakes
  · rw [hpick]
    have hheld : (claimed s.now (a.claimArgs x) order user db).holder row.conversationId =
        some user := by
      rw [← haid] at hget ⊢
      exact holder_claimed s.now (a.claimArgs x) order user hget
    refine ⟨⟨fun _ => hcan, fun _ => ?_⟩, ⟨fun h => ?_, fun h => absurd h (hpresent hcan)⟩⟩
    · dsimp only [settle]
      rw [holder_withPerson, hheld]
      rfl
    · cases method with
      | auto | roundRobin | timeoutReassign =>
        simp only [settle, assignedOutcome] at h
        split at h <;> cases h
      | lastAgent | ownerFallback => cases h
  · rw [hpick]
    have hunheld : db.holder row.conversationId = none := by simp [ChatDb.holder, hget, hnobody]
    refine ⟨⟨fun h => ?_, fun h => absurd h hcannot⟩, ?_⟩
    · dsimp only [settle] at h
      rw [holder_notPending, holder_recordWait, hunheld] at h
      cases h
    · rw [← hreason]
      dsimp only [settle]
      cases reason <;> simp

/-- A turn gives the conversation to somebody just when it is tried, and somebody of its
pools can take it. -/
theorem turn_taken (hkind : row.kind ≠ .timeout) (hwaits : p.db.holder row.conversationId = none) :
    ((p.turn (row, s)).db.holder row.conversationId).isSome ↔
      p.Tries (row, s) ∧ p.Finds (row, s) := by
  have hroute : ∀ fromTicker, ((routeConversationToOperator s row.workspaceId row.conversationId
      fromTicker p.cache p.db).2.2.holder row.conversationId).isSome ↔ p.Finds (row, s) := by
    intro fromTicker
    cases hsearch : p.search (row, s) p.cache with
    | none =>
      obtain ⟨a, db, cache, mode, hsome, -⟩ | ⟨-, -, hstays⟩ :=
        route_cases hs p row fromTicker
      · rw [hsearch] at hsome
        cases hsome
      · rw [hstays hwaits]
        simp [Pass.Finds, hsearch]
    | some r =>
      obtain ⟨a, db⟩ := r
      rw [(route_search hs fromTicker hsearch).1]
      simp [Pass.Finds, hsearch]
  unfold Pass.turn Pass.Tries
  dsimp only
  cases hk : row.kind with
  | prechat => simpa using hroute false
  | waiting =>
    by_cases hskip : row.workspaceId ∈ p.nobodyOnline
    · simp [hskip, hwaits]
    · simpa [hskip] using hroute true
  | timeout => exact absurd hk hkind

theorem mem_nobodyOnline_turn : ws ∈ (p.turn (row, s)).nobodyOnline ↔
      ws ∈ p.nobodyOnline ∨ row.workspaceId = ws ∧ p.FindsNobody (row, s) := by
  have hroute : (routeConversationToOperator s row.workspaceId row.conversationId true p.cache
      p.db).1.outcome = .noEligibleAgent ↔ ∃ a db, p.search (row, s) p.cache = some (a, db) ∧
        ∀ user, a.InPools s user → ¬a.Present s user := by
    cases hsearch : p.search (row, s) p.cache with
    | none =>
      obtain ⟨a, db, cache, mode, hsome, -⟩ | ⟨-, hother, -⟩ :=
        route_cases hs p row true
      · rw [hsearch] at hsome
        cases hsome
      · simp [hother]
    | some r =>
      obtain ⟨a, db⟩ := r
      rw [(route_search hs true hsearch).2]
      simp
  unfold Pass.turn Pass.FindsNobody
  dsimp only
  cases hk : row.kind with
  | prechat => simp
  | waiting =>
    by_cases hskip : row.workspaceId ∈ p.nobodyOnline
    · simp only [hskip, if_true]
      constructor
      · exact .inl
      · rintro (h | ⟨rfl, -⟩)
        · exact h
        · exact hskip
    · simp only [hskip, if_false, true_and, ← hroute]
      split
      · rename_i hnobody
        simp [hnobody, eq_comm, or_comm]
      · rename_i hother
        simp [hother]
  | timeout => cases row.assignee <;> simp

end Answered

def AllAnswer (turns : List Turn) : Prop := ∀ t ∈ turns, t.2.Answers

theorem mem_nobodyOnline_run {turns : List Turn} (hs : AllAnswer turns) (p : Pass) :
    ws ∈ (run Pass.turn p turns).nobodyOnline ↔ ws ∈ p.nobodyOnline ∨
      ∃ pre t post, turns = pre ++ t :: post ∧ t.1.workspaceId = ws ∧
        (run Pass.turn p pre).FindsNobody t := by
  induction turns generalizing p with
  | nil => simp
  | cons t turns ih =>
    have hrest : AllAnswer turns := fun t' ht' => hs t' (List.mem_cons_of_mem t ht')
    rw [Lib.run_cons, ih hrest, mem_nobodyOnline_turn (hs t List.mem_cons_self)]
    constructor
    · rintro ((h | ⟨hws, hnobody⟩) | ⟨pre, t', post, rfl, hws, hnobody⟩)
      · exact .inl h
      · exact .inr ⟨[], t, turns, rfl, hws, hnobody⟩
      · exact .inr ⟨t :: pre, t', post, rfl, hws, hnobody⟩
    · rintro (h | ⟨pre, t', post, hsplit, hws, hnobody⟩)
      · exact .inl (.inl h)
      · cases pre with
        | nil =>
          cases hsplit
          exact .inl (.inr ⟨hws, hnobody⟩)
        | cons t'' pre =>
          cases hsplit
          exact .inr ⟨pre, t', post, rfl, hws, hnobody⟩

def turnsOf (rows : List DueRow) (scenes : ℕ → Scene) : List Turn :=
  rows.zipIdx.map fun r => (r.1, scenes r.2)

def NobodyMissedBefore (start : Pass) (pre : List Turn) (t : Turn) : Prop :=
  t.1.kind = .waiting → ¬∃ pre' t' post', pre = pre' ++ t' :: post' ∧
    t'.1.workspaceId = t.1.workspaceId ∧ (run Pass.turn start pre').FindsNobody t'

/-- Whoever can be taken is offered to routing and given to somebody: just when no row
before it in its workspace found nobody, and what the pass remembers of the workspace
still has somebody who can take it. -/
theorem waiting_served_iff (now : Timestamp) (locked : List Id) (scenes : ℕ → Scene) (db : ChatDb)
    (hs : ∀ i, (scenes i).Answers) :
    let start := (dueRows now locked .answers db).2
    let turns := turnsOf (dueRows now locked .answers db).1 scenes
    runChatRoutingOnce now locked .answers scenes db = run Pass.turn start turns ∧
    (∀ pre t post, turns = pre ++ t :: post →
      ((run Pass.turn start pre).Tries t ↔ NobodyMissedBefore start pre t)) ∧
    ((∀ pre t post, turns = pre ++ t :: post → t.1.kind ≠ .timeout →
        (run Pass.turn start pre).Takeable t → (run Pass.turn start pre).Tries t ∧
          ((run Pass.turn start (pre ++ [t])).db.holder t.1.conversationId).isSome) ↔
      ∀ pre t post, turns = pre ++ t :: post → t.1.kind ≠ .timeout →
        (run Pass.turn start pre).Takeable t →
          NobodyMissedBefore start pre t ∧ (run Pass.turn start pre).Finds t) := by
  intro start turns
  have hall : AllAnswer turns := by
    intro t ht
    obtain ⟨r, -, rfl⟩ := List.mem_map.mp ht
    exact hs r.2
  have htries : ∀ pre t post, turns = pre ++ t :: post →
      ((run Pass.turn start pre).Tries t ↔ NobodyMissedBefore start pre t) := by
    intro pre t post hsplit
    have hpre : AllAnswer pre := fun t' ht' => hall t' (hsplit ▸ List.mem_append_left _ ht')
    unfold Pass.Tries NobodyMissedBefore
    rw [mem_nobodyOnline_run hpre start]
    have hstart : start.nobodyOnline = [] := rfl
    simp only [hstart, List.not_mem_nil, false_or]
  have hturn : ∀ pre t post, turns = pre ++ t :: post → t.1.kind ≠ .timeout →
      (run Pass.turn start pre).Takeable t →
        (((run Pass.turn start (pre ++ [t])).db.holder t.1.conversationId).isSome ↔
          NobodyMissedBefore start pre t ∧ (run Pass.turn start pre).Finds t) := by
    intro pre t post hsplit hkind htake
    have hanswers : t.2.Answers := hall t (hsplit ▸ List.mem_append_right _ List.mem_cons_self)
    rw [Lib.run_append, ← htries pre t post hsplit]
    exact turn_taken hanswers hkind htake.1
  refine ⟨rfl, htries, ⟨fun h pre t post hsplit hkind htake => ?_,
    fun h pre t post hsplit hkind htake => ?_⟩⟩
  · exact (hturn pre t post hsplit hkind htake).mp (h pre t post hsplit hkind htake).2
  · have hserved := h pre t post hsplit hkind htake
    exact ⟨(htries pre t post hsplit).mpr hserved.1, (hturn pre t post hsplit hkind htake).mpr hserved⟩

def deskScene : Scene where
  now := minutes 1
  members := fun _ => [{ userId := 7 }, { userId := 8 }]
  departments := fun _ => [5]
  departmentMembers := fun _ => [8]
  presence := fun _ user => { state := if user = 7 then .active else .disconnected }

def waitingSince (t : Timestamp) : RoutingState where
  workspaceId := 1
  waitingSince := some t
  waitReason := some .nobodyOnline
  waitingRetryAt := some t
  waitingActiveAt := some t

def oneWaiting : ChatDb where
  conversations := Table.empty.put 2 { workspaceId := 1 }
  members := (Table.empty.put (1, 7) {}).put (1, 8) {}
  states := Table.empty.put 2 (waitingSince 1)

theorem deskScene_answers (i : ℕ) : ((fun _ : ℕ => deskScene) i).Answers := fun _ => rfl

def sevenTakesTwo (r : PickArgs × ChatDb) : Bool :=
  (r.1.pools deskScene).any (7 ∈ ·.2) && (r.1.tier deskScene 7).isSome &&
    r.1.workspaceId = 1 && r.1.conversationId = 2 &&
    r.2.members.get (1, 7) = some {} && 7 ∉ r.2.skipUserIds 2 &&
    r.2.openLoad 1 7 < r.2.cap 1 {}

theorem canBeTaken_of_seven {r : PickArgs × ChatDb} (h : sevenTakesTwo r = true) :
    CanBeTaken deskScene r.1 r.2 := by
  simp only [sevenTakesTwo, Bool.and_eq_true, decide_eq_true_eq, List.any_eq_true] at h
  obtain ⟨⟨⟨⟨⟨⟨⟨pool, hpool, hmem⟩, hpresent⟩, hws⟩, hid⟩, hmember⟩, hskip⟩, hroom⟩ := h
  refine ⟨7, .inr (.inl ⟨pool, hpool, hmem⟩), hpresent, {}, ?_, rfl, ?_, ?_⟩
  · rwa [hws]
  · rwa [hid]
  · rwa [hws]

theorem search_seven {p : Pass} {t : Turn} (hscene : t.2 = deskScene)
    (h : (p.search t cache).any sevenTakesTwo = true) :
    ∃ a db, p.search t cache = some (a, db) ∧ CanBeTaken t.2 a db := by
  obtain ⟨⟨a, db⟩, hsearch, hseven⟩ := (Option.any_eq_true _ _).mp h
  rw [hscene]
  exact ⟨a, db, hsearch, canBeTaken_of_seven hseven⟩

def rowOfTwo : DueRow where
  conversationId := 2
  workspaceId := 1
  kind := .waiting

theorem oneWaiting_rows : (dueRows (minutes 1) [] .answers oneWaiting).1 = [rowOfTwo] := by
  decide +kernel

theorem waiting_served_one :
    let start := (dueRows (minutes 1) [] .answers oneWaiting).2
    ((run Pass.turn start [(rowOfTwo, deskScene)]).db.holder 2).isSome := by
  intro start
  have hturns : turnsOf (dueRows (minutes 1) [] .answers oneWaiting).1 (fun _ => deskScene) =
      [(rowOfTwo, deskScene)] := by
    rw [oneWaiting_rows]
    rfl
  have hserved := (waiting_served_iff (minutes 1) [] (fun _ => deskScene) oneWaiting
    deskScene_answers).2.2.mpr
  rw [hturns] at hserved
  refine (hserved ?_ [] (rowOfTwo, deskScene) [] rfl (by decide)
    ⟨by decide +kernel, search_seven rfl (by decide +kernel)⟩).2
  intro pre t post hsplit _ htake
  -- It is the only row, and the pass remembers nothing yet.
  cases pre with
  | nil =>
    refine ⟨fun _ ⟨pre', t', post', hpre, _⟩ => ?_, htake.2⟩
    cases pre' <;> cases hpre
  | cons t' pre => cases pre <;> cases hsplit

def twoWaiting : ChatDb := { oneWaiting with
  conversations := oneWaiting.conversations.put 1
    { workspaceId := 1, departmentId := some 5, departmentOnly := true }
  states := oneWaiting.states.put 1 (waitingSince 0) }

def rowOfOne : DueRow where
  conversationId := 1
  workspaceId := 1
  kind := .waiting

/-- Member 7 could be given conversation 2, and is not. -/
theorem waiting_passed_over :
    let start := (dueRows (minutes 1) [] .answers twoWaiting).2
    (dueRows (minutes 1) [] .answers twoWaiting).1 = [rowOfOne, rowOfTwo] ∧
      (start.turn (rowOfOne, deskScene)).Takeable (rowOfTwo, deskScene) ∧
      (runChatRoutingOnce (minutes 1) [] .answers (fun _ => deskScene) twoWaiting).db.holder 2 =
        none := by
  refine ⟨by decide +kernel, ⟨by decide +kernel, search_seven rfl (by decide +kernel)⟩,
    by decide +kernel⟩

end Kindred.ChatRouting
