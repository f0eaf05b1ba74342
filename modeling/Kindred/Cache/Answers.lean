import Kindred.Cache.Agreement

/-! Runs of operations on the two stores, and the batch on which they part. -/

namespace Kindred.Cache
open Lib (Table fresh Meets answers)

variable {α β γ δ τ : Type}

/-- What an operation needs of what is stored before it, for both stores to answer alike. -/
def Fits (strict : Bool) (m : CacheMapping α β γ δ) (s : MemoryCacheStore β γ) (fileBytes : ℕ) :
    Op α γ τ → Prop
  | .observeList scope listKey =>
    -- The two compare texts, and dates with no date, in one way on the rows of the queue.
    ∀ c ∈ s.listed scope listKey, ∀ d ∈ s.listed scope listKey,
      listOrder c ≤ listOrder d ↔ listColumns c ≤ listColumns d
  | .observeThread scope id =>
    ∀ m ∈ s.messages.values.filter (inThread scope id),
      ∀ n ∈ s.messages.values.filter (inThread scope id),
        threadOrder m ≤ threadOrder n ↔ threadColumns m ≤ threadColumns n
  | .writeConversations scope rows _ _ _ now => BatchSettles m scope now rows s.conversations
  | .thread scope id block => BlockFits strict scope id block s.toMemoryPages
  | .outbox scope =>
    ((s.messages.values.filter fun m => decide (m.accountId = scope.accountId) &&
      decide (m.workspaceId = scope.workspaceId) && !sent m).map (·.sortAt)).Nodup
  | .threadWeights =>
    ((sentThreads s.messages.values).map fun key =>
      (s.conversations.get key).bind (·.openedAt)).Nodup
  | .listRefs =>
    ∀ r ∈ s.states.values, likePrefix "list:".toList r.key.toList =
      "list:".toList.isPrefixOf r.key.toList
  | .stats => fileBytes = 0
  | _ => True

instance (strict : Bool) (m : CacheMapping α β γ δ) (s : MemoryCacheStore β γ) (fileBytes : ℕ)
    (op : Op α γ τ) : Decidable (Fits strict m s fileBytes op) := by
  cases op <;> unfold Fits <;> infer_instance

theorem step_agrees {strict : Bool} {m : CacheMapping α β γ δ} {s : MemoryCacheStore β γ}
    {db : CacheDatabase β γ} {c : Call α γ τ} (h : Same s db)
    (hfit : Fits strict m s c.fileBytes c.op) :
    Same (MemoryCacheStore.step m s c).1 (RoomCacheStore.step strict m db c).1 ∧
      (MemoryCacheStore.step m s c).2 = (RoomCacheStore.step strict m db c).2 := by
  obtain ⟨op, hashed, stored, grouped, fileBytes⟩ := c
  have hrow : ∀ (scope : CacheScope) (id : String), Answer.conversation (Option.map m.toConversation
        (s.conversations.get ⟨scope.accountId, scope.workspaceId, id⟩)) =
      (Answer.conversation (Option.map m.toConversation (ConversationDao.get scope.accountId
        scope.workspaceId id db.conversations)) : Answer α γ δ τ) := by
    intro scope id
    rw [h.get]
  cases op with
  | observeList scope listKey =>
    exact ⟨h, congrArg (fun l => Answer.conversations (List.map m.toConversation l))
      (h.observeList hfit)⟩
  | observeConversation scope id => exact ⟨h, hrow scope id⟩
  | conversation scope id => exact ⟨h, hrow scope id⟩
  | writeConversations scope rows listKey replaceList absent now =>
    obtain ⟨t', new, hw, hm, hmirror⟩ := writeRows_agrees
      (fun id => ((Lib.chunked SQL_CHUNK (fresh [] (rows.map (·.id)))).flatMap fun c =>
        ConversationDao.getAll scope.accountId scope.workspaceId c db.conversations).reverse.find?
          fun c => decide (c.conversationId = id)) h.conversations hfit (h.stored scope rows)
    simp only [MemoryCacheStore.step, RoomCacheStore.step, MemoryCacheStore.writeConversations,
      RoomCacheStore.writeConversations, hw, hm, if_true, and_true]
    refine ⟨h.toSamePages, hmirror, ?_⟩
    cases listKey with
    | none => exact h.entries
    | some listKey => exact writeList_perm rows replaceList absent h.entries
  | removeConversation scope id =>
    refine ⟨⟨⟨h.messages.keep _, h.deleteState _ _ _⟩, ?_, h.entries.filter _⟩, rfl⟩
    have he := h.conversations.erase ⟨scope.accountId, scope.workspaceId, id⟩
    suffices hl : (RoomCacheStore.removeConversation scope id db).conversations =
        db.conversations.filter fun c => decide (c.key ≠
          ⟨scope.accountId, scope.workspaceId, id⟩) by
      exact hl ▸ he
    refine List.filter_congr fun c _ => ?_
    rw [dao_key, decide_not]
  | conversationIdsForContact scope contactId =>
    refine ⟨h, congrArg Answer.ids (Multiset.coe_eq_coe.mpr ?_)⟩
    exact ((h.conversations.perm.filter _).map _).symm
  | markOpened scope id now =>
    exact ⟨⟨h.toSamePages, h.updateRow _ _ _ fun _ => rfl, h.entries⟩, rfl⟩
  | clearUnread scope id =>
    exact ⟨⟨h.toSamePages, h.updateRow _ _ _ fun _ => rfl, h.entries⟩, rfl⟩
  | syncState scope key => exact ⟨h, congrArg Answer.state (h.getState _ _ _).symm⟩
  | putSyncState scope state =>
    simp only [MemoryCacheStore.step, RoomCacheStore.step]
    split
    · exact ⟨⟨⟨h.messages, h.states.put state⟩, h.conversations, h.entries⟩, rfl⟩
    · exact ⟨h, rfl⟩
  | observeThread scope id =>
    exact ⟨h, congrArg (fun l => Answer.transcript (List.map m.toMessage l)) (h.observeThread hfit)⟩
  | thread scope id block =>
    have hagree := run_agrees h.toSamePages hfit
    simp only [MemoryCacheStore.step, RoomCacheStore.step, MemoryCacheStore.thread,
      RoomCacheStore.thread]
    cases hm : MemoryThreadWriter.run scope id block s.toMemoryPages with
    | mk p result =>
      cases hr : RoomThreadWriter.run strict scope id block db.toRoomPages with
      | none =>
        rw [hm, hr] at hagree
        cases result with
        | none => exact ⟨h, rfl⟩
        | some _ => exact hagree.elim
      | some _ =>
        rw [hm, hr] at hagree
        cases result with
        | none => exact hagree.elim
        | some _ =>
          obtain ⟨hpages, rfl⟩ := hagree
          exact ⟨⟨hpages, h.conversations, h.entries⟩, rfl⟩
  | message scope localId =>
    refine ⟨h, ?_⟩
    simp only [MemoryCacheStore.step, RoomCacheStore.step, h.message]
  | outbox scope => exact ⟨h, congrArg Answer.outbox (h.outbox hashed stored hfit)⟩
  | threadWeights => exact ⟨h, congrArg Answer.weights (h.threadWeights hashed grouped hfit)⟩
  | evictThread a w id =>
    exact ⟨⟨⟨h.messages.keep fun m => !(ofThread a w id m && sent m), h.deleteState _ _ _⟩,
      h.conversations, h.entries⟩, rfl⟩
  | listRefs =>
    refine ⟨h, congrArg Answer.lists (Multiset.coe_eq_coe.mpr ?_)⟩
    have hlike : (db.sync_state.filter fun r => likePrefix "list:".toList r.key.toList) =
        db.sync_state.filter fun r => "list:".toList.isPrefixOf r.key.toList :=
      List.filter_congr fun r hr => hfit r (h.states.perm.mem_iff.mp hr)
    rw [hlike]
    exact ((h.states.perm.filter _).map _).symm
  | dropList a w listKey =>
    exact ⟨⟨⟨h.messages, h.deleteState _ _ _⟩, h.conversations, h.entries.filter _⟩, rfl⟩
  | dropOrphanConversations before =>
    obtain ⟨hrows, hcount⟩ := h.dropOrphans before
    exact ⟨⟨h.toSamePages, hrows, h.entries⟩, congrArg Answer.count hcount⟩
  | purgeAccount a =>
    exact ⟨⟨⟨h.messages.keep _, h.states.keep _⟩, h.conversations.keep _, h.entries.filter _⟩, rfl⟩
  | clear => exact ⟨h.clear, rfl⟩
  | stats =>
    refine ⟨h, ?_⟩
    have hc := h.conversations.perm.length_eq
    have hm := h.messages.perm.length_eq
    rw [Table.values, List.length_map] at hc hm
    have hbytes : fileBytes = 0 := hfit
    simp only [MemoryCacheStore.step, RoomCacheStore.step, hc, hm, hbytes]

/-- Started empty, the two stores answer every run alike whose operations all fit what is stored
when they come. -/
theorem stores_agree (strict : Bool) (m : CacheMapping α β γ δ) (cs : List (Call α γ τ))
    (h : Meets (fun s c => (MemoryCacheStore.step m s c).1)
      (fun s c => Fits strict m s c.fileBytes c.op) {} cs) :
    answers (MemoryCacheStore.step m) {} cs = answers (RoomCacheStore.step strict m) {} cs :=
  Lib.answers_eq (R := Same) (fun _ _ c hst hc => step_agrees (c := c) hst hc) same_empty h

def plain : CacheMapping Unit Unit Unit Unit := ⟨fun _ => some (), id, id⟩

def asStored {ε : Type} : Scan ε := ⟨id, fun _ => .refl _⟩

def call (op : Op Unit Unit Unit) : Call Unit Unit Unit := ⟨op, asStored, asStored, asStored, 0⟩

def operator : CacheScope := ⟨"u-1", "w-1"⟩

def copy (id : String) (ms : ℤ) : Conversation Unit :=
  ⟨id, "w-1", none, some (ofEpochMilli ms), none, ()⟩

def repeatedId : List (Call Unit Unit Unit) :=
  [call (.writeConversations operator [copy "c-1" 200, copy "c-1" 100] none false [] 1),
    call (.conversation operator "c-1")]

/-- The map keeps the newer copy, the table ends with the older one. -/
theorem repeatedId_parts :
    answers (MemoryCacheStore.step plain) {} repeatedId =
        [.done, .conversation (some (copy "c-1" 200))] ∧
      answers (RoomCacheStore.step false plain) {} repeatedId =
        [.done, .conversation (some (copy "c-1" 100))] ∧
      answers (MemoryCacheStore.step plain) {} repeatedId ≠
        answers (RoomCacheStore.step false plain) {} repeatedId := by
  decide +kernel

def bubble (localId : String) (serverId : Option String) (state sortAt : ℤ) : MessageEntity Unit :=
  ⟨"u-1", localId, "w-1", "c-1", serverId, none, state, sortAt, 1, ()⟩

def session : List (Call Unit Unit Unit) :=
  [call (.writeConversations operator [copy "c-1" 100, copy "c-2" 150, copy "c-1" 200]
      (some "open") true [] 1),
    call (.writeConversations operator [copy "c-2" 140, copy "c-3" 300] (some "open") false
      ["c-1"] 2),
    call (.observeList operator "open"),
    call (.thread operator "c-1" (.call
      (.upsert [bubble "s:1" (some "1") 0 10, bubble "l:2" none 1 20])
      fun _ => .call .keys fun _ => .done ())),
    call (.thread operator "c-1" (.call (.upsert [bubble "s:1" (some "7") 0 10]) fun _ => .throw)),
    call (.observeThread operator "c-1"), call (.outbox operator), call .threadWeights,
    call .listRefs, call (.evictThread "u-1" "w-1" "c-1"), call (.dropOrphanConversations 9),
    call .clear, call .stats]

theorem stores_agree_session :
    answers (MemoryCacheStore.step plain) {} session =
      answers (RoomCacheStore.step false plain) {} session :=
  stores_agree false plain session (by decide +kernel)

end Kindred.Cache
