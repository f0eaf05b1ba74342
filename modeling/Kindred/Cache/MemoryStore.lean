import Mathlib.Data.List.Lex
import Mathlib.Data.Prod.Lex
import Mathlib.Order.WithBot
import Kindred.Cache.Entities
import Kindred.Lib.Fresh
import Kindred.Lib.Keyed
import Kindred.Lib.Listing
import Kindred.Lib.Utf16

/-! `MemoryCacheStore`: the cache held in maps. -/

namespace Kindred.Cache
open Lib (Table fresh orderBy utf16)

structure ConvKey where
  a : String
  w : String
  id : String
  deriving DecidableEq

structure MsgKey where
  a : String
  localId : String
  deriving DecidableEq

structure StateKey where
  a : String
  w : String
  key : String
  deriving DecidableEq

variable {α β γ δ τ : Type}

def ConversationEntity.key (c : ConversationEntity β) : ConvKey :=
  ⟨c.accountId, c.workspaceId, c.conversationId⟩

def MessageEntity.key (m : MessageEntity γ) : MsgKey := ⟨m.accountId, m.localId⟩

def SyncStateEntity.stateKey (s : SyncStateEntity) : StateKey := ⟨s.accountId, s.workspaceId, s.key⟩

def MessageEntity.threadKey (m : MessageEntity γ) : ConvKey :=
  ⟨m.accountId, m.workspaceId, m.conversationId⟩

structure MemoryPages (γ : Type) where
  messages : Table MsgKey (MessageEntity γ) := .empty
  states : Table StateKey SyncStateEntity := .empty

/-- `entries` is a `LinkedHashSet`: no entry is in it twice. -/
structure MemoryCacheStore (β γ : Type) extends MemoryPages γ where
  conversations : Table ConvKey (ConversationEntity β) := .empty
  entries : List InboxEntryEntity := []

def addEntry (entries : List InboxEntryEntity) (e : InboxEntryEntity) : List InboxEntryEntity :=
  if e ∈ entries then entries else entries ++ [e]

/-- What the queue's comparator compares: `updatedAt ?: Long.MIN_VALUE` downwards, then the id. -/
def listOrder (c : ConversationEntity β) : ℤᵒᵈ ×ₗ List ℕ :=
  toLex (OrderDual.toDual (c.updatedAt.getD (-2 ^ 63)), utf16 c.conversationId)

def threadOrder (m : MessageEntity γ) : ℤ ×ₗ WithBot (List ℕ) ×ₗ List ℕ :=
  toLex (m.sortAt, toLex (m.serverId.map utf16, utf16 m.localId))

def openedOrder (w : ThreadWeight) : WithBot ℤ := w.openedAt

def writeRows (m : CacheMapping α β γ δ) (scope : CacheScope) (now : ℤ) :
    List (Conversation α) → Table ConvKey (ConversationEntity β) →
      Table ConvKey (ConversationEntity β) × Bool
  | [], t => (t, true)
  | row :: rows, t =>
    let key : ConvKey := ⟨scope.accountId, scope.workspaceId, row.id⟩
    let old := t.get key
    match isStale row old with
    | none => (t, false)
    | some true => writeRows m scope now rows t
    | some false =>
      match m.toEntity scope row now (old.bind (·.openedAt)) with
      | none => (t, false)
      | some e => writeRows m scope now rows (t.put key e)

def inThread (scope : CacheScope) (conversationId : String) (m : MessageEntity γ) : Bool :=
  m.accountId = scope.accountId && m.workspaceId = scope.workspaceId &&
    m.conversationId = conversationId

def ofThread (a w c : String) (m : MessageEntity γ) : Bool :=
  m.accountId = a && m.workspaceId = w && m.conversationId = c

def sent (m : MessageEntity γ) : Bool := m.sendState = SendState.SENT.code

def clashes (scope : CacheScope) (conversationId : String) (row other : MessageEntity γ) : Bool :=
  inThread scope conversationId other && other.localId ≠ row.localId &&
    ((row.serverId.isSome && other.serverId = row.serverId) ||
      (row.clientMessageId.isSome && other.clientMessageId = row.clientMessageId))

def upsertRows (scope : CacheScope) (conversationId : String) :
    List (MessageEntity γ) → Table MsgKey (MessageEntity γ) →
      Table MsgKey (MessageEntity γ) × Bool
  | [], t => (t, true)
  | row :: rows, t =>
    if !inThread scope conversationId row then (t, false)
    else if t.values.any (clashes scope conversationId row) then (t, false)
    else upsertRows scope conversationId rows (t.put row.key row)

namespace MemoryThreadWriter

variable (scope : CacheScope) (conversationId : String)

def stateKey : StateKey := ⟨scope.accountId, scope.workspaceId, SyncKeys.thread conversationId⟩

/-- What one call on the writer leaves and answers; nothing where it throws. -/
def call (p : MemoryPages γ) : WriterOp γ → MemoryPages γ × Option (WriterAnswer γ)
  | .byServerIds ids =>
    let wanted := fresh [] ids
    (p, some (.rows (p.messages.values.filter fun m =>
      inThread scope conversationId m && m.serverId.any (· ∈ wanted))))
  | .byClientIds ids =>
    let wanted := fresh [] ids
    (p, some (.rows (p.messages.values.filter fun m =>
      inThread scope conversationId m && m.clientMessageId.any (· ∈ wanted))))
  | .keys =>
    (p, some (.keyRows ((p.messages.values.filter (inThread scope conversationId)).map fun m =>
      (⟨m.localId, m.serverId, m.sendState, m.cachedAt⟩ : MessageKeyRow))))
  | .upsert rows =>
    let (messages, ok) := upsertRows scope conversationId rows p.messages
    ({ p with messages }, if ok then some .done else none)
  | .delete localIds =>
    let messages := localIds.foldl (fun t id => t.erase ⟨scope.accountId, id⟩) p.messages
    ({ p with messages }, some .done)
  | .state => (p, some (.state (p.states.get (stateKey scope conversationId))))
  | .putState state =>
    if state.key = SyncKeys.thread conversationId then
      let key : StateKey := ⟨scope.accountId, scope.workspaceId, state.key⟩
      ({ p with states := p.states.put key state }, some .done)
    else (p, none)
  | .clearState => ({ p with states := p.states.erase (stateKey scope conversationId) }, some .done)

def run : Block γ τ → MemoryPages γ → MemoryPages γ × Option τ
  | .done result, p => (p, some result)
  | .throw, p => (p, none)
  | .call op next, p =>
    match call scope conversationId p op with
    | (p, none) => (p, none)
    | (p, some answer) => run (next answer) p

end MemoryThreadWriter

namespace MemoryCacheStore

def listed (s : MemoryCacheStore β γ) (scope : CacheScope) (listKey : String) :
    List (ConversationEntity β) :=
  (s.entries.filter fun e =>
      e.accountId = scope.accountId && e.workspaceId = scope.workspaceId && e.listKey = listKey)
    |>.filterMap fun e => s.conversations.get ⟨e.accountId, e.workspaceId, e.conversationId⟩

def writeList (scope : CacheScope) (rows : List (Conversation α)) (listKey : String)
    (replaceList : Bool) (absent : List String) (entries : List InboxEntryEntity) :
    List InboxEntryEntity :=
  let a := scope.accountId
  let w := scope.workspaceId
  let incoming := fresh [] (rows.map (·.id))
  let kept :=
    if replaceList then entries.filter fun e =>
      !(e.accountId = a && e.workspaceId = w && e.listKey = listKey && e.conversationId ∉ incoming)
    else entries
  let added := incoming.foldl (fun l id => addEntry l ⟨a, w, listKey, id⟩) kept
  (absent.filter (· ∉ incoming)).foldl (fun l id => l.filter (· ≠ ⟨a, w, listKey, id⟩)) added

def writeConversations (m : CacheMapping α β γ δ) (scope : CacheScope)
    (rows : List (Conversation α)) (listKey : Option String) (replaceList : Bool)
    (absent : List String) (now : ℤ) (s : MemoryCacheStore β γ) :
    MemoryCacheStore β γ × Answer α γ δ τ :=
  let (conversations, ok) := writeRows m scope now rows s.conversations
  if ok then
    let entries :=
      match listKey with
      | none => s.entries
      | some key => writeList scope rows key replaceList absent s.entries
    ({ s with conversations, entries }, .done)
  else ({ s with conversations }, .failed)

def removeConversation (scope : CacheScope) (id : String) (s : MemoryCacheStore β γ) :
    MemoryCacheStore β γ :=
  let a := scope.accountId
  let w := scope.workspaceId
  { s with
    entries := s.entries.filter fun e =>
      !(e.accountId = a && e.workspaceId = w && e.conversationId = id)
    conversations := s.conversations.erase ⟨a, w, id⟩
    messages := s.messages.keep fun _ m => !ofThread a w id m
    states := s.states.erase ⟨a, w, SyncKeys.thread id⟩ }

def update (scope : CacheScope) (id : String)
    (change : ConversationEntity β → ConversationEntity β) (s : MemoryCacheStore β γ) :
    MemoryCacheStore β γ :=
  { s with conversations :=
      s.conversations.update ⟨scope.accountId, scope.workspaceId, id⟩ change }

def thread (scope : CacheScope) (conversationId : String) (block : Block γ τ)
    (s : MemoryCacheStore β γ) : MemoryCacheStore β γ × Answer α γ δ τ :=
  match MemoryThreadWriter.run scope conversationId block s.toMemoryPages with
  | (pages, some result) => ({ s with toMemoryPages := pages }, .block result)
  | (_, none) => (s, .failed)

def threadWeights (hashed : Scan (MessageEntity γ)) (s : MemoryCacheStore β γ) :
    List ThreadWeight :=
  let rows := (hashed.run s.messages.values).filter sent
  let groups := (fresh [] (rows.map (·.threadKey))).map fun key =>
    (key, rows.filter fun m => m.threadKey = key)
  orderBy openedOrder (groups.map fun (key, rows) =>
    ({ accountId := key.a, workspaceId := key.w, conversationId := key.id
       messageCount := rows.length
       openedAt := (s.conversations.get key).bind (·.openedAt) } : ThreadWeight))

def orphan (s : MemoryCacheStore β γ) (before : ℤ) (c : ConversationEntity β) : Bool :=
  (match c.openedAt with | none => true | some at_ => at_ < before) && c.cachedAt < before &&
    (s.entries.all fun e => !(e.accountId = c.accountId && e.workspaceId = c.workspaceId &&
      e.conversationId = c.conversationId)) &&
    s.messages.values.all fun m => !ofThread c.accountId c.workspaceId c.conversationId m

def dropOrphanConversations (before : ℤ) (s : MemoryCacheStore β γ) : MemoryCacheStore β γ × ℕ :=
  let doomed := s.conversations.values.filter (s.orphan before)
  ({ s with conversations := doomed.foldl (fun t c => t.erase c.key) s.conversations },
    doomed.length)

def clear (s : MemoryCacheStore β γ) : MemoryCacheStore β γ :=
  let messages := s.messages.keep fun _ m => !sent m
  { messages
    entries := []
    conversations := s.conversations.keep fun _ c =>
      !messages.values.all fun m => !ofThread c.accountId c.workspaceId c.conversationId m
    states := .empty }

/-- One operation: what is stored after it, and what it answers. -/
def step (m : CacheMapping α β γ δ) (s : MemoryCacheStore β γ) (c : Call α γ τ) :
    MemoryCacheStore β γ × Answer α γ δ τ :=
  match c.op with
  | .observeList scope listKey =>
    (s, .conversations ((orderBy listOrder (s.listed scope listKey)).map m.toConversation))
  | .observeConversation scope id | .conversation scope id =>
    (s, .conversation ((s.conversations.get ⟨scope.accountId, scope.workspaceId, id⟩).map
      m.toConversation))
  | .writeConversations scope rows listKey replaceList absent now =>
    writeConversations m scope rows listKey replaceList absent now s
  | .removeConversation scope id => (removeConversation scope id s, .done)
  | .conversationIdsForContact scope contactId =>
    (s, .ids ((s.conversations.values.filter fun c =>
      c.accountId = scope.accountId && c.workspaceId = scope.workspaceId &&
        c.contactId = some contactId).map (·.conversationId)))
  | .markOpened scope id now =>
    (update scope id (fun c => { c with openedAt := some now }) s, .done)
  | .clearUnread scope id =>
    (update scope id (fun c => { c with unreadCount := some 0 }) s, .done)
  | .syncState scope key => (s, .state (s.states.get ⟨scope.accountId, scope.workspaceId, key⟩))
  | .putSyncState scope state =>
    if state.accountId = scope.accountId ∧ state.workspaceId = scope.workspaceId then
      ({ s with states := s.states.put state.stateKey state }, .done)
    else (s, .failed)
  | .observeThread scope id =>
    (s, .transcript ((orderBy threadOrder
      (s.messages.values.filter (inThread scope id))).map m.toMessage))
  | .thread scope id block => thread scope id block s
  | .message scope localId =>
    (s, .message ((s.messages.get ⟨scope.accountId, localId⟩).filter fun m =>
      m.workspaceId = scope.workspaceId))
  | .outbox scope =>
    (s, .outbox (orderBy (·.sortAt) ((c.hashed.run s.messages.values).filter fun m =>
      m.accountId = scope.accountId && m.workspaceId = scope.workspaceId && !sent m)))
  | .threadWeights => (s, .weights (s.threadWeights c.hashed))
  | .evictThread a w id =>
    ({ s with
        messages := s.messages.keep fun _ m => !(ofThread a w id m && sent m)
        states := s.states.erase ⟨a, w, SyncKeys.thread id⟩ }, .done)
  | .listRefs =>
    (s, .lists ((s.states.values.filter fun r =>
      "list:".toList.isPrefixOf r.key.toList).map fun r =>
      (⟨r.accountId, r.workspaceId, r.key, r.updatedAt⟩ : ListRef)))
  | .dropList a w listKey =>
    ({ s with
        entries := s.entries.filter fun e =>
          !(e.accountId = a && e.workspaceId = w && e.listKey = listKey)
        states := s.states.erase ⟨a, w, SyncKeys.list listKey⟩ }, .done)
  | .dropOrphanConversations before =>
    let (s, n) := dropOrphanConversations before s
    (s, .count n)
  | .purgeAccount a =>
    ({ messages := s.messages.keep fun _ m => !(m.accountId = a)
       entries := s.entries.filter fun e => !(e.accountId = a)
       conversations := s.conversations.keep fun _ c => !(c.accountId = a)
       states := s.states.keep fun _ r => !(r.accountId = a) }, .done)
  | .clear => (s.clear, .done)
  | .stats =>
    (s, .stats ⟨s.conversations.rows.length, s.messages.rows.length, 0⟩)

end MemoryCacheStore

end Kindred.Cache
