import Kindred.Cache.MemoryStore

/-! `RoomCacheStore`: the cache held in SQL tables. -/

namespace Kindred.Cache
open Lib (fresh orderBy chunked upsert keyIn)

variable {α β γ δ τ : Type}

structure RoomPages (γ : Type) where
  messages : List (MessageEntity γ) := []
  sync_state : List SyncStateEntity := []

structure CacheDatabase (β γ : Type) extends RoomPages γ where
  conversations : List (ConversationEntity β) := []
  inbox_entries : List InboxEntryEntity := []

def codePoints (s : String) : List ℕ := s.toList.map Char.toNat

/-- `ORDER BY c.updated_at DESC, c.conversation_id ASC`; NULL is the least value. -/
def listColumns (c : ConversationEntity β) : (WithBot ℤ)ᵒᵈ ×ₗ List ℕ :=
  toLex (OrderDual.toDual c.updatedAt, codePoints c.conversationId)

/-- `ORDER BY sort_at ASC, server_id ASC, local_id ASC`. -/
def threadColumns (m : MessageEntity γ) : ℤ ×ₗ WithBot (List ℕ) ×ₗ List ℕ :=
  toLex (m.sortAt, toLex (m.serverId.map codePoints, codePoints m.localId))

/-- SQLite's `LIKE` with a text and `%` after it: the letters of ASCII in either case. -/
def likePrefix (pre s : List Char) : Bool :=
  (pre.map Char.toLower).isPrefixOf (s.map Char.toLower)

def SQL_CHUNK : ℕ := 500

namespace ConversationDao

def observeList (a w listKey : String) (db : CacheDatabase β γ) : List (ConversationEntity β) :=
  orderBy listColumns <|
    (db.inbox_entries.filter fun e => e.accountId = a && e.workspaceId = w && e.listKey = listKey)
      |>.flatMap fun e => db.conversations.filter fun c =>
        e.accountId = c.accountId && e.workspaceId = c.workspaceId &&
          e.conversationId = c.conversationId

def get (a w id : String) (rows : List (ConversationEntity β)) : Option (ConversationEntity β) :=
  rows.find? fun c => c.accountId = a && c.workspaceId = w && c.conversationId = id

def getAll (a w : String) (ids : List String) (rows : List (ConversationEntity β)) :
    List (ConversationEntity β) :=
  keyIn (fun c => some c.conversationId) ids
    (rows.filter fun c => c.accountId = a && c.workspaceId = w)

def listIds (a w listKey : String) (rows : List InboxEntryEntity) : List String :=
  (rows.filter fun e => e.accountId = a && e.workspaceId = w && e.listKey = listKey).map
    (·.conversationId)

def removeEntries (a w listKey : String) (ids : List String) (rows : List InboxEntryEntity) :
    List InboxEntryEntity :=
  rows.filter fun e => !(e.accountId = a && e.workspaceId = w && e.listKey = listKey &&
    e.conversationId ∈ ids)

def updateRow (a w id : String) (change : ConversationEntity β → ConversationEntity β)
    (rows : List (ConversationEntity β)) : List (ConversationEntity β) :=
  rows.map fun c =>
    if c.accountId = a ∧ c.workspaceId = w ∧ c.conversationId = id then change c else c

end ConversationDao

namespace MessageDao

def ofThreadRows (a w c : String) (rows : List (MessageEntity γ)) : List (MessageEntity γ) :=
  rows.filter (ofThread a w c)

def conflicts (row other : MessageEntity γ) : Bool :=
  other.accountId = row.accountId && other.workspaceId = row.workspaceId &&
    other.conversationId = row.conversationId &&
    ((row.serverId.isSome && other.serverId = row.serverId) ||
      (row.clientMessageId.isSome && other.clientMessageId = row.clientMessageId))

/-- `@Upsert`: insert, and where a unique index refuses it, update the row of the same primary
key. `strict` says whether it throws where there is no such row. -/
def upsertRow (strict : Bool) (row : MessageEntity γ) (rows : List (MessageEntity γ)) :
    Option (List (MessageEntity γ)) :=
  if rows.any fun other => other.key = row.key then
    if rows.any fun other => other.key ≠ row.key && conflicts row other then none
    else some (rows.map fun other => if other.key = row.key then row else other)
  else if rows.any (conflicts row) then
    if strict then none else some rows
  else some (rows ++ [row])

def upsertAll (strict : Bool) (new rows : List (MessageEntity γ)) :
    Option (List (MessageEntity γ)) :=
  new.foldlM (fun rows row => upsertRow strict row rows) rows

end MessageDao

def deleteState (a w key : String) (rows : List SyncStateEntity) : List SyncStateEntity :=
  rows.filter fun r => !(r.accountId = a && r.workspaceId = w && r.key = key)

def getState (a w key : String) (rows : List SyncStateEntity) : Option SyncStateEntity :=
  rows.find? fun r => r.accountId = a && r.workspaceId = w && r.key = key

namespace RoomThreadWriter

variable (strict : Bool) (scope : CacheScope) (conversationId : String)

/-- What one call on the writer leaves and answers; nothing where it throws. -/
def call (p : RoomPages γ) : WriterOp γ → Option (RoomPages γ × WriterAnswer γ)
  | .byServerIds ids =>
    let rows := MessageDao.ofThreadRows scope.accountId scope.workspaceId conversationId p.messages
    some (p, .rows ((chunked SQL_CHUNK (fresh [] ids)).flatMap fun c =>
      keyIn MessageEntity.serverId c rows))
  | .byClientIds ids =>
    let rows := MessageDao.ofThreadRows scope.accountId scope.workspaceId conversationId p.messages
    some (p, .rows ((chunked SQL_CHUNK (fresh [] ids)).flatMap fun c =>
      keyIn MessageEntity.clientMessageId c rows))
  | .keys =>
    let rows := MessageDao.ofThreadRows scope.accountId scope.workspaceId conversationId p.messages
    some (p, .keyRows (rows.map fun m =>
      (⟨m.localId, m.serverId, m.sendState, m.cachedAt⟩ : MessageKeyRow)))
  | .upsert rows =>
    if rows.all fun m => m.accountId = scope.accountId && m.workspaceId = scope.workspaceId &&
        m.conversationId = conversationId then
      (MessageDao.upsertAll strict rows p.messages).map fun messages => ({ p with messages }, .done)
    else none
  | .delete localIds =>
    let messages := (chunked SQL_CHUNK (fresh [] localIds)).foldl (fun rows c =>
      rows.filter fun m => !(m.accountId = scope.accountId && m.localId ∈ c)) p.messages
    some ({ p with messages }, .done)
  | .state =>
    some (p, .state (getState scope.accountId scope.workspaceId (SyncKeys.thread conversationId)
      p.sync_state))
  | .putState state =>
    if state.accountId = scope.accountId ∧ state.workspaceId = scope.workspaceId ∧
        state.key = SyncKeys.thread conversationId then
      some ({ p with sync_state := upsert SyncStateEntity.stateKey state p.sync_state }, .done)
    else none
  | .clearState =>
    let key := SyncKeys.thread conversationId
    let sync_state := deleteState scope.accountId scope.workspaceId key p.sync_state
    some ({ p with sync_state }, .done)

def run : Block γ τ → RoomPages γ → Option (RoomPages γ × τ)
  | .done result, p => some (p, result)
  | .throw, _ => none
  | .call op next, p =>
    match call strict scope conversationId p op with
    | none => none
    | some (p, answer) => run (next answer) p

end RoomThreadWriter

namespace MaintenanceDao

/-- `LEFT JOIN conversations`. -/
def joined (db : CacheDatabase β γ) (m : MessageEntity γ) : List (Option (ConversationEntity β)) :=
  match db.conversations.filter fun c => c.accountId = m.accountId &&
      c.workspaceId = m.workspaceId && c.conversationId = m.conversationId with
  | [] => [none]
  | cs => cs.map some

def threadWeights (grouped : Scan ThreadWeight) (db : CacheDatabase β γ) : List ThreadWeight :=
  let rows := (db.messages.filter fun m => m.sendState = 0).flatMap fun m =>
    (joined db m).map fun c => (m.threadKey, c)
  let groups := (fresh [] (rows.map Prod.fst)).map fun key =>
    let group := rows.filter fun r => r.1 = key
    ({ accountId := key.a, workspaceId := key.w, conversationId := key.id
       messageCount := group.length
       openedAt := (group.head?.bind Prod.snd).bind (·.openedAt) } : ThreadWeight)
  orderBy openedOrder (grouped.run groups)

/-- What `dropOrphanConversations` deletes. -/
def orphan (db : CacheDatabase β γ) (before : ℤ) (c : ConversationEntity β) : Bool :=
  (match c.openedAt with | none => true | some at_ => at_ < before) && c.cachedAt < before &&
    (!db.inbox_entries.any fun e => e.accountId = c.accountId && e.workspaceId = c.workspaceId &&
      e.conversationId = c.conversationId) &&
    !db.messages.any fun m => m.accountId = c.accountId && m.workspaceId = c.workspaceId &&
      m.conversationId = c.conversationId

end MaintenanceDao

namespace RoomCacheStore

def writeList (scope : CacheScope) (rows : List (Conversation α)) (listKey : String)
    (replaceList : Bool) (absent : List String) (entries : List InboxEntryEntity) :
    List InboxEntryEntity :=
  let a := scope.accountId
  let w := scope.workspaceId
  let incoming := fresh [] (rows.map (·.id))
  let kept :=
    if replaceList then
      let gone := (ConversationDao.listIds a w listKey entries).filter (· ∉ incoming)
      (chunked SQL_CHUNK gone).foldl (fun l c => ConversationDao.removeEntries a w listKey c l)
        entries
    else entries
  let added := incoming.foldl (fun l id => upsert (fun e => e) ⟨a, w, listKey, id⟩ l) kept
  (chunked SQL_CHUNK (absent.filter (· ∉ incoming))).foldl
    (fun l c => ConversationDao.removeEntries a w listKey c l) added

def freshRow (m : CacheMapping α β γ δ) (scope : CacheScope) (now : ℤ)
    (stored : String → Option (ConversationEntity β)) (row : Conversation α) :
    Option (Option (ConversationEntity β)) :=
  let old := stored row.id
  match isStale row old with
  | none => none
  | some true => some none
  | some false => (m.toEntity scope row now (old.bind (·.openedAt))).map some

def writeConversations (m : CacheMapping α β γ δ) (scope : CacheScope)
    (rows : List (Conversation α)) (listKey : Option String) (replaceList : Bool)
    (absent : List String) (now : ℤ) (db : CacheDatabase β γ) :
    CacheDatabase β γ × Answer α γ δ τ :=
  let found := (chunked SQL_CHUNK (fresh [] (rows.map (·.id)))).flatMap fun c =>
    ConversationDao.getAll scope.accountId scope.workspaceId c db.conversations
  -- `associateBy` keeps the last of a key.
  let stored := fun id => found.reverse.find? fun c => c.conversationId = id
  match rows.mapM (freshRow m scope now stored) with
  | none => (db, .failed)
  | some fresh =>
    let conversations := fresh.reduceOption.foldl
      (fun l c => upsert ConversationEntity.key c l) db.conversations
    let inbox_entries :=
      match listKey with
      | none => db.inbox_entries
      | some key => writeList scope rows key replaceList absent db.inbox_entries
    ({ db with conversations, inbox_entries }, .done)

def removeConversation (scope : CacheScope) (id : String) (db : CacheDatabase β γ) :
    CacheDatabase β γ :=
  let a := scope.accountId
  let w := scope.workspaceId
  { db with
    inbox_entries := db.inbox_entries.filter fun e =>
      !(e.accountId = a && e.workspaceId = w && e.conversationId = id)
    conversations := db.conversations.filter fun c =>
      !(c.accountId = a && c.workspaceId = w && c.conversationId = id)
    messages := db.messages.filter fun m => !ofThread a w id m
    sync_state := deleteState a w (SyncKeys.thread id) db.sync_state }

def thread (strict : Bool) (scope : CacheScope) (conversationId : String) (block : Block γ τ)
    (db : CacheDatabase β γ) : CacheDatabase β γ × Answer α γ δ τ :=
  match RoomThreadWriter.run strict scope conversationId block db.toRoomPages with
  | some (pages, result) => ({ db with toRoomPages := pages }, .block result)
  | none => (db, .failed)

def dropOrphanConversations (before : ℤ) (db : CacheDatabase β γ) : CacheDatabase β γ × ℕ :=
  ({ db with conversations := db.conversations.filter fun c =>
      !MaintenanceDao.orphan db before c },
    db.conversations.countP (MaintenanceDao.orphan db before))

def clear (db : CacheDatabase β γ) : CacheDatabase β γ :=
  let messages := db.messages.filter fun m => !(m.sendState = 0)
  { messages
    inbox_entries := []
    conversations := db.conversations.filter fun c =>
      messages.any fun m => m.accountId = c.accountId && m.workspaceId = c.workspaceId &&
        m.conversationId = c.conversationId
    sync_state := [] }

/-- One operation: what is stored after it, and what it answers. -/
def step (strict : Bool) (m : CacheMapping α β γ δ) (db : CacheDatabase β γ) (c : Call α γ τ) :
    CacheDatabase β γ × Answer α γ δ τ :=
  match c.op with
  | .observeList scope listKey =>
    (db, .conversations ((ConversationDao.observeList scope.accountId scope.workspaceId listKey
      db).map m.toConversation))
  | .observeConversation scope id | .conversation scope id =>
    (db, .conversation ((ConversationDao.get scope.accountId scope.workspaceId id
      db.conversations).map m.toConversation))
  | .writeConversations scope rows listKey replaceList absent now =>
    writeConversations m scope rows listKey replaceList absent now db
  | .removeConversation scope id => (removeConversation scope id db, .done)
  | .conversationIdsForContact scope contactId =>
    (db, .ids ((db.conversations.filter fun c =>
      c.accountId = scope.accountId && c.workspaceId = scope.workspaceId &&
        c.contactId = some contactId).map (·.conversationId)))
  | .markOpened scope id now =>
    let conversations := ConversationDao.updateRow scope.accountId scope.workspaceId id
      (fun c => { c with openedAt := some now }) db.conversations
    ({ db with conversations }, .done)
  | .clearUnread scope id =>
    let conversations := ConversationDao.updateRow scope.accountId scope.workspaceId id
      (fun c => { c with unreadCount := some 0 }) db.conversations
    ({ db with conversations }, .done)
  | .syncState scope key =>
    (db, .state (getState scope.accountId scope.workspaceId key db.sync_state))
  | .putSyncState scope state =>
    if state.accountId = scope.accountId ∧ state.workspaceId = scope.workspaceId then
      ({ db with sync_state := upsert SyncStateEntity.stateKey state db.sync_state }, .done)
    else (db, .failed)
  | .observeThread scope id =>
    (db, .transcript ((orderBy threadColumns (MessageDao.ofThreadRows scope.accountId
      scope.workspaceId id db.messages)).map m.toMessage))
  | .thread scope id block => thread strict scope id block db
  | .message scope localId =>
    (db, .message ((db.messages.find? fun m =>
      m.accountId = scope.accountId && m.localId = localId).filter fun m =>
      m.workspaceId = scope.workspaceId))
  | .outbox scope =>
    (db, .outbox (orderBy (·.sortAt) (c.stored.run (db.messages.filter fun m =>
      m.accountId = scope.accountId && m.workspaceId = scope.workspaceId && m.sendState ≠ 0))))
  | .threadWeights => (db, .weights (MaintenanceDao.threadWeights c.grouped db))
  | .evictThread a w id =>
    ({ db with
        messages := db.messages.filter fun m => !(ofThread a w id m && m.sendState = 0)
        sync_state := deleteState a w (SyncKeys.thread id) db.sync_state }, .done)
  | .listRefs =>
    (db, .lists ((db.sync_state.filter fun r =>
      likePrefix "list:".toList r.key.toList).map fun r =>
      (⟨r.accountId, r.workspaceId, r.key, r.updatedAt⟩ : ListRef)))
  | .dropList a w listKey =>
    ({ db with
        inbox_entries := db.inbox_entries.filter fun e =>
          !(e.accountId = a && e.workspaceId = w && e.listKey = listKey)
        sync_state := deleteState a w (SyncKeys.list listKey) db.sync_state }, .done)
  | .dropOrphanConversations before =>
    let (db, n) := dropOrphanConversations before db
    (db, .count n)
  | .purgeAccount a =>
    ({ messages := db.messages.filter fun m => !(m.accountId = a)
       inbox_entries := db.inbox_entries.filter fun e => !(e.accountId = a)
       conversations := db.conversations.filter fun c => !(c.accountId = a)
       sync_state := db.sync_state.filter fun r => !(r.accountId = a) }, .done)
  | .clear => (clear db, .done)
  | .stats => (db, .stats ⟨db.conversations.length, db.messages.length, c.fileBytes⟩)

end RoomCacheStore

end Kindred.Cache
