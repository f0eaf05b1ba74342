import Mathlib.Algebra.Group.Int.Defs
import Mathlib.Data.Int.ConditionallyCompleteOrder
import Mathlib.Data.Multiset.MapFold
import Mathlib.Order.ConditionallyCompleteLattice.Basic

/-! The rows the app's cache keeps, and what a cache store is asked and answers. -/

namespace Kindred.Cache

structure CacheScope where
  accountId : String
  workspaceId : String

/-- An instant in nanoseconds, as milliseconds; it throws beyond what a `Long` holds. -/
def toEpochMilli (t : ℤ) : Option ℤ :=
  if -2 ^ 63 ≤ t / 1000000 ∧ t / 1000000 < 2 ^ 63 then some (t / 1000000) else none

def ofEpochMilli (ms : ℤ) : ℤ := ms * 1000000

/-- A conversation as the server describes it; `rest` is what only the mapping reads. -/
structure Conversation (α : Type) where
  id : String
  workspaceId : String
  contactId : Option String
  updatedAt : Option ℤ
  unreadCount : Option ℤ
  rest : α
  deriving DecidableEq

structure ConversationEntity (β : Type) where
  accountId : String
  workspaceId : String
  conversationId : String
  contactId : Option String
  unreadCount : Option ℤ
  updatedAt : Option ℤ
  cachedAt : ℤ
  openedAt : Option ℤ
  rest : β

structure InboxEntryEntity where
  accountId : String
  workspaceId : String
  listKey : String
  conversationId : String
  deriving DecidableEq

structure MessageEntity (γ : Type) where
  accountId : String
  localId : String
  workspaceId : String
  conversationId : String
  serverId : Option String
  clientMessageId : Option String
  sendState : ℤ
  sortAt : ℤ
  cachedAt : ℤ
  rest : γ
  deriving DecidableEq

structure SyncStateEntity where
  accountId : String
  workspaceId : String
  key : String
  cursor : Option String
  etag : Option String
  fullReadAt : Option ℤ
  payload : Option String
  updatedAt : ℤ
  deriving DecidableEq

inductive SendState
  | SENT | PENDING | FAILED
  deriving DecidableEq

def SendState.code : SendState → ℤ
  | SENT => 0
  | PENDING => 1
  | FAILED => 2

def SendState.of (code : ℤ) : SendState :=
  ([SENT, PENDING, FAILED].find? fun s => s.code = code).getD SENT

structure Message (δ : Type) where
  id : String
  conversationId : String
  localId : String
  delivery : SendState
  rest : δ
  deriving DecidableEq

structure MessageKeyRow where
  localId : String
  serverId : Option String
  sendState : ℤ
  cachedAt : ℤ

structure ThreadWeight where
  accountId : String
  workspaceId : String
  conversationId : String
  messageCount : ℕ
  openedAt : Option ℤ
  deriving DecidableEq

structure ListRef where
  accountId : String
  workspaceId : String
  key : String
  updatedAt : ℤ
  deriving DecidableEq

structure CacheStats where
  conversations : ℕ
  messages : ℕ
  bytes : ℕ
  deriving DecidableEq

namespace SyncKeys

def thread (conversationId : String) : String := "thread:" ++ conversationId
def list (listKey : String) : String := "list:" ++ listKey

end SyncKeys

def isStale {α β : Type} (incoming : Conversation α) (stored : Option (ConversationEntity β)) :
    Option Bool :=
  match stored.bind (·.updatedAt) with
  | none => some false
  | some have_ =>
    match incoming.updatedAt with
    | none => some false
    | some t => (toEpochMilli t).map (· < have_)

/-- What `CacheMapping` does with the columns that the stores only carry. -/
structure CacheMapping (α β γ δ : Type) where
  columns : Conversation α → Option β
  nested : β → α
  content : γ → δ

namespace CacheMapping

variable {α β γ δ : Type}

def toEntity (m : CacheMapping α β γ δ) (scope : CacheScope) (c : Conversation α) (now : ℤ)
    (openedAt : Option ℤ) : Option (ConversationEntity β) := do
  let rest ← m.columns c
  let updatedAt ← c.updatedAt.mapM toEpochMilli
  pure {
    accountId := scope.accountId, workspaceId := scope.workspaceId, conversationId := c.id,
    contactId := c.contactId, unreadCount := c.unreadCount, updatedAt, cachedAt := now,
    openedAt, rest }

def toConversation (m : CacheMapping α β γ δ) (row : ConversationEntity β) : Conversation α where
  id := row.conversationId
  workspaceId := row.workspaceId
  contactId := row.contactId
  updatedAt := row.updatedAt.map ofEpochMilli
  unreadCount := row.unreadCount
  rest := m.nested row.rest

def toMessage (m : CacheMapping α β γ δ) (row : MessageEntity γ) : Message δ where
  id := row.serverId.getD row.localId
  conversationId := row.conversationId
  localId := row.localId
  delivery := SendState.of row.sendState
  rest := m.content row.rest

end CacheMapping

inductive WriterOp (γ : Type)
  | byServerIds (ids : List String)
  | byClientIds (ids : List String)
  | keys
  | upsert (rows : List (MessageEntity γ))
  | delete (localIds : List String)
  | state
  | putState (state : SyncStateEntity)
  | clearState

inductive WriterAnswer (γ : Type)
  | rows (found : Multiset (MessageEntity γ))
  | keyRows (found : Multiset MessageKeyRow)
  | state (found : Option SyncStateEntity)
  | done

inductive Block (γ τ : Type)
  | done (result : τ)
  | throw
  | call (op : WriterOp γ) (next : WriterAnswer γ → Block γ τ)

inductive Op (α γ τ : Type)
  | observeList (scope : CacheScope) (listKey : String)
  | observeConversation (scope : CacheScope) (conversationId : String)
  | conversation (scope : CacheScope) (conversationId : String)
  | writeConversations (scope : CacheScope) (rows : List (Conversation α))
      (listKey : Option String) (replaceList : Bool) (absent : List String) (now : ℤ)
  | removeConversation (scope : CacheScope) (conversationId : String)
  | conversationIdsForContact (scope : CacheScope) (contactId : String)
  | markOpened (scope : CacheScope) (conversationId : String) (now : ℤ)
  | clearUnread (scope : CacheScope) (conversationId : String)
  | syncState (scope : CacheScope) (key : String)
  | putSyncState (scope : CacheScope) (state : SyncStateEntity)
  | observeThread (scope : CacheScope) (conversationId : String)
  | thread (scope : CacheScope) (conversationId : String) (block : Block γ τ)
  | message (scope : CacheScope) (localId : String)
  | outbox (scope : CacheScope)
  | threadWeights
  | evictThread (accountId workspaceId conversationId : String)
  | listRefs
  | dropList (accountId workspaceId listKey : String)
  | dropOrphanConversations (before : ℤ)
  | purgeAccount (accountId : String)
  | clear
  | stats

inductive Answer (α γ δ τ : Type)
  | done
  | failed
  | conversations (found : List (Conversation α))
  | conversation (found : Option (Conversation α))
  | ids (found : Multiset String)
  | state (found : Option SyncStateEntity)
  | transcript (found : List (Message δ))
  | block (result : τ)
  | message (found : Option (MessageEntity γ))
  | outbox (found : List (MessageEntity γ))
  | weights (found : List ThreadWeight)
  | lists (found : Multiset ListRef)
  | count (n : ℕ)
  | stats (s : CacheStats)
  deriving DecidableEq

structure Scan (ε : Type) where
  run : List ε → List ε
  perm : ∀ l, (run l).Perm l

/-- A call, and what each store finds around it: the order of the map's entries, the order in
which SQLite comes upon rows and groups, the size of the database's files. -/
structure Call (α γ τ : Type) where
  op : Op α γ τ
  hashed : Scan (MessageEntity γ)
  stored : Scan (MessageEntity γ)
  grouped : Scan ThreadWeight
  fileBytes : ℕ

end Kindred.Cache
