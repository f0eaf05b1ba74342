import Kindred.Database
import Mathlib.Data.List.Sort

/-! What chat routing reads and writes. -/

namespace Kindred.ChatRouting
open Lib (Table)

inductive ConversationStatus where
  | opened | pending | resolved | closed
  deriving DecidableEq

/-- `conversations`, and the keys of its metadata that routing goes by. -/
structure Conversation where
  workspaceId : Id
  assignedTo : Option Id := none
  status : ConversationStatus := .opened
  isSpam : Bool := false
  contactId : Option Id := none
  routingPending : Bool := false
  aiManaged : Bool := false
  departmentId : Option Id := none
  departmentOnly : Bool := false
  deriving DecidableEq

/-- `status IN ('open', 'pending')` -/
def Conversation.live (c : Conversation) : Bool := c.status = .opened ∨ c.status = .pending

def Conversation.routable (c : Conversation) : Bool := c.live && !c.isSpam

theorem noCap : ∀ n ∈ (none : Option ℕ), 1 ≤ n ∧ n ≤ 50 := by decide

/-- `workspace_members`, and its check constraint. -/
structure Member where
  suspendedAt : Option Timestamp := none
  receivesChats : Bool := true
  maxConcurrentChats : Option ℕ := none
  chats_range : ∀ n ∈ maxConcurrentChats, 1 ≤ n ∧ n ≤ 50 := by first | exact noCap | decide
  deriving DecidableEq

def Member.receiving (m : Member) : Bool := m.suspendedAt.isNone && m.receivesChats

inductive AssignmentMode where
  | auto | roundRobin | manual
  deriving DecidableEq

/-- `widget_settings`, and its check constraints. -/
structure WidgetSettings where
  assignmentMode : AssignmentMode := .auto
  lastAgentRoutingEnabled : Bool := true
  defaultMaxConcurrentChats : ℕ := 5
  firstResponseTimeoutMinutes : ℕ := 5
  chats_range : 1 ≤ defaultMaxConcurrentChats ∧ defaultMaxConcurrentChats ≤ 50 := by decide
  timeout_range : firstResponseTimeoutMinutes ≤ 60 := by decide
  deriving DecidableEq

inductive WaitReason where
  | nobodyOnline | allBusy
  deriving DecidableEq

/-- `chat_routing_state` -/
structure RoutingState where
  workspaceId : Id
  waitingSince : Option Timestamp := none
  waitReason : Option WaitReason := none
  waitingRetryAt : Option Timestamp := none
  waitingActiveAt : Option Timestamp := none
  prechatDeadline : Option Timestamp := none
  assignedTo : Option Id := none
  assignedAt : Option Timestamp := none
  assignMethod : Option String := none
  timeoutDueAt : Option Timestamp := none
  skipUserIds : List Id := []
  deriving DecidableEq

/-- `conversation_messages` of agents: `sender_type = 'agent'`. -/
structure AgentMessage where
  conversationId : Id
  senderId : Option Id
  createdAt : Timestamp
  deriving DecidableEq

/-- The tables. -/
structure ChatDb where
  conversations : Table Id Conversation := .empty
  members : Table (Id × Id) Member := .empty
  widgetSettings : Table Id WidgetSettings := .empty
  /-- `chat_routing_state`, by conversation. -/
  states : Table Id RoutingState := .empty
  /-- `chat_routing_cursors`, by workspace and pool. -/
  cursors : Table (Id × String) Id := .empty
  /-- `chat_routing_members.last_assigned_at`, by workspace and member. -/
  lastAssigned : Table (Id × Id) Timestamp := .empty
  messages : List AgentMessage := []
  deriving DecidableEq

namespace ChatDb

def conversationOf (db : ChatDb) (workspaceId conversationId : Id) : Option Conversation :=
  (db.conversations.get conversationId).filter (·.workspaceId = workspaceId)

def openLoad (db : ChatDb) (workspaceId userId : Id) : ℕ :=
  db.conversations.rows.countP fun r =>
    r.2.workspaceId = workspaceId ∧ r.2.assignedTo = some userId ∧ r.2.routable

def defaultCap (db : ChatDb) (workspaceId : Id) : ℕ :=
  ((db.widgetSettings.get workspaceId).map (·.defaultMaxConcurrentChats)).getD 5

/-- `first_response_timeout_minutes`; 0 is off. -/
def responseTimeout (db : ChatDb) (workspaceId : Id) : ℕ :=
  ((db.widgetSettings.get workspaceId).map (·.firstResponseTimeoutMinutes)).getD 5

/-- `coalesce(m.max_concurrent_chats, v_default_cap)` -/
def cap (db : ChatDb) (workspaceId : Id) (m : Member) : ℕ :=
  m.maxConcurrentChats.getD (db.defaultCap workspaceId)

def skipUserIds (db : ChatDb) (conversationId : Id) : List Id :=
  ((db.states.get conversationId).map (·.skipUserIds)).getD []

def assign (db : ChatDb) (conversationId : Id) (user : Option Id) : ChatDb :=
  { db with conversations :=
      db.conversations.update conversationId fun c => { c with assignedTo := user } }

/-- `INSERT ... ON CONFLICT (conversation_id) DO UPDATE` -/
def upsertState (db : ChatDb) (conversationId : Id) (inserted : RoutingState)
    (update : RoutingState → RoutingState) : ChatDb :=
  let row := ((db.states.get conversationId).map update).getD inserted
  { db with states := db.states.put conversationId row }

def updateState (db : ChatDb) (conversationId : Id) (update : RoutingState → RoutingState) :
    ChatDb :=
  { db with states := db.states.update conversationId update }

section Lemmas
variable (db : ChatDb) (id id' : Id)

@[simp] theorem assign_states (user : Option Id) : (db.assign id user).states = db.states := rfl

@[simp] theorem assign_members (user : Option Id) : (db.assign id user).members = db.members := rfl

@[simp] theorem assign_widgetSettings (user : Option Id) :
    (db.assign id user).widgetSettings = db.widgetSettings := rfl

@[simp] theorem assign_messages (user : Option Id) : (db.assign id user).messages = db.messages := rfl

theorem assign_conversation (user : Option Id) : (db.assign id user).conversations.get id' =
      (db.conversations.get id').map fun c =>
        if id' = id then { c with assignedTo := user } else c := by
  by_cases h : id' = id
  · subst h
    simp [assign]
  · simp [assign, Table.get_update_ne _ _ h, h]

variable (row : RoutingState) (update : RoutingState → RoutingState)

@[simp] theorem upsertState_conversations :
    (db.upsertState id row update).conversations = db.conversations := rfl

@[simp] theorem upsertState_members : (db.upsertState id row update).members = db.members := rfl

@[simp] theorem upsertState_widgetSettings :
    (db.upsertState id row update).widgetSettings = db.widgetSettings := rfl

@[simp] theorem upsertState_messages : (db.upsertState id row update).messages = db.messages := rfl

theorem upsertState_state : (db.upsertState id row update).states.get id' =
      if id' = id then some (((db.states.get id).map update).getD row) else db.states.get id' := by
  by_cases h : id' = id
  · subst h
    simp [upsertState]
  · simp [upsertState, h, Table.get_put_ne _ _ h]

@[simp] theorem updateState_conversations :
    (db.updateState id update).conversations = db.conversations := rfl

@[simp] theorem updateState_members : (db.updateState id update).members = db.members := rfl

@[simp] theorem updateState_widgetSettings :
    (db.updateState id update).widgetSettings = db.widgetSettings := rfl

@[simp] theorem updateState_messages : (db.updateState id update).messages = db.messages := rfl

theorem updateState_state : (db.updateState id update).states.get id' =
      (db.states.get id').map fun s => if id' = id then update s else s := by
  by_cases h : id' = id
  · subst h
    simp [updateState]
  · simp [updateState, Table.get_update_ne _ _ h, h]

end Lemmas

end ChatDb

end Kindred.ChatRouting
