import Kindred.Inactivity.Turns
import Mathlib.Data.List.MinMax
import Mathlib.Data.List.ReduceOption

/-!
The inactivity close in SQL: what decides that a conversation is due, the
ticker's work list, and what a close writes.
-/

namespace Kindred.Inactivity
open Lib (Table)

inductive ConversationStatus where
  | opened | pending | resolved | closed
  deriving DecidableEq

def ConversationStatus.text : ConversationStatus → String
  | opened => "open"
  | pending => "pending"
  | resolved => "resolved"
  | closed => "closed"

/-- `conversations` -/
structure Conversation where
  workspaceId : Id
  status : Option ConversationStatus := some .opened
  isSpam : Bool := false
  assignedTo : Option Id := none
  metadata : Option Jsonb := none
  createdAt : Timestamp
  updatedAt : Timestamp

def Conversation.md (c : Conversation) (key : String) : Option Jsonb := field c.metadata key

inductive CallState where
  | pending | ringing | connecting | active | ended | failed | cancelled | missed
  deriving DecidableEq

/-- `call_sessions` whose context is a conversation. -/
structure CallSession where
  contextId : Option Id
  state : CallState
  connectedAt : Option Timestamp := none
  endedAt : Option Timestamp := none
  createdAt : Timestamp

/-- `state IN ('pending', 'ringing', 'connecting', 'active')` -/
def CallSession.live (cs : CallSession) : Bool :=
  cs.state ∈ [.pending, .ringing, .connecting, .active]

/-- A row of `call_invitations`, `call_queue_entries`, `callback_requests` or
`ai_agent_guidance_requests`, the last two without an expiry. -/
structure Request where
  conversationId : Option Id
  status : String
  expiresAt : Timestamp := 0

/-- `chat_routing_state` -/
structure RoutingWait where
  waitingSince : Option Timestamp := none
  prechatDeadline : Option Timestamp := none
  timeoutDueAt : Option Timestamp := none

/-- `platform_support_threads` -/
structure SupportThread where
  userId : Id
  sourceWorkspaceId : Option Id := none

/-- `widget_platform_settings` -/
structure PlatformSettings where
  inactivityCloseEnabled : Bool := true
  inactivityCloseDefaultHours : Int := 24

structure World where
  platform : Option PlatformSettings := some {}
  /-- `inactivity_close_hours` of the workspaces that have `widget_settings`. -/
  widgetHours : Table Id (Option Int) := .empty
  slugs : Table Id String := .empty
  emails : Table Id String := .empty
  supportThreads : Table Id SupportThread := .empty
  routingStates : Table Id RoutingWait := .empty
  callSessions : List CallSession := []
  callInvitations : List Request := []
  callQueueEntries : List Request := []
  callbackRequests : List Request := []
  guidanceRequests : List Request := []

/-- `conversation_events` -/
structure ConversationEvent where
  workspaceId : Id
  conversationId : Id
  eventType : String
  payload : Jsonb

structure Db where
  conversations : Table Id Conversation := .empty
  messages : List ConversationMessage := []
  events : List ConversationEvent := []
  world : World := {}

inductive Verdict where
  | notFound | notLive | spam | exempt | recent | needsReply | aiHandoff | routing | call | callback
  | guidance | due
  deriving DecidableEq

structure IdleCheck where
  verdict : Verdict
  idleHours : Option Int := none
  lastExchangeAt : Option Timestamp := none
  lastVisitorAt : Option Timestamp := none
  closedOutcome : Option String := none

def hour : Timestamp := 3600000000

/-- `greatest`, which ignores NULL, and `max`. -/
def greatest (times : List (Option Timestamp)) : Option Timestamp := (times.reduceOption).max?

section Check
variable (db : Db) (now : Timestamp) (id : Id)

def exempt (c : Conversation) : Bool :=
  let review (w : Id) : Bool := db.world.slugs.get w = some "ws_appreview"
  sqlText (c.md "app_review_seed") = "true" || review c.workspaceId ||
    (db.world.supportThreads.get id).any fun p =>
      db.world.emails.get p.userId = some "apple@webyar.ai" || p.sourceWorkspaceId.any review

def idleHours (workspaceId : Id) : Int :=
  let configured := ((db.world.widgetHours.get workspaceId).join).or
    (db.world.platform.map (·.inactivityCloseDefaultHours))
  min 48 (max 1 (configured.getD 24))

def newest (sender : String) (turn : Turn) : Option Timestamp :=
  ((db.messages.filter fun m => m.conversationId = id ∧ m.senderType = some sender ∧
    m.turn = some turn).map fun m => m.createdAt).max?

def calls : List CallSession := db.world.callSessions.filter fun cs => cs.contextId = some id

def CallSession.believed (cs : CallSession) : Bool := cs.live ∧ now - 12 * hour < cs.createdAt

def CallSession.lastExchange (cs : CallSession) : Option Timestamp :=
  cs.connectedAt.map fun connected =>
    cs.endedAt.getD (if cs.believed now then now else connected)

def callEnd : Option Timestamp := greatest ((calls db id).map (·.lastExchange now))

def callConnected : Option Timestamp := greatest ((calls db id).map (·.connectedAt))

def lastExchange (c : Conversation) : Timestamp :=
  (greatest [newest db id "contact" .visitor, newest db id "agent" .team, newest db id "ai" .team,
    callEnd db now id]).getD c.createdAt

/-- Open, and the visitor's turn is the newest. -/
def replyOwed (c : Conversation) : Bool :=
  c.status = some .opened &&
    (newest db id "contact" .visitor).any fun visitor =>
      (greatest [newest db id "agent" .team, newest db id "ai" .team, callConnected db id]).all
        (· ≤ visitor)

def handedOff (c : Conversation) : Bool :=
  sqlText (c.md "ai_state") ∈ ["needs_human", "human_assigned"] ||
    sqlText (c.md "ai_handoff_requested") = "true"

def routingWait (c : Conversation) : Bool :=
  sqlText (c.md "routing_pending") = "true" && c.assignedTo.isNone ||
    c.assignedTo.isNone && isString (c.md "queued_at") &&
      sqlText (c.md "routing_outcome") = "manual_queue" ||
    (db.world.routingStates.get id).any fun s =>
      s.waitingSince.isSome || s.prechatDeadline.isSome || s.timeoutDueAt.isSome

def liveCall : Bool :=
  (calls db id).any (·.believed now) ||
    (db.world.callInvitations.any fun ci =>
      ci.conversationId = some id && ci.status = "pending" && now < ci.expiresAt) ||
    db.world.callQueueEntries.any fun q =>
      q.conversationId = some id && q.status ∈ ["queued", "offered", "accepted"] &&
        now < q.expiresAt

def openCallback : Bool :=
  db.world.callbackRequests.any fun r =>
    r.conversationId = some id && r.status ∈ ["requested", "scheduled", "in_progress"]

def pendingGuidance : Bool :=
  db.world.guidanceRequests.any fun g => g.conversationId = some id && g.status = "pending"

def closedOutcome (c : Conversation) : String :=
  if (newest db id "contact" .visitor).isNone then "no_visitor_message"
  else if (newest db id "agent" .team).isSome ∨ (callConnected db id).isSome then "human"
  else if (newest db id "ai" .team).isSome ∧ db.messages.any fun m =>
      m.conversationId = id && m.senderType = some "ai" &&
        !("ai_agent_intro".toList.isPrefixOf (sqlText (m.md "source")).toList) &&
        m.turn = some .team then
    if sqlText (field (c.md "ai_memory") "issueStatus") = "resolved" then "ai_resolved"
    else "ai_unresolved"
  else "unanswered"

def conversationIdleCheck : IdleCheck :=
  match db.conversations.get id with
  | none => { verdict := .notFound }
  | some c =>
    if c.status = some .closed then { verdict := .notLive }
    else if c.isSpam then { verdict := .spam }
    else if exempt db id c then { verdict := .exempt }
    else
      let hours := idleHours db c.workspaceId
      let last := lastExchange db now id c
      let result (verdict : Verdict) : IdleCheck :=
        { verdict, idleHours := hours, lastExchangeAt := last
          lastVisitorAt := newest db id "contact" .visitor }
      if now - hours * hour < last then result .recent
      else if replyOwed db id c then result .needsReply
      else if handedOff c then result .aiHandoff
      else if routingWait db id c then result .routing
      else if liveCall db now id then result .call
      else if openCallback db id then result .callback
      else if pendingGuidance db id then result .guidance
      else { result .due with closedOutcome := closedOutcome db id c }

end Check

variable {v : Int} {db : Db} {id : Id} {sender : String} {turn : Turn}

theorem all_max_le {l : List Int} : (l.max?.all fun t => t ≤ v) ↔ ∀ t ∈ l, t ≤ v := by
  cases h : l.max? with
  | none => simp [List.max?_eq_none_iff.mp h]
  | some t =>
    obtain ⟨hmem, hle⟩ := List.max?_eq_some_iff.mp h
    simp only [Option.all_some, decide_eq_true_eq]
    exact ⟨fun ht x hx => (hle x hx).trans ht, fun h => h t hmem⟩

theorem all_greatest_le {l : List (Option Timestamp)} :
    ((greatest l).all fun t => t ≤ v) ↔ ∀ o ∈ l, ∀ t ∈ o, t ≤ v := by
  rw [greatest, all_max_le]
  have hmem (t : Timestamp) : t ∈ l.reduceOption ↔ some t ∈ l := List.reduceOption_mem_iff
  simp only [hmem]
  exact ⟨fun h o ho t ht => h t (ht ▸ ho), fun h t ht => h _ ht t rfl⟩

theorem mem_newest {t : Timestamp} (h : newest db id sender turn = some t) :
    ∃ m ∈ db.messages, m.conversationId = id ∧ m.turn = some turn ∧ m.createdAt = t := by
  obtain ⟨hmem, -⟩ := List.max?_eq_some_iff.mp h
  obtain ⟨m, hm, rfl⟩ := List.mem_map.mp hmem
  simp only [List.mem_filter, decide_eq_true_eq] at hm
  exact ⟨m, hm.1, hm.2.1, hm.2.2.2, rfl⟩

theorem all_newest_le :
    ((newest db id sender turn).all fun t => t ≤ v) ↔ ∀ m ∈ db.messages, m.conversationId = id →
      m.senderType = some sender → m.turn = some turn → m.createdAt ≤ v := by
  rw [newest, all_max_le]
  simp only [List.mem_map, List.mem_filter, decide_eq_true_eq]
  constructor
  · intro h m hm hid hs ht
    exact h _ ⟨m, ⟨hm, hid, hs, ht⟩, rfl⟩
  · rintro h t ⟨m, ⟨hm, hid, hs, ht⟩, rfl⟩
    exact h m hm hid hs ht

theorem turn_sender {m : ConversationMessage} (h : m.turn = some turn) :
    match turn with
    | .visitor => m.senderType = some "contact"
    | .team => m.senderType = some "agent" ∨ m.senderType = some "ai" := by
  rw [ConversationMessage.turn_eq] at h
  have hsender : m.contact = false → m.reply = false → m.transparent = true := by
    unfold ConversationMessage.transparent
    grind
  cases ht : m.transparent
  · rw [ht] at h hsender
    cases hs : m.sqlLooksThrough <;> rw [hs] at h
    · cases hc : m.contact <;> rw [hc] at h hsender <;> simp at h <;> subst h
      · simpa [ConversationMessage.reply, or_iff_not_imp_left] using hsender
      · simpa [ConversationMessage.contact] using hc
    · simp at h
  · simp [ht] at h

theorem all_team_le : ((newest db id "agent" .team).all fun t => t ≤ v) ∧
        ((newest db id "ai" .team).all fun t => t ≤ v) ↔
      ∀ m ∈ db.messages, m.conversationId = id → m.turn = some .team → m.createdAt ≤ v := by
  rw [all_newest_le, all_newest_le]
  constructor
  · rintro ⟨hagent, hai⟩ m hm hid ht
    rcases turn_sender ht with hs | hs
    · exact hagent m hm hid hs ht
    · exact hai m hm hid hs ht
  · exact fun h => ⟨fun m hm hid _ ht => h m hm hid ht, fun m hm hid _ ht => h m hm hid ht⟩

/-- An answer is owed: no answer and no connected call is newer than some turn of the visitor. -/
theorem replyOwed_iff {c : Conversation} :
    replyOwed db id c ↔ c.status = some .opened ∧ ∃ v ∈ db.messages, v.conversationId = id ∧
      v.turn = some .visitor ∧ (∀ m ∈ db.messages, m.conversationId = id → m.turn = some .team →
        m.createdAt ≤ v.createdAt) ∧ ∀ cs ∈ calls db id, ∀ t ∈ cs.connectedAt, t ≤ v.createdAt := by
  have hall (v : Int) : ((greatest [newest db id "agent" .team, newest db id "ai" .team,
      callConnected db id]).all fun t => t ≤ v) ↔
      (∀ m ∈ db.messages, m.conversationId = id → m.turn = some .team → m.createdAt ≤ v) ∧
      ∀ cs ∈ calls db id, ∀ t ∈ cs.connectedAt, t ≤ v := by
    have hcalls := all_greatest_le (l := (calls db id).map (·.connectedAt)) (v := v)
    simp only [List.mem_map, forall_exists_index, and_imp, forall_apply_eq_imp_iff₂] at hcalls
    rw [all_greatest_le, ← all_team_le, ← hcalls]
    simp only [List.mem_cons, List.not_mem_nil, or_false, forall_eq_or_imp, forall_eq,
      Option.all_eq_true, decide_eq_true_eq, Option.mem_def, callConnected]
    tauto
  rw [replyOwed, Bool.and_eq_true, decide_eq_true_eq]
  refine and_congr_right fun _ => ?_
  cases hv : newest db id "contact" .visitor with
  | none =>
    refine iff_of_false (by simp) ?_
    rintro ⟨v, hvm, hid, hturn, -⟩
    have hnone := List.max?_eq_none_iff.mp hv
    have : v.createdAt ∈ (db.messages.filter fun m => m.conversationId = id ∧
        m.senderType = some "contact" ∧ m.turn = some .visitor).map fun m => m.createdAt :=
      List.mem_map_of_mem (List.mem_filter.mpr ⟨hvm, by simp [hid, hturn, turn_sender hturn]⟩)
    rw [hnone] at this
    simp at this
  | some t =>
    rw [Option.any_some, hall]
    constructor
    · intro h
      obtain ⟨v, hvm, hid, hturn, rfl⟩ := mem_newest hv
      exact ⟨v, hvm, hid, hturn, h⟩
    · rintro ⟨v, hvm, hid, hturn, hteam, hcalls⟩
      have hle : v.createdAt ≤ t := by
        have hself : (newest db id "contact" .visitor).all fun t' => t' ≤ t := by simp [hv]
        exact all_newest_le.mp hself v hvm hid (turn_sender hturn) hturn
      exact ⟨fun m hm hmid ht => (hteam m hm hmid ht).trans hle,
        fun cs hcs k hk => (hcalls cs hcs k hk).trans hle⟩

structure Weighed (db : Db) (now : Timestamp) (id : Id) (c : Conversation) : Prop where
  row : db.conversations.get id = some c
  notClosed : c.status ≠ some .closed
  notSpam : c.isSpam = false
  notExempt : exempt db id c = false
  quiet : lastExchange db now id c ≤ now - idleHours db c.workspaceId * hour

/-- What a verdict of `due` says. -/
structure Due (db : Db) (now : Timestamp) (id : Id) (c : Conversation) : Prop
    extends Weighed db now id c where
  answered : replyOwed db id c = false
  notHandedOff : handedOff c = false
  notRouted : routingWait db id c = false
  noCall : liveCall db now id = false
  noCallback : openCallback db id = false
  noGuidance : pendingGuidance db id = false

theorem due_of_verdict {now : Timestamp} (h : (conversationIdleCheck db now id).verdict = .due)
    : ∃ c, Due db now id c := by
  unfold conversationIdleCheck at h
  split at h
  · simp at h
  · rename_i c hrow
    by_cases hquiet : now - idleHours db c.workspaceId * hour < lastExchange db now id c
    · simp only [if_pos hquiet] at h
      split_ifs at h
    · simp only [if_neg hquiet] at h
      split_ifs at h with h₁ h₂ h₃ h₄ h₅ h₆ h₇ h₈ h₉
      refine ⟨c, ⟨hrow, h₁, ?_, ?_, not_lt.mp hquiet⟩, ?_, ?_, ?_, ?_, ?_, ?_⟩ <;>
        rwa [← Bool.not_eq_true]

end Kindred.Inactivity
