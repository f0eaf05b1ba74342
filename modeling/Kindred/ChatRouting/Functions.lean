import Kindred.ChatRouting.Schema

/-! The functions of chat routing. -/

namespace Kindred.ChatRouting

open Lib.Tx

inductive RoutingError where
  | unknownOrder | invalidMethod | invalidReason
  | poolKey
  deriving DecidableEq

abbrev RoutingTx := Tx ChatDb RoutingError

def seconds (n : ℕ) : Timestamp := n * 1000000

def minutes (n : ℕ) : Timestamp := seconds (n * 60)

def hours (n : ℕ) : Timestamp := minutes (n * 60)

inductive ClaimOrder where
  | leastBusy | roundRobin | given
  deriving DecidableEq

structure ClaimArgs where
  workspaceId : Id
  conversationId : Id
  candidates : List (Option Id)
  order : Option ClaimOrder
  poolKey : Option String
  method : Option String
  expectedAssignee : Option Id := none
  deriving DecidableEq

inductive ClaimOutcome where
  | assigned (pickedUserId : Id)
  | alreadyAssigned (holder : Option Id)
  | assignmentChanged (holder : Option Id)
  | allBusy
  | none
  | notRoutable (holder : Option Id)
  | notFound
  deriving DecidableEq

def rowAnswer (p : ClaimArgs) : Option Conversation → Option ClaimOutcome
  | .none => some .notFound
  | some c =>
    if ¬c.routable then some (.notRoutable c.assignedTo)
    else if p.expectedAssignee = .none ∧ c.assignedTo ≠ .none then
      some (.alreadyAssigned c.assignedTo)
    else if p.expectedAssignee ≠ .none ∧ c.assignedTo ≠ p.expectedAssignee then
      some (.assignmentChanged c.assignedTo)
    else .none

def ClaimArgs.places (p : ClaimArgs) : List (Id × ℕ) :=
  p.candidates.zipIdx.filterMap fun r => r.1.bind fun user =>
    if p.candidates.idxOf (some user) = r.2 then some (user, r.2) else .none

structure Eligible where
  userId : Id
  ord : ℕ
  cap : ℕ
  openLoad : ℕ
  lastAssignedAt : Option Timestamp
  deriving DecidableEq

def ClaimArgs.offers (p : ClaimArgs) (skip : List Id) (user : Id) (m : Member) : Bool :=
  m.receiving && user ∉ skip && some user ≠ p.expectedAssignee

def eligible (db : ChatDb) (p : ClaimArgs) (skip : List Id) : List Eligible :=
  p.places.filterMap fun r =>
    ((db.members.get (p.workspaceId, r.1)).filter (p.offers skip r.1)).map fun m =>
      { userId := r.1, ord := r.2, cap := db.cap p.workspaceId m
        openLoad := db.openLoad p.workspaceId r.1
        lastAssignedAt := db.lastAssigned.get (p.workspaceId, r.1) }

/-- `ORDER BY` of the pick: least busy, then given one least recently; round robin,
from past the cursor. -/
def Eligible.compare (order : ClaimOrder) (cursor : Option Id) (a b : Eligible) : Ordering :=
  let past := fun e : Eligible => cursor.any fun last => e.userId ≤ last
  let first := match order with
    | .leastBusy =>
      (Ord.compare a.openLoad b.openLoad).then (Ord.compare a.lastAssignedAt b.lastAssignedAt)
    | .roundRobin => (Ord.compare (past a) (past b)).then (Ord.compare a.userId b.userId)
    | .given => .eq
  first.then ((Ord.compare a.ord b.ord).then (Ord.compare a.userId b.userId))

/-- The first of those under their capacity. -/
def pick (order : ClaimOrder) (cursor : Option Id) (es : List Eligible) : Option Id :=
  (((es.filter fun e => e.openLoad < e.cap).insertionSort fun a b =>
    (a.compare order cursor b).isLE).head?).map (·.userId)

def ChatDb.cursorOf (db : ChatDb) (p : ClaimArgs) : Option Id :=
  p.poolKey.bind fun key => db.cursors.get (p.workspaceId, key)

def joinSkip (skip : List Id) (user : Id) : List Id :=
  if user ∈ skip then skip else (skip ++ [user]).drop (skip.length - 49)

/-- What the claim that picks `user` writes. -/
def claimed (now : Timestamp) (p : ClaimArgs) (order : ClaimOrder) (user : Id) (db : ChatDb) :
    ChatDb :=
  let timeout := db.responseTimeout p.workspaceId
  let dueAt := if 0 < timeout then some (now + minutes timeout) else none
  let rotated := match order, p.poolKey with
    | .roundRobin, some key => db.cursors.put (p.workspaceId, key) user
    | _, _ => db.cursors
  let db := { db.assign p.conversationId (some user) with
    lastAssigned := db.lastAssigned.put (p.workspaceId, user) now, cursors := rotated }
  db.upsertState p.conversationId
    { workspaceId := p.workspaceId, assignedTo := some user, assignedAt := some now
      assignMethod := p.method, timeoutDueAt := dueAt
      skipUserIds := p.expectedAssignee.toList }
    fun s => { s with
      assignedTo := some user, assignedAt := some now, assignMethod := p.method
      timeoutDueAt := dueAt
      skipUserIds := (p.expectedAssignee.map (joinSkip s.skipUserIds)).getD s.skipUserIds
      waitingSince := none, waitReason := none, waitingRetryAt := none, waitingActiveAt := none
      prechatDeadline := none }

/-- The checks of `p_order` and `p_method`. -/
def ClaimArgs.checked (p : ClaimArgs) : Except RoutingError ClaimOrder :=
  match p.order with
  | .none => .error .unknownOrder
  | some order =>
    if p.method.any fun m => 1 ≤ m.length ∧ m.length ≤ 32 then .ok order
    else .error .invalidMethod

def ClaimArgs.keyFits (p : ClaimArgs) (order : ClaimOrder) : Bool :=
  order ≠ .roundRobin || p.poolKey.any fun key => 1 ≤ key.length ∧ key.length ≤ 64

def claimEnd (now : Timestamp) (p : ClaimArgs) (order : ClaimOrder) (es : List Eligible)
    (picked : Option Id) : RoutingTx ClaimOutcome :=
  match picked with
  | .none => return if es.isEmpty then .none else .allBusy
  | some user => do
    require (p.keyFits order) .poolKey
    modify (claimed now p order user)
    return .assigned user

def chatRouteClaim (now : Timestamp) (p : ClaimArgs) : RoutingTx ClaimOutcome := do
  let order ← p.checked
  let db ← get
  match rowAnswer p (db.conversationOf p.workspaceId p.conversationId) with
  | some outcome => return outcome
  | .none =>
    let es := eligible db p (db.skipUserIds p.conversationId)
    claimEnd now p order es (pick order (db.cursorOf p) es)

def freshWait (now : Timestamp) (workspaceId : Id) (reason : WaitReason) : RoutingState :=
  { workspaceId, waitingSince := some now, waitReason := some reason
    waitingRetryAt := some (now + seconds 25), waitingActiveAt := some now }

def RoutingState.wait (now : Timestamp) (reason : WaitReason) (fromTicker : Bool)
    (s : RoutingState) : RoutingState :=
  let retryAt := now + seconds 25
  let retry := fromTicker && s.waitingSince.isSome
  { s with
    waitingSince := s.waitingSince.or (some now), waitReason := some reason
    waitingRetryAt := if retry then some ((s.waitingRetryAt.map (max · retryAt)).getD retryAt)
      else some retryAt
    waitingActiveAt := if retry then s.waitingActiveAt.or s.waitingSince else some now
    prechatDeadline := none }

def RoutingState.stopWaiting (s : RoutingState) : RoutingState :=
  { s with waitingSince := none, waitReason := none, waitingRetryAt := none
           waitingActiveAt := none }

def chatRoutingWait (now : Timestamp) (workspaceId conversationId : Id)
    (reason : Option WaitReason) (fromTicker : Bool) (db : ChatDb) : ChatDb :=
  match reason with
  | none => db.updateState conversationId fun s =>
      if s.workspaceId = workspaceId ∧ s.waitingSince.isSome then s.stopWaiting else s
  | some reason =>
    match db.conversationOf workspaceId conversationId with
    | none => db
    | some c => db.upsertState conversationId (freshWait now c.workspaceId reason)
        (·.wait now reason fromTicker)

def RoutingState.release (now : Timestamp) (holder : Id) (reason : WaitReason)
    (s : RoutingState) : RoutingState :=
  { s with
    assignedTo := none, assignedAt := none, assignMethod := none, timeoutDueAt := none
    skipUserIds := joinSkip s.skipUserIds holder
    waitingSince := s.waitingSince.or (some now), waitReason := some reason
    waitingRetryAt := some (now + seconds 25), waitingActiveAt := some now }

def chatRoutingRelease (now : Timestamp) (workspaceId conversationId : Id) (from_ : Option Id)
    (reason : Option WaitReason) : RoutingTx Bool :=
  match reason with
  | none => throw .invalidReason
  | some reason => do
    let db ← get
    match db.conversationOf workspaceId conversationId, from_ with
    | some c, some holder =>
      if c.assignedTo = some holder ∧ c.live then
        set ((db.assign conversationId none).upsertState conversationId
          { freshWait now workspaceId reason with skipUserIds := [holder] }
          (·.release now holder reason))
        return true
      else return false
    | _, _ => return false

def chatRoutingDeferPrechat (workspaceId conversationId : Id) (deadline : Timestamp)
    (db : ChatDb) : ChatDb :=
  match db.conversationOf workspaceId conversationId with
  | none => db
  | some c => db.upsertState conversationId
      { workspaceId := c.workspaceId, prechatDeadline := some deadline }
      fun s => { s with
        prechatDeadline := some ((s.prechatDeadline.map (min · deadline)).getD deadline) }

/-- `missed`: the conversations given to the member after the statement's snapshot. -/
def chatRoutingReleaseMember (workspaceId userId : Id) (missed : List Id) (db : ChatDb) : ChatDb :=
  { db with conversations := db.conversations.mapKeyed fun id c =>
      if c.workspaceId = workspaceId ∧ c.assignedTo = some userId ∧ c.live ∧ id ∉ missed then
        { c with assignedTo := none }
      else c }

def chatRoutingSkip (workspaceId conversationId : Id) (userId : Option Id) (db : ChatDb) :
    ChatDb :=
  match userId with
  | none => db.updateState conversationId fun s =>
      if s.workspaceId = workspaceId then { s with skipUserIds := [] } else s
  | some user =>
    match db.conversationOf workspaceId conversationId with
    | none => db
    | some c => db.upsertState conversationId
        { workspaceId := c.workspaceId, skipUserIds := [user] }
        fun s => { s with skipUserIds := joinSkip s.skipUserIds user }

/-- The conversation moves only while it is still with `from_`; `claim_conversation`
takes it from nobody. -/
def compareAndAssign (workspaceId conversationId : Id) (from_ user : Option Id) (db : ChatDb) :
    ChatDb :=
  match db.conversationOf workspaceId conversationId with
  | none => db
  | some c => if c.assignedTo = from_ then db.assign conversationId user else db

inductive DueKind where
  | prechat | waiting | timeout
  deriving DecidableEq

structure DueRow where
  conversationId : Id
  workspaceId : Id
  kind : DueKind
  assignee : Option Id := none
  deriving DecidableEq

def orderBy (key : Id × RoutingState → Int × Int) (rows : List (Id × RoutingState)) :
    List (Id × RoutingState) :=
  rows.insertionSort fun a b =>
    ((compare (key a).1 (key b).1).then (compare (key a).2 (key b).2)).isLE

/-- `ORDER BY key LIMIT n FOR UPDATE SKIP LOCKED` -/
def firstDue (limit : ℕ) (locked : List Id) (key : RoutingState → Timestamp × Timestamp)
    (rows : List (Id × RoutingState)) : List Id :=
  ((orderBy (fun r => key r.2) (rows.filter fun r => r.1 ∉ locked)).take limit).map (·.1)

def ChatDb.dueBy (db : ChatDb) (at_ : RoutingState → Option Timestamp) (now : Timestamp)
    (only : Conversation → Bool) : List (Id × RoutingState) :=
  db.states.rows.filter fun r =>
    (at_ r.2).any (· ≤ now) && (db.conversations.get r.1).any only

def ChatDb.updateStates (db : ChatDb) (f : Id → RoutingState → RoutingState) : ChatDb :=
  { db with states := db.states.mapKeyed f }

def spendPrechat (now : Timestamp) (limit : ℕ) (locked : List Id) (db : ChatDb) :
    List DueRow × ChatDb :=
  let due := firstDue limit locked (fun s => (s.prechatDeadline.getD 0, 0))
    (db.dueBy (·.prechatDeadline) now fun _ => true)
  let pending := due.filterMap fun id => (db.conversations.get id).bind fun c =>
    if c.assignedTo = none ∧ c.routable ∧ c.routingPending then
      (db.states.get id).map fun s =>
        { conversationId := id, workspaceId := s.workspaceId, kind := .prechat }
    else none
  (pending, db.updateStates fun id s => if id ∈ due then { s with prechatDeadline := none } else s)

def forgetWaits (now : Timestamp) (db : ChatDb) : ChatDb :=
  db.updateStates fun id s =>
    match db.conversations.get id, s.waitingSince with
    | some c, some since =>
      if c.assignedTo ≠ none ∨ ¬c.routable ∨ s.waitingActiveAt.getD since < now - hours 24 then
        s.stopWaiting
      else s
    | _, _ => s

def handWaiting (now : Timestamp) (limit : ℕ) (locked : List Id) (db : ChatDb) :
    List DueRow × ChatDb :=
  let retryAt := fun s : RoutingState => s.waitingRetryAt.or s.waitingSince
  let due := firstDue limit locked (fun s => ((retryAt s).getD 0, s.waitingSince.getD 0))
    ((db.dueBy retryAt now fun c => c.assignedTo = none ∧ c.routable ∧ ¬c.aiManaged).filter
      fun r => r.2.waitingSince.isSome)
  let later := fun s : RoutingState =>
    if (s.waitingActiveAt.or s.waitingSince).any (now - hours 1 < ·) then seconds 25 else minutes 2
  let handed := orderBy (fun r => (r.2.waitingSince.getD 0, r.1))
    (db.states.rows.filter fun r => r.1 ∈ due)
  (handed.map fun r => { conversationId := r.1, workspaceId := r.2.workspaceId, kind := .waiting },
    db.updateStates fun id s =>
      if id ∈ due then { s with waitingRetryAt := some (now + later s) } else s)

def ChatDb.answered (db : ChatDb) (conversationId : Id) (s : RoutingState) : Bool :=
  db.messages.any fun m =>
    m.conversationId = conversationId && s.assignedTo.isSome && m.senderId = s.assignedTo &&
      s.assignedAt.any (· ≤ m.createdAt)

def forgetTimeouts (now : Timestamp) (db : ChatDb) : ChatDb :=
  db.updateStates fun id s =>
    match db.conversations.get id, s.timeoutDueAt with
    | some c, some dueAt =>
      if dueAt ≤ now ∧ (c.assignedTo ≠ s.assignedTo ∨ ¬c.routable ∨
          ¬s.assignedAt.any (now - hours 24 ≤ ·) ∨ db.responseTimeout s.workspaceId = 0 ∨
          db.answered id s) then
        { s with timeoutDueAt := none }
      else s
    | _, _ => s

def handTimeouts (now : Timestamp) (limit : ℕ) (locked : List Id) (db : ChatDb) :
    List DueRow × ChatDb :=
  let due := firstDue limit locked (fun s => (s.timeoutDueAt.getD 0, 0))
    (db.dueBy (·.timeoutDueAt) now fun _ => true)
  ((db.states.rows.filter fun r => r.1 ∈ due).map fun r =>
    { conversationId := r.1, workspaceId := r.2.workspaceId, kind := .timeout
      assignee := r.2.assignedTo },
    db.updateStates fun id s =>
      if id ∈ due then { s with timeoutDueAt := some (now + minutes 2) } else s)

/-- `locked`: the rows that other transactions hold. -/
def chatRoutingDue (now : Timestamp) (limit : Option Int) (locked : List Id) (db : ChatDb) :
    List DueRow × ChatDb :=
  let limit := (min (max (limit.getD 100) 1) 1000).toNat
  let (prechat, db) := spendPrechat now limit locked db
  let (waiting, db) := handWaiting now limit locked (forgetWaits now db)
  let (timeouts, db) := handTimeouts now limit locked (forgetTimeouts now db)
  (prechat ++ waiting ++ timeouts, db)

end Kindred.ChatRouting
