import Kindred.ChatRouting.Functions

/-! Routing runs and the ticker's pass. -/

namespace Kindred.ChatRouting
open Lib (Table)
open Lib.Tx

inductive PresenceState where
  | active | away | disconnected | offline

structure RoutingPresence where
  state : PresenceState
  lastActivityAt : Option Timestamp := none
  manualAway : Bool := false

inductive Tier where
  | active | away
  deriving DecidableEq

/-- `AWAY_ROUTING_MAX_IDLE_MS` -/
def awayRoutingMaxIdle : Timestamp := minutes 30

def routingTierOf (p : Option RoutingPresence) (now : Timestamp) : Option Tier :=
  match p with
  | none => none
  | some p =>
    if p.manualAway then none
    else match p.state with
      | .active => some .active
      | .away =>
        if p.lastActivityAt.all fun seen => now - seen < awayRoutingMaxIdle then some .away else none
      | .disconnected | .offline => none

/-- How a call to the database ends. `done`: what it writes is committed even so. -/
inductive CallEnd where
  | answers
  | fails (done : Bool)
  | throws (done : Bool)
  deriving DecidableEq

def CallEnd.lands : CallEnd → Bool
  | .answers => true
  | .fails done | .throws done => done

/-- The calls whose failure a run can see. -/
inductive Call where
  | conversation
  | seatRelease
  | settings
  | visitorDepartment
  | members
  | departments
  | departmentMembers
  | owner
  | claim (attempt : ℕ)
  | ownerMember
  | wait
  | release
  | patchDepartment
  | patch
  deriving DecidableEq

structure GlobalAdvancedRouting where
  lastAgentRoutingEnabled : Bool := true
  generalPoolEnabled : Bool := true
  ownerFallback : Bool := true

/-- `resolveMemberRows` -/
structure MemberRow where
  userId : Id
  suspended : Bool := false
  /-- `isRoutableChatRole` -/
  routableRole : Bool := true
  receivesChats : Bool := true

structure PoolKey where
  text : String
  fits : 1 ≤ text.length ∧ text.length ≤ 64 := by decide

/-- What there is to read when a run's turn comes. -/
structure Scene where
  now : Timestamp
  planAllows : Id → Option Bool := fun _ => some true
  global : GlobalAdvancedRouting := {}
  members : Id → List MemberRow
  seatPaused : Id → Id → Bool := fun _ _ => false
  departments : Id → List Id := fun _ => []
  departmentMembers : Id → List Id := fun _ => []
  departmentKey : Id → PoolKey := fun _ => { text := "department" }
  owner : Id → Option Id := fun _ => none
  presence : Id → Id → RoutingPresence
  visitorDepartment : Id → Option Id := fun _ => none
  /-- `findPreviousOperator` -/
  previousOperator : Id → Option Id := fun _ => none
  ends : Call → CallEnd := fun _ => .answers

structure ChatRoutingSettings where
  mode : AssignmentMode
  lastAgentEnabled : Bool
  generalPoolEnabled : Bool
  ownerFallback : Bool

structure Pool where
  team : List Id
  department : Option (List Id)

structure RoutingCache where
  settings : Table Id ChatRoutingSettings := .empty
  presence : Table Id (Table Id RoutingPresence) := .empty
  pools : Table (Id × Option Id) Pool := .empty

/-- None: it throws. -/
def loadRoutingSettings (s : Scene) (db : ChatDb) (workspaceId : Id) (cache : RoutingCache) :
    Option (ChatRoutingSettings × RoutingCache) :=
  match cache.settings.get workspaceId with
  | some hit => some (hit, cache)
  | none =>
    let read := fun row : Option WidgetSettings =>
      let stored := (row.map (·.assignmentMode)).getD .auto
      let settings : ChatRoutingSettings := {
        mode := if (s.planAllows workspaceId).getD true then stored else .manual
        lastAgentEnabled := (row.map (·.lastAgentRoutingEnabled)).getD true &&
          s.global.lastAgentRoutingEnabled
        generalPoolEnabled := s.global.generalPoolEnabled
        ownerFallback := s.global.ownerFallback }
      some (settings, { cache with settings := cache.settings.put workspaceId settings })
    match s.ends .settings with
    | .answers => read (db.widgetSettings.get workspaceId)
    | .fails _ => read none
    | .throws _ => none

/-- The rows a read answers; none of them where it fails, and none at all where it throws. -/
def Scene.rows {α : Type} (s : Scene) (call : Call) (rows : List α) : Option (List α) :=
  match s.ends call with
  | .answers => some rows
  | .fails _ => some []
  | .throws _ => none

def resolveChatRoutingPool (s : Scene) (workspaceId : Id) (departmentId : Option Id) :
    Option Pool :=
  match s.rows .members (s.members workspaceId) with
  | none => none
  | some rows =>
    let receiving := (rows.filter fun r => !r.suspended && r.receivesChats && r.routableRole).map
      (·.userId)
    let team := receiving.filter fun id => !s.seatPaused workspaceId id
    match departmentId with
    | none => some { team, department := none }
    | some departmentId =>
      match s.rows .departments (s.departments workspaceId) with
      | none => none
      | some departments =>
        if departmentId ∉ departments then some { team, department := none }
        else (s.rows .departmentMembers (s.departmentMembers departmentId)).map fun inDept =>
          { team, department := some (team.filter (· ∈ inDept)) }

def chatPool (s : Scene) (workspaceId : Id) (departmentId : Option Id) (cache : RoutingCache) :
    Option (Pool × RoutingCache) :=
  match cache.pools.get (workspaceId, departmentId) with
  | some hit => some (hit, cache)
  | none => (resolveChatRoutingPool s workspaceId departmentId).map fun pool =>
      (pool, { cache with pools := cache.pools.put (workspaceId, departmentId) pool })

def presenceOf (s : Scene) (workspaceId : Id) (userIds : List Id) (cache : RoutingCache) :
    Table Id RoutingPresence × RoutingCache :=
  let known := (cache.presence.get workspaceId).getD .empty
  let missing := userIds.filter fun id => (known.get id).isNone
  let merged := missing.foldl (fun m id => m.put id (s.presence workspaceId id)) known
  (merged, { cache with presence := cache.presence.put workspaceId merged })

inductive AssignmentMethod where
  | auto | roundRobin | lastAgent | ownerFallback | timeoutReassign

def AssignmentMethod.text : AssignmentMethod → String
  | .auto => "auto"
  | .roundRobin => "round_robin"
  | .lastAgent => "last_agent"
  | .ownerFallback => "owner_fallback"
  | .timeoutReassign => "timeout_reassign"

structure PickArgs where
  workspaceId : Id
  conversationId : Id
  departmentId : Option Id
  settings : ChatRoutingSettings
  pool : Pool
  ownerId : Option Id
  presence : Table Id RoutingPresence
  reassignFrom : Option Id := none
  departmentOnly : Bool

structure Search where
  candidates : List Id
  order : ClaimOrder
  poolKey : PoolKey
  method : AssignmentMethod
  ofOwner : Bool := false

namespace PickArgs
variable (a : PickArgs) (s : Scene)

def tier (user : Id) : Option Tier := routingTierOf (a.presence.get user) s.now

def excluded (user : Id) : Bool := a.reassignFrom = some user

def lastAgentPool : List Id := a.pool.department.getD a.pool.team

def lastAgentSearch : List Search :=
  if a.settings.lastAgentEnabled && a.lastAgentPool.any (a.tier s · = some .active) then
    ((s.previousOperator a.conversationId).filter fun prev =>
      prev ∈ a.lastAgentPool && !a.excluded prev && a.tier s prev = some .active).toList.map
      fun prev => { candidates := [prev], order := .given, poolKey := { text := "last_agent" }
                    method := .lastAgent }
  else []

def onlyDepartment : Bool := a.departmentOnly && a.pool.department.isSome && a.departmentId.isSome

def pools : List (PoolKey × List Id) :=
  (match a.pool.department, a.departmentId with
    | some ids, some departmentId => [(s.departmentKey departmentId, ids)]
    | _, _ => []) ++
  (if a.pool.department.isNone || (a.settings.generalPoolEnabled && !a.onlyDepartment) then
    [({ text := "team" }, a.pool.team)]
  else [])

def searchIn (key : PoolKey) (candidates : List Id) : Search :=
  if a.settings.mode = .roundRobin then
    { candidates, order := .roundRobin, poolKey := key, method := .roundRobin }
  else { candidates, order := .leastBusy, poolKey := key, method := .auto }

def poolSearches (pool : PoolKey × List Id) : List Search :=
  let ids := pool.2.filter fun id => !a.excluded id
  ([ids.filter (a.tier s · = some .active), ids.filter (a.tier s · = some .away)].filter
    (· ≠ [])).map (a.searchIn pool.1)

def teamSearches : List Search :=
  a.lastAgentSearch s ++ (a.pools s).flatMap (a.poolSearches s)

def ownerSearch : List Search :=
  (a.ownerId.filter fun owner => !a.onlyDepartment &&
    !(a.teamSearches s).any (owner ∈ ·.candidates) && !a.excluded owner &&
    (a.tier s owner).isSome).toList.map
    fun owner => { candidates := [owner], order := .given, poolKey := { text := "owner" }
                   method := .ownerFallback, ofOwner := true }

def searches : List Search := a.teamSearches s ++ a.ownerSearch s

def claimArgs (x : Search) : ClaimArgs where
  workspaceId := a.workspaceId
  conversationId := a.conversationId
  candidates := x.candidates.map some
  order := some x.order
  poolKey := some x.poolKey.text
  method := some (if a.reassignFrom.isSome then .timeoutReassign else x.method : AssignmentMethod).text
  expectedAssignee := a.reassignFrom

end PickArgs

inductive PickResult where
  | assigned (userId : Id) (method : AssignmentMethod)
  | alreadyAssigned (userId : Option Id)
  | notRoutable (userId : Option Id)
  | none (waitReason : WaitReason)
  | error
  | throws

def ownerReceives (s : Scene) (a : PickArgs) : Option Bool :=
  (s.rows .ownerMember (s.members a.workspaceId)).map fun rows =>
    (rows.find? (some ·.userId = a.ownerId)).any fun r => !r.suspended && r.receivesChats

/-- What is left of the search after `attempt` claims. -/
def pickFrom (s : Scene) (a : PickArgs) : List Search → ℕ → Bool → ChatDb → PickResult × ChatDb
  | [], _, anyOnline, db => (.none (if anyOnline then .allBusy else .nobodyOnline), db)
  | x :: rest, attempt, anyOnline, db =>
    match if x.ofOwner then ownerReceives s a else some true with
    | none => (.throws, db)
    | some false => pickFrom s a rest attempt anyOnline db
    | some true =>
      let claim := chatRouteClaim s.now (a.claimArgs x)
      match s.ends (.claim attempt) with
      | .fails done => (.error, if done then commit claim db else db)
      | .throws done => (.throws, if done then commit claim db else db)
      | .answers =>
        match claim db with
        | .error _ => (.error, db)
        | .ok (outcome, db) =>
          match outcome with
          | .assigned user => (.assigned user x.method, db)
          | .alreadyAssigned holder | .assignmentChanged holder => (.alreadyAssigned holder, db)
          | .notRoutable holder => (.notRoutable holder, db)
          | .notFound => (.notRoutable none, db)
          | .allBusy | .none => pickFrom s a rest (attempt + 1) true db

def pickArgs (s : Scene) (workspaceId conversationId : Id) (departmentId : Option Id)
    (settings : ChatRoutingSettings) (departmentOnly : Bool) (reassignFrom : Option Id)
    (cache : RoutingCache) : Option PickArgs × RoutingCache :=
  match chatPool s workspaceId departmentId cache with
  | none => (none, cache)
  | some (pool, cache) =>
    let ownerId := if settings.ownerFallback then
        (s.rows .owner (s.owner workspaceId).toList).map (·.head?)
      else some none
    match ownerId with
    | none => (none, cache)
    | some ownerId =>
      let (presence, cache) := presenceOf s workspaceId (pool.team ++ ownerId.toList) cache
      (some { workspaceId, conversationId, departmentId, settings, pool, ownerId, presence
              reassignFrom, departmentOnly }, cache)

def pickOperator (s : Scene) (a : PickArgs) (db : ChatDb) : PickResult × ChatDb :=
  pickFrom s a (a.searches s) 0 false db

inductive RoutingOutcome where
  | assignedAuto | assignedRoundRobin | assignedLastAgent | assignedOwnerFallback
  | manualQueue | noEligibleAgent | allAgentsBusy | alreadyAssigned | notRoutable | error
  deriving DecidableEq

structure RouteResult where
  outcome : RoutingOutcome
  assignedTo : Option Id := none

def assignedOutcome (method : AssignmentMethod) (mode : AssignmentMode) : RoutingOutcome :=
  match method with
  | .lastAgent => .assignedLastAgent
  | .ownerFallback => .assignedOwnerFallback
  | _ => if mode = .roundRobin then .assignedRoundRobin else .assignedAuto

/-- `patchConversationMetadata` never throws. -/
def patchMetadata (s : Scene) (call : Call) (id : Id) (patch : Conversation → Conversation)
    (db : ChatDb) : ChatDb :=
  if (s.ends call).lands then
    { db with conversations := db.conversations.update id patch }
  else db

def Conversation.notPending (c : Conversation) : Conversation := { c with routingPending := false }

/-- `announceAssignment`, for whom the AI may have held it. -/
def Conversation.withPerson (c : Conversation) : Conversation :=
  { c with routingPending := false, aiManaged := false }

/-- A failed `chat_routing_wait` is passed over. -/
def recordWait (s : Scene) (workspaceId id : Id) (reason : Option WaitReason) (fromTicker : Bool)
    (db : ChatDb) : ChatDb :=
  if (s.ends .wait).lands then chatRoutingWait s.now workspaceId id reason fromTicker db else db

def releaseIfSeatLocked (s : Scene) (workspaceId id : Id) (c : Conversation) (db : ChatDb) :
    Bool × ChatDb :=
  match c.assignedTo with
  | none => (false, db)
  | some holder =>
    if s.seatPaused workspaceId holder then
      (s.ends .seatRelease = .answers,
        if (s.ends .seatRelease).lands then compareAndAssign workspaceId id (some holder) none db
        else db)
    else (false, db)

def resolveConversationDepartment (s : Scene) (id : Id) (c : Conversation) (db : ChatDb) :
    Option (Option Id × ChatDb) :=
  match c.departmentId with
  | some departmentId => some (some departmentId, db)
  | none =>
    match s.rows .visitorDepartment (s.visitorDepartment id).toList with
    | none => none
    | some [] => some (none, db)
    | some (departmentId :: _) => some (some departmentId, patchMetadata s .patchDepartment id
        (fun c => { c with departmentId := some departmentId }) db)

def settle (s : Scene) (workspaceId id : Id) (mode : AssignmentMode) (fromTicker : Bool)
    (db : ChatDb) : PickResult → RouteResult × ChatDb
  | .assigned user method =>
    ({ outcome := assignedOutcome method mode, assignedTo := some user },
      patchMetadata s .patch id Conversation.withPerson db)
  | .alreadyAssigned holder =>
    ({ outcome := .alreadyAssigned, assignedTo := holder },
      patchMetadata s .patch id Conversation.notPending db)
  | .notRoutable holder => ({ outcome := .notRoutable, assignedTo := holder }, db)
  | .error => ({ outcome := .error }, recordWait s workspaceId id (some .allBusy) fromTicker db)
  | .none reason =>
    ({ outcome := if reason = .allBusy then .allAgentsBusy else .noEligibleAgent },
      patchMetadata s .patch id Conversation.notPending
        (recordWait s workspaceId id (some reason) fromTicker db))
  | .throws => ({ outcome := .error }, db)

/-- The run for a conversation that nobody has. -/
def routeUnassigned (s : Scene) (workspaceId id : Id) (c : Conversation) (fromTicker : Bool)
    (cache : RoutingCache) (db : ChatDb) : RouteResult × RoutingCache × ChatDb :=
  match loadRoutingSettings s db workspaceId cache with
  | none => ({ outcome := .error }, cache, db)
  | some (settings, cache) =>
    match resolveConversationDepartment s id c db with
    | none => ({ outcome := .error }, cache, db)
    | some (departmentId, db) =>
      if settings.mode = .manual then
        let db := if fromTicker then recordWait s workspaceId id none false db else db
        ({ outcome := .manualQueue }, cache, patchMetadata s .patch id Conversation.notPending db)
      else
        match pickArgs s workspaceId id departmentId settings c.departmentOnly none cache with
        | (none, cache) => ({ outcome := .error }, cache, db)
        | (some a, cache) =>
          let (picked, db) := pickOperator s a db
          let (result, db) := settle s workspaceId id settings.mode fromTicker db picked
          (result, cache, db)

def routeConversationToOperator (s : Scene) (workspaceId id : Id) (fromTicker : Bool)
    (cache : RoutingCache) (db : ChatDb) : RouteResult × RoutingCache × ChatDb :=
  match s.ends .conversation, db.conversationOf workspaceId id with
  | .answers, some c =>
    if ¬c.routable then ({ outcome := .notRoutable, assignedTo := c.assignedTo }, cache, db)
    else
      let (released, db) := releaseIfSeatLocked s workspaceId id c db
      if c.assignedTo.isSome && !released then
        ({ outcome := .alreadyAssigned, assignedTo := c.assignedTo }, cache,
          patchMetadata s .patch id Conversation.notPending db)
      else routeUnassigned s workspaceId id c fromTicker cache db
  | _, _ => ({ outcome := .error }, cache, db)

def reassignAfterFirstResponseTimeout (s : Scene) (workspaceId id from_ : Id)
    (cache : RoutingCache) (db : ChatDb) : RouteResult × RoutingCache × ChatDb :=
  match s.ends .conversation, db.conversationOf workspaceId id with
  | .answers, some c =>
    if c.assignedTo ≠ some from_ ∨ ¬c.routable then
      ({ outcome := .notRoutable, assignedTo := c.assignedTo }, cache, db)
    else
      match loadRoutingSettings s db workspaceId cache with
      | none => ({ outcome := .error }, cache, db)
      | some (settings, cache) =>
        if settings.mode = .manual then
          ({ outcome := .alreadyAssigned, assignedTo := some from_ }, cache, db)
        else
          match pickArgs s workspaceId id c.departmentId settings c.departmentOnly (some from_)
            cache with
          | (none, cache) => ({ outcome := .error }, cache, db)
          | (some a, cache) =>
            match pickOperator s a db with
            | (.none reason, db) =>
              let release := chatRoutingRelease s.now workspaceId id (some from_) (some reason)
              match s.ends .release with
              | .answers =>
                match release db with
                | .ok (true, db) =>
                  ({ outcome := if reason = .allBusy then .allAgentsBusy else .noEligibleAgent },
                    cache, db)
                | .ok (false, db) => ({ outcome := .alreadyAssigned }, cache, db)
                | .error _ => ({ outcome := .error }, cache, db)
              | .fails done | .throws done =>
                ({ outcome := .error }, cache, if done then commit release db else db)
            | (.assigned user _, db) =>
              ({ outcome := assignedOutcome .auto settings.mode, assignedTo := some user }, cache,
                patchMetadata s .patch id
                  (fun c => { c with aiManaged := false }) db)
            | (.error, db) | (.throws, db) => ({ outcome := .error }, cache, db)
            | (.alreadyAssigned holder, db) | (.notRoutable holder, db) =>
              ({ outcome := .alreadyAssigned, assignedTo := holder }, cache, db)
  | _, _ => ({ outcome := .error }, cache, db)

structure Pass where
  db : ChatDb
  cache : RoutingCache := {}
  nobodyOnline : List Id := []

abbrev Turn := DueRow × Scene

def Pass.turn (p : Pass) (t : Turn) : Pass :=
  let (row, s) := t
  match row.kind with
  | .prechat =>
    let (_, cache, db) :=
      routeConversationToOperator s row.workspaceId row.conversationId false p.cache p.db
    { p with cache, db }
  | .waiting =>
    if row.workspaceId ∈ p.nobodyOnline then p
    else
      let (result, cache, db) :=
        routeConversationToOperator s row.workspaceId row.conversationId true p.cache p.db
      { db, cache, nobodyOnline :=
          if result.outcome = .noEligibleAgent then row.workspaceId :: p.nobodyOnline
          else p.nobodyOnline }
  | .timeout =>
    match row.assignee with
    | none => p
    | some from_ =>
      let (_, cache, db) := reassignAfterFirstResponseTimeout s row.workspaceId
        row.conversationId from_ p.cache p.db
      { p with cache, db }

/-- `BATCH` -/
def batch : Int := 100

/-- What `chat_routing_due` hands to the pass, and the pass before its first turn. -/
def dueRows (now : Timestamp) (locked : List Id) (due : CallEnd) (db : ChatDb) :
    List DueRow × Pass :=
  let (rows, handed) := chatRoutingDue now (some batch) locked db
  (if due = .answers then rows else [], { db := if due.lands then handed else db })

/-- A pass. `scenes`: what there is to read at each row's turn. -/
def runChatRoutingOnce (now : Timestamp) (locked : List Id) (due : CallEnd)
    (scenes : ℕ → Scene) (db : ChatDb) : Pass :=
  let (rows, start) := dueRows now locked due db
  Lib.run Pass.turn start (rows.zipIdx.map fun r => (r.1, scenes r.2))

end Kindred.ChatRouting
