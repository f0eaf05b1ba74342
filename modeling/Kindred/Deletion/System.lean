import Kindred.Deletion.Worker

/-! Deletion workers and writers side by side, one question of one of them at a time. -/

namespace Kindred.Deletion
open Lib (Table Dialogue run)

structure Worker where
  job : ClaimedJob
  told : Option (List String) := none
  task : Dialogue Ask Reply (Except Thrown Unit)

def heard (told : Option (List String)) : (q : Ask) → Reply q → Option (List String)
  | .scopes _, .ok names => some names
  | _, _ => told

structure Writer where
  ownerKind : OwnerKind
  ownerId : Id
  lease : Option (Id × ℕ) := none
  leaseLost : Bool := false
  task : Dialogue WriterAsk WriterReply (Except Thrown (Option Bool))

/-- A worker that empties the storage of a user, `purgeUser`. -/
structure UserWalk where
  userId : Id
  cleared : Bool := false
  ended : Bool := false

structure Write where
  lease : Id
  ownerKind : OwnerKind
  ownerId : Id
  failed : Bool := false

structure System where
  db : Db := {}
  workers : Table ℕ Worker := .empty
  userWalks : Table ℕ UserWalk := .empty
  writers : Table ℕ Writer := .empty
  writes : Table ℕ Write := .empty
  nextWrite : ℕ := 0

inductive Delivery where
  | answered | refused | lost
  deriving DecidableEq

structure World where
  delivery : Delivery := .answered
  storage : (q : Query) → Answer q
  quiesce : Except Thrown Bool := .ok true
  vendors : Except Thrown (List String) := .ok []
  isAdmin : Bool := true
  purge : Option String := none
  cdn : Except Thrown Unit := .ok ()
  clock : Int := 0

def reconciliationGraceSeconds : ℕ := 600

def connectionLost : String := "connection lost"

def poolScopeName (providerName : String) : String := "replica:" ++ providerName

def scopeNames (vendors : List String) : List String :=
  ["attachment", "privacy_export", "livekit_recording"] ++ vendors.map poolScopeName

theorem ne_empty_of_mem_scopeNames {vendors : List String} {name : String}
    (h : name ∈ scopeNames vendors) : name ≠ "" := by
  simp only [scopeNames, List.cons_append, List.nil_append, List.mem_cons, List.mem_map] at h
  rcases h with rfl | rfl | rfl | ⟨vendor, -, rfl⟩
  · decide
  · decide
  · decide
  · simp [poolScopeName]

def answerAsk (db : Db) (w : World) : (q : Ask) → Db × Reply q
  | .activeWriteLeases workspaceId =>
    (db, match w.delivery with
      | .answered => hasActiveOwnerWriteLeases .workspace workspaceId reconciliationGraceSeconds db
      | .refused | .lost => true)
  | .quiesce _ => (db, w.quiesce)
  | .scopes _ => (db, w.vendors.map scopeNames)
  | .storage q => (db, w.storage q)
  | .renewLease id token =>
    let (db', ok) := renewWorkspaceDeletionLease id token leaseSeconds db
    match w.delivery with
    | .answered => (db', .ok ok)
    | .refused => (db, .ok false)
    | .lost => (db', .ok false)
  | .persist id token patch =>
    let (db', hit) := updateFenced id token patch db
    match w.delivery with
    | .answered => (db', if hit then .saved else .refused .leaseFenced)
    | .refused => (db, .refused (.other connectionLost))
    | .lost => (db', if hit then .lost (.other connectionLost) else .refused (.other connectionLost))
  | .cdn => (db, w.cdn)
  | .deleteWorkspace _ workspaceId =>
    let (db', error) := adminDeleteWorkspace w.isAdmin w.purge workspaceId db
    match w.delivery with
    | .answered => (db', error)
    | .refused => (db, some connectionLost)
    | .lost => (db', some connectionLost)
  | .workspaceExists workspaceId =>
    (db, match w.delivery with
      | .answered => some (db.workspaces.get workspaceId).isSome
      | .refused | .lost => none)
  | .clock => (db, w.clock)

structure WriterWorld where
  delivery : Delivery := .answered
  prepared : Except Thrown Bool := .ok true
  response : Except Thrown Bool := .ok true
  purpose : String := "upload"
  leaseSeconds : ℕ := 120
  waited : ℕ := 0

def answerWriter (s : System) (wr : Writer) (w : WriterWorld) :
    (q : WriterAsk) → System × Writer × WriterReply q
  | .acquire =>
    let (db, granted) :=
      acquireOwnerWriteLease wr.ownerKind wr.ownerId w.purpose w.leaseSeconds w.waited s.db
    match w.delivery with
    | .answered => ({ s with db }, { wr with lease := granted }, granted.isSome)
    | .refused => (s, wr, false)
    | .lost => ({ s with db }, wr, false)
  | .prepare => (s, wr, w.prepared)
  | .put =>
    match wr.lease with
    | none => (s, wr, s.nextWrite)
    | some (lease, _) =>
      let write : Write := { lease, ownerKind := wr.ownerKind, ownerId := wr.ownerId }
      ({ s with writes := s.writes.put s.nextWrite write, nextWrite := s.nextWrite + 1 }, wr,
        s.nextWrite)
  | .response write =>
    match w.response with
    | .ok taken => ({ s with writes := s.writes.erase write }, wr, .ok taken)
    | .error e =>
      ({ s with writes := s.writes.update write fun x => { x with failed := true } }, wr, .error e)
  | .renew =>
    match wr.lease, w.delivery with
    | some (lease, token), .answered =>
      let (db, ok) := renewOwnerWriteLease lease token w.leaseSeconds s.db
      ({ s with db }, wr, ok)
    | some (lease, token), .lost =>
      ({ s with db := (renewOwnerWriteLease lease token w.leaseSeconds s.db).1 }, wr, false)
    | _, _ => (s, wr, false)
  | .leaseLost => (s, wr, wr.leaseLost)
  | .release =>
    match wr.lease, w.delivery with
    | some (lease, token), .answered | some (lease, token), .lost =>
      ({ s with db := releaseOwnerWriteLease lease token s.db }, wr, ())
    | _, _ => (s, wr, ())

def heartbeatOf (s : System) (wr : Writer) (delivery : Delivery) (leaseSeconds : ℕ) :
    System × Writer :=
  let (s, wr, held) := answerWriter s wr
    { delivery, leaseSeconds } .renew
  (s, if held then wr else { wr with leaseLost := true })

inductive Act where
  | elapse (ms : ℕ)
  | createWorkspace
  | createProfile
  | enqueueWorkspaceDeletion (workspaceId actor : Id)
  | retryWorkspaceDeletion (id : Id)
  | enqueueUserDeletion (userId actor : Id)
  | endUserDeletion (id : Id)
  | claim (k : ℕ) (workerId : String) (skipped : List Id) (delivery : Delivery)
  | work (k : ℕ) (w : World)
  | stopWorker (k : ℕ)
  | claimUser (k : ℕ) (id : Id)
  | checkUser (k : ℕ) (delivery : Delivery)
  | listUser (k : ℕ)
  | stopUser (k : ℕ)
  | beginWrite (k : ℕ) (ownerKind : OwnerKind) (ownerId : Id) (kind : WriterKind)
  | write (k : ℕ) (w : WriterWorld)
  | heartbeat (k : ℕ) (delivery : Delivery) (leaseSeconds : ℕ)
  | stopWriter (k : ℕ)
  | land (write : ℕ)

def workOnce (s : System) (k : ℕ) (worker : Worker) (w : World) : System :=
  match worker.task with
  | .done _ => { s with workers := s.workers.erase k }
  | .ask q next =>
    let (db, reply) := answerAsk s.db w q
    let worker := { worker with told := heard worker.told q reply, task := next reply }
    { s with db, workers := s.workers.put k worker }

def writeOnce (s : System) (k : ℕ) (wr : Writer) (w : WriterWorld) : System :=
  match wr.task with
  | .done _ => { s with writers := s.writers.erase k }
  | .ask q next =>
    let (s, wr, reply) := answerWriter s wr w q
    { s with writers := s.writers.put k { wr with task := next reply } }

def endUserDeletion (s : System) (id : Id) : System :=
  match s.db.userJobs.get id with
  | none => s
  | some j => { s with
      db.userJobs := s.db.userJobs.put id { j with live := false }
      userWalks := s.userWalks.mapValues fun walk =>
        if walk.userId = j.userId then { walk with ended := true } else walk }

def checkUser (s : System) (k : ℕ) (walk : UserWalk) (delivery : Delivery) : System :=
  if delivery = .answered ∧
      !hasActiveOwnerWriteLeases .user walk.userId reconciliationGraceSeconds s.db then
    { s with userWalks := s.userWalks.put k { walk with cleared := true } }
  else { s with userWalks := s.userWalks.erase k }

def act (s : System) : Act → System
  | .elapse ms => { s with db.now := s.db.now + ms }
  | .createWorkspace =>
    { s with
      db.workspaces := s.db.workspaces.put s.db.nextId .active
      db.nextId := s.db.nextId + 1 }
  | .createProfile =>
    { s with db.profiles := s.db.nextId :: s.db.profiles, db.nextId := s.db.nextId + 1 }
  | .enqueueWorkspaceDeletion workspaceId actor =>
    { s with db := enqueueWorkspaceDeletion workspaceId actor s.db }
  | .retryWorkspaceDeletion id => { s with db := retryWorkspaceDeletionJob id s.db }
  | .enqueueUserDeletion userId actor => { s with db := enqueueUserDeletion userId actor s.db }
  | .endUserDeletion id => endUserDeletion s id
  | .claim k workerId skipped delivery =>
    if (s.workers.get k).isSome ∨ delivery = .refused then s
    else
      match claimWorkspaceDeletionJob workerId leaseSeconds skipped s.db with
      | (db, none) => { s with db }
      | (db, some (id, row)) =>
        if delivery = .lost then { s with db }
        else
          let job : ClaimedJob :=
            ⟨id, s.db.nextToken, { row with storageScopes := reloaded row.storageScopes }⟩
          { s with db, workers := s.workers.put k { job, task := (workOn job).run } }
  | .work k w =>
    match s.workers.get k with
    | none => s
    | some worker => workOnce s k worker w
  | .stopWorker k => { s with workers := s.workers.erase k }
  | .claimUser k id =>
    match s.userWalks.get k, s.db.userJobs.get id with
    | none, some j =>
      if j.live then { s with userWalks := s.userWalks.put k { userId := j.userId } } else s
    | _, _ => s
  | .checkUser k delivery =>
    match s.userWalks.get k with
    | none => s
    | some walk => checkUser s k walk delivery
  | .listUser _ => s
  | .stopUser k => { s with userWalks := s.userWalks.erase k }
  | .beginWrite k ownerKind ownerId kind =>
    if (s.writers.get k).isSome then s
    else { s with writers := s.writers.put k { ownerKind, ownerId, task := kind.program.run } }
  | .write k w =>
    match s.writers.get k with
    | none => s
    | some wr => writeOnce s k wr w
  | .heartbeat k delivery leaseSeconds =>
    match s.writers.get k with
    | none => s
    | some wr =>
      let (s, wr) := heartbeatOf s wr delivery leaseSeconds
      { s with writers := s.writers.put k wr }
  | .stopWriter k => { s with writers := s.writers.erase k }
  | .land write => { s with writes := s.writes.erase write }

def systemAfter (as : List Act) : System := run act {} as

end Kindred.Deletion
