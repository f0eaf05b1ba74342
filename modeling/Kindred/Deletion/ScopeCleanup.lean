import Kindred.Lib.Dialogue
import Kindred.Database
import Mathlib.Data.List.Sort

/-!
The walk that empties an owner's storage: every physical scope is listed and
deleted page by page, then listed once more from the start. One tick does one
unit of work and what it has reached is saved with the owner's job.
-/

namespace Kindred.Deletion
open Lib (Table Dialogue)

structure StorageConfig where
  provider : String
  bucket : Option String := none
  storageZone : Option String := none
  endpoint : Option String := none
  s3Region : Option String := none
  localPath : Option String := none

/-- A character in `JSON.stringify` of a string. -/
def jsonChar (c : Char) : String :=
  if c = '"' then "\\\"" else if c = '\\' then "\\\\"
  else if c = '\n' then "\\n" else if c = '\r' then "\\r" else if c = '\t' then "\\t"
  else if c.toNat = 8 then "\\b" else if c.toNat = 12 then "\\f"
  else if c.toNat < 32 then "\\u00" ++ (if c.toNat < 16 then "0" else "1") ++
    String.singleton (Nat.digitChar (c.toNat % 16))
  else String.singleton c

def jsonText : Option String → String
  | none => "null"
  | some s => "\"" ++ String.join (s.toList.map jsonChar) ++ "\""

def storageConfigFingerprint (cfg : StorageConfig) : String :=
  "[" ++ ",".intercalate ([some cfg.provider, cfg.bucket, cfg.storageZone, cfg.endpoint,
    cfg.s3Region, cfg.localPath].map jsonText) ++ "]"

inductive ScopeProgressStatus where
  | pending | inProgress | done | skippedNotConfigured | skippedUnreachable | failed
  deriving DecidableEq

structure ScopeProgress where
  status : ScopeProgressStatus
  cursor : Option String := none
  objectsFound : ℕ := 0
  objectsDeleted : ℕ := 0
  error : Option String := none
  fingerprint : Option String := none
  dedupOf : Option String := none
  verified : Bool := false
  failures : ℕ := 0

abbrev ScopeCleanupState := Table String ScopeProgress

/-- The order of the keys of a `jsonb` object. -/
def jsonbLe (a b : String) : Bool :=
  a.utf8ByteSize < b.utf8ByteSize || a.utf8ByteSize = b.utf8ByteSize && a ≤ b

def reloaded (state : ScopeCleanupState) : ScopeCleanupState where
  rows := state.rows.insertionSort fun a b => jsonbLe a.1 b.1
  keys_nodup := by
    have hperm := (List.perm_insertionSort (fun a b => jsonbLe a.1 b.1) state.rows).map Prod.fst
    exact hperm.nodup_iff.mpr state.keys_nodup

@[simp] theorem get_reloaded (state : ScopeCleanupState) (scope : String) :
    (reloaded state).get scope = state.get scope := by
  ext progress
  rw [Table.get_eq_some_iff_mem, Table.get_eq_some_iff_mem]
  exact (List.perm_insertionSort _ _).mem_iff

def truthy (s : Option String) : Bool := s.getD "" ≠ ""

inductive Resolution where
  | configured (config : StorageConfig)
  | unconfigured (reason : String)

structure ListResult where
  success : Bool
  keys : Option (List String) := none
  nextCursor : Option String := none
  error : Option String := none
  httpStatus : Option ℕ := none

structure StorageResult where
  success : Bool
  error : Option String := none
  httpStatus : Option ℕ := none

inductive Thrown where
  | leaseFenced
  | other (message : String)

def Thrown.message : Thrown → String
  | .leaseFenced => "lease no longer held (fenced out)"
  | .other message => message

inductive Saved where
  | saved
  | refused (why : Thrown)
  | lost (why : Thrown)

inductive Query where
  /-- `scope.resolve()` -/
  | resolve (scope : String)
  | list (config : StorageConfig) (prefixKey : String) (cursor : Option String)
  | delete (config : StorageConfig) (key : String)
  | heartbeat
  | persist (state : ScopeCleanupState)
  /-- `Date.now()` -/
  | clock

abbrev Answer : Query → Type
  | .resolve _ => Except Thrown Resolution
  | .list .. => Except Thrown ListResult
  | .delete .. => Except Thrown StorageResult
  | .heartbeat => Except Thrown Bool
  | .persist _ => Saved
  | .clock => Int

abbrev Prog := ExceptT Thrown (Dialogue Query Answer)

def resolve (scope : String) : Prog (Except Thrown Resolution) :=
  ExceptT.lift (Dialogue.query (A := Answer) (Query.resolve scope))

def listWithConfig (config : StorageConfig) (prefixKey : String) (cursor : Option String) :
    Prog ListResult :=
  ExceptT.mk (Dialogue.query (A := Answer) (Query.list config prefixKey cursor))

def deleteWithConfig (config : StorageConfig) (key : String) : Prog StorageResult :=
  ExceptT.mk (Dialogue.query (A := Answer) (Query.delete config key))

def heartbeat : Prog Bool := ExceptT.mk (Dialogue.query (A := Answer) Query.heartbeat)

def dateNow : Prog Int := ExceptT.lift (Dialogue.query (A := Answer) Query.clock)

def persist (state : ScopeCleanupState) : Prog Unit :=
  ExceptT.mk (Dialogue.ask (A := Answer) (Query.persist state) fun
    | .saved => .done (.ok ())
    | .refused why | .lost why => .done (.error why))

def maxScopeFailures : ℕ := 3

structure ScopeCleanupContext where
  scopes : List String
  prefixKey : String
  maxDeleteAttemptsPerKey : ℕ
  heartbeatIntervalMs : Int

inductive Outcome where
  | advance
  | progress
  | error (message : String)

def findDoneScopeWithFingerprint (state : ScopeCleanupState) (fingerprint : String) :
    Option String :=
  (state.rows.find? fun r =>
    r.2.status = .done && r.2.fingerprint = some fingerprint && !truthy r.2.dedupOf).map (·.1)

theorem find_done {state : ScopeCleanupState} {fingerprint target : String}
    (h : findDoneScopeWithFingerprint state fingerprint = some target) :
    ∃ q, state.get target = some q ∧ q.status = .done ∧ q.fingerprint = some fingerprint ∧
      ¬truthy q.dedupOf := by
  obtain ⟨⟨_, q⟩, hfind, rfl⟩ := Option.map_eq_some_iff.mp h
  have hq := List.find?_some hfind
  simp only [Bool.and_eq_true, decide_eq_true_eq, Bool.not_eq_true'] at hq
  exact ⟨q, Table.get_eq_some_iff_mem.mpr (List.mem_of_find?_eq_some hfind), hq.1.1, hq.1.2,
    by simp [hq.2]⟩

structure Deleted where
  deleted : ℕ
  failedKey : Option String := none
  failedError : Option String := none
  failedStatus : Option ℕ := none
  fencedOut : Bool := false

def deleteKey (config : StorageConfig) (key : String) : ℕ → StorageResult → Prog StorageResult
  | 0, last => pure last
  | attempts + 1, _ => do
    let del ← deleteWithConfig config key
    if del.success then pure del else deleteKey config key attempts del

/-- Renew the lease when it is time: when that was done last, `none` when the lease is lost. -/
def keepLease (ctx : ScopeCleanupContext) (lastHeartbeat : Int) : Prog (Option Int) := do
  let now ← dateNow
  if ctx.heartbeatIntervalMs < now - lastHeartbeat then
    let stillHeld ← heartbeat
    if stillHeld then
      let now ← dateNow
      pure (some now)
    else pure none
  else pure (some lastHeartbeat)

def deleteKeysWithRetry (ctx : ScopeCleanupContext) (config : StorageConfig) :
    List String → ℕ → Int → Prog Deleted
  | [], deleted, _ => pure { deleted }
  | key :: keys, deleted, lastHeartbeat => do
    match ← keepLease ctx lastHeartbeat with
    | none => pure { deleted, fencedOut := true }
    | some lastHeartbeat =>
      let del ← deleteKey config key ctx.maxDeleteAttemptsPerKey { success := false }
      if !del.success then
        pure { deleted, failedKey := some key, failedError := del.error
               failedStatus := del.httpStatus }
      else deleteKeysWithRetry ctx config keys (deleted + 1) lastHeartbeat

def Query.deletes (config : StorageConfig) : Query → Prop
  | .delete config' _ => config' = config
  | .heartbeat | .clock => True
  | _ => False

theorem deleteKey_asks (config : StorageConfig) (key : String) (attempts : ℕ)
    (last : StorageResult) :
    Dialogue.Asks (Query.deletes config) (deleteKey config key attempts last).run := by
  induction attempts generalizing last with
  | zero => trivial
  | succ attempts ih =>
    have hdelete : Dialogue.Asks (Query.deletes config) (deleteWithConfig config key).run :=
      ⟨rfl, fun _ => trivial⟩
    refine hdelete.bindExcept fun del => ?_
    split
    · trivial
    · exact ih del

theorem keepLease_asks (ctx : ScopeCleanupContext) (config : StorageConfig) (lastHeartbeat : Int) :
    Dialogue.Asks (Query.deletes config) (keepLease ctx lastHeartbeat).run := by
  have hclock : Dialogue.Asks (Query.deletes config) dateNow.run := ⟨trivial, fun _ => trivial⟩
  have hheartbeat : Dialogue.Asks (Query.deletes config) heartbeat.run := ⟨trivial, fun _ => trivial⟩
  refine hclock.bindExcept fun now => ?_
  split
  · refine hheartbeat.bindExcept fun stillHeld => ?_
    split
    · exact hclock.bindExcept fun _ => trivial
    · trivial
  · trivial

theorem deleteKeys_asks (ctx : ScopeCleanupContext) (config : StorageConfig) (keys : List String)
    (deleted : ℕ) (lastHeartbeat : Int) : Dialogue.Asks (Query.deletes config)
      (deleteKeysWithRetry ctx config keys deleted lastHeartbeat).run := by
  induction keys generalizing deleted lastHeartbeat with
  | nil => trivial
  | cons key keys ih =>
    refine (keepLease_asks ctx config lastHeartbeat).bindExcept fun beat => ?_
    split
    · trivial
    · refine (deleteKey_asks config key _ _).bindExcept fun del => ?_
      split
      · trivial
      · exact ih _ _

def ScopeProgress.afterFailure (progress : ScopeProgress) (message : String)
    (httpStatus : Option ℕ) : ScopeProgress :=
  let failures := progress.failures + 1
  let refused := httpStatus = some 401 ∨ httpStatus = some 403
  let progress := { progress with failures, error := some message }
  if refused ∨ maxScopeFailures ≤ failures then
    { progress with status := .skippedUnreachable, cursor := none }
  else progress

def recordScopeFailure (state : ScopeCleanupState) (scope : String) (progress : ScopeProgress)
    (message : String) (httpStatus : Option ℕ) : Prog (Bool × ScopeCleanupState) := do
  let progress := progress.afterFailure message httpStatus
  let state := state.put scope progress
  persist state
  pure (progress.status = .skippedUnreachable, state)

def driftMessage (scope : String) (recorded : Option String) (fresh : String) : Option String :=
  if truthy recorded ∧ recorded ≠ some fresh then
    let was := recorded.getD ""
    some (s!"scope {scope}: storage_config_changed — this scope's physical provider changed since " ++
      "cleanup began; refusing to continue the old cursor or mark it verified against a different " ++
      s!"location. An operator must reconcile the original location ({was}) before this can proceed.")
  else none

/-- Nothing is left to do for a scope with this record. -/
def ScopeProgress.settled (progress : ScopeProgress) : Bool :=
  truthy progress.dedupOf || progress.status = .skippedNotConfigured ||
    progress.status = .skippedUnreachable || progress.status = .failed ||
    progress.status = .done && progress.verified

inductive Visit where
  | next
  | stop (outcome : Outcome)

def scopeFailed (state : ScopeCleanupState) (scope : String) (progress : ScopeProgress)
    (message : String) (httpStatus : Option ℕ) : Prog (Visit × ScopeCleanupState) := do
  let (skipped, state) ← recordScopeFailure state scope progress message httpStatus
  pure (if skipped then .next else .stop (.error message), state)

def verifyScope (ctx : ScopeCleanupContext) (state : ScopeCleanupState) (scope : String)
    (existing : ScopeProgress) (config : StorageConfig) :
    Prog (Visit × ScopeCleanupState) := do
  match driftMessage scope existing.fingerprint (storageConfigFingerprint config) with
  | some drift => pure (.stop (.error drift), state)
  | none =>
    let listing ← listWithConfig config ctx.prefixKey none
    if !listing.success then
      let why := listing.error.getD "unknown"
      scopeFailed state scope existing s!"scope {scope} verification listing failed: {why}"
        listing.httpStatus
    else
      let existing := { existing with failures := 0 }
      let keys := listing.keys.getD []
      if keys = [] ∧ !truthy listing.nextCursor then
        let state := state.put scope { existing with verified := true }
        persist state
        pure (.next, state)
      else
        -- Late writes: they are deleted and the scope is opened again.
        let startedAt ← dateNow
        let delResult ← deleteKeysWithRetry ctx config keys 0 startedAt
        if delResult.fencedOut then
          pure (.stop (.error s!"scope {scope}: lease lost during late-write verification cleanup"),
            state.put scope existing)
        else
          let existing :=
            { existing with objectsDeleted := existing.objectsDeleted + delResult.deleted }
          if truthy delResult.failedKey then
            let key := delResult.failedKey.getD ""
            let why := delResult.failedError.getD "unknown"
            scopeFailed state scope existing
              s!"scope {scope}: failed to delete late-written object {key}: {why}"
              delResult.failedStatus
          else
            let state := state.put scope { existing with
              objectsFound := existing.objectsFound + keys.length
              status := .inProgress
              cursor := listing.nextCursor
              verified := false }
            persist state
            pure (.stop .progress, state)

def cleanScope (ctx : ScopeCleanupContext) (state : ScopeCleanupState) (scope : String)
    (cur : ScopeProgress) (config : StorageConfig) : Prog (Visit × ScopeCleanupState) := do
  let listing ← listWithConfig config ctx.prefixKey cur.cursor
  if !listing.success then
    let why := listing.error.getD "unknown"
    scopeFailed state scope cur s!"scope {scope} listing failed: {why}" listing.httpStatus
  else
    let cur := { cur with failures := 0 }
    let keys := listing.keys.getD []
    let startedAt ← dateNow
    let delResult ← deleteKeysWithRetry ctx config keys 0 startedAt
    if delResult.fencedOut then
      pure (.stop (.error s!"scope {scope}: lease lost mid-delete-loop"), state.put scope cur)
    else
      let cur := { cur with objectsDeleted := cur.objectsDeleted + delResult.deleted }
      if truthy delResult.failedKey then
        let key := delResult.failedKey.getD ""
        let why := delResult.failedError.getD "unknown"
        scopeFailed state scope cur s!"scope {scope}: failed to delete {key}: {why}"
          delResult.failedStatus
      else
        let state := state.put scope { cur with
          objectsFound := cur.objectsFound + keys.length
          cursor := listing.nextCursor
          status := if truthy listing.nextCursor then cur.status else .done }
        persist state
        pure (.stop .progress, state)

def visitScope (ctx : ScopeCleanupContext) (state : ScopeCleanupState) (scope : String) :
    Prog (Visit × ScopeCleanupState) := do
  match ← resolve scope with
  | .error err =>
    let why := err.message
    pure (.stop (.error s!"scope {scope} resolve failed: {why}"), state)
  | .ok (.unconfigured reason) =>
    match state.get scope with
    | none =>
      let state := state.put scope { status := .skippedNotConfigured }
      persist state
      pure (.next, state)
    | some _ =>
      pure (.stop (.error s!"scope {scope} became unconfigured mid-cleanup: {reason}"), state)
  | .ok (.configured config) =>
    let fingerprint := storageConfigFingerprint config
    match state.get scope with
    | some existing =>
      if existing.status = .done ∧ !existing.verified then
        verifyScope ctx state scope existing config
      else
        match driftMessage scope existing.fingerprint fingerprint with
        | some drift => pure (.stop (.error drift), state)
        | none => cleanScope ctx state scope existing config
    | none =>
      match findDoneScopeWithFingerprint state fingerprint with
      | some target =>
        let src := (state.get target).getD { status := .done }
        let state := state.put scope { src with
          status := .done, cursor := none, error := none, fingerprint := some fingerprint
          dedupOf := some target, failures := 0 }
        persist state
        pure (.next, state)
      | none =>
        let cur : ScopeProgress := { status := .inProgress, fingerprint := some fingerprint }
        cleanScope ctx (state.put scope cur) scope cur config

def visit (ctx : ScopeCleanupContext) :
    List String → ScopeCleanupState → Prog (Outcome × ScopeCleanupState)
  | [], state => pure (.advance, state)
  | scope :: rest, state =>
    if (state.get scope).any ScopeProgress.settled then visit ctx rest state
    else do
      match ← visitScope ctx state scope with
      | (.next, state) => visit ctx rest state
      | (.stop outcome, state) => pure (outcome, state)

def runScopeCleanupTick (ctx : ScopeCleanupContext) (state : ScopeCleanupState) :
    Prog (Outcome × ScopeCleanupState) :=
  visit ctx ctx.scopes state

end Kindred.Deletion
