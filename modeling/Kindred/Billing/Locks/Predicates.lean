import Kindred.Billing.Locks.Cutoff

/-!
The same rule on the read paths: on a row that was read, from the cutoff's
text, and as the filters of a query.
-/

namespace Kindred.Billing.Locks

structure LockCut where
  ts : String
  id : Option Id

structure KindLock where
  limit : Option ℕ
  total : ℕ
  locked : ℕ
  cut : Option LockCut
  ids : Option (List Id)

structure LockState where
  enabled : Bool
  kb : Option KindLock
  contact : Option KindLock
  member : Option KindLock
  conversation : Option KindLock

def unlockedState : LockState :=
  { enabled := false, kb := none, contact := none, member := none, conversation := none }

def LOCKED_IDS_CAP : Int := 5000

def parseCutoffRow (c : Cutoff) : KindLock where
  limit := c.lim
  total := c.total.getD 0
  locked := c.locked
  cut := c.cutTs.map fun ts => { ts := ts.text, id := c.cutId }
  ids := none

def kindLock (db : LockDb) (now : Timestamp) (workspace : Id) (kind : LockKind) : KindLock :=
  let lock := parseCutoffRow (lockCutoff db now workspace kind)
  if kind = .kb_article ∨ kind = .member then
    { lock with ids := some (if 0 < lock.locked then lockedIds db now workspace kind LOCKED_IDS_CAP
                             else []) }
  else lock

def resolveLockState (db : LockDb) (now : Timestamp) (workspace : Id) : LockState :=
  if !db.locksEnabled then unlockedState
  else
    { enabled := true
      kb := some (kindLock db now workspace .kb_article)
      contact := some (kindLock db now workspace .contact)
      member := some (kindLock db now workspace .member)
      conversation := some (kindLock db now workspace .conversation) }

def lockOf (state : LockState) (kind : LockKind) : Option KindLock :=
  if !state.enabled then none
  else
    match kind with
    | .kb_article => state.kb
    | .contact => state.contact
    | .member => state.member
    | .conversation => state.conversation

structure ReadRow where
  id : Option Id
  createdAt : Option String
  updatedAt : Option String
  userId : Option Id

def LockableRow.read (r : LockableRow) : ReadRow where
  id := some r.id
  createdAt := r.createdAt.map Stamp.text
  updatedAt := r.updatedAt.map Stamp.text
  userId := some r.id

def rankAfter (ts : Stamp) (id : Id) (cutTs : Stamp) (cutId : Option Id) : Bool :=
  if ts ≠ cutTs then cutTs < ts else cutId.all (· < id)

section Rows
variable (dateParse : String → Option Int)

def isRowLocked (state : LockState) (kind : LockKind) (row : ReadRow) : Bool :=
  match (lockOf state kind).bind fun lock => lock.cut.map fun cut => (lock, cut) with
  | none => false
  | some (lock, cut) =>
    match kind with
    | .member => row.userId.any fun user => user ∈ lock.ids.getD []
    | .conversation =>
      let activity := (tsMicros dateParse row.updatedAt).or (tsMicros dateParse row.createdAt)
      let cutoff := tsMicros dateParse (some cut.ts)
      activity.any fun a => cutoff.any fun c => a < c
    | .kb_article | .contact =>
      row.id.any fun id =>
        (tsMicros dateParse (some cut.ts)).any fun cutTs =>
          rankAfter ((tsMicros dateParse row.createdAt).getD .negInfinity) id cutTs cut.id

end Rows

inductive TimeColumn where
  | created_at | updated_at

inductive Comparison where
  | lt | lte | eq | gte | gt

inductive Condition where
  | isNull (column : TimeColumn)
  | notNull (column : TimeColumn)
  | time (column : TimeColumn) (op : Comparison) (value : String)
  | id (op : Comparison) (value : Option Id)
  | noId

/-- `or(…)`: one of the groups, of which `and(…)` takes all conditions. -/
abbrev OrFilter := List (List Condition)

def applyUnlockedFilter : Option LockCut → List OrFilter
  | none => []
  | some cut =>
    if cut.ts = "-infinity" then [[[.isNull .created_at, .id .lte cut.id]]]
    else
      [[[.isNull .created_at], [.time .created_at .lt cut.ts],
        [.time .created_at .eq cut.ts, .id .lte cut.id]]]

def applyLockedFilter : Option LockCut → List OrFilter
  | none => [[[.noId]]]
  | some cut =>
    if cut.ts = "-infinity" then
      [[[.notNull .created_at], [.isNull .created_at, .id .gt cut.id]]]
    else [[[.time .created_at .gt cut.ts], [.time .created_at .eq cut.ts, .id .gt cut.id]]]

def applyConversationUnlockedFilter : Option LockCut → List OrFilter
  | none => []
  | some cut =>
    [[[.time .updated_at .gte cut.ts], [.isNull .updated_at, .time .created_at .gte cut.ts],
      [.isNull .updated_at, .isNull .created_at]]]

def applyConversationLockedFilter : Option LockCut → List OrFilter
  | none => [[[.noId]]]
  | some cut =>
    [[[.time .updated_at .lt cut.ts], [.isNull .updated_at, .time .created_at .lt cut.ts]]]

/-- How the database reads a time, the texts it writes among them. -/
structure TimeInput where
  read : String → Option Stamp
  read_text : ∀ s : Stamp, read s.text = some s

def TimeColumn.of (r : LockableRow) : TimeColumn → Option Stamp
  | .created_at => r.createdAt
  | .updated_at => r.updatedAt

def Comparison.holds {α : Type} [LinearOrder α] (a b : α) : Comparison → Bool
  | .lt => a < b
  | .lte => a ≤ b
  | .eq => a = b
  | .gte => b ≤ a
  | .gt => b < a

section Filters
variable (input : TimeInput)

def Condition.holds (r : LockableRow) : Condition → Bool
  | .isNull column => (column.of r).isNone
  | .notNull column => (column.of r).isSome
  | .time column op value =>
    (column.of r).any fun t => (input.read value).any fun v => op.holds t v
  | .id op value => value.any fun v => op.holds r.id v
  | .noId => false

def keeps (query : List OrFilter) (r : LockableRow) : Bool :=
  query.all fun filter => filter.any fun group => group.all fun c => c.holds input r

end Filters

end Kindred.Billing.Locks
