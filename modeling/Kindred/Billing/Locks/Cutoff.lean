import Kindred.Billing.Locks.Stamps
import Mathlib.Data.List.Sort
import Mathlib.Data.Prod.Lex

/-!
What a plan locks, as the database computes it: the rows a plan counts, the
cutoff of a kind and the rows past it.
-/

namespace Kindred.Billing.Locks
open Lib.Calendar (day)

inductive LockKind where
  | kb_article | contact | member | conversation
  deriving DecidableEq

structure Workspace where
  owner : Id
  active : Bool

structure Article where
  workspace : Id
  createdAt : Option Stamp

structure Contact where
  workspace : Id
  createdAt : Option Stamp
  isSpam : Bool
  /-- `metadata ->> 'anonymous'` -/
  anonymous : Option String
  email : Option String
  phone : Option String
  name : Option String

structure Member where
  createdAt : Option Stamp
  suspended : Bool

structure Conversation where
  workspace : Id
  createdAt : Option Stamp
  updatedAt : Option Stamp

structure LockDb where
  workspaces : Table Id Workspace
  articles : Table Id Article
  contacts : Table Id Contact
  members : Table (Id × Id) Member
  conversations : Table Id Conversation
  /-- `billing_effective_limit` under the plan in force, by workspace and key. -/
  limits : Table (Id × String) ℕ
  locksEnabled : Bool
  selfHostUnlimited : Bool

structure LockableRow where
  id : Id
  createdAt : Option Stamp
  updatedAt : Option Stamp
  deriving DecidableEq

/-- `nullif(btrim(text), '') IS NULL` -/
def blank (text : Option String) : Bool := text.all fun s => s.toList.all (· = ' ')

/-- No name, email or phone; `Visitor` is the placeholder name. -/
def Contact.isAnonymous (c : Contact) : Bool :=
  c.anonymous = some "true" && blank c.email && blank c.phone &&
    (blank c.name || c.name = some "Visitor")

def lockableRows (db : LockDb) (workspace : Id) : LockKind → List LockableRow
  | .kb_article => db.articles.rows.filterMap fun (id, a) =>
      if a.workspace = workspace then some ⟨id, a.createdAt, none⟩ else none
  | .contact => db.contacts.rows.filterMap fun (id, c) =>
      if c.workspace = workspace ∧ !c.isSpam ∧ !c.isAnonymous then
        some ⟨id, c.createdAt, none⟩
      else none
  | .member => db.members.rows.filterMap fun ((ws, user), m) =>
      if ws = workspace ∧ ((db.workspaces.get ws).any fun w => user ≠ w.owner) ∧ !m.suspended then
        some ⟨user, m.createdAt, none⟩
      else none
  | .conversation => db.conversations.rows.filterMap fun (id, c) =>
      if c.workspace = workspace then some ⟨id, c.createdAt, c.updatedAt⟩ else none

abbrev Rank := Stamp ×ₗ Id

def LockableRow.rank (r : LockableRow) : Rank := toLex (r.createdAt.getD .negInfinity, r.id)

def LockableRow.activity (r : LockableRow) : Stamp := (r.updatedAt.or r.createdAt).getD .negInfinity

/-- `billing_lock_rank_rows` -/
def lockRankRows (db : LockDb) (workspace : Id) (kind : LockKind) : List Rank :=
  if kind = .conversation then [] else (lockableRows db workspace kind).map LockableRow.rank

def lockLimit (db : LockDb) (workspace : Id) : LockKind → Option ℕ
  | .kb_article => db.limits.get (workspace, "max_kb_articles")
  | .contact => db.limits.get (workspace, "max_contacts")
  -- the owner's seat
  | .member => (db.limits.get (workspace, "max_agents")).map (· - 1)
  | .conversation => db.limits.get (workspace, "data_retention_days")

structure Cutoff where
  lim : Option ℕ
  total : Option ℕ
  locked : ℕ
  cutTs : Option Stamp
  cutId : Option Id

def Cutoff.unlimited : Cutoff :=
  { lim := none, total := none, locked := 0, cutTs := none, cutId := none }

def retentionCut (now : Timestamp) (days : ℕ) : Stamp :=
  .finite (now - (min days 1000000 : ℕ) * day)

/-- `ORDER BY ts, id` -/
def ranked (rows : List Rank) : List Rank := rows.insertionSort (· ≤ ·)

def lastKept (rows : List Rank) (lim : ℕ) : Option Rank :=
  if lim = 0 then some (toLex (.negInfinity, 0)) else (ranked rows)[lim - 1]?

/-- `billing_lock_compute` -/
def lockCompute (db : LockDb) (now : Timestamp) (workspace : Id) (kind : LockKind) : Cutoff :=
  if !(db.workspaces.get workspace).any Workspace.active || db.selfHostUnlimited then .unlimited
  else
    match lockLimit db workspace kind with
    | none => .unlimited
    | some lim =>
      if kind = .conversation then
        let ts := retentionCut now lim
        let rows := lockableRows db workspace .conversation
        { lim := some lim, total := some rows.length, locked := rows.countP fun r => r.activity < ts
          cutTs := some ts, cutId := none }
      else
        let rows := lockRankRows db workspace kind
        let cut := lastKept rows lim
        if rows.length ≤ lim then
          { lim := some lim, total := some rows.length, locked := 0, cutTs := none, cutId := none }
        else
          { lim := some lim, total := some rows.length, locked := rows.length - lim
            cutTs := cut.map fun c => (ofLex c).1, cutId := cut.map fun c => (ofLex c).2 }

/-- `billing_lock_cutoff`: nothing is locked while the switch is off. -/
def lockCutoff (db : LockDb) (now : Timestamp) (workspace : Id) (kind : LockKind) : Cutoff :=
  if !db.locksEnabled then { Cutoff.unlimited with lim := lockLimit db workspace kind }
  else lockCompute db now workspace kind

/-- `(ts, id) > (cut_ts, cut_id)`, which nothing is where the cutoff is missing. -/
def isAfter (r : Rank) (cutTs : Option Stamp) (cutId : Option Id) : Bool :=
  match cutTs, cutId with
  | some ts, some id => toLex (ts, id) < r
  | _, _ => false

def isBefore (activity : Stamp) (cutTs : Option Stamp) : Bool := cutTs.any (activity < ·)

/-- `billing_lock_rows_after`: oldest first. -/
def lockRowsAfter (db : LockDb) (workspace : Id) (kind : LockKind) (cutTs : Option Stamp)
    (cutId : Option Id) (max : Option Int) : List Rank :=
  let rows :=
    if kind = .conversation then
      ((lockableRows db workspace .conversation).filter fun r => isBefore r.activity cutTs).map
        fun r => toLex (r.activity, r.id)
    else (lockRankRows db workspace kind).filter fun r => isAfter r cutTs cutId
  (ranked rows).take (max.getD 0).toNat

/-- `billing_locked_ids` -/
def lockedIds (db : LockDb) (now : Timestamp) (workspace : Id) (kind : LockKind)
    (max : Option Int) : List Id :=
  let c := lockCutoff db now workspace kind
  if c.locked = 0 then []
  else (lockRowsAfter db workspace kind c.cutTs c.cutId max).map fun r => (ofLex r).2

/-- `billing_is_locked` -/
def isLocked (db : LockDb) (now : Timestamp) (workspace : Id) (kind : LockKind) (id : Id) : Bool :=
  let c := lockCutoff db now workspace kind
  if c.locked = 0 then false
  else if kind = .conversation then
    (lockableRows db workspace .conversation).any fun r => r.id = id && isBefore r.activity c.cutTs
  else (lockRankRows db workspace kind).any fun r => (ofLex r).2 = id && isAfter r c.cutTs c.cutId

end Kindred.Billing.Locks
