import Kindred.Billing.Cards

/-! Cards and the gateway that charges them: what touches a card, and the rounds
of the reconciler. -/

namespace Kindred.Billing
open Lib (Table Meets run run_keeps)
open Lib.Calendar (second)

def minute : Int := 60 * second
def hour : Int := 60 * minute

inductive MirrorColumn where
  | paddleStatus | paddleNextBilledAt | paddleScheduledChange | paddleItem | customerId | brand
  | last4 | expMonth | expYear | cancelIntent
  deriving DecidableEq

/-- The columns of a `billing_account_cards` row that its sync goes by. -/
structure CardSync where
  syncVersion : Int := 1
  syncedVersion : Int := 0
  syncedAt : Option Timestamp := none
  syncError : Option String := none
  syncFailures : Nat := 0
  nextSyncAt : Timestamp
  mirror : Table MirrorColumn (Option String) := .empty

/-- The tables a card's sync goes by. -/
structure CardDb where
  db : Db
  vatPercent : Option Rat
  workspaces : List Id
  sync : Table Id CardSync

def CardDb.empty : CardDb := ⟨.empty, none, [], .empty⟩

def CardSync.touched (s : CardSync) (now : Timestamp) : CardSync :=
  { s with syncVersion := s.syncVersion + 1, nextSyncAt := min s.nextSyncAt now }

/-- `sync_version + 1` on the cards of `due` that are not cancelled. -/
def CardDb.touch (d : CardDb) (now : Timestamp) (due : Card → Bool) : CardDb :=
  { d with sync := d.sync.mapKeyed fun id s =>
      if (d.db.cards.get id).any fun c => c.status ≠ .canceled ∧ due c then s.touched now else s }

/-- `billing_card_touch_workspace` -/
def CardDb.touchWorkspace (d : CardDb) (now : Timestamp) (workspaceId : Id) : CardDb :=
  d.touch now fun c => c.workspaceId = workspaceId

/-- `billing_card_touch_plan` -/
def CardDb.touchPlan (d : CardDb) (now : Timestamp) (planId : Id) : CardDb :=
  d.touch now fun c =>
    (d.db.subscriptions.get c.workspaceId).any (·.planId = some planId) ∨
      (d.db.accounts.get c.workspaceId).any (·.scheduledPlanId = some planId)

def Card.orphaned (c : Card) : Card :=
  { c with
    status := .canceling
    cancelReason := c.cancelReason.or (some (.given "workspace_deleted")) }

/-- Marked canceling: what is left of the cards of `gone`. -/
def CardDb.orphan (d : CardDb) (now : Timestamp) (gone : Id → Card → Bool) : CardDb :=
  let cards := d.db.cards.mapKeyed fun id c => if gone id c then c.orphaned else c
  { d with
    db := { d.db with cards }
    sync := d.sync.mapKeyed fun id s =>
      if (d.db.cards.get id).any (gone id) then s.touched now else s }

/-- `billing_card_workspace_deleted` -/
def CardDb.workspaceDeleted (d : CardDb) (now : Timestamp) (workspaceId : Id) : CardDb :=
  d.orphan now fun _ c => c.workspaceId = workspaceId ∧ c.status.live

/-- `billing_card_keep_on_delete`, and the deletion where it lets it go on. -/
def CardDb.deleteCard (d : CardDb) (now : Timestamp) (cardId : Id) : CardDb :=
  if (d.db.cards.get cardId).any (·.status = .canceled) then
    { d with db := { d.db with cards := d.db.cards.erase cardId }, sync := d.sync.erase cardId }
  else d.orphan now fun id _ => id = cardId

/-- A statement on one row, with the triggers it fires. -/
inductive Write where
  | insertAccount (workspaceId : Id) (row : Account)
  | updateAccount (workspaceId : Id) (row : Account)
  | deleteAccount (workspaceId : Id)
  | insertSubscription (workspaceId : Id) (row : Subscription)
  | updateSubscription (workspaceId : Id) (row : Subscription)
  | deleteSubscription (workspaceId : Id)
  | insertPlan (planId : Id) (row : Plan)
  | updatePlan (planId : Id) (row : Plan)
  | insertSettings (vatPercent : Option Rat)
  | updateSettings (vatPercent : Option Rat)
  | insertWorkspace (workspaceId : Id)
  | deleteWorkspace (workspaceId : Id)
  | insertCard (row : Card)
  | updateCard (cardId : Id) (row : Card)
  | deferCard (cardId : Id) (nextSyncAt : Timestamp)
  | deleteCard (cardId : Id)

/-- The columns in the `WHEN` of `trg_billing_card_touch_account`. -/
def Account.touches (a a' : Account) : Bool :=
  a.autoRenew ≠ a'.autoRenew ∨ a.scheduledPlanId ≠ a'.scheduledPlanId ∨
    a.scheduledInterval ≠ a'.scheduledInterval ∨
    a.nextPeriodPrepaidMinor ≠ a'.nextPeriodPrepaidMinor ∨ a.nextPeriodStart ≠ a'.nextPeriodStart

/-- `trg_billing_card_touch_subscription_update` -/
def Subscription.touches (s s' : Subscription) : Bool :=
  s.planId ≠ s'.planId ∨ s.status ≠ s'.status ∨ s.billingInterval ≠ s'.billingInterval ∨
    s.currentPeriodEnd ≠ s'.currentPeriodEnd

/-- `trg_billing_card_touch_plan` -/
def Plan.touches (p p' : Plan) : Bool :=
  p.prices ≠ p'.prices ∨ p.isActive ≠ p'.isActive ∨ p.isHidden ≠ p'.isHidden ∨ p.isFree ≠ p'.isFree

def CardSync.picked (s : CardSync) (now : Timestamp) (status : CardStatus) : CardSync :=
  if status = .canceling then { s with nextSyncAt := min s.nextSyncAt now } else s

def CardDb.write (d : CardDb) (now : Timestamp) : Write → CardDb
  | .insertAccount ws row =>
    if (d.db.accounts.get ws).isSome then d
    else { d with db := { d.db with accounts := d.db.accounts.put ws row } }
  | .updateAccount ws row =>
    match d.db.accounts.get ws with
    | none => d
    | some old =>
      let d' := { d with db := { d.db with accounts := d.db.accounts.put ws row } }
      if old.touches row then d'.touchWorkspace now ws else d'
  | .deleteAccount ws => { d with db := { d.db with accounts := d.db.accounts.erase ws } }
  | .insertSubscription ws row =>
    if (d.db.subscriptions.get ws).isSome then d
    else
      let d' := { d with db := { d.db with subscriptions := d.db.subscriptions.put ws row } }
      d'.touchWorkspace now ws
  | .updateSubscription ws row =>
    match d.db.subscriptions.get ws with
    | none => d
    | some old =>
      let d' := { d with db := { d.db with subscriptions := d.db.subscriptions.put ws row } }
      if old.touches row then d'.touchWorkspace now ws else d'
  | .deleteSubscription ws =>
    match d.db.subscriptions.get ws with
    | none => d
    | some _ =>
      let d' := { d with db := { d.db with subscriptions := d.db.subscriptions.erase ws } }
      if ws ∈ d.workspaces then d'.touchWorkspace now ws else d'
  | .insertPlan planId row =>
    if (d.db.plans.get planId).isSome then d
    else { d with db := { d.db with plans := d.db.plans.put planId row } }
  | .updatePlan planId row =>
    match d.db.plans.get planId with
    | none => d
    | some old =>
      let d' := { d with db := { d.db with plans := d.db.plans.put planId row } }
      if old.touches row then d'.touchPlan now planId else d'
  | .insertSettings percent => { d with vatPercent := percent }.touch now fun _ => true
  | .updateSettings percent =>
    let d' := { d with vatPercent := percent }
    if d.vatPercent ≠ percent then d'.touch now fun _ => true else d'
  | .insertWorkspace ws => { d with workspaces := ws :: d.workspaces }
  | .deleteWorkspace ws =>
    let d' := { d with workspaces := d.workspaces.filter (· ≠ ws) }
    d'.workspaceDeleted now ws
  | .insertCard row => { d with
      db := { d.db with nextId := d.db.nextId + 1, cards := d.db.cards.put d.db.nextId row }
      sync := d.sync.put d.db.nextId { nextSyncAt := now } }
  | .updateCard id row =>
    match d.db.cards.get id with
    | none => d
    | some _ => { d with
      db := { d.db with cards := d.db.cards.put id row }
      sync := d.sync.update id fun s => s.picked now row.status }
  | .deferCard id until_ =>
    { d with sync := d.sync.update id fun s => { s with nextSyncAt := until_ } }
  | .deleteCard id => d.deleteCard now id

/-- `left(_, 500)` of an error that is not blank. -/
def shownError (error : Option String) : Option String :=
  (error.filter (· ≠ "")).map fun e => String.ofList (e.toList.take 500)

def CardSync.marked (s : CardSync) (now : Timestamp) (version : Int)
    (mirror : List (MirrorColumn × Option String)) (error : Option String) : CardSync :=
  let mirrored := { s with mirror := mirror.foldl (fun m (column, v) => m.put column v) s.mirror }
  match shownError error with
  | none =>
    { mirrored with
      syncedAt := some now, syncError := none, syncFailures := 0
      syncedVersion := if s.syncVersion = version then version else s.syncedVersion
      nextSyncAt := if version < s.syncVersion then now else now + 6 * hour }
  | some e =>
    { mirrored with
      syncError := some e, syncFailures := s.syncFailures + 1
      nextSyncAt := now + min (2 ^ min s.syncFailures 6) 60 * minute }

/-- `billing_card_mark_synced`: the row as it leaves it, and whether the sync
covered the card's version; none when there is no such card. -/
def CardDb.markSynced (d : CardDb) (now : Timestamp) (cardId : Id) (version : Int)
    (mirror : List (MirrorColumn × Option String)) (error : Option String) :
    Option (Bool × CardDb) :=
  (d.sync.get cardId).map fun s =>
    (decide ((shownError error).isNone ∧ s.syncVersion = version),
      { d with sync := d.sync.put cardId (s.marked now version mirror error) })

inductive Phase where
  | opened | looked | loaded | settled | over
  deriving DecidableEq

/-- A round under way (`runSync`). `stamp` is the `sync_version` at which the
state it goes by was read, `seen` the push the gateway showed when asked. -/
structure Round where
  cardId : Id
  version : Int
  stamp : Int
  seen : Nat
  phase : Phase

/-- What the gateway shows of a card: its last push, and the `sync_version` at
which the state it was computed from was read. -/
structure Shown where
  pushes : Nat := 0
  stamp : Int := 0

structure Reconciler where
  tables : CardDb
  gateway : Table Id Shown
  rounds : List Round

def Reconciler.empty : Reconciler := ⟨.empty, .empty, []⟩

def Reconciler.shown (s : Reconciler) (cardId : Id) : Shown := (s.gateway.get cardId).getD {}

inductive SyncStep where
  | write (w : Write)
  | start (cardId : Id) (fetched : Option Nat)
  | look (round : Nat)
  | load (round : Nat)
  | push (round : Nat)
  | agree (round : Nat)
  | mark (round : Nat) (dateOff : Bool) (mirror : List (MirrorColumn × Option String))
  | fail (round : Nat) (mirror : List (MirrorColumn × Option String)) (error : String)
  | leave (round : Nat)

def Reconciler.setRound (s : Reconciler) (i : Nat) (r : Round) : Reconciler :=
  { s with rounds := s.rounds.set i r }

def Reconciler.start (s : Reconciler) (cardId : Id) (fetched : Option Nat) : Reconciler :=
  match s.tables.db.cards.get cardId, s.tables.sync.get cardId with
  | some card, some row =>
    if card.status = .canceled then s
    else
      let seen := min (fetched.getD 0) (s.shown cardId).pushes
      { s with rounds := s.rounds ++
          [⟨cardId, row.syncVersion, row.syncVersion, seen,
            if fetched.isSome then .looked else .opened⟩] }
  | _, _ => s

def Reconciler.record (s : Reconciler) (now : Timestamp) (i : Nat) (r : Round) (version : Int)
    (mirror : List (MirrorColumn × Option String)) (error : Option String) : Reconciler :=
  let s' := s.setRound i { r with phase := .over }
  match s.tables.markSynced now r.cardId version mirror error with
  | none => s'
  | some (_, tables) => { s' with tables }

def Reconciler.step (s : Reconciler) (c : Timestamp × SyncStep) : Reconciler :=
  match c.2 with
  | .write w => { s with tables := s.tables.write c.1 w }
  | .start cardId fetched => s.start cardId fetched
  | .look i =>
    match s.rounds[i]? with
    | none => s
    | some r =>
      if r.phase = .opened then
        s.setRound i { r with seen := (s.shown r.cardId).pushes, phase := .looked }
      else s
  | .load i =>
    match s.rounds[i]?, (s.rounds[i]?.bind fun r => s.tables.sync.get r.cardId) with
    | some r, some row =>
      if r.phase = .looked ∨ r.phase = .loaded then
        s.setRound i { r with stamp := row.syncVersion, phase := .loaded }
      else s
    | _, _ => s
  | .push i =>
    match s.rounds[i]? with
    | none => s
    | some r =>
      if r.phase = .loaded ∨ r.phase = .settled then
        let pushes := (s.shown r.cardId).pushes + 1
        { s.setRound i { r with seen := pushes, phase := .settled } with
          gateway := s.gateway.put r.cardId ⟨pushes, r.stamp⟩ }
      else s
  | .agree i =>
    match s.rounds[i]? with
    | none => s
    | some r =>
      if r.phase = .looked ∨ r.phase = .loaded ∨ r.phase = .settled then
        let shown := s.shown r.cardId
        let stamp := if r.seen = shown.pushes then max shown.stamp r.stamp else shown.stamp
        { s.setRound i { r with phase := .settled } with
          gateway := s.gateway.put r.cardId { shown with stamp } }
      else s
  | .mark i dateOff mirror =>
    match s.rounds[i]? with
    | none => s
    | some r =>
      if r.phase = .settled then
        s.record c.1 i r (if dateOff then r.version - 1 else r.version) mirror none
      else s
  | .fail i mirror error =>
    match s.rounds[i]? with
    | none => s
    | some r =>
      if r.phase = .over then s
      else s.record c.1 i r r.version mirror (if error = "" then "sync_failed" else error)
  | .leave i =>
    match s.rounds[i]? with
    | none => s
    | some r => s.setRound i { r with phase := .over }

/-- The rounds bring what they read in the order they read it: a push is not
computed from an older state than the one shown, and a round that found nothing to
change was not overtaken by a push from an older state since it looked. -/
def Reconciler.InOrder (s : Reconciler) (c : Timestamp × SyncStep) : Prop :=
  match c.2 with
  | .push i => ∀ r ∈ s.rounds[i]?, (s.shown r.cardId).stamp ≤ r.stamp
  | .agree i => ∀ r ∈ s.rounds[i]?,
      r.seen = (s.shown r.cardId).pushes ∨ r.stamp ≤ (s.shown r.cardId).stamp
  | _ => True

instance (s : Reconciler) (c : Timestamp × SyncStep) : Decidable (s.InOrder c) := by
  unfold Reconciler.InOrder
  split <;> infer_instance

variable {now : Timestamp} {d : CardDb} {s : Reconciler}

structure Grown (d d' : CardDb) : Prop where
  nextId : d.db.nextId ≤ d'.db.nextId
  row : ∀ id row', d'.sync.get id = some row' →
    (∃ row, d.sync.get id = some row ∧ row'.syncedVersion = row.syncedVersion ∧
      row.syncVersion ≤ row'.syncVersion) ∨
    d.db.nextId ≤ id ∧ id < d'.db.nextId ∧ row'.syncVersion = 1 ∧ row'.syncedVersion = 0

variable {d' : CardDb} {cardId : Id} {i : Nat} {r r' : Round}

theorem Grown.same (hid : d'.db.nextId = d.db.nextId) (hsync : d'.sync = d.sync) : Grown d d' :=
  ⟨hid.ge, fun _ row' h => .inl ⟨row', hsync ▸ h, rfl, le_rfl⟩⟩

theorem Grown.after {d₀ : CardDb} (h : Grown d d') (hid : d.db.nextId = d₀.db.nextId)
    (hsync : d.sync = d₀.sync) : Grown d₀ d' := by
  obtain ⟨hle, hrow⟩ := h
  rw [hid] at hle hrow
  exact ⟨hle, by simpa only [hsync] using hrow⟩

theorem Grown.mapKeyed (f : Id → CardSync → CardSync) (hid : d'.db.nextId = d.db.nextId)
    (hsync : d'.sync = d.sync.mapKeyed f)
    (hf : ∀ id row, (f id row).syncedVersion = row.syncedVersion ∧
      row.syncVersion ≤ (f id row).syncVersion) : Grown d d' := by
  refine ⟨hid.ge, fun id row' h => .inl ?_⟩
  rw [hsync, Table.get_mapKeyed] at h
  obtain ⟨row, hrow, rfl⟩ := Option.map_eq_some_iff.mp h
  exact ⟨row, hrow, hf id row⟩

theorem Grown.update {f : CardSync → CardSync} (hid : d'.db.nextId = d.db.nextId)
    (hsync : d'.sync = d.sync.update cardId f)
    (hf : ∀ row, (f row).syncedVersion = row.syncedVersion ∧
      (f row).syncVersion = row.syncVersion) : Grown d d' := by
  refine ⟨hid.ge, fun id' row' h => .inl ?_⟩
  rw [hsync, Table.get_update] at h
  split at h
  · rename_i hid'
    obtain ⟨row, hrow, rfl⟩ := Option.map_eq_some_iff.mp h
    exact ⟨row, hid' ▸ hrow, (hf row).1, (hf row).2.ge⟩
  · exact ⟨row', h, rfl, le_rfl⟩

theorem touched_grown (due : Id → Bool) (hid : d'.db.nextId = d.db.nextId)
    (hsync : d'.sync = d.sync.mapKeyed fun id row => if due id then row.touched now else row) :
    Grown d d' := by
  refine .mapKeyed _ hid hsync fun id row => ?_
  split
  · exact ⟨rfl, by simp [CardSync.touched]⟩
  · exact ⟨rfl, le_rfl⟩

theorem touch_grown (due : Card → Bool) : Grown d (d.touch now due) :=
  touched_grown (fun id => (d.db.cards.get id).any fun c => c.status ≠ .canceled ∧ due c) rfl rfl

theorem orphan_grown (gone : Id → Card → Bool) : Grown d (d.orphan now gone) :=
  touched_grown (fun id => (d.db.cards.get id).any (gone id)) rfl rfl

theorem write_grown (w : Write) : Grown d (d.write now w) := by
  cases w with
  | insertAccount ws row =>
    simp only [CardDb.write]
    split
    · exact .same rfl rfl
    · exact .same rfl rfl
  | updateAccount ws row =>
    simp only [CardDb.write]
    split
    · exact .same rfl rfl
    · split
      · exact (touch_grown _).after rfl rfl
      · exact .same rfl rfl
  | deleteAccount ws => exact .same rfl rfl
  | insertSubscription ws row =>
    simp only [CardDb.write]
    split
    · exact .same rfl rfl
    · exact (touch_grown _).after rfl rfl
  | updateSubscription ws row =>
    simp only [CardDb.write]
    split
    · exact .same rfl rfl
    · split
      · exact (touch_grown _).after rfl rfl
      · exact .same rfl rfl
  | deleteSubscription ws =>
    simp only [CardDb.write]
    split
    · exact .same rfl rfl
    · split
      · exact (touch_grown _).after rfl rfl
      · exact .same rfl rfl
  | insertPlan planId row =>
    simp only [CardDb.write]
    split
    · exact .same rfl rfl
    · exact .same rfl rfl
  | updatePlan planId row =>
    simp only [CardDb.write]
    split
    · exact .same rfl rfl
    · split
      · exact (touch_grown _).after rfl rfl
      · exact .same rfl rfl
  | insertSettings percent => exact (touch_grown _).after rfl rfl
  | updateSettings percent =>
    simp only [CardDb.write]
    split
    · exact (touch_grown _).after rfl rfl
    · exact .same rfl rfl
  | insertWorkspace ws => exact .same rfl rfl
  | deleteWorkspace ws =>
    exact (orphan_grown _).after rfl rfl
  | insertCard row =>
    refine ⟨Nat.le_succ _, fun id row' h => ?_⟩
    simp only [CardDb.write, Table.get_put] at h
    split at h
    · rename_i hid
      cases h
      exact .inr ⟨hid.ge, hid ▸ Nat.lt_succ_self _, rfl, rfl⟩
    · exact .inl ⟨row', h, rfl, le_rfl⟩
  | updateCard id row =>
    simp only [CardDb.write]
    split
    · exact .same rfl rfl
    · refine .update rfl rfl fun s => ?_
      unfold CardSync.picked
      split <;> exact ⟨rfl, rfl⟩
  | deferCard id until_ => exact .update rfl rfl fun _ => ⟨rfl, rfl⟩
  | deleteCard id =>
    simp only [CardDb.write, CardDb.deleteCard]
    split
    · refine ⟨le_rfl, fun id' row' h => ?_⟩
      simp only [Table.get_erase] at h
      split at h
      · cases h
      · exact .inl ⟨row', h, rfl, le_rfl⟩
    · exact orphan_grown _

structure Reconciler.InStep (s : Reconciler) : Prop where
  row : ∀ id row, s.tables.sync.get id = some row →
    row.syncedVersion ≤ row.syncVersion ∧ (s.shown id).stamp ≤ row.syncVersion ∧
      (row.syncedVersion = row.syncVersion → row.syncVersion ≤ (s.shown id).stamp)
  round : ∀ r ∈ s.rounds, ∀ row, s.tables.sync.get r.cardId = some row →
    r.version ≤ r.stamp ∧ r.stamp ≤ row.syncVersion ∧
      (r.phase = .settled → r.stamp ≤ (s.shown r.cardId).stamp)
  known : (∀ r ∈ s.rounds, r.cardId < s.tables.db.nextId) ∧
    (∀ id, (s.tables.sync.get id).isSome → id < s.tables.db.nextId) ∧
    ∀ id, s.tables.db.nextId ≤ id → (s.shown id).stamp = 0

theorem empty_inStep : Reconciler.empty.InStep where
  row := nofun
  round := by simp [Reconciler.empty]
  known := ⟨by simp [Reconciler.empty], nofun, fun _ _ => rfl⟩

theorem write_inStep (h : s.InStep) (w : Write) :
    Reconciler.InStep { s with tables := s.tables.write now w } := by
  obtain ⟨hrow, hround, hrounds, hknown, hfresh⟩ := h
  obtain ⟨hle, hgrown⟩ : Grown s.tables (s.tables.write now w) := write_grown w
  refine ⟨fun id row' h => ?_, fun r hr row' h => ?_,
    fun r hr => (hrounds r hr).trans_le hle, fun id h => ?_, fun id hid => hfresh id (hle.trans hid)⟩
  · rcases hgrown id row' h with ⟨row, hget, hsynced, hsync⟩ | ⟨hid, -, hsync, hsynced⟩
    · have hold := hrow id row hget
      change _ ∧ (s.shown id).stamp ≤ _ ∧ (_ → _ ≤ (s.shown id).stamp)
      omega
    · have hzero := hfresh id hid
      change _ ∧ (s.shown id).stamp ≤ _ ∧ (_ → _ ≤ (s.shown id).stamp)
      omega
  · rcases hgrown r.cardId row' h with ⟨row, hget, -, hsync⟩ | ⟨hid, -⟩
    · have hold := hround r hr row hget
      exact ⟨hold.1, hold.2.1.trans hsync, hold.2.2⟩
    · exact absurd (hrounds r hr) (not_lt.mpr hid)
  · obtain ⟨row', hget⟩ := Option.isSome_iff_exists.mp h
    rcases hgrown id row' hget with ⟨row, hold, -⟩ | ⟨-, hlt, -⟩
    · exact (hknown id (by rw [hold]; rfl)).trans_le hle
    · exact hlt

theorem setRound_inStep (h : s.InStep) (hr : s.rounds[i]? = some r) (hcard : r'.cardId = r.cardId)
    (hround : ∀ row, s.tables.sync.get r.cardId = some row → r'.version ≤ r'.stamp ∧
      r'.stamp ≤ row.syncVersion ∧ (r'.phase = .settled → r'.stamp ≤ (s.shown r.cardId).stamp)) :
    (s.setRound i r').InStep := by
  refine ⟨h.row, fun q hq row hrow => ?_, fun q hq => ?_, h.known.2⟩
  · rcases List.mem_or_eq_of_mem_set hq with hold | rfl
    · exact h.round q hold row hrow
    · rw [hcard] at hrow ⊢
      exact hround row hrow
  · rcases List.mem_or_eq_of_mem_set hq with hold | rfl
    · exact h.known.1 q hold
    · rw [hcard]
      exact h.known.1 r (List.mem_of_getElem? hr)

theorem shown_put (cardId id : Id) (shown : Shown) :
    Reconciler.shown { s with gateway := s.gateway.put cardId shown } id =
      if id = cardId then shown else s.shown id := by
  simp only [Reconciler.shown, Table.get_put]
  split <;> rfl

/-- The gateway is brought to what the round read, by it or already. -/
theorem bring_inStep (h : s.InStep) (hr : s.rounds[i]? = some r) (hcard : r'.cardId = r.cardId)
    (hversion : r'.version = r.version) (hstamp : r'.stamp = r.stamp) {shown : Shown}
    (hup : (s.shown r.cardId).stamp ≤ shown.stamp) (hread : r.stamp ≤ shown.stamp)
    (hmax : shown.stamp ≤ max (s.shown r.cardId).stamp r.stamp) :
    Reconciler.InStep { s.setRound i r' with gateway := s.gateway.put r.cardId shown } := by
  have hmem := List.mem_of_getElem? hr
  have hput : ∀ id, Reconciler.shown { s.setRound i r' with
      gateway := s.gateway.put r.cardId shown } id = if id = r.cardId then shown else s.shown id :=
    fun id => shown_put (s := s.setRound i r') r.cardId id shown
  refine ⟨fun id row hrow => ?_, fun q hq row hrow => ?_, ?_, h.known.2.1, fun id hid => ?_⟩
  · have hold := h.row id row hrow
    rw [hput]
    split
    · rename_i hid
      have hmine := h.round r hmem row (hid ▸ hrow)
      rw [hid] at hold
      omega
    · exact hold
  · have hold : q.version ≤ q.stamp ∧ q.stamp ≤ row.syncVersion ∧
        (q.phase = .settled → q.stamp ≤ (s.shown q.cardId).stamp ∨ q.stamp ≤ shown.stamp) := by
      rcases List.mem_or_eq_of_mem_set hq with hold | rfl
      · have := h.round q hold row hrow
        exact ⟨this.1, this.2.1, fun hs => .inl (this.2.2 hs)⟩
      · rw [hcard] at hrow
        have := h.round r hmem row hrow
        exact ⟨by omega, by omega, fun _ => .inr (by omega)⟩
    refine ⟨hold.1, hold.2.1, fun hs => ?_⟩
    rw [hput]
    split
    · rename_i hid
      rcases hold.2.2 hs with hq | hq
      · rw [hid] at hq
        exact hq.trans hup
      · exact hq
    · rename_i hid
      rcases List.mem_or_eq_of_mem_set hq with hq | rfl
      · exact (h.round q hq row hrow).2.2 hs
      · exact absurd hcard hid
  · intro q hq
    rcases List.mem_or_eq_of_mem_set hq with hold | rfl
    · exact h.known.1 q hold
    · rw [hcard]
      exact h.known.1 r hmem
  · have hne : id ≠ r.cardId := fun heq => absurd (h.known.1 r hmem) (not_lt.mpr (heq ▸ hid))
    rw [hput, if_neg hne]
    exact h.known.2.2 id hid

/-- A success is recorded for the version the row is at only where the state was
read at that version. -/
theorem record_inStep (h : s.InStep) (hr : s.rounds[i]? = some r) {version : Int}
    (hversion : version ≤ r.version) {mirror : List (MirrorColumn × Option String)}
    {error : Option String} (hsettled : shownError error = none → r.phase = .settled) :
    (s.record now i r version mirror error).InStep := by
  have hmem := List.mem_of_getElem? hr
  have hover : (s.setRound i { r with phase := .over }).InStep :=
    setRound_inStep h hr rfl fun row hrow =>
      ⟨(h.round r hmem row hrow).1, (h.round r hmem row hrow).2.1, nofun⟩
  unfold Reconciler.record CardDb.markSynced
  cases hget : s.tables.sync.get r.cardId with
  | none => exact hover
  | some old =>
    simp only [Option.map_some]
    have hmine := h.round r hmem old hget
    have hold := h.row r.cardId old hget
    have hmarked : (old.marked now version mirror error).syncVersion = old.syncVersion ∧
        ((old.marked now version mirror error).syncedVersion = old.syncedVersion ∨
          r.phase = .settled ∧ old.syncVersion = version ∧
            (old.marked now version mirror error).syncedVersion = version) := by
      unfold CardSync.marked
      cases he : shownError error with
      | none =>
        dsimp only
        split
        · rename_i heq
          exact ⟨rfl, .inr ⟨hsettled he, heq, rfl⟩⟩
        · exact ⟨rfl, .inl rfl⟩
      | some e => exact ⟨rfl, .inl rfl⟩
    refine ⟨fun id row hrow => ?_, fun q hq row hrow => ?_, hover.known.1, fun id hid => ?_,
      h.known.2.2⟩
    · simp only [Table.get_put] at hrow
      split at hrow
      · rename_i hid
        cases hrow
        rw [hmarked.1, hid]
        rcases hmarked.2 with hs | ⟨hphase, hv, hs⟩
        · rw [hs]
          exact hold
        · have := hmine.2.2 hphase
          rw [hs]
          change _ ∧ (s.shown r.cardId).stamp ≤ _ ∧ (_ → _ ≤ (s.shown r.cardId).stamp)
          omega
      · exact h.row id row hrow
    · simp only [Table.get_put] at hrow
      split at hrow
      · rename_i hid
        cases hrow
        have := hover.round q hq old (hid ▸ hget)
        exact ⟨this.1, hmarked.1.symm ▸ this.2.1, this.2.2⟩
      · exact hover.round q hq row hrow
    · simp only [Table.get_put] at hid
      split at hid
      · rename_i heq
        exact h.known.2.1 id (by rw [heq, hget]; rfl)
      · exact h.known.2.1 id hid

theorem start_inStep (h : s.InStep) {fetched : Option Nat} : (s.start cardId fetched).InStep := by
  unfold Reconciler.start
  split
  · rename_i card row hcard hrow
    split
    · exact h
    · refine ⟨h.row, fun q hq row' hrow' => ?_, fun q hq => ?_, h.known.2⟩
      · rcases List.mem_append.mp hq with hq | hq
        · exact h.round q hq row' hrow'
        · cases List.mem_singleton.mp hq
          cases hrow.symm.trans hrow'
          refine ⟨le_rfl, le_rfl, fun hs => ?_⟩
          split at hs <;> cases hs
      · rcases List.mem_append.mp hq with hq | hq
        · exact h.known.1 q hq
        · cases List.mem_singleton.mp hq
          exact h.known.2.1 cardId (by rw [hrow]; rfl)
  · exact h

theorem step_inStep (h : s.InStep) (c : Timestamp × SyncStep) (hc : s.InOrder c) :
    (s.step c).InStep := by
  obtain ⟨now, c⟩ := c
  cases c with
  | write w => exact write_inStep h w
  | start cardId fetched => exact start_inStep h
  | look i =>
    simp only [Reconciler.step]
    split
    · exact h
    · rename_i r hr
      split
      · refine setRound_inStep h hr rfl fun row hrow => ?_
        have := h.round r (List.mem_of_getElem? hr) row hrow
        exact ⟨this.1, this.2.1, nofun⟩
      · exact h
  | load i =>
    simp only [Reconciler.step]
    split
    · rename_i r row hr hrow
      rw [hr, Option.bind_some] at hrow
      split
      · refine setRound_inStep h hr rfl fun row' hrow' => ?_
        cases hrow.symm.trans hrow'
        have := h.round r (List.mem_of_getElem? hr) row hrow
        exact ⟨this.1.trans this.2.1, le_rfl, nofun⟩
      · exact h
    · exact h
  | push i =>
    simp only [Reconciler.step]
    split
    · exact h
    · rename_i r hr
      split
      · refine bring_inStep h hr ?_ ?_ ?_ ?_ ?_ ?_
        exacts [rfl, rfl, rfl, hc r hr, le_rfl, le_max_right _ _]
      · exact h
  | agree i =>
    simp only [Reconciler.step]
    split
    · exact h
    · rename_i r hr
      split
      · refine bring_inStep h hr ?_ ?_ ?_ ?_ ?_ ?_
        · rfl
        · rfl
        · rfl
        · dsimp only
          split
          · exact le_max_left _ _
          · exact le_rfl
        · rcases hc r hr with hseen | hle
          · rw [if_pos hseen]
            exact le_max_right _ _
          · dsimp only
            split
            · exact le_max_right _ _
            · exact hle
        · dsimp only
          split
          · exact le_rfl
          · exact le_max_left _ _
      · exact h
  | mark i dateOff mirror =>
    simp only [Reconciler.step]
    split
    · exact h
    · rename_i r hr
      split
      · rename_i hphase
        refine record_inStep h hr ?_ fun _ => hphase
        split
        · exact Int.sub_le_self _ (by decide)
        · exact le_rfl
      · exact h
  | fail i mirror error =>
    simp only [Reconciler.step]
    split
    · exact h
    · rename_i r hr
      split
      · exact h
      · refine record_inStep h hr le_rfl fun he => absurd he ?_
        split
        · simp [shownError]
        · rename_i hne
          simp [shownError, hne]
  | leave i =>
    simp only [Reconciler.step]
    split
    · exact h
    · rename_i r hr
      refine setRound_inStep h hr rfl fun row hrow => ?_
      have := h.round r (List.mem_of_getElem? hr) row hrow
      exact ⟨this.1, this.2.1, nofun⟩

/-- Whatever touches a card and whichever rounds overlap, as long as they bring
what they read in order: a card recorded as synced shows what was read since it was
last touched. -/
theorem synced_is_current (cs : List (Timestamp × SyncStep))
    (horder : Meets Reconciler.step Reconciler.InOrder .empty cs) (cardId : Id) (row : CardSync)
    (hrow : (run Reconciler.step .empty cs).tables.sync.get cardId = some row)
    (hsynced : row.syncedVersion = row.syncVersion) :
    ((run Reconciler.step .empty cs).shown cardId).stamp = row.syncVersion := by
  have hstep : ∀ s c, Reconciler.InStep s → s.InOrder c → (s.step c).InStep :=
    fun s c h hc => step_inStep h c hc
  have hin : (run Reconciler.step .empty cs).InStep := run_keeps hstep empty_inStep horder
  obtain ⟨-, hle, hge⟩ := hin.row cardId row hrow
  exact le_antisymm hle (hge hsynced)

def syncedOnce : List (Timestamp × SyncStep) :=
  [(0, .write (.insertAccount 7 { currency := "USD" })),
    (0, .write (.insertCard ⟨7, "paddle", "sub", "USD", .active, none⟩)),
    (1, .write (.updateAccount 7 { currency := "USD", autoRenew := true })),
    (2, .start 0 none), (2, .look 0), (2, .load 0), (3, .push 0), (3, .mark 0 false [])]

theorem synced_is_current_once :
    ∃ row, (run Reconciler.step .empty syncedOnce).tables.sync.get 0 = some row ∧
      row.syncedVersion = row.syncVersion ∧
      ((run Reconciler.step .empty syncedOnce).shown 0).stamp = row.syncVersion := by
  have hsynced : ((run Reconciler.step .empty syncedOnce).tables.sync.get 0).any (fun row =>
      row.syncedVersion = row.syncVersion) = true := by decide +kernel
  obtain ⟨row, hrow, hs⟩ := (Option.any_eq_true _ _).mp hsynced
  exact ⟨row, hrow, decide_eq_true_eq.mp hs,
    synced_is_current syncedOnce (by decide +kernel) 0 row hrow (decide_eq_true_eq.mp hs)⟩

def overtaken : List (Timestamp × SyncStep) :=
  [(0, .write (.insertAccount 7 { currency := "USD", autoRenew := true })),
    (0, .write (.insertCard ⟨7, "paddle", "sub", "USD", .active, none⟩)),
    (1, .start 0 none), (1, .look 0), (1, .load 0),
    (2, .write (.updateAccount 7 { currency := "USD", autoRenew := false })),
    (3, .start 0 none), (3, .look 1), (3, .load 1), (4, .push 1), (4, .mark 1 false []),
    (5, .push 0), (5, .mark 0 false [])]

theorem stale_push_stays :
    ((run Reconciler.step .empty overtaken).tables.sync.get 0).any (fun row =>
        row.syncedVersion = row.syncVersion ∧ row.syncVersion = 2) ∧
      ((run Reconciler.step .empty overtaken).shown 0).stamp = 1 := by
  decide +kernel

end Kindred.Billing
