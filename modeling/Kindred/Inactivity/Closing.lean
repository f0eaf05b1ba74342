import Kindred.Inactivity.IdleCheck

/-!
The inactivity close among other transactions: its statements one by one, the
row lock between the first and the last, and whatever else commits meanwhile.
-/

namespace Kindred.Inactivity
open Lib (Table run)

/-- `||` -/
def Jsonb.concat : Jsonb → Jsonb → Jsonb
  | .object a, .object b => .object (a.filter (fun f => f.1 ∉ b.map Prod.fst) ++ b)
  | .array a, .array b => .array (a ++ b)
  | .array a, b => .array (a ++ [b])
  | a, .array b => .array (a :: b)
  | a, b => .array [a, b]

/-- `to_char(t AT TIME ZONE 'UTC', 'YYYY-MM-DD"T"HH24:MI:SS.MS"Z"')` -/
def isoText (t : Timestamp) : String :=
  let c := civil t
  .ofList (yearDigits c.year ++ '-' :: (fixed 2 c.month ++ '-' :: (fixed 2 c.day ++ 'T' ::
    (fixed 2 c.hour ++ ':' :: (fixed 2 c.minute ++ ':' :: (fixed 2 c.second ++ '.' ::
      (fixed 3 (c.micro / 1000) ++ ['Z'])))))))

def jsonText (o : Option String) : Jsonb := (o.map Jsonb.string).getD .null

structure CloseArgs where
  conversationId : Id
  expectedUpdatedAt : Option Timestamp
  source : String := "timer"
  lineBody : Option String := none
  lineMetadata : Option Jsonb := none
  lineId : String := ""

def closedLine (args : CloseArgs) (now : Timestamp) : List ConversationMessage :=
  if args.source = "timer" then
    args.lineBody.toList.map fun body =>
      let given : List (String × Jsonb) := match args.lineMetadata with
        | some (.object fields) => fields.filter (·.1 ≠ "internal")
        | _ => []
      { conversationId := args.conversationId
        senderType := some "system"
        body
        metadata := some ((Jsonb.object given).concat (.object [("kind", .string "conversation_closed"),
          ("by", .string "system"), ("closed_reason", .string "inactivity"),
          ("status", .string "closed"), ("agent_id", .null), ("agent_name", .null)]))
        createdAt := now
        id := args.lineId }
  else []

def closeSource (args : CloseArgs) : String :=
  if args.source = "backlog" then "inactivity_backlog" else "inactivity_timer"

def closeMarkers (args : CloseArgs) (now : Timestamp) (c : Conversation) (chk : IdleCheck) : Jsonb :=
  .object [("closed_reason", .string "inactivity"), ("closed_by", .string "system"),
    ("closed_at", .string (isoText now)), ("closed_from", jsonText (c.status.map (·.text))),
    ("closed_source", .string (closeSource args)),
    ("closed_idle_hours", (chk.idleHours.map (Jsonb.number · 0)).getD .null),
    ("closed_last_exchange_at", jsonText (chk.lastExchangeAt.map isoText)),
    ("closed_outcome", jsonText chk.closedOutcome),
    ("closed_line_id", jsonText ((closedLine args now).head?.map (·.id))),
    ("closed_prev_stamps", .object [
      ("routing_thread_ended_at", (c.md "routing_thread_ended_at").getD .null),
      ("ai_thread_reset_at", (c.md "ai_thread_reset_at").getD .null)]),
    ("routing_thread_ended_at", .string (isoText now)),
    ("ai_thread_reset_at", .string (isoText now))]

def closeEvent (args : CloseArgs) (c : Conversation) (chk : IdleCheck) : ConversationEvent where
  workspaceId := c.workspaceId
  conversationId := args.conversationId
  eventType := if c.status = some .resolved then "status_changed" else "resolved"
  payload := .object [("from", jsonText (c.status.map (·.text))), ("to", .string "closed"),
    ("reason", .string "inactivity"), ("source", .string (closeSource args)),
    ("idle_hours", (chk.idleHours.map (Jsonb.number · 0)).getD .null)]

/-- The line, the row and the event, of the row `c` as it was locked. -/
def writeClose (db : Db) (args : CloseArgs) (now : Timestamp) (c : Conversation) (chk : IdleCheck) :
    Db :=
  { db with
    messages := db.messages ++ closedLine args now
    conversations := db.conversations.update args.conversationId fun cv =>
      { cv with
        status := some .closed
        metadata := some ((cv.metadata.getD (.object [])).concat (closeMarkers args now c chk)) }
    events := db.events ++ [closeEvent args c chk] }

structure DueRow where
  conversationId : Id
  workspaceId : Id
  status : Option String
  updatedAt : Timestamp
  lastExchangeAt : Option Timestamp
  hasVisitorTurn : Bool
  idleHours : Option Int
  closedOutcome : Option String

def conversationIdleDue (db : Db) (now : Timestamp) (pLimit : Option Int) : List DueRow :=
  let limit := min (max (pLimit.getD 50) 1) 500
  if !(db.world.platform.any (·.inactivityCloseEnabled)) then []
  else
    let rows := db.conversations.rows.filterMap fun (id, c) =>
      let chk := conversationIdleCheck db now id
      if c.status ∈ [some .opened, some .pending, some .resolved] ∧ !c.isSpam ∧
          now - 30 * 24 * hour ≤ c.updatedAt ∧ c.updatedAt < now - hour ∧
          c.updatedAt < now - idleHours db c.workspaceId * hour ∧
          sqlText (c.md "app_review_seed") ≠ "true" ∧ chk.verdict = .due then
        some { conversationId := id, workspaceId := c.workspaceId
               status := c.status.map (·.text), updatedAt := c.updatedAt
               lastExchangeAt := chk.lastExchangeAt
               hasVisitorTurn := chk.lastVisitorAt.isSome, idleHours := chk.idleHours
               closedOutcome := chk.closedOutcome }
      else none
    (rows.mergeSort fun a b => a.updatedAt ≤ b.updatedAt).take limit.toNat

inductive Outcome where
  | raised (message : String)
  | disabled | notFound | changed
  | kept (verdict : Verdict)
  | closed
  | lost

inductive Phase where
  | begun (now : Timestamp)
  | locked (now : Timestamp) (c : Conversation)
  | checked (now : Timestamp) (c : Conversation) (chk : IdleCheck)
  | ended (outcome : Outcome)

def Phase.holds : Phase → Bool
  | .locked .. | .checked .. => true
  | _ => false

structure Closer where
  args : CloseArgs
  phase : Phase

structure State where
  db : Db := {}
  closers : Table ℕ Closer := .empty
  listed : List DueRow := []

def State.rowLocked (s : State) (id : Id) : Bool :=
  s.closers.rows.any fun k => k.2.args.conversationId = id && k.2.phase.holds

def begin (db : Db) (args : CloseArgs) (now : Timestamp) : Phase :=
  if args.source ≠ "timer" ∧ args.source ≠ "backlog" then
    .ended (.raised ("conversation_close_if_idle: unknown source " ++ args.source))
  else if args.source = "backlog" ∧ (args.lineBody.isSome ∨ args.lineMetadata.isSome) then
    .ended (.raised "conversation_close_if_idle: the backlog close writes no visitor line")
  else if args.source = "timer" ∧ !(db.world.platform.any (·.inactivityCloseEnabled)) then
    .ended .disabled
  else .begun now

/-- `SELECT … FOR UPDATE` and the comparison of `updated_at`. -/
def lockRow (db : Db) (args : CloseArgs) (now : Timestamp) : Phase :=
  match db.conversations.get args.conversationId with
  | none => .ended .notFound
  | some c => if args.expectedUpdatedAt ≠ some c.updatedAt then .ended .changed else .locked now c

def checkAgain (db : Db) (args : CloseArgs) (now : Timestamp) (c : Conversation) : Phase :=
  let chk := conversationIdleCheck db now args.conversationId
  if chk.verdict ≠ .due then .ended (.kept chk.verdict) else .checked now c chk

inductive Action where
  | start (k : ℕ) (args : CloseArgs) (now : Timestamp)
  | lock (k : ℕ)
  | check (k : ℕ)
  | finish (k : ℕ)
  | lose (k : ℕ)
  | list (now : Timestamp) (limit : Option Int)
  | insertMessage (m : ConversationMessage)
  /-- An `UPDATE` of a message: a delivery that failed, say. -/
  | editMessage (i : ℕ) (body : Option String) (metadata : Option Jsonb)
  | deleteMessage (i : ℕ)
  | writeConversation (id : Id) (c : Option Conversation)
  | writeWorld (world : World)

def State.setPhase (s : State) (k : ℕ) (phase : Phase) : State :=
  { s with closers := s.closers.update k fun closer => { closer with phase } }

def step (s : State) : Action → State
  | .start k args now =>
    if (s.closers.get k).isSome then s
    else { s with closers := s.closers.put k ⟨args, begin s.db args now⟩ }
  | .lock k =>
    match s.closers.get k with
    | some ⟨args, .begun now⟩ =>
      if s.rowLocked args.conversationId then s else s.setPhase k (lockRow s.db args now)
    | _ => s
  | .check k =>
    match s.closers.get k with
    | some ⟨args, .locked now c⟩ => s.setPhase k (checkAgain s.db args now c)
    | _ => s
  | .finish k =>
    match s.closers.get k with
    | some ⟨args, .checked now c chk⟩ =>
      { s.setPhase k (.ended .closed) with db := writeClose s.db args now c chk }
    | _ => s
  | .lose k =>
    match s.closers.get k with
    | some ⟨_, .ended _⟩ | none => s
    | some _ => s.setPhase k (.ended .lost)
  | .list now limit => { s with listed := conversationIdleDue s.db now limit }
  -- The foreign key takes KEY SHARE on the conversation, which FOR UPDATE excludes.
  | .insertMessage m =>
    if s.rowLocked m.conversationId then s
    else { s with db.messages := s.db.messages ++ [m] }
  | .editMessage i body metadata =>
    { s with db.messages := s.db.messages.modify i fun m => { m with body, metadata } }
  | .deleteMessage i => { s with db.messages := s.db.messages.eraseIdx i }
  | .writeConversation id c =>
    if s.rowLocked id then s
    else match c with
      | some c => { s with db.conversations := s.db.conversations.put id c }
      | none => { s with db.conversations := s.db.conversations.erase id }
  | .writeWorld world => { s with db.world := world }

def reached (db : Db) (as : List Action) : State := run step { db } as

inductive Moves (s : State) (k : ℕ) (args : CloseArgs) : Action → Phase → Prop
  | start {now : Timestamp} (h : s.closers.get k = none) :
    Moves s k args (.start k args now) (begin s.db args now)
  | lock {now : Timestamp} (h : s.closers.get k = some ⟨args, .begun now⟩)
    (hfree : s.rowLocked args.conversationId = false) :
    Moves s k args (.lock k) (lockRow s.db args now)
  | check {now : Timestamp} {c : Conversation} (h : s.closers.get k = some ⟨args, .locked now c⟩) :
    Moves s k args (.check k) (checkAgain s.db args now c)
  | finish {now : Timestamp} {c : Conversation} {chk : IdleCheck}
    (h : s.closers.get k = some ⟨args, .checked now c chk⟩) :
    Moves s k args (.finish k) (.ended .closed)
  | lose : Moves s k args (.lose k) (.ended .lost)

variable {s : State} {k : ℕ} {phase : Phase} {a : Action} {args : CloseArgs}

variable {phase' : Phase} {db : Db} {id : Id} {now : Timestamp} {c : Conversation} {chk : IdleCheck}
  {cs : CallSession}

theorem closers_setPhase {k' : ℕ} {args' : CloseArgs}
    (h : (s.setPhase k phase).closers.get k' = some ⟨args', phase'⟩) :
    s.closers.get k' = some ⟨args', phase'⟩ ∨
      k' = k ∧ phase' = phase ∧ ∃ before, s.closers.get k = some ⟨args', before⟩ := by
  simp only [State.setPhase, Table.get_update] at h
  split at h
  · rename_i hk
    obtain ⟨closer, hcloser, heq⟩ := Option.map_eq_some_iff.mp h
    cases heq
    exact .inr ⟨hk, rfl, _, hcloser⟩
  · exact .inl h

theorem moves_of_step (h : (step s a).closers.get k = some ⟨args, phase⟩) :
    s.closers.get k = some ⟨args, phase⟩ ∨ Moves s k args a phase := by
  cases a with
  | start k' args' now =>
    simp only [step] at h
    split at h
    · exact .inl h
    · rename_i hnone
      rw [Table.get_put] at h
      split at h
      · rename_i hk
        cases h
        subst hk
        exact .inr (.start (by simpa using hnone))
      · exact .inl h
  | lock k' =>
    simp only [step] at h
    split at h
    · rename_i args' now hk'
      split at h
      · exact .inl h
      · rename_i hfree
        rcases closers_setPhase h with h | ⟨rfl, rfl, before, hb⟩
        · exact .inl h
        · rw [hk'] at hb
          cases hb
          exact .inr (.lock hk' (by simpa using hfree))
    · exact .inl h
  | check k' =>
    simp only [step] at h
    split at h
    · rename_i args' now c hk'
      rcases closers_setPhase h with h | ⟨rfl, rfl, before, hb⟩
      · exact .inl h
      · rw [hk'] at hb
        cases hb
        exact .inr (.check hk')
    · exact .inl h
  | finish k' =>
    simp only [step] at h
    split at h
    · rename_i args' now c chk hk'
      rcases closers_setPhase (s := s) h with h | ⟨rfl, rfl, before, hb⟩
      · exact .inl h
      · rw [hk'] at hb
        cases hb
        exact .inr (.finish hk')
    · exact .inl h
  | lose k' =>
    simp only [step] at h
    split at h
    · exact .inl h
    · exact .inl h
    · rcases closers_setPhase h with h | ⟨rfl, rfl, -⟩
      · exact .inl h
      · exact .inr .lose
  | insertMessage m =>
    simp only [step] at h
    split at h <;> exact .inl h
  | writeConversation id c =>
    simp only [step] at h
    split at h
    · exact .inl h
    · split at h <;> exact .inl h
  | list | editMessage | deleteMessage | writeWorld => exact .inl h

theorem rowLocked_of_holds (h : s.closers.get k = some ⟨args, phase⟩) (hh : phase.holds) :
    s.rowLocked args.conversationId := by
  refine List.any_eq_true.mpr ⟨_, Table.get_eq_some_iff_mem.mp h, ?_⟩
  simp [hh]

structure Locks (s : State) : Prop where
  alone : ∀ k k' args args' phase phase', s.closers.get k = some ⟨args, phase⟩ →
    s.closers.get k' = some ⟨args', phase'⟩ → phase.holds → phase'.holds →
    args.conversationId = args'.conversationId → k = k'
  row : ∀ k args phase, s.closers.get k = some ⟨args, phase⟩ → ∀ now c,
    (phase = .locked now c ∨ ∃ chk, phase = .checked now c chk) →
      s.db.conversations.get args.conversationId = some c ∧
        args.expectedUpdatedAt = some c.updatedAt

def times (db : Db) (id : Id) : List Timestamp :=
  (db.messages.filter fun m => m.conversationId = id).map fun m => m.createdAt

theorem times_modify {f : ConversationMessage → ConversationMessage} {i : ℕ}
    (hf : ∀ m, (f m).conversationId = m.conversationId ∧ (f m).createdAt = m.createdAt) :
    times { db with messages := db.messages.modify i f } id = times db id := by
  unfold times
  induction db.messages generalizing i with
  | nil => cases i <;> rfl
  | cons m messages ih =>
    cases i with
    | zero => simp only [List.modify_zero_cons, List.filter_cons, (hf m).1]; split <;> simp [hf m]
    | succ i =>
      simp only [List.modify_succ_cons, List.filter_cons]
      split <;> simp [ih]

def Keeps (id : Id) (db db' : Db) : Prop :=
  db'.conversations.get id = db.conversations.get id ∧ (times db' id).Sublist (times db id)

theorem Keeps.refl (id : Id) (db : Db) : Keeps id db db := ⟨rfl, List.Sublist.refl _⟩

theorem Keeps.trans {db' db'' : Db} (h : Keeps id db db') (h' : Keeps id db' db'') :
    Keeps id db db'' :=
  ⟨h'.1.trans h.1, h'.2.trans h.2⟩

theorem writeClose_keeps (h : id ≠ args.conversationId)
    : Keeps id db (writeClose db args now c chk) := by
  refine ⟨Table.get_update_ne _ _ h, ?_⟩
  have hline : (closedLine args now).filter (fun m => m.conversationId = id) = [] := by
    unfold closedLine
    split
    · cases args.lineBody <;> simp [Ne.symm h]
    · rfl
  simp [times, writeClose, hline]

/-- As long as a close holds the row, nothing writes it. -/
theorem step_keeps (hs : Locks s) (h : s.closers.get k = some ⟨args, phase⟩) (hh : phase.holds)
    (h' : (step s a).closers.get k = some ⟨args, phase'⟩) (hh' : phase'.holds) :
    Keeps args.conversationId s.db (step s a).db := by
  have hlocked := rowLocked_of_holds h hh
  cases a with
  | start k' args' now =>
    simp only [step]
    split <;> exact Keeps.refl _ _
  | lock k' =>
    simp only [step]
    split
    · split <;> exact Keeps.refl _ _
    · exact Keeps.refl _ _
  | check k' =>
    simp only [step]
    split <;> exact Keeps.refl _ _
  | finish k' =>
    simp only [step] at h' ⊢
    split at h' <;> rename_i hk'
    · refine writeClose_keeps fun hid => ?_
      have hsame := hs.alone k k' _ _ _ _ h hk' hh rfl hid
      subst hsame
      simp only [State.setPhase, Table.get_update_self, hk', Option.map_some] at h'
      cases h'
      simp [Phase.holds] at hh'
    · exact Keeps.refl _ _
  | lose k' =>
    simp only [step]
    split <;> exact Keeps.refl _ _
  | insertMessage m =>
    simp only [step]
    split
    · exact Keeps.refl _ _
    · rename_i hfree
      refine ⟨rfl, ?_⟩
      have hid : m.conversationId ≠ args.conversationId := fun hid => hfree (hid ▸ hlocked)
      simp [times, hid]
  | editMessage i body metadata =>
    refine ⟨rfl, ?_⟩
    have heq : times (step s (.editMessage i body metadata)).db args.conversationId =
        times s.db args.conversationId := times_modify fun m => ⟨rfl, rfl⟩
    rw [heq]
  | deleteMessage i =>
    exact ⟨rfl, ((List.eraseIdx_sublist _ _).filter _).map _⟩
  | writeConversation id c =>
    simp only [step]
    split
    · exact Keeps.refl _ _
    · rename_i hfree
      have hid : args.conversationId ≠ id := fun hid => hfree (hid ▸ hlocked)
      split
      · exact ⟨Table.get_put_ne _ _ hid, List.Sublist.refl _⟩
      · refine ⟨?_, List.Sublist.refl _⟩
        simp [Table.get_erase, hid]
  | list | writeWorld => exact ⟨rfl, List.Sublist.refl _⟩

theorem locks_of_db (hs : Locks s) (h : s.closers.get k = some ⟨args, phase⟩)
    (hphase : phase = .locked now c ∨ ∃ chk, phase = .checked now c chk)
    (hkeeps : Keeps args.conversationId s.db db) :
    db.conversations.get args.conversationId = some c ∧ args.expectedUpdatedAt = some c.updatedAt :=
  ⟨hkeeps.1.trans (hs.row k args phase h now c hphase).1, (hs.row k args phase h now c hphase).2⟩

theorem holds_before (h : (step s a).closers.get k = some ⟨args, phase⟩) (hh : phase.holds) :
    (∃ before, s.closers.get k = some ⟨args, before⟩ ∧ before.holds) ∨
      a = .lock k ∧ s.rowLocked args.conversationId = false := by
  rcases moves_of_step h with h | h
  · exact .inl ⟨phase, h, hh⟩
  cases h with
  | start hnone =>
    unfold begin at hh
    split_ifs at hh
    all_goals simp [Phase.holds] at hh
  | lock hk hfree => exact .inr ⟨rfl, hfree⟩
  | check hk => exact .inl ⟨_, hk, rfl⟩
  | finish | lose => simp [Phase.holds] at hh

theorem locks_step (hs : Locks s) (a : Action) : Locks (step s a) where
  alone k k' args args' phase phase' h h' hh hh' hid := by
    rcases holds_before h hh with ⟨before, hb, hbh⟩ | ⟨ha, hfree⟩ <;>
      rcases holds_before h' hh' with ⟨before', hb', hbh'⟩ | ⟨ha', hfree'⟩
    · exact hs.alone k k' _ _ _ _ hb hb' hbh hbh' hid
    · have := rowLocked_of_holds hb hbh
      rw [hid, hfree'] at this
      simp at this
    · have := rowLocked_of_holds hb' hbh'
      rw [← hid, hfree] at this
      simp at this
    · rw [ha] at ha'
      cases ha'
      rfl
  row k args phase h now c hphase := by
    have hh : phase.holds := by rcases hphase with rfl | ⟨chk, rfl⟩ <;> rfl
    rcases moves_of_step h with hk | hk
    · exact locks_of_db hs hk hphase (step_keeps hs hk hh h hh)
    cases hk with
    | start hnone =>
      unfold begin at hh
      split_ifs at hh
      all_goals simp [Phase.holds] at hh
    | lock hk hfree =>
      have hdb : (step s (.lock k)).db = s.db := by
        simp [step, hk, hfree, State.setPhase]
      rw [hdb]
      unfold lockRow at hphase
      split at hphase
      · simp at hphase
      · rename_i c' hrow
        split at hphase
        · simp at hphase
        · rename_i hexpected
          simp only [Phase.locked.injEq, reduceCtorEq, exists_false, or_false] at hphase
          obtain ⟨-, rfl⟩ := hphase
          exact ⟨hrow, by simpa using hexpected⟩
    | check hk =>
      have hkeeps := step_keeps hs hk rfl h hh
      have hsame := hs.row k args _ hk _ _ (.inl rfl)
      unfold checkAgain at hphase
      dsimp only at hphase
      split at hphase
      · simp at hphase
      · simp only [reduceCtorEq, Phase.checked.injEq, false_or] at hphase
        obtain ⟨chk, -, rfl, -⟩ := hphase
        exact ⟨hkeeps.1.trans hsame.1, hsame.2⟩
    | finish | lose => simp at hphase

theorem locks_reached (db : Db) (as : List Action) : Locks (reached db as) := by
  have hinit : Locks { db } := by constructor <;> simp
  exact Lib.run_invariant (I := Locks) (fun s a hs => locks_step hs a) hinit as

theorem reached_append (db : Db) (as bs : List Action) :
    reached db (as ++ bs) = run step (reached db as) bs := Lib.run_append ..

theorem reached_snoc (db : Db) (as : List Action) (a : Action) :
    reached db (as ++ [a]) = step (reached db as) a := reached_append ..

/-- Nothing waits in the conversation, with `Live` for the calls that count as live. -/
structure Quiet (Live : Timestamp → CallSession → Prop) (db : Db) (args : CloseArgs)
    (now : Timestamp) (c : Conversation) : Prop where
  row : db.conversations.get args.conversationId = some c
  notClosed : c.status ≠ some .closed
  unchanged : args.expectedUpdatedAt = some c.updatedAt
  noExchange : ∀ m ∈ db.messages, m.conversationId = args.conversationId → m.turn.isSome →
    m.createdAt ≤ now - idleHours db c.workspaceId * hour
  noRecentCall : ∀ cs ∈ calls db args.conversationId, ∀ t ∈ cs.connectedAt,
    cs.endedAt.getD t ≤ now - idleHours db c.workspaceId * hour
  answered : c.status = some .opened → ∀ v ∈ db.messages,
    v.conversationId = args.conversationId → v.turn = some .visitor →
      (∃ m ∈ db.messages, m.conversationId = args.conversationId ∧ m.turn = some .team ∧
        v.createdAt < m.createdAt) ∨
      ∃ cs ∈ calls db args.conversationId, ∃ t ∈ cs.connectedAt, v.createdAt < t
  notHandedOff : sqlText (c.md "ai_state") ∉ ["needs_human", "human_assigned"] ∧
    sqlText (c.md "ai_handoff_requested") ≠ "true"
  notRouted : c.assignedTo = none → sqlText (c.md "routing_pending") ≠ "true" ∧
    ¬ (isString (c.md "queued_at") ∧ sqlText (c.md "routing_outcome") = "manual_queue")
  noWait : ∀ s ∈ db.world.routingStates.get args.conversationId,
    s.waitingSince = none ∧ s.prechatDeadline = none ∧ s.timeoutDueAt = none
  noCall : ∀ cs ∈ calls db args.conversationId, ¬ Live now cs
  noInvitation : ∀ ci ∈ db.world.callInvitations, ci.conversationId = some args.conversationId →
    ci.status = "pending" → ci.expiresAt ≤ now
  noQueueEntry : ∀ q ∈ db.world.callQueueEntries, q.conversationId = some args.conversationId →
    q.status ∈ ["queued", "offered", "accepted"] → q.expiresAt ≤ now
  noCallback : ∀ r ∈ db.world.callbackRequests, r.conversationId = some args.conversationId →
    r.status ∉ ["requested", "scheduled", "in_progress"]
  noGuidance : ∀ g ∈ db.world.guidanceRequests, g.conversationId = some args.conversationId →
    g.status ≠ "pending"

/-- Each conversation that a run closed was quiet when its row was locked and checked again, and
had the same row and no message more when it was closed. -/
def ClosesQuietly (Live : Timestamp → CallSession → Prop) (db : Db) (as : List Action) : Prop :=
  ∀ k args, (reached db as).closers.get k = some ⟨args, .ended .closed⟩ →
    ∃ now c bs cs ds, as = bs ++ .check k :: (cs ++ .finish k :: ds) ∧
      Quiet Live (reached db bs).db args now c ∧
      Keeps args.conversationId (reached db bs).db (reached db (bs ++ .check k :: cs)).db

def Believed (now : Timestamp) (cs : CallSession) : Prop := cs.believed now

section Due
variable {db : Db} {now : Timestamp} {id : Id} {c : Conversation}

theorem Due.stamps (h : Due db now id c) :
    ∀ o ∈ [newest db id "contact" .visitor, newest db id "agent" .team, newest db id "ai" .team,
      callEnd db now id], ∀ t ∈ o, t ≤ now - idleHours db c.workspaceId * hour := by
  have hquiet := h.quiet
  unfold lastExchange at hquiet
  refine all_greatest_le.mp ?_
  cases hg : greatest [newest db id "contact" .visitor, newest db id "agent" .team,
      newest db id "ai" .team, callEnd db now id] with
  | none => rfl
  | some t =>
    rw [hg, Option.getD_some] at hquiet
    simpa using hquiet

theorem Due.no_exchange (h : Due db now id c) {m : ConversationMessage} (hm : m ∈ db.messages)
    (hid : m.conversationId = id) (ht : m.turn.isSome) :
    m.createdAt ≤ now - idleHours db c.workspaceId * hour := by
  have hstamps := h.stamps
  have hle (sender : String) (turn : Turn) (hs : m.senderType = some sender)
      (hturn : m.turn = some turn)
      (hnewest : ∀ t ∈ newest db id sender turn, t ≤ now - idleHours db c.workspaceId * hour) :
      m.createdAt ≤ now - idleHours db c.workspaceId * hour := by
    refine all_newest_le.mp ?_ m hm hid hs hturn
    simpa [Option.all_eq_true] using hnewest
  simp only [List.mem_cons, List.not_mem_nil, or_false, forall_eq_or_imp, forall_eq] at hstamps
  obtain ⟨hvisitor, hagent, hai, -⟩ := hstamps
  rcases hturn : m.turn with _ | _ | _
  · simp [hturn] at ht
  · exact hle "contact" .visitor (turn_sender hturn) hturn hvisitor
  · rcases turn_sender hturn with hs | hs
    · exact hle "agent" .team hs hturn hagent
    · exact hle "ai" .team hs hturn hai

theorem Due.not_believed (h : Due db now id c) (hcs : cs ∈ calls db id) :
    cs.believed now = false := by
  have hcall := h.noCall
  simp only [liveCall, Bool.or_eq_false_iff, List.any_eq_false] at hcall
  simpa using hcall.1.1 cs hcs

theorem Due.no_recent_call (h : Due db now id c) (hcs : cs ∈ calls db id) {t : Timestamp}
    (ht : cs.connectedAt = some t) :
    cs.endedAt.getD t ≤ now - idleHours db c.workspaceId * hour := by
  have hend := h.stamps (callEnd db now id) (by simp)
  have hall := all_greatest_le (l := (calls db id).map (·.lastExchange now))
    (v := now - idleHours db c.workspaceId * hour)
  have hle := hall.mp (by simpa [Option.all_eq_true, callEnd] using hend)
  refine hle _ (List.mem_map_of_mem hcs) _ ?_
  simp [CallSession.lastExchange, ht, h.not_believed hcs]

theorem Due.turn_answered (h : Due db now id c) (hopen : c.status = some .opened)
    {v : ConversationMessage} (hv : v ∈ db.messages) (hid : v.conversationId = id)
    (hturn : v.turn = some .visitor) :
    (∃ m ∈ db.messages, m.conversationId = id ∧ m.turn = some .team ∧ v.createdAt < m.createdAt) ∨
      ∃ cs ∈ calls db id, ∃ t ∈ cs.connectedAt, v.createdAt < t := by
  by_contra hnot
  simp only [not_or, not_exists, not_and, not_lt] at hnot
  have howed : replyOwed db id c = true := replyOwed_iff.mpr ⟨hopen, v, hv, hid, hturn,
    fun m hm hmid ht => hnot.1 m hm hmid ht, fun cs hcs t ht => hnot.2 cs hcs t ht⟩
  rw [h.answered] at howed
  exact Bool.false_ne_true howed

end Due

theorem quiet_of_due (h : Due db now args.conversationId c)
    (hexpected : args.expectedUpdatedAt = some c.updatedAt) : Quiet Believed db args now c where
  row := h.row
  notClosed := h.notClosed
  unchanged := hexpected
  noExchange _ hm hid ht := h.no_exchange hm hid ht
  noRecentCall _ hcs _ ht := h.no_recent_call hcs ht
  answered hopen _ hv hid hturn := h.turn_answered hopen hv hid hturn
  notHandedOff := by
    have hnot := h.notHandedOff
    simpa [handedOff] using hnot
  notRouted := by
    intro hfree
    have hnot := h.notRouted
    simp only [routingWait, hfree, Option.isNone_none, Bool.and_true, Bool.true_and,
      Bool.or_eq_false_iff, Bool.and_eq_false_iff, decide_eq_false_iff_not] at hnot
    refine ⟨hnot.1.1, ?_⟩
    rintro ⟨hstring, hmanual⟩
    rcases hnot.1.2 with hs | hs
    · simp [hstring] at hs
    · exact hs hmanual
  noWait := by
    intro s hs
    have hnot := h.notRouted
    simp only [routingWait, Option.mem_def.mp hs, Option.any_some, Bool.or_eq_false_iff,
      Option.isSome_eq_false_iff, Option.isNone_iff_eq_none] at hnot
    exact ⟨hnot.2.1.1, hnot.2.1.2, hnot.2.2⟩
  noCall cs hcs := by
    simp [Believed, h.not_believed hcs]
  noInvitation := by
    have hnot := h.noCall
    simp only [liveCall, Bool.or_eq_false_iff, List.any_eq_false] at hnot
    intro ci hci hid hpending
    simpa [hid, hpending] using hnot.1.2 ci hci
  noQueueEntry := by
    have hnot := h.noCall
    simp only [liveCall, Bool.or_eq_false_iff, List.any_eq_false] at hnot
    intro q hq hid hopen
    simpa [hid, hopen] using hnot.2 q hq
  noCallback := by
    have hnot := h.noCallback
    simp only [openCallback, List.any_eq_false] at hnot
    intro r hr hid hopen
    exact hnot r hr (by simp only [hid, hopen, decide_true, Bool.and_true])
  noGuidance := by
    have hnot := h.noGuidance
    simp only [pendingGuidance, List.any_eq_false] at hnot
    intro g hg hid hpending
    exact hnot g hg (by simp only [hid, hpending, decide_true, Bool.and_true])

theorem checked_of_moves (hs : Locks s) (h : Moves s k args a phase)
    (hphase : phase = .checked now c chk) :
    a = .check k ∧ s.closers.get k = some ⟨args, .locked now c⟩ ∧
      Quiet Believed s.db args now c := by
  cases h with
  | start hnone =>
    unfold begin at hphase
    split_ifs at hphase
  | lock hk hfree =>
    unfold lockRow at hphase
    split at hphase
    · simp at hphase
    · split at hphase <;> simp at hphase
  | check hk =>
    unfold checkAgain at hphase
    dsimp only at hphase
    split at hphase
    · simp at hphase
    · rename_i hdue
      obtain ⟨rfl, rfl, -⟩ := hphase
      obtain ⟨hrow, hexpected⟩ := hs.row k args _ hk _ _ (.inl rfl)
      obtain ⟨c', hc'⟩ := due_of_verdict (not_not.mp hdue)
      have hsame : c' = _ := Option.some.inj (hc'.row.symm.trans hrow)
      subst hsame
      exact ⟨rfl, hk, quiet_of_due hc' hexpected⟩
  | finish | lose => simp at hphase

theorem finish_of_moves (h : Moves s k args a phase) (hphase : phase = .ended .closed) :
    ∃ now c chk, a = .finish k ∧ s.closers.get k = some ⟨args, .checked now c chk⟩ := by
  cases h with
  | start hnone =>
    unfold begin at hphase
    split_ifs at hphase <;> simp at hphase
  | lock hk hfree =>
    unfold lockRow at hphase
    split at hphase
    · simp at hphase
    · split at hphase <;> simp at hphase
  | check hk =>
    unfold checkAgain at hphase
    dsimp only at hphase
    split at hphase <;> simp at hphase
  | finish hk => exact ⟨_, _, _, rfl, hk⟩
  | lose => simp at hphase

theorem checked_quiet (db : Db) (as : List Action)
    (h : (reached db as).closers.get k = some ⟨args, .checked now c chk⟩) :
    ∃ bs cs, as = bs ++ .check k :: cs ∧ Quiet Believed (reached db bs).db args now c ∧
      Keeps args.conversationId (reached db bs).db (reached db as).db := by
  induction as using List.reverseRecOn with
  | nil => simp [reached] at h
  | append_singleton as a ih =>
    have hlocks := locks_reached db as
    rw [reached_snoc] at h ⊢
    rcases moves_of_step h with hk | hk
    · obtain ⟨bs, cs, rfl, hquiet, hkeeps⟩ := ih hk
      refine ⟨bs, cs ++ [a], by simp, hquiet, hkeeps.trans ?_⟩
      exact step_keeps hlocks hk rfl h rfl
    · obtain ⟨rfl, hlocked, hquiet⟩ := checked_of_moves hlocks hk rfl
      exact ⟨as, [], rfl, hquiet, step_keeps hlocks hlocked rfl h rfl⟩

/-- Every close of every run saw its conversation quiet, as the check reads the calls. -/
theorem closes_quietly (db : Db) (as : List Action) : ClosesQuietly Believed db as := by
  intro k args h
  induction as using List.reverseRecOn with
  | nil => simp [reached] at h
  | append_singleton as a ih =>
    rw [reached_snoc] at h
    rcases moves_of_step h with hk | hk
    · obtain ⟨now, c, bs, cs, ds, rfl, hquiet, hkeeps⟩ := ih hk
      exact ⟨now, c, bs, cs, ds ++ [a], by simp, hquiet, hkeeps⟩
    · obtain ⟨now, c, chk, rfl, hchecked⟩ := finish_of_moves hk rfl
      obtain ⟨bs, cs, rfl, hquiet, hkeeps⟩ := checked_quiet db as hchecked
      exact ⟨now, c, bs, cs, [], by simp, hquiet, hkeeps⟩

def longCall : Db where
  conversations := Table.empty.put 0 { workspaceId := 7, createdAt := 0, updatedAt := 0 }
  world := { callSessions :=
    [{ contextId := some 0, state := .active, connectedAt := some 0, createdAt := 0 }] }

def closing : List Action :=
  [.start 0 { conversationId := 0, expectedUpdatedAt := some 0 } (48 * hour), .lock 0, .check 0,
    .finish 0]

/-- A call that is still active does not keep its conversation open after 12 hours. -/
theorem closes_during_call : ¬ ClosesQuietly (fun _ cs => cs.live) longCall closing := by
  intro h
  obtain ⟨now, c, bs, cs, ds, has, hquiet, -⟩ :=
    h 0 { conversationId := 0, expectedUpdatedAt := some 0 } rfl
  have hworld : (reached longCall bs).db.world = longCall.world := by
    rcases bs with _ | ⟨a, _ | ⟨b, _ | ⟨e, bs⟩⟩⟩ <;> simp [closing] at has
    · obtain ⟨rfl, rfl, -⟩ := has
      rfl
    · obtain ⟨-, -, -, hrest⟩ := has
      have := congrArg List.length hrest
      simp at this
      omega
  refine hquiet.noCall
    { contextId := some 0, state := .active, connectedAt := some 0, createdAt := 0 } ?_ rfl
  rw [calls, hworld]
  simp [longCall]

end Kindred.Inactivity
