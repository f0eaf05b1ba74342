import Kindred.Inactivity.Closing

/-! An inactivity close that a racing message of the visitor takes back. -/

namespace Kindred.Inactivity
open Lib (Table)

/-- The close with nothing between its statements; `none` when it does not close. -/
def closeIfIdle (db : Db) (args : CloseArgs) (now : Timestamp) : Option Db :=
  match begin db args now, lockRow db args now with
  | .begun _, .locked _ c =>
    match checkAgain db args now c with
    | .checked _ c chk => some (writeClose db args now c chk)
    | _ => none
  | _, _ => none

/-- `-`, of an object. -/
def Jsonb.without (keys : List String) : Jsonb → Jsonb
  | .object fields => .object (fields.filter (·.1 ∉ keys))
  | v => v

namespace Jsonb

mutual
/-- `jsonb_strip_nulls` -/
def stripNulls : Jsonb → Jsonb
  | object fields => object (stripFields fields)
  | array items => array (stripItems items)
  | v => v

def stripItems : List Jsonb → List Jsonb
  | [] => []
  | v :: vs => v.stripNulls :: stripItems vs

def stripFields : List (String × Jsonb) → List (String × Jsonb)
  | [] => []
  | (_, null) :: fields => stripFields fields
  | (key, v) :: fields => (key, v.stripNulls) :: stripFields fields
end

end Jsonb

structure ReopenArgs where
  workspaceId : Id
  conversationId : Id
  messageId : Option Id := none
  graceSeconds : Option Int := some 60

def grace (args : ReopenArgs) : Int := min (max (args.graceSeconds.getD 60) 0) 600 * 1000000

def CLOSED_KEYS : List String :=
  ["closed_reason", "closed_by", "closed_at", "closed_from", "closed_source", "closed_idle_hours",
    "closed_last_exchange_at", "closed_outcome", "closed_line_id", "closed_prev_stamps"]

def threadStamps : List String := ["routing_thread_ended_at", "ai_thread_reset_at"]

def isHex (c : Char) : Bool := c.isDigit || c.toLower ∈ ['a', 'b', 'c', 'd', 'e', 'f']

/-- The pattern of a UUID, and the UUID as `uuid` prints it. -/
def uuidOf (text : String) : Option String :=
  let groups := Rest.split '-' text
  if groups.map String.length = [8, 4, 4, 4, 12] ∧ groups.all (·.toList.all isHex) then
    some (text.map Char.toLower)
  else none

def restoredStatus (metadata : Option Jsonb) : ConversationStatus :=
  let from_ := sqlText (field metadata "closed_from")
  if from_ = "pending" then .pending else if from_ = "resolved" then .resolved else .opened

def undone (metadata : Option Jsonb) (now : Timestamp) : Jsonb :=
  let previous := field metadata "closed_prev_stamps"
  (((metadata.getD (.object [])).without (CLOSED_KEYS ++ threadStamps)).concat
    (Jsonb.stripNulls (.object (threadStamps.map fun key =>
      (key, (field previous key).getD .null))))).concat
    (.object [("idle_close_undone_at", .string (isoText now))])

def retract (m : ConversationMessage) : ConversationMessage :=
  let metadata := (m.metadata.getD (.object [])).concat (.object [("internal", .bool true)])
  { m with metadata := some metadata }

def reopenEvent (args : ReopenArgs) (restored : ConversationStatus) : ConversationEvent where
  workspaceId := args.workspaceId
  conversationId := args.conversationId
  eventType := "reopened"
  payload := .object [("from", .string "closed"), ("to", .string restored.text),
    ("reason", .string "customer_replied_after_inactivity_close"),
    ("message_id", jsonText (args.messageId.map toString))]

def writeReopen (db : Db) (args : ReopenArgs) (now : Timestamp) (c : Conversation) : Db :=
  let restored := restoredStatus c.metadata
  let line := uuidOf (sqlText (c.md "closed_line_id"))
  { db with
    conversations := db.conversations.put args.conversationId
      { c with status := some restored, updatedAt := now
               metadata := some (undone c.metadata now) }
    messages := db.messages.map fun m =>
      if line = some m.id ∧ m.conversationId = args.conversationId then retract m else m
    events := db.events ++ [reopenEvent args restored] }

/-- The status that it puts back, `none` when it leaves the conversation alone. `timestamptz`
is the cast of a text. -/
def reopenAfterIdleClose (timestamptz : String → Option Timestamp) (db : Db) (args : ReopenArgs)
    (now : Timestamp) : Option ConversationStatus × Db :=
  match db.conversations.get args.conversationId with
  | none => (none, db)
  | some c =>
    let closedAt := match c.md "closed_at" with
      | some (.string text) => timestamptz text
      | _ => none
    -- A status of NULL is not other than closed.
    if c.workspaceId ≠ args.workspaceId ∨ (c.status ≠ none ∧ c.status ≠ some .closed) ∨
        sqlText (c.md "closed_reason") ≠ "inactivity" ∨ closedAt.all (grace args < now - ·) then
      (none, db)
    else (some (restoredStatus c.metadata), writeReopen db args now c)

theorem lookup_filter (fields : List (String × Jsonb)) (keys : List String) (key : String) :
    (fields.filter (·.1 ∉ keys)).lookup key = if key ∈ keys then none else fields.lookup key := by
  induction fields with
  | nil => simp
  | cons f fields ih =>
    obtain ⟨k, v⟩ := f
    by_cases hk : k = key <;> grind

theorem field_concat (a b : List (String × Jsonb)) (key : String) :
    field (some ((Jsonb.object a).concat (.object b))) key = (b.lookup key).or (a.lookup key) := by
  simp only [field, Jsonb.concat, List.lookup_append, lookup_filter]
  split
  · next hmem =>
    obtain ⟨f, hf, rfl⟩ := List.mem_map.mp hmem
    cases hb : b.lookup f.1 with
    | none => simpa using List.lookup_eq_none_iff.mp hb f hf
    | some v => rfl
  · next hmem =>
    have hb : b.lookup key = none := List.lookup_eq_none_iff.mpr fun f hf => by
      simp only [bne_iff_ne, ne_eq]
      rintro rfl
      exact hmem (List.mem_map_of_mem hf)
    simp [hb]

def withoutNulls : Option Jsonb → Option Jsonb
  | none | some .null => none
  | some v => some v.stripNulls

theorem lookup_stripFields (stamp : String) (v : Option Jsonb) (fields : List (String × Jsonb))
    (key : String) : (Jsonb.stripFields ((stamp, v.getD .null) :: fields)).lookup key =
      (if key = stamp then withoutNulls v else none).or
        ((Jsonb.stripFields fields).lookup key) := by
  rcases v with _ | _ | _ | _ | _ | _ | _ <;>
    simp only [Option.getD_none, Option.getD_some, Jsonb.stripFields, withoutNulls, ite_self,
      Option.none_or, List.lookup_cons] <;>
    cases h : key == stamp <;> simp_all

def Conversation.isObject (c : Conversation) : Prop :=
  ∃ fields, c.metadata.getD (.object []) = .object fields

section Keys
variable {args : CloseArgs} {now : Timestamp} {c : Conversation} {chk : IdleCheck}

def marked (args : CloseArgs) (now : Timestamp) (c : Conversation) (chk : IdleCheck) : Jsonb :=
  (c.metadata.getD (.object [])).concat (closeMarkers args now c chk)

theorem field_marked (hobject : c.isObject) (key : String) :
    field (some (marked args now c chk)) key =
      (field (some (closeMarkers args now c chk)) key).or (c.md key) := by
  obtain ⟨fields, hfields⟩ := hobject
  have hmd : c.md key = fields.lookup key := by
    unfold Conversation.md
    cases hm : c.metadata <;> rw [hm] at hfields <;> cases hfields <;> rfl
  rw [marked, hfields, hmd]
  exact field_concat _ _ _

theorem field_undone (fields : List (String × Jsonb)) {key : String}
    (hkey : key ≠ "idle_close_undone_at") : field (some (undone (some (.object fields)) now)) key =
      (field (some (Jsonb.stripNulls (.object (threadStamps.map fun stamp =>
        (stamp, (field (fields.lookup "closed_prev_stamps") stamp).getD .null))))) key).or
        (if key ∈ CLOSED_KEYS ++ threadStamps then none else fields.lookup key) := by
  refine (field_concat _ _ _).trans ?_
  have hne : [("idle_close_undone_at", Jsonb.string (isoText now))].lookup key = none :=
    List.lookup_eq_none_iff.mpr (by simp [hkey])
  rw [hne, Option.none_or, ← lookup_filter]
  exact field_concat _ _ _

theorem field_reopened (hobject : c.isObject) (hclean : ∀ key ∈ CLOSED_KEYS, c.md key = none)
    {key : String} (hkey : key ≠ "idle_close_undone_at") {now' : Timestamp} :
    field (some (undone (some (marked args now c chk)) now')) key =
      if key ∈ threadStamps then withoutNulls (c.md key) else c.md key := by
  obtain ⟨fields, hfields⟩ : ∃ fields, marked args now c chk = .object fields := by
    obtain ⟨fields, hfields⟩ := hobject
    exact ⟨_, by rw [marked, hfields]; rfl⟩
  have hlookup (key : String) : fields.lookup key =
      (field (some (closeMarkers args now c chk)) key).or (c.md key) := by
    rw [← field_marked hobject, hfields]
    rfl
  rw [hfields, field_undone fields hkey, hlookup, hlookup]
  by_cases hstamp : key ∈ threadStamps
  · simp only [threadStamps, List.mem_cons, List.not_mem_nil, or_false] at hstamp
    rcases hstamp with rfl | rfl <;>
      simp [field, closeMarkers, List.lookup_cons, threadStamps, Jsonb.stripNulls, lookup_stripFields,
        Jsonb.stripFields]
  · have hstrip (v : Jsonb) : field (some (Jsonb.stripNulls (.object (threadStamps.map fun stamp =>
        (stamp, (field (some v) stamp).getD .null))))) key = none := by
      simp only [threadStamps, List.mem_cons, List.not_mem_nil, or_false, not_or] at hstamp
      simp [field, threadStamps, Jsonb.stripNulls, lookup_stripFields, Jsonb.stripFields, hstamp]
    have hprev : field (some (closeMarkers args now c chk)) "closed_prev_stamps" = some (.object [
        ("routing_thread_ended_at", (c.md "routing_thread_ended_at").getD .null),
        ("ai_thread_reset_at", (c.md "ai_thread_reset_at").getD .null)]) := by
      simp [field, closeMarkers, List.lookup_cons]
    rw [hprev, Option.some_or, hstrip, Option.none_or, if_neg hstamp]
    by_cases hclosed : key ∈ CLOSED_KEYS
    · rw [if_pos (List.mem_append_left _ hclosed), hclean key hclosed]
    · rw [if_neg (by simp [hclosed, hstamp])]
      have hmark : field (some (closeMarkers args now c chk)) key = none := by
        simp only [CLOSED_KEYS, threadStamps, List.mem_cons, List.not_mem_nil, or_false,
          not_or] at hclosed hstamp
        exact List.lookup_eq_none_iff.mpr (by simp [hclosed, hstamp])
      rw [hmark, Option.none_or]

end Keys

structure Undone (timestamptz : String → Option Timestamp) (id : Id) (before after : Db) :
    Prop where
  row : ∃ c c', before.conversations.get id = some c ∧ after.conversations.get id = some c' ∧
    c'.status = c.status ∧ ∀ key, key ≠ "idle_close_undone_at" →
      c'.md key = if key ∈ threadStamps then withoutNulls (c.md key) else c.md key
  line : ∃ lines, after.messages = before.messages ++ lines ∧
    ∀ m ∈ lines, isTrue (field m.metadata "internal")
  once : ∀ args now, args.conversationId = id →
    reopenAfterIdleClose timestamptz after args now = (none, after)

section Close
variable {db closed : Db} {args : CloseArgs} {now : Timestamp} {c : Conversation}

theorem closeIfIdle_some (h : closeIfIdle db args now = some closed)
    (hrow : db.conversations.get args.conversationId = some c) :
    c.status ≠ some .closed ∧ ∃ chk, closed = writeClose db args now c chk := by
  unfold closeIfIdle at h
  split at h
  · rename_i t c' hbegin hlock
    have hc : c' = c := by
      simp only [lockRow, hrow] at hlock
      split at hlock <;> simp_all
    subst hc
    simp only [checkAgain] at h
    split_ifs at h with hdue
    obtain ⟨c'', hdue⟩ := due_of_verdict (not_not.mp hdue)
    obtain rfl : c'' = c' := Option.some.inj (hdue.row.symm.trans hrow)
    exact ⟨hdue.notClosed, _, (Option.some.inj h).symm⟩
  · simp at h

def closedRow (args : CloseArgs) (now : Timestamp) (c : Conversation) (chk : IdleCheck) :
    Conversation :=
  { c with status := some .closed, metadata := some (marked args now c chk) }

theorem closedRow_get (hrow : db.conversations.get args.conversationId = some c) (chk : IdleCheck) :
    (writeClose db args now c chk).conversations.get args.conversationId =
      some (closedRow args now c chk) := by
  simp [writeClose, hrow, closedRow, marked]

theorem closedRow_md (hobject : c.isObject) (chk : IdleCheck) (key : String) :
    (closedRow args now c chk).md key =
      (field (some (closeMarkers args now c chk)) key).or (c.md key) :=
  field_marked hobject key

theorem closedRow_restored (hobject : c.isObject) (hlive : c.status ≠ some .closed)
    (chk : IdleCheck) :
    restoredStatus (closedRow args now c chk).metadata = c.status.getD .opened := by
  have hfrom : field (closedRow args now c chk).metadata "closed_from" =
      some (jsonText (c.status.map (·.text))) := by
    refine (field_marked hobject _).trans ?_
    simp [field, closeMarkers, List.lookup_cons]
  unfold restoredStatus
  rw [hfrom]
  rcases hs : c.status with _ | _ | _ | _ | _ <;>
    simp_all [jsonText, sqlText, ConversationStatus.text]

/-- What an array, a text or a number becomes has no keys. -/
theorem closedRow_noKeys (hobject : ¬ c.isObject) (chk : IdleCheck) (key : String) :
    (closedRow args now c chk).md key = none := by
  unfold closedRow marked Conversation.md
  cases hm : c.metadata.getD (.object []) with
  | object fields => exact absurd ⟨fields, hm⟩ hobject
  | _ => rfl

theorem reopen_refused (timestamptz : String → Option Timestamp)
    (hrow : db.conversations.get args.conversationId = some c) (hobject : ¬ c.isObject)
    (chk : IdleCheck) (args' : ReopenArgs) (now' : Timestamp)
    (hsame : args'.conversationId = args.conversationId) :
    reopenAfterIdleClose timestamptz (writeClose db args now c chk) args' now' =
      (none, writeClose db args now c chk) := by
  simp [reopenAfterIdleClose, hsame, closedRow_get hrow, closedRow_noKeys hobject, sqlText]

variable {timestamptz : String → Option Timestamp} {args' : ReopenArgs} {now' : Timestamp}

theorem reopen_taken (hrow : db.conversations.get args.conversationId = some c)
    (hobject : c.isObject) (hcast : timestamptz (isoText now) = some (now - now % 1000))
    (hsame : args'.conversationId = args.conversationId) (hws : args'.workspaceId = c.workspaceId)
    (hgrace : now' - (now - now % 1000) ≤ grace args') (chk : IdleCheck) :
    (reopenAfterIdleClose timestamptz (writeClose db args now c chk) args' now').2 =
      writeReopen (writeClose db args now c chk) args' now' (closedRow args now c chk) := by
  have hat : (closedRow args now c chk).md "closed_at" = some (.string (isoText now)) := by
    simp [closedRow_md hobject, field, closeMarkers, List.lookup_cons]
  have hreason : sqlText ((closedRow args now c chk).md "closed_reason") = "inactivity" := by
    simp [closedRow_md hobject, field, closeMarkers, sqlText]
  unfold reopenAfterIdleClose
  simp only [hsame, closedRow_get hrow, hat, hcast, hreason]
  rw [if_neg]
  simp only [Option.all_some, decide_eq_true_eq, not_or, not_not, not_lt, not_and]
  exact ⟨hws.symm, fun _ => rfl, trivial, hgrace⟩

theorem closedLine_cases (args : CloseArgs) (now : Timestamp) :
    closedLine args now = [] ∨ ∃ m fields, closedLine args now = [m] ∧ m.id = args.lineId ∧
      m.conversationId = args.conversationId ∧ m.metadata = some (.object fields) := by
  unfold closedLine
  split
  · cases args.lineBody with
    | none => exact .inl rfl
    | some body => exact .inr ⟨_, _, rfl, rfl, rfl, rfl⟩
  · exact .inl rfl

theorem retract_line (hobject : c.isObject) (hid : uuidOf args.lineId = some args.lineId)
    (hfresh : ∀ m ∈ db.messages, m.id ≠ args.lineId) (chk : IdleCheck) :
    ((writeClose db args now c chk).messages.map fun m =>
      if uuidOf (sqlText ((closedRow args now c chk).md "closed_line_id")) = some m.id ∧
        m.conversationId = args.conversationId then retract m else m) =
      db.messages ++ (closedLine args now).map retract := by
  have hline : sqlText ((closedRow args now c chk).md "closed_line_id") =
      ((closedLine args now).head?.map (·.id)).getD "" := by
    rw [closedRow_md hobject]
    cases h : (closedLine args now).head? <;>
      simp [field, closeMarkers, List.lookup_cons, h, jsonText, sqlText]
  rw [hline, writeClose, List.map_append]
  obtain h | ⟨m, fields, h, hmid, hconv, -⟩ := closedLine_cases args now
  · have hnone : uuidOf "" = none := by decide +kernel
    simp [h, hnone]
  · have hkept : db.messages.map (fun m => if some args.lineId = some m.id ∧
        m.conversationId = args.conversationId then retract m else m) = db.messages := by
      refine (List.map_congr_left fun m hm => ?_).trans (List.map_id _)
      simp [(hfresh m hm).symm]
    simp [h, hmid, hid, hconv]
    simpa using hkept

theorem retract_internal : ∀ m ∈ (closedLine args now).map retract,
    isTrue (field m.metadata "internal") := by
  obtain h | ⟨m, fields, h, -, -, hmeta⟩ := closedLine_cases args now
  · simp [h]
  · simp only [h, List.map_cons, List.map_nil, List.mem_singleton, forall_eq, retract, hmeta,
      Option.getD_some, field_concat]
    rfl

end Close

def castOf (text : String) : Option Timestamp :=
  if text = "1970-01-03T00:00:00.000Z" then some (48 * hour) else none

def idleRow (status : Option ConversationStatus) : Db where
  conversations := Table.empty.put 0 { workspaceId := 7, status, createdAt := 0, updatedAt := 0 }

def closeIdle : CloseArgs where
  conversationId := 0
  expectedUpdatedAt := some 0
  lineBody := some "Closed"
  lineId := "00000000-0000-4000-8000-000000000000"

end Kindred.Inactivity
