import Kindred.Database
import Kindred.Rest.Text

/-!
The contacts of one workspace, the sessions of its visitors and their
conversations: the rows, their unique indexes and the statements that the
identity merge sends.
-/

namespace Kindred.Widget
open Lib (Table)

inductive IdentifierColumn where
  | email | phone
  deriving DecidableEq

structure Identifiers where
  email : Option String := none
  phone : Option String := none
  deriving DecidableEq

namespace Identifiers

def get (i : Identifiers) : IdentifierColumn → Option String
  | .email => i.email
  | .phone => i.phone

def set (i : Identifiers) (column : IdentifierColumn) (value : Option String) : Identifiers :=
  match column with
  | .email => { i with email := value }
  | .phone => { i with phone := value }

@[simp] theorem get_set_self (i : Identifiers) (column : IdentifierColumn) (value : Option String) :
    (i.set column value).get column = value := by
  cases column <;> rfl

theorem get_set_ne (i : Identifiers) {column column' : IdentifierColumn} (value : Option String)
    (h : column' ≠ column) : (i.set column value).get column' = i.get column' := by
  cases column <;> cases column' <;> first | rfl | exact absurd rfl h

end Identifiers

structure Location where
  city : Option String := none
  country : Option String := none
  countryCode : Option String := none
  countryFlag : Option String := none
  locationPrecision : Option String := none
  locationSource : Option String := none
  deriving DecidableEq

/-- `contacts.metadata`; `unverified` is `unverified_email` and `unverified_phone`. -/
structure Metadata where
  visitorId : Option String := none
  source : Option String := none
  firstMethod : Option String := none
  firstIp : Option String := none
  unverified : Identifiers := {}
  location : Location := {}
  anonymous : Bool := false
  deriving DecidableEq

/-- A row of `contacts`. -/
structure Contact where
  name : Option String := none
  identifiers : Identifiers := {}
  visitorCode : Option String := none
  metadata : Metadata := {}

/-- A row of `visitor_sessions`. -/
structure VisitorSession where
  visitorId : String
  contactId : Option Id := none
  identified : Bool := false
  lastSeenAt : Int

/-- A row of `conversations`. -/
structure Conversation where
  visitorSessionId : Option Id
  contactId : Option Id := none

/-- `made`: the contacts there ever were. -/
structure Db where
  contacts : Table Id Contact := .empty
  sessions : Table Id VisitorSession := .empty
  conversations : Table Id Conversation := .empty
  made : Id := 0

/-- What the program and the database make of letters in upper case, and that neither takes a letter
for a blank. -/
structure Letters where
  toLowerCase : String → String
  lower : String → String
  toLowerCase_empty : toLowerCase "" = ""
  toLowerCase_blank : ∀ s, (toLowerCase s).toList.all (· = ' ') → s.toList.all (· = ' ')

/-- `btrim` -/
def btrim (s : String) : String :=
  .ofList ((s.toList.dropWhile (· = ' ')).reverse.dropWhile (· = ' ')).reverse

inductive ContactIndex where
  | visitorCode | column (column : IdentifierColumn)
  deriving DecidableEq

def columnKey (letters : Letters) (column : IdentifierColumn) (value : String) : Option String :=
  match column with
  | .email => if value.toList.all (· = ' ') then none else some (letters.lower (btrim value))
  | .phone =>
    let digits := String.ofList (value.toList.filter fun c => c.isDigit || c = '+')
    if digits = "" then none else some digits

def Contact.key (letters : Letters) (c : Contact) : ContactIndex → Option String
  | .visitorCode => c.visitorCode
  | .column column => (c.identifiers.get column).bind (columnKey letters column)

def contactIndexes : List ContactIndex := [.visitorCode, .column .email, .column .phone]

namespace Db

/-- Another row has the key of `c` in this index. -/
def taken (letters : Letters) (db : Db) (id : Id) (c : Contact) (index : ContactIndex) : Bool :=
  (c.key letters index).isSome &&
    db.contacts.rows.any fun r => r.1 ≠ id && r.2.key letters index = c.key letters index

/-- The first index that does not let `c` stand under `id`. -/
def conflict (letters : Letters) (db : Db) (id : Id) (c : Contact) : Option ContactIndex :=
  contactIndexes.find? (db.taken letters id c)

end Db

inductive DbError where
  | conflict (index : ContactIndex)
  | other (message : String)
  deriving DecidableEq

namespace DbError

def indexName : ContactIndex → String
  | .visitorCode => "contacts_workspace_visitor_code_idx"
  | .column .email => "contacts_workspace_email_unique_not_blank"
  | .column .phone => "contacts_workspace_phone_unique_not_blank"

def message : DbError → String
  | .conflict index =>
    "duplicate key value violates unique constraint \"" ++ indexName index ++ "\""
  | .other message => message

def isVisitorCodeConflict (e : DbError) : Bool := e = .conflict .visitorCode

def isContactIdentityConflict (e : DbError) : Bool :=
  e = .conflict (.column .email) || e = .conflict (.column .phone)

end DbError

structure Holder where
  id : Id
  metadata : Metadata

structure Updates where
  name : Option String := none
  identifiers : Identifiers := {}
  metadata : Option Metadata := none
  deriving DecidableEq

def Updates.apply (u : Updates) (c : Contact) : Contact :=
  { c with
    name := u.name.or c.name
    identifiers := ⟨u.identifiers.email.or c.identifiers.email,
      u.identifiers.phone.or c.identifiers.phone⟩
    metadata := u.metadata.getD c.metadata }

def Contact.withCode (code : String) (c : Contact) : Contact :=
  { c with visitorCode := c.visitorCode.or (some code) }

def Contact.released (column : IdentifierColumn) (c : Contact) : Contact :=
  { c with identifiers := c.identifiers.set column none }

inductive Ask where
  /-- `widget_settings.store_raw_ip` -/
  | storeRawIp
  /-- `resolveContactGeoPatch` -/
  | geo (visitorId : String) (cfCountry : Option String)
  | visitorSession (visitorId : String)
  | visitorContact (visitorId : String)
  | holder (column : IdentifierColumn) (value : String)
  | release (column : IdentifierColumn) (id : Id)
  /-- `generateVisitorCode` -/
  | code
  | insert (row : Contact)
  | existing (id : Id)
  | update (id : Id) (u : Updates)
  | fillCode (id : Id) (code : String)
  | readCode (id : Id)
  | sessionIds (visitorId : String)
  | repointSessions (visitorId : String) (fromContact toContact : Id)
  | repointConversations (fromContact toContact : Id) (sessionIds : List Id)
  /-- `merge_visitor_into_contact` -/
  | merge (visitorId : String) (contact : Id)

abbrev Reply : Ask → Type
  | .storeRawIp => Bool
  | .geo .. => Location
  | .visitorSession _ => Option Id
  | .visitorContact _ => Option Id
  | .holder .. => Option Holder
  | .release .. => Except DbError Unit
  | .code => String
  | .insert _ => Except DbError Id
  | .existing _ => Option Contact
  | .update .. => Except DbError Unit
  | .fillCode .. => Except DbError Bool
  | .readCode _ => Option String
  | .sessionIds _ => List Id
  | .repointSessions .. => Except DbError Unit
  | .repointConversations .. => Except DbError Unit
  | .merge .. => Except DbError ℕ

inductive Delivery where
  | answered | refused | lost

structure World where
  delivery : Delivery := .answered
  pick : Id := 0
  storeRawIp : Bool := false
  geo : Location := {}
  code : String := ""

def connectionLost : DbError := .other "connection lost"

/-- A write that would answer `a` and leave `db'`, or fail with `e`. -/
def sent {α : Type} (w : World) (db db' : Db) (e : Option DbError) (a : α) :
    Db × Except DbError α :=
  match w.delivery, e with
  | .refused, _ => (db, .error connectionLost)
  | .answered, none => (db', .ok a)
  | .answered, some e => (db, .error e)
  | .lost, none => (db', .error connectionLost)
  | .lost, some _ => (db, .error connectionLost)

def picked (pick : Id) (ids : List Id) : Option Id :=
  (ids.find? (· = pick)).or ids.head?

namespace Db

def linked (db : Db) (visitorId : String) : List VisitorSession :=
  (db.sessions.rows.map Prod.snd).filter fun s => s.visitorId = visitorId && s.contactId.isSome

def latestContacts (db : Db) (visitorId : String) : List Id :=
  (((db.linked visitorId).filter fun s =>
    (db.linked visitorId).all fun s' => s'.lastSeenAt ≤ s.lastSeenAt).filterMap
      VisitorSession.contactId)

def taggedContacts (db : Db) (visitorId : String) : List Id :=
  (db.contacts.rows.filter fun r => r.2.metadata.visitorId = some visitorId).map Prod.fst

def holders (db : Db) (column : IdentifierColumn) (value : String) : List Id :=
  (db.contacts.rows.filter fun r => r.2.identifiers.get column = some value).map Prod.fst

def sessionIds (db : Db) (visitorId : String) : List Id :=
  (db.sessions.rows.filter fun r => r.2.visitorId = visitorId).map Prod.fst

def repointSessions (visitorId : String) (fromContact toContact : Id) (db : Db) : Db :=
  { db with sessions := db.sessions.mapValues fun s =>
      if s.visitorId = visitorId ∧ s.contactId = some fromContact then
        { s with contactId := some toContact }
      else s }

def repointConversations (fromContact toContact : Id) (sessionIds : List Id) (db : Db) : Db :=
  { db with conversations := db.conversations.mapValues fun c =>
      if c.contactId = some fromContact ∧ c.visitorSessionId.any fun s => s ∈ sessionIds then
        { c with contactId := some toContact }
      else c }

def merges (db : Db) (visitorId : String) (contact : Id) (c : Conversation) : Bool :=
  (c.visitorSessionId.any fun s => s ∈ db.sessionIds visitorId) &&
    (c.contactId.isNone || c.contactId = some contact)

def mergeVisitor (visitorId : String) (contact : Id) (db : Db) : Db :=
  { db with
    sessions := db.sessions.mapValues fun s =>
      if s.visitorId = visitorId ∧ (s.contactId = none ∨ s.contactId = some contact) then
        { s with contactId := some contact, identified := true }
      else s
    conversations := db.conversations.mapValues fun c =>
      if db.merges visitorId contact c then { c with contactId := some contact } else c }

def missing (db : Db) (contact : Id) : Option DbError :=
  if (db.contacts.get contact).isSome then none
  else some (.other "violates foreign key constraint")

/-- What the unique indexes say of a change to the row of `id`. -/
def refusal (letters : Letters) (db : Db) (id : Id) (f : Contact → Contact) : Option DbError :=
  ((db.contacts.get id).bind fun c => db.conflict letters id (f c)).map .conflict

def setContact (id : Id) (f : Contact → Contact) (db : Db) : Db :=
  { db with contacts := db.contacts.update id f }

def insertContact (row : Contact) (db : Db) : Db :=
  { db with contacts := db.contacts.put db.made row, made := db.made + 1 }

end Db

def answerAsk (letters : Letters) (db : Db) (w : World) : (q : Ask) → Db × Reply q
  | .storeRawIp => (db, w.storeRawIp)
  | .geo _ _ => (db, w.geo)
  | .visitorSession visitorId => (db, picked w.pick (db.latestContacts visitorId))
  | .visitorContact visitorId => (db, picked w.pick (db.taggedContacts visitorId))
  | .holder column value =>
    (db, (picked w.pick (db.holders column value)).bind fun id =>
      (db.contacts.get id).map fun c => ⟨id, c.metadata⟩)
  | .release column id => sent w db (db.setContact id (.released column)) none ()
  | .code => (db, w.code)
  | .insert row =>
    sent w db (db.insertContact row) ((db.conflict letters db.made row).map .conflict) db.made
  | .existing id => (db, db.contacts.get id)
  | .update id u => sent w db (db.setContact id u.apply) (db.refusal letters id u.apply) ()
  | .fillCode id code =>
    sent w db (db.setContact id (.withCode code)) (db.refusal letters id (.withCode code))
      ((db.contacts.get id).any fun c => c.visitorCode.isNone)
  | .readCode id => (db, (db.contacts.get id).bind Contact.visitorCode)
  | .sessionIds visitorId => (db, db.sessionIds visitorId)
  | .repointSessions visitorId fromContact toContact =>
    sent w db (db.repointSessions visitorId fromContact toContact) (db.missing toContact) ()
  | .repointConversations fromContact toContact sessionIds =>
    sent w db (db.repointConversations fromContact toContact sessionIds) (db.missing toContact) ()
  | .merge visitorId contact =>
    sent w db (db.mergeVisitor visitorId contact) (db.missing contact)
      (db.conversations.rows.countP fun r => db.merges visitorId contact r.2)

/-- No two contacts have one key, and an id is not used before its turn. -/
structure Db.Valid (letters : Letters) (db : Db) : Prop where
  fresh : ∀ id, db.made ≤ id → db.contacts.get id = none
  unique : ∀ index id id' c c' k, db.contacts.get id = some c → db.contacts.get id' = some c' →
    c.key letters index = some k → c'.key letters index = some k → id = id'

variable {α : Type} {w : World} {db' : Db} {e : Option DbError} {q : Ask} {id : Id} {c : Contact}
  {index : ContactIndex} {k : String} {f : Contact → Contact}

section Valid
variable {letters : Letters} {db : Db}

theorem sent_cases (w : World) (db db' : Db) (e : Option DbError) (a : α) :
    (sent w db db' e a).1 = db ∨ (sent w db db' e a).1 = db' ∧ e = none := by
  unfold sent
  split
  · exact .inl rfl
  · exact .inr ⟨rfl, rfl⟩
  · exact .inl rfl
  · exact .inr ⟨rfl, rfl⟩
  · exact .inl rfl

theorem sent_ok {db : Db} {a a' : α} (h : (sent w db db' e a).2 = .ok a')
    : (sent w db db' e a).1 = db' ∧ e = none ∧ a' = a := by
  unfold sent at h ⊢
  split at h <;> cases h
  exact ⟨rfl, rfl, rfl⟩

/-- What a statement may leave: the database as it was, or with what it writes. -/
inductive Becomes (letters : Letters) (db : Db) : Ask → Db → Prop
  | same (q : Ask) : Becomes letters db q db
  | released (column : IdentifierColumn) (id : Id) :
    Becomes letters db (.release column id) (db.setContact id (.released column))
  | inserted (row : Contact) (h : db.conflict letters db.made row = none) :
    Becomes letters db (.insert row) (db.insertContact row)
  | updated (id : Id) (u : Updates) (h : db.refusal letters id u.apply = none) :
    Becomes letters db (.update id u) (db.setContact id u.apply)
  | filled (id : Id) (code : String)
    (h : db.refusal letters id (.withCode code) = none) :
    Becomes letters db (.fillCode id code) (db.setContact id (.withCode code))
  | repointed (visitorId : String) (fromContact toContact : Id) :
    Becomes letters db (.repointSessions visitorId fromContact toContact)
      (db.repointSessions visitorId fromContact toContact)
  | moved (fromContact toContact : Id) (sessionIds : List Id) :
    Becomes letters db (.repointConversations fromContact toContact sessionIds)
      (db.repointConversations fromContact toContact sessionIds)
  | merged (visitorId : String) (contact : Id) :
    Becomes letters db (.merge visitorId contact) (db.mergeVisitor visitorId contact)

theorem becomes_sent {a : α} (h : e = none → Becomes letters db q db')
    : Becomes letters db q (sent w db db' e a).1 := by
  obtain hs | ⟨hs, he⟩ := sent_cases w db db' e a
  · rw [hs]
    exact .same q
  · rw [hs]
    exact h he

theorem becomes_answer (w : World) (q : Ask) :
    Becomes letters db q (answerAsk letters db w q).1 := by
  cases q with
  | release column id => exact becomes_sent fun _ => .released column id
  | insert row => exact becomes_sent fun he => .inserted row (Option.map_eq_none_iff.mp he)
  | update id u => exact becomes_sent fun he => .updated id u he
  | fillCode id code => exact becomes_sent fun he => .filled id code he
  | repointSessions visitorId f t => exact becomes_sent fun _ => .repointed visitorId f t
  | repointConversations f t ids => exact becomes_sent fun _ => .moved f t ids
  | merge visitorId contact => exact becomes_sent fun _ => .merged visitorId contact
  | _ => exact .same _

theorem conflict_none (h : db.conflict letters id c = none) {id' : Id} {c' : Contact}
    (hc' : db.contacts.get id' = some c') (hk : c.key letters index = some k)
    (hk' : c'.key letters index = some k) : id' = id := by
  by_contra hne
  have hindex : index ∈ contactIndexes := by
    cases index with
    | visitorCode => simp [contactIndexes]
    | column column => cases column <;> simp [contactIndexes]
  have htaken := List.find?_eq_none.mp h index hindex
  refine htaken ?_
  simp only [Db.taken, hk, Option.isSome_some, Bool.true_and, List.any_eq_true]
  exact ⟨(id', c'), Table.get_eq_some_iff_mem.mp hc', by simp [hne, hk']⟩

theorem Db.Valid.setContact (h : db.Valid letters)
    (hf : ∀ c, db.contacts.get id = some c → ∀ index k id' c', db.contacts.get id' = some c' →
      (f c).key letters index = some k → c'.key letters index = some k → id' = id) :
    (db.setContact id f).Valid letters := by
  constructor
  · intro id' hid'
    rw [Db.setContact, Table.get_update]
    split
    · rename_i hk
      rw [← hk, h.fresh id' hid']
      rfl
    · exact h.fresh id' hid'
  · intro index id₁ id₂ c₁ c₂ k h₁ h₂ hk₁ hk₂
    rw [Db.setContact, Table.get_update] at h₁ h₂
    split at h₁ <;> split at h₂
    · rename_i e₁ e₂
      exact e₁.trans e₂.symm
    · rename_i e₁ e₂
      obtain ⟨c, hc, rfl⟩ := Option.map_eq_some_iff.mp h₁
      exact e₁.trans (hf c hc index k id₂ c₂ h₂ hk₁ hk₂).symm
    · rename_i e₁ e₂
      obtain ⟨c, hc, rfl⟩ := Option.map_eq_some_iff.mp h₂
      exact (hf c hc index k id₁ c₁ h₁ hk₂ hk₁).trans e₂.symm
    · exact h.unique index id₁ id₂ c₁ c₂ k h₁ h₂ hk₁ hk₂

theorem Db.Valid.refused (h : db.Valid letters) (hr : db.refusal letters id f = none)
    : (db.setContact id f).Valid letters := by
  refine h.setContact fun c hc index k id' c' hc' hk hk' => ?_
  rw [Db.refusal, hc, Option.map_eq_none_iff, Option.bind_some] at hr
  exact conflict_none hr hc' hk hk'

theorem key_released {column : IdentifierColumn}
    (h : (c.released column).key letters index = some k) : c.key letters index = some k := by
  cases index with
  | visitorCode => exact h
  | column column' =>
    by_cases he : column' = column
    · subst he
      simp [Contact.key, Contact.released] at h
    · simpa [Contact.key, Contact.released, Identifiers.get_set_ne _ _ he] using h

theorem Db.Valid.insertContact {row : Contact} (h : db.Valid letters)
    (hc : db.conflict letters db.made row = none) : (db.insertContact row).Valid letters := by
  constructor
  · intro id hid
    have hlt : db.made < id := hid
    rw [Db.insertContact, Table.get_put_ne _ _ (Nat.ne_of_gt hlt)]
    exact h.fresh id (Nat.le_of_lt hlt)
  · intro index id₁ id₂ c₁ c₂ k h₁ h₂ hk₁ hk₂
    rw [Db.insertContact, Table.get_put] at h₁ h₂
    split at h₁ <;> split at h₂
    · rename_i e₁ e₂
      exact e₁.trans e₂.symm
    · rename_i e₁ e₂
      cases h₁
      exact e₁.trans (conflict_none hc h₂ hk₁ hk₂).symm
    · rename_i e₁ e₂
      cases h₂
      exact (conflict_none hc h₁ hk₂ hk₁).trans e₂.symm
    · exact h.unique index id₁ id₂ c₁ c₂ k h₁ h₂ hk₁ hk₂

theorem Db.Valid.becomes (h : db.Valid letters) (hb : Becomes letters db q db')
    : db'.Valid letters := by
  cases hb with
  | same => exact h
  | released column id =>
    refine h.setContact fun c hc index k id' c' hc' hk hk' => ?_
    exact h.unique index id' id c' c k hc' hc hk' (key_released hk)
  | inserted row hconflict => exact h.insertContact hconflict
  | updated id u hrefusal => exact h.refused hrefusal
  | filled id code hrefusal => exact h.refused hrefusal
  | repointed | moved | merged => exact ⟨h.fresh, h.unique⟩

theorem Db.Valid.answerAsk (h : db.Valid letters) (w : World) (q : Ask) :
    (answerAsk letters db w q).1.Valid letters :=
  h.becomes (becomes_answer w q)

end Valid

end Kindred.Widget
