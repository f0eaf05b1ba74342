import Kindred.Widget.Proven

/-!
A call that has proven nothing, among the calls of others: it writes to its own
contact or to one that it makes, and what was typed has no say in which it is.
-/

namespace Kindred.Widget
open Lib (Table Dialogue run Meets)
open Lib.Dialogue (Setting Obeys upon)

/-- `own`: the contact that its visitor id led to; `made`: the contacts that it inserted. -/
structure Knowledge where
  looked : Bool := false
  own : Option Id := none
  made : List Id := []

def Knowledge.has (known : Knowledge) (id : Id) : Prop := known.own = some id ∨ id ∈ known.made

def learned (known : Knowledge) : (q : Ask) → Reply q → Knowledge
  | .visitorSession _, own => { known with looked := own.isSome, own }
  | .visitorContact _, own => { known with looked := true, own }
  | .insert _, .ok id => { known with made := id :: known.made }
  | _, _ => known

/-- The contact that a call gives back: its own one, or one that it made. -/
def Knowledge.returns (known : Knowledge) (res : MergeResult) : Prop :=
  match known.own with
  | some own => res.contactId = own
  | none => res.contactId ∈ known.made

def Typed (ids written : Identifiers) : Prop :=
  ∀ column v, written.get column = some v → ids.get column = some v

def Permitted (letters : Letters) (o : MergeOptions) (known : Knowledge) : Ask → Prop
  | .visitorSession visitorId | .visitorContact visitorId =>
    visitorId = o.visitorId ∧ known.looked = false
  | .insert row => known.looked ∧ Typed (o.identifiers letters) row.identifiers
  | .update id u => known.has id ∧ Typed (o.identifiers letters) u.identifiers
  | .fillCode id _ => known.has id
  | .merge visitorId contact => visitorId = o.visitorId ∧ known.has contact
  | .release .. | .repointSessions .. | .repointConversations .. => False
  | _ => True

def sending (letters : Letters) (o : MergeOptions) : Setting Ask Reply Knowledge where
  may := Permitted letters o
  fair _ _ _ := True
  after := learned

variable {α : Type} {value v : String} {ip : Option String} {db : Db} {known : Knowledge}
  {w : World} {q : Ask} {id : Id}

section Program
variable {letters : Letters} {o : MergeOptions} {known : Knowledge} {ids : Identifiers}
  {column : IdentifierColumn} {p : Placement} {contactId : Id} {own : Option Id} {geo : Location}

theorem obeys_ask {post : Knowledge → Except String α → Prop} {q : Ask} {f : Reply q → Attempt α}
    (hq : Permitted letters o known q)
    (hf : ∀ x, Obeys (sending letters o) post (learned known q x) (f x).run) :
    Obeys (sending letters o) post known (ask q >>= f).run :=
  ⟨hq, fun x _ => hf x⟩

theorem obeys_inquire {post : Knowledge → α → Prop} {q : Ask} {f : Reply q → Program α}
    (hq : Permitted letters o known q)
    (hf : ∀ x, Obeys (sending letters o) post (learned known q x) (f x)) :
    Obeys (sending letters o) post known (inquire q >>= f) :=
  ⟨hq, fun x _ => hf x⟩

theorem typed_empty : Typed ids {} := by
  intro column v hv
  cases column <;> cases hv

theorem typed_set {written : Identifiers} (h : Typed ids written)
    (hids : ids.get column = some value) : Typed ids (written.set column (some value)) := by
  intro x v hv
  rw [get_set] at hv
  split at hv
  · rename_i hx
    rw [hx, hids, hv]
  · exact h x v hv

theorem typed_place (h : Typed ids p.columns) (hids : ids.get column = some value)
    (holder : Option Holder) : Typed ids (p.place own column value holder).columns := by
  cases holder with
  | none => exact typed_set h hids
  | some holder =>
    simp only [Placement.place]
    split
    · exact typed_set h hids
    · exact h

theorem obeys_placeColumns {out : Placement} (columns : List IdentifierColumn)
    (h : Typed ids out.columns) :
    Obeys (sending letters o) (fun known' p => known' = known ∧ Typed ids p.columns) known
      (placeColumns ids own out columns) := by
  induction columns generalizing out with
  | nil => exact ⟨rfl, h⟩
  | cons column columns ih =>
    rw [placeColumns]
    split
    · exact ih h
    · rename_i value hvalue
      exact obeys_inquire trivial fun holder => ih (typed_place h hvalue holder)

theorem obeys_backfill (n : ℕ) (h : known.has contactId) :
    Obeys (sending letters o) (fun known' _ => known' = known) known
      (backfillVisitorCode contactId n) := by
  induction n with
  | zero => rfl
  | succ n ih =>
    refine obeys_inquire trivial fun code => obeys_inquire h fun filled => ?_
    cases filled with
    | error e =>
      dsimp only
      split
      · exact ih
      · rfl
    | ok filled =>
      cases filled with
      | true => rfl
      | false => exact obeys_inquire trivial fun _ => rfl

def Inserted (known known' : Knowledge) : Except DbError Id → Prop
  | .error _ => known' = known
  | .ok id => known' = { known with made := id :: known.made }

theorem obeys_insert {buildPayload : Option String → Contact} (n : ℕ) (hlooked : known.looked)
    (hrow : ∀ code, Typed (o.identifiers letters) (buildPayload code).identifiers) :
    Obeys (sending letters o) (Inserted known) known
      (insertContactWithVisitorCode buildPayload n) := by
  induction n with
  | zero =>
    refine obeys_inquire ⟨hlooked, hrow none⟩ fun inserted => ?_
    cases inserted with
    | error e => rfl
    | ok id =>
      refine Obeys.bind (obeys_backfill maxAttempts (.inr List.mem_cons_self)) fun s _ hs => ?_
      exact hs
  | succ n ih =>
    refine obeys_inquire trivial fun code => ?_
    refine obeys_inquire ⟨hlooked, hrow (some code)⟩ fun inserted => ?_
    cases inserted with
    | error e =>
      dsimp only
      split
      · exact ih
      · rfl
    | ok id => rfl

theorem obeys_createContact {geo : Location} (hlooked : known.looked)
    (hp : Typed (o.identifiers letters) p.columns) : Obeys (sending letters o)
      (upon (fun _ _ => True) fun known' id => known' = { known with made := id :: known.made })
      known (createContact o ip geo p).run := by
  refine (obeys_insert maxAttempts hlooked fun _ => hp).bindLift fun s inserted hs => ?_
  cases inserted with
  | ok id => exact hs
  | error e =>
    obtain rfl : s = known := hs
    dsimp only
    split
    · refine (obeys_insert maxAttempts hlooked fun _ => typed_empty).bindLift
        fun s inserted hs => ?_
      cases inserted with
      | ok id => exact hs
      | error e => trivial
    · trivial

theorem obeys_sendUpdates {u : Updates} (h : known.has contactId)
    (hu : Typed (o.identifiers letters) u.identifiers) :
    Obeys (sending letters o) (upon (fun _ _ => True) fun known' _ => known' = known) known
      (sendUpdates o contactId u).run := by
  unfold sendUpdates
  split
  · rfl
  · refine obeys_ask ⟨h, hu⟩ fun updated => ?_
    cases updated with
    | ok _ => rfl
    | error e =>
      dsimp only
      split
      · refine obeys_ask ⟨h, typed_empty⟩ fun updated => ?_
        cases updated with
        | ok _ => rfl
        | error e => trivial
      · trivial

theorem typed_updates {existing : Option Contact} (hp : Typed (o.identifiers letters) p.columns) :
    Typed (o.identifiers letters) (updatesFor letters o geo p existing).identifiers := by
  intro column v hv
  have hfree : ∀ x, (if existing.any fun c => !truthy (c.identifiers.get x) then
      p.columns.get x else none) = some v → p.columns.get x = some v := by
    intro x hx
    by_cases hblank : existing.any fun c => !truthy (c.identifiers.get x)
    · rwa [if_pos hblank] at hx
    · rw [if_neg hblank] at hx
      cases hx
  cases column <;> exact hp _ v (hfree _ hv)

theorem obeys_updateContact (h : known.has contactId)
    (hp : Typed (o.identifiers letters) p.columns) :
    Obeys (sending letters o) (upon (fun _ _ => True) fun known' _ => known' = known) known
      (updateContact letters o geo p contactId).run := by
  refine obeys_ask trivial fun existing => ?_
  refine (obeys_sendUpdates h (typed_updates hp)).bindExcept fun s _ hs => ?_
  obtain rfl : s = known := hs
  split
  · refine (obeys_backfill maxAttempts h).bind fun s' _ hs' => ?_
    exact hs'
  · rfl

theorem obeys_linkVisitor {isNewContact : Bool} (hproven : o.proven = false)
    (h : known.has contactId)
    (hreturns : ∀ res : MergeResult, res.contactId = contactId → known.returns res) :
    Obeys (sending letters o) (upon (fun _ _ => True) Knowledge.returns) known
      (linkVisitor o own none isNewContact contactId).run := by
  have hstay : (moveOwn o own contactId).run = .done (.ok ()) := by
    unfold moveOwn
    split
    · rw [if_neg fun hmoves => Bool.eq_false_iff.mp hproven hmoves.1]
      rfl
    · rfl
  have hmoved : Obeys (sending letters o) (upon (fun _ _ => True) fun s (_ : Unit) => s = known)
      known (moveOwn o own contactId).run := by
    rw [hstay]
    rfl
  refine hmoved.bindExcept fun s _ hs => ?_
  obtain rfl : s = known := hs
  refine obeys_ask ⟨rfl, h⟩ fun merged => ?_
  cases merged with
  | error e => trivial
  | ok conversationsMerged => exact hreturns _ rfl

theorem obeys_mergeWithOwn (hproven : o.proven = false) (hlooked : known.looked)
    (hmade : known.made = []) :
    Obeys (sending letters o) (upon (fun _ _ => True) Knowledge.returns) known
      (mergeWithOwn letters o ip geo known.own).run := by
  unfold mergeWithOwn
  rw [if_neg (Bool.eq_false_iff.mp hproven)]
  refine (obeys_placeColumns identifierColumns typed_empty).bindLift fun s p hp => ?_
  obtain ⟨rfl, hp⟩ := hp
  unfold mergeInto
  simp only [Option.map_none, Option.none_or]
  split
  · rename_i hown
    refine (obeys_createContact hlooked hp).bindExcept fun s id hs => ?_
    obtain rfl : s = _ := hs
    refine obeys_linkVisitor hproven (.inr List.mem_cons_self) fun res hres => ?_
    simp only [Knowledge.returns, hown, hres]
    exact List.mem_cons_self
  · rename_i own hown
    refine (obeys_updateContact (.inl hown) hp).bindExcept fun s _ hs => ?_
    obtain rfl : s = _ := hs
    refine obeys_linkVisitor hproven (.inl hown) fun res hres => ?_
    simp only [Knowledge.returns, hown, hres]

def lookup (visitorId : String) (cfCountry : Option String) :
    Program (Bool × Location × Option Id) := do
  let mayStoreRawIp ← inquire .storeRawIp
  let geo ← inquire (.geo visitorId cfCountry)
  let own ← findContactByVisitorId visitorId
  pure (mayStoreRawIp, geo, own)

def afterLookup (letters : Letters) (o : MergeOptions) (found : Bool × Location × Option Id) :
    Program (Except String MergeResult) :=
  (mergeWithOwn letters o (if found.1 then o.ipAddress.filter fun s => s ≠ "" else none) found.2.1
    found.2.2).run

theorem mergeVisitorIdentity_run : (mergeVisitorIdentity letters o).run =
      lookup o.visitorId o.cfCountry >>= afterLookup letters o := by
  refine congrArg (Dialogue.ask Ask.storeRawIp) (funext fun raw => ?_)
  refine congrArg (Dialogue.ask (Ask.geo o.visitorId o.cfCountry)) (funext fun geo => ?_)
  refine congrArg (Dialogue.ask (Ask.visitorSession o.visitorId)) (funext fun own => ?_)
  cases own with
  | some own => rfl
  | none => exact congrArg (Dialogue.ask (Ask.visitorContact o.visitorId)) (funext fun own => rfl)

theorem obeys_lookup (cfCountry : Option String) : Obeys (sending letters o)
      (fun known found => known.looked ∧ known.made = [] ∧ known.own = found.2.2) {}
      (lookup o.visitorId cfCountry) := by
  refine obeys_inquire trivial fun raw => obeys_inquire trivial fun geo => ?_
  refine obeys_inquire ⟨rfl, rfl⟩ fun own => ?_
  cases own with
  | some own => exact ⟨rfl, rfl, rfl⟩
  | none => exact obeys_inquire ⟨rfl, rfl⟩ fun own => ⟨rfl, rfl, rfl⟩

theorem obeys_mergeVisitorIdentity (hproven : o.proven = false) :
    Obeys (sending letters o) (upon (fun _ _ => True) Knowledge.returns) {}
      (mergeVisitorIdentity letters o).run := by
  rw [mergeVisitorIdentity_run]
  refine (obeys_lookup o.cfCountry).bind fun known found hfound => ?_
  obtain ⟨hlooked, hmade, hown⟩ := hfound
  rw [afterLookup, ← hown]
  exact obeys_mergeWithOwn hproven hlooked hmade

section Statement
variable {db db' : Db} {q : Ask} {id : Id}

theorem rows_kept (hv : db.Valid letters) (hb : Becomes letters db q db')
    (hq : Permitted letters o known q) {row : Contact} (hid : ¬known.has id)
    (hrow : db.contacts.get id = some row) : db'.contacts.get id = some row := by
  cases hb with
  | same | repointed | moved | merged => exact hrow
  | released => exact hq.elim
  | inserted row' hconflict =>
    have hne : id ≠ db.made := by
      rintro rfl
      rw [hv.fresh db.made (Nat.le_refl _)] at hrow
      cases hrow
    rw [Db.insertContact, Table.get_put_ne _ _ hne]
    exact hrow
  | updated k u hrefusal =>
    have hne : id ≠ k := fun he => hid (he ▸ hq.1)
    rw [Db.setContact, Table.get_update_ne _ _ hne]
    exact hrow
  | filled k code hrefusal =>
    have hne : id ≠ k := fun he => hid (he ▸ hq)
    rw [Db.setContact, Table.get_update_ne _ _ hne]
    exact hrow

theorem key_typed {c : Contact} (hids : (o.identifiers letters).get column = some v)
    (hc : c.identifiers.get column = some v) :
    ∃ k, columnKey letters column v = some k ∧ c.key letters (.column column) = some k := by
  obtain ⟨k, hk⟩ := Option.isSome_iff_exists.mp (columnKey_identifiers hids).1
  exact ⟨k, hk, by rw [Contact.key, hc, Option.bind_some, hk]⟩

theorem written_unheld (hb : Becomes letters db q db') (hq : Permitted letters o known q)
    (hh : db'.holds (id, column, v)) :
    db.holds (id, column, v) ∨ ∀ id', id' ≠ id → ¬db.holds (id', column, v) := by
  obtain hbefore | ht := target_of_holds hb hh
  · exact .inl hbefore
  obtain ⟨c', hc', hcol'⟩ := holds_iff.mp hh
  cases hb with
  | same => exact .inl hh
  | inserted row hconflict =>
    obtain rfl : db.made = id := Option.some.inj ht
    rw [Db.insertContact, Table.get_put_self] at hc'
    cases hc'
    obtain ⟨k, hk, hkey⟩ := key_typed (hq.2 column v hcol') hcol'
    refine .inr fun id' hne hother => hne ?_
    obtain ⟨c, hc, hcol⟩ := holds_iff.mp hother
    refine conflict_none hconflict hc hkey ?_
    rw [Contact.key, hcol, Option.bind_some, hk]
  | updated k u hrefusal =>
    obtain rfl : k = id := Option.some.inj ht
    rw [Db.setContact, Table.get_update_self] at hc'
    obtain ⟨c, hc, rfl⟩ := Option.map_eq_some_iff.mp hc'
    have hwritten : u.identifiers.get column = some v ∨ c.identifiers.get column = some v := by
      cases column <;> exact (Option.or_eq_some_iff.mp hcol').imp_right And.right
    obtain hu | hold := hwritten
    · obtain ⟨key, hk, hkey⟩ := key_typed (hq.2 column v hu) hcol'
      refine .inr fun id' hne hother => hne ?_
      obtain ⟨c₂, hc₂, hcol₂⟩ := holds_iff.mp hother
      rw [Db.refusal, hc, Option.map_eq_none_iff, Option.bind_some] at hrefusal
      refine conflict_none hrefusal hc₂ hkey ?_
      rw [Contact.key, hcol₂, Option.bind_some, hk]
    · exact .inl (holds_iff.mpr ⟨c, hc, hold⟩)
  | released | repointed | moved | merged | filled => cases ht

theorem sessions_linked (hb : Becomes letters db q db') (hq : Permitted letters o known q)
    {x' : VisitorSession} (hx' : db'.sessions.get id = some x') :
    db.sessions.get id = some x' ∨ ∃ x contact, db.sessions.get id = some x ∧
      x.visitorId = o.visitorId ∧ known.has contact ∧
      x' = { x with contactId := some contact, identified := true } := by
  cases hb with
  | same | released | inserted | updated | filled | moved => exact .inl hx'
  | repointed => exact hq.elim
  | merged visitorId contact =>
    rw [Db.mergeVisitor, Table.get_mapValues] at hx'
    obtain ⟨x, hx, rfl⟩ := Option.map_eq_some_iff.mp hx'
    split
    · rename_i hmerges
      exact .inr ⟨x, contact, hx, hmerges.1.trans hq.1, hq.2, rfl⟩
    · exact .inl hx

theorem conversations_linked (hb : Becomes letters db q db') (hq : Permitted letters o known q)
    {x' : Conversation} (hx' : db'.conversations.get id = some x') :
    db.conversations.get id = some x' ∨ ∃ x session contact, db.conversations.get id = some x ∧
      x.visitorSessionId = some session ∧ session ∈ db.sessionIds o.visitorId ∧
      known.has contact ∧ x' = { x with contactId := some contact } := by
  cases hb with
  | same | released | inserted | updated | filled | repointed => exact .inl hx'
  | moved => exact hq.elim
  | merged visitorId contact =>
    rw [Db.mergeVisitor, Table.get_mapValues] at hx'
    obtain ⟨x, hx, rfl⟩ := Option.map_eq_some_iff.mp hx'
    split
    · rename_i hmerges
      rw [Db.merges, Bool.and_eq_true] at hmerges
      obtain ⟨session, hsession, hmem⟩ := (Option.any_eq_true _ _).mp hmerges.1
      exact .inr ⟨x, session, contact, hx, hsession, hq.1 ▸ of_decide_eq_true hmem, hq.2, rfl⟩
    · exact .inl hx

end Statement

end Program

structure Call where
  o : MergeOptions
  rest : Program (Except String MergeResult)
  known : Knowledge := {}

structure Workspace where
  db : Db := {}
  calls : Table ℕ Call := .empty

/-- `aside` is what is done in one piece. -/
inductive Event where
  | start (k : ℕ) (o : MergeOptions)
  | step (k : ℕ) (w : World)
  | aside (e : Act)

/-- The next statement of a call. -/
def Call.step (letters : Letters) (db : Db) (w : World) (c : Call) : Db × Call :=
  match c.rest with
  | .done _ => (db, c)
  | .ask q f =>
    let r := answerAsk letters db w q
    (r.1, { c with rest := f r.2, known := learned c.known q r.2 })

def Workspace.step (letters : Letters) (s : Workspace) : Event → Workspace
  | .start k o =>
    if (s.calls.get k).isSome then s
    else { s with calls := s.calls.put k { o, rest := (mergeVisitorIdentity letters o).run } }
  | .step k w =>
    match s.calls.get k with
    | none => s
    | some c =>
      { db := (c.step letters s.db w).1, calls := s.calls.put k (c.step letters s.db w).2 }
  | .aside e => { s with db := (act letters { db := s.db } e).db }

/-- What one statement of a call that has proven nothing does. -/
structure Confined (db : Db) (c : Call) (db' : Db) (c' : Call) : Prop where
  rows : ∀ id row, ¬c.known.has id → db.contacts.get id = some row →
    db'.contacts.get id = some row
  identifiers : ∀ id column v, db'.holds (id, column, v) →
    db.holds (id, column, v) ∨ ∀ id', id' ≠ id → ¬db.holds (id', column, v)
  sessions : ∀ id x', db'.sessions.get id = some x' →
    db.sessions.get id = some x' ∨ ∃ x contact, db.sessions.get id = some x ∧
      x.visitorId = c.o.visitorId ∧ c.known.has contact ∧
      x' = { x with contactId := some contact, identified := true }
  conversations : ∀ id x', db'.conversations.get id = some x' →
    db.conversations.get id = some x' ∨ ∃ x session contact, db.conversations.get id = some x ∧
      x.visitorSessionId = some session ∧ session ∈ db.sessionIds c.o.visitorId ∧
      c.known.has contact ∧ x' = { x with contactId := some contact }
  own : ∀ id, c'.known.own = some id → c.known.own = some id ∨
    id ∈ db.latestContacts c.o.visitorId ∨ id ∈ db.taggedContacts c.o.visitorId
  made : ∀ id ∈ c'.known.made, id ∈ c.known.made ∨
    db.contacts.get id = none ∧ (db'.contacts.get id).isSome
  returned : ∀ res, c'.rest = .done (.ok res) → c'.known.returns res

def Alone (letters : Letters) (s : Workspace) (e : Event) : Prop :=
  ∀ k w c, e = .step k w → s.calls.get k = some c → c.o.proven = false →
    Confined s.db c (c.step letters s.db w).1 (c.step letters s.db w).2

/-- Both calls `k` have returned the visitor's own contact, or each one that it made. -/
def SameContact (k : ℕ) (s s' : Workspace) : Prop :=
  ∀ c c' res res', s.calls.get k = some c → s'.calls.get k = some c' →
    c.rest = .done (.ok res) → c'.rest = .done (.ok res') →
    (∃ own, c.known.own = some own ∧ res.contactId = own ∧ res'.contactId = own) ∨
      (c.known.own = none ∧ c'.known.own = none ∧ res.contactId ∈ c.known.made ∧
        res'.contactId ∈ c'.known.made)

section Runs
variable {letters : Letters} {c : Call}

def Call.Sound (letters : Letters) (c : Call) : Prop :=
  c.o.proven = false →
    Obeys (sending letters c.o) (upon (fun _ _ => True) Knowledge.returns) c.known c.rest

structure Workspace.Sound (letters : Letters) (s : Workspace) : Prop where
  valid : s.db.Valid letters
  calls : ∀ k c, s.calls.get k = some c → c.Sound letters

theorem valid_act {a : Audit} (h : a.db.Valid letters) (e : Act) :
    (act letters a e).db.Valid letters := by
  cases e with
  | call o ws =>
    have hanswer (a : Audit) (w : World) (q : Ask) (h : a.db.Valid letters) :
      (answerAudit letters (o.proof letters) a w q).1.db.Valid letters := h.answerAsk w q
    exact Dialogue.play_keeps (I := fun a : Audit => a.db.Valid letters) hanswer _ ws h
  | operatorAdds c =>
    simp only [act]
    split
    · rename_i hconflict
      exact h.insertContact hconflict
    · exact h
  | operatorSets id column value =>
    simp only [act]
    split
    · rename_i hrefusal
      exact h.refused hrefusal
    · exact h
  | visit | converse => exact ⟨h.fresh, h.unique⟩

theorem Call.Sound.step (h : c.Sound letters) (w : World) :
    (c.step letters db w).2.Sound letters := by
  unfold Call.step
  split
  · exact h
  · rename_i q f hrest
    intro hproven
    have hobeys := h hproven
    rw [hrest] at hobeys
    exact hobeys.2 _ trivial

theorem becomes_step (w : World) : (c.step letters db w).1 = db ∨ ∃ q f, c.rest = .ask q f ∧
      Becomes letters db q (c.step letters db w).1 := by
  unfold Call.step
  split
  · exact .inl rfl
  · rename_i q f hrest
    exact .inr ⟨q, f, hrest, becomes_answer w q⟩

theorem Workspace.Sound.step {s : Workspace} (h : s.Sound letters) (e : Event) :
    (s.step letters e).Sound letters := by
  cases e with
  | start k o =>
    simp only [Workspace.step]
    split
    · exact h
    · refine ⟨h.valid, fun j c hc => ?_⟩
      rw [Table.get_put] at hc
      split at hc
      · cases hc
        exact fun hproven => obeys_mergeVisitorIdentity hproven
      · exact h.calls j c hc
  | step k w =>
    simp only [Workspace.step]
    split
    · exact h
    · rename_i c hc
      refine ⟨?_, fun j c' hc' => ?_⟩
      · have hstep : (c.step letters s.db w).1 = s.db ∨ ∃ q f, c.rest = .ask q f ∧
          Becomes letters s.db q (c.step letters s.db w).1 := becomes_step w
        obtain hsame | ⟨q, f, -, hb⟩ := hstep
        · exact hsame.symm ▸ h.valid
        · exact h.valid.becomes hb
      · dsimp only at hc'
        rw [Table.get_put] at hc'
        split at hc'
        · cases hc'
          exact (h.calls k c hc).step w
        · exact h.calls j c' hc'
  | aside e => exact ⟨valid_act h.valid e, h.calls⟩

theorem own_learned {o : MergeOptions} (hq : Permitted letters o known q)
    (hid : (learned known q (answerAsk letters db w q).2).own = some id) :
    known.own = some id ∨ id ∈ db.latestContacts o.visitorId ∨
      id ∈ db.taggedContacts o.visitorId := by
  cases q with
  | visitorSession visitorId => exact .inr (.inl (hq.1 ▸ picked_mem hid))
  | visitorContact visitorId => exact .inr (.inr (hq.1 ▸ picked_mem hid))
  | insert row =>
    cases hr : (answerAsk letters db w (.insert row)).2 with
    | error e =>
      rw [hr] at hid
      exact .inl hid
    | ok inserted =>
      rw [hr] at hid
      exact .inl hid
  | _ => exact .inl hid

theorem made_learned (hv : db.Valid letters)
    (hid : id ∈ (learned known q (answerAsk letters db w q).2).made) : id ∈ known.made ∨
      db.contacts.get id = none ∧ ((answerAsk letters db w q).1.contacts.get id).isSome := by
  cases q with
  | insert row =>
    cases hr : (answerAsk letters db w (.insert row)).2 with
    | error e =>
      rw [hr] at hid
      exact .inl hid
    | ok inserted =>
      rw [hr] at hid
      obtain rfl | hold := List.mem_cons.mp hid
      · have hsent : (sent w db (db.insertContact row)
          ((db.conflict letters db.made row).map .conflict) db.made).2 = .ok id := hr
        obtain ⟨hdb, -, rfl⟩ := sent_ok hsent
        refine .inr ⟨hv.fresh db.made (Nat.le_refl _), ?_⟩
        have hdb' : (answerAsk letters db w (.insert row)).1 = db.insertContact row := hdb
        rw [hdb', Db.insertContact, Table.get_put_self]
        rfl
      · exact .inl hold
  | _ => exact .inl hid

theorem confined_step (hv : db.Valid letters) (h : c.Sound letters) (hproven : c.o.proven = false)
    (w : World) : Confined db c (c.step letters db w).1 (c.step letters db w).2 := by
  have hreturned : ∀ res, (c.step letters db w).2.rest = .done (.ok res) →
      (c.step letters db w).2.known.returns res := by
    intro res hres
    have hproven' : (c.step letters db w).2.o.proven = false := by
      unfold Call.step
      split <;> exact hproven
    have hsound : (c.step letters db w).2.Sound letters := h.step w
    have hobeys := hsound hproven'
    rw [hres] at hobeys
    exact hobeys
  have hobeys := h hproven
  revert hreturned
  unfold Call.step
  split
  · intro hreturned
    exact ⟨fun _ _ _ hrow => hrow, fun _ _ _ hh => .inl hh, fun _ _ hx => .inl hx,
      fun _ _ hx => .inl hx, fun _ hid => .inl hid, fun _ hid => .inl hid, hreturned⟩
  · rename_i q f hrest
    intro hreturned
    rw [hrest] at hobeys
    have hb : Becomes letters db q (answerAsk letters db w q).1 := becomes_answer w q
    exact ⟨fun _ _ hid hrow => rows_kept hv hb hobeys.1 hid hrow,
      fun _ _ _ hh => written_unheld hb hobeys.1 hh, fun _ _ hx => sessions_linked hb hobeys.1 hx,
      fun _ _ hx => conversations_linked hb hobeys.1 hx, fun _ hid => own_learned hobeys.1 hid,
      fun _ hid => made_learned hv hid, hreturned⟩

theorem alone_run {s : Workspace} (h : s.Sound letters) (es : List Event) :
    Meets (Workspace.step letters) (Alone letters) s es := by
  induction es generalizing s with
  | nil => trivial
  | cons e es ih =>
    refine ⟨?_, ih (h.step e)⟩
    rintro k w c rfl hc hproven
    exact confined_step h.valid (h.calls k c hc) hproven w

/-- Two workspaces that differ in what the visitor of the call `k` typed: as long as the call looks
for its contact nothing else differs, and then it has found the same. -/
inductive Alike (letters : Letters) (k : ℕ) (o o' : MergeOptions) : Workspace → Workspace → Prop
  | looking {db : Db} {calls calls' : Table ℕ Call} {known : Knowledge} {q : Ask}
    {f : Reply q → Program (Bool × Location × Option Id)}
    (hothers : ∀ j, j ≠ k → calls.get j = calls'.get j)
    (hc : calls.get k = some ⟨o, .ask q f >>= afterLookup letters o, known⟩)
    (hc' : calls'.get k = some ⟨o', .ask q f >>= afterLookup letters o', known⟩)
    (hobeys : Obeys (sending letters o) (fun known found =>
      known.looked ∧ known.made = [] ∧ known.own = found.2.2) known (.ask q f)) :
    Alike letters k o o' ⟨db, calls⟩ ⟨db, calls'⟩
  | looked {s s' : Workspace} {c c' : Call} (hc : s.calls.get k = some c)
    (hc' : s'.calls.get k = some c') (hproven : c.o.proven = false) (hproven' : c'.o.proven = false)
    (hlooked : c.known.looked) (hlooked' : c'.known.looked) (hown : c.known.own = c'.known.own) :
    Alike letters k o o' s s'

section TwoRuns
variable {k : ℕ} {o o' : MergeOptions} {s s' : Workspace}

theorem alike_dialogue {calls calls' : Table ℕ Call} {d : Program (Bool × Location × Option Id)}
    (hproven : o.proven = false) (hproven' : o'.proven = false)
    (hothers : ∀ j, j ≠ k → calls.get j = calls'.get j)
    (hc : calls.get k = some ⟨o, d >>= afterLookup letters o, known⟩)
    (hc' : calls'.get k = some ⟨o', d >>= afterLookup letters o', known⟩)
    (hobeys : Obeys (sending letters o)
      (fun known found => known.looked ∧ known.made = [] ∧ known.own = found.2.2) known d) :
    Alike letters k o o' ⟨db, calls⟩ ⟨db, calls'⟩ := by
  cases d with
  | ask q f => exact .looking hothers hc hc' hobeys
  | done found => exact .looked hc hc' hproven hproven' hobeys.1 hobeys.1 rfl

theorem looked_learned (hq : Permitted letters o known q) (hlooked : known.looked) (x : Reply q) :
    (learned known q x).looked ∧ (learned known q x).own = known.own := by
  cases q with
  | visitorSession | visitorContact => exact absurd hlooked (Bool.eq_false_iff.mp hq.2)
  | insert row => cases x <;> exact ⟨hlooked, rfl⟩
  | _ => exact ⟨hlooked, rfl⟩

theorem looked_step (hs : s.Sound letters) (hc : s.calls.get k = some c)
    (hproven : c.o.proven = false) (hlooked : c.known.looked) (e : Event) :
    ∃ c₁, (s.step letters e).calls.get k = some c₁ ∧ c₁.o.proven = false ∧ c₁.known.looked ∧
      c₁.known.own = c.known.own := by
  cases e with
  | start j o =>
    simp only [Workspace.step]
    split
    · exact ⟨c, hc, hproven, hlooked, rfl⟩
    · rename_i hnone
      refine ⟨c, ?_, hproven, hlooked, rfl⟩
      have hne : k ≠ j := by
        rintro rfl
        exact hnone (by rw [hc]; rfl)
      rw [Table.get_put_ne _ _ hne]
      exact hc
  | step j w =>
    simp only [Workspace.step]
    split
    · exact ⟨c, hc, hproven, hlooked, rfl⟩
    · rename_i cj hcj
      by_cases hj : k = j
      · subst hj
        cases hc.symm.trans hcj
        refine ⟨_, Table.get_put_self _ _ _, ?_⟩
        have hobeys := hs.calls k c hc hproven
        unfold Call.step
        split
        · exact ⟨hproven, hlooked, rfl⟩
        · rename_i q f hrest
          rw [hrest] at hobeys
          exact ⟨hproven, looked_learned hobeys.1 hlooked _⟩
      · refine ⟨c, ?_, hproven, hlooked, rfl⟩
        rw [Table.get_put_ne _ _ hj]
        exact hc
  | aside e => exact ⟨c, hc, hproven, hlooked, rfl⟩

theorem alike_step (hproven : o.proven = false) (hproven' : o'.proven = false)
    (hs : s.Sound letters) (hs' : s'.Sound letters) (h : Alike letters k o o' s s') (e : Event) :
    Alike letters k o o' (s.step letters e) (s'.step letters e) := by
  cases h with
  | looked hc hc' hp hp' hlooked hlooked' hown =>
    obtain ⟨c₁, hc₁, hp₁, hl₁, ho₁⟩ := looked_step hs hc hp hlooked e
    obtain ⟨c₂, hc₂, hp₂, hl₂, ho₂⟩ := looked_step hs' hc' hp' hlooked' e
    exact .looked hc₁ hc₂ hp₁ hp₂ hl₁ hl₂ (ho₁.trans (hown.trans ho₂.symm))
  | @looking db calls calls' known q f hothers hc hc' hobeys =>
    have hput (db : Db) {j : ℕ} (hj : j ≠ k) (call : Call) :
        Alike letters k o o' ⟨db, calls.put j call⟩ ⟨db, calls'.put j call⟩ := by
      refine .looking (fun i hi => ?_) ?_ ?_ hobeys
      · rw [Table.get_put, Table.get_put, hothers i hi]
      · rwa [Table.get_put_ne _ _ hj.symm]
      · rwa [Table.get_put_ne _ _ hj.symm]
    cases e with
    | aside e => exact .looking hothers hc hc' hobeys
    | start j oj =>
      by_cases hj : j = k
      · subst hj
        simp only [Workspace.step, hc, hc', Option.isSome_some, if_true]
        exact .looking hothers hc hc' hobeys
      · simp only [Workspace.step, hothers j hj]
        split
        · exact .looking hothers hc hc' hobeys
        · exact hput _ hj _
    | step j w =>
      by_cases hj : j = k
      · subst hj
        simp only [Workspace.step, hc, hc']
        refine alike_dialogue (d := f (answerAsk letters db w q).2) hproven hproven'
          (fun i hi => ?_) (Table.get_put_self _ _ _) (Table.get_put_self _ _ _) (hobeys.2 _ trivial)
        rw [Table.get_put_ne _ _ hi, Table.get_put_ne _ _ hi, hothers i hi]
      · simp only [Workspace.step, hothers j hj]
        split
        · exact .looking hothers hc hc' hobeys
        · exact hput _ hj _

theorem alike_run (hproven : o.proven = false) (hproven' : o'.proven = false)
    (hs : s.Sound letters) (hs' : s'.Sound letters) (h : Alike letters k o o' s s')
    (es : List Event) : Alike letters k o o' (run (Workspace.step letters) s es)
      (run (Workspace.step letters) s' es) := by
  induction es generalizing s s' with
  | nil => exact h
  | cons e es ih =>
    exact ih (hs.step e) (hs'.step e) (alike_step hproven hproven' hs hs' h e)

theorem sameContact_of_alike (hs : s.Sound letters) (hs' : s'.Sound letters)
    (h : Alike letters k o o' s s') : SameContact k s s' := by
  intro c c' res res' hc hc' hdone hdone'
  cases h with
  | looking hothers hk hk' hobeys =>
    cases hk.symm.trans hc
    cases hdone
  | looked hk hk' hproven hproven' hlooked hlooked' hown =>
    cases hk.symm.trans hc
    cases hk'.symm.trans hc'
    have hobeys := hs.calls k c hc hproven
    have hobeys' := hs'.calls k c' hc' hproven'
    rw [hdone] at hobeys
    rw [hdone'] at hobeys'
    have hreturns : c.known.returns res := hobeys
    have hreturns' : c'.known.returns res' := hobeys'
    simp only [Knowledge.returns, ← hown] at hreturns hreturns'
    cases hcase : c.known.own with
    | none =>
      rw [hcase] at hreturns hreturns'
      exact .inr ⟨rfl, hown ▸ hcase, hreturns, hreturns'⟩
    | some own =>
      rw [hcase] at hreturns hreturns'
      exact .inl ⟨own, rfl, hreturns, hreturns'⟩

end TwoRuns

/-- Whatever a visitor types and whatever others do between the statements: a call that has proven
nothing keeps to the contact that its visitor id leads to or to one that it makes, writes nothing
that another contact has, and gives back the same contact for everything that may be typed. -/
theorem unproven_selects_no_one (letters : Letters) {db : Db} (h : db.Valid letters)
    (es : List Event) :
    Meets (Workspace.step letters) (Alone letters) { db } es ∧
      ∀ k o o' es', (run (Workspace.step letters) { db } es).calls.get k = none →
        o.proven = false → o'.proven = false → o'.visitorId = o.visitorId →
        o'.cfCountry = o.cfCountry →
        SameContact k (run (Workspace.step letters) { db } (es ++ .start k o :: es'))
          (run (Workspace.step letters) { db } (es ++ .start k o' :: es')) := by
  have hstart : Workspace.Sound letters { db } := by
    refine ⟨h, fun k c hc => ?_⟩
    rw [Table.get_empty] at hc
    cases hc
  refine ⟨alone_run hstart es, fun k o o' es' hnone hproven hproven' hvisitor hcountry => ?_⟩
  have hrun := Lib.run_invariant (I := Workspace.Sound letters) (fun s e hs => hs.step e) hstart es
  rw [Lib.run_append, Lib.run_append]
  generalize run (Workspace.step letters) { db } es = s at hnone hrun
  have hs := hrun.step (.start k o)
  have hs' := hrun.step (.start k o')
  have halike :
      Alike letters k o o' (s.step letters (.start k o)) (s.step letters (.start k o')) := by
    simp only [Workspace.step, hnone, Option.isSome_none, Bool.false_eq_true, if_false]
    refine alike_dialogue (d := lookup o.visitorId o.cfCountry) hproven hproven' (fun j hj => ?_)
      ?_ ?_ (obeys_lookup o.cfCountry)
    · rw [Table.get_put_ne _ _ hj, Table.get_put_ne _ _ hj]
    · rw [Table.get_put_self, mergeVisitorIdentity_run]
    · rw [Table.get_put_self, mergeVisitorIdentity_run, hvisitor, hcountry]
  have hend := alike_run hproven hproven' hs hs' halike es'
  exact sameContact_of_alike
    (Lib.run_invariant (I := Workspace.Sound letters) (fun s e hs => hs.step e) hs es')
    (Lib.run_invariant (I := Workspace.Sound letters) (fun s e hs => hs.step e) hs' es') hend

end Runs

def raceRun : List Event :=
  [.start 0 { visitorId := "first", email := some "a@kin" },
    .start 1 { visitorId := "second", email := some "a@kin" }] ++
  (List.range 10).flatMap fun _ => [.step 0 { code := "MA-1" }, .step 1 { code := "MA-2" }]

theorem raceRun_alone : Meets (Workspace.step plainLetters) (Alone plainLetters) {} raceRun :=
  (unproven_selects_no_one plainLetters sound_empty.valid raceRun).1

/-- The one who comes second keeps the address as a claim. -/
example : (run (Workspace.step plainLetters) {} raceRun).db.contacts.rows.map
    (fun r => (r.2.identifiers.email, r.2.metadata.unverified.email)) =
    [(some "a@kin", some "a@kin"), (none, some "a@kin")] := by decide +kernel

end Kindred.Widget
