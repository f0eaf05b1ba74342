import Kindred.Widget.Merge

/-!
Who an identifier was proven for. A column whose value was only typed carries
the same value in the contact's metadata; the audit keeps what was proven by a
visitor or set by the operator, which is no part of the program.
-/

namespace Kindred.Widget
open Lib (Table Dialogue)
open Lib.Dialogue (Upholds play)

abbrev Entry := Id × IdentifierColumn × String

structure Audit where
  db : Db := {}
  proven : List Entry := []
  byOperator : List Entry := []

def Audit.vouched (a : Audit) (e : Entry) : Bool := e ∈ a.proven || e ∈ a.byOperator

def Db.holds (db : Db) (e : Entry) : Bool :=
  (db.contacts.get e.1).any fun c => c.identifiers.get e.2.1 = some e.2.2

/-- The contact that a statement writes what the visitor gave to. -/
def target (db : Db) : Ask → Option Id
  | .insert _ => some db.made
  | .update id _ => some id
  | _ => none

/-- What of the identifiers `proof` a contact has. -/
def earned (proof : Identifiers) (db : Db) (id : Id) : List Entry :=
  (identifierColumns.filterMap fun column => (proof.get column).map fun v => (id, column, v)).filter
    fun e => db.holds e

/-- A statement of a call that has proven `proof` leaves the database `db`. -/
def Audit.after (proof : Identifiers) (a : Audit) (q : Ask) (db : Db) : Audit :=
  { a with db, proven := a.proven ++ ((target a.db q).map (earned proof db)).getD [] }

/-- The database answers a call that has proven `proof`. -/
def answerAudit (letters : Letters) (proof : Identifiers) (a : Audit) (w : World) (q : Ask) :
    Audit × Reply q :=
  let r := answerAsk letters a.db w q
  (a.after proof q r.1, r.2)

def MergeOptions.proof (letters : Letters) (o : MergeOptions) : Identifiers :=
  if o.proven then o.identifiers letters else {}

/-- What happens in a workspace, one call after the other. -/
inductive Act where
  | call (o : MergeOptions) (ws : List World)
  | operatorAdds (c : Contact)
  | operatorSets (id : Id) (column : IdentifierColumn) (value : Option String)
  | visit (visitorId : String) (now : Int)
  | converse (session : Option Id)

def served (letters : Letters) (a : Audit) (o : MergeOptions) (ws : List World) :
    Audit × Option (Except String MergeResult) :=
  play (answerAudit letters (o.proof letters)) a ws (mergeVisitorIdentity letters o).run

def entriesOf (id : Id) (c : Contact) : List Entry :=
  identifierColumns.filterMap fun column => (c.identifiers.get column).map fun v => (id, column, v)

def act (letters : Letters) (a : Audit) : Act → Audit
  | .call o ws => (served letters a o ws).1
  | .operatorAdds c =>
    if a.db.conflict letters a.db.made c = none then
      { a with db := a.db.insertContact c, byOperator := a.byOperator ++ entriesOf a.db.made c }
    else a
  | .operatorSets id column value =>
    let f (c : Contact) : Contact := { c with identifiers := c.identifiers.set column value }
    if a.db.refusal letters id f = none then
      { a with
        db := a.db.setContact id f
        byOperator := a.byOperator ++ (value.map fun v => (id, column, v)).toList }
    else a
  | .visit visitorId now =>
    { a with db.sessions :=
        a.db.sessions.put a.db.sessions.rows.length { visitorId, lastSeenAt := now } }
  | .converse session =>
    { a with db.conversations :=
        a.db.conversations.put a.db.conversations.rows.length { visitorSessionId := session } }

theorem trim_blank {s : String} (h : (Rest.trim s).toList.all (· = ' ')) : Rest.trim s = "" := by
  have hspace : ∀ cs : List Char, (cs.dropWhile Rest.isSpace).all (· = ' ') →
      cs.dropWhile Rest.isSpace = [] := by
    intro cs hcs
    cases hd : cs.dropWhile Rest.isSpace with
    | nil => rfl
    | cons c rest =>
      have hnot := List.head?_dropWhile_not Rest.isSpace cs
      rw [hd] at hcs hnot
      simp only [List.all_cons, Bool.and_eq_true, decide_eq_true_eq] at hcs
      rw [List.head?_cons, hcs.1] at hnot
      exact absurd hnot (by decide)
  rw [Rest.trim, String.toList_ofList, List.all_reverse] at h
  rw [Rest.trim, hspace _ h]
  rfl

variable {column : IdentifierColumn} {v : String} {db : Db} {id : Id}

variable {o : MergeOptions} {e : Entry} {pick : Id} {ids : List Id} {α : Type}

theorem columnKey_identifiers {letters : Letters} (h : (o.identifiers letters).get column = some v) :
    (columnKey letters column v).isSome ∧ v ≠ "" := by
  cases column with
  | email =>
    obtain ⟨hmap, hne⟩ := Option.filter_eq_some_iff.mp h
    obtain ⟨raw, -, rfl⟩ := Option.map_eq_some_iff.mp hmap
    have hne' : letters.toLowerCase (Rest.trim raw) ≠ "" := by simpa using hne
    refine ⟨?_, hne'⟩
    have hblank : ¬(letters.toLowerCase (Rest.trim raw)).toList.all (· = ' ') := by
      intro hall
      refine hne' ?_
      rw [trim_blank (letters.toLowerCase_blank _ hall), letters.toLowerCase_empty]
    simp only [columnKey]
    rw [if_neg hblank]
    rfl
  | phone =>
    obtain ⟨hmap, hlen⟩ := Option.filter_eq_some_iff.mp h
    obtain ⟨raw, -, rfl⟩ := Option.map_eq_some_iff.mp hmap
    rw [decide_eq_true_eq] at hlen
    have hne : String.ofList ((raw.toList.map toAsciiDigit).filter fun c =>
        c.isDigit || c = '+') ≠ "" := by
      intro he
      rw [he] at hlen
      exact absurd hlen (by decide)
    refine ⟨?_, hne⟩
    simp only [columnKey, String.toList_ofList, List.filter_filter, Bool.and_self]
    rw [if_neg hne]
    rfl

/-- A value that is vouched for by nobody stands in the marker of its column. -/
structure Audit.Sound (letters : Letters) (a : Audit) : Prop where
  valid : a.db.Valid letters
  marked : ∀ id c column v, a.db.contacts.get id = some c → c.identifiers.get column = some v →
    (v ≠ "" ∧ c.metadata.unverified.get column = some v) ∨ a.vouched (id, column, v)

def Marked (a : Audit) (proof : Identifiers) (id : Id) (c : Contact) : Prop :=
  ∀ column v, c.identifiers.get column = some v →
    (v ≠ "" ∧ c.metadata.unverified.get column = some v) ∨ proof.get column = some v ∨
      a.vouched (id, column, v)

theorem holds_iff : db.holds (id, column, v) ↔
      ∃ c, db.contacts.get id = some c ∧ c.identifiers.get column = some v := by
  simp [Db.holds, Option.any_eq_true]

theorem mem_earned {proof : Identifiers} {k : Id} : (k, column, v) ∈ earned proof db id ↔
      k = id ∧ proof.get column = some v ∧ db.holds (id, column, v) := by
  simp only [earned, List.mem_filter, List.mem_filterMap, Option.map_eq_some_iff, Prod.mk.injEq]
  constructor
  · rintro ⟨⟨column', -, v', hv, rfl, rfl, rfl⟩, hh⟩
    exact ⟨rfl, hv, hh⟩
  · rintro ⟨rfl, hv, hh⟩
    refine ⟨⟨column, ?_, v, hv, rfl, rfl, rfl⟩, hh⟩
    cases column <;> simp [identifierColumns]

section Steps
variable {letters : Letters} {a : Audit} {proof : Identifiers} {q : Ask} {c : Contact} {a' : Audit}
  {w : World} {I : Audit → Prop}

theorem vouched_mono (hp : ∀ e ∈ a.proven, e ∈ a'.proven) (ho : a'.byOperator = a.byOperator)
    (h : a.vouched e) : a'.vouched e := by
  simp only [Audit.vouched, Bool.or_eq_true, decide_eq_true_eq] at h ⊢
  rw [ho]
  exact h.imp_left (hp e)

theorem proven_subset (q : Ask) (db : Db) : ∀ e ∈ a.proven, e ∈ (a.after proof q db).proven :=
  fun _ he => List.mem_append_left _ he

theorem vouched_after (h : a.vouched e) : (a.after proof q db).vouched e :=
  vouched_mono (proven_subset q db) rfl h

theorem sound_of_rows (hv : a'.db.Valid letters)
    (hrows : ∀ id c, a'.db.contacts.get id = some c → Marked a' {} id c) : a'.Sound letters := by
  refine ⟨hv, fun id c column v hc hcol => ?_⟩
  obtain hmarked | hproof | hvouched := hrows id c hc column v hcol
  · exact .inl hmarked
  · cases column <;> cases hproof
  · exact .inr hvouched

theorem sound_of_contacts (h : a.Sound letters) (hv : a'.db.Valid letters)
    (hc : a'.db.contacts = a.db.contacts) (hp : ∀ e, a.vouched e → a'.vouched e) :
    a'.Sound letters :=
  ⟨hv, fun id c column v hget hcol => (h.marked id c column v (hc ▸ hget) hcol).imp_right (hp _)⟩

theorem read_audit (hdb : (answerAsk letters a.db w q).1 = a.db) (ht : target a.db q = none) :
    (answerAudit letters proof a w q).1 = a := by
  simp only [answerAudit, Audit.after, hdb, ht, Option.map_none, Option.getD_none, List.append_nil]

/-- What a statement has to be for the invariant to survive it. -/
def Fits (a : Audit) (proof : Identifiers) : Ask → Prop
  | .insert row => Marked a proof a.db.made row
  | .update id u => ∀ c, a.db.contacts.get id = some c → Marked a proof id (u.apply c)
  | _ => True

theorem marked_after (hm : Marked a proof id c) (ht : target a.db q = some id)
    (hc : db.contacts.get id = some c) : Marked (a.after proof q db) {} id c := by
  intro column v hv
  obtain hmarked | hproof | hvouched := hm column v hv
  · exact .inl hmarked
  · refine .inr (.inr ?_)
    have hearned : (id, column, v) ∈ earned proof db id :=
      mem_earned.mpr ⟨rfl, hproof, holds_iff.mpr ⟨c, hc, hv⟩⟩
    simp only [Audit.vouched, Audit.after, ht, Option.map_some, Option.getD_some, Bool.or_eq_true,
      decide_eq_true_eq]
    exact .inl (List.mem_append_right _ hearned)
  · exact .inr (.inr (vouched_after hvouched))

theorem marked_keeps (h : a.Sound letters) (hc : a.db.contacts.get id = some c) :
    Marked (a.after proof q db) {} id c :=
  fun column v hv => (h.marked id c column v hc hv).imp_right fun hv => .inr (vouched_after hv)

theorem marked_of_columns {c' : Contact} (h : Marked a proof id c)
    (hm : c'.metadata.unverified = c.metadata.unverified)
    (hcol : ∀ column v, c'.identifiers.get column = some v → c.identifiers.get column = some v) :
    Marked a proof id c' := by
  intro column v hv
  rw [hm]
  exact h column v (hcol column v hv)

theorem released_get {column' : IdentifierColumn}
    (h : (c.released column).identifiers.get column' = some v) :
    c.identifiers.get column' = some v ∧ column' ≠ column := by
  by_cases he : column' = column
  · subst he
    simp [Contact.released] at h
  · rw [Contact.released, Identifiers.get_set_ne _ _ he] at h
    exact ⟨h, he⟩

theorem sound_update {f : Contact → Contact} (h : a.Sound letters)
    (hv : (a.db.setContact id f).Valid letters) (hf : ∀ c, a.db.contacts.get id = some c →
      Marked (a.after proof q (a.db.setContact id f)) {} id (f c)) :
    (a.after proof q (a.db.setContact id f)).Sound letters := by
  refine sound_of_rows hv fun id' c' hc' => ?_
  have hget : (a.db.contacts.update id f).get id' = some c' := hc'
  rw [Table.get_update] at hget
  split at hget
  · rename_i he
    subst he
    obtain ⟨c, hc, rfl⟩ := Option.map_eq_some_iff.mp hget
    exact hf c hc
  · exact marked_keeps h hget

theorem Audit.Sound.after (h : a.Sound letters) (hb : Becomes letters a.db q db)
    (hq : Fits a proof q) : (a.after proof q db).Sound letters := by
  have hvalid := h.valid.becomes hb
  cases hb with
  | same | repointed | moved | merged =>
    exact sound_of_contacts h hvalid rfl fun _ => vouched_after
  | released column id =>
    exact sound_update h hvalid fun c hc =>
      marked_of_columns (marked_keeps h hc) rfl fun _ _ hv => (released_get hv).1
  | inserted row hconflict =>
    refine sound_of_rows hvalid fun id' c' hc' => ?_
    have hget : (a.db.contacts.put a.db.made row).get id' = some c' := hc'
    rw [Table.get_put] at hget
    split at hget
    · rename_i he
      subst he
      cases hget
      exact marked_after hq rfl hc'
    · exact marked_keeps h hget
  | updated id u hrefusal =>
    refine sound_update h hvalid fun c hc => marked_after (hq c hc) rfl ?_
    rw [Db.setContact, Table.get_update_self, hc]
    rfl
  | filled id code hrefusal =>
    exact sound_update h hvalid fun c hc =>
      marked_of_columns (marked_keeps h hc) rfl fun _ _ hv => hv

theorem Audit.Sound.answer (h : a.Sound letters) (w : World) (q : Ask) (hq : Fits a proof q) :
    (answerAudit letters proof a w q).1.Sound letters :=
  h.after (becomes_answer w q) hq

theorem picked_none (h : picked pick ids = none) : ids = [] := by
  rw [picked, Option.or_eq_none_iff] at h
  exact List.head?_eq_none_iff.mp h.2

theorem picked_mem (h : picked pick ids = some id) : id ∈ ids := by
  obtain h | ⟨-, h⟩ := Option.or_eq_some_iff.mp h
  · exact List.mem_of_find?_eq_some h
  · exact List.mem_of_head? h

theorem mem_holders : id ∈ db.holders column v ↔ db.holds (id, column, v) := by
  rw [holds_iff]
  simp only [Db.holders, List.mem_map, List.mem_filter, decide_eq_true_eq, Prod.exists]
  constructor
  · rintro ⟨id', c, ⟨hmem, hv⟩, rfl⟩
    exact ⟨c, Table.get_eq_some_iff_mem.mpr hmem, hv⟩
  · rintro ⟨c, hc, hv⟩
    exact ⟨id, c, ⟨Table.get_eq_some_iff_mem.mp hc, hv⟩, rfl⟩

theorem holder_none (h : (answerAsk letters db w (.holder column v)).2 = none) (id : Id) :
    ¬db.holds (id, column, v) := by
  intro hh
  have hreply : ((picked w.pick (db.holders column v)).bind fun id =>
    (db.contacts.get id).map fun c => (⟨id, c.metadata⟩ : Holder)) = none := h
  cases hp : picked w.pick (db.holders column v) with
  | none =>
    have hnil := picked_none hp
    have hmem := mem_holders.mpr hh
    rw [hnil] at hmem
    cases hmem
  | some id' =>
    obtain ⟨c, hc, -⟩ := holds_iff.mp (mem_holders.mp (picked_mem hp))
    rw [hp, Option.bind_some, hc] at hreply
    cases hreply

theorem holder_some {h : Holder} (hh : (answerAsk letters db w (.holder column v)).2 = some h) :
    ∃ c, db.contacts.get h.id = some c ∧ c.identifiers.get column = some v ∧
      h.metadata = c.metadata := by
  obtain ⟨id, hid, hrow⟩ := Option.bind_eq_some_iff.mp hh
  obtain ⟨c, hc, rfl⟩ := Option.map_eq_some_iff.mp hrow
  obtain ⟨c', hc', hv⟩ := holds_iff.mp (mem_holders.mp (picked_mem hid))
  cases hc.symm.trans hc'
  exact ⟨c, hc, hv, rfl⟩

theorem holder_unique (hv : a.db.Valid letters) {id' : Id}
    (hids : (o.identifiers letters).get column = some v) (h : a.db.holds (id, column, v))
    (h' : a.db.holds (id', column, v)) : id = id' := by
  obtain ⟨c, hc, hcol⟩ := holds_iff.mp h
  obtain ⟨c', hc', hcol'⟩ := holds_iff.mp h'
  obtain ⟨k, hk⟩ := Option.isSome_iff_exists.mp (columnKey_identifiers hids).1
  refine hv.unique (.column column) id id' c c' k hc hc' ?_ ?_
  · rw [Contact.key, hcol, Option.bind_some, hk]
  · rw [Contact.key, hcol', Option.bind_some, hk]

def Db.ownCandidates (db : Db) (visitorId : String) : List Id :=
  if db.latestContacts visitorId = [] then db.taggedContacts visitorId
  else db.latestContacts visitorId

theorem upholds_ask {post : Audit → Except String α → Prop} {f : Reply q → Attempt α} (hI : I a)
    (hf : ∀ w, Upholds (answerAudit letters proof) I post (answerAudit letters proof a w q).1
      (f (answerAsk letters a.db w q).2).run) :
    Upholds (answerAudit letters proof) I post a (ask q >>= f).run :=
  ⟨hI, hf⟩

theorem upholds_inquire {post : Audit → α → Prop} {f : Reply q → Program α} (hI : I a)
    (hf : ∀ w, Upholds (answerAudit letters proof) I post (answerAudit letters proof a w q).1
      (f (answerAsk letters a.db w q).2)) :
    Upholds (answerAudit letters proof) I post a (inquire q >>= f) :=
  ⟨hI, hf⟩

theorem upholds_own (hI : I a) (visitorId : String) : Upholds (answerAudit letters proof) I
      (fun a' own => a' = a ∧ ∀ id, own = some id → id ∈ a.db.ownCandidates visitorId) a
      (findContactByVisitorId visitorId) := by
  refine upholds_inquire hI fun w => ?_
  rw [read_audit rfl rfl]
  cases hs : (answerAsk letters a.db w (.visitorSession visitorId)).2 with
  | some id =>
    refine ⟨hI, rfl, fun id' hid' => ?_⟩
    cases hid'
    have hmem : id ∈ a.db.latestContacts visitorId := picked_mem hs
    rw [Db.ownCandidates, if_neg (List.ne_nil_of_mem hmem)]
    exact hmem
  | none =>
    have hnil : a.db.latestContacts visitorId = [] := picked_none hs
    refine ⟨hI, fun w' => ?_⟩
    rw [read_audit rfl rfl]
    refine ⟨hI, rfl, fun id hid => ?_⟩
    rw [Db.ownCandidates, if_pos hnil]
    exact picked_mem hid

end Steps

end Kindred.Widget
