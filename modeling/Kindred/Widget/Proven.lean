import Kindred.Widget.Claims

/-!
A proven identifier never leads to a contact that it was only typed into, as
long as no typed value takes the marker from an earlier one.
-/

namespace Kindred.Widget
open Lib (Table Dialogue run Meets)
open Lib.Dialogue (Upholds upon play)

variable {a' : Audit} {db db' : Db} {ip : Option String} {o : MergeOptions} {geo : Location}

section Steps
variable {letters : Letters} {a : Audit} {proof : Identifiers} {found : Option Found}
  {column : IdentifierColumn} {ids : Identifiers} {p : Placement} {id : Id} {v : String} {w : World}
  {own : Option Id}

/-- Nothing was vouched for, and no contact got a value. -/
structure Within (a a' : Audit) : Prop where
  proven : a'.proven = a.proven
  byOperator : a'.byOperator = a.byOperator
  holds : ∀ e, a'.db.holds e → a.db.holds e

theorem Within.vouched (h : Within a a') (e : Entry) : a'.vouched e = a.vouched e := by
  rw [Audit.vouched, h.proven, h.byOperator, ← Audit.vouched]

def reached (found : Option Found) (columns : List IdentifierColumn) : List IdentifierColumn :=
  match found with
  | none => columns
  | some f => columns.takeWhile (· ≠ f.column) ++ [f.column]

theorem mem_reached_cons {x : IdentifierColumn} {columns : List IdentifierColumn}
    (h : x ∈ reached found (column :: columns)) : x = column ∨ x ∈ reached found columns := by
  cases found with
  | none => simpa [reached] using h
  | some f =>
    by_cases hc : column = f.column
    · left
      simpa [reached, hc] using h
    · simpa [reached, hc, or_assoc] using h

structure Looked (proof : Identifiers) (own : Option Id) (columns : List IdentifierColumn)
    (a a' : Audit) (found : Option Found) : Prop where
  within : Within a a'
  earned : ∀ f, found = some f → own = some f.id ∨ a.vouched (f.id, f.column, f.value)
  released : ∀ x ∈ reached found columns, ∀ id v, proof.get x = some v → a.db.holds (id, x, v) →
    own ≠ some id → ¬a.vouched (id, x, v) → ¬a'.db.holds (id, x, v)

/-- A contact has nothing after a statement that it did not have, unless the statement is about what
the visitor gave for it. -/
theorem target_of_holds {q : Ask} (hb : Becomes letters db q db') (h : db'.holds (id, column, v))
    : db.holds (id, column, v) ∨ target db q = some id := by
  have hupdate {k : Id} {f : Contact → Contact} (h : (db.setContact k f).holds (id, column, v))
      (hf : ∀ c, k = id → (f c).identifiers.get column = some v →
        c.identifiers.get column = some v) : db.holds (id, column, v) := by
    obtain ⟨c, hc, hv⟩ := holds_iff.mp h
    rw [Db.setContact, Table.get_update] at hc
    split at hc
    · rename_i hk
      obtain ⟨c', hc', rfl⟩ := Option.map_eq_some_iff.mp hc
      exact holds_iff.mpr ⟨c', hk ▸ hc', hf c' hk.symm hv⟩
    · exact holds_iff.mpr ⟨c, hc, hv⟩
  cases hb with
  | same | repointed | moved | merged => exact .inl h
  | released column' k => exact .inl (hupdate h fun c _ hv => (released_get hv).1)
  | inserted row hconflict =>
    obtain ⟨c, hc, hv⟩ := holds_iff.mp h
    rw [Db.insertContact, Table.get_put] at hc
    split at hc
    · rename_i hk
      exact .inr (congrArg some hk.symm)
    · exact .inl (holds_iff.mpr ⟨c, hc, hv⟩)
  | updated k u hrefusal =>
    by_cases hk : k = id
    · exact .inr (congrArg some hk)
    · exact .inl (hupdate h fun c he => absurd he hk)
  | filled k code hrefusal => exact .inl (hupdate h fun c _ hv => hv)

theorem within_release (w : World) (column : IdentifierColumn) (id : Id) :
    Within a (answerAudit letters proof a w (.release column id)).1 := by
  refine ⟨?_, rfl, fun e he => ?_⟩
  · simp [answerAudit, Audit.after, target]
  · exact (target_of_holds (becomes_answer w (.release column id)) he).resolve_right (fun h => by cases h)

theorem not_holds_released (h : (answerAsk letters a.db w (.release column id)).2 = .ok ()) :
    ¬(answerAudit letters proof a w (.release column id)).1.db.holds (id, column, v) := by
  have hreply : (sent w a.db (a.db.setContact id (.released column)) none ()).2 = .ok () := h
  have hsent := (sent_ok hreply).1
  have hdb : (answerAudit letters proof a w (.release column id)).1.db =
    a.db.setContact id (.released column) := hsent
  rw [hdb, holds_iff]
  rintro ⟨c, hc, hv⟩
  rw [Db.setContact, Table.get_update_self] at hc
  obtain ⟨c', -, rfl⟩ := Option.map_eq_some_iff.mp hc
  exact (released_get hv).2 rfl

/-- A claim of somebody else is released before anybody is found by it. -/
theorem upholds_provenHolder {o : MergeOptions} (own : Option Id) (columns : List IdentifierColumn)
    (h : a.Sound letters) : Upholds (answerAudit letters proof) (Audit.Sound letters)
      (upon (fun _ _ => True) (Looked (o.identifiers letters) own columns a)) a
      (provenHolder (o.identifiers letters) own columns).run := by
  induction columns generalizing a with
  | nil =>
    refine ⟨h, ⟨⟨rfl, rfl, fun _ he => he⟩, nofun, fun x hx => ?_⟩⟩
    cases hx
  | cons column columns ih =>
    rw [provenHolder]
    split
    · rename_i hnone
      refine (ih h).mono fun s r _ hr => ?_
      cases r with
      | error e => trivial
      | ok found =>
        refine ⟨hr.within, hr.earned, fun x hx id v hp => ?_⟩
        obtain rfl | hx := mem_reached_cons hx
        · rw [hnone] at hp
          cases hp
        · exact hr.released x hx id v hp
    · rename_i value hvalue
      refine upholds_ask h fun w => ?_
      rw [read_audit rfl rfl]
      cases hs : (answerAsk letters a.db w (.holder column value)).2 with
      | none =>
        refine (ih h).mono fun s r _ hr => ?_
        cases r with
        | error e => trivial
        | ok found =>
          refine ⟨hr.within, hr.earned, fun x hx id v hp hh => ?_⟩
          obtain rfl | hx := mem_reached_cons hx
          · cases hvalue.symm.trans hp
            exact absurd hh (holder_none hs id)
          · exact hr.released x hx id v hp hh
      | some holder =>
        obtain ⟨c, hc, hcol, hmeta⟩ := holder_some hs
        have hholds : a.db.holds (holder.id, column, value) := holds_iff.mpr ⟨c, hc, hcol⟩
        by_cases hclaim : some holder.id ≠ own ∧ isClaimOnly holder.metadata column value
        · simp only [if_pos hclaim]
          refine upholds_ask h fun w' => ?_
          have hsound :
              (answerAudit letters proof a w' (.release column holder.id)).1.Sound letters :=
            h.answer w' _ trivial
          cases hr : (answerAsk letters a.db w' (.release column holder.id)).2 with
          | error e => exact ⟨hsound, trivial⟩
          | ok u =>
            refine (ih hsound).mono fun s r _ hl => ?_
            cases r with
            | error e => trivial
            | ok found =>
              have hwithin : Within a
                (answerAudit letters proof a w' (.release column holder.id)).1 :=
                within_release w' column holder.id
              refine ⟨⟨hl.within.proven.trans hwithin.proven,
                hl.within.byOperator.trans hwithin.byOperator,
                fun e he => hwithin.holds e (hl.within.holds e he)⟩, fun f hf => ?_,
                fun x hx id v hp hh hne hnv hend => ?_⟩
              · exact (hl.earned f hf).imp_right fun hv => (hwithin.vouched _).symm.trans hv
              · have hmid := hl.within.holds _ hend
                obtain rfl | hx := mem_reached_cons hx
                · cases hvalue.symm.trans hp
                  cases holder_unique h.valid hvalue hh hholds
                  exact not_holds_released hr hmid
                · refine hl.released x hx id v hp hmid hne ?_ hend
                  rwa [hwithin.vouched]
        · simp only [if_neg hclaim]
          have hearned : own = some holder.id ∨ a.vouched (holder.id, column, value) := by
            by_cases hown : some holder.id = own
            · exact .inl hown.symm
            · refine .inr ((h.marked _ c column value hc hcol).resolve_left fun hm => ?_)
              refine hclaim ⟨hown, ?_⟩
              rw [isClaimOnly, hmeta]
              exact decide_eq_true hm.2
          refine ⟨h, ⟨⟨rfl, rfl, fun _ he => he⟩, fun f hf => ?_,
            fun x hx id v hp hh hne hnv => ?_⟩⟩
          · cases hf
            exact hearned
          · have hx : x = column := by simpa [reached] using hx
            subst hx
            cases hvalue.symm.trans hp
            cases holder_unique h.valid hvalue hh hholds
            exact absurd hearned (not_or.mpr ⟨hne, hnv⟩)

structure Placed (own : Option Id) (ids : Identifiers) (a : Audit) (p : Placement) : Prop where
  columns : ∀ column v, p.columns.get column = some v → ids.get column = some v ∧
    (p.claims.get column = some v ∨ ∃ id, own = some id ∧ a.db.holds (id, column, v))
  claims : ∀ column v, p.claims.get column = some v → ids.get column = some v

theorem get_set (i : Identifiers) (column x : IdentifierColumn) (value : Option String) :
    (i.set column value).get x = if x = column then value else i.get x := by
  split
  · rename_i h
    rw [h, Identifiers.get_set_self]
  · rename_i h
    exact Identifiers.get_set_ne i value h

theorem Placed.place {value : String} (h : Placed own ids a p)
    (hids : ids.get column = some value) : Placed own ids a
      (p.place own column value (answerAsk letters a.db w (.holder column value)).2) := by
  have hclaims : ∀ x v, (p.claims.set column (some value)).get x = some v → ids.get x = some v := by
    intro x v hv
    rw [get_set] at hv
    split at hv
    · rename_i hx
      rw [hx, hids, hv]
    · exact h.claims x v hv
  cases hs : (answerAsk letters a.db w (.holder column value)).2 with
  | none =>
    refine ⟨fun x v hv => ?_, hclaims⟩
    simp only [Placement.place, get_set] at hv ⊢
    split at hv
    · rename_i hx
      exact ⟨hx ▸ hids.trans hv, .inl (by rw [if_pos hx, hv])⟩
    · rename_i hx
      rw [if_neg hx]
      exact h.columns x v hv
  | some holder =>
    obtain ⟨c, hc, hcol, -⟩ := holder_some hs
    simp only [Placement.place]
    split
    · rename_i hown
      refine ⟨fun x v hv => ?_, fun x v hv => ?_⟩
      · simp only [get_set] at hv
        split at hv
        · rename_i hx
          cases hv
          subst hx
          exact ⟨hids, .inr ⟨holder.id, hown.symm, holds_iff.mpr ⟨c, hc, hcol⟩⟩⟩
        · rename_i hx
          refine ⟨(h.columns x v hv).1, (h.columns x v hv).2.imp_left fun hcl => ?_⟩
          split
          · rw [get_set, if_neg hx, hcl]
          · exact hcl
      · dsimp only at hv
        split at hv
        · exact hclaims x v hv
        · exact h.claims x v hv
    · refine ⟨fun x v hv => ?_, hclaims⟩
      refine ⟨(h.columns x v hv).1, (h.columns x v hv).2.imp_left fun hcl => ?_⟩
      simp only [get_set]
      split
      · rename_i hx
        rw [← hids, ← hx, (h.columns x v hv).1]
      · exact hcl

theorem upholds_placeColumns {I : Audit → Prop} (hI : I a) {out : Placement}
    (columns : List IdentifierColumn) (hout : Placed own ids a out) :
    Upholds (answerAudit letters proof) I (fun a' p => a' = a ∧ Placed own ids a p) a
      (placeColumns ids own out columns) := by
  induction columns generalizing out with
  | nil => exact ⟨hI, rfl, hout⟩
  | cons column columns ih =>
    rw [placeColumns]
    split
    · exact ih hout
    · rename_i value hvalue
      refine upholds_inquire hI fun w => ?_
      rw [read_audit rfl rfl]
      exact ih (hout.place hvalue)

theorem placed_empty : Placed own ids a {} := by
  constructor <;> intro column v hv <;> cases column <;> cases hv

/-- Sound, and a contact that got a value of `proof` since `a₁` has proven it. -/
structure Kept (letters : Letters) (proof : Identifiers) (a₁ a : Audit) : Prop where
  sound : a.Sound letters
  since : ∀ id column v, proof.get column = some v → a.db.holds (id, column, v) →
    a₁.db.holds (id, column, v) ∨ (id, column, v) ∈ a.proven

theorem Audit.Sound.kept (h : a.Sound letters) : Kept letters proof a a :=
  ⟨h, fun _ _ _ _ hh => .inl hh⟩

theorem Kept.answer {a₁ : Audit} (h : Kept letters proof a₁ a) (w : World) (q : Ask)
    (hq : Fits a proof q) : Kept letters proof a₁ (answerAudit letters proof a w q).1 := by
  refine ⟨h.sound.answer w q hq, fun id column v hp hh => ?_⟩
  obtain hbefore | ht := target_of_holds (becomes_answer w q) hh
  · exact (h.since id column v hp hbefore).imp_right (proven_subset q _ _)
  · refine .inr ?_
    have hearned : (id, column, v) ∈ earned proof (answerAsk letters a.db w q).1 id :=
      mem_earned.mpr ⟨rfl, hp, hh⟩
    simp only [answerAudit, Audit.after, ht, Option.map_some, Option.getD_some]
    exact List.mem_append_right _ hearned

section Writes
variable {a₁ : Audit} {c : Contact} {o : MergeOptions} {geo : Location} {contactId : Id}
  {own : Option Id}

abbrev Keeps (letters : Letters) (proof : Identifiers) (a₁ a : Audit) {α : Type} (d : Program α) :
    Prop :=
  Upholds (answerAudit letters proof) (Kept letters proof a₁) (fun _ _ => True) a d

theorem keeps_backfill (contactId : Id) (n : ℕ) (h : Kept letters proof a₁ a) :
    Keeps letters proof a₁ a (backfillVisitorCode contactId n) := by
  induction n generalizing a with
  | zero => exact ⟨h, trivial⟩
  | succ n ih =>
    refine upholds_inquire h fun w => ?_
    have hcode := h.answer w .code trivial
    refine upholds_inquire hcode fun w' => ?_
    have hfilled := hcode.answer w' (.fillCode contactId (answerAsk letters a.db w .code).2) trivial
    split
    · split
      · exact ih hfilled
      · exact ⟨hfilled, trivial⟩
    · exact ⟨hfilled, trivial⟩
    · exact ⟨hfilled, fun w'' => ⟨hfilled.answer w'' _ trivial, trivial⟩⟩

def MarkedAnywhere (proof : Identifiers) (c : Contact) : Prop :=
  ∀ column v, c.identifiers.get column = some v →
    (v ≠ "" ∧ c.metadata.unverified.get column = some v) ∨ proof.get column = some v

theorem MarkedAnywhere.marked (h : MarkedAnywhere proof c) (a : Audit) (id : Id) :
    Marked a proof id c :=
  fun column v hv => (h column v hv).imp_right .inl

theorem keeps_insert {buildPayload : Option String → Contact} (n : ℕ)
    (hrow : ∀ code, MarkedAnywhere proof (buildPayload code)) (h : Kept letters proof a₁ a) :
    Keeps letters proof a₁ a (insertContactWithVisitorCode buildPayload n) := by
  induction n generalizing a with
  | zero =>
    refine upholds_inquire h fun w => ?_
    have hinserted := h.answer w (.insert (buildPayload none)) ((hrow none).marked a _)
    split
    · exact ⟨hinserted, trivial⟩
    · exact Upholds.bind (keeps_backfill _ _ hinserted) fun s _ hs _ => ⟨hs, trivial⟩
  | succ n ih =>
    refine upholds_inquire h fun w => ?_
    have hcode := h.answer w .code trivial
    refine upholds_inquire hcode fun w' => ?_
    have hinserted := hcode.answer w' (.insert (buildPayload (some _)))
      ((hrow (some (answerAsk letters a.db w .code).2)).marked _ _)
    split
    · split
      · exact ih hinserted
      · exact ⟨hinserted, trivial⟩
    · exact ⟨hinserted, trivial⟩

theorem keeps_createContact (hcols : ∀ column v, p.columns.get column = some v →
      (v ≠ "" ∧ p.claims.get column = some v) ∨ proof.get column = some v)
    (h : Kept letters proof a₁ a) : Keeps letters proof a₁ a (createContact o ip geo p).run := by
  have hnone : ∀ code, MarkedAnywhere proof (newContact o ip geo p.claims {} code) := by
    intro code column v hv
    cases column <;> cases hv
  have hrow : ∀ code, MarkedAnywhere proof (newContact o ip geo p.claims p.columns code) :=
    fun code => hcols
  refine Upholds.bindLift (keeps_insert maxAttempts hrow h) fun s r hs _ => ?_
  cases r with
  | ok id => exact ⟨hs, trivial⟩
  | error e =>
    dsimp only
    split
    · refine Upholds.bindLift (keeps_insert maxAttempts hnone hs) fun s' r hs' _ => ?_
      cases r <;> exact ⟨hs', trivial⟩
    · exact ⟨hs, trivial⟩

theorem sent_conflict {α : Type} {e : Option DbError} {x : α} {err : DbError}
    (h : (sent w db db' e x).2 = .error err) (hc : err.isContactIdentityConflict) :
    (sent w db db' e x).1 = db := by
  unfold sent at h ⊢
  split at h <;> cases h <;> first | rfl | exact absurd hc (by decide)

theorem marked_mono (h : Marked a proof id c) (hv : ∀ e, a.vouched e → a'.vouched e) :
    Marked a' proof id c :=
  fun column v hc => (h column v hc).imp_right (Or.imp_right (hv _))

theorem keeps_sendUpdates {u : Updates} (h : Kept letters proof a₁ a)
    (hu : ∀ c, a.db.contacts.get contactId = some c → Marked a proof contactId (u.apply c) ∧
      Marked a proof contactId ({ u with identifiers := {} : Updates }.apply c)) :
    Keeps letters proof a₁ a (sendUpdates o contactId u).run := by
  unfold sendUpdates
  split
  · exact ⟨h, trivial⟩
  · refine upholds_ask h fun w => ?_
    have hsent := h.answer w (.update contactId u) fun c hc => (hu c hc).1
    cases hr : (answerAsk letters a.db w (.update contactId u)).2 with
    | ok _ => exact ⟨hsent, trivial⟩
    | error e =>
      dsimp only
      split
      · rename_i hconflict
        rw [Bool.and_eq_true] at hconflict
        have hreply : (sent w a.db (a.db.setContact contactId u.apply)
          (a.db.refusal letters contactId u.apply) ()).2 = .error e := hr
        have hdb : (answerAudit letters proof a w (.update contactId u)).1.db = a.db :=
          sent_conflict hreply hconflict.2
        refine upholds_ask hsent fun w' => ?_
        have hagain := hsent.answer w' (.update contactId { u with identifiers := {} })
          fun c hc => marked_mono (hu c (hdb ▸ hc)).2 fun _ => vouched_after
        split
        · exact ⟨hagain, trivial⟩
        · exact ⟨hagain, trivial⟩
      · exact ⟨hsent, trivial⟩

theorem keeps_updateContact (h : Kept letters proof a₁ a)
    (hu : ∀ c, a.db.contacts.get contactId = some c →
      Marked a proof contactId ((updatesFor letters o geo p (some c)).apply c) ∧
      Marked a proof contactId
        ({ updatesFor letters o geo p (some c) with identifiers := {} : Updates }.apply c)) :
    Keeps letters proof a₁ a (updateContact letters o geo p contactId).run := by
  refine upholds_ask h fun w => ?_
  rw [read_audit rfl rfl]
  have hexisting : (answerAsk letters a.db w (.existing contactId)).2 =
    a.db.contacts.get contactId := rfl
  rw [hexisting]
  refine Upholds.bindAttempt (keeps_sendUpdates h fun c hc => ?_) (fun _ _ _ => trivial)
    fun s _ hs => ?_
  · rw [hc]
    exact hu c hc
  · split
    · exact (keeps_backfill contactId maxAttempts hs).bind fun s' _ hs' _ => ⟨hs', trivial⟩
    · exact ⟨hs, trivial⟩

theorem keeps_repoint {visitorId : String} {fromContact toContact : Id}
    (h : Kept letters proof a₁ a) :
    Keeps letters proof a₁ a (repointVisitorToContact visitorId fromContact toContact).run := by
  refine upholds_ask h fun w => ?_
  have hids := h.answer w (.sessionIds visitorId) trivial
  refine upholds_ask hids fun w' => ?_
  have hsessions := hids.answer w' (.repointSessions visitorId fromContact toContact) trivial
  split
  · exact ⟨hsessions, trivial⟩
  · split
    · exact ⟨hsessions, trivial⟩
    · refine upholds_ask hsessions fun w'' => ?_
      have hconversations := hsessions.answer w''
        (.repointConversations fromContact toContact
          (answerAsk letters a.db w (.sessionIds visitorId)).2) trivial
      split
      · exact ⟨hconversations, trivial⟩
      · exact ⟨hconversations, trivial⟩

theorem keeps_moveOwn (h : Kept letters proof a₁ a) :
    Keeps letters proof a₁ a (moveOwn o own contactId).run := by
  unfold moveOwn
  split
  · split
    · exact keeps_repoint h
    · exact ⟨h, trivial⟩
  · exact ⟨h, trivial⟩

def Told (own : Option Id) (found : Option Found) (res : MergeResult) : Prop :=
  res.own = own ∧ (res.foundBy = found.map fun f => (f.column, f.value)) ∧
    ∀ f, found = some f → res.contactId = f.id

theorem upholds_linkVisitor {isNewContact : Bool} (h : Kept letters proof a₁ a)
    (hf : ∀ f, found = some f → contactId = f.id) :
    Upholds (answerAudit letters proof) (Kept letters proof a₁)
      (upon (fun _ _ => True) fun _ res => Told own found res) a
      (linkVisitor o own found isNewContact contactId).run := by
  refine (keeps_moveOwn h).bindAttempt (fun _ _ _ => trivial) fun s _ hs => ?_
  refine upholds_ask hs fun w => ?_
  have hmerged := hs.answer w (.merge o.visitorId contactId) trivial
  split
  · exact ⟨hmerged, trivial⟩
  · exact ⟨hmerged, rfl, rfl, hf⟩

theorem upholds_mergeInto (h : Kept letters proof a₁ a)
    (hnew : (found.map Found.id).or own = none → ∀ column v, p.columns.get column = some v →
      (v ≠ "" ∧ p.claims.get column = some v) ∨ proof.get column = some v)
    (hu : ∀ id, (found.map Found.id).or own = some id → ∀ c, a.db.contacts.get id = some c →
      Marked a proof id ((updatesFor letters o geo p (some c)).apply c) ∧ Marked a proof id
        ({ updatesFor letters o geo p (some c) with identifiers := {} : Updates }.apply c)) :
    Upholds (answerAudit letters proof) (Kept letters proof a₁)
      (upon (fun _ _ => True) fun _ res => Told own found res) a
      (mergeInto letters o ip geo own found p).run := by
  unfold mergeInto
  split
  · rename_i hnone
    refine (keeps_createContact (hnew hnone) h).bindAttempt (fun _ _ _ => trivial) fun s _ hs => ?_
    refine upholds_linkVisitor hs fun f hf => ?_
    rw [hf] at hnone
    cases hnone
  · rename_i id hid
    refine (keeps_updateContact h (hu id hid)).bindAttempt (fun _ _ _ => trivial) fun s _ hs => ?_
    refine upholds_linkVisitor hs fun f hf => ?_
    rw [hf] at hid
    exact (Option.some.inj hid).symm

theorem get_claimsAfter (proven : Bool) (ids claims before : Identifiers)
    (column : IdentifierColumn) : (claimsAfter proven ids claims before).get column = if proven then
        if (ids.get column).isSome ∧ before.get column = ids.get column then none
        else before.get column else (claims.get column).or (before.get column) := by
  cases column <;> rfl

theorem updatesFor_unverified :
    ((updatesFor letters o geo p (some c)).apply c).metadata.unverified =
      claimsAfter o.proven (o.identifiers letters) p.claims c.metadata.unverified := by
  simp only [updatesFor, Updates.apply, Option.map_some, Option.getD_some]
  split
  · rfl
  · rename_i hnone
    simp only [not_or, not_not] at hnone
    exact hnone.2.2.2.symm

theorem updatesFor_column
    (h : ((updatesFor letters o geo p (some c)).apply c).identifiers.get column = some v) :
    (truthy (c.identifiers.get column) = false ∧ p.columns.get column = some v) ∨
      c.identifiers.get column = some v := by
  have hfree : ∀ x, (if (some c).any fun c => !truthy (c.identifiers.get x) then
      p.columns.get x else none).or (c.identifiers.get x) = some v →
      (truthy (c.identifiers.get x) = false ∧ p.columns.get x = some v) ∨
        c.identifiers.get x = some v := by
    intro x hx
    obtain hx | ⟨-, hx⟩ := Option.or_eq_some_iff.mp hx
    · split at hx
      · rename_i ht
        exact .inl ⟨by simpa using ht, hx⟩
      · cases hx
    · exact .inr hx
  cases column <;> exact hfree _ h

theorem marked_updates
    (hcols : ∀ column v, p.columns.get column = some v → truthy (c.identifiers.get column) = false →
      (v ≠ "" ∧ (claimsAfter o.proven (o.identifiers letters) p.claims
        c.metadata.unverified).get column = some v) ∨ proof.get column = some v)
    (hkept : ∀ column v, c.identifiers.get column = some v →
      (v ≠ "" ∧ (claimsAfter o.proven (o.identifiers letters) p.claims
        c.metadata.unverified).get column = some v) ∨ proof.get column = some v ∨
        a.vouched (id, column, v)) :
    Marked a proof id ((updatesFor letters o geo p (some c)).apply c) ∧ Marked a proof id
        ({ updatesFor letters o geo p (some c) with identifiers := {} : Updates }.apply c) := by
  constructor
  · intro column v hv
    rw [updatesFor_unverified]
    obtain ⟨hblank, hp⟩ | hc := updatesFor_column hv
    · exact (hcols column v hp hblank).imp_right .inl
    · exact hkept column v hc
  · intro column v hv
    have hsame : ({ updatesFor letters o geo p (some c) with
        identifiers := {} : Updates }.apply c).metadata =
      ((updatesFor letters o geo p (some c)).apply c).metadata := rfl
    rw [hsame, updatesFor_unverified]
    refine hkept column v ?_
    cases column <;> exact hv

end Writes

end Steps

section Calls
variable {letters : Letters} {a : Audit}

/-- No typed value takes the marker from another one that the contact has in its column. -/
def Careful (letters : Letters) (a : Audit) : Act → Prop
  | .call o _ => o.proven = false → ∀ own ∈ a.db.ownCandidates o.visitorId,
      ∀ c ∈ a.db.contacts.get own, ∀ column ∈ identifierColumns,
      ∀ v ∈ c.identifiers.get column, ∀ w ∈ (o.identifiers letters).get column,
      c.metadata.unverified.get column = some v → w = v ∨ a.vouched (own, column, v)
  | _ => True

instance (letters : Letters) (a : Audit) : (e : Act) → Decidable (Careful letters a e)
  | .call .. => by unfold Careful; infer_instance
  | .operatorAdds _ | .operatorSets .. | .visit .. | .converse _ => .isTrue trivial

structure Joined (letters : Letters) (o : MergeOptions) (a a' : Audit) (res : MergeResult) :
    Prop where
  earned : ∀ column v, res.foundBy = some (column, v) →
    res.own = some res.contactId ∨ a.vouched (res.contactId, column, v)
  released : ∀ id column v, (o.identifiers letters).get column = some v →
    (∀ w, res.foundBy = some (.email, w) → column = .email) → a.db.holds (id, column, v) →
    res.own ≠ some id → ¬a.vouched (id, column, v) →
    ¬a'.db.holds (id, column, v) ∨ (id, column, v) ∈ a'.proven

def Joins (letters : Letters) (a : Audit) : Act → Prop
  | .call o ws => o.proven → ∀ res, (served letters a o ws).2 = some (.ok res) →
      Joined letters o a (served letters a o ws).1 res
  | _ => True

theorem upholds_proven (hproven : o.proven) (own : Option Id) (h : a.Sound letters) :
    Upholds (answerAudit letters (o.identifiers letters)) (Audit.Sound letters)
      (upon (fun _ _ => True) (Joined letters o a)) a (mergeWithOwn letters o ip geo own).run := by
  unfold mergeWithOwn
  rw [if_pos hproven]
  refine (upholds_provenHolder own identifierColumns h).bindExcept fun s found hs hlooked => ?_
  refine ((upholds_mergeInto (p := { columns := o.identifiers letters }) hs.kept
    (fun _ column v hv => .inr hv) fun id _ c hc => ?_).mono
    fun s' r hkept htold => ?_).weaken fun _ hk => hk.sound
  · refine marked_updates (fun column v hv _ => .inr hv) fun column v hv => ?_
    obtain ⟨hne, hmarker⟩ | hvouched := hs.marked id c column v hc hv
    · rw [get_claimsAfter, if_pos hproven]
      split
      · rename_i hproof
        exact .inr (.inl (hproof.2 ▸ hmarker))
      · exact .inl ⟨hne, hmarker⟩
    · exact .inr (.inr hvouched)
  · cases r with
    | error e => trivial
    | ok res =>
      obtain ⟨hown, hfoundBy, hid⟩ := htold
      refine ⟨fun column v hv => ?_, fun id column v hp hfirst hh hne hnv => ?_⟩
      · rw [hfoundBy] at hv
        obtain ⟨f, hf, he⟩ := Option.map_eq_some_iff.mp hv
        cases he
        rw [hown, hid f hf]
        exact hlooked.earned f hf
      · have hreached : column ∈ reached found identifierColumns := by
          cases found with
          | none => cases column <;> simp [reached, identifierColumns]
          | some f =>
            cases hcol : f.column with
            | email =>
              have hemail := hfirst f.value (by rw [hfoundBy, Option.map_some, hcol])
              simp [reached, hcol, hemail]
            | phone => cases column <;> simp [reached, identifierColumns, hcol]
        have hgone := hlooked.released column hreached id v hp hh (hown ▸ hne) hnv
        by_cases hend : s'.db.holds (id, column, v)
        · exact .inr ((hkept.since id column v hp hend).resolve_left hgone)
        · exact .inl hend

theorem upholds_typed (hproven : o.proven = false) {own : Option Id} (h : a.Sound letters)
    (hcareful : ∀ id, own = some id → ∀ c, a.db.contacts.get id = some c → ∀ column v w,
      c.identifiers.get column = some v → (o.identifiers letters).get column = some w →
      c.metadata.unverified.get column = some v → w = v ∨ a.vouched (id, column, v)) :
    Upholds (answerAudit letters {}) (Audit.Sound letters) (fun _ _ => True) a
      (mergeWithOwn letters o ip geo own).run := by
  unfold mergeWithOwn
  rw [if_neg (Bool.eq_false_iff.mp hproven)]
  refine (upholds_placeColumns h identifierColumns placed_empty).bindLift fun s p hs hp => ?_
  obtain ⟨rfl, hp⟩ := hp
  refine ((upholds_mergeInto h.kept (fun hnone column v hv => ?_)
    fun id hid c hc => ?_).mono fun _ _ _ _ => trivial).weaken fun _ hk => hk.sound
  · obtain ⟨hids, hclaim | ⟨id, hown, -⟩⟩ := hp.columns column v hv
    · exact .inl ⟨(columnKey_identifiers hids).2, hclaim⟩
    · cases hown.symm.trans hnone
  · refine marked_updates (fun column v hv hblank => .inl ?_) fun column v hv => ?_
    · obtain ⟨hids, hclaim | ⟨id', hown, hh⟩⟩ := hp.columns column v hv
      · refine ⟨(columnKey_identifiers hids).2, ?_⟩
        rw [get_claimsAfter, hproven, hclaim]
        rfl
      · cases hown.symm.trans hid
        obtain ⟨c', hc', hcol⟩ := holds_iff.mp hh
        cases hc.symm.trans hc'
        rw [hcol] at hblank
        exact absurd (by simpa [truthy] using hblank) (columnKey_identifiers hids).2
    · obtain ⟨hne, hmarker⟩ | hvouched := h.marked id c column v hc hv
      · rw [get_claimsAfter, hproven]
        cases hclaim : p.claims.get column with
        | none => exact .inl ⟨hne, hmarker⟩
        | some w =>
          have hids := hp.claims column w hclaim
          obtain rfl | hvouched := hcareful id hid c hc column v w hv hids hmarker
          · exact .inl ⟨hne, rfl⟩
          · exact .inr (.inr hvouched)
      · exact .inr (.inr hvouched)

theorem upholds_call {ws : List World} (h : a.Sound letters)
    (hcareful : Careful letters a (.call o ws)) :
    Upholds (answerAudit letters (o.proof letters)) (Audit.Sound letters)
      (upon (fun _ _ => True) fun a' res => o.proven → Joined letters o a a' res) a
      (mergeVisitorIdentity letters o).run := by
  refine upholds_ask h fun w => ?_
  rw [read_audit rfl rfl]
  refine upholds_ask h fun w' => ?_
  rw [read_audit rfl rfl]
  refine (upholds_own h o.visitorId).bindLift fun s own _ hown => ?_
  obtain ⟨rfl, hown⟩ := hown
  cases hproven : o.proven with
  | true =>
    rw [MergeOptions.proof, if_pos hproven]
    refine (upholds_proven hproven own h).mono fun s' r _ hr => ?_
    cases r with
    | error e => trivial
    | ok res => exact fun _ => hr
  | false =>
    rw [MergeOptions.proof, if_neg (Bool.eq_false_iff.mp hproven)]
    refine (upholds_typed hproven h fun id hid c hc column v w hv hw hm => ?_).mono
      fun s' r _ _ => ?_
    · refine hcareful hproven id (hown id hid) c hc column ?_ v hv w hw hm
      cases column <;> simp [identifierColumns]
    · cases r with
      | error e => trivial
      | ok res => exact fun h => by cases h

theorem sound_empty : Audit.Sound letters {} := by
  refine ⟨⟨fun id _ => Table.get_empty id, fun index id id' c c' k hc => ?_⟩,
    fun id c column v hc => ?_⟩
  all_goals
    cases hc

theorem sound_operator {entries : List Entry} (h : a.Sound letters) (hv : a'.db.Valid letters)
    (hp : a'.proven = a.proven) (ho : a'.byOperator = a.byOperator ++ entries)
    (hrows : ∀ id c column v, a'.db.contacts.get id = some c → c.identifiers.get column = some v →
      (id, column, v) ∈ entries ∨ ∃ c₀, a.db.contacts.get id = some c₀ ∧
        c₀.identifiers.get column = some v ∧ c₀.metadata = c.metadata) : a'.Sound letters := by
  refine ⟨hv, fun id c column v hc hcol => ?_⟩
  simp only [Audit.vouched, hp, ho, Bool.or_eq_true, decide_eq_true_eq, List.mem_append]
  obtain he | ⟨c₀, hc₀, hcol₀, hmeta⟩ := hrows id c column v hc hcol
  · exact .inr (.inr (.inr he))
  · have hmarked := h.marked id c₀ column v hc₀ hcol₀
    simp only [Audit.vouched, Bool.or_eq_true, decide_eq_true_eq] at hmarked
    rw [← hmeta]
    exact hmarked.imp_right (Or.imp_right .inl)

theorem Audit.Sound.act (h : a.Sound letters) (e : Act) (hcareful : Careful letters a e) :
    (act letters a e).Sound letters := by
  cases e with
  | call o ws => exact ((upholds_call h hcareful).play ws).1
  | operatorAdds c =>
    simp only [Widget.act]
    split
    · rename_i hconflict
      refine sound_operator h (h.valid.insertContact hconflict) rfl rfl
        fun id c' column v hc hv => ?_
      dsimp only [Db.insertContact] at hc
      rw [Table.get_put] at hc
      split at hc
      · rename_i hid
        subst hid
        cases hc
        left
        simp only [entriesOf, List.mem_filterMap, Option.map_eq_some_iff]
        exact ⟨column, by cases column <;> simp [identifierColumns], v, hv, rfl⟩
      · exact .inr ⟨c', hc, hv, rfl⟩
    · exact h
  | operatorSets id column value =>
    simp only [Widget.act]
    split
    · rename_i hrefusal
      refine sound_operator h (h.valid.refused hrefusal) rfl rfl fun id' c' x v hc hv => ?_
      dsimp only [Db.setContact] at hc
      rw [Table.get_update] at hc
      split at hc
      · rename_i hid
        subst hid
        obtain ⟨c, hrow, rfl⟩ := Option.map_eq_some_iff.mp hc
        rw [get_set] at hv
        split at hv
        · rename_i hx
          left
          simp [hv, hx]
        · exact .inr ⟨c, hrow, hv, rfl⟩
      · exact .inr ⟨c', hc, hv, rfl⟩
    · exact h
  | visit visitorId now => exact sound_of_contacts h ⟨h.valid.fresh, h.valid.unique⟩ rfl fun _ => id
  | converse session => exact sound_of_contacts h ⟨h.valid.fresh, h.valid.unique⟩ rfl fun _ => id

theorem joins_of_careful (h : a.Sound letters) (e : Act) (hcareful : Careful letters a e) :
    Joins letters a e := by
  cases e with
  | call o ws =>
    intro hproven res hres
    exact ((upholds_call h hcareful).play ws).2 _ hres hproven
  | _ => trivial

end Calls

def plainLetters : Letters := ⟨id, id, rfl, fun _ h => h⟩

def answers (code : String) : List World := List.replicate 12 { code }

def squattedRun : List Act :=
  [.call { visitorId := "squatter", email := some "a@kin" } (answers "MA-1"),
    .call { visitorId := "squatter", email := some "b@kin" } (answers "MA-2"),
    .call { visitorId := "owner", email := some "a@kin", verifiedIdentifiers := true }
      (answers "MA-3")]

def releasedRun : List Act :=
  [.call { visitorId := "squatter", email := some "a@kin" } (answers "MA-1"),
    .call { visitorId := "owner", email := some "a@kin", verifiedIdentifiers := true }
      (answers "MA-2"),
    .call { visitorId := "owner", email := some "b@kin" } (answers "MA-3"),
    .call { visitorId := "phone", email := some "a@kin", verifiedIdentifiers := true }
      (answers "MA-4")]

end Kindred.Widget
