import Kindred.Database
import Kindred.Lib.Slot

/-!
One product (or one variant) of a connected store: its row, the gravestone that
a delete leaves, and the functions that write them, each a transaction of a few
statements that see what others have committed.
-/

namespace Kindred.Commerce
open Lib (Table Slot run Meets)

section Functions
variable {V X : Type} [LinearOrder V]

/-- `X`: what an upsert sets besides the version. -/
inductive Delivery (V X : Type) where
  | upsert (version : V) (values : X)
  | tombstone (version : V)
  deriving DecidableEq

namespace Delivery

def version : Delivery V X → V
  | .upsert version _ => version
  | .tombstone version => version

def row : Delivery V X → Option (V × X)
  | .upsert version values => some (version, values)
  | .tombstone _ => none

end Delivery

/-- The statement that comes next: of `commerce_upsert_product` the check, the removal of the
gravestone and the insert, of `commerce_tombstone_product` the check, the delete and the gravestone;
`refused` is the answer to a straggler, `result` what is returned. -/
inductive Stage where
  | check
  | clearGrave
  | insert
  | delete
  | bury (deleted : Bool)
  | finished (refused result : Bool)
  deriving DecidableEq

structure Transaction (V X : Type) where
  delivery : Delivery V X
  stage : Stage := .check

/-- `delivered`: the deliveries whose transaction is committed. -/
structure Catalogue (V X : Type) where
  row : Slot (V × X) := {}
  grave : Slot V := {}
  transactions : Table ℕ (Transaction V X) := .empty
  delivered : List (Delivery V X) := []

inductive Event (V X : Type) where
  | deliver (t : ℕ) (d : Delivery V X)
  | statement (t : ℕ)
  | commit (t : ℕ)
  | rollback (t : ℕ)

namespace Catalogue

/-- The statement goes on with `stage`. -/
def goOn (s : Catalogue V X) (t : ℕ) (x : Transaction V X) (stage : Stage) : Catalogue V X :=
  { s with transactions := s.transactions.put t { x with stage } }

/-- `SELECT entity_version`, and whether the delivery comes too late. -/
def check (s : Catalogue V X) (t : ℕ) (x : Transaction V X) : Catalogue V X :=
  match x.delivery with
  | .upsert version _ =>
    match s.grave.seenBy t with
    | none => s.goOn t x .insert
    | some g => s.goOn t x (if version ≤ g then .finished true false else .clearGrave)
  | .tombstone version =>
    match s.row.seenBy t with
    | none => s.goOn t x .delete
    | some r => s.goOn t x (if version ≤ r.1 then .finished true false else .delete)

/-- `DELETE FROM commerce_deleted_entities`; a row that somebody else has locked is waited for. -/
def clearGrave (s : Catalogue V X) (t : ℕ) (x : Transaction V X) : Catalogue V X :=
  if s.grave.committed.isNone then s.goOn t x .insert
  else if s.grave.free t then { s.goOn t x .insert with grave := s.grave.write t none }
  else s

/-- `INSERT INTO commerce_products ... ON CONFLICT DO UPDATE`, of a newer version only. -/
def insert (s : Catalogue V X) (t : ℕ) (x : Transaction V X) (version : V) (values : X) :
    Catalogue V X :=
  if s.row.free t then
    if (s.row.seenBy t).all fun r => r.1 < version then
      { s.goOn t x (.finished false true) with row := s.row.write t (some (version, values)) }
    else s.goOn t x (.finished false false)
  else s

/-- `DELETE FROM commerce_products` -/
def delete (s : Catalogue V X) (t : ℕ) (x : Transaction V X) : Catalogue V X :=
  if s.row.committed.isNone then s.goOn t x (.bury false)
  else if s.row.free t then { s.goOn t x (.bury true) with row := s.row.write t none }
  else s

/-- `INSERT INTO commerce_deleted_entities ... GREATEST` -/
def bury (s : Catalogue V X) (t : ℕ) (x : Transaction V X) (version : V) (deleted : Bool) :
    Catalogue V X :=
  if s.grave.free t then
    { s.goOn t x (.finished false deleted) with
      grave := s.grave.write t (some (((s.grave.seenBy t).map (max version)).getD version)) }
  else s

def statement (s : Catalogue V X) (t : ℕ) (x : Transaction V X) : Catalogue V X :=
  match x.stage, x.delivery with
  | .check, _ => s.check t x
  | .clearGrave, _ => s.clearGrave t x
  | .insert, .upsert version values => s.insert t x version values
  | .insert, .tombstone _ => s
  | .delete, _ => s.delete t x
  | .bury deleted, d => s.bury t x d.version deleted
  | .finished .., _ => s

def step (s : Catalogue V X) : Event V X → Catalogue V X
  | .deliver t d =>
    if (s.transactions.get t).isSome then s
    else { s with transactions := s.transactions.put t { delivery := d } }
  | .statement t =>
    match s.transactions.get t with
    | none => s
    | some x => s.statement t x
  | .commit t =>
    match s.transactions.get t with
    | none => s
    | some x =>
      match x.stage with
      | .finished _ _ =>
        { row := s.row.commit t, grave := s.grave.commit t, transactions := s.transactions.erase t
          delivered := s.delivered ++ [x.delivery] }
      | _ => s
  | .rollback t =>
    { s with
      row := s.row.rollback t, grave := s.grave.rollback t
      transactions := s.transactions.erase t }

/-- The row is what the newest of the deliveries says. -/
structure Converged (s : Catalogue V X) : Prop where
  newest : ∀ d ∈ s.delivered, (∀ d' ∈ s.delivered, d'.version ≤ d.version) →
    s.row.committed = d.row
  empty : s.delivered = [] → s.row.committed = none

def commitFits (s : Catalogue V X) (t : ℕ) (x : Transaction V X) : Prop :=
  match x.stage, x.delivery with
  | .finished false _, .upsert version _ =>
    s.row.heldBy t → s.grave.heldBy t = false → ∀ g ∈ s.grave.committed, g < version
  | .finished false _, .tombstone version =>
    s.row.heldBy t = false → ∀ r ∈ s.row.committed, version < r.1
  | _, _ => True

instance (s : Catalogue V X) (t : ℕ) (x : Transaction V X) : Decidable (s.commitFits t x) := by
  unfold commitFits
  split <;> infer_instance

/-- What the check of a delivery found still holds when the delivery deletes and when it commits. -/
def Careful (s : Catalogue V X) : Event V X → Prop
  | .statement t => ∀ x ∈ s.transactions.get t,
      (x.stage = .clearGrave → s.grave.free t → ∀ g ∈ s.grave.committed, g < x.delivery.version) ∧
      (x.stage = .delete → s.row.free t → ∀ r ∈ s.row.committed, r.1 < x.delivery.version)
  | .commit t => ∀ x ∈ s.transactions.get t, s.commitFits t x
  | .deliver .. | .rollback _ => True

instance (s : Catalogue V X) : (e : Event V X) → Decidable (s.Careful e)
  | .statement _ | .commit _ => by unfold Careful; infer_instance
  | .deliver .. | .rollback _ => .isTrue trivial

/-- The committed row and gravestone and what was delivered. -/
structure Settled (s : Catalogue V X) : Prop where
  rowSome : ∀ r, s.row.committed = some r → .upsert r.1 r.2 ∈ s.delivered ∧
    ∀ d ∈ s.delivered, d.version ≤ r.1
  rowNone : s.row.committed = none → ∀ d ∈ s.delivered,
    ∃ g, s.grave.committed = some g ∧ d.version ≤ g
  grave : ∀ g, s.grave.committed = some g → .tombstone g ∈ s.delivered

def Surpassed (s : Catalogue V X) (version : V) : Prop := ∃ d ∈ s.delivered, version ≤ d.version

def GraveCleared (s : Catalogue V X) (t : ℕ) (version : V) : Prop :=
  s.grave.writer = some (t, none) ∧ ∃ g, s.grave.committed = some g ∧ g < version

def RowDeleted (s : Catalogue V X) (t : ℕ) (version : V) : Prop :=
  s.row.writer = some (t, none) ∧ ∃ r, s.row.committed = some r ∧ r.1 < version

def RowWritten (s : Catalogue V X) (t : ℕ) (version : V) (values : X) : Prop :=
  s.row.writer = some (t, some (version, values)) ∧ ∀ r ∈ s.row.committed, r.1 < version

def GraveDug (s : Catalogue V X) (t : ℕ) (version : V) : Prop :=
  s.grave.writer = some (t, some ((s.grave.committed.map (max version)).getD version))

/-- What a transaction has written when it comes to a stage. -/
def Fits (s : Catalogue V X) (t : ℕ) : Stage → Delivery V X → Prop
  | .check, _ | .clearGrave, .upsert .. | .delete, .tombstone _ =>
    s.row.heldBy t = false ∧ s.grave.heldBy t = false
  | .insert, .upsert version _ =>
    s.row.heldBy t = false ∧ (s.grave.heldBy t = false ∨ s.GraveCleared t version)
  | .bury _, .tombstone version =>
    (s.row.heldBy t = false ∨ s.RowDeleted t version) ∧ s.grave.heldBy t = false
  | .finished true _, d =>
    s.row.heldBy t = false ∧ s.grave.heldBy t = false ∧ s.Surpassed d.version
  | .finished false _, .upsert version values =>
    (s.grave.heldBy t = false ∨ s.GraveCleared t version) ∧
      ((s.row.heldBy t = false ∧ s.Surpassed version) ∨ s.RowWritten t version values)
  | .finished false _, .tombstone version =>
    (s.row.heldBy t = false ∨ s.RowDeleted t version) ∧ s.GraveDug t version
  | _, _ => False

structure Sound (s : Catalogue V X) : Prop where
  settled : s.Settled
  fits : ∀ t x, s.transactions.get t = some x → s.Fits t x.stage x.delivery
  rowWriter : ∀ t r, s.row.writer = some (t, r) → (s.transactions.get t).isSome
  graveWriter : ∀ t g, s.grave.writer = some (t, g) → (s.transactions.get t).isSome

theorem sound_start : Sound ({} : Catalogue V X) := by
  refine ⟨⟨nofun, fun _ d hd => ?_, nofun⟩, fun t x hx => ?_, nofun, nofun⟩
  · cases hd
  · rw [Table.get_empty] at hx
    cases hx

section Stability
variable {s s' : Catalogue V X} {t : ℕ}

theorem GraveCleared.same {version : V} (h : s.GraveCleared t version)
    (hg : Slot.SameFor t s.grave s'.grave) : s'.GraveCleared t version := by
  unfold GraveCleared
  rw [hg.held h.1]
  exact h

theorem RowDeleted.same {version : V} (h : s.RowDeleted t version)
    (hr : Slot.SameFor t s.row s'.row) : s'.RowDeleted t version := by
  unfold RowDeleted
  rw [hr.held h.1]
  exact h

theorem RowWritten.same {version : V} {values : X} (h : s.RowWritten t version values)
    (hr : Slot.SameFor t s.row s'.row) : s'.RowWritten t version values := by
  unfold RowWritten
  rw [hr.held h.1]
  exact h

theorem GraveDug.same {version : V} (h : s.GraveDug t version)
    (hg : Slot.SameFor t s.grave s'.grave) : s'.GraveDug t version := by
  unfold GraveDug at h ⊢
  rw [hg.held h]
  exact h

theorem Fits.same {stage : Stage} {d : Delivery V X} (h : s.Fits t stage d)
    (hr : Slot.SameFor t s.row s'.row) (hg : Slot.SameFor t s.grave s'.grave)
    (hd : ∀ d ∈ s.delivered, d ∈ s'.delivered) : s'.Fits t stage d := by
  have hsurpassed {version : V} (h : s.Surpassed version) : s'.Surpassed version := by
    obtain ⟨d, hmem, hle⟩ := h
    exact ⟨d, hd d hmem, hle⟩
  cases stage with
  | check => exact ⟨hr.free h.1, hg.free h.2⟩
  | clearGrave =>
    cases d with
    | upsert => exact ⟨hr.free h.1, hg.free h.2⟩
    | tombstone => exact h
  | insert =>
    cases d with
    | upsert => exact ⟨hr.free h.1, h.2.imp hg.free fun hc => hc.same hg⟩
    | tombstone => exact h
  | delete =>
    cases d with
    | upsert => exact h
    | tombstone => exact ⟨hr.free h.1, hg.free h.2⟩
  | bury deleted =>
    cases d with
    | upsert => exact h
    | tombstone => exact ⟨h.1.imp hr.free fun hc => hc.same hr, hg.free h.2⟩
  | finished refused result =>
    cases refused with
    | true => exact ⟨hr.free h.1, hg.free h.2.1, hsurpassed h.2.2⟩
    | false =>
      cases d with
      | upsert =>
        exact ⟨h.1.imp hg.free fun hc => hc.same hg,
          h.2.imp (fun hs => ⟨hr.free hs.1, hsurpassed hs.2⟩) fun hw => hw.same hr⟩
      | tombstone => exact ⟨h.1.imp hr.free fun hc => hc.same hr, h.2.same hg⟩

end Stability

section Steps
variable {s : Catalogue V X} {t : ℕ} {x x' : Transaction V X} {α : Type} {stage : Stage}

theorem Sound.row_free (h : s.Sound) (ht : s.transactions.get t = none) :
    s.row.heldBy t = false := by
  cases hheld : s.row.heldBy t with
  | false => rfl
  | true =>
    obtain ⟨v, hw⟩ := Slot.exists_of_heldBy hheld
    have hsome := h.rowWriter t v hw
    rw [ht] at hsome
    cases hsome

theorem Sound.grave_free (h : s.Sound) (ht : s.transactions.get t = none) :
    s.grave.heldBy t = false := by
  cases hheld : s.grave.heldBy t with
  | false => rfl
  | true =>
    obtain ⟨v, hw⟩ := Slot.exists_of_heldBy hheld
    have hsome := h.graveWriter t v hw
    rw [ht] at hsome
    cases hsome

def Wrote {α : Type} (t : ℕ) (a a' : Slot α) : Prop :=
  a' = a ∨ a.free t ∧ ∃ v, a' = a.write t v

theorem Wrote.committed {a a' : Slot α} (h : Wrote t a a') : a'.committed = a.committed := by
  obtain rfl | ⟨-, v, rfl⟩ := h
  · rfl
  · rfl

theorem Wrote.sameFor {a a' : Slot α} {u : ℕ} (h : Wrote t a a') (hne : u ≠ t) :
    Slot.SameFor u a a' := by
  obtain rfl | ⟨hfree, v, rfl⟩ := h
  · exact .inr rfl
  · exact Slot.sameFor_write hne hfree

theorem Wrote.writer {a a' : Slot α} {u : ℕ} {v : Option α} (h : Wrote t a a')
    (hw : a'.writer = some (u, v)) : u = t ∨ a.writer = some (u, v) := by
  obtain rfl | ⟨-, v', rfl⟩ := h
  · exact .inr hw
  · cases hw
    exact .inl rfl

theorem Sound.wrote (h : s.Sound) {row : Slot (V × X)} {grave : Slot V}
    (hr : Wrote t s.row row) (hg : Wrote t s.grave grave)
    (hfits : Fits { s with row, grave, transactions := s.transactions.put t x' } t x'.stage
      x'.delivery) :
    Sound { s with row, grave, transactions := s.transactions.put t x' } where
  settled := by
    obtain ⟨hsome, hnone, hgrave⟩ := h.settled
    refine ⟨?_, ?_, ?_⟩
    · rwa [hr.committed]
    · rwa [hr.committed, hg.committed]
    · rwa [hg.committed]
  fits u y hy := by
    rw [Table.get_put] at hy
    split at hy
    · rename_i hu
      cases hy
      exact hu ▸ hfits
    · rename_i hu
      exact (h.fits u y hy).same (hr.sameFor hu) (hg.sameFor hu) fun d hd => hd
  rowWriter u v hw := by
    rw [Table.get_put]
    split
    · rfl
    · rename_i hu
      exact h.rowWriter u v ((hr.writer hw).resolve_left hu)
  graveWriter u v hw := by
    rw [Table.get_put]
    split
    · rfl
    · rename_i hu
      exact h.graveWriter u v ((hg.writer hw).resolve_left hu)

theorem sound_deliver (h : s.Sound) (t : ℕ) (d : Delivery V X) : (s.step (.deliver t d)).Sound := by
  simp only [step]
  split
  · exact h
  · rename_i ht
    rw [Option.not_isSome_iff_eq_none] at ht
    have hfits : Fits { s with transactions := s.transactions.put t { delivery := d } } t .check d :=
      ⟨h.row_free ht, h.grave_free ht⟩
    exact h.wrote (.inl rfl) (.inl rfl) hfits

theorem sound_check (h : s.Sound) (hr : s.row.heldBy t = false) (hg : s.grave.heldBy t = false) :
    (s.check t x).Sound := by
  obtain ⟨d, stage⟩ := x
  have hgrave := Slot.seenBy_of_not_heldBy hg
  have hrow := Slot.seenBy_of_not_heldBy hr
  cases d with
  | upsert version values =>
    simp only [check, hgrave]
    cases hc : s.grave.committed with
    | none => exact h.wrote (.inl rfl) (.inl rfl) ⟨hr, .inl hg⟩
    | some g =>
      by_cases hle : version ≤ g
      · simp only [if_pos hle]
        refine h.wrote (.inl rfl) (.inl rfl) ⟨hr, hg, ?_⟩
        exact ⟨.tombstone g, h.settled.grave g hc, hle⟩
      · simp only [if_neg hle]
        exact h.wrote (.inl rfl) (.inl rfl) ⟨hr, hg⟩
  | tombstone version =>
    simp only [check, hrow]
    cases hc : s.row.committed with
    | none => exact h.wrote (.inl rfl) (.inl rfl) ⟨hr, hg⟩
    | some r =>
      by_cases hle : version ≤ r.1
      · simp only [if_pos hle]
        refine h.wrote (.inl rfl) (.inl rfl) ⟨hr, hg, ?_⟩
        exact ⟨.upsert r.1 r.2, (h.settled.rowSome r hc).1, hle⟩
      · simp only [if_neg hle]
        exact h.wrote (.inl rfl) (.inl rfl) ⟨hr, hg⟩

theorem sound_clearGrave {version : V} {values : X} (h : s.Sound) (hr : s.row.heldBy t = false)
    (hg : s.grave.heldBy t = false) (hc : s.grave.free t → ∀ g ∈ s.grave.committed, g < version) :
    (s.clearGrave t ⟨.upsert version values, stage⟩).Sound := by
  simp only [clearGrave]
  split
  · exact h.wrote (.inl rfl) (.inl rfl) ⟨hr, .inl hg⟩
  · rename_i hsome
    obtain ⟨g, hcommitted⟩ := Option.ne_none_iff_exists'.mp (mt Option.isNone_iff_eq_none.mpr hsome)
    split
    · rename_i hfree
      refine h.wrote (.inl rfl) (.inr ⟨hfree, none, rfl⟩) ⟨hr, .inr ⟨rfl, g, hcommitted, ?_⟩⟩
      exact hc hfree g hcommitted
    · exact h

theorem sound_insert {version : V} {values : X} (h : s.Sound) (hr : s.row.heldBy t = false)
    (hg : s.grave.heldBy t = false ∨ s.GraveCleared t version) :
    (s.insert t ⟨.upsert version values, stage⟩ version values).Sound := by
  have hrow := Slot.seenBy_of_not_heldBy hr
  simp only [insert, hrow]
  split
  · rename_i hfree
    split
    · rename_i hall
      refine h.wrote (.inr ⟨hfree, _, rfl⟩) (.inl rfl) ⟨hg, .inr ⟨rfl, fun r hmem => ?_⟩⟩
      have hlt := (Option.all_eq_true _ _).mp hall r hmem
      exact of_decide_eq_true hlt
    · rename_i hall
      refine h.wrote (.inl rfl) (.inl rfl) ⟨hg, .inl ⟨hr, ?_⟩⟩
      cases hc : s.row.committed with
      | none => exact absurd (by rw [hc]; rfl) hall
      | some r =>
        have hle : version ≤ r.1 := by simpa [hc] using hall
        exact ⟨.upsert r.1 r.2, (h.settled.rowSome r hc).1, hle⟩
  · exact h

theorem sound_delete {version : V} (h : s.Sound) (hr : s.row.heldBy t = false)
    (hg : s.grave.heldBy t = false) (hc : s.row.free t → ∀ r ∈ s.row.committed, r.1 < version) :
    (s.delete t ⟨.tombstone version, stage⟩).Sound := by
  simp only [delete]
  split
  · exact h.wrote (.inl rfl) (.inl rfl) ⟨.inl hr, hg⟩
  · rename_i hsome
    obtain ⟨r, hcommitted⟩ := Option.ne_none_iff_exists'.mp (mt Option.isNone_iff_eq_none.mpr hsome)
    split
    · rename_i hfree
      refine h.wrote (.inr ⟨hfree, none, rfl⟩) (.inl rfl) ⟨.inr ⟨rfl, r, hcommitted, ?_⟩, hg⟩
      exact hc hfree r hcommitted
    · exact h

theorem sound_bury {version : V} {deleted : Bool} (h : s.Sound)
    (hr : s.row.heldBy t = false ∨ s.RowDeleted t version) (hg : s.grave.heldBy t = false) :
    (s.bury t ⟨.tombstone version, stage⟩ version deleted).Sound := by
  have hgrave := Slot.seenBy_of_not_heldBy hg
  simp only [bury, hgrave]
  split
  · rename_i hfree
    exact h.wrote (.inl rfl) (.inr ⟨hfree, _, rfl⟩) ⟨hr, rfl⟩
  · exact h

theorem sound_statement (h : s.Sound) (t : ℕ) (hc : s.Careful (.statement t)) :
    (s.step (.statement t)).Sound := by
  simp only [step]
  cases ht : s.transactions.get t with
  | none => exact h
  | some x =>
    have hcx := hc x ht
    have hfits := h.fits t x ht
    obtain ⟨d, stage⟩ := x
    cases stage with
    | check => exact sound_check h hfits.1 hfits.2
    | clearGrave =>
      cases d with
      | upsert version values => exact sound_clearGrave h hfits.1 hfits.2 (hcx.1 rfl)
      | tombstone version => exact hfits.elim
    | insert =>
      cases d with
      | upsert version values => exact sound_insert h hfits.1 hfits.2
      | tombstone version => exact h
    | delete =>
      cases d with
      | upsert version values => exact hfits.elim
      | tombstone version => exact sound_delete h hfits.1 hfits.2 (hcx.2 rfl)
    | bury deleted =>
      cases d with
      | upsert version values => exact hfits.elim
      | tombstone version => exact sound_bury h hfits.1 hfits.2
    | finished refused result => exact h

end Steps

section Ends
variable {s : Catalogue V X} {t : ℕ} {x : Transaction V X} {d : Delivery V X}

theorem sound_rollback (h : s.Sound) (t : ℕ) : (s.step (.rollback t)).Sound where
  settled := by
    obtain ⟨hsome, hnone, hgrave⟩ := h.settled
    refine ⟨?_, ?_, ?_⟩
    · rwa [step, Slot.committed_rollback]
    · rwa [step, Slot.committed_rollback, Slot.committed_rollback]
    · rwa [step, Slot.committed_rollback]
  fits u y hy := by
    simp only [step, Table.get_erase] at hy
    split at hy
    · cases hy
    · rename_i hu
      exact (h.fits u y hy).same (Slot.sameFor_rollback hu) (Slot.sameFor_rollback hu)
        fun d hd => hd
  rowWriter u v hw := by
    obtain ⟨hbefore, hu⟩ := Slot.writer_of_rollback hw
    simp only [step, Table.get_erase, if_neg hu]
    exact h.rowWriter u v hbefore
  graveWriter u v hw := by
    obtain ⟨hbefore, hu⟩ := Slot.writer_of_rollback hw
    simp only [step, Table.get_erase, if_neg hu]
    exact h.graveWriter u v hbefore

def committed (s : Catalogue V X) (t : ℕ) (d : Delivery V X) : Catalogue V X :=
  { row := s.row.commit t, grave := s.grave.commit t, transactions := s.transactions.erase t
    delivered := s.delivered ++ [d] }

theorem Sound.committed (h : s.Sound) (hs : (s.committed t d).Settled) :
    (s.committed t d).Sound where
  settled := hs
  fits u y hy := by
    simp only [Catalogue.committed, Table.get_erase] at hy
    split at hy
    · cases hy
    · rename_i hu
      exact (h.fits u y hy).same (Slot.sameFor_commit hu) (Slot.sameFor_commit hu)
        fun d hd => List.mem_append_left _ hd
  rowWriter u v hw := by
    obtain ⟨hbefore, hu, -⟩ := Slot.writer_of_commit hw
    simp only [Catalogue.committed, Table.get_erase, if_neg hu]
    exact h.rowWriter u v hbefore
  graveWriter u v hw := by
    obtain ⟨hbefore, hu, -⟩ := Slot.writer_of_commit hw
    simp only [Catalogue.committed, Table.get_erase, if_neg hu]
    exact h.graveWriter u v hbefore

omit [LinearOrder V] in
theorem forall_mem_snoc {p : Delivery V X → Prop} {ds : List (Delivery V X)} (h : ∀ d ∈ ds, p d)
    (hd : p d) : ∀ d' ∈ ds ++ [d], p d' :=
  List.forall_mem_append.mpr ⟨h, List.forall_mem_singleton.mpr hd⟩

theorem Surpassed.le_row {version : V} {r : V × X} (h : s.Settled) (hs : s.Surpassed version)
    (hr : s.row.committed = some r) : version ≤ r.1 := by
  obtain ⟨d, hd, hle⟩ := hs
  exact hle.trans ((h.rowSome r hr).2 d hd)

theorem Surpassed.le_grave {version : V} (h : s.Settled) (hs : s.Surpassed version)
    (hr : s.row.committed = none) : ∃ g, s.grave.committed = some g ∧ version ≤ g := by
  obtain ⟨d, hd, hle⟩ := hs
  obtain ⟨g, hg, hdg⟩ := h.rowNone hr d hd
  exact ⟨g, hg, hle.trans hdg⟩

theorem Settled.surpassed (h : s.Settled) {s' : Catalogue V X} (hs : s.Surpassed d.version)
    (hr : s'.row.committed = s.row.committed)
    (hkept : s.row.committed = none → s'.grave.committed = s.grave.committed)
    (hg : ∀ g, s'.grave.committed = some g → s.grave.committed = some g)
    (hd : s'.delivered = s.delivered ++ [d]) : s'.Settled where
  rowSome r hrow := by
    rw [hr] at hrow
    rw [hd]
    obtain ⟨hmem, hall⟩ := h.rowSome r hrow
    exact ⟨List.mem_append_left _ hmem, forall_mem_snoc hall (hs.le_row h hrow)⟩
  rowNone hrow := by
    rw [hr] at hrow
    rw [hd, hkept hrow]
    exact forall_mem_snoc (h.rowNone hrow) (hs.le_grave h hrow)
  grave g hgrave := by
    rw [hd]
    exact List.mem_append_left _ (h.grave g (hg g hgrave))

theorem Settled.written (h : s.Settled) {version : V} {values : X} {s' : Catalogue V X}
    (hold : ∀ r ∈ s.row.committed, r.1 < version)
    (hgrave : s.row.committed = none → ∀ g ∈ s.grave.committed, g < version)
    (hr : s'.row.committed = some (version, values))
    (hg : ∀ g, s'.grave.committed = some g → s.grave.committed = some g)
    (hd : s'.delivered = s.delivered ++ [.upsert version values]) : s'.Settled where
  rowSome r hrow := by
    rw [hr] at hrow
    cases hrow
    rw [hd]
    refine ⟨by simp, forall_mem_snoc (fun d hmem => ?_) le_rfl⟩
    cases hc : s.row.committed with
    | some r => exact ((h.rowSome r hc).2 d hmem).trans (hold r hc).le
    | none =>
      obtain ⟨g, hcommitted, hle⟩ := h.rowNone hc d hmem
      exact hle.trans (hgrave hc g hcommitted).le
  rowNone hrow := by
    rw [hr] at hrow
    cases hrow
  grave g hcommitted := by
    rw [hd]
    exact List.mem_append_left _ (h.grave g (hg g hcommitted))

/-- A gravestone is dug that is newer than all that was delivered, or beside a newer row. -/
theorem Settled.dug (h : s.Settled) {version : V} {s' : Catalogue V X}
    (hsome : ∀ r, s'.row.committed = some r → s.row.committed = some r ∧ version < r.1)
    (hnone : s'.row.committed = none → ∀ r ∈ s.row.committed, r.1 < version)
    (hg : s'.grave.committed = some ((s.grave.committed.map (max version)).getD version))
    (hd : s'.delivered = s.delivered ++ [.tombstone version]) : s'.Settled where
  rowSome r hrow := by
    obtain ⟨hbefore, hlt⟩ := hsome r hrow
    obtain ⟨hmem, hall⟩ := h.rowSome r hbefore
    rw [hd]
    exact ⟨List.mem_append_left _ hmem, forall_mem_snoc hall hlt.le⟩
  rowNone hrow := by
    rw [hd]
    have hversion : version ≤ (s.grave.committed.map (max version)).getD version := by
      cases s.grave.committed with
      | none => exact le_rfl
      | some g => exact le_max_left version g
    refine forall_mem_snoc (fun d hmem => ⟨_, hg, ?_⟩) ⟨_, hg, hversion⟩
    cases hc : s.row.committed with
    | some r =>
      exact (((h.rowSome r hc).2 d hmem).trans (hnone hrow r hc).le).trans hversion
    | none =>
      obtain ⟨g, hcommitted, hle⟩ := h.rowNone hc d hmem
      rw [hcommitted]
      exact hle.trans (le_max_right version g)
  grave g hcommitted := by
    rw [hg] at hcommitted
    rw [hd]
    cases hc : s.grave.committed with
    | none =>
      rw [hc] at hcommitted
      cases hcommitted
      simp
    | some g' =>
      have hmem := h.grave g' hc
      rw [hc] at hcommitted
      have hmax : max version g' = g := Option.some.inj hcommitted
      obtain h' | h' := max_choice version g'
      · rw [← hmax, h']
        simp
      · rw [← hmax, h']
        exact List.mem_append_left _ hmem

theorem settled_upsert {version : V} {values : X} {result : Bool} (h : s.Sound)
    (hfits : s.Fits t (.finished false result) (.upsert version values))
    (hc : s.row.heldBy t → s.grave.heldBy t = false → ∀ g ∈ s.grave.committed, g < version) :
    (s.committed t (.upsert version values)).Settled := by
  obtain ⟨hgrave, hwrote⟩ := hfits
  have hleft : ∀ g, (s.grave.commit t).committed = some g → s.grave.committed = some g := by
    intro g hg
    obtain hfree | ⟨hcleared, -⟩ := hgrave
    · rwa [Slot.commit_of_not_heldBy hfree] at hg
    · rw [Slot.commit_of_writer hcleared] at hg
      cases hg
  obtain ⟨hr, hsurpassed⟩ | ⟨hw, hold⟩ := hwrote
  · have hrow : (s.row.commit t).committed = s.row.committed := by
      rw [Slot.commit_of_not_heldBy hr]
    have hkept : s.row.committed = none →
        (s.grave.commit t).committed = s.grave.committed := by
      intro hnone
      obtain hfree | ⟨-, g, hcommitted, hlt⟩ := hgrave
      · rw [Slot.commit_of_not_heldBy hfree]
      · -- the gravestone that it cleared was older than itself
        obtain ⟨g', hg', hle⟩ := hsurpassed.le_grave h.settled hnone
        rw [hcommitted] at hg'
        cases hg'
        exact absurd hle hlt.not_ge
    have hs : s.Surpassed (Delivery.upsert version values).version := hsurpassed
    exact h.settled.surpassed hs hrow hkept hleft rfl
  · have hrow : (s.row.commit t).committed = some (version, values) := by
      rw [Slot.commit_of_writer hw]
    have hnewer : s.row.committed = none → ∀ g ∈ s.grave.committed, g < version := by
      intro _
      obtain hfree | ⟨-, g, hcommitted, hlt⟩ := hgrave
      · exact hc (Slot.heldBy_of_writer hw) hfree
      · intro g' hg'
        rw [hcommitted] at hg'
        cases hg'
        exact hlt
    exact h.settled.written hold hnewer hrow hleft rfl

theorem settled_tombstone {version : V} {result : Bool} (h : s.Sound)
    (hfits : s.Fits t (.finished false result) (.tombstone version))
    (hc : s.row.heldBy t = false → ∀ r ∈ s.row.committed, version < r.1) :
    (s.committed t (.tombstone version)).Settled := by
  obtain ⟨hrow, hdug⟩ := hfits
  have hgrave : (s.grave.commit t).committed =
      some ((s.grave.committed.map (max version)).getD version) := by
    rw [Slot.commit_of_writer hdug]
  obtain hr | ⟨hw, r, hcommitted, hlt⟩ := hrow
  · have hsame : (s.row.commit t).committed = s.row.committed := by
      rw [Slot.commit_of_not_heldBy hr]
    refine h.settled.dug (fun r hr' => ?_) (fun hnone r hmem => ?_) hgrave rfl
    · rw [Catalogue.committed, hsame] at hr'
      exact ⟨hr', hc hr r hr'⟩
    · rw [Catalogue.committed, hsame] at hnone
      rw [hnone] at hmem
      cases hmem
  · refine h.settled.dug (fun r hr' => ?_) (fun _ r' hmem => ?_) hgrave rfl
    · rw [Catalogue.committed, Slot.commit_of_writer hw] at hr'
      cases hr'
    · rw [hcommitted] at hmem
      cases hmem
      exact hlt

theorem sound_commit (h : s.Sound) (t : ℕ) (hc : s.Careful (.commit t)) :
    (s.step (.commit t)).Sound := by
  simp only [step]
  cases ht : s.transactions.get t with
  | none => exact h
  | some x =>
    have hcx := hc x ht
    have hfits := h.fits t x ht
    obtain ⟨d, stage⟩ := x
    cases stage with
    | finished refused result =>
      refine h.committed (d := d) ?_
      cases refused with
      | true =>
        obtain ⟨hr, hg, hs⟩ := hfits
        have hgrave : s.grave.commit t = s.grave := Slot.commit_of_not_heldBy hg
        refine h.settled.surpassed hs ?_ (fun _ => ?_) (fun g hcommitted => ?_) rfl
        · rw [committed, Slot.commit_of_not_heldBy hr]
        · rw [committed, hgrave]
        · rwa [committed, hgrave] at hcommitted
      | false =>
        cases d with
        | upsert version values => exact settled_upsert h hfits hcx
        | tombstone version => exact settled_tombstone h hfits hcx
    | check | clearGrave | insert | delete | bury deleted => exact h

end Ends

def deliveries (es : List (Event V X)) : List (Delivery V X) :=
  es.filterMap fun
    | .deliver _ d => some d
    | _ => none

def DistinctVersions (ds : List (Delivery V X)) : Prop :=
  ∀ d ∈ ds, ∀ d' ∈ ds, d.version = d'.version → d = d'

/-- Whatever is under way or delivered is one of `ds`. -/
def Among (ds : List (Delivery V X)) (s : Catalogue V X) : Prop :=
  (∀ t x, s.transactions.get t = some x → x.delivery ∈ ds) ∧ ∀ d ∈ s.delivered, d ∈ ds

section Runs
variable {s : Catalogue V X} {ds : List (Delivery V X)} {t : ℕ}

omit [LinearOrder V] in
theorem Among.goOn (h : s.Among ds) {x : Transaction V X} (hx : x.delivery ∈ ds) (stage : Stage)
    (row : Slot (V × X)) (grave : Slot V) : Among ds { s.goOn t x stage with row, grave } := by
  refine ⟨fun u y hy => ?_, h.2⟩
  simp only [Catalogue.goOn, Table.get_put] at hy
  split at hy
  · cases hy
    exact hx
  · exact h.1 u y hy

theorem among_statement (h : s.Among ds) {x : Transaction V X} (hx : x.delivery ∈ ds) :
    (s.statement t x).Among ds := by
  unfold statement
  split
  · unfold check
    split <;> split <;> exact h.goOn hx _ _ _
  · unfold clearGrave
    split
    · exact h.goOn hx _ _ _
    · split
      · exact h.goOn hx _ _ _
      · exact h
  · unfold insert
    split
    · split <;> exact h.goOn hx _ _ _
    · exact h
  · exact h
  · unfold delete
    split
    · exact h.goOn hx _ _ _
    · split
      · exact h.goOn hx _ _ _
      · exact h
  · unfold bury
    split
    · exact h.goOn hx _ _ _
    · exact h
  · exact h

omit [LinearOrder V] in
theorem among_erase (h : s.Among ds) (row : Slot (V × X)) (grave : Slot V)
    {delivered : List (Delivery V X)} (hd : ∀ d ∈ delivered, d ∈ ds) :
    Among ds { row, grave, transactions := s.transactions.erase t, delivered } := by
  refine ⟨fun u y hy => ?_, hd⟩
  simp only [Table.get_erase] at hy
  split at hy
  · cases hy
  · exact h.1 u y hy

theorem among_step (h : s.Among ds) (e : Event V X) (he : ∀ t d, e = .deliver t d → d ∈ ds) :
    (s.step e).Among ds := by
  cases e with
  | deliver t d =>
    simp only [step]
    split
    · exact h
    · refine ⟨fun u y hy => ?_, h.2⟩
      rw [Table.get_put] at hy
      split at hy
      · cases hy
        exact he t d rfl
      · exact h.1 u y hy
  | statement t =>
    simp only [step]
    cases ht : s.transactions.get t with
    | none => exact h
    | some x => exact among_statement h (h.1 t x ht)
  | commit t =>
    simp only [step]
    cases ht : s.transactions.get t with
    | none => exact h
    | some x =>
      have hx := h.1 t x ht
      obtain ⟨d, stage⟩ := x
      cases stage with
      | finished refused result => exact among_erase h _ _ (forall_mem_snoc h.2 hx)
      | check | clearGrave | insert | delete | bury deleted => exact h
  | rollback t => exact among_erase h _ _ h.2

theorem among_run (es : List (Event V X)) (h : s.Among ds) (hes : ∀ d ∈ deliveries es, d ∈ ds) :
    (run step s es).Among ds := by
  induction es generalizing s with
  | nil => exact h
  | cons e es ih =>
    have hhere : ∀ t d, e = .deliver t d → d ∈ ds := by
      rintro t d rfl
      exact hes d (by simp [deliveries])
    have hrest : ∀ d ∈ deliveries es, d ∈ ds := fun d hd => hes d <| by
      rw [deliveries, List.filterMap_cons]
      split
      · exact hd
      · exact List.mem_cons_of_mem _ hd
    exact ih (among_step h e hhere) hrest

theorem Sound.step (h : s.Sound) (e : Event V X) (hc : s.Careful e) : (s.step e).Sound := by
  cases e with
  | deliver t d => exact sound_deliver h t d
  | statement t => exact sound_statement h t hc
  | commit t => exact sound_commit h t hc
  | rollback t => exact sound_rollback h t

theorem Settled.converged (h : s.Settled) (hdistinct : DistinctVersions ds)
    (hamong : ∀ d ∈ s.delivered, d ∈ ds) : s.Converged where
  newest d hd hnewest := by
    cases hc : s.row.committed with
    | some r =>
      obtain ⟨hmem, hall⟩ := h.rowSome r hc
      have heq : d = .upsert r.1 r.2 :=
        hdistinct d (hamong d hd) _ (hamong _ hmem) ((hall d hd).antisymm (hnewest _ hmem))
      rw [heq]
      rfl
    | none =>
      obtain ⟨g, hg, hle⟩ := h.rowNone hc d hd
      have hmem := h.grave g hg
      have heq : d = .tombstone g :=
        hdistinct d (hamong d hd) _ (hamong _ hmem) (hle.antisymm (hnewest _ hmem))
      rw [heq]
      rfl
  empty hnil := by
    cases hc : s.row.committed with
    | none => rfl
    | some r =>
      have hmem := (h.rowSome r hc).1
      rw [hnil] at hmem
      cases hmem

/-- Where what a delivery's check found still holds when it deletes and when it commits, the row is
what the newest delivery says, in whatever order they come, however often and however they run
beside each other. -/
theorem catalogue_converges (es : List (Event V X)) (hdistinct : DistinctVersions (deliveries es))
    (hc : Meets step Careful {} es) : (run step ({} : Catalogue V X) es).Converged := by
  have hsound := Lib.run_keeps (I := Sound) (fun s e hs hc => hs.step e hc) sound_start hc
  have hstart : Among (deliveries es) ({} : Catalogue V X) := by
    refine ⟨fun t x hx => ?_, nofun⟩
    rw [Table.get_empty] at hx
    cases hx
  have hamong := among_run es hstart fun d hd => hd
  exact hsound.settled.converged hdistinct hamong.2

end Runs

instance {ds : List (Delivery ℕ ℕ)} : Decidable (DistinctVersions ds) := by
  unfold DistinctVersions
  infer_instance

def overtakenRun : List (Event ℕ ℕ) :=
  [.deliver 0 (.upsert 3 7), .statement 0,
    .deliver 1 (.tombstone 4), .statement 1, .statement 1, .statement 1, .commit 1,
    .statement 0, .commit 0]

theorem overtakenRun_converged : DistinctVersions (deliveries overtakenRun) ∧
    ¬(run step ({} : Catalogue ℕ ℕ) overtakenRun).Converged := by
  refine ⟨by decide, fun h => ?_⟩
  have hrow := h.newest (.tombstone 4) (by decide) (by decide)
  exact absurd hrow (by decide)

def repeatedRun : List (Event ℕ ℕ) :=
  [.deliver 1 (.tombstone 4), .statement 1, .deliver 0 (.upsert 3 7), .statement 1, .statement 1,
    .commit 1, .statement 0, .commit 0, .deliver 2 (.tombstone 4), .statement 2, .statement 2,
    .statement 2, .commit 2]

theorem repeatedRun_converged : (run step ({} : Catalogue ℕ ℕ) repeatedRun).Converged :=
  catalogue_converges repeatedRun (by decide) (by decide)

end Catalogue

end Functions

end Kindred.Commerce
