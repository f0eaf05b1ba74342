import Kindred.Lib.Table

/-! A table whose rows carry their own key, and the list of its rows on which a query runs. -/

namespace Kindred.Lib

def upsert {κ α : Type} [DecidableEq κ] (key : α → κ) (v : α) (l : List α) : List α :=
  if l.any fun r => key r = key v then l.map fun r => if key r = key v then v else r
  else l ++ [v]

namespace Table

variable {κ α : Type} {key : α → κ} {t : Table κ α}

def values (t : Table κ α) : List α := t.rows.map Prod.snd

def Keyed (key : α → κ) (t : Table κ α) : Prop := ∀ r ∈ t.rows, r.1 = key r.2

@[simp] theorem values_empty : (empty : Table κ α).values = [] := rfl

theorem keyed_empty : (empty : Table κ α).Keyed key := fun _ hr => (List.not_mem_nil hr).elim

theorem keys_of_keyed (h : t.Keyed key) : t.rows.map Prod.fst = t.values.map key := by
  rw [values, List.map_map]
  exact List.map_congr_left h

/-- No two rows have one key. -/
theorem nodup_values (h : t.Keyed key) : (t.values.map key).Nodup := by
  rw [← keys_of_keyed h]
  exact t.keys_nodup

theorem keyed_keep (h : t.Keyed key) (p : κ → α → Bool) : (t.keep p).Keyed key :=
  fun r hr => h r (List.mem_of_mem_filter hr)

theorem values_keep (p : α → Bool) : (t.keep fun _ v => p v).values = t.values.filter p := by
  unfold keep values
  rw [List.filter_map]
  rfl

variable [DecidableEq κ]

theorem mem_values (h : t.Keyed key) {v : α} : v ∈ t.values ↔ t.get (key v) = some v := by
  rw [get_eq_some_iff_mem, values, List.mem_map]
  constructor
  · rintro ⟨⟨k, w⟩, hr, rfl⟩
    have hk : k = key w := h _ hr
    exact hk ▸ hr
  · intro hr
    exact ⟨_, hr, rfl⟩

theorem keyed_put (h : t.Keyed key) (v : α) : (t.put (key v) v).Keyed key := by
  intro r hr
  rcases mem_rows_put.mp hr with rfl | ⟨-, hr⟩
  · rfl
  · exact h r hr

theorem values_put (h : t.Keyed key) (v : α) :
    (t.put (key v) v).values = upsert key v t.values := by
  have hany : key v ∈ t.rows.map Prod.fst ↔ (t.values.any fun r => key r = key v) = true := by
    rw [keys_of_keyed h, List.mem_map, List.any_eq_true]
    simp only [decide_eq_true_eq]
  unfold put upsert
  by_cases hk : key v ∈ t.rows.map Prod.fst
  · rw [dif_pos hk, if_pos (hany.mp hk), values, values, List.map_map, List.map_map]
    refine List.map_congr_left fun r hr => ?_
    simp only [Function.comp_apply, h r hr]
    split <;> rfl
  · rw [dif_neg hk, if_neg fun ha => hk (hany.mpr ha), values, values, List.map_append]
    rfl

theorem keyed_erase (h : t.Keyed key) (k : κ) : (t.erase k).Keyed key :=
  fun r hr => h r (List.mem_of_mem_filter hr)

theorem values_erase (h : t.Keyed key) (k : κ) :
    (t.erase k).values = t.values.filter fun v => key v ≠ k := by
  unfold erase values
  rw [List.filter_map]
  congr 1
  refine List.filter_congr fun r hr => ?_
  simp [h r hr]

/-- Changing the row of a key changes it where it stands. -/
theorem values_update (h : t.Keyed key) (k : κ) (f : α → α) :
    (t.update k f).values = t.values.map fun v => if key v = k then f v else v := by
  unfold values
  rw [rows_update, List.map_map, List.map_map]
  refine List.map_congr_left fun r hr => ?_
  simp only [Function.comp_apply, ← h r hr]
  split <;> rfl

theorem keyed_update (h : t.Keyed key) (k : κ) {f : α → α} (hf : ∀ v, key (f v) = key v) :
    (t.update k f).Keyed key := by
  intro r hr
  rw [rows_update] at hr
  obtain ⟨r', hr', rfl⟩ := List.mem_map.mp hr
  split
  · rw [hf]
    exact h r' hr'
  · exact h r' hr'

theorem perm_of_get {u : Table κ α} (ht : t.Keyed key) (hu : u.Keyed key)
    (h : ∀ k, t.get k = u.get k) : t.values.Perm u.values := by
  refine (List.perm_ext_iff_of_nodup (nodup_values ht).of_map (nodup_values hu).of_map).mpr ?_
  intro v
  rw [mem_values ht, mem_values hu, h]

end Table

theorem upsert_perm {κ α : Type} [DecidableEq κ] (key : α → κ) (v : α) {l l' : List α}
    (h : l.Perm l') : (upsert key v l).Perm (upsert key v l') := by
  unfold upsert
  rw [h.any_eq]
  split
  · exact h.map _
  · exact h.append_right _

/-- A search whose only match is known. -/
theorem find_of_unique {α : Type} {l : List α} {p : α → Bool} {o : Option α}
    (h : ∀ v, (v ∈ l ∧ p v = true) ↔ o = some v) : l.find? p = o := by
  cases hf : l.find? p with
  | some v => exact ((h v).mp ⟨List.mem_of_find?_eq_some hf, List.find?_some hf⟩).symm
  | none =>
    cases o with
    | none => rfl
    | some v =>
      obtain ⟨hv, hp⟩ := (h v).mpr rfl
      exact (List.find?_eq_none.mp hf v hv hp).elim

structure Mirrors {κ α : Type} (key : α → κ) (l : List α) (t : Table κ α) : Prop where
  keyed : t.Keyed key
  perm : l.Perm t.values

namespace Mirrors

variable {κ α : Type} {key : α → κ} {l : List α} {t : Table κ α}

theorem empty : Mirrors key [] (Table.empty : Table κ α) :=
  ⟨Table.keyed_empty, .nil⟩

theorem nodup (h : Mirrors key l t) : (l.map key).Nodup :=
  (h.perm.map key).nodup_iff.mpr (Table.nodup_values h.keyed)

theorem keep (h : Mirrors key l t) (p : α → Bool) :
    Mirrors key (l.filter p) (t.keep fun _ v => p v) :=
  ⟨Table.keyed_keep h.keyed _, Table.values_keep p ▸ h.perm.filter p⟩

variable [DecidableEq κ]

theorem put (h : Mirrors key l t) (v : α) : Mirrors key (upsert key v l) (t.put (key v) v) :=
  ⟨Table.keyed_put h.keyed v, Table.values_put h.keyed v ▸ upsert_perm key v h.perm⟩

theorem erase (h : Mirrors key l t) (k : κ) :
    Mirrors key (l.filter fun v => key v ≠ k) (t.erase k) :=
  ⟨Table.keyed_erase h.keyed k, Table.values_erase h.keyed k ▸ h.perm.filter _⟩

theorem update (h : Mirrors key l t) (k : κ) {f : α → α} (hf : ∀ v, key (f v) = key v) :
    Mirrors key (l.map fun v => if key v = k then f v else v) (t.update k f) :=
  ⟨Table.keyed_update h.keyed k hf, Table.values_update h.keyed k f ▸ h.perm.map _⟩

theorem eraseAll (h : Mirrors key l t) (ks : List κ) :
    Mirrors key (l.filter fun v => key v ∉ ks) (ks.foldl Table.erase t) := by
  induction ks generalizing l t with
  | nil => simpa using h
  | cons k ks ih =>
    have hl : (l.filter fun v => key v ∉ k :: ks) =
        (l.filter fun v => key v ≠ k).filter fun v => key v ∉ ks := by
      rw [List.filter_filter]
      refine List.filter_congr fun v _ => ?_
      simp [Bool.and_comm]
    rw [hl]
    exact ih (h.erase k)

theorem mem_iff (h : Mirrors key l t) {v : α} : v ∈ l ↔ t.get (key v) = some v := by
  rw [h.perm.mem_iff, Table.mem_values h.keyed]

theorem get_iff (h : Mirrors key l t) {k : κ} {v : α} : t.get k = some v ↔ v ∈ l ∧ key v = k := by
  constructor
  · intro hv
    have hk : key v = k := (h.keyed _ (Table.get_eq_some_iff_mem.mp hv)).symm
    exact ⟨h.mem_iff.mpr (hk ▸ hv), hk⟩
  · rintro ⟨hv, rfl⟩
    exact h.mem_iff.mp hv

/-- The rows of a key are the one that is under it. -/
theorem filter_key (h : Mirrors key l t) (k : κ) :
    (l.filter fun v => key v = k) = (t.get k).toList := by
  have hp : (l.filter fun v => key v = k).Perm (t.get k).toList := by
    refine (List.perm_ext_iff_of_nodup (h.nodup.of_map.filter _) ?_).mpr fun v => ?_
    · cases t.get k <;> simp
    · rw [List.mem_filter, decide_eq_true_eq, Option.mem_toList, ← h.get_iff]
  cases hg : t.get k with
  | none =>
    rw [hg] at hp
    exact hp.eq_nil
  | some v =>
    rw [hg] at hp
    exact hp.eq_singleton

theorem find_key (h : Mirrors key l t) (k : κ) : (l.find? fun v => key v = k) = t.get k :=
  find_of_unique fun v => by rw [h.get_iff, decide_eq_true_eq]

end Mirrors

end Kindred.Lib
