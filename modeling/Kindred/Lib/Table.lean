import Mathlib.Data.List.Nodup
import Mathlib.Data.List.Lookmap

namespace Kindred.Lib

/-- A table with a primary key: its rows in the order they were inserted, no
key twice. -/
structure Table (κ α : Type) where
  rows : List (κ × α)
  keys_nodup : (rows.map Prod.fst).Nodup
  deriving DecidableEq

namespace Table
variable {κ α : Type} [DecidableEq κ] {t : Table κ α} {k : κ}

def empty : Table κ α := ⟨[], List.nodup_nil⟩

def get (t : Table κ α) (k : κ) : Option α :=
  (t.rows.find? fun r => r.1 = k).map Prod.snd

theorem map_replace_keys (rows : List (κ × α)) (k : κ) (v : α) :
    (rows.map fun r => if r.1 = k then (k, v) else r).map Prod.fst = rows.map Prod.fst := by
  induction rows with
  | nil => rfl
  | cons r rows ih =>
    by_cases h : r.1 = k <;> simp_all

/-- Insert a row, or replace the one that has its key where it stands. -/
def put (t : Table κ α) (k : κ) (v : α) : Table κ α :=
  if h : k ∈ t.rows.map Prod.fst then
    ⟨t.rows.map fun r => if r.1 = k then (k, v) else r, by
      rw [map_replace_keys]; exact t.keys_nodup⟩
  else
    ⟨t.rows ++ [(k, v)], by
      rw [List.map_append]
      exact List.Nodup.append t.keys_nodup (List.nodup_singleton k) (by simpa using h)⟩

def update (t : Table κ α) (k : κ) (f : α → α) : Table κ α :=
  match t.get k with
  | none => t
  | some v => t.put k (f v)

theorem get_eq_some_iff_mem {v : α} : t.get k = some v ↔ (k, v) ∈ t.rows := by
  obtain ⟨rows, hn⟩ := t
  simp only [get]
  induction rows with
  | nil => simp
  | cons r rows ih =>
    obtain ⟨k', v'⟩ := r
    simp only [List.map_cons, List.nodup_cons] at hn
    by_cases h : k' = k
    · subst h
      have hk : ∀ v, (k', v) ∉ rows := fun v hv => hn.1 (List.mem_map_of_mem (f := Prod.fst) hv)
      simp [hk v, eq_comm]
    · simpa [h, Ne.symm h] using ih hn.2

/-- The rows of one key. -/
theorem filter_key (t : Table κ α) (k : κ) :
    (t.rows.filter fun r => r.1 = k) = (t.get k).toList.map fun v => (k, v) := by
  obtain ⟨rows, hn⟩ := t
  simp only [get]
  induction rows with
  | nil => rfl
  | cons r rows ih =>
    obtain ⟨k', v⟩ := r
    simp only [List.map_cons, List.nodup_cons] at hn
    by_cases h : k' = k
    · subst h
      have hrest : (rows.filter fun r => r.1 = k') = [] := List.filter_eq_nil_iff.mpr fun r hr he =>
        hn.1 (decide_eq_true_eq.mp he ▸ List.mem_map_of_mem (f := Prod.fst) hr)
      simp [hrest]
    · simpa [h] using ih hn.2

theorem get_eq_none_iff : t.get k = none ↔ k ∉ t.rows.map Prod.fst := by
  simp only [get, Option.map_eq_none_iff, List.find?_eq_none, List.mem_map]
  grind

@[simp] theorem get_empty (k : κ) : (empty : Table κ α).get k = none := rfl

theorem get_put (t : Table κ α) (k k' : κ) (v : α) :
    (t.put k v).get k' = if k' = k then some v else t.get k' := by
  unfold put
  split
  · rename_i h
    obtain ⟨rows, hn⟩ := t
    simp only [get] at *
    induction rows with
    | nil => simp at h
    | cons r rows ih =>
      obtain ⟨a, b⟩ := r
      by_cases ha : a = k
      · subst ha
        by_cases hk : k' = a
        · simp [hk]
        · have hk' : ¬ a = k' := fun e => hk e.symm
          simp only [List.map_cons, List.nodup_cons] at hn
          have hrows : (rows.map fun r => if r.1 = a then (a, v) else r) = rows := by
            refine (List.map_congr_left fun r hr => ?_).trans (List.map_id _)
            have : r.1 ≠ a := fun e => hn.1 (e ▸ List.mem_map_of_mem (f := Prod.fst) hr)
            simp [this]
          simp [hk, hk', hrows]
      · have hmem : k ∈ rows.map Prod.fst := by
          simpa [Ne.symm ha] using h
        by_cases hk : a = k'
        · simp [hk, show ¬ k' = k from fun e => ha (hk.trans e)]
        · have := ih (List.nodup_cons.mp hn).2 hmem
          simpa [ha, hk] using this
  · rename_i h
    by_cases hk : k' = k
    · subst hk
      have hn : t.get k' = none := get_eq_none_iff.mpr h
      simp only [get, Option.map_eq_none_iff] at hn
      simp [get, List.find?_append, hn]
    · have : ¬ k = k' := fun e => hk e.symm
      simp [get, List.find?_append, hk, this]

@[simp] theorem get_put_self (t : Table κ α) (k : κ) (v : α) : (t.put k v).get k = some v := by
  simp [get_put]

theorem get_put_ne (t : Table κ α) {k' : κ} (v : α) (h : k' ≠ k) :
    (t.put k v).get k' = t.get k' := by
  simp [get_put, h]

theorem get_update (t : Table κ α) (k k' : κ) (f : α → α) :
    (t.update k f).get k' = if k' = k then (t.get k).map f else t.get k' := by
  unfold update
  cases h : t.get k with
  | none =>
    by_cases hk : k' = k
    · simp [hk, h]
    · simp [hk]
  | some v => simp [get_put]

@[simp] theorem get_update_self (t : Table κ α) (k : κ) (f : α → α) :
    (t.update k f).get k = (t.get k).map f := by
  simp [get_update]

theorem get_update_ne (t : Table κ α) {k' : κ} (f : α → α) (h : k' ≠ k) :
    (t.update k f).get k' = t.get k' := by
  simp [get_update, h]

def mapValues (t : Table κ α) (f : α → α) : Table κ α :=
  ⟨t.rows.map fun r => (r.1, f r.2), by
    rw [List.map_map]; exact t.keys_nodup⟩

@[simp] theorem get_mapValues (t : Table κ α) (f : α → α) (k : κ) :
    (t.mapValues f).get k = (t.get k).map f := by
  obtain ⟨rows, hn⟩ := t
  simp only [get, mapValues]
  induction rows with
  | nil => rfl
  | cons r rows ih =>
    by_cases h : r.1 = k
    · simp [h]
    · simpa [h] using ih (List.nodup_cons.mp hn).2

omit [DecidableEq κ] in
theorem length_mapValues (t : Table κ α) (f : α → α) :
    (t.mapValues f).rows.length = t.rows.length := List.length_map _

def mapKeyed (t : Table κ α) (f : κ → α → α) : Table κ α :=
  ⟨t.rows.map fun r => (r.1, f r.1 r.2), by
    rw [List.map_map]; exact t.keys_nodup⟩

@[simp] theorem get_mapKeyed (t : Table κ α) (f : κ → α → α) (k : κ) :
    (t.mapKeyed f).get k = (t.get k).map (f k) := by
  obtain ⟨rows, hn⟩ := t
  simp only [get, mapKeyed]
  induction rows with
  | nil => rfl
  | cons r rows ih =>
    by_cases h : r.1 = k
    · simp [h]
    · simpa [h] using ih (List.nodup_cons.mp hn).2

def erase (t : Table κ α) (k : κ) : Table κ α :=
  ⟨t.rows.filter fun r => r.1 ≠ k, t.keys_nodup.sublist (List.filter_sublist.map Prod.fst)⟩

theorem get_erase (t : Table κ α) (k k' : κ) :
    (t.erase k).get k' = if k' = k then none else t.get k' := by
  obtain ⟨rows, hn⟩ := t
  simp only [get, erase]
  induction rows with
  | nil => simp
  | cons r rows ih =>
    have ih := ih (List.nodup_cons.mp hn).2
    by_cases hr : r.1 = k
    · by_cases hk : k' = k
      · simp [hr, hk]
      · simpa [hr, hk, Ne.symm hk] using ih
    · by_cases hk : r.1 = k'
      · simp [hk, show ¬k' = k from hk ▸ hr]
      · simpa [hr, hk] using ih

/-- The rows that `p` holds of. -/
def keep (t : Table κ α) (p : κ → α → Bool) : Table κ α :=
  ⟨t.rows.filter fun r => p r.1 r.2, t.keys_nodup.sublist (List.filter_sublist.map Prod.fst)⟩

theorem get_keep (t : Table κ α) (p : κ → α → Bool) (k : κ) :
    (t.keep p).get k = (t.get k).filter (p k) := by
  ext v
  rw [get_eq_some_iff_mem, Option.filter_eq_some_iff, get_eq_some_iff_mem]
  simp [keep]

/-- The rows put in last, `n` of them at most. -/
def newest (t : Table κ α) (n : ℕ) : Table κ α :=
  ⟨t.rows.drop (t.rows.length - n), t.keys_nodup.sublist ((List.drop_sublist _ _).map Prod.fst)⟩

omit [DecidableEq κ] in
theorem length_newest_le (t : Table κ α) (n : ℕ) : (t.newest n).rows.length ≤ n := by
  simp only [newest, List.length_drop]
  omega

theorem get_newest {n : ℕ} {v : α} (h : (t.newest n).get k = some v) : t.get k = some v := by
  rw [get_eq_some_iff_mem] at h ⊢
  exact List.mem_of_mem_drop h

omit [DecidableEq κ] in
theorem length_keep_le (t : Table κ α) (p : κ → α → Bool) :
    (t.keep p).rows.length ≤ t.rows.length := List.length_filter_le _ _

theorem length_erase_le (t : Table κ α) (k : κ) : (t.erase k).rows.length ≤ t.rows.length :=
  List.length_filter_le _ _

theorem length_erase_lt (h : (t.get k).isSome) : (t.erase k).rows.length < t.rows.length := by
  obtain ⟨v, hv⟩ := Option.isSome_iff_exists.mp h
  refine List.length_filter_lt_length_iff_exists.mpr ⟨(k, v), get_eq_some_iff_mem.mp hv, ?_⟩
  simp

theorem length_put_le (t : Table κ α) (k : κ) (v : α) :
    (t.put k v).rows.length ≤ t.rows.length + 1 := by
  unfold put
  split <;> simp

theorem mem_rows_put {v : α} {r : κ × α} :
    r ∈ (t.put k v).rows ↔ r = (k, v) ∨ r.1 ≠ k ∧ r ∈ t.rows := by
  obtain ⟨a, b⟩ := r
  rw [← get_eq_some_iff_mem, ← get_eq_some_iff_mem, get_put]
  by_cases h : a = k
  · simp [h, eq_comm]
  · simp [h]

theorem rows_update (t : Table κ α) (k : κ) (f : α → α) :
    (t.update k f).rows = t.rows.map fun r => if r.1 = k then (r.1, f r.2) else r := by
  unfold update
  cases h : t.get k with
  | none =>
    have hk := get_eq_none_iff.mp h
    symm
    refine (List.map_congr_left fun r hr => ?_).trans (List.map_id _)
    have hne : r.1 ≠ k := fun e => hk (e ▸ List.mem_map_of_mem (f := Prod.fst) hr)
    simp [hne]
  | some v =>
    have hmem : k ∈ t.rows.map Prod.fst := by
      by_contra hk
      simp [get_eq_none_iff.mpr hk] at h
    simp only [put, hmem, dif_pos]
    refine List.map_congr_left fun r hr => ?_
    by_cases hr1 : r.1 = k
    · have hv : t.get k = some r.2 := get_eq_some_iff_mem.mpr (hr1 ▸ hr)
      rw [h] at hv
      cases hv
      simp [hr1]
    · simp [hr1]

theorem length_update (t : Table κ α) (k : κ) (f : α → α) :
    (t.update k f).rows.length = t.rows.length := by
  rw [rows_update, List.length_map]

theorem countP_key_le (t : Table κ α) (k : κ) (p : κ × α → Bool) :
    (t.rows.countP fun r => p r && r.1 = k) ≤ 1 := by
  have hkey := t.filter_key k
  have hone : (t.rows.filter fun r => r.1 = k).length ≤ 1 := by
    rw [hkey]
    cases t.get k <;> simp
  rw [← List.countP_filter]
  exact Nat.le_trans List.countP_le_length hone

/-- Where two rows of a kind have one key, there is at most one. -/
theorem countP_le_one (t : Table κ α) (p : κ × α → Bool)
    (h : ∀ k k' v v', t.get k = some v → t.get k' = some v' → p (k, v) → p (k', v') → k = k') :
    t.rows.countP p ≤ 1 := by
  rw [List.countP_eq_length_filter]
  have hnodup : ((t.rows.filter p).map Prod.fst).Nodup :=
    t.keys_nodup.sublist (List.filter_sublist.map Prod.fst)
  cases hrows : t.rows.filter p with
  | nil => simp
  | cons r rows =>
    cases rows with
    | nil => simp
    | cons r' rows =>
      have hr : r ∈ t.rows.filter p := by simp [hrows]
      have hr' : r' ∈ t.rows.filter p := by simp [hrows]
      rw [List.mem_filter] at hr hr'
      have heq := h r.1 r'.1 r.2 r'.2 (get_eq_some_iff_mem.mpr hr.1)
        (get_eq_some_iff_mem.mpr hr'.1) hr.2 hr'.2
      rw [hrows] at hnodup
      simp [heq] at hnodup

/-- Each row of a kind has one of the other kind under its key. -/
theorem countP_le_countP {u : Table κ α} {p q : κ × α → Bool}
    (h : ∀ k v, u.get k = some v → p (k, v) → ∃ w, t.get k = some w ∧ q (k, w)) :
    u.rows.countP p ≤ t.rows.countP q := by
  have hnodup : ((u.rows.filter p).map Prod.fst).Nodup :=
    u.keys_nodup.sublist (List.filter_sublist.map Prod.fst)
  have hsubset : (u.rows.filter p).map Prod.fst ⊆ (t.rows.filter q).map Prod.fst := by
    intro k hk
    obtain ⟨r, hr, rfl⟩ := List.mem_map.mp hk
    obtain ⟨hmem, hp⟩ := List.mem_filter.mp hr
    obtain ⟨w, hw, hq⟩ := h r.1 r.2 (get_eq_some_iff_mem.mpr hmem) hp
    exact List.mem_map.mpr ⟨(r.1, w), List.mem_filter.mpr ⟨get_eq_some_iff_mem.mp hw, hq⟩, rfl⟩
  simpa [List.countP_eq_length_filter] using hnodup.length_le_of_subset hsubset

theorem countP_update_split (t : Table κ α) (k : κ) (f : α → α) (p : κ × α → Bool) :
    (t.update k f).rows.countP p =
      (t.rows.countP fun r => p r && r.1 ≠ k) + t.rows.countP fun r => p (r.1, f r.2) && r.1 = k := by
  rw [rows_update, List.countP_map]
  induction t.rows with
  | nil => rfl
  | cons r rows ih =>
    by_cases h : r.1 = k <;> simp [List.countP_cons, h] at ih ⊢ <;> omega

theorem countP_split (t : Table κ α) (k : κ) (p : κ × α → Bool) : t.rows.countP p =
      (t.rows.countP fun r => p r && r.1 ≠ k) + t.rows.countP fun r => p r && r.1 = k := by
  induction t.rows with
  | nil => rfl
  | cons r rows ih =>
    by_cases h : r.1 = k <;> by_cases hp : p r <;> simp [h, hp] at ih ⊢ <;> omega

theorem countP_update_le_succ (t : Table κ α) (k : κ) (f : α → α) (p : κ × α → Bool) :
    (t.update k f).rows.countP p ≤ t.rows.countP p + 1 := by
  rw [countP_update_split, countP_split t k p]
  have hone := t.countP_key_le k fun r => p (r.1, f r.2)
  omega

theorem countP_update_le (t : Table κ α) {f : α → α} {p : κ × α → Bool}
    (h : ∀ v, t.get k = some v → p (k, f v) → p (k, v)) :
    (t.update k f).rows.countP p ≤ t.rows.countP p := by
  rw [countP_update_split, countP_split t k p]
  refine Nat.add_le_add_left (List.countP_mono_left fun r hr hp => ?_) _
  simp only [Bool.and_eq_true, decide_eq_true_eq] at hp ⊢
  obtain ⟨hp, rfl⟩ := hp
  exact ⟨h r.2 (get_eq_some_iff_mem.mpr hr) hp, rfl⟩

theorem countP_update_eq (t : Table κ α) {f : α → α} {p : κ × α → Bool}
    (h : ∀ v, t.get k = some v → p (k, f v) = p (k, v)) :
    (t.update k f).rows.countP p = t.rows.countP p := by
  rw [countP_update_split, countP_split t k p]
  congr 1
  refine List.countP_congr fun r hr => ?_
  by_cases hk : r.1 = k
  · have hp := h r.2 (get_eq_some_iff_mem.mpr (hk ▸ hr))
    subst hk
    simp [hp]
  · simp [hk]

end Table

end Kindred.Lib
