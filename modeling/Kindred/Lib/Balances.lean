import Kindred.Lib.Table
import Kindred.Lib.Totals

/-! What a write of one row changes of the total of a table. -/

namespace Kindred.Lib

theorem total_eq_sum_filter {β : Type} (p : β → Prop) [DecidablePred p] (f : β → Int)
    (rows : List β) : total p f rows = ((rows.filter fun a => p a).map f).sum := by
  induction rows with
  | nil => rfl
  | cons a rows ih => by_cases h : p a <;> simp [h, ih]

/-- A total of nonnegative rows is the whole sum when every row that counts meets `p`. -/
theorem total_eq_sum_iff {β : Type} {p : β → Prop} [DecidablePred p] {f : β → Int} {rows : List β}
    (hf : ∀ a ∈ rows, 0 ≤ f a) : total p f rows = (rows.map f).sum ↔ ∀ a ∈ rows, 0 < f a → p a := by
  induction rows with
  | nil => simp
  | cons a rows ih =>
    have htail : ∀ b ∈ rows, 0 ≤ f b := fun b hb => hf b (List.mem_cons_of_mem a hb)
    have ha := hf a List.mem_cons_self
    have hle : total p f rows ≤ (rows.map f).sum := by
      clear ih
      induction rows with
      | nil => exact le_rfl
      | cons b rows ih =>
        have hb := htail b List.mem_cons_self
        have hrest := ih (fun c hc => hf c (by grind)) fun c hc => htail c (List.mem_cons_of_mem b hc)
        rw [total_cons, List.map_cons, List.sum_cons]
        split <;> omega
    rw [total_cons, List.map_cons, List.sum_cons, List.forall_mem_cons, ← ih htail]
    by_cases hp : p a
    · simp only [hp, if_true, implies_true, true_and]
      omega
    · simp only [hp, if_false, imp_false]
      omega

namespace Table
variable {κ α : Type} [DecidableEq κ]

theorem replace_of_notMem {rows : List (κ × α)} {k : κ} (hk : k ∉ rows.map Prod.fst) (v : α) :
    (rows.map fun r => if r.1 = k then (k, v) else r) = rows := by
  conv_rhs => rw [← List.map_id rows]
  refine List.map_congr_left fun r hr => ?_
  have hne : r.1 ≠ k := fun h => hk (List.mem_map.mpr ⟨r, hr, h⟩)
  simp [hne]

theorem sum_replace {rows : List (κ × α)} (hn : (rows.map Prod.fst).Nodup) {k : κ} {v old : α}
    (hold : (k, old) ∈ rows) (g : κ × α → Int) :
    ((rows.map fun r => if r.1 = k then (k, v) else r).map g).sum =
      (rows.map g).sum - g (k, old) + g (k, v) := by
  induction rows with
  | nil => cases hold
  | cons r rows ih =>
    obtain ⟨hr, hn⟩ := List.nodup_cons.mp hn
    cases hold with
    | head =>
      rw [List.map_cons, replace_of_notMem hr]
      simp only [if_true, List.map_cons, List.sum_cons]
      omega
    | tail _ hold =>
      have hne : r.1 ≠ k := fun h => hr (h ▸ List.mem_map_of_mem (f := Prod.fst) hold)
      simp only [List.map_cons, List.sum_cons, if_neg hne, ih hn hold]
      omega

variable {t : Table κ α} {k : κ} {v old : α} {p : κ × α → Prop} [DecidablePred p] {f : κ × α → Int}

theorem total_put (hold : t.get k = some old) : total p f (t.put k v).rows = total p f t.rows -
      (if p (k, old) then f (k, old) else 0) + if p (k, v) then f (k, v) else 0 := by
  have hmem := get_eq_some_iff_mem.mp hold
  have hkey : k ∈ t.rows.map Prod.fst := List.mem_map_of_mem (f := Prod.fst) hmem
  simp only [total, put, hkey, dif_pos]
  exact sum_replace t.keys_nodup hmem _

theorem rows_put_new (hnew : t.get k = none) : (t.put k v).rows = t.rows ++ [(k, v)] := by
  have hkey := get_eq_none_iff.mp hnew
  simp [put, hkey]

theorem total_put_new (hnew : t.get k = none) :
    total p f (t.put k v).rows = total p f t.rows + if p (k, v) then f (k, v) else 0 := by
  rw [rows_put_new hnew]
  simp

end Table

end Kindred.Lib
