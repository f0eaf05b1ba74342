import Mathlib.Data.List.Sort

/-! The place of an element among distinct ones, as what is before it counts it. -/

namespace Kindred.Lib
variable {α : Type} [LinearOrder α]

def before (l : List α) (a : α) : ℕ := l.countP (· < a)

def after (l : List α) (a : α) : ℕ := l.countP (a < ·)

variable {l : List α} {a : α}

theorem before_lt {b : α} (ha : a ∈ l) (h : a < b) : before l a < before l b := by
  have hsplit := List.countP_eq_countP_filter_add l (· < b) (· < a)
  have hbelow : (l.filter (· < a)).countP (· < b) = before l a := by
    rw [before, List.countP_eq_length_filter (p := (· < a))]
    refine List.countP_eq_length.mpr fun x hx => ?_
    simp only [List.mem_filter, decide_eq_true_eq] at hx ⊢
    exact lt_trans hx.2 h
  have hself : 0 < (l.filter fun x => !decide (x < a)).countP (· < b) := by
    refine List.countP_pos_iff.mpr ⟨a, ?_, by simpa using h⟩
    simpa using ha
  unfold before at *
  omega

theorem before_perm {l' : List α} (h : l.Perm l') (a : α) : before l a = before l' a :=
  h.countP_eq _

/-- Sorted, each stands behind all that are before it. -/
theorem before_getElem (hl : l.Pairwise (· < ·)) {k : ℕ} (hk : k < l.length) :
    before l l[k] = k := by
  unfold before
  induction l generalizing k with
  | nil => simp at hk
  | cons a l ih =>
    obtain ⟨ha, hl⟩ := List.pairwise_cons.mp hl
    cases k with
    | zero =>
      have hnone : l.countP (· < a) = 0 := by
        refine List.countP_eq_zero.mpr fun x hx => ?_
        simpa using (ha x hx).le
      simp [hnone]
    | succ k =>
      have hk' : k < l.length := by simpa using hk
      simp [ha _ (List.getElem_mem hk'), ih hl hk']

theorem sorted_of_nodup (h : l.Nodup) : (l.insertionSort (· ≤ ·)).Pairwise (· < ·) := by
  have hle := List.pairwise_insertionSort (· ≤ ·) l
  have hne : (l.insertionSort (· ≤ ·)).Nodup := (List.perm_insertionSort (· ≤ ·) l).nodup_iff.mpr h
  exact (hle.and hne).imp fun hxy => lt_of_le_of_ne hxy.1 hxy.2

/-- The `k`-th of distinct elements is the one with `k` before it. -/
theorem sort_getElem_eq_some (hl : l.Nodup) {k : ℕ} :
    (l.insertionSort (· ≤ ·))[k]? = some a ↔ a ∈ l ∧ before l a = k := by
  have hperm := List.perm_insertionSort (· ≤ ·) l
  have hplace {j : ℕ} (hj : j < (l.insertionSort (· ≤ ·)).length) :
      before l (l.insertionSort (· ≤ ·))[j] = j := by
    rw [← before_perm hperm, before_getElem (sorted_of_nodup hl) hj]
  constructor
  · intro h
    obtain ⟨hk, rfl⟩ := List.getElem?_eq_some_iff.mp h
    exact ⟨hperm.mem_iff.mp (List.getElem_mem hk), hplace hk⟩
  · rintro ⟨ha, rfl⟩
    obtain ⟨j, hj, rfl⟩ := List.getElem_of_mem (hperm.mem_iff.mpr ha)
    rw [hplace hj, List.getElem?_eq_getElem hj]

/-- What comes after, what comes before and the element itself are all. -/
theorem after_add (l : List α) (a : α) : after l a + before l a + l.count a = l.length := by
  unfold after before
  induction l with
  | nil => rfl
  | cons b l ih =>
    rcases lt_trichotomy a b with h | rfl | h
    · simp only [List.countP_cons, List.count_cons, List.length_cons, h, h.not_gt, h.ne',
        decide_true, decide_false, if_true, beq_iff_eq, Bool.false_eq_true, if_false]
      omega
    · simp only [List.countP_cons, List.count_cons, List.length_cons, lt_irrefl, decide_false,
        beq_self_eq_true, if_true, Bool.false_eq_true, if_false]
      omega
    · simp only [List.countP_cons, List.count_cons, List.length_cons, h, h.not_gt, h.ne,
        decide_true, decide_false, if_true, beq_iff_eq, Bool.false_eq_true, if_false]
      omega

theorem after_add_iff (l : List α) (a : α) : after l a + before l a = l.length ↔ a ∉ l := by
  rw [← List.count_eq_zero, ← after_add l a]
  omega

theorem after_add_mem (hl : l.Nodup) (ha : a ∈ l) : after l a + (before l a + 1) = l.length := by
  have hall := after_add l a
  rw [List.count_eq_one_of_mem hl ha] at hall
  omega

end Kindred.Lib
