import Mathlib.Data.List.Nodup

/-! The members of a list that were not seen before, each once, in the order in which they come. -/

namespace Kindred.Lib

variable {α : Type} [DecidableEq α]

def fresh (seen : List α) : List α → List α
  | [] => []
  | a :: l => if a ∈ seen then fresh seen l else a :: fresh (seen ++ [a]) l

theorem mem_fresh {seen l : List α} {a : α} : a ∈ fresh seen l ↔ a ∈ l ∧ a ∉ seen := by
  induction l generalizing seen with
  | nil => simp [fresh]
  | cons b l ih =>
    unfold fresh
    split
    · rename_i hb
      rw [ih, List.mem_cons]
      constructor
      · rintro ⟨ha, hseen⟩
        exact ⟨.inr ha, hseen⟩
      · rintro ⟨rfl | ha, hseen⟩
        · exact absurd hb hseen
        · exact ⟨ha, hseen⟩
    · rename_i hb
      rw [List.mem_cons, List.mem_cons, ih]
      simp only [List.mem_append, List.mem_singleton, not_or]
      constructor
      · rintro (rfl | ⟨ha, hseen, -⟩)
        · exact ⟨.inl rfl, hb⟩
        · exact ⟨.inr ha, hseen⟩
      · rintro ⟨rfl | ha, hseen⟩
        · exact .inl rfl
        · by_cases hab : a = b
          · exact .inl hab
          · exact .inr ⟨ha, hseen, hab⟩

theorem nodup_fresh (seen l : List α) : (fresh seen l).Nodup := by
  induction l generalizing seen with
  | nil => exact List.nodup_nil
  | cons a l ih =>
    unfold fresh
    split
    · exact ih seen
    · rw [List.nodup_cons, mem_fresh]
      simp [ih]

theorem fresh_append (seen l k : List α) :
    fresh seen (l ++ k) = fresh seen l ++ fresh (seen ++ fresh seen l) k := by
  induction l generalizing seen with
  | nil => simp [fresh]
  | cons a l ih =>
    rw [List.cons_append, fresh, fresh]
    split
    · exact ih seen
    · rw [ih]
      simp

/-- What was seen before does not matter to members that were not among it. -/
theorem fresh_of_disjoint {seen before l : List α} (h : ∀ a ∈ l, a ∉ before) :
    fresh (before ++ seen) l = fresh seen l := by
  induction l generalizing seen with
  | nil => rfl
  | cons a l ih =>
    have ha : a ∉ before := h a List.mem_cons_self
    have hl : ∀ a ∈ l, a ∉ before := fun b hb => h b (List.mem_cons_of_mem _ hb)
    rw [fresh, fresh, ih hl, List.append_assoc, ih hl]
    simp [ha]

end Kindred.Lib
