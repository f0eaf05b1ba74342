import Mathlib.Data.List.Sort

/-! The `n` smallest members of a list, in order. -/

namespace Kindred.Lib

def smallest (n : ℕ) (l : List Int) : List Int := (l.insertionSort fun a b => a ≤ b).take n

variable {n : ℕ} {l : List Int}

theorem pairwise_smallest (n : ℕ) (l : List Int) : (smallest n l).Pairwise (· ≤ ·) :=
  (List.pairwise_insertionSort _ l).sublist (List.take_sublist _ _)

variable {t : Int}

theorem mem_of_mem_smallest (h : t ∈ smallest n l) : t ∈ l :=
  (List.mem_insertionSort _).mp (List.mem_of_mem_take h)

theorem length_smallest (n : ℕ) (l : List Int) : (smallest n l).length = min n l.length := by
  simp [smallest]

theorem smallest_lt (h : l.Nodup) : (smallest n l).Pairwise (· < ·) := by
  have hnodup : (smallest n l).Pairwise (· ≠ ·) :=
    ((List.perm_insertionSort _ l).nodup_iff.mpr h).sublist (List.take_sublist _ _)
  exact ((pairwise_smallest n l).and hnodup).imp fun h => lt_of_le_of_ne h.1 h.2

theorem countP_smallest_le (p : Int → Bool) : (smallest n l).countP p ≤ l.countP p := by
  rw [← (List.perm_insertionSort (fun a b => a ≤ b) l).countP_eq p]
  exact (List.take_sublist _ _).countP_le

/-- What is smaller than one of the smallest is one of them. -/
theorem mem_smallest_of_lt {r : Int} (ht : t ∈ l) (hr : r ∈ smallest n l) (hlt : t < r) :
    t ∈ smallest n l := by
  have hmem : t ∈ l.insertionSort fun a b => a ≤ b := (List.mem_insertionSort _).mpr ht
  have hsplit := List.take_append_drop n (l.insertionSort fun a b => a ≤ b)
  rw [← hsplit] at hmem
  rcases List.mem_append.mp hmem with hfirst | hlast
  · exact hfirst
  · have hsorted := List.pairwise_insertionSort (fun a b : Int => a ≤ b) l
    rw [← hsplit] at hsorted
    have hle := (List.pairwise_append.mp hsorted).2.2 r hr t hlast
    exact absurd hle (Int.not_le.mpr hlt)

/-- With fewer than `n` below it and one above it, one of the smallest is not below it. -/
theorem exists_le_smallest {u : Int} (hcount : l.countP (· < t) < n) (hu : u ∈ l) (hlt : t ≤ u) :
    ∃ r ∈ smallest n l, t ≤ r := by
  by_contra hno
  have hall : ∀ r ∈ smallest n l, r < t := by
    intro r hr
    by_contra hge
    exact hno ⟨r, hr, Int.not_lt.mp hge⟩
  have hlen : (smallest n l).length ≤ l.countP (· < t) := by
    have hself : (smallest n l).countP (· < t) = (smallest n l).length :=
      List.countP_eq_length.mpr fun r hr => by simpa using hall r hr
    rw [← hself]
    exact countP_smallest_le _
  rw [length_smallest] at hlen
  have hwhole : smallest n l = l.insertionSort fun a b => a ≤ b := by
    refine List.take_of_length_le ?_
    rw [List.length_insertionSort]
    omega
  have hmem : u ∈ smallest n l := by
    rw [hwhole]
    exact (List.mem_insertionSort _).mpr hu
  have := hall u hmem
  omega

/-- With `n` below it, all of the smallest are below it. -/
theorem smallest_lt_of_countP (hcount : n ≤ l.countP (· < t)) : ∀ r ∈ smallest n l, r < t := by
  intro r hr
  by_contra hge
  have hle : t ≤ r := Int.not_lt.mp hge
  -- all those below `t` are among the smallest, and `r` besides
  have hbelow : l.countP (· < t) ≤ (smallest n l).countP (· < t) := by
    rw [← (List.perm_insertionSort (fun a b => a ≤ b) l).countP_eq]
    conv_lhs => rw [← List.take_append_drop n (l.insertionSort fun a b => a ≤ b)]
    rw [List.countP_append]
    have hnone : ((l.insertionSort fun a b => a ≤ b).drop n).countP (· < t) = 0 := by
      refine List.countP_eq_zero.mpr fun u hu hut => ?_
      have hsorted := List.pairwise_insertionSort (fun a b : Int => a ≤ b) l
      rw [← List.take_append_drop n (l.insertionSort fun a b => a ≤ b)] at hsorted
      have hru := (List.pairwise_append.mp hsorted).2.2 r hr u hu
      simp only [decide_eq_true_eq] at hut
      omega
    rw [hnone]
    exact Nat.le_refl _
  have hlt : (smallest n l).countP (· < t) < (smallest n l).length := by
    refine Nat.lt_of_le_of_ne List.countP_le_length fun heq => ?_
    exact hge (by simpa using List.countP_eq_length.mp heq r hr)
  rw [length_smallest] at hlt
  omega

end Kindred.Lib
