import Kindred.Lib.Waterfall

/-! Waterfalls over the same parts, each begun again at the first. -/

namespace Kindred.Lib
variable {κ : Type} {parts : List (κ × Int)} {want : Int} {budget : Int} {xs : List Int}
  {size : Int} {k : κ}

theorem sum_parts_nonneg (h : ∀ p ∈ parts, 0 ≤ p.2) : 0 ≤ (parts.map Prod.snd).sum := by
  apply List.sum_nonneg
  intro x hx
  obtain ⟨p, hp, rfl⟩ := List.mem_map.mp hx
  exact h p hp

/-- What is taken of parts that hold together is `want`, or everything. -/
theorem sum_fill (hw : 0 ≤ want) (h : ∀ p ∈ parts, 0 ≤ p.2) :
    ((fill want parts).map Prod.snd).sum = min want (parts.map Prod.snd).sum := by
  induction parts generalizing want with
  | nil => simp [hw]
  | cons p parts ih =>
    obtain ⟨k, size⟩ := p
    have hsize : 0 ≤ size := h _ List.mem_cons_self
    have htail : ∀ p ∈ parts, 0 ≤ p.2 := fun p hp => h p (List.mem_cons_of_mem _ hp)
    have hsum := sum_parts_nonneg htail
    by_cases hz : want ≤ 0
    · rw [fill_of_nonpos hz]
      simp only [List.map_nil, List.sum_nil, List.map_cons, List.sum_cons]
      omega
    · have hrest := @ih (want - min want size) (by omega) htail
      rw [fill_cons (by omega)]
      simp only [List.map_cons, List.sum_cons]
      omega

theorem fill_map {ι : Type} (f : ι → κ) (want : Int) (parts : List (ι × Int)) :
    fill want (parts.map fun p => (f p.1, p.2)) = (fill want parts).map fun p => (f p.1, p.2) := by
  induction parts generalizing want with
  | nil => rfl
  | cons p parts ih =>
    by_cases hw : want ≤ 0
    · simp [fill_of_nonpos hw]
    · simp [fill_cons (Int.not_le.mp hw), ih]

/-- The keys of the parts and the amounts taken make up what was taken. -/
theorem zip_fill (want : Int) (parts : List (κ × Int)) :
    (parts.map Prod.fst).zip ((fill want parts).map Prod.snd) = fill want parts := by
  induction parts generalizing want with
  | nil => rfl
  | cons p parts ih =>
    by_cases hw : want ≤ 0
    · simp [fill_of_nonpos hw]
    · simp [fill_cons (Int.not_le.mp hw), ih]

/-- What is had of a budget by asking for each amount in turn. -/
def grants : Int → List Int → List Int
  | _, [] => []
  | budget, x :: xs =>
    if 0 < min x budget then min x budget :: grants (budget - min x budget) xs
    else grants budget xs

theorem grants_pos : ∀ g ∈ grants budget xs, 0 < g := by
  induction xs generalizing budget with
  | nil => exact fun g hg => (List.not_mem_nil hg).elim
  | cons x xs ih =>
    unfold grants
    split
    · rename_i hpos
      intro g hg
      cases hg with
      | head => exact hpos
      | tail _ hg => exact ih g hg
    · exact ih

theorem grants_of_nonpos (hb : budget ≤ 0) (xs : List Int) : grants budget xs = [] := by
  induction xs with
  | nil => rfl
  | cons x xs ih =>
    have hno : ¬0 < min x budget := by omega
    unfold grants
    rw [if_neg hno, ih]

theorem sum_grants_le (hb : 0 ≤ budget) (xs : List Int) : (grants budget xs).sum ≤ budget := by
  induction xs generalizing budget with
  | nil => simpa [grants] using hb
  | cons x xs ih =>
    unfold grants
    split
    · have := @ih (budget - min x budget) (by omega)
      rw [List.sum_cons]
      omega
    · exact ih hb

def Fits [DecidableEq κ] (parts : List (κ × Int)) (wants : List Int) : Prop :=
  (∀ k, (wants.map fun want => share k (fill want parts)).sum ≤ share k parts) ∧
    ∀ want ∈ wants, want ≤ (parts.map Prod.snd).sum

theorem le_sum_of_pos (h : ∀ x ∈ xs, 0 < x) {x : Int} (hx : x ∈ xs) : x ≤ xs.sum :=
  List.single_le_sum (fun y hy => (h y hy).le) x hx

/-- An amount that passes `size` leaves nothing of it for another. -/
theorem sum_le_of_sum_min_le (hsize : 0 < size) (hpos : ∀ x ∈ xs, 0 < x)
    (h : (xs.map fun x => min x size).sum ≤ size) : xs.length ≤ 1 ∨ xs.sum ≤ size := by
  cases xs with
  | nil => exact .inl (Nat.zero_le _)
  | cons x xs =>
    have hx : 0 < x := hpos x List.mem_cons_self
    have hmins : ∀ m ∈ xs.map fun x => min x size, 0 < m := by
      intro m hm
      obtain ⟨y, hy, rfl⟩ := List.mem_map.mp hm
      exact lt_min (hpos y (List.mem_cons_of_mem _ hy)) hsize
    rw [List.map_cons, List.sum_cons] at h
    have hleft : ∀ y ∈ xs, min y size ≤ size - min x size := by
      intro y hy
      have := le_sum_of_pos hmins (List.mem_map_of_mem hy)
      omega
    by_cases hall : size ≤ x
    · left
      cases xs with
      | nil => exact le_rfl
      | cons y ys =>
        have := hleft y List.mem_cons_self
        have := hpos y (List.mem_cons_of_mem _ List.mem_cons_self)
        omega
    · right
      have hsame : xs.map (fun y => min y size) = xs := by
        conv_rhs => rw [← List.map_id xs]
        refine List.map_congr_left fun y hy => ?_
        have := hleft y hy
        simp only [id_eq]
        omega
      rw [hsame] at h
      rw [List.sum_cons]
      omega

theorem fill_within_first (hw : 0 < want) (h : want ≤ size) :
    fill want ((k, size) :: parts) = [(k, want)] := by
  rw [fill_cons hw, min_eq_left h, Int.sub_self, fill_of_nonpos le_rfl]

section Fits
variable [DecidableEq κ]

theorem share_of_notMem (h : k ∉ parts.map Prod.fst) : share k parts = 0 :=
  total_eq_zero fun _ hp hk => h (List.mem_map.mpr ⟨_, hp, hk⟩)

theorem share_fill_first (hk : k ∉ parts.map Prod.fst) (hw : 0 < want) :
    share k (fill want ((k, size) :: parts)) = min want size := by
  have hrest : k ∉ (fill (want - min want size) parts).map Prod.fst := by
    intro h
    obtain ⟨q, hq, hqk⟩ := List.mem_map.mp h
    obtain ⟨p, hp, hpq⟩ := fill_keys hq
    exact hk (List.mem_map.mpr ⟨p, hp, hpq.trans hqk⟩)
  rw [fill_cons hw, share_cons, if_pos rfl, share_of_notMem hrest, Int.add_zero]

/-- Of parts with keys of their own, two waterfalls fit only within the first. -/
theorem fits_cons_iff (hk : k ∉ parts.map Prod.fst) (hpos : ∀ p ∈ (k, size) :: parts, 0 < p.2)
    {wants : List Int} (hwants : ∀ want ∈ wants, 0 < want)
    (hsum : wants.sum ≤ size + (parts.map Prod.snd).sum) :
    Fits ((k, size) :: parts) wants ↔ wants.length ≤ 1 ∨ wants.sum ≤ size := by
  have hsize : 0 < size := hpos _ List.mem_cons_self
  have hnonneg : ∀ p ∈ (k, size) :: parts, 0 ≤ p.2 := fun p hp => (hpos p hp).le
  constructor
  · rintro ⟨hfit, -⟩
    have hfirst := hfit k
    rw [share_cons, if_pos rfl, share_of_notMem hk, Int.add_zero,
      List.map_congr_left fun want hwant => share_fill_first hk (hwants want hwant)] at hfirst
    exact sum_le_of_sum_min_le hsize hwants hfirst
  · intro h
    refine ⟨fun j => ?_, fun want hwant => ?_⟩
    · rcases h with h | h
      · match wants, h with
        | [], _ => exact share_nonneg hnonneg
        | [want], _ => simpa using share_fill_le hnonneg want j
      · have htake : ∀ want ∈ wants,
            share j (fill want ((k, size) :: parts)) = if k = j then want else 0 := by
          intro want hwant
          have := le_sum_of_pos hwants hwant
          rw [fill_within_first (hwants want hwant) (by omega)]
          simp
        rw [List.map_congr_left htake]
        by_cases hkj : k = j
        · have hrest := share_nonneg (k := j) fun p hp => hnonneg p (List.mem_cons_of_mem _ hp)
          simp only [if_pos hkj, List.map_id', share_cons]
          omega
        · have hrest := share_nonneg (k := j) hnonneg
          simpa [if_neg hkj] using hrest
    · have := le_sum_of_pos hwants hwant
      rw [List.map_cons, List.sum_cons]
      omega

end Fits

end Kindred.Lib
