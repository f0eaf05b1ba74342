import Kindred.Lib.Totals
import Kindred.Lib.Table

namespace Kindred.Lib
variable {κ : Type} {parts : List (κ × Int)} {want : Int}

def share [DecidableEq κ] (k : κ) (parts : List (κ × Int)) : Int := total (fun p => p.1 = k) Prod.snd parts

/-- The parts that make up `want`, each taken whole until what is left is less. -/
def fill : Int → List (κ × Int) → List (κ × Int)
  | _, [] => []
  | want, (k, size) :: parts =>
    if want ≤ 0 then [] else (k, min want size) :: fill (want - min want size) parts

variable {k : κ}

section Share
variable [DecidableEq κ]

@[simp] theorem share_nil (k : κ) : share k [] = 0 := rfl

@[simp] theorem share_cons (k : κ) (p : κ × Int) (parts : List (κ × Int)) :
    share k (p :: parts) = (if p.1 = k then p.2 else 0) + share k parts := by
  simp [share]

@[simp] theorem share_append (k : κ) (parts parts' : List (κ × Int)) :
    share k (parts ++ parts') = share k parts + share k parts' := by
  simp [share]

theorem share_nonneg (h : ∀ p ∈ parts, 0 ≤ p.2) : 0 ≤ share k parts :=
  total_nonneg fun p hp _ => h p hp

end Share

@[simp] theorem fill_nil (want : Int) : fill want ([] : List (κ × Int)) = [] := rfl

theorem fill_of_nonpos (h : want ≤ 0) (parts : List (κ × Int)) : fill want parts = [] := by
  cases parts <;> simp [fill, h]

theorem fill_cons (h : 0 < want) (k : κ) (size : Int) (parts : List (κ × Int)) :
    fill want ((k, size) :: parts) = (k, min want size) :: fill (want - min want size) parts := by
  simp [fill, Int.not_le.mpr h]

/-- Of no part more is taken than there is. -/
theorem share_fill_le [DecidableEq κ] (h : ∀ p ∈ parts, 0 ≤ p.2) (want : Int) (k : κ) :
    share k (fill want parts) ≤ share k parts := by
  induction parts generalizing want with
  | nil => simp
  | cons p parts ih =>
    obtain ⟨k', size⟩ := p
    have htail : ∀ p ∈ parts, 0 ≤ p.2 := fun p hp => h p (List.mem_cons_of_mem _ hp)
    by_cases hw : want ≤ 0
    · rw [fill_of_nonpos hw]
      exact share_nonneg h
    · have hrest := ih htail (want - min want size)
      have hmin := min_le_right want size
      rw [fill_cons (by omega)]
      by_cases hk : k' = k
      · simp [hk]
        omega
      · simpa [hk] using hrest

theorem fill_nonneg (h : ∀ p ∈ parts, 0 ≤ p.2) (want : Int) : ∀ p ∈ fill want parts, 0 ≤ p.2 := by
  induction parts generalizing want with
  | nil => simp
  | cons p parts ih =>
    obtain ⟨k, size⟩ := p
    have hsize : 0 ≤ size := h _ List.mem_cons_self
    by_cases hw : want ≤ 0
    · simp [fill_of_nonpos hw]
    · rw [fill_cons (by omega)]
      intro q hq
      cases hq with
      | head => exact le_min (by omega) hsize
      | tail _ hq => exact ih (fun p hp => h p (List.mem_cons_of_mem _ hp)) _ q hq

theorem fill_pos (h : ∀ p ∈ parts, 0 < p.2) (want : Int) : ∀ p ∈ fill want parts, 0 < p.2 := by
  induction parts generalizing want with
  | nil => simp
  | cons p parts ih =>
    obtain ⟨k, size⟩ := p
    have hsize : 0 < size := h _ List.mem_cons_self
    by_cases hw : want ≤ 0
    · simp [fill_of_nonpos hw]
    · rw [fill_cons (by omega)]
      intro q hq
      cases hq with
      | head => exact lt_min (by omega) hsize
      | tail _ hq => exact ih (fun p hp => h p (List.mem_cons_of_mem _ hp)) _ q hq

/-- No more is taken than is wanted. -/
theorem sum_fill_le (hw : 0 ≤ want) (parts : List (κ × Int)) :
    ((fill want parts).map Prod.snd).sum ≤ want := by
  induction parts generalizing want with
  | nil => simpa using hw
  | cons p parts ih =>
    obtain ⟨k, size⟩ := p
    by_cases hz : want ≤ 0
    · simpa [fill_of_nonpos hz] using hw
    · have := @ih (want - min want size) (by omega)
      rw [fill_cons (by omega), List.map_cons, List.sum_cons]
      omega

theorem fill_keys {q : κ × Int} (hq : q ∈ fill want parts) : ∃ p ∈ parts, p.1 = q.1 := by
  induction parts generalizing want with
  | nil => cases hq
  | cons p parts ih =>
    obtain ⟨k, size⟩ := p
    by_cases hw : want ≤ 0
    · rw [fill_of_nonpos hw] at hq
      cases hq
    · rw [fill_cons (by omega)] at hq
      cases hq with
      | head => exact ⟨_, List.mem_cons_self, rfl⟩
      | tail _ hq =>
        obtain ⟨p, hp, hk⟩ := ih hq
        exact ⟨p, List.mem_cons_of_mem _ hp, hk⟩

section Applied
variable [DecidableEq κ] {α : Type} {parts : List (κ × Int)} {op : Int → α → Option α}
  {t t' : Table κ α}

/-- Posting `x` and then `y` to a row is posting `x + y`. -/
def Composes (op : Int → α → Option α) : Prop :=
  ∀ x y a b, 0 < x → 0 < y → op x a = some b → op y b = op (x + y) a

def Posted (op : Int → α → Option α) (k : κ) (x : Int) (t t' : Table κ α) : Prop :=
  t.get k = none ∧ t' = t ∨ ∃ a a', t.get k = some a ∧ op x a = some a' ∧ t' = t.put k a'

def Applied (op : Int → α → Option α) (parts : List (κ × Int)) (t t' : Table κ α) : Prop :=
  (∀ k, t.get k = none → t'.get k = none) ∧
  ∀ k a, t.get k = some a → ∃ a', t'.get k = some a' ∧
    if share k parts = 0 then a' = a else op (share k parts) a = some a'

theorem Applied.refl (op : Int → α → Option α) (t : Table κ α) : Applied op [] t t :=
  ⟨fun _ h => h, fun _ a h => ⟨a, h, by simp⟩⟩

theorem Applied.cons (hop : Composes op) {x : Int} (hx : 0 < x) (hpos : ∀ p ∈ parts, 0 < p.2)
    {t₁ : Table κ α} (h : Posted op k x t t₁) (hrest : Applied op parts t₁ t')
    : Applied op ((k, x) :: parts) t t' := by
  have hshare (j : κ) : 0 ≤ share j parts := share_nonneg fun p hp => (hpos p hp).le
  obtain ⟨hnone, hsome⟩ := hrest
  obtain ⟨hk, rfl⟩ | ⟨a, a₁, hk, ha, rfl⟩ := h
  · refine ⟨hnone, fun j b hj => ?_⟩
    have hne : ¬k = j := by
      intro hkj
      rw [hkj, hj] at hk
      cases hk
    simpa [hne] using hsome j b hj
  · constructor
    · intro j hj
      apply hnone
      rw [Table.get_put_ne]
      · exact hj
      · intro hjk
        rw [hjk, hk] at hj
        cases hj
    · intro j b hj
      by_cases hjk : j = k
      · subst hjk
        cases hk.symm.trans hj
        obtain ⟨a', ha', hpost⟩ := hsome j a₁ (by simp)
        refine ⟨a', ha', ?_⟩
        have := hshare j
        by_cases hzero : share j parts = 0
        · simp only [hzero, if_true] at hpost
          have hxz : x ≠ 0 := by omega
          simp [hzero, hxz, hpost, ha]
        · simp only [hzero, if_false] at hpost
          have hxz : x + share j parts ≠ 0 := by omega
          simpa [hxz, ← hop x (share j parts) a a₁ hx (by omega) ha] using hpost
      · obtain ⟨a', ha', hpost⟩ := hsome j b (by rwa [Table.get_put_ne _ _ hjk])
        have hne : ¬k = j := fun e => hjk e.symm
        exact ⟨a', ha', by simpa [hne] using hpost⟩

/-- A row after posting, and the row it was. -/
theorem Applied.of_get (h : Applied op parts t t') {a' : α} (hk : t'.get k = some a') :
    ∃ a, t.get k = some a ∧
      if share k parts = 0 then a' = a else op (share k parts) a = some a' := by
  cases ha : t.get k with
  | none => simp [h.1 k ha] at hk
  | some a =>
    obtain ⟨b, hb, hpost⟩ := h.2 k a ha
    cases hk.symm.trans hb
    exact ⟨a, rfl, hpost⟩

/-- What posting keeps of a row, the whole table keeps. -/
theorem Applied.map_eq {β : Type} {g : α → β} (hg : ∀ x a a', op x a = some a' → g a' = g a)
    (h : Applied op parts t t') (k : κ) : (t'.get k).map g = (t.get k).map g := by
  cases ha : t.get k with
  | none => rw [h.1 k ha]
  | some a =>
    obtain ⟨a', ha', hpost⟩ := h.2 k a ha
    rw [ha']
    split at hpost
    · rw [hpost]
    · simp [hg _ _ _ hpost]

end Applied

end Kindred.Lib
