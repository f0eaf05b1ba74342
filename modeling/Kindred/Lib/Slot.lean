import Mathlib.Data.Nat.Notation

/-!
A record that several transactions write, one at a time: what is committed, and
what its writer has made of it so far.
-/

namespace Kindred.Lib

structure Slot (α : Type) where
  committed : Option α := none
  writer : Option (ℕ × Option α) := none

namespace Slot
variable {α : Type} {s : Slot α} {t t' : ℕ} {v : Option α}

def heldBy (s : Slot α) (t : ℕ) : Bool := s.writer.any fun w => w.1 = t

def free (s : Slot α) (t : ℕ) : Bool := s.writer.all fun w => w.1 = t

def seenBy (s : Slot α) (t : ℕ) : Option α :=
  match s.writer with
  | some (t', v) => if t' = t then v else s.committed
  | none => s.committed

def write (s : Slot α) (t : ℕ) (v : Option α) : Slot α := { s with writer := some (t, v) }

def commit (s : Slot α) (t : ℕ) : Slot α :=
  match s.writer with
  | some (t', v) => if t' = t then { committed := v } else s
  | none => s

def rollback (s : Slot α) (t : ℕ) : Slot α :=
  if s.heldBy t then { s with writer := none } else s

@[simp] theorem committed_write : (s.write t v).committed = s.committed := rfl

@[simp] theorem writer_write : (s.write t v).writer = some (t, v) := rfl

theorem heldBy_of_writer (h : s.writer = some (t, v)) : s.heldBy t := by simp [heldBy, h]

theorem exists_of_heldBy (h : s.heldBy t) : ∃ v, s.writer = some (t, v) := by
  obtain ⟨⟨t', v⟩, hw, ht⟩ := (Option.any_eq_true _ _).mp h
  simp only [decide_eq_true_eq] at ht
  exact ⟨v, ht ▸ hw⟩

theorem seenBy_of_not_heldBy (h : s.heldBy t = false) : s.seenBy t = s.committed := by
  unfold seenBy
  split
  · rename_i t' v hw
    have hne : t' ≠ t := by simpa [heldBy, hw] using h
    rw [if_neg hne]
  · rfl

theorem commit_of_writer (h : s.writer = some (t, v)) : s.commit t = { committed := v } := by
  simp [commit, h]

theorem commit_of_not_heldBy (h : s.heldBy t = false) : s.commit t = s := by
  unfold commit
  split
  · rename_i t' v hw
    have hne : t' ≠ t := by simpa [heldBy, hw] using h
    rw [if_neg hne]
  · rfl

theorem writer_of_commit (h : (s.commit t').writer = some (t, v)) :
    s.writer = some (t, v) ∧ t ≠ t' ∧ s.commit t' = s := by
  unfold commit at h ⊢
  split at h
  · rename_i u w hw
    split at h
    · cases h
    · rename_i hne
      rw [hw] at h
      cases h
      exact ⟨hw, hne, by simp [hne]⟩
  · rename_i hw
    rw [hw] at h
    cases h

@[simp] theorem committed_rollback : (s.rollback t).committed = s.committed := by
  unfold rollback
  split <;> rfl

theorem writer_of_rollback (h : (s.rollback t').writer = some (t, v)) :
    s.writer = some (t, v) ∧ t ≠ t' := by
  unfold rollback at h
  split at h
  · cases h
  · rename_i hheld
    refine ⟨h, ?_⟩
    rintro rfl
    exact hheld (heldBy_of_writer h)

def SameFor (t : ℕ) (s s' : Slot α) : Prop :=
  (s.heldBy t = false ∧ s'.heldBy t = false) ∨ s' = s

theorem SameFor.free {s' : Slot α} (h : SameFor t s s') (hs : s.heldBy t = false) :
    s'.heldBy t = false := by
  obtain h | rfl := h
  · exact h.2
  · exact hs

theorem SameFor.held {s' : Slot α} (h : SameFor t s s') (hs : s.writer = some (t, v)) : s' = s := by
  obtain h | h := h
  · rw [heldBy_of_writer hs] at h
    cases h.1
  · exact h

theorem sameFor_write (hne : t ≠ t') (hfree : s.free t') : SameFor t s (s.write t' v) := by
  refine .inl ⟨?_, by simp [heldBy, hne.symm]⟩
  rw [free] at hfree
  cases hw : s.writer with
  | none => simp [heldBy, hw]
  | some w =>
    rw [hw, Option.all_some, decide_eq_true_eq] at hfree
    simp [heldBy, hw, hfree, hne.symm]

theorem sameFor_commit (hne : t ≠ t') : SameFor t s (s.commit t') := by
  unfold commit
  split
  · rename_i u w hw
    split
    · rename_i hu
      refine .inl ⟨?_, rfl⟩
      simp [heldBy, hw, hu, hne.symm]
    · exact .inr rfl
  · exact .inr rfl

theorem sameFor_rollback (hne : t ≠ t') : SameFor t s (s.rollback t') := by
  unfold rollback
  split
  · rename_i hheld
    obtain ⟨w, hw⟩ := exists_of_heldBy hheld
    exact .inl ⟨by simp [heldBy, hw, hne.symm], rfl⟩
  · exact .inr rfl

end Slot

end Kindred.Lib
