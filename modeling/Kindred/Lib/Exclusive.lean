import Mathlib.Data.List.Basic

/-! What no two of a list of parties hold at once. -/

namespace Kindred.Lib
variable {α : Type} {p : α → Prop} {l : List α}

def AtMostOne (p : α → Prop) (l : List α) : Prop :=
  ∀ (i j : Nat) (a b : α), l[i]? = some a → l[j]? = some b → p a → p b → i = j

theorem AtMostOne.of_none (h : ∀ a ∈ l, ¬p a) : AtMostOne p l :=
  fun _ _ a _ ha _ hp _ => absurd hp (h a (List.mem_of_getElem? ha))

/-- The party at `i` may take it where nobody else has it. -/
theorem AtMostOne.set (h : AtMostOne p l) (i : Nat) (x : α)
    (hx : p x → ∀ (j : Nat) (a : α), j ≠ i → l[j]? = some a → ¬p a) : AtMostOne p (l.set i x) := by
  intro j k a b ha hb hpa hpb
  rw [List.getElem?_set] at ha hb
  split at ha <;> split at hb
  · omega
  · rename_i hj hk
    split at ha
    · cases ha
      exact absurd hpb (hx hpa k b (Ne.symm hk) hb)
    · cases ha
  · rename_i hj hk
    split at hb
    · cases hb
      exact absurd hpa (hx hpb j a (Ne.symm hj) ha)
    · cases hb
  · exact h j k a b ha hb hpa hpb

/-- One that gives it up, or had it already. -/
theorem AtMostOne.set_keeps (h : AtMostOne p l) {i : Nat} {x y : α} (hy : l[i]? = some y)
    (hx : p x → p y) : AtMostOne p (l.set i x) :=
  h.set i x fun hpx j a hj ha hpa => hj (h j i a y ha hy hpa (hx hpx))

end Kindred.Lib
