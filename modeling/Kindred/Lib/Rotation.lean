import Mathlib.Order.Lattice

/-! Taking turns round a cycle: whoever comes next after the last one. -/

namespace Kindred.Lib
variable {α : Type} [LinearOrder α]

/-- Counted from just past `last` and round to it, `a` comes before `b`. -/
def Sooner (last a b : α) : Prop := (last < a ∧ b ≤ last) ∨ ((last < a ↔ last < b) ∧ a < b)

/-- Nobody comes later than the one whose turn it was. -/
theorem not_sooner_last (last b : α) : ¬Sooner last last b := by
  unfold Sooner
  grind

/-- A turn does not pass over who is waiting: if the last one stood between `first`
and `b`, so does who comes no later than `b` after it. -/
theorem Sooner.next {first last a b : α} (h : last = first ∨ Sooner first last b)
    (hturn : Sooner last a b) : Sooner first a b := by
  unfold Sooner at *
  grind

end Kindred.Lib
