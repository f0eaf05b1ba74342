import Mathlib.Algebra.Order.BigOperators.Group.List
import Mathlib.Algebra.Order.Ring.Int

namespace Kindred.Lib
variable {α : Type}

/-- `sum(f) FILTER (WHERE p)` over a list of rows. -/
def total (p : α → Prop) [DecidablePred p] (f : α → Int) (rows : List α) : Int :=
  (rows.map fun a => if p a then f a else 0).sum

variable {rows : List α}

section Total
variable (p q : α → Prop) [DecidablePred p] [DecidablePred q] (f : α → Int)

@[simp] theorem total_nil : total p f [] = 0 := rfl

@[simp] theorem total_cons (a : α) (rows : List α) :
    total p f (a :: rows) = (if p a then f a else 0) + total p f rows := by
  simp [total]

@[simp] theorem total_append (rows rows' : List α) :
    total p f (rows ++ rows') = total p f rows + total p f rows' := by
  simp [total]

theorem total_filter (rows : List α) :
    total p f (rows.filter fun a => q a) = total (fun a => q a ∧ p a) f rows := by
  induction rows with
  | nil => rfl
  | cons a rows ih => by_cases h : q a <;> simp [h, ih]

/-- Rows that meet `q` and rows that do not make up the whole. -/
theorem total_split (rows : List α) :
    total p f rows = total (fun a => q a ∧ p a) f rows + total (fun a => ¬q a ∧ p a) f rows := by
  induction rows with
  | nil => rfl
  | cons a rows ih =>
    by_cases h : q a <;> simp [h, ih] <;> omega

variable {p q f}

theorem total_congr {g : α → Int} (hpq : ∀ a ∈ rows, p a ↔ q a) (hfg : ∀ a ∈ rows, p a → f a = g a)
    : total p f rows = total q g rows := by
  induction rows with
  | nil => rfl
  | cons a rows ih =>
    have ih := ih (fun b hb => hpq b (List.mem_cons_of_mem a hb))
      (fun b hb => hfg b (List.mem_cons_of_mem a hb))
    have ha := hpq a List.mem_cons_self
    by_cases h : p a
    · simp [h, ha.mp h, ih, hfg a List.mem_cons_self h]
    · simp [h, mt ha.mpr h, ih]

theorem total_nonneg (h : ∀ a ∈ rows, p a → 0 ≤ f a) : 0 ≤ total p f rows := by
  induction rows with
  | nil => simp
  | cons a rows ih =>
    have ih := ih fun b hb => h b (List.mem_cons_of_mem a hb)
    have ha := h a List.mem_cons_self
    by_cases hp : p a
    · have := ha hp
      simp [hp]
      omega
    · simpa [hp] using ih

theorem total_eq_zero (h : ∀ a ∈ rows, ¬p a) : total p f rows = 0 := by
  induction rows with
  | nil => rfl
  | cons a rows ih =>
    simp [h a List.mem_cons_self, ih fun b hb => h b (List.mem_cons_of_mem a hb)]

end Total

end Kindred.Lib
