import Mathlib.Data.List.Basic

/-! Strings as the 16-bit code units that JavaScript compares them by. -/

namespace Kindred.Lib

def units (c : Char) : List ℕ :=
  if c.toNat < 0x10000 then [c.toNat]
  else [0xD800 + (c.toNat - 0x10000) / 0x400, 0xDC00 + (c.toNat - 0x10000) % 0x400]

def utf16 (s : String) : List ℕ := s.toList.flatMap units

theorem toNat_valid (c : Char) : c.toNat < 0xD800 ∨ 0xDFFF < c.toNat ∧ c.toNat < 0x110000 :=
  c.valid

/-- Surrogates are no characters, so what a text starts with is read in one way. -/
theorem units_append {c d : Char} {l l' : List ℕ} (h : units c ++ l = units d ++ l') :
    c = d ∧ l = l' := by
  have hc := toNat_valid c
  have hd := toNat_valid d
  suffices hcd : c.toNat = d.toNat by
    obtain rfl : c = d := Char.toNat_inj.mp hcd
    exact ⟨rfl, List.append_cancel_left h⟩
  unfold units at h
  split_ifs at h with h1 h2 h2
  all_goals simp only [List.cons_append, List.nil_append, List.cons.injEq] at h
  all_goals omega

theorem units_ne_nil (c : Char) : units c ≠ [] := by
  unfold units
  split_ifs <;> simp

theorem flatMap_units_injective {cs ds : List Char} (h : cs.flatMap units = ds.flatMap units) :
    cs = ds := by
  induction cs generalizing ds with
  | nil =>
    cases ds with
    | nil => rfl
    | cons d ds => simp [units_ne_nil] at h
  | cons c cs ih =>
    cases ds with
    | nil => simp [units_ne_nil] at h
    | cons d ds =>
      obtain ⟨hcd, htail⟩ := units_append h
      rw [hcd, ih htail]

theorem utf16_injective : Function.Injective utf16 := fun _ _ h =>
  String.toList_injective (flatMap_units_injective h)

end Kindred.Lib
