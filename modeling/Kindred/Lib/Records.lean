import Mathlib.Data.Nat.Bitwise

/-! Records of little-endian numbers, each written where the one before it ends. -/

namespace Kindred.Lib

abbrev Bytes := List UInt8

/-- The bytes of a number, the lowest first. -/
def leBytes : ℕ → ℕ → Bytes
  | 0, _ => []
  | width + 1, n => UInt8.ofNat n :: leBytes width (n / 256)

def leValue (bytes : Bytes) : ℕ := bytes.foldr (fun b n => b.toNat + 256 * n) 0

/-- A number of `width` bytes at a place. -/
structure LittleEndian where
  width : ℕ
  value : ℕ
  place : ℕ

namespace LittleEndian

def Fits (f : LittleEndian) : Prop := f.value < 256 ^ f.width

instance (f : LittleEndian) : Decidable f.Fits := inferInstanceAs (Decidable (_ < _))

def bytes (f : LittleEndian) : Bytes := leBytes f.width f.value

def write (done : Bytes) (f : LittleEndian) : Option Bytes :=
  if f.Fits ∧ f.place = done.length then some (done ++ f.bytes) else none

def Placed : ℕ → List LittleEndian → Prop
  | _, [] => True
  | n, f :: fields => f.place = n ∧ Placed (n + f.width) fields

end LittleEndian

def record (fields : List LittleEndian) : Option Bytes := fields.foldlM LittleEndian.write []

def readFields : List ℕ → Bytes → List ℕ
  | [], _ => []
  | width :: widths, bytes => leValue (bytes.take width) :: readFields widths (bytes.drop width)

variable {fields : List LittleEndian}

@[simp] theorem length_leBytes (width n : ℕ) : (leBytes width n).length = width := by
  induction width generalizing n with
  | zero => rfl
  | succ width ih => simp [leBytes, ih]

theorem leValue_leBytes {width n : ℕ} (h : n < 256 ^ width) : leValue (leBytes width n) = n := by
  induction width generalizing n with
  | zero => simp at h; simp [leBytes, leValue, h]
  | succ width ih =>
    have hrest := @ih (n / 256) (by rw [Nat.pow_succ] at h; omega)
    simp only [leBytes, leValue, List.foldr_cons, UInt8.toNat_ofNat'] at hrest ⊢
    omega

theorem write_all {done : Bytes} (h : LittleEndian.Placed done.length fields) :
    fields.foldlM LittleEndian.write done =
      if ∀ f ∈ fields, f.Fits then some (done ++ fields.flatMap LittleEndian.bytes) else none := by
  induction fields generalizing done with
  | nil => simp
  | cons f fields ih =>
    by_cases hf : f.Fits
    · have hnext : LittleEndian.Placed (done ++ f.bytes).length fields := by
        simpa [LittleEndian.bytes] using h.2
      simp [LittleEndian.write, hf, h.1, ih hnext]
    · simp [LittleEndian.write, hf]

theorem record_eq (h : LittleEndian.Placed 0 fields) : record fields =
    if ∀ f ∈ fields, f.Fits then some (fields.flatMap LittleEndian.bytes) else none :=
  @write_all fields [] h

theorem readFields_append (h : ∀ f ∈ fields, f.Fits) (rest : Bytes) :
    readFields (fields.map LittleEndian.width) (fields.flatMap LittleEndian.bytes ++ rest) =
      fields.map LittleEndian.value := by
  induction fields with
  | nil => rfl
  | cons f fields ih =>
    have hlength : f.bytes.length = f.width := length_leBytes _ _
    rw [List.forall_mem_cons] at h
    rw [List.map_cons, List.map_cons, List.flatMap_cons, List.append_assoc, readFields,
      List.take_left' hlength, List.drop_left' hlength, ih h.2]
    exact congrArg (· :: _) (leValue_leBytes h.1)

end Kindred.Lib
