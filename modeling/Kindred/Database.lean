import Kindred.Lib.Transaction
import Kindred.Lib.Table
import Kindred.Lib.Calendar

namespace Kindred
export Lib (Tx Table)

/-- A `uuid`. `gen_random_uuid()` is the next number not yet handed out. -/
abbrev Id := Nat

/-- A `timestamptz`: microseconds since 1970-01-01 UTC. -/
abbrev Timestamp := Int

def pad (width : Nat) (n : Nat) : String :=
  let digits := toString n
  String.ofList (List.replicate (width - digits.length) '0') ++ digits

/-- `to_char(t, 'YYYY-MM')` in UTC. -/
def monthText (t : Timestamp) : String :=
  let k := Lib.Calendar.monthOf (Lib.Calendar.dateOf t)
  pad 4 (k / 12).toNat ++ "-" ++ pad 2 (k % 12 + 1).toNat

def unaryText (id : Id) : String := String.ofList (List.replicate id 'x')

theorem unaryText_injective : Function.Injective unaryText := by
  intro m n h
  have hlength := congrArg List.length (String.ofList_injective h)
  simpa using hlength

example : monthText 1767225600000000 = "2026-01" := by decide

end Kindred
