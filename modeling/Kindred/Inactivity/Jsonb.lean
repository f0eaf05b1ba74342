import Kindred.Database
import Kindred.Rest.Text

/-!
`jsonb` values as PostgreSQL prints them and as JavaScript turns them into
strings and booleans.
-/

namespace Kindred.Inactivity

/-- A `jsonb` value; a number is `mantissa / 10 ^ scale`. -/
inductive Jsonb where
  | null
  | bool (b : Bool)
  | number (mantissa : Int) (scale : ℕ)
  | string (s : String)
  | array (items : List Jsonb)
  | object (fields : List (String × Jsonb))

/-- How JavaScript prints a number: digits, a sign, or `Infinity`. -/
structure Doubles where
  text : Int → ℕ → String
  numeral : ∀ m s, ∃ c cs, (text m s).toList = c :: cs ∧ c ∈ "-0123456789I".toList

def boolText (b : Bool) : String := if b then "true" else "false"

def joined (separator : String) (parts : List String) : String :=
  .ofList (separator.toList.intercalate (parts.map String.toList))

def numericText (mantissa : Int) (scale : ℕ) : String :=
  let digits := (pad (scale + 1) mantissa.natAbs).toList
  let whole := digits.length - scale
  .ofList ((if mantissa < 0 then ['-'] else []) ++ digits.take whole ++
    if scale = 0 then [] else '.' :: digits.drop whole)

def escaped (c : Char) : List Char :=
  if c = '"' ∨ c = '\\' then ['\\', c]
  else if c = '\x08' then ['\\', 'b']
  else if c = '\x0c' then ['\\', 'f']
  else if c = '\n' then ['\\', 'n']
  else if c = '\r' then ['\\', 'r']
  else if c = '\t' then ['\\', 't']
  else if c < ' ' then
    ['\\', 'u', '0', '0', Nat.digitChar (c.toNat / 16), Nat.digitChar (c.toNat % 16)]
  else [c]

def quoted (s : String) : String := .ofList ('"' :: s.toList.flatMap escaped ++ ['"'])

namespace Jsonb

mutual
/-- `v::text` -/
def text : Jsonb → String
  | null => "null"
  | bool b => boolText b
  | number m s => numericText m s
  | string s => quoted s
  | array items => "[" ++ joined ", " (texts items) ++ "]"
  | object fields => .ofList ('\x7b' :: (joined ", " (fieldTexts fields)).toList ++ ['\x7d'])

def texts : List Jsonb → List String
  | [] => []
  | v :: vs => v.text :: texts vs

def fieldTexts : List (String × Jsonb) → List String
  | [] => []
  | (key, v) :: fields => (quoted key ++ ": " ++ v.text) :: fieldTexts fields
end

def zeroDouble (mantissa : Int) (scale : ℕ) : Bool := mantissa.natAbs * 2 ^ 1075 ≤ 10 ^ scale

def hasToString (fields : List (String × Jsonb)) : Bool := fields.any (·.1 = "toString")

mutual
/-- `String(v)`. An object with a key `toString`, which is no function, is a
TypeError, also inside an array. -/
def jsText (d : Doubles) : Jsonb → Option String
  | null => some "null"
  | bool b => some (boolText b)
  | number m s => some (d.text m s)
  | string s => some s
  | array items => (elementTexts d items).map (joined ",")
  | object fields => if hasToString fields then none else some "[object Object]"

/-- The elements as `join` prints them. -/
def elementTexts (d : Doubles) : List Jsonb → Option (List String)
  | [] => some []
  | null :: vs => (elementTexts d vs).map ("" :: ·)
  | v :: vs => (jsText d v).bind fun t => (elementTexts d vs).map (t :: ·)
end

end Jsonb

/-- `->`: only an object has keys. JavaScript finds the same, as no string, number or array has a
property of the names that are read. -/
def field (metadata : Option Jsonb) (key : String) : Option Jsonb :=
  match metadata with
  | some (.object fields) => fields.lookup key
  | _ => none

/-- `coalesce(v #>> '{}', '')` -/
def sqlText : Option Jsonb → String
  | none | some .null => ""
  | some (.string s) => s
  | some v => v.text

/-- `coalesce(v, 'null') IN ('null', 'false', '0', '""')` -/
def sqlEmpty : Option Jsonb → Bool
  | none | some .null => true
  | some (.bool b) => !b
  | some (.number m _) => m = 0
  | some (.string s) => s = ""
  | _ => false

/-- `!!v` -/
def truthy : Option Jsonb → Bool
  | none | some .null => false
  | some (.bool b) => b
  | some (.number m s) => !Jsonb.zeroDouble m s
  | some (.string s) => s ≠ ""
  | _ => true

/-- `String(v ?? '')` -/
def jsString (d : Doubles) : Option Jsonb → Option String
  | none | some .null => some ""
  | some v => v.jsText d

def isString : Option Jsonb → Bool
  | some (.string _) => true
  | _ => false

def isTrue : Option Jsonb → Bool
  | some (.bool b) => b
  | _ => false

def arrayLength : Option Jsonb → ℕ
  | some (.array items) => items.length
  | _ => 0

namespace Jsonb

mutual
/-- No object with a key `toString`, in arrays neither. -/
def printable : Jsonb → Bool
  | array items => allPrintable items
  | object fields => !hasToString fields
  | _ => true

def allPrintable : List Jsonb → Bool
  | [] => true
  | v :: vs => v.printable && allPrintable vs
end

def spells (word : String) : Jsonb → Bool
  | bool b => boolText b = word
  | string s => s = word
  | _ => false

mutual
def wraps (word : String) : Jsonb → Bool
  | array items => oneSpells word items
  | _ => false

def oneSpells (word : String) : List Jsonb → Bool
  | [v] => v.spells word || v.wraps word
  | _ => false
end

end Jsonb

namespace Jsonb

/-- An element as `join` prints it. -/
def elementText (d : Doubles) : Jsonb → Option String
  | null => some ""
  | v => v.jsText d

theorem elementTexts_cons (d : Doubles) (v : Jsonb) (vs : List Jsonb) : elementTexts d (v :: vs) =
      (elementText d v).bind fun t => (elementTexts d vs).map (t :: ·) := by
  cases v <;> rfl

theorem elementText_isSome (d : Doubles) (v : Jsonb) :
    (elementText d v).isSome = (v.jsText d).isSome := by
  cases v <;> rfl

mutual
theorem jsText_isSome (d : Doubles) : ∀ v : Jsonb, (v.jsText d).isSome = v.printable
  | null | bool _ | number _ _ | string _ => rfl
  | array items => by simp [jsText, printable, elementTexts_isSome d items]
  | object fields => by
    simp only [jsText, printable]
    cases hasToString fields <;> rfl

theorem elementTexts_isSome (d : Doubles) :
    ∀ vs : List Jsonb, (elementTexts d vs).isSome = allPrintable vs
  | [] => rfl
  | v :: vs => by
    rw [allPrintable, ← jsText_isSome d v, ← elementTexts_isSome d vs, ← elementText_isSome,
      elementTexts_cons]
    cases elementText d v <;> cases elementTexts d vs <;> rfl
end

def Word (w : String) : Prop := w = "true" ∨ w = "failed"

theorem joined_comma {a b : String} {rest : List String} {w : String} (hw : Word w) :
    joined "," (a :: b :: rest) ≠ w := by
  intro h
  have hmem : ',' ∈ w.toList := by
    rw [← h]
    simp [joined, List.intercalate_cons_cons]
  rcases hw with rfl | rfl <;> simp at hmem

theorem joined_one (separator a : String) : joined separator [a] = a := by
  simp [joined, List.intercalate_singleton]

theorem numeral_ne {w : String} (hw : Word w) (d : Doubles) (m : Int) (s : ℕ) : d.text m s ≠ w := by
  obtain ⟨c, cs, hcs, hc⟩ := d.numeral m s
  intro h
  rw [h] at hcs
  rcases hw with rfl | rfl <;> simp at hcs <;> simp [← hcs.1] at hc

mutual
theorem jsText_eq {w : String} (hw : Word w) (d : Doubles) :
    ∀ v : Jsonb, v.jsText d = some w ↔ v.spells w ∨ v.wraps w
  | null => by rcases hw with rfl | rfl <;> simp [jsText, spells, wraps]
  | bool b => by simp [jsText, spells, wraps]
  | number m s => by simp [jsText, spells, wraps, numeral_ne hw]
  | string s => by simp [jsText, spells, wraps]
  | array items => by
    simp only [jsText, elementTexts_eq hw d items, spells, wraps]
    simp
  | object fields => by
    rcases hw with rfl | rfl <;> cases h : hasToString fields <;> simp [jsText, spells, wraps, h]

theorem elementTexts_eq {w : String} (hw : Word w) (d : Doubles) :
    ∀ vs : List Jsonb, (elementTexts d vs).map (joined ",") = some w ↔ oneSpells w vs
  | [] => by rcases hw with rfl | rfl <;> simp [elementTexts, oneSpells, joined]
  | [v] => by
    have hv := jsText_eq hw d v
    have hnull : elementText d v = some w ↔ v.jsText d = some w := by
      cases v <;> simp only [elementText, jsText]
      rcases hw with rfl | rfl <;> decide
    rw [← hnull] at hv
    simp only [elementTexts_cons, oneSpells, Bool.or_eq_true, ← hv]
    cases elementText d v <;> simp [elementTexts, joined_one]
  | v :: v' :: vs => by
    simp only [elementTexts_cons, oneSpells]
    cases elementText d v <;> cases elementText d v' <;> cases elementTexts d vs <;>
      simp [joined_comma hw]
end

end Jsonb

open Jsonb (Word)

theorem numericText_chars (m : Int) (s : ℕ) :
    ∀ c ∈ (numericText m s).toList, c.isDigit ∨ c = '-' ∨ c = '.' := by
  have hdigit : ∀ c ∈ (pad (s + 1) m.natAbs).toList, c.isDigit := by
    intro c hc
    simp only [pad, String.toList_append, String.toList_ofList, List.mem_append] at hc
    rcases hc with hc | hc
    · rw [List.eq_of_mem_replicate hc]
      rfl
    · exact Nat.isDigit_of_mem_toDigits (b := 10) (by decide) (by decide) (by simpa using hc)
  intro c hc
  simp only [numericText, String.toList_ofList, List.mem_append] at hc
  rcases hc with (hc | hc) | hc
  · split at hc <;> simp_all
  · exact .inl (hdigit c (List.mem_of_mem_take hc))
  · split at hc
    · simp at hc
    · rcases List.mem_cons.mp hc with hc | hc
      · exact .inr (.inr hc)
      · exact .inl (hdigit c (List.mem_of_mem_drop hc))

theorem numericText_ne {w : String} (hw : Word w) (m : Int) (s : ℕ) : numericText m s ≠ w := by
  have hchars := numericText_chars m s
  intro h
  rw [h] at hchars
  rcases hw with rfl | rfl
  · exact absurd (hchars 't' (by decide)) (by decide)
  · exact absurd (hchars 'f' (by decide)) (by decide)

theorem sqlText_eq {w : String} (hw : Word w) (o : Option Jsonb) :
    sqlText o = w ↔ o.any (·.spells w) := by
  rcases o with _ | v
  · rcases hw with rfl | rfl <;> simp [sqlText]
  cases v with
  | null => rcases hw with rfl | rfl <;> simp [sqlText, Jsonb.spells]
  | bool b => simp [sqlText, Jsonb.text, Jsonb.spells]
  | number m s => simp [sqlText, Jsonb.text, Jsonb.spells, numericText_ne hw]
  | string s => simp [sqlText, Jsonb.spells]
  | array items =>
    simp only [sqlText, Jsonb.text, Option.any_some, Jsonb.spells]
    rcases hw with rfl | rfl <;> simp [← String.toList_inj]
  | object fields =>
    simp only [sqlText, Jsonb.text, Option.any_some, Jsonb.spells]
    rcases hw with rfl | rfl <;> simp [← String.toList_inj]

theorem jsString_eq {w : String} (hw : Word w) (d : Doubles) (o : Option Jsonb) :
    jsString d o = some w ↔ o.any (·.spells w) ∨ o.any (·.wraps w) := by
  rcases o with _ | v
  · rcases hw with rfl | rfl <;> simp [jsString]
  have hv := Jsonb.jsText_eq hw d v
  cases v with
  | null => rcases hw with rfl | rfl <;> simp [jsString, Jsonb.spells, Jsonb.wraps]
  | bool _ | number _ _ | string _ | array _ | object _ => simpa [jsString] using hv

theorem jsString_isSome (d : Doubles) (o : Option Jsonb) :
    (jsString d o).isSome = o.all (·.printable) := by
  rcases o with _ | v
  · rfl
  have hv := Jsonb.jsText_isSome d v
  cases v with
  | null => rfl
  | bool _ | number _ _ | string _ | array _ | object _ => simpa [jsString] using hv

theorem zeroDouble_zero (s : ℕ) : Jsonb.zeroDouble 0 s = true := by
  refine decide_eq_true ?_
  rw [Int.natAbs_zero, Nat.zero_mul]
  exact Nat.zero_le _

def tiny : Option Jsonb → Bool
  | some (.number m s) => m ≠ 0 && Jsonb.zeroDouble m s
  | _ => false

theorem sqlEmpty_eq (o : Option Jsonb) : sqlEmpty o = (!truthy o && !tiny o) := by
  rcases o with _ | v
  · rfl
  cases v with
  | number m s =>
    by_cases hm : m = 0
    · simp [sqlEmpty, truthy, tiny, hm, zeroDouble_zero]
    · cases h : Jsonb.zeroDouble m s <;> simp [sqlEmpty, truthy, tiny, hm, h]
  | string s => by_cases h : s = "" <;> simp [sqlEmpty, truthy, tiny, h]
  | null | bool _ | array _ | object _ => simp [sqlEmpty, truthy, tiny]

theorem not_truthy_of_tiny {o : Option Jsonb} (h : tiny o) : truthy o = false := by
  rcases o with _ | v
  · rfl
  cases v <;> simp_all [tiny, truthy]

end Kindred.Inactivity
