import Mathlib.Algebra.GroupWithZero.Nat
import Mathlib.Data.List.Basic

/-! What the REST engine uses of JavaScript's strings and numbers. -/

namespace Kindred.Rest

/-- The Unicode tables: `\p{L}` or `\p{N}`, which in ASCII are the letters and
the digits. -/
structure Unicode where
  letterOrNumber : Char → Bool
  ascii : ∀ c, c.val < 128 → letterOrNumber c = c.isAlphanum

def split (separator : Char) (s : String) : List String :=
  (s.toList.splitOn separator).map String.ofList

/-- The characters that `trim` takes off. -/
def isSpace (c : Char) : Bool :=
  c ∈ [' ', '\t', '\n', '\x0b', '\x0c', '\r', '\u00a0', '\u1680', '\u2028', '\u2029', '\u202f',
    '\u205f', '\u3000', '\ufeff'] || ('\u2000' ≤ c && c ≤ '\u200a')

def trim (s : String) : String :=
  .ofList ((s.toList.dropWhile isSpace).reverse.dropWhile isSpace).reverse

/-- `toLowerCase`, to compare with ASCII: the Kelvin sign is the one character
outside ASCII that becomes an ASCII letter. -/
def lower (s : String) : String :=
  s.map fun c => if c = '\u212a' then 'k' else c.toLower

/-- `"..."` -/
def inQuotes (s : String) : String := "\"" ++ s ++ "\""

/-- `includes` -/
def includes (s part : String) : Bool := s.toList.tails.any part.toList.isPrefixOf

/-- The digits after the first `marker` that has any. -/
def digitsAfter (marker s : String) : Option (List Char) :=
  s.toList.tails.findSome? fun cs =>
    if marker.toList.isPrefixOf cs then
      let digits := (cs.drop marker.length).takeWhile Char.isDigit
      if digits.isEmpty then none else some digits
    else none

def utf16Length (cs : List Char) : Nat :=
  (cs.map fun c => if c.val < 0x10000 then 1 else 2).sum

def hexDigit (c : Char) : Option Nat :=
  if '0' ≤ c ∧ c ≤ '9' then some (c.toNat - '0'.toNat)
  else if 'a' ≤ c ∧ c ≤ 'f' then some (c.toNat - 'a'.toNat + 10)
  else if 'A' ≤ c ∧ c ≤ 'F' then some (c.toNat - 'A'.toNat + 10)
  else none

def escapes : List Char → Option (List (Char ⊕ Nat))
  | [] => some []
  | '%' :: h :: l :: cs => do
    let h ← hexDigit h
    let l ← hexDigit l
    return .inr (16 * h + l) :: (← escapes cs)
  | '%' :: _ => none
  | c :: cs => do return .inl c :: (← escapes cs)

def utf8Char (lowest lead : Nat) (trail : List Nat) : Option Char :=
  if trail.all fun b => 0x80 ≤ b ∧ b < 0xC0 then
    let n := trail.foldl (fun n b => 64 * n + (b - 0x80)) lead
    if h : lowest ≤ n ∧ n.isValidChar then some (Char.ofNatAux n h.2) else none
  else none

def decodeBytes : List (Char ⊕ Nat) → Option (List Char)
  | [] => some []
  | .inl c :: cs => do return c :: (← decodeBytes cs)
  | .inr a :: cs =>
    if a < 0x80 then do return Char.ofNat a :: (← decodeBytes cs)
    else if 0xC0 ≤ a ∧ a < 0xE0 then
      match cs with
      | .inr b :: cs => do return (← utf8Char 0x80 (a - 0xC0) [b]) :: (← decodeBytes cs)
      | _ => none
    else if 0xE0 ≤ a ∧ a < 0xF0 then
      match cs with
      | .inr b :: .inr c :: cs => do
        return (← utf8Char 0x800 (a - 0xE0) [b, c]) :: (← decodeBytes cs)
      | _ => none
    else if 0xF0 ≤ a ∧ a < 0xF8 then
      match cs with
      | .inr b :: .inr c :: .inr d :: cs => do
        return (← utf8Char 0x10000 (a - 0xF0) [b, c, d]) :: (← decodeBytes cs)
      | _ => none
    else none

/-- `none` is a `URIError`. -/
def decodeURIComponent (s : String) : Option String := do
  return .ofList (← decodeBytes (← escapes s.toList))

/-- `Number` of digits. -/
def digitsValue (digits : List Char) : ℕ :=
  digits.foldl (fun n c => 10 * n + (c.toNat - '0'.toNat)) 0

/-- `Number` of digits that say `n`: the nearest double, ties to even; `none` is
`Infinity`. -/
def nearestDouble (n : ℕ) : Option ℕ :=
  let e := n.log2 + 1 - 53
  let q := n / 2 ^ e
  let r := 2 * (n % 2 ^ e)
  let m := if 2 ^ e < r ∨ (r = 2 ^ e ∧ q % 2 = 1) then q + 1 else q
  if m * 2 ^ e < 2 ^ 1024 then some (m * 2 ^ e) else none

/-- The integer with the fewest significant digits whose nearest double is `d`. -/
def shortestDecimal (d : ℕ) : ℕ :=
  let n := (toString d).length
  let found := (List.range n).findSome? fun i =>
    let unit := 10 ^ (n - (i + 1))
    let below := d / unit * unit
    match decide (nearestDouble below = some d), decide (nearestDouble (below + unit) = some d) with
    | true, true => some (if below + unit - d < d - below then below + unit else below)
    | true, false => some below
    | false, true => some (below + unit)
    | false, false => none
  found.getD d

inductive JsNumber where
  | finite (n : ℕ)
  | infinity

def JsNumber.ofNat (n : ℕ) : JsNumber :=
  match nearestDouble n with
  | some d => finite d
  | none => infinity

/-- `Math.min` -/
def JsNumber.min : JsNumber → JsNumber → JsNumber
  | finite m, finite n => finite (m.min n)
  | infinity, x => x
  | x, infinity => x

def exponentText (n : ℕ) : String :=
  let digits := toString n
  let significant := (digits.toList.reverse.dropWhile (· = '0')).reverse
  let point := if significant.length = 1 then "" else "."
  .ofList (significant.take 1) ++ point ++ .ofList (significant.drop 1) ++ "e+" ++
    toString (digits.length - 1)

def JsNumber.text : JsNumber → String
  | infinity => "Infinity"
  | finite d =>
    let n := shortestDecimal d
    if n < 10 ^ 21 then toString n else exponentText n

example : (JsNumber.ofNat 1000000000000000000000).text = "1e+21" := by decide +kernel
example : (JsNumber.ofNat 12345678901234567890).text = "12345678901234567000" := by decide +kernel
example : decodeURIComponent "a%C3%A9" = some "aé" := by decide +kernel

end Kindred.Rest
