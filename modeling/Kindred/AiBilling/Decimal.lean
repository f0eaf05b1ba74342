import Kindred.AiBilling.RunContext
import Kindred.Lib.Digits
import Kindred.Rest.Text

/-! Amounts as decimal strings and as integers scaled by `scaleFactor`. -/

namespace Kindred.AiBilling
open Lib (truncated digitsVal pointed truncated_pointed truncated_neg pointed_move digitsVal_leading digitsVal_zeros)

def SCALE : ℕ := 12

def MAX_EXPONENT : ℕ := 400

def minus : List Char → Bool × List Char
  | '-' :: cs => (true, cs)
  | cs => (false, cs)

/-- `\.\d*`, as far as it goes. -/
def pointDigits : List Char → List Char × List Char
  | '.' :: cs => (cs.takeWhile Char.isDigit, cs.dropWhile Char.isDigit)
  | cs => ([], cs)

/-- `/^-?\d*(\.\d*)?$/` -/
def isPlain (s : List Char) : Bool :=
  (pointDigits ((minus s).2.dropWhile Char.isDigit)).2.isEmpty

/-- `Number` of `[+-]?\d+`. Digits beyond those that a double holds say more than any exponent
that is let through. -/
def exponent : List Char → Option Int
  | '+' :: ds => if ds.isEmpty || !ds.all Char.isDigit then none else some (digitsVal ds)
  | '-' :: ds => if ds.isEmpty || !ds.all Char.isDigit then none else some (-digitsVal ds)
  | ds => if ds.isEmpty || !ds.all Char.isDigit then none else some (digitsVal ds)

def movePoint (digits : List Char) (point : Int) : List Char :=
  if point ≤ 0 then '0' :: '.' :: (List.replicate (-point).toNat '0' ++ digits)
  else if digits.length ≤ point.toNat then
    digits ++ List.replicate (point.toNat - digits.length) '0'
  else digits.take point.toNat ++ '.' :: digits.drop point.toNat

/-- `/^(-?)(\d+)(?:\.(\d*))?[eE]([+-]?\d+)$/`, in plain notation. -/
def expandExponent (s : List Char) : Option (List Char) :=
  let (negative, body) := minus s
  let intPart := body.takeWhile Char.isDigit
  let (frac, rest) := pointDigits (body.dropWhile Char.isDigit)
  match intPart, rest with
  | [], _ => none
  | _, e :: expRaw =>
    if e = 'e' ∨ e = 'E' then
      (exponent expRaw).bind fun exp =>
        if MAX_EXPONENT < exp.natAbs then none
        else
          let plain := movePoint (intPart ++ frac) (intPart.length + exp)
          some (if negative then '-' :: plain else plain)
    else none
  | _, [] => none

def scaled (s : List Char) : Int :=
  let (negative, body) := minus s
  let intPart := body.takeWhile (· ≠ '.')
  let fracRaw := ((body.dropWhile (· ≠ '.')).drop 1).takeWhile (· ≠ '.')
  let frac := (fracRaw ++ List.replicate SCALE '0').take SCALE
  let v : Int := digitsVal intPart * scaleFactor + digitsVal frac
  if negative then -v else v

/-- `none` is `null` and `undefined`; a number comes as its `String`. -/
def fromString (value : Option String) : Except String Int :=
  match value with
  | none => .ok 0
  | some value =>
    let s := (Rest.trim value).toList
    if isPlain s then .ok (scaled s)
    else
      match expandExponent s with
      | none => .error ("invalid_decimal:" ++ String.ofList s)
      | some plain => .ok (scaled plain)

/-- `replace(/0+$/, '')` -/
def dropZeros (cs : List Char) : List Char := (cs.reverse.dropWhile (· = '0')).reverse

/-- A number in `width` digits. -/
def padStart (width n : ℕ) : List Char :=
  let digits := Nat.toDigits 10 n
  List.replicate (width - digits.length) '0' ++ digits

/-- `toString` -/
def decToString (v : Int) : String :=
  let abs := v.natAbs
  let int := Nat.toDigits 10 (abs / scaleFactor.natAbs)
  let frac := dropZeros (padStart SCALE (abs % scaleFactor.natAbs))
  let plain := int ++ if frac.isEmpty then [] else '.' :: frac
  .ofList (if v < 0 then '-' :: plain else plain)

example : fromString (some "8.8e-7") = .ok 880000 := by decide +kernel
example : decToString (-1500000000000) = "-1.5" := by decide +kernel

/-- The parts of a numeral; of the exponent its letter, whether a sign says that it is negative,
and its digits. -/
structure Numeral where
  negative : Bool
  int : List Char
  frac : Option (List Char)
  exp : Option (Char × Option Bool × List Char)

def signed (negative : Bool) (cs : List Char) : List Char := if negative then '-' :: cs else cs

def plainText (int : List Char) (frac : Option (List Char)) : List Char :=
  int ++ frac.elim [] ('.' :: ·)

def exponentText : Option Bool × List Char → List Char
  | (none, ds) => ds
  | (some negative, ds) => (if negative then '-' else '+') :: ds

def exponentValue : Option Bool × List Char → Int
  | (some true, ds) => -digitsVal ds
  | (_, ds) => digitsVal ds

namespace Numeral

def text (n : Numeral) : List Char :=
  signed n.negative (plainText n.int n.frac ++ n.exp.elim [] fun e => e.1 :: exponentText e.2)

/-- The number itself. -/
def value (n : Numeral) : ℚ :=
  (if n.negative then -1 else 1) *
    (pointed n.int (n.frac.getD []) * 10 ^ n.exp.elim 0 fun e => exponentValue e.2)

/-- What the parser lets through: a numeral with an exponent has digits before its point. -/
structure Accepted (n : Numeral) : Prop where
  int : n.int.all Char.isDigit
  frac : (n.frac.getD []).all Char.isDigit
  exp : ∀ e, n.exp = some e → (e.1 = 'e' ∨ e.1 = 'E') ∧ n.int ≠ [] ∧ e.2.2 ≠ [] ∧
    e.2.2.all Char.isDigit ∧ (exponentValue e.2).natAbs ≤ MAX_EXPONENT

end Numeral

variable {cs ds rest int s : List Char} {c : Char} {value : String}

section Plain

theorem signed_minus (s : List Char) : signed (minus s).1 (minus s).2 = s := by
  unfold minus
  split <;> rfl

theorem minus_signed (negative : Bool) (h : cs.head? ≠ some '-') :
    minus (signed negative cs) = (negative, cs) := by
  cases negative with
  | true => rfl
  | false =>
    cases cs with
    | nil => rfl
    | cons c cs =>
      have hc : c ≠ '-' := fun heq => h (congrArg some heq)
      unfold minus
      split
      · rename_i heq
        exact absurd (List.cons.inj heq).1 hc
      · rfl

theorem span_digits {p : Char → Bool} (hds : ds.all p) (hrest : rest.head?.all (!p ·)) :
    (ds ++ rest).takeWhile p = ds ∧ (ds ++ rest).dropWhile p = rest := by
  rw [List.all_eq_true] at hds
  rw [List.takeWhile_append_of_pos hds, List.dropWhile_append_of_pos hds]
  cases rest with
  | nil => simp
  | cons c cs =>
    have hc : p c = false := by simpa using hrest
    simp [hc]

theorem head_dropDigits (cs : List Char) :
    (cs.dropWhile Char.isDigit).head?.all (!Char.isDigit ·) := by
  have h := List.head?_dropWhile_not Char.isDigit cs
  cases hhead : (cs.dropWhile Char.isDigit).head? with
  | none => rfl
  | some c =>
    rw [hhead] at h
    simpa using h

theorem digit_ne (h : c.isDigit = true) : c ≠ '.' ∧ c ≠ '-' ∧ c ≠ 'e' ∧ c ≠ 'E' := by
  refine ⟨?_, ?_, ?_, ?_⟩ <;> rintro rfl <;> revert h <;> decide

theorem noPoint (h : ds.all Char.isDigit) : ds.all (· ≠ '.') := by
  rw [List.all_eq_true] at h ⊢
  exact fun c hc => decide_eq_true (digit_ne (h c hc)).1

variable {frac : Option (List Char)}

theorem head_plainText (rest : List Char) (hint : int.all Char.isDigit)
    (hrest : rest.head? ≠ some '-') : (plainText int frac ++ rest).head? ≠ some '-' := by
  cases int with
  | nil => cases frac <;> simp [plainText, hrest]
  | cons c int =>
    rw [List.all_cons, Bool.and_eq_true] at hint
    simpa [plainText] using (digit_ne hint.1).2.1

theorem scaled_plainText (negative : Bool) (hint : int.all Char.isDigit)
    (hfrac : (frac.getD []).all Char.isDigit) : scaled (signed negative (plainText int frac)) =
      truncated ((if negative then -1 else 1) * pointed int (frac.getD []) * 10 ^ SCALE) := by
  have hhead : (plainText int frac).head? ≠ some '-' := by
    simpa using head_plainText [] hint (by simp)
  have hrest : (frac.elim [] ('.' :: ·)).head?.all (fun c => !decide (c ≠ '.')) := by
    cases frac <;> simp
  obtain ⟨htake, hdrop⟩ := span_digits (p := (· ≠ '.')) (noPoint hint) hrest
  have hraw : ((frac.elim [] ('.' :: ·)).drop 1).takeWhile (fun c => decide (c ≠ '.')) =
      frac.getD [] := by
    cases frac with
    | none => rfl
    | some ds =>
      have hspan := (span_digits (noPoint hfrac) (rfl : ([] : List Char).head?.all _ = true)).1
      simpa using hspan
  have hvalue : truncated (pointed int (frac.getD []) * 10 ^ SCALE) = _ :=
    truncated_pointed hfrac SCALE
  have hscale : (scaleFactor : Int) = 10 ^ SCALE := by decide
  unfold scaled
  rw [minus_signed negative hhead]
  simp only [plainText]
  rw [htake, hdrop, hraw, hscale]
  cases negative with
  | false =>
    simp only [Bool.false_eq_true, if_false, one_mul]
    rw [hvalue]
    push_cast
    rfl
  | true =>
    simp only [if_true]
    rw [neg_one_mul, neg_mul, truncated_neg, hvalue]
    push_cast
    rfl

theorem pointDigits_text (hfrac : (frac.getD []).all Char.isDigit)
    (hrest : rest.head?.all (!Char.isDigit ·)) (hpoint : rest.head? ≠ some '.') :
    pointDigits (frac.elim [] ('.' :: ·) ++ rest) = (frac.getD [], rest) := by
  cases frac with
  | some ds =>
    obtain ⟨htake, hdrop⟩ := span_digits (show ds.all Char.isDigit from hfrac) hrest
    simp only [Option.elim_some, Option.getD_some, List.cons_append, pointDigits]
    rw [htake, hdrop]
  | none =>
    simp only [Option.elim_none, List.nil_append, Option.getD_none]
    unfold pointDigits
    split
    · exact absurd rfl hpoint
    · rfl

theorem parts_plainText (hint : int.all Char.isDigit) (hfrac : (frac.getD []).all Char.isDigit)
    (hrest : rest.head?.all (!Char.isDigit ·)) (hpoint : rest.head? ≠ some '.') :
    (plainText int frac ++ rest).takeWhile Char.isDigit = int ∧
      pointDigits ((plainText int frac ++ rest).dropWhile Char.isDigit) = (frac.getD [], rest) := by
  have hnext : (frac.elim [] ('.' :: ·) ++ rest).head?.all (!Char.isDigit ·) := by
    cases frac with
    | none => simpa using hrest
    | some ds => rfl
  unfold plainText
  rw [List.append_assoc]
  obtain ⟨htake, hdrop⟩ := span_digits hint hnext
  rw [htake, hdrop, pointDigits_text hfrac hrest hpoint]
  exact ⟨rfl, rfl⟩

theorem pointDigits_eq (h : cs.head?.all (!Char.isDigit ·)) :
    ∃ frac : Option (List Char), frac.getD [] = (pointDigits cs).1 ∧
      cs = frac.elim [] ('.' :: ·) ++ (pointDigits cs).2 ∧
      (pointDigits cs).1.all Char.isDigit ∧ (pointDigits cs).2.head?.all (!Char.isDigit ·) := by
  unfold pointDigits
  split
  · rename_i ds
    refine ⟨some (ds.takeWhile Char.isDigit), rfl, ?_, ?_, ?_⟩
    · simp [List.takeWhile_append_dropWhile]
    · simp [List.all_takeWhile]
    · exact head_dropDigits ds
  · exact ⟨none, rfl, rfl, rfl, h⟩

end Plain

section Exponents

/-- The digits are the same, and the point has moved by the exponent. -/
theorem movePoint_eq {frac : List Char} (hint : int.all Char.isDigit)
    (hfrac : frac.all Char.isDigit) (exp : Int) : ∃ (int' : List Char) (frac' : Option (List Char)),
      movePoint (int ++ frac) (int.length + exp) = plainText int' frac' ∧
        int'.all Char.isDigit ∧ (frac'.getD []).all Char.isDigit ∧
        pointed int' (frac'.getD []) = pointed int frac * 10 ^ exp := by
  have hdigits : (int ++ frac).all Char.isDigit := by rw [List.all_append, hint, hfrac]; rfl
  have hzeros (n : ℕ) : (List.replicate n '0').all Char.isDigit := by
    rw [List.all_eq_true]
    intro c hc
    rw [List.eq_of_mem_replicate hc]
    rfl
  unfold movePoint
  split
  · rename_i hpoint
    refine ⟨['0'], some (List.replicate (-(int.length + exp)).toNat '0' ++ (int ++ frac)), rfl,
      rfl, ?_, ?_⟩
    · simp only [Option.getD_some, List.all_append, hzeros, hint, hfrac, Bool.and_self]
    · refine pointed_move 0 ?_ ?_
      · exact (digitsVal_leading (int ++ frac) _).trans (Nat.mul_one _).symm
      · simp only [Option.getD_some, List.length_append, List.length_replicate]
        omega
  · rename_i hpoint
    split
    · rename_i hlength
      refine ⟨_, none, (List.append_nil _).symm, ?_, rfl, ?_⟩
      · rw [List.all_append, hdigits, hzeros]
        rfl
      · refine pointed_move ((int.length + exp).toNat - (int ++ frac).length) ?_ ?_
        · rw [Option.getD_none, List.append_nil, digitsVal_zeros]
        · simp only [Option.getD_none, List.length_nil, List.length_append] at hlength ⊢
          omega
    · rename_i hlength
      refine ⟨_, some _, rfl, ?_, ?_, ?_⟩
      · rw [List.all_eq_true] at hdigits ⊢
        exact fun c hc => hdigits c (List.mem_of_mem_take hc)
      · rw [List.all_eq_true] at hdigits
        exact List.all_eq_true.mpr fun c hc => hdigits c (List.mem_of_mem_drop hc)
      · refine pointed_move 0 ?_ ?_
        · rw [Option.getD_some, List.take_append_drop, Nat.pow_zero, Nat.mul_one]
        · simp only [Option.getD_some, List.length_drop, List.length_append] at hlength ⊢
          omega

theorem exponent_text {e : Option Bool × List Char} (hne : e.2 ≠ [])
    (hdigits : e.2.all Char.isDigit) : exponent (exponentText e) = some (exponentValue e) := by
  obtain ⟨sign, ds⟩ := e
  have hempty : ds.isEmpty = false := by simpa using hne
  cases sign with
  | some negative => cases negative <;> simp_all [exponent, exponentText, exponentValue]
  | none =>
    cases ds with
    | nil => exact absurd rfl hne
    | cons d ds =>
      have hd : d.isDigit := by simp_all
      have hplus : d ≠ '+' := by
        rintro rfl
        revert hd
        decide
      simp only [exponent, exponentText, exponentValue]
      split
      · rename_i heq
        exact absurd (List.cons.inj heq).1 hplus
      · rename_i heq
        exact absurd (List.cons.inj heq).1 (digit_ne hd).2.1
      · simp_all

theorem exponent_eq {exp : Int} (h : exponent cs = some exp) :
    ∃ e : Option Bool × List Char, exponentText e = cs ∧ e.2 ≠ [] ∧ e.2.all Char.isDigit ∧
      exponentValue e = exp := by
  have hbody {ds : List Char} {x : Int} (h : (if ds.isEmpty || !ds.all Char.isDigit then none
      else some x) = some exp) : ds ≠ [] ∧ ds.all Char.isDigit ∧ x = exp := by
    split at h
    · cases h
    · rename_i hnot
      simp only [Bool.or_eq_true, not_or, Bool.not_eq_true', Bool.not_eq_false,
        List.isEmpty_iff] at hnot
      exact ⟨hnot.1, hnot.2, Option.some.inj h⟩
  unfold exponent at h
  split at h
  · exact ⟨(some false, _), rfl, hbody h⟩
  · exact ⟨(some true, _), rfl, hbody h⟩
  · exact ⟨(none, _), rfl, hbody h⟩

end Exponents

theorem expandExponent_isSome (h : (expandExponent s).isSome) :
    (minus s).2.takeWhile Char.isDigit ≠ [] ∧ ∃ letter expRaw exp,
      (pointDigits ((minus s).2.dropWhile Char.isDigit)).2 = letter :: expRaw ∧
        (letter = 'e' ∨ letter = 'E') ∧ exponent expRaw = some exp ∧ exp.natAbs ≤ MAX_EXPONENT := by
  unfold expandExponent at h
  cases hminus : minus s with
  | mk negative body =>
    cases hpoint : pointDigits (body.dropWhile Char.isDigit) with
    | mk frac rest =>
      simp only [hminus, hpoint] at h
      split at h
      · cases h
      · rename_i letter expRaw hint
        refine ⟨hint, letter, expRaw, ?_⟩
        split at h
        · rename_i hletter
          cases hexp : exponent expRaw with
          | none => simp [hexp] at h
          | some exp =>
            refine ⟨exp, rfl, hletter, rfl, Nat.le_of_not_lt fun hlt => ?_⟩
            simp [hexp, hlt] at h
        · cases h
      · cases h

namespace Numeral
variable {n : Numeral}

def tail (n : Numeral) : List Char := n.exp.elim [] fun e => e.1 :: exponentText e.2

theorem Accepted.tail_head (h : n.Accepted) : n.tail.head?.all (!Char.isDigit ·) ∧
    n.tail.head? ≠ some '.' ∧ n.tail.head? ≠ some '-' := by
  unfold tail
  cases hexp : n.exp with
  | none => simp
  | some e =>
    obtain ⟨hletter | hletter, -⟩ := h.exp e hexp <;> simp [hletter, Char.isDigit]

theorem Accepted.parts (h : n.Accepted) : (minus n.text).1 = n.negative ∧
    (minus n.text).2.takeWhile Char.isDigit = n.int ∧
    pointDigits ((minus n.text).2.dropWhile Char.isDigit) = (n.frac.getD [], n.tail) := by
  obtain ⟨hdigit, hpoint, hminus⟩ := h.tail_head
  have hsplit : minus n.text = (n.negative, plainText n.int n.frac ++ n.tail) :=
    minus_signed n.negative (head_plainText n.tail h.int hminus)
  rw [hsplit]
  exact ⟨rfl, parts_plainText h.int h.frac hdigit hpoint⟩

theorem Accepted.isPlain_text (h : n.Accepted) : isPlain n.text = n.tail.isEmpty := by
  rw [isPlain, h.parts.2.2]

theorem Accepted.scaled_text (h : n.Accepted) (hexp : n.exp = none) :
    scaled n.text = truncated (n.value * 10 ^ SCALE) := by
  have htext : n.text = signed n.negative (plainText n.int n.frac) := by
    simp [text, hexp]
  rw [htext, scaled_plainText n.negative h.int h.frac, value, hexp]
  simp

theorem Accepted.expand_text (h : n.Accepted) {e : Char × Option Bool × List Char}
    (hexp : n.exp = some e) :
    ∃ plain : Numeral, plain.Accepted ∧ plain.exp = none ∧ plain.value = n.value ∧
      expandExponent n.text = some plain.text := by
  obtain ⟨hletter, hint, hne, hdigits, hmax⟩ := h.exp e hexp
  obtain ⟨int, frac, hmove, hint', hfrac', hvalue⟩ :=
    movePoint_eq h.int h.frac (exponentValue e.2)
  refine ⟨⟨n.negative, int, frac, none⟩, ⟨hint', hfrac', nofun⟩, rfl, ?_, ?_⟩
  · simp [value, hexp, hvalue]
  · obtain ⟨hnegative, htake, hparts⟩ := h.parts
    have htail : n.tail = e.1 :: exponentText e.2 := by simp [tail, hexp]
    have hsplit : minus n.text = (n.negative, (minus n.text).2) := Prod.ext hnegative rfl
    unfold expandExponent
    rw [hsplit]
    dsimp only
    rw [hparts, htake, htail]
    cases hdigit : n.int with
    | nil => exact absurd hdigit hint
    | cons c cs =>
      dsimp only
      rw [if_pos hletter, exponent_text hne hdigits, Option.bind_some,
        if_neg (Nat.not_lt.mpr hmax), ← hdigit, hmove]
      simp only [text, signed, Option.elim_none, List.append_nil]

theorem of_parsed (h : isPlain s ∨ (expandExponent s).isSome) :
    ∃ n : Numeral, n.Accepted ∧ n.text = s := by
  obtain ⟨frac, hfrac, htext, hdigits, hrest⟩ :=
    pointDigits_eq (head_dropDigits (minus s).2)
  have hbody : (minus s).2 = plainText ((minus s).2.takeWhile Char.isDigit) frac ++
      (pointDigits ((minus s).2.dropWhile Char.isDigit)).2 := by
    rw [plainText, List.append_assoc, ← htext, List.takeWhile_append_dropWhile]
  have hint : ((minus s).2.takeWhile Char.isDigit).all Char.isDigit := List.all_takeWhile
  rcases h with hplain | hexpand
  · refine ⟨⟨(minus s).1, _, frac, none⟩, ⟨hint, hfrac ▸ hdigits, nofun⟩, ?_⟩
    rw [isPlain, List.isEmpty_iff] at hplain
    rw [hplain] at hbody
    rw [text, Option.elim_none, ← hbody, signed_minus]
  · obtain ⟨hne, letter, expRaw, exp, htail, hletter, hexp, hmax⟩ := expandExponent_isSome hexpand
    obtain ⟨e, rfl, hdigits', hall, rfl⟩ := exponent_eq hexp
    refine ⟨⟨(minus s).1, _, frac, some (letter, e)⟩, ⟨hint, hfrac ▸ hdigits, ?_⟩, ?_⟩
    · rintro _ ⟨⟩
      exact ⟨hletter, hne, hdigits', hall, hmax⟩
    · rw [htail] at hbody
      rw [text, Option.elim_some, ← hbody, signed_minus]

theorem Accepted.fromString_text (h : n.Accepted) (htext : (Rest.trim value).toList = n.text) :
    fromString (some value) = .ok (truncated (n.value * 10 ^ SCALE)) := by
  unfold fromString
  dsimp only
  rw [htext, h.isPlain_text]
  cases hexp : n.exp with
  | none =>
    have htail : n.tail = [] := by simp [tail, hexp]
    rw [htail, if_pos (show ([] : List Char).isEmpty from rfl), h.scaled_text hexp]
  | some e =>
    have htail : n.tail = e.1 :: exponentText e.2 := by simp [tail, hexp]
    obtain ⟨plain, hplain, hnone, hvalue, hexpand⟩ := h.expand_text hexp
    rw [htail, if_neg (show ¬(e.1 :: exponentText e.2).isEmpty from nofun), hexpand]
    dsimp only
    rw [hplain.scaled_text hnone, hvalue]

end Numeral

theorem fromString_ok_iff {v : Int} : fromString (some value) = .ok v ↔ ∃ n : Numeral, n.Accepted ∧
      n.text = (Rest.trim value).toList ∧ v = truncated (n.value * 10 ^ SCALE) := by
  constructor
  · intro h
    have hparsed : isPlain (Rest.trim value).toList ∨
        (expandExponent (Rest.trim value).toList).isSome := by
      unfold fromString at h
      dsimp only at h
      split at h
      · rename_i hplain
        exact .inl hplain
      · split at h
        · cases h
        · rename_i hexpand
          exact .inr (by simp [hexpand])
    obtain ⟨n, hn, htext⟩ := Numeral.of_parsed hparsed
    rw [hn.fromString_text htext.symm] at h
    exact ⟨n, hn, htext, (Except.ok.inj h).symm⟩
  · rintro ⟨n, hn, htext, rfl⟩
    exact hn.fromString_text htext.symm

section RoundTrip

theorem trim_of_noSpace (h : cs.all (!Rest.isSpace ·)) : (Rest.trim (.ofList cs)).toList = cs := by
  have hdrop {ds : List Char} (hds : ds.all (!Rest.isSpace ·)) :
      ds.dropWhile Rest.isSpace = ds := by
    cases ds with
    | nil => rfl
    | cons d ds =>
      have hd : Rest.isSpace d = false := by simp_all
      simp [hd]
  have hreverse : cs.reverse.all (!Rest.isSpace ·) := by rwa [List.all_reverse]
  simp [Rest.trim, hdrop h, hdrop hreverse]

theorem dropZeros_append (cs : List Char) : ∃ n, dropZeros cs ++ List.replicate n '0' = cs := by
  refine ⟨(cs.reverse.takeWhile (· = '0')).length, ?_⟩
  have hzeros : cs.reverse.takeWhile (· = '0') =
      List.replicate (cs.reverse.takeWhile (· = '0')).length '0' := by
    rw [List.eq_replicate_iff]
    refine ⟨rfl, fun c hc => ?_⟩
    simpa using List.all_eq_true.mp List.all_takeWhile c hc
  have hsplit := List.takeWhile_append_dropWhile (p := (· = '0')) (l := cs.reverse)
  have hreverse := congrArg List.reverse hsplit
  rw [List.reverse_append, List.reverse_reverse] at hreverse
  rw [dropZeros, ← List.reverse_replicate, ← hzeros]
  exact hreverse

theorem take_dropZeros (cs : List Char) :
    (dropZeros cs ++ List.replicate cs.length '0').take cs.length = cs := by
  obtain ⟨n, hn⟩ := dropZeros_append cs
  have hlength : cs.length = n + (dropZeros cs).length := by
    rw [← congrArg List.length hn, List.length_append, List.length_replicate, Nat.add_comm]
  have hzeros : List.replicate cs.length '0' =
      List.replicate n '0' ++ List.replicate (dropZeros cs).length '0' := by
    rw [List.replicate_append_replicate, ← hlength]
  rw [hzeros, ← List.append_assoc, hn, List.take_left']
  rfl

theorem padStart_digits (width n : ℕ) : (padStart width n).all Char.isDigit := by
  rw [padStart, List.all_append, Bool.and_eq_true, List.all_eq_true, List.all_eq_true]
  refine ⟨fun c hc => ?_, fun c hc => Nat.isDigit_of_mem_toDigits (by decide) (by decide) hc⟩
  rw [List.eq_of_mem_replicate hc]
  rfl

theorem length_padStart {width n : ℕ} (h : n < 10 ^ width) (hpos : 0 < width) :
    (padStart width n).length = width := by
  have hle := (Nat.length_toDigits_le_iff (b := 10) (by decide) hpos).mpr h
  simp only [padStart, List.length_append, List.length_replicate]
  omega

theorem digitsVal_padStart (width n : ℕ) : digitsVal (padStart width n) = n := by
  rw [padStart, Lib.digitsVal_leading, Lib.digitsVal_toDigits]

/-- The parts of what `toString` writes. -/
def printed (v : Int) : Numeral where
  negative := v < 0
  int := Nat.toDigits 10 (v.natAbs / scaleFactor.natAbs)
  frac :=
    let frac := dropZeros (padStart SCALE (v.natAbs % scaleFactor.natAbs))
    if frac.isEmpty then none else some frac
  exp := none

theorem printed_frac (v : Int) : (printed v).frac.getD [] =
    dropZeros (padStart SCALE (v.natAbs % scaleFactor.natAbs)) := by
  simp only [printed]
  split
  · rename_i hempty
    exact (List.isEmpty_iff.mp hempty).symm
  · rfl

theorem printed_accepted (v : Int) : (printed v).Accepted where
  int := List.all_eq_true.mpr fun _ hc => Nat.isDigit_of_mem_toDigits (by decide) (by decide) hc
  frac := by
    obtain ⟨n, hn⟩ := dropZeros_append (padStart SCALE (v.natAbs % scaleFactor.natAbs))
    have hall := padStart_digits SCALE (v.natAbs % scaleFactor.natAbs)
    rw [← hn, List.all_append, Bool.and_eq_true] at hall
    rw [printed_frac]
    exact hall.1
  exp := nofun

theorem printed_text (v : Int) : (printed v).text = (decToString v).toList := by
  simp only [Numeral.text, printed, decToString, plainText, signed, Option.elim_none,
    List.append_nil, String.toList_ofList, decide_eq_true_eq]
  cases hfrac : dropZeros (padStart SCALE (v.natAbs % scaleFactor.natAbs)) <;> simp

theorem digit_noSpace (h : c.isDigit = true) : Rest.isSpace c = false := by
  simp only [Char.isDigit, Bool.and_eq_true, decide_eq_true_eq] at h
  have hle : 48 ≤ c.toNat ∧ c.toNat ≤ 57 := h
  rw [← Char.ofNat_toNat c]
  generalize c.toNat = m at hle
  obtain ⟨hlow, hhigh⟩ := hle
  interval_cases m <;> decide

theorem text_noSpace {n : Numeral} (h : n.Accepted) (hexp : n.exp = none) :
    n.text.all (!Rest.isSpace ·) := by
  have hdigit {cs : List Char} (hcs : cs.all Char.isDigit) : cs.all (!Rest.isSpace ·) := by
    rw [List.all_eq_true] at hcs ⊢
    exact fun c hc => by rw [digit_noSpace (hcs c hc)]; rfl
  have hpoint : (n.frac.elim [] ('.' :: ·)).all (!Rest.isSpace ·) := by
    cases hfrac : n.frac with
    | none => rfl
    | some ds =>
      have hds := hdigit h.frac
      rw [hfrac] at hds
      exact Bool.and_eq_true_iff.mpr ⟨by decide, hds⟩
  rw [Numeral.text, hexp, Option.elim_none, List.append_nil, plainText, signed]
  split
  · rw [List.all_cons, List.all_append, hdigit h.int, hpoint]
    decide
  · rw [List.all_append, hdigit h.int, hpoint]
    rfl

theorem truncated_printed (v : Int) : truncated ((printed v).value * 10 ^ SCALE) = v := by
  have hscale : scaleFactor.natAbs = 10 ^ SCALE := by decide
  have hlength : (padStart SCALE (v.natAbs % scaleFactor.natAbs)).length = SCALE :=
    length_padStart (hscale ▸ Nat.mod_lt _ (by decide)) (by decide)
  have htake := take_dropZeros (padStart SCALE (v.natAbs % scaleFactor.natAbs))
  rw [hlength, ← printed_frac] at htake
  have habs : truncated (pointed (printed v).int ((printed v).frac.getD []) * 10 ^ SCALE) =
      v.natAbs := by
    rw [truncated_pointed (printed_accepted v).frac, htake, digitsVal_padStart,
      show digitsVal (printed v).int = v.natAbs / scaleFactor.natAbs from
        Lib.digitsVal_toDigits _, ← hscale, Nat.mul_comm, Nat.div_add_mod]
  have hexp : (printed v).exp = none := rfl
  rw [Numeral.value, hexp, Option.elim_none, zpow_zero, mul_one]
  by_cases hneg : v < 0
  · have hsign : (printed v).negative = true := by simp [printed, hneg]
    rw [hsign, if_pos rfl, neg_one_mul, neg_mul, truncated_neg, habs]
    omega
  · have hsign : (printed v).negative = false := by simp [printed, hneg]
    rw [hsign, if_neg (by decide), one_mul, habs]
    omega

theorem fromString_decToString (v : Int) : fromString (some (decToString v)) = .ok v := by
  have haccepted := printed_accepted v
  have htext : (Rest.trim (decToString v)).toList = (printed v).text := by
    rw [← String.ofList_toList (s := decToString v), ← printed_text]
    exact trim_of_noSpace (text_noSpace haccepted rfl)
  rw [haccepted.fromString_text htext, truncated_printed]

end RoundTrip

/-- What is printed is read back, a numeral is read exactly and cut off after twelve digits, and
numerals that say the same are read alike. -/
theorem decimals_exact : (∀ v, fromString (some (decToString v)) = .ok v) ∧
    (∀ value v, fromString (some value) = .ok v ↔ ∃ n : Numeral, n.Accepted ∧
      n.text = (Rest.trim value).toList ∧ v = truncated (n.value * 10 ^ SCALE)) ∧
    ∀ n n' : Numeral, n.Accepted → n'.Accepted → n.value = n'.value →
      ∀ value value', (Rest.trim value).toList = n.text → (Rest.trim value').toList = n'.text →
        fromString (some value) = fromString (some value') := by
  refine ⟨fromString_decToString, fun _ _ => fromString_ok_iff, ?_⟩
  intro n n' hn hn' heq value value' htext htext'
  rw [hn.fromString_text htext, hn'.fromString_text htext', heq]

end Kindred.AiBilling
