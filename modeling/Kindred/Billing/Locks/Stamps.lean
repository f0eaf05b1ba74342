import Kindred.Inactivity.Stamps
import Kindred.Lib.Double
import Kindred.Rest.Text

/-!
The times rows are ranked by: a `timestamptz` with its infinities, the text in
which it reaches TypeScript, and what `tsMicros` reads of that text.
-/

namespace Kindred.Billing.Locks
open Lib (asDouble)
open Lib.Calendar
open Inactivity (fixed trimZeros fraction civil createdAtText FourDigitYear)
open Rest (digitsValue isSpace)

inductive Stamp where
  | negInfinity
  | finite (t : Timestamp)
  | infinity
  deriving DecidableEq

variable {a b : Timestamp} {w n m : ℕ} {s : String}

namespace Stamp

def place : Stamp → WithBot (WithTop Int)
  | negInfinity => ⊥
  | finite t => ((t : WithTop Int) : WithBot (WithTop Int))
  | infinity => ((⊤ : WithTop Int) : WithBot (WithTop Int))

theorem place_injective : Function.Injective place := by
  intro a b h
  cases a <;> cases b <;> simp_all [place]

instance : LinearOrder Stamp := LinearOrder.lift' place place_injective

@[simp] theorem finite_lt_finite : finite a < finite b ↔ a < b := by
  show place _ < place _ ↔ _
  simp [place]

theorem finite_le (h : a ≤ b) : finite a ≤ finite b :=
  not_lt.mp fun hlt => absurd (finite_lt_finite.mp hlt) (not_lt.mpr h)

variable {s : Stamp}

@[simp] theorem negInfinity_lt : negInfinity < s ↔ s ≠ negInfinity := by
  show place _ < place _ ↔ _
  cases s <;> simp [place]

@[simp] theorem not_lt_negInfinity : ¬ s < negInfinity := by
  show ¬ place _ < place _
  simp [place]

@[simp] theorem lt_infinity : s < infinity ↔ s ≠ infinity := by
  show place _ < place _ ↔ _
  cases s with
  | negInfinity => simp [place]
  | finite t => exact iff_of_true (WithBot.coe_lt_coe.mpr (WithTop.coe_lt_top t)) (by simp)
  | infinity => simp [place]

@[simp] theorem not_infinity_lt : ¬ infinity < s := by
  show ¬ place _ < place _
  cases s <;> simp [place]

/-- In JSON, in UTC. -/
def text : Stamp → String
  | negInfinity => "-infinity"
  | finite t => createdAtText t
  | infinity => "infinity"

end Stamp

structure TimeFields where
  year : ℕ
  month : ℕ
  day : ℕ
  hour : ℕ
  minute : ℕ
  second : ℕ
  fraction : List Char
  offset : Int

/-- `\d{width}` -/
def digits (width : ℕ) (cs : List Char) : Option (ℕ × List Char) :=
  let ds := cs.take width
  if ds.length = width ∧ ds.all Char.isDigit then some (digitsValue ds, cs.drop width) else none

def one (accepted : List Char) : List Char → Option (List Char)
  | c :: cs => if c ∈ accepted then some cs else none
  | [] => none

/-- `(?::\d{2})?` -/
def optionalSecond (cs : List Char) : ℕ × List Char :=
  match one [':'] cs with
  | some rest => (digits 2 rest).getD (0, cs)
  | none => (0, cs)

/-- `(?:\.(\d+))?` -/
def optionalFraction (cs : List Char) : List Char × List Char :=
  match one ['.'] cs with
  | some rest =>
    let ds := rest.takeWhile Char.isDigit
    if ds.isEmpty then ([], cs) else (ds, rest.dropWhile Char.isDigit)
  | none => ([], cs)

def offsetMinutes (cs : List Char) : Option ℕ :=
  match cs with
  | [] => some 0
  | ':' :: rest => (digits 2 rest).bind fun (n, left) => if left.isEmpty then some n else none
  | _ => (digits 2 cs).bind fun (n, left) => if left.isEmpty then some n else none

/-- `(Z|[+-]\d{2}(?::?\d{2})?)?$`; none is `Z`. -/
def offset : List Char → Option Int
  | [] | ['Z'] | ['z'] => some 0
  | sign :: cs =>
    if sign = '+' ∨ sign = '-' then
      (digits 2 cs).bind fun (hours, rest) =>
        (offsetMinutes rest).map fun minutes =>
          if sign = '+' then (60 * hours + minutes : ℕ) else -((60 * hours + minutes : ℕ) : Int)
    else none

def timeFields (cs : List Char) : Option TimeFields :=
  (digits 4 cs).bind fun (year, cs) => (one ['-'] cs).bind fun cs =>
  (digits 2 cs).bind fun (month, cs) => (one ['-'] cs).bind fun cs =>
  (digits 2 cs).bind fun (day, cs) => (one ['T', 't', ' '] cs).bind fun cs =>
  (digits 2 cs).bind fun (hour, cs) => (one [':'] cs).bind fun cs =>
  (digits 2 cs).bind fun (minute, cs) =>
    let (second, cs) := optionalSecond cs
    let (fraction, cs) := optionalFraction cs
    (offset (cs.dropWhile isSpace)).map fun offset =>
      { year, month, day, hour, minute, second, fraction, offset }

/-- `Date.parse` of the date, the time to the second and the offset, in milliseconds. -/
def TimeFields.base (f : TimeFields) : Option Int :=
  let month := (12 * f.year + f.month : Int) - 1
  if 1 ≤ f.month ∧ f.month ≤ 12 ∧ 1 ≤ f.day ∧ f.day ≤ monthLength month ∧
      f.hour < 24 ∧ f.minute < 60 ∧ f.second < 60 ∧ f.offset.natAbs < 1440 then
    some (1000 * ((monthStart month + (f.day - 1)) * 86400 + 3600 * f.hour + 60 * f.minute +
      f.second - 60 * f.offset))
  else none

/-- `Number(fraction.slice(0, 6).padEnd(6, '0'))` -/
def TimeFields.micros (f : TimeFields) : ℕ :=
  digitsValue ((f.fraction ++ List.replicate 6 '0').take 6)

/-- Microseconds in a double, and the two infinities. `dateParse` is `Date.parse` on a text in
another form. -/
def tsMicros (dateParse : String → Option Int) (value : Option String) : Option Stamp :=
  match value with
  | none => none
  | some "" => none
  | some v =>
    let s := Rest.trim v
    if s = "-infinity" then some .negInfinity
    else if s = "infinity" then some .infinity
    else
      match timeFields s.toList with
      | none => (dateParse s).map fun t => .finite (asDouble (1000 * t))
      | some f => f.base.map fun base => .finite (asDouble (asDouble (1000 * base) + f.micros))

theorem digitsValue_append (cs : List Char) (c : Char) :
    digitsValue (cs ++ [c]) = 10 * digitsValue cs + (c.toNat - '0'.toNat) := by
  simp [digitsValue]

theorem digitsValue_fixed (w n : ℕ) : digitsValue (fixed w n) = n % 10 ^ w := by
  induction w generalizing n with
  | zero => simp [fixed, digitsValue, Nat.mod_one]
  | succ w ih =>
    have hdigit : (Nat.digitChar (n % 10)).toNat - '0'.toNat = n % 10 := by
      have hlt : n % 10 < 10 := Nat.mod_lt n (by decide)
      generalize n % 10 = d at hlt
      interval_cases d <;> rfl
    rw [fixed, digitsValue_append, hdigit, ih, Nat.pow_succ, Nat.mul_comm (10 ^ w), Nat.mod_mul]
    omega

theorem digitsValue_of_lt (h : n < 10 ^ w) : digitsValue (fixed w n) = n := by
  rw [digitsValue_fixed, Nat.mod_eq_of_lt h]

theorem isDigit_fixed (w n : ℕ) : (fixed w n).all Char.isDigit := by
  rw [List.all_eq_true]
  intro c hc
  obtain ⟨d, hd, rfl⟩ := Inactivity.fixed_digits w n c hc
  interval_cases d <;> rfl

theorem digits_fixed (h : n < 10 ^ w) (rest : List Char) :
    digits w (fixed w n ++ rest) = some (n, rest) := by
  have hlen : (fixed w n).length = w := Inactivity.length_fixed w n
  have htake : (fixed w n ++ rest).take w = fixed w n := List.take_left' hlen
  have hdrop : (fixed w n ++ rest).drop w = rest := List.drop_left' hlen
  simp only [digits, htake, hdrop, hlen, isDigit_fixed, digitsValue_of_lt h, and_self, if_true]

theorem trimZeros_pad (cs : List Char) {k : ℕ} (hk : cs.length ≤ k) :
    (trimZeros cs ++ List.replicate k '0').take cs.length = cs := by
  induction cs with
  | nil => simp
  | cons c cs ih =>
    by_cases hall : (c :: cs).all (· = '0')
    · have hzeros : c :: cs = List.replicate (c :: cs).length '0' := by
        refine List.eq_replicate_iff.mpr ⟨rfl, fun x hx => ?_⟩
        simpa using List.all_eq_true.mp hall x hx
      rw [trimZeros, if_pos hall, List.nil_append, List.take_replicate, Nat.min_eq_left hk]
      exact hzeros.symm
    · rw [trimZeros, if_neg hall, List.cons_append, List.length_cons, List.take_succ_cons,
        ih (by simpa using Nat.le_of_succ_le hk)]

theorem trimZeros_fixed_ne (h0 : m ≠ 0) (hm : m < 1000000) : trimZeros (fixed 6 m) ≠ [] := by
  intro h
  have hpad := trimZeros_pad (fixed 6 m) (k := 6) (by simp [Inactivity.length_fixed])
  rw [h, Inactivity.length_fixed] at hpad
  have hvalue := digitsValue_of_lt (w := 6) (n := m) (by omega)
  rw [← hpad] at hvalue
  exact h0 (hvalue.symm.trans (by decide))

theorem takeWhile_digits {ds : List Char} (hds : ds.all Char.isDigit) (rest : List Char) :
    (ds ++ '+' :: rest).takeWhile Char.isDigit = ds ∧
      (ds ++ '+' :: rest).dropWhile Char.isDigit = '+' :: rest := by
  induction ds with
  | nil => simp
  | cons d ds ih =>
    simp only [List.all_cons, Bool.and_eq_true] at hds
    simp [hds.1, ih hds.2]

theorem optionalFraction_text (hm : m < 1000000) (rest : List Char) :
    ∃ ds, optionalFraction (fraction m ++ '+' :: rest) = (ds, '+' :: rest) ∧
      digitsValue ((ds ++ List.replicate 6 '0').take 6) = m := by
  by_cases h0 : m = 0
  · refine ⟨[], ?_, by subst h0; decide⟩
    simp [optionalFraction, fraction, h0, one]
  · refine ⟨trimZeros (fixed 6 m), ?_, ?_⟩
    · have hall : (trimZeros (fixed 6 m)).all Char.isDigit := by
        refine List.all_eq_true.mpr fun c hc => ?_
        exact List.all_eq_true.mp (isDigit_fixed 6 m) c (Inactivity.trimZeros_mem c hc)
      obtain ⟨htake, hdrop⟩ := takeWhile_digits hall rest
      simp [optionalFraction, fraction, h0, one, htake, hdrop, trimZeros_fixed_ne h0 hm]
    · have hpad := trimZeros_pad (fixed 6 m) (k := 6) (by simp [Inactivity.length_fixed])
      rw [Inactivity.length_fixed] at hpad
      rw [hpad, digitsValue_of_lt (by omega)]

theorem timeFields_text {t : Timestamp} (h : FourDigitYear t) : ∃ ds, timeFields (civil t).text =
        some { year := (civil t).year, month := (civil t).month, day := (civil t).day
               hour := (civil t).hour, minute := (civil t).minute, second := (civil t).second
               fraction := ds, offset := 0 } ∧
      digitsValue ((ds ++ List.replicate 6 '0').take 6) = (civil t).micro := by
  obtain ⟨hcommon, hyear, -⟩ := Inactivity.civil_date t h
  obtain ⟨hmonth, hday, hhour, hminute, hsecond, hmicro⟩ := Inactivity.civil_bounds t
  obtain ⟨ds, hfraction, hvalue⟩ := optionalFraction_text hmicro "00:00".toList
  refine ⟨ds, ?_, hvalue⟩
  have hoffset : offset (('+' :: "00:00".toList).dropWhile isSpace) = some 0 := by decide
  simp only [Inactivity.Civil.text, Inactivity.Civil.tail, Inactivity.yearDigits_eq hyear, hcommon,
    if_true, List.append_nil]
  rw [timeFields, digits_fixed (by omega)]
  simp only [Option.bind_some, one, List.mem_cons, true_or, if_true]
  rw [digits_fixed (by omega)]
  simp only [Option.bind_some, true_or, if_true]
  rw [digits_fixed (by omega)]
  simp only [Option.bind_some, true_or, if_true]
  rw [digits_fixed (by omega)]
  simp only [Option.bind_some, true_or, if_true]
  rw [digits_fixed (by omega)]
  simp only [Option.bind_some, optionalSecond, one, List.mem_cons, true_or, if_true]
  rw [digits_fixed (by omega)]
  simp only [Option.getD_some, hfraction, hoffset, Option.map_some]

theorem seconds_eq (t : Int) : t / second = dateOf t * 86400 +
    ((civil t).hour * 3600 + (civil t).minute * 60 + (civil t).second : ℕ) := by
  simp only [dateOf, civil, timeOfDay, second, day]
  omega

theorem micro_eq (t : Int) : t = t / second * 1000000 + ((civil t).micro : ℕ) := by
  simp only [civil, timeOfDay, second, day]
  omega

variable {t : Int}

theorem base_text (h : FourDigitYear t) (ds : List Char) :
    TimeFields.base { year := (civil t).year, month := (civil t).month, day := (civil t).day
                      hour := (civil t).hour, minute := (civil t).minute
                      second := (civil t).second, fraction := ds, offset := 0 } =
      some (1000 * (t / second)) := by
  obtain ⟨-, hyear, hpos, hmonth, hday⟩ := Inactivity.civil_date t h
  obtain ⟨hmonth', hday', hhour, hminute, hsecond, -⟩ := Inactivity.civil_bounds t
  have hk : (12 * (civil t).year + (civil t).month : Int) - 1 = monthOf (dateOf t) := by omega
  have hdate : dateOf t = monthStart (monthOf (dateOf t)) + dayInMonth (dateOf t) := by
    unfold dayInMonth
    omega
  have hlow := dayInMonth_nonneg (dateOf t)
  have hlen := dayInMonth_lt (dateOf t)
  have hseconds := seconds_eq t
  have hlegal : 1 ≤ (civil t).month ∧ (civil t).month ≤ 12 ∧ 1 ≤ (civil t).day ∧
      (civil t).day ≤ monthLength (monthOf (dateOf t)) ∧ (civil t).hour < 24 ∧
      (civil t).minute < 60 ∧ (civil t).second < 60 ∧ (0 : Int).natAbs < 1440 := by
    refine ⟨hpos, hmonth', ?_, ?_, hhour, hminute, hsecond, by decide⟩ <;> omega
  unfold TimeFields.base
  simp only [hk]
  rw [if_pos hlegal]
  congr 1
  omega

theorem asDouble_seconds (h : FourDigitYear t) :
    asDouble (1000 * (1000 * (t / second))) = 1000 * (1000 * (t / second)) := by
  have hlow : monthStart (12 * 1) ≤ monthStart (monthOf (dateOf t)) :=
    monthStart_mono (by unfold FourDigitYear at h; omega)
  have hhigh : monthStart (monthOf (dateOf t) + 1) ≤ monthStart (12 * 10000) :=
    monthStart_mono (by unfold FourDigitYear at h; omega)
  obtain ⟨hfirst, hlast⟩ := monthOf_spec (dateOf t)
  rw [monthStart_year] at hlow hhigh
  have h1 : yearStart 1 = -719162 := by decide
  have h2 : yearStart 10000 = 2932897 := by decide
  have hbound : (1000 * (1000 * (t / second))).natAbs < 2 ^ (53 + 5) := by
    simp only [dateOf, day, second] at *
    omega
  have hfactor : 1000 * (1000 * (t / second)) = 2 ^ 5 * (31250 * (t / second)) := by omega
  refine Lib.asDouble_eq hbound ?_
  rw [hfactor, Int.natAbs_mul]
  exact Nat.dvd_mul_right _ _

theorem trim_eq {cs : List Char} (h : ∀ c ∈ cs, isSpace c = false) :
    Rest.trim (.ofList cs) = .ofList cs := by
  have hdrop {ds : List Char} (hds : ∀ c ∈ ds, isSpace c = false) : ds.dropWhile isSpace = ds := by
    cases ds with
    | nil => rfl
    | cons d ds => simp [hds d List.mem_cons_self]
  have hback : ∀ c ∈ cs.reverse, isSpace c = false := fun c hc => h c (List.mem_reverse.mp hc)
  simp only [Rest.trim, String.toList_ofList, hdrop h, hdrop hback, List.reverse_reverse]

theorem text_no_space (h : FourDigitYear t) : ∀ c ∈ (civil t).text, isSpace c = false := by
  have hdigit : ∀ d < 10, isSpace (Nat.digitChar d) = false := by decide
  have hfixed (w n : ℕ) : ∀ c ∈ fixed w n, isSpace c = false := by
    intro c hc
    obtain ⟨d, hd, rfl⟩ := Inactivity.fixed_digits w n c hc
    exact hdigit d hd
  have hfraction (f : ℕ) : ∀ c ∈ fraction f, isSpace c = false := by
    intro c hc
    rcases Inactivity.fraction_mem c hc with rfl | ⟨d, hd, rfl⟩
    · decide
    · exact hdigit d hd
  have hend : "00:00".toList.all fun c => !isSpace c := by decide
  simp only [List.all_eq_true, Bool.not_eq_true'] at hend
  simp only [Inactivity.Civil.text, Inactivity.Civil.tail, (Inactivity.civil_date t h).1, if_true,
    List.append_nil, List.forall_mem_append, List.forall_mem_cons]
  exact ⟨hfixed _ _, by decide, hfixed _ _, by decide, hfixed _ _, by decide, hfixed _ _,
    by decide, hfixed _ _, by decide, hfixed _ _, hfraction _, by decide, hend⟩

/-- In the years 1 to 9999 the text is read to the microsecond, up to what a double keeps. -/
theorem tsMicros_text (h : FourDigitYear t) (dateParse : String → Option Int) :
    tsMicros dateParse (some (Stamp.text (.finite t))) = some (.finite (asDouble t)) := by
  obtain ⟨ds, hfields, hmicro⟩ := timeFields_text h
  have htrim := trim_eq (text_no_space h)
  have hread : timeFields (String.ofList (civil t).text).toList =
      some { year := (civil t).year, month := (civil t).month, day := (civil t).day
             hour := (civil t).hour, minute := (civil t).minute, second := (civil t).second
             fraction := ds, offset := 0 } := by
    rw [String.toList_ofList, hfields]
  have hne {s : String} (hs : timeFields s.toList = none) : String.ofList (civil t).text ≠ s := by
    rintro rfl
    rw [hs] at hread
    cases hread
  have hempty : String.ofList (civil t).text ≠ "" := hne (by decide)
  have hlow : String.ofList (civil t).text ≠ "-infinity" := hne (by decide)
  have hhigh : String.ofList (civil t).text ≠ "infinity" := hne (by decide)
  have hwhole := asDouble_seconds h
  have hsum : 1000 * (1000 * (t / second)) + ((civil t).micro : Int) = t := by
    have := micro_eq t
    omega
  simp only [Stamp.text, createdAtText, tsMicros, htrim, if_neg hlow, if_neg hhigh, hread,
    base_text h, Option.map_some, TimeFields.micros, hmicro, hwhole]
  rw [hsum]

theorem trim_text_ne (t : Int) {c : Char} (hc : c ∈ s.toList) (hnot : c ∉ Inactivity.collation)
    : Rest.trim (createdAtText t) ≠ s := by
  rintro rfl
  have hmem : c ∈ (civil t).text := by
    simp only [Rest.trim, createdAtText, String.toList_ofList, List.mem_reverse] at hc
    have hback := (List.dropWhile_sublist _).mem hc
    exact (List.dropWhile_sublist _).mem (List.mem_reverse.mp hback)
  exact hnot (Inactivity.text_collation t c hmem)

theorem tsMicros_finite {dateParse : String → Option Int} {s : Stamp}
    (h : tsMicros dateParse (some (Stamp.text (.finite t))) = some s) : ∃ m, s = .finite m := by
  have hlow : Rest.trim (createdAtText t) ≠ "-infinity" :=
    trim_text_ne t (c := 'i') (by decide) (by decide)
  have hhigh : Rest.trim (createdAtText t) ≠ "infinity" :=
    trim_text_ne t (c := 'i') (by decide) (by decide)
  simp only [Stamp.text] at h
  generalize createdAtText t = v at *
  unfold tsMicros at h
  split at h
  · cases h
  · cases h
  · rename_i heq
    cases heq
    simp only [if_neg hlow, if_neg hhigh] at h
    split at h
    · obtain ⟨m, -, rfl⟩ := Option.map_eq_some_iff.mp h
      exact ⟨_, rfl⟩
    · obtain ⟨m, -, rfl⟩ := Option.map_eq_some_iff.mp h
      exact ⟨_, rfl⟩

theorem createdAtText_ne (hs : 'i' ∈ s.toList) : createdAtText t ≠ s := by
  rintro rfl
  have hmem : 'i' ∈ (civil t).text := by simpa [createdAtText] using hs
  have hnot : 'i' ∉ Inactivity.collation := by decide
  exact hnot (Inactivity.text_collation t _ hmem)

theorem Stamp.text_injective : Function.Injective Stamp.text := by
  have hlow (t : Int) : createdAtText t ≠ "-infinity" := createdAtText_ne (by decide)
  have hhigh (t : Int) : createdAtText t ≠ "infinity" := createdAtText_ne (by decide)
  have hends : "-infinity" ≠ "infinity" := by decide
  intro a b h
  cases a <;> cases b <;> simp only [Stamp.text] at h
  case negInfinity.negInfinity => rfl
  case negInfinity.finite t => exact absurd h.symm (hlow t)
  case negInfinity.infinity => exact absurd h hends
  case finite.negInfinity t => exact absurd h (hlow t)
  case finite.finite t u =>
    have htext : (civil t).text = (civil u).text := String.ofList_injective h
    have hcivil := Inactivity.Civil.text_inj (Inactivity.civil_bounds t)
      (Inactivity.civil_bounds u) htext
    rw [Inactivity.civil_injective hcivil]
  case finite.infinity t => exact absurd h (hhigh t)
  case infinity.negInfinity => exact absurd h.symm hends
  case infinity.finite t => exact absurd h.symm (hhigh t)
  case infinity.infinity => rfl

def Stamp.Plain : Stamp → Prop
  | .finite t => FourDigitYear t
  | _ => True

instance (s : Stamp) : Decidable s.Plain := by
  cases s <;> unfold Stamp.Plain <;> infer_instance

def Stamp.micros : Stamp → Stamp
  | .finite t => .finite (asDouble t)
  | s => s

theorem tsMicros_plain {s : Stamp} (h : s.Plain) (dateParse : String → Option Int) :
    tsMicros dateParse (some s.text) = some s.micros := by
  cases s with
  | negInfinity => rfl
  | finite t => exact tsMicros_text h dateParse
  | infinity => rfl

theorem Stamp.micros_mono {a b : Stamp} (h : a ≤ b) : a.micros ≤ b.micros := by
  rcases h.lt_or_eq with hlt | rfl
  · cases a with
    | negInfinity => exact not_lt.mp Stamp.not_lt_negInfinity
    | finite t =>
      cases b with
      | negInfinity => exact absurd hlt Stamp.not_lt_negInfinity
      | finite u =>
        have hle := Lib.asDouble_mono (Stamp.finite_lt_finite.mp hlt).le
        exact not_lt.mp fun hgt => absurd (Stamp.finite_lt_finite.mp hgt) hle.not_gt
      | infinity => exact (Stamp.lt_infinity.mpr (by simp [Stamp.micros])).le
    | infinity => exact absurd hlt Stamp.not_infinity_lt
  · exact le_refl _

example : tsMicros (fun _ => none) (some "2026-10-11 10:00:00.123456+00") =
    some (.finite 1791712800123456) := by decide +kernel

end Kindred.Billing.Locks
