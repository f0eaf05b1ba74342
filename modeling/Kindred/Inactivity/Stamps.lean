import Kindred.Database
import Mathlib.Data.List.Lex

/-!
The text in which a stamp of the database reaches TypeScript, and the order in
which `localeCompare` puts such texts.
-/

namespace Kindred.Inactivity
open Lib.Calendar

/-- The last `width` decimal digits. -/
def fixed : ℕ → ℕ → List Char
  | 0, _ => []
  | width + 1, n => fixed width (n / 10) ++ [Nat.digitChar (n % 10)]

structure Civil where
  common : Bool
  year : ℕ
  month : ℕ
  day : ℕ
  hour : ℕ
  minute : ℕ
  second : ℕ
  micro : ℕ

def civil (t : Timestamp) : Civil :=
  let month := monthOf (dateOf t)
  let year := month / 12
  let micros := (timeOfDay t).toNat
  { common := 0 < year
    year := if 0 < year then year.toNat else (1 - year).toNat
    month := (month % 12).toNat + 1
    day := (dayInMonth (dateOf t)).toNat + 1
    hour := micros / 3600000000
    minute := micros / 60000000 % 60
    second := micros / 1000000 % 60
    micro := micros % 1000000 }

def yearDigits (n : ℕ) : List Char := fixed (max 4 (Nat.toDigits 10 n).length) n

def trimZeros : List Char → List Char
  | [] => []
  | c :: cs => if (c :: cs).all (· = '0') then [] else c :: trimZeros cs

def fraction (micro : ℕ) : List Char := if micro = 0 then [] else '.' :: trimZeros (fixed 6 micro)

def Civil.tail (c : Civil) : List Char :=
  fraction c.micro ++ '+' :: ("00:00".toList ++ if c.common then [] else " BC".toList)

def Civil.text (c : Civil) : List Char :=
  yearDigits c.year ++ '-' :: (fixed 2 c.month ++ '-' :: (fixed 2 c.day ++ 'T' ::
    (fixed 2 c.hour ++ ':' :: (fixed 2 c.minute ++ ':' :: (fixed 2 c.second ++ c.tail)))))

/-- A `timestamptz` in JSON, in UTC. -/
def createdAtText (t : Timestamp) : String := .ofList (civil t).text

example : createdAtText 1767225600000000 = "2026-01-01T00:00:00+00:00" := by decide

example : createdAtText 1767225600120000 = "2026-01-01T00:00:00.12+00:00" := by decide

def collation : List Char := " -:.+0123456789BCT".toList

def weight (c : Char) : ℕ := collation.idxOf c

def sortKey (cs : List Char) : List ℕ := cs.map weight

/-- `a.localeCompare(b)`, of texts that `collation` has the characters of. -/
def localeCompare (a b : String) : Int :=
  if sortKey a.toList < sortKey b.toList then -1
  else if sortKey b.toList < sortKey a.toList then 1 else 0

variable {c : Char} {f g n : ℕ} {x a b : Int}

section Digits

theorem weight_digit {d : ℕ} (h : d < 10) : weight (Nat.digitChar d) = d + 5 := by
  interval_cases d <;> decide

theorem length_fixed (w n : ℕ) : (fixed w n).length = w := by
  induction w generalizing n with
  | zero => rfl
  | succ w ih => simp [fixed, ih]

theorem fixed_digits (w n : ℕ) : ∀ c ∈ fixed w n, ∃ d < 10, c = Nat.digitChar d := by
  induction w generalizing n with
  | zero => simp [fixed]
  | succ w ih =>
    intro c hc
    rcases List.mem_append.mp hc with hc | hc
    · exact ih _ c hc
    · exact ⟨n % 10, Nat.mod_lt _ (by decide), List.mem_singleton.mp hc⟩

variable {w n : ℕ} {m : ℕ} {a b : List Char}

theorem fixed_ne (hc : ∀ d < 10, Nat.digitChar d ≠ c) : ∀ x ∈ fixed w n, x ≠ c := by
  intro x hx
  obtain ⟨d, hd, rfl⟩ := fixed_digits w n x hx
  exact hc d hd

theorem append_lt_append {a b x y : List ℕ} (h : a.length = b.length) :
    a ++ x < b ++ y ↔ a < b ∨ a = b ∧ x < y := by
  induction a generalizing b with
  | nil =>
    cases b with
    | nil => simp
    | cons => simp at h
  | cons m a ih =>
    cases b with
    | nil => simp at h
    | cons n b =>
      have hab : a.length = b.length := by simpa using h
      simp only [List.cons_append, List.cons_lt_cons_iff, ih hab, List.cons.injEq]
      tauto

theorem eq_of_lt_iff {a b : List ℕ} (hlt : a < b ↔ m < n) (hgt : b < a ↔ n < m) (h : a = b) :
    m = n := by
  have h₁ : ¬ m < n := fun hmn => (hlt.mpr hmn).ne h
  have h₂ : ¬ n < m := fun hnm => (hgt.mpr hnm).ne h.symm
  omega

theorem fixed_lt (hm : m < 10 ^ w) (hn : n < 10 ^ w) :
    sortKey (fixed w m) < sortKey (fixed w n) ↔ m < n := by
  induction w generalizing m n with
  | zero => simp_all [fixed, sortKey]
  | succ w ih =>
    have hlen : (sortKey (fixed w (m / 10))).length = (sortKey (fixed w (n / 10))).length := by
      simp [sortKey, length_fixed]
    have hm' : m / 10 < 10 ^ w := by omega
    have hn' : n / 10 < 10 ^ w := by omega
    have heq : sortKey (fixed w (m / 10)) = sortKey (fixed w (n / 10)) ↔ m / 10 = n / 10 := by
      refine ⟨fun h => ?_, fun h => by rw [h]⟩
      exact eq_of_lt_iff (ih hm' hn') (ih hn' hm') h
    simp only [fixed, sortKey, List.map_append, List.map_cons, List.map_nil] at *
    rw [append_lt_append hlen, ih hm' hn', heq, List.cons_lt_cons_iff,
      weight_digit (Nat.mod_lt m (by decide)), weight_digit (Nat.mod_lt n (by decide))]
    simp only [lt_irrefl, and_false, or_false]
    omega

theorem fixed_inj (hm : m < 10 ^ w) (hn : n < 10 ^ w) (h : fixed w m = fixed w n) : m = n :=
  eq_of_lt_iff (fixed_lt hm hn) (fixed_lt hn hm) (by rw [h])

theorem field_lt (hm : m < 10 ^ w) (hn : n < 10 ^ w) (x y : List Char) :
    sortKey (fixed w m ++ x) < sortKey (fixed w n ++ y) ↔
      m < n ∨ m = n ∧ sortKey x < sortKey y := by
  have heq : sortKey (fixed w m) = sortKey (fixed w n) ↔ m = n :=
    ⟨eq_of_lt_iff (fixed_lt hm hn) (fixed_lt hn hm), fun h => by rw [h]⟩
  have hlen : (sortKey (fixed w m)).length = (sortKey (fixed w n)).length := by
    simp [sortKey, length_fixed]
  have hsplit (a b : List Char) : sortKey (a ++ b) = sortKey a ++ sortKey b := List.map_append
  rw [hsplit, hsplit, append_lt_append hlen, fixed_lt hm hn, heq]

theorem separator_lt (s : Char) (x y : List Char) :
    sortKey (s :: x) < sortKey (s :: y) ↔ sortKey x < sortKey y := by
  simp [sortKey]

theorem weight_zero_lt (hc : ∃ d < 10, c = Nat.digitChar d) : weight '0' < weight c ↔ c ≠ '0' := by
  obtain ⟨d, hd, rfl⟩ := hc
  interval_cases d <;> decide

theorem zeros_lt (hlen : a.length = b.length) (ha : a.all (· = '0'))
    (hb : ∀ c ∈ b, ∃ d < 10, c = Nat.digitChar d) : sortKey a < sortKey b ↔ ¬ b.all (· = '0') := by
  induction a generalizing b with
  | nil =>
    cases b with
    | nil => simp [sortKey]
    | cons => simp at hlen
  | cons c a ih =>
    cases b with
    | nil => simp at hlen
    | cons c' b =>
      simp only [List.all_cons, Bool.and_eq_true, decide_eq_true_eq] at ha ⊢
      have hstep := ih (by simpa using hlen) ha.2 fun x hx => hb x (List.mem_cons_of_mem _ hx)
      have hhead := weight_zero_lt (hb c' List.mem_cons_self)
      simp only [sortKey, List.map_cons, List.cons_lt_cons_iff] at hstep ⊢
      rw [ha.1, hhead, hstep]
      by_cases hc' : c' = '0' <;> simp [hc']

theorem not_lt_zeros (hlen : a.length = b.length) (hb : b.all (· = '0'))
    (ha : ∀ c ∈ a, ∃ d < 10, c = Nat.digitChar d) : ¬ sortKey a < sortKey b := by
  have hzeros := zeros_lt hlen.symm hb ha
  intro h
  by_cases hall : a.all (· = '0')
  · have := (zeros_lt hlen hall fun c hc => ?_).mp h
    · exact this hb
    · exact ⟨0, by decide, of_decide_eq_true (List.all_eq_true.mp hb c hc)⟩
  · exact lt_asymm h (hzeros.mpr hall)

/-- Without their trailing zeros digits compare as with them, as `+` is below every digit. -/
theorem trimZeros_lt (hlen : a.length = b.length) (ha : ∀ c ∈ a, ∃ d < 10, c = Nat.digitChar d)
    (hb : ∀ c ∈ b, ∃ d < 10, c = Nat.digitChar d) (z : List Char) :
    sortKey (trimZeros a ++ '+' :: z) < sortKey (trimZeros b ++ '+' :: z) ↔
      sortKey a < sortKey b := by
  induction a generalizing b with
  | nil =>
    cases b with
    | nil => simp [trimZeros, sortKey]
    | cons => simp at hlen
  | cons c a ih =>
    cases b with
    | nil => simp at hlen
    | cons c' b =>
      have hplus {x : Char} (hx : ∃ d < 10, x = Nat.digitChar d) : weight '+' < weight x := by
        obtain ⟨d, hd, rfl⟩ := hx
        interval_cases d <;> decide
      by_cases hca : (c :: a).all (· = '0') <;> by_cases hcb : (c' :: b).all (· = '0')
      · rw [zeros_lt hlen hca hb]
        simp [trimZeros, hca, hcb]
      · rw [zeros_lt hlen hca hb]
        simp only [trimZeros, if_pos hca, if_neg hcb, sortKey, List.nil_append, List.cons_append,
          List.map_cons, List.cons_lt_cons_iff]
        simp [hplus (hb c' List.mem_cons_self), hcb]
      · refine iff_of_false ?_ (not_lt_zeros hlen hcb ha)
        simp only [trimZeros, if_neg hca, if_pos hcb, sortKey, List.nil_append, List.cons_append,
          List.map_cons, List.cons_lt_cons_iff]
        have := hplus (ha c List.mem_cons_self)
        omega
      · have hstep := ih (by simpa using hlen) (fun x hx => ha x (List.mem_cons_of_mem _ hx))
          fun x hx => hb x (List.mem_cons_of_mem _ hx)
        simp only [sortKey] at hstep
        simp only [trimZeros, if_neg hca, if_neg hcb, sortKey, List.cons_append, List.map_cons,
          List.cons_lt_cons_iff, hstep]

def microRank (micro : ℕ) : ℕ := if micro = 0 then 1000000 else micro

theorem fraction_lt (hf : f < 1000000) (hg : g < 1000000) (z : List Char) :
    sortKey (fraction f ++ '+' :: z) < sortKey (fraction g ++ '+' :: z) ↔
      microRank f < microRank g := by
  have hdot : weight '.' < weight '+' := by decide
  by_cases hf0 : f = 0 <;> by_cases hg0 : g = 0
  · simp [hf0, hg0]
  · simp only [fraction, if_pos hf0, if_neg hg0, microRank, sortKey, List.nil_append,
      List.cons_append, List.map_cons, List.cons_lt_cons_iff]
    omega
  · simp only [fraction, if_neg hf0, if_pos hg0, microRank, sortKey, List.nil_append,
      List.cons_append, List.map_cons, List.cons_lt_cons_iff]
    omega
  · have hdigits := trimZeros_lt (a := fixed 6 f) (b := fixed 6 g) (by simp [length_fixed])
      (fixed_digits 6 f) (fixed_digits 6 g) z
    rw [fixed_lt hf hg] at hdigits
    simp only [sortKey] at hdigits
    simp only [fraction, if_neg hf0, if_neg hg0, microRank, sortKey, List.cons_append,
      List.map_cons, List.cons_lt_cons_iff, hdigits, lt_irrefl, false_or, true_and]

end Digits

theorem yearDigits_eq (h : n < 10000) : yearDigits n = fixed 4 n := by
  have hlen : (Nat.toDigits 10 n).length ≤ 4 :=
    (Nat.length_toDigits_le_iff (by decide) (by decide)).mpr h
  rw [yearDigits, Nat.max_eq_left hlen]

theorem civil_bounds (t : Timestamp) :
    (civil t).month ≤ 12 ∧ (civil t).day ≤ 31 ∧ (civil t).hour < 24 ∧ (civil t).minute < 60 ∧
      (civil t).second < 60 ∧ (civil t).micro < 1000000 := by
  have hday := dayInMonth_lt (dateOf t)
  have hlen := (monthLength_bounds (monthOf (dateOf t))).2
  have htime : 0 ≤ timeOfDay t ∧ timeOfDay t < 86400000000 := by
    unfold timeOfDay day second
    omega
  refine ⟨?_, ?_, ?_, ?_, ?_, ?_⟩ <;> simp only [civil] <;> omega

def FourDigitYear (t : Timestamp) : Prop :=
  0 < monthOf (dateOf t) / 12 ∧ monthOf (dateOf t) / 12 < 10000

instance (t : Timestamp) : Decidable (FourDigitYear t) := inferInstanceAs (Decidable (_ ∧ _))

def asSorted (t : Int) : Int := if t % second = 0 then t + second else t

theorem not_asSorted_lt {y n : Int} (hat : x = n - n % second) (hyn : y ≤ n)
    : ¬ asSorted x < asSorted y := by
  unfold asSorted second at *
  split <;> split <;> omega

theorem asSorted_lt {n : Int} (hxn : x < n) (h : ¬ (n % second ≠ 0 ∧ x = n - n % second)) :
    asSorted x < asSorted n := by
  unfold asSorted second at *
  split <;> split <;> omega

theorem dateOf_lt_iff (a b : Timestamp) :
    dateOf a < dateOf b ↔ monthOf (dateOf a) < monthOf (dateOf b) ∨
      monthOf (dateOf a) = monthOf (dateOf b) ∧ dayInMonth (dateOf a) < dayInMonth (dateOf b) := by
  have ha := monthOf_spec (dateOf a)
  have hb := monthOf_spec (dateOf b)
  rcases lt_trichotomy (monthOf (dateOf a)) (monthOf (dateOf b)) with h | h | h
  · have := monthStart_mono (j := monthOf (dateOf a) + 1) (k := monthOf (dateOf b)) (by omega)
    omega
  · simp only [dayInMonth, h, lt_irrefl, false_or, true_and]
    omega
  · have := monthStart_mono (j := monthOf (dateOf b) + 1) (k := monthOf (dateOf a)) (by omega)
    have hne : ¬ monthOf (dateOf a) < monthOf (dateOf b) := by omega
    have hne' : monthOf (dateOf a) ≠ monthOf (dateOf b) := by omega
    omega

theorem second_lt_iff (a b : Int) :
    a / second < b / second ↔ dateOf a < dateOf b ∨ dateOf a = dateOf b ∧
      ((civil a).hour < (civil b).hour ∨ (civil a).hour = (civil b).hour ∧
        ((civil a).minute < (civil b).minute ∨ (civil a).minute = (civil b).minute ∧
          (civil a).second < (civil b).second)) := by
  have clock (t : Int) : t / second = dateOf t * 86400 +
      ((civil t).hour * 3600 + (civil t).minute * 60 + (civil t).second : ℕ) := by
    simp only [dateOf, civil, timeOfDay, second, day]
    omega
  have ha := civil_bounds a
  have hb := civil_bounds b
  rw [clock a, clock b]
  omega

theorem asSorted_lt_iff (a b : Int) :
    asSorted a < asSorted b ↔ a / second < b / second ∨ a / second = b / second ∧
      microRank (civil a).micro < microRank (civil b).micro := by
  have split (t : Int) : t = t / second * 1000000 + ((civil t).micro : ℕ) := by
    simp only [civil, timeOfDay, second, day]
    omega
  have hsorted (t : Int) : asSorted t =
      t / second * 1000000 + (microRank (civil t).micro : ℕ) := by
    have := split t
    unfold asSorted microRank second at *
    split <;> split <;> omega
  have bounds (t : Int) : 0 < microRank (civil t).micro ∧
      microRank (civil t).micro ≤ 1000000 := by
    have := (civil_bounds t).2.2.2.2.2
    unfold microRank
    split <;> omega
  have := bounds a
  have := bounds b
  rw [hsorted a, hsorted b]
  omega

theorem civil_date (t : Int) (h : FourDigitYear t) :
    (civil t).common ∧ (civil t).year < 10000 ∧ 1 ≤ (civil t).month ∧
      monthOf (dateOf t) = ((civil t).year * 12 + (civil t).month : ℕ) - 1 ∧
      dayInMonth (dateOf t) = ((civil t).day : ℕ) - 1 := by
  have hpos := dayInMonth_nonneg (dateOf t)
  obtain ⟨hlow, hhigh⟩ := h
  refine ⟨by simpa [civil] using hlow, ?_, ?_, ?_, ?_⟩ <;>
    simp only [civil, if_pos hlow] <;> omega

theorem civil_date_lt (ha : FourDigitYear a) (hb : FourDigitYear b) :
    dateOf a < dateOf b ↔ (civil a).year < (civil b).year ∨ (civil a).year = (civil b).year ∧
      ((civil a).month < (civil b).month ∨ (civil a).month = (civil b).month ∧
        (civil a).day < (civil b).day) := by
  obtain ⟨-, -, hpos, hmonth, hday⟩ := civil_date a ha
  obtain ⟨-, -, hpos', hmonth', hday'⟩ := civil_date b hb
  have hm := (civil_bounds a).1
  have hm' := (civil_bounds b).1
  rw [dateOf_lt_iff, hmonth, hmonth', hday, hday']
  omega

theorem sortKey_lt_iff (ha : FourDigitYear a) (hb : FourDigitYear b) :
    sortKey (civil a).text < sortKey (civil b).text ↔ asSorted a < asSorted b := by
  obtain ⟨hcommon, hyear, -⟩ := civil_date a ha
  obtain ⟨hcommon', hyear', -⟩ := civil_date b hb
  obtain ⟨hm, hd, hh, hmin, hs, hmicro⟩ := civil_bounds a
  obtain ⟨hm', hd', hh', hmin', hs', hmicro'⟩ := civil_bounds b
  have hdate : dateOf a = dateOf b ↔ (civil a).year = (civil b).year ∧
      (civil a).month = (civil b).month ∧ (civil a).day = (civil b).day := by
    have := civil_date_lt ha hb
    have := civil_date_lt hb ha
    omega
  have hclock : a / second = b / second ↔ dateOf a = dateOf b ∧ (civil a).hour = (civil b).hour ∧
      (civil a).minute = (civil b).minute ∧ (civil a).second = (civil b).second := by
    have := second_lt_iff a b
    have := second_lt_iff b a
    omega
  rw [asSorted_lt_iff, second_lt_iff, hclock, hdate, civil_date_lt ha hb]
  simp only [Civil.text, Civil.tail, yearDigits_eq hyear, yearDigits_eq hyear', hcommon, hcommon',
    if_true, List.append_nil]
  rw [field_lt (by omega) (by omega), separator_lt, field_lt (by omega) (by omega), separator_lt,
    field_lt (by omega) (by omega), separator_lt, field_lt (by omega) (by omega), separator_lt,
    field_lt (by omega) (by omega), separator_lt, field_lt (by omega) (by omega),
    fraction_lt hmicro hmicro']
  grind

theorem sortKey_inj {a b : List Char} (ha : ∀ c ∈ a, c ∈ collation)
    (h : sortKey a = sortKey b) : a = b := by
  induction a generalizing b with
  | nil =>
    cases b with
    | nil => rfl
    | cons => simp [sortKey] at h
  | cons c a ih =>
    cases b with
    | nil => simp [sortKey] at h
    | cons c' b =>
      simp only [sortKey, List.map_cons, List.cons.injEq] at h
      have hc : c = c' := (List.idxOf_inj (ha c List.mem_cons_self)).mp h.1
      rw [hc, ih (fun x hx => ha x (List.mem_cons_of_mem _ hx)) h.2]

theorem split_eq {s : Char} {a b x y : List Char} (ha : ∀ c ∈ a, c ≠ s) (hb : ∀ c ∈ b, c ≠ s)
    (h : a ++ s :: x = b ++ s :: y) : a = b ∧ x = y := by
  induction a generalizing b with
  | nil =>
    cases b with
    | nil => simpa using h
    | cons c b =>
      simp only [List.nil_append, List.cons_append, List.cons.injEq] at h
      exact absurd h.1.symm (hb c List.mem_cons_self)
  | cons c a ih =>
    cases b with
    | nil =>
      simp only [List.nil_append, List.cons_append, List.cons.injEq] at h
      exact absurd h.1 (ha c List.mem_cons_self)
    | cons c' b =>
      simp only [List.cons_append, List.cons.injEq] at h
      have hrest := ih (fun x hx => ha x (List.mem_cons_of_mem _ hx))
        (fun x hx => hb x (List.mem_cons_of_mem _ hx)) h.2
      exact ⟨by rw [h.1, hrest.1], hrest.2⟩

theorem trimZeros_mem {cs : List Char} : ∀ c ∈ trimZeros cs, c ∈ cs := by
  induction cs with
  | nil => simp [trimZeros]
  | cons c cs ih =>
    intro x hx
    unfold trimZeros at hx
    split at hx
    · simp at hx
    · rcases List.mem_cons.mp hx with hx | hx
      · exact hx ▸ List.mem_cons_self
      · exact List.mem_cons_of_mem _ (ih x hx)

theorem fraction_mem : ∀ c ∈ fraction f, c = '.' ∨ ∃ d < 10, c = Nat.digitChar d := by
  intro c hc
  unfold fraction at hc
  split at hc
  · simp at hc
  · rcases List.mem_cons.mp hc with hc | hc
    · exact .inl hc
    · exact .inr (fixed_digits 6 f c (trimZeros_mem c hc))

theorem fraction_inj (hf : f < 1000000) (hg : g < 1000000) (h : fraction f = fraction g) :
    f = g := by
  have hrank : microRank f = microRank g :=
    eq_of_lt_iff (fraction_lt hf hg []) (fraction_lt hg hf []) (by rw [h])
  unfold microRank at hrank
  split at hrank <;> split at hrank <;> omega

theorem yearDigits_inj {m : ℕ} (h : yearDigits m = yearDigits n) : m = n := by
  have hlt (k : ℕ) : k < 10 ^ (max 4 (Nat.toDigits 10 k).length) :=
    (Nat.length_toDigits_le_iff (by decide) (by omega)).mp (Nat.le_max_right _ _)
  have hwidth : max 4 (Nat.toDigits 10 m).length = max 4 (Nat.toDigits 10 n).length := by
    simpa [yearDigits, length_fixed] using congrArg List.length h
  have hm := hlt m
  rw [hwidth] at hm
  simp only [yearDigits, hwidth] at h
  exact fixed_inj hm (hlt n) h

theorem text_collation (t : Int) : ∀ c ∈ (civil t).text, c ∈ collation := by
  have hdigit : ∀ d < 10, Nat.digitChar d ∈ collation := by decide
  have hfixed (w n : ℕ) : ∀ c ∈ fixed w n, c ∈ collation := by
    intro c hc
    obtain ⟨d, hd, rfl⟩ := fixed_digits w n c hc
    exact hdigit d hd
  have hfraction (f : ℕ) : ∀ c ∈ fraction f, c ∈ collation := by
    intro c hc
    rcases fraction_mem c hc with rfl | ⟨d, hd, rfl⟩
    · decide
    · exact hdigit d hd
  have hend : ∀ c ∈ "00:00".toList ++ if (civil t).common then [] else " BC".toList,
      c ∈ collation := by
    have hall : ("00:00".toList ++ if (civil t).common then [] else " BC".toList).all
        (fun c => collation.contains c) := by
      cases (civil t).common <;> decide
    simpa using hall
  simp only [Civil.text, Civil.tail, List.forall_mem_append, List.forall_mem_cons]
  simp only [List.forall_mem_append] at hend
  exact ⟨hfixed _ _, by decide, hfixed _ _, by decide, hfixed _ _, by decide, hfixed _ _,
    by decide, hfixed _ _, by decide, hfixed _ _, hfraction _, by decide, hend⟩

theorem Civil.text_inj {c e : Civil}
    (hc : c.month ≤ 12 ∧ c.day ≤ 31 ∧ c.hour < 24 ∧ c.minute < 60 ∧ c.second < 60 ∧
      c.micro < 1000000)
    (he : e.month ≤ 12 ∧ e.day ≤ 31 ∧ e.hour < 24 ∧ e.minute < 60 ∧ e.second < 60 ∧
      e.micro < 1000000) (h : c.text = e.text) : c = e := by
  have hdash : ∀ d < 10, Nat.digitChar d ≠ '-' := by decide
  have htee : ∀ d < 10, Nat.digitChar d ≠ 'T' := by decide
  have hcolon : ∀ d < 10, Nat.digitChar d ≠ ':' := by decide
  have hplus : ∀ d < 10, Nat.digitChar d ≠ '+' := by decide
  have hfraction (f : ℕ) : ∀ x ∈ fraction f, x ≠ '+' := by
    intro x hx
    rcases fraction_mem x hx with rfl | ⟨d, hd, rfl⟩
    · decide
    · exact hplus d hd
  have two {m n : ℕ} (hm : m < 100) (hn : n < 100) (h : fixed 2 m = fixed 2 n) : m = n :=
    fixed_inj hm hn h
  obtain ⟨hyear, h⟩ := split_eq (fixed_ne hdash) (fixed_ne hdash) h
  obtain ⟨hmonth, h⟩ := split_eq (fixed_ne hdash) (fixed_ne hdash) h
  obtain ⟨hday, h⟩ := split_eq (fixed_ne htee) (fixed_ne htee) h
  obtain ⟨hhour, h⟩ := split_eq (fixed_ne hcolon) (fixed_ne hcolon) h
  obtain ⟨hminute, h⟩ := split_eq (fixed_ne hcolon) (fixed_ne hcolon) h
  obtain ⟨hsecond, h⟩ := List.append_inj h (by simp [length_fixed])
  obtain ⟨hmicro, h⟩ := split_eq (hfraction _) (hfraction _) h
  have hcommon : c.common = e.common := by
    have htail := List.append_cancel_left h
    cases hcc : c.common <;> cases hec : e.common <;> simp [hcc, hec] at htail ⊢
  have := yearDigits_inj hyear
  have := two (by omega) (by omega) hmonth
  have := two (by omega) (by omega) hday
  have := two (by omega) (by omega) hhour
  have := two (by omega) (by omega) hminute
  have := two (by omega) (by omega) hsecond
  have := fraction_inj hc.2.2.2.2.2 he.2.2.2.2.2 hmicro
  cases c
  cases e
  simp_all

theorem civil_injective (h : civil a = civil b) : a = b := by
  have hmonth : monthOf (dateOf a) = monthOf (dateOf b) := by
    have hcommon := congrArg Civil.common h
    have hyear := congrArg Civil.year h
    have hmonth := congrArg Civil.month h
    simp only [civil, decide_eq_decide] at hcommon hyear hmonth
    split at hyear <;> split at hyear <;> omega
  have hday := congrArg Civil.day h
  have hhour := congrArg Civil.hour h
  have hminute := congrArg Civil.minute h
  have hsecond := congrArg Civil.second h
  have hmicro := congrArg Civil.micro h
  have hpos := dayInMonth_nonneg (dateOf a)
  have hpos' := dayInMonth_nonneg (dateOf b)
  simp only [civil] at hday hhour hminute hsecond hmicro
  have hdate : dateOf a = dateOf b := by
    unfold dayInMonth at *
    rw [hmonth] at *
    omega
  unfold timeOfDay dateOf Lib.Calendar.day Lib.Calendar.second at *
  omega

theorem createdAtText_injective (h : localeCompare (createdAtText a) (createdAtText b) = 0)
    : a = b := by
  have hkey : sortKey (civil a).text = sortKey (civil b).text := by
    simp only [localeCompare, createdAtText, String.toList_ofList] at h
    split at h
    · simp at h
    · split at h
      · simp at h
      · rename_i h₁ h₂
        exact le_antisymm (not_lt.mp h₂) (not_lt.mp h₁)
  exact civil_injective (Civil.text_inj (civil_bounds a) (civil_bounds b)
    (sortKey_inj (text_collation a) hkey))

theorem localeCompare_neg_iff {a b : String} :
    localeCompare a b < 0 ↔ sortKey a.toList < sortKey b.toList := by
  unfold localeCompare
  split
  · simp_all
  · split <;> simp_all

theorem localeCompare_text (ha : FourDigitYear a) (hb : FourDigitYear b) :
    localeCompare (createdAtText a) (createdAtText b) < 0 ↔ asSorted a < asSorted b := by
  rw [localeCompare_neg_iff]
  simpa only [createdAtText, String.toList_ofList] using sortKey_lt_iff ha hb

end Kindred.Inactivity
