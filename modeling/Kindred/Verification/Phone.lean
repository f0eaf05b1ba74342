import Kindred.Rest.Text

/-! What a phone number is normalised to, whatever way it is written. -/

namespace Kindred.Phone
open Rest (isSpace)

inductive SupportedCountry where
  | IR | TR | AE | IQ | AF | GB | DE
  deriving DecidableEq

def SUPPORTED_COUNTRIES : List SupportedCountry := [.IR, .TR, .AE, .IQ, .AF, .GB, .DE]

namespace SupportedCountry

/-- The E.164 prefix, without `+`. -/
def dial : SupportedCountry → List Char
  | IR => ['9', '8']
  | TR => ['9', '0']
  | AE => ['9', '7', '1']
  | IQ => ['9', '6', '4']
  | AF => ['9', '3']
  | GB => ['4', '4']
  | DE => ['4', '9']

def heads : SupportedCountry → List (List Char)
  | IR => [['9']]
  | TR | AE => [['5']]
  | IQ | AF | GB => [['7']]
  | DE => [['1', '5'], ['1', '6'], ['1', '7']]

def counts : SupportedCountry → List ℕ
  | IR | TR | IQ | GB => [9]
  | AE | AF => [8]
  | DE => [8, 9]

/-- The `national` rule, `/^9\d{9}$/` for `IR`. -/
def national (c : SupportedCountry) (cs : List Char) : Bool :=
  c.heads.any fun head => head.isPrefixOf cs && (cs.drop head.length).all Char.isDigit &&
    c.counts.contains (cs.drop head.length).length

end SupportedCountry

def PERSIAN_DIGITS : List Char := "۰۱۲۳۴۵۶۷۸۹".toList

def ARABIC_DIGITS : List Char := "٠١٢٣٤٥٦٧٨٩".toList

def asciiDigit (ch : Char) : Char :=
  match PERSIAN_DIGITS.idxOf? ch with
  | some p => p.digitChar
  | none =>
    match ARABIC_DIGITS.idxOf? ch with
    | some a => a.digitChar
    | none => ch

def toAsciiDigits (input : List Char) : List Char := input.map asciiDigit

/-- `trim` -/
def trimmed (cs : List Char) : List Char :=
  ((cs.dropWhile isSpace).reverse.dropWhile isSpace).reverse

/-- `/[\s\-().]/` -/
def isSeparator (c : Char) : Bool := isSpace c || ['-', '(', ')', '.'].contains c

inductive Reason where
  | phoneInvalid | phoneCountryNotSupported
  deriving DecidableEq

/-- The E.164 text and the country; none is `ANY_E164_COUNTRY`. -/
abbrev NormalizeResult := Except Reason (List Char × Option SupportedCountry)

def withoutCode (c : SupportedCountry) (raw : List Char) : List Char :=
  if ['0', '0'] ++ c.dial <+: raw then raw.drop (2 + c.dial.length)
  else if c.dial <+: raw ∧ c.dial.length + 6 < raw.length then raw.drop c.dial.length
  else raw

def withoutTrunk (cs : List Char) : List Char := if cs.head? = some '0' then cs.tail else cs

def nationalPart (c : SupportedCountry) (raw : List Char) : List Char :=
  withoutTrunk (withoutCode c raw)

/-- None is not a string, or not a supported country. -/
def normalizePhoneToE164 (input : Option (List Char)) (country : Option SupportedCountry) :
    NormalizeResult :=
  match country, input with
  | none, _ => .error .phoneCountryNotSupported
  | some _, none => .error .phoneInvalid
  | some c, some input =>
    let text := trimmed (toAsciiDigits input)
    let raw := text.filter fun ch => !isSeparator ch
    let raw := if text.head? = some '+' then raw.tail else raw
    if raw = [] ∨ ¬raw.all Char.isDigit then .error .phoneInvalid
    else if c.national (nationalPart c raw) then .ok ('+' :: c.dial ++ nationalPart c raw, some c)
    else .error .phoneInvalid

def knownCountry (digits : List Char) : Option SupportedCountry :=
  (SUPPORTED_COUNTRIES.mergeSort fun a b => b.dial.length ≤ a.dial.length).find? fun c =>
    c.dial.isPrefixOf digits

/-- `/^[1-9]\d{6,14}$/` -/
def wellFormed : List Char → Bool
  | [] => false
  | d :: ds => d.isDigit && d ≠ '0' && ds.all Char.isDigit && 6 ≤ ds.length && ds.length ≤ 14

def plusForm (raw : List Char) : List Char :=
  if ['0', '0'] <+: raw then '+' :: raw.drop 2 else raw

/-- `normalizeInternationalPhone` of what begins with `+`. -/
def normalizeWhole (raw : List Char) : NormalizeResult :=
  match raw with
  | '+' :: digits =>
    if wellFormed digits then
      match knownCountry digits with
      | some c => normalizePhoneToE164 (some raw) (some c)
      | none => .ok (raw, none)
    else .error .phoneInvalid
  | _ => .error .phoneInvalid

def normalizeInternationalPhone : Option (List Char) → NormalizeResult
  | none => .error .phoneInvalid
  | some input =>
    normalizeWhole (plusForm ((trimmed (toAsciiDigits input)).filter fun ch => !isSeparator ch))

def written (input : List Char) : List Char :=
  (toAsciiDigits input).filter fun ch => !isSeparator ch

/-- The number, or the number after the trunk zero. -/
def trunked (n : List Char) : List (List Char) := [n, '0' :: n]

/-- With `+`, `00` or nothing before the country code, and without the code. -/
def spellings (c : SupportedCountry) (n : List Char) : List (List Char) :=
  (trunked n).flatMap fun m => ['+' :: (c.dial ++ m), ['0', '0'] ++ (c.dial ++ m), c.dial ++ m, m]

/-- Every spelling of a number of the country gives its E.164 text, and what is written in
international form is accepted with its own country code only. -/
structure Kept (c : SupportedCountry) (input : List Char) : Prop where
  spelled : ∀ n, c.national n → written input ∈ spellings c n →
    normalizePhoneToE164 (some input) (some c) = .ok ('+' :: c.dial ++ n, some c)
  own : ∀ d r, written input = '+' :: d ∨ written input = ['0', '0'] ++ d →
    normalizePhoneToE164 (some input) (some c) = .ok r → c.dial <+: d

def PlusFirst (input : List Char) : Prop := (trimmed (toAsciiDigits input)).head? = some '+'

instance (input : List Char) : Decidable (PlusFirst input) := by
  unfold PlusFirst
  infer_instance

/-- Nothing but blanks stands before a plus, a bare number does not begin with the country code, and
no plus stands before a number of the country that has no code or another prefix before it. -/
structure Unambiguous (c : SupportedCountry) (input : List Char) : Prop where
  plus : ∀ n, c.national n → ∀ m ∈ trunked n, written input = '+' :: (c.dial ++ m) →
    PlusFirst input
  bare : ∀ n, c.national n → written input = n → ¬c.dial <+: n
  code : PlusFirst input → ∀ n, c.national n → ∀ m ∈ trunked n,
    written input ≠ '+' :: (['0', '0'] ++ (c.dial ++ m)) ∧ (written input = '+' :: m → c.dial <+: m)

variable {cs raw : List Char} {c' : SupportedCountry}

section Table
variable {c : SupportedCountry} {n m : List Char}

theorem dial_digits (c : SupportedCountry) :
    c.dial.all Char.isDigit ∧ c.dial.head? ≠ some '0' ∧ c.dial ≠ [] ∧ c.dial.length ≤ 3 := by
  cases c <;> decide

theorem national_iff : c.national n ↔
    ∃ head ∈ c.heads, ∃ ds, n = head ++ ds ∧ ds.all Char.isDigit ∧ ds.length ∈ c.counts := by
  unfold SupportedCountry.national
  simp only [List.any_eq_true, Bool.and_eq_true, List.isPrefixOf_iff_prefix,
    List.contains_iff_mem]
  constructor
  · rintro ⟨head, hhead, ⟨⟨ds, rfl⟩, hdigits⟩, hcount⟩
    rw [List.drop_left] at hdigits hcount
    exact ⟨head, hhead, ds, rfl, hdigits, hcount⟩
  · rintro ⟨head, hhead, ds, rfl, hdigits, hcount⟩
    have hdrop : (head ++ ds).drop head.length = ds := List.drop_left
    rw [← hdrop] at hdigits hcount
    exact ⟨head, hhead, ⟨List.prefix_append _ _, hdigits⟩, hcount⟩

theorem national_digits (h : c.national n) :
    n.all Char.isDigit ∧ n.head? ≠ some '0' ∧ 9 ≤ n.length ∧ n.length ≤ 11 := by
  obtain ⟨head, hhead, ds, rfl, hdigits, hcount⟩ := national_iff.mp h
  have htable : ∀ head ∈ c.heads, head.all Char.isDigit ∧ head.head? ≠ some '0' ∧ head ≠ [] ∧
      ∀ k ∈ c.counts, 9 ≤ head.length + k ∧ head.length + k ≤ 11 := by
    cases c <;> decide
  obtain ⟨hall, hzero, hne, hlength⟩ := htable head hhead
  obtain ⟨d, head, rfl⟩ := List.exists_cons_of_ne_nil hne
  rw [List.all_append, hall, hdigits, List.length_append]
  exact ⟨rfl, hzero, hlength _ hcount⟩

theorem head_append_ne_zero (c : SupportedCountry) : (c.dial ++ cs).head? ≠ some '0' := by
  cases c <;> simp [SupportedCountry.dial]

theorem not_prefix_zero (c : SupportedCountry) : ¬c.dial <+: '0' :: cs := by
  cases c <;> simp [SupportedCountry.dial]

/-- No country code begins another. -/
theorem dial_unique (h : c.dial <+: cs) (h' : c'.dial <+: cs) : c = c' := by
  have hone := List.prefix_or_prefix_of_prefix h h'
  cases c <;> cases c' <;> first | rfl | exact absurd hone (by decide)

theorem e164_injective {n' : List Char} (h : '+' :: c.dial ++ n = '+' :: c'.dial ++ n')
    : c = c' ∧ n = n' := by
  have htail : c.dial ++ n = c'.dial ++ n' := List.tail_eq_of_cons_eq h
  have hc : c = c' := dial_unique (List.prefix_append c.dial n) ⟨n', htail.symm⟩
  subst hc
  exact ⟨rfl, List.append_cancel_left htail⟩

end Table

section Stripping
variable {c : SupportedCountry} {n m raw : List Char}

theorem withoutTrunk_trunked (h : c.national n) (hm : m ∈ trunked n) : withoutTrunk m = n := by
  obtain rfl | hm := List.mem_cons.mp hm
  · exact if_neg (national_digits h).2.1
  · rw [List.mem_singleton.mp hm]
    rfl

theorem mem_trunked_withoutTrunk (cs : List Char) : cs ∈ trunked (withoutTrunk cs) := by
  unfold withoutTrunk
  split
  · rename_i hzero
    obtain ⟨ds, rfl⟩ := List.head?_eq_some_iff.mp hzero
    exact List.mem_cons_of_mem _ (List.mem_singleton.mpr rfl)
  · exact List.mem_cons_self

theorem length_trunked (hm : m ∈ trunked n) : n.length ≤ m.length ∧ m.length ≤ n.length + 1 := by
  obtain rfl | hm := List.mem_cons.mp hm
  · omega
  · rw [List.mem_singleton.mp hm, List.length_cons]
    omega

theorem withoutCode_dial (hm : 6 < m.length) : withoutCode c (c.dial ++ m) = m := by
  unfold withoutCode
  rw [if_neg, if_pos ⟨List.prefix_append _ _, by rw [List.length_append]; omega⟩, List.drop_left]
  rintro ⟨cs, hcs⟩
  have hhead : (c.dial ++ m).head? ≠ some '0' := head_append_ne_zero c
  rw [← hcs] at hhead
  exact hhead rfl

theorem withoutCode_zeros : withoutCode c (['0', '0'] ++ (c.dial ++ m)) = m := by
  unfold withoutCode
  rw [if_pos ⟨m, List.append_assoc _ _ _⟩, ← List.append_assoc]
  exact List.drop_left' (by rw [List.length_append]; rfl)

theorem withoutCode_none (hzeros : ¬['0', '0'] ++ c.dial <+: raw) (hdial : ¬c.dial <+: raw) :
    withoutCode c raw = raw := by
  unfold withoutCode
  rw [if_neg hzeros, if_neg fun h => hdial h.1]

theorem nationalPart_trunked (h : c.national n) (hm : m ∈ trunked n) :
    nationalPart c (c.dial ++ m) = n ∧ nationalPart c (['0', '0'] ++ (c.dial ++ m)) = n := by
  have hlong : 6 < m.length := by
    have hn := (national_digits h).2.2.1
    have hle := (length_trunked hm).1
    omega
  unfold nationalPart
  rw [withoutCode_dial hlong, withoutCode_zeros]
  exact ⟨withoutTrunk_trunked h hm, withoutTrunk_trunked h hm⟩

theorem nationalPart_bare (h : c.national n) (hm : m ∈ trunked n) (hbare : ¬c.dial <+: m) :
    nationalPart c m = n := by
  unfold nationalPart
  rw [withoutCode_none _ hbare]
  · exact withoutTrunk_trunked h hm
  · -- two zeros do not begin a number with its trunk zero
    rintro ⟨cs, hcs⟩
    have hzero := (national_digits h).2.1
    obtain rfl | hm := List.mem_cons.mp hm
    · exact hzero (hcs ▸ rfl)
    · rw [List.mem_singleton.mp hm] at hcs
      exact hzero (List.tail_eq_of_cons_eq hcs ▸ rfl)

/-- Such numbers are Iranian, and too short without their first two digits. -/
theorem not_national_nationalPart (h : c.national n) (hdial : c.dial <+: n) :
    c.national (nationalPart c n) = false := by
  obtain ⟨head, hhead, ds, rfl, -, hcount⟩ := national_iff.mp h
  cases c with
  | IR =>
    have hhead : head = ['9'] := List.mem_singleton.mp hhead
    have hlength : (head ++ ds).length = 10 := by
      rw [hhead, List.length_append, List.mem_singleton.mp hcount]
      rfl
    rw [← Bool.not_eq_true]
    intro hnational
    obtain ⟨head', hhead', ds', heq, -, hcount'⟩ := national_iff.mp hnational
    have hlength' := congrArg List.length heq
    rw [List.length_append, List.mem_singleton.mp hcount', List.mem_singleton.mp hhead'] at hlength'
    have hcode : (withoutCode .IR (head ++ ds)).length = 8 := by
      unfold withoutCode
      rw [if_neg, if_pos ⟨hdial, by rw [hlength]; decide⟩, List.length_drop, hlength]
      · rfl
      · rintro ⟨cs, hcs⟩
        exact (national_digits h).2.1 (hcs ▸ rfl)
    have hle := (length_trunked (mem_trunked_withoutTrunk (withoutCode .IR (head ++ ds)))).1
    rw [hcode] at hle
    unfold nationalPart at hlength'
    rw [hlength'] at hle
    exact absurd hle (by decide)
  | TR | AE | IQ | AF | GB =>
    rw [List.mem_singleton.mp hhead] at hdial
    exact absurd (List.cons_prefix_cons.mp hdial).1 (by decide)
  | DE =>
    obtain rfl | rfl | rfl : head = _ ∨ head = _ ∨ head = _ := by
      simpa [SupportedCountry.heads] using hhead
    all_goals exact absurd (List.cons_prefix_cons.mp hdial).1 (by decide)

theorem of_nationalPart (h : nationalPart c raw = n) :
    c.dial <+: raw ∨ ∃ m ∈ trunked n, raw = m ∨ raw = ['0', '0'] ++ (c.dial ++ m) := by
  by_cases hdial : c.dial <+: raw
  · exact .inl hdial
  by_cases hzeros : ['0', '0'] ++ c.dial <+: raw
  · obtain ⟨m, rfl⟩ := hzeros
    refine .inr ⟨m, ?_, .inr (List.append_assoc _ _ _)⟩
    have hpart : withoutCode c (['0', '0'] ++ c.dial ++ m) = m := by
      rw [List.append_assoc, withoutCode_zeros]
    rw [← h, nationalPart, hpart]
    exact mem_trunked_withoutTrunk m
  · refine .inr ⟨raw, ?_, .inl rfl⟩
    rw [← h, nationalPart, withoutCode_none hzeros hdial]
    exact mem_trunked_withoutTrunk raw

end Stripping

section Written
variable {c : SupportedCountry} {input d n m : List Char}

theorem filter_dropWhile_space (cs : List Char) :
    (cs.dropWhile isSpace).filter (fun ch => !isSeparator ch) =
      cs.filter fun ch => !isSeparator ch := by
  induction cs with
  | nil => rfl
  | cons ch cs ih =>
    by_cases hspace : isSpace ch
    · rw [List.dropWhile_cons_of_pos hspace, ih, List.filter_cons_of_neg]
      simp [isSeparator, hspace]
    · rw [List.dropWhile_cons_of_neg hspace]

theorem filter_trimmed (cs : List Char) :
    (trimmed cs).filter (fun ch => !isSeparator ch) = cs.filter fun ch => !isSeparator ch := by
  rw [trimmed, List.filter_reverse, filter_dropWhile_space, List.filter_reverse,
    List.reverse_reverse, filter_dropWhile_space]

theorem PlusFirst.written (h : PlusFirst input) : ∃ d, written input = '+' :: d := by
  obtain ⟨cs, hcs⟩ := List.head?_eq_some_iff.mp h
  rw [Phone.written, ← filter_trimmed, hcs, List.filter_cons_of_pos (by decide)]
  exact ⟨_, rfl⟩

def rawDigits (input : List Char) : List Char :=
  if PlusFirst input then (written input).tail else written input

theorem rawDigits_plus (h : PlusFirst input) (hd : written input = '+' :: d) :
    rawDigits input = d := by
  rw [rawDigits, if_pos h, hd, List.tail_cons]

theorem rawDigits_digits (h : (written input).all Char.isDigit) :
    rawDigits input = written input := by
  refine if_neg fun hplus => ?_
  obtain ⟨d, hd⟩ := hplus.written
  rw [hd] at h
  simp at h

theorem normalizePhoneToE164_ok {r : List Char × Option SupportedCountry} :
    normalizePhoneToE164 (some input) (some c) = .ok r ↔
      (rawDigits input).all Char.isDigit ∧ c.national (nationalPart c (rawDigits input)) ∧
        r = ('+' :: c.dial ++ nationalPart c (rawDigits input), some c) := by
  have hraw : (if (trimmed (toAsciiDigits input)).head? = some '+' then
      ((trimmed (toAsciiDigits input)).filter fun ch => !isSeparator ch).tail
      else (trimmed (toAsciiDigits input)).filter fun ch => !isSeparator ch) = rawDigits input := by
    rw [filter_trimmed]
    rfl
  unfold normalizePhoneToE164
  dsimp only
  rw [hraw]
  by_cases hdigits : rawDigits input = [] ∨ ¬(rawDigits input).all Char.isDigit
  · rw [if_pos hdigits]
    constructor
    · nofun
    · rintro ⟨hall, hnational, -⟩
      obtain hempty | hnot := hdigits
      · rw [hempty] at hnational
        cases c <;> cases hnational
      · exact absurd hall hnot
  · rw [if_neg hdigits]
    rw [not_or, not_not] at hdigits
    by_cases hnational : c.national (nationalPart c (rawDigits input))
    · rw [if_pos hnational]
      constructor
      · intro h
        cases h
        exact ⟨hdigits.2, hnational, rfl⟩
      · rintro ⟨-, -, rfl⟩
        rfl
    · rw [if_neg hnational]
      constructor
      · nofun
      · rintro ⟨-, h, -⟩
        exact absurd h hnational

theorem normalize_part (hall : (rawDigits input).all Char.isDigit) (hn : c.national n)
    (hpart : nationalPart c (rawDigits input) = n) :
    normalizePhoneToE164 (some input) (some c) = .ok ('+' :: c.dial ++ n, some c) :=
  normalizePhoneToE164_ok.mpr ⟨hall, hpart.symm ▸ hn, by rw [hpart]⟩

theorem trunked_digits (hn : c.national n) (hm : m ∈ trunked n) : m.all Char.isDigit := by
  obtain rfl | hm := List.mem_cons.mp hm
  · exact (national_digits hn).1
  · rw [List.mem_singleton.mp hm]
    exact (national_digits hn).1

theorem code_digits (hn : c.national n) (hm : m ∈ trunked n) : (c.dial ++ m).all Char.isDigit := by
  rw [List.all_append, (dial_digits c).1, trunked_digits hn hm]
  rfl

theorem Kept.unambiguous (h : Kept c input) : Unambiguous c input where
  plus n hn m hm heq := by
    by_contra hnot
    have hok := h.spelled n hn (List.mem_flatMap.mpr ⟨m, hm, heq ▸ List.mem_cons_self⟩)
    have hall := (normalizePhoneToE164_ok.mp hok).1
    rw [rawDigits, if_neg hnot, heq] at hall
    simp at hall
  bare n hn heq hdial := by
    have hok := h.spelled n hn (List.mem_flatMap.mpr ⟨n, List.mem_cons_self, by simp [heq]⟩)
    have hraw : rawDigits input = n := by
      rw [rawDigits_digits (heq ▸ (national_digits hn).1), heq]
    have hnational := (normalizePhoneToE164_ok.mp hok).2.1
    rw [hraw, not_national_nationalPart hn hdial] at hnational
    cases hnational
  code hplus n hn m hm := by
    constructor
    · intro heq
      have hok := normalize_part (n := n) (by
        rw [rawDigits_plus hplus heq, List.all_append, code_digits hn hm]
        rfl) hn (by rw [rawDigits_plus hplus heq]; exact (nationalPart_trunked hn hm).2)
      exact not_prefix_zero c (h.own _ _ (.inl heq) hok)
    · intro heq
      by_contra hbare
      have hok := normalize_part (n := n) (by
        rw [rawDigits_plus hplus heq]
        exact trunked_digits hn hm) hn (by
          rw [rawDigits_plus hplus heq]
          exact nationalPart_bare hn hm hbare)
      exact hbare (h.own _ _ (.inl heq) hok)

theorem Unambiguous.kept (h : Unambiguous c input) : Kept c input where
  spelled n hn hmem := by
    obtain ⟨m, hm, hmem⟩ := List.mem_flatMap.mp hmem
    simp only [List.mem_cons, List.not_mem_nil, or_false] at hmem
    obtain heq | heq | heq | heq := hmem
    · have hraw := rawDigits_plus (h.plus n hn m hm heq) heq
      refine normalize_part ?_ hn ?_ <;> rw [hraw]
      · exact code_digits hn hm
      · exact (nationalPart_trunked hn hm).1
    all_goals
      have hall : (written input).all Char.isDigit := by
        rw [heq]
        first
        | exact code_digits hn hm
        | exact trunked_digits hn hm
      have hraw := (rawDigits_digits hall).trans heq
      refine normalize_part (by rw [rawDigits_digits hall]; exact hall) hn ?_
      rw [hraw]
    · exact (nationalPart_trunked hn hm).2
    · exact (nationalPart_trunked hn hm).1
    · obtain rfl | hm' := List.mem_cons.mp hm
      · exact nationalPart_bare hn hm (h.bare m hn heq)
      · rw [List.mem_singleton.mp hm'] at hm ⊢
        exact nationalPart_bare hn hm (not_prefix_zero c)
  own d r hd hok := by
    obtain ⟨hall, hnational, -⟩ := normalizePhoneToE164_ok.mp hok
    obtain hd | hd := hd
    · have hplus : PlusFirst input := by
        by_contra hnot
        rw [rawDigits, if_neg hnot, hd] at hall
        simp at hall
      rw [rawDigits_plus hplus hd] at hnational
      generalize hn : nationalPart c d = n at hnational
      obtain hdial | ⟨m, hm, heq | heq⟩ := of_nationalPart hn
      · exact hdial
      · exact heq ▸ (h.code hplus n hnational m hm).2 (heq ▸ hd)
      · exact absurd (heq ▸ hd) (h.code hplus n hnational m hm).1
    · have hraw : rawDigits input = ['0', '0'] ++ d := by
        refine (if_neg fun hplus => ?_).trans hd
        obtain ⟨e, he⟩ := hplus.written
        rw [he] at hd
        exact absurd hd (by simp)
      rw [hraw] at hnational
      generalize hn : nationalPart c (['0', '0'] ++ d) = n at hnational
      obtain hdial | ⟨m, hm, heq | heq⟩ := of_nationalPart hn
      · exact absurd hdial (not_prefix_zero c)
      · -- a number does not begin with a zero, nor with two after its trunk zero
        have hzero := (national_digits hnational).2.1
        obtain rfl | hm := List.mem_cons.mp hm
        · exact absurd (heq ▸ rfl) hzero
        · rw [List.mem_singleton.mp hm] at heq
          exact absurd (List.tail_eq_of_cons_eq heq ▸ rfl) hzero
      · exact List.append_cancel_left heq ▸ List.prefix_append _ _

end Written

section International
variable {c : SupportedCountry} {input d n m : List Char}

theorem knownCountry_eq_some (h : c.dial <+: d) : knownCountry d = some c := by
  unfold knownCountry
  cases hfind : List.find? _ _ with
  | none =>
    have hnone := List.find?_eq_none.mp hfind c (List.mem_mergeSort.mpr (by cases c <;> decide))
    exact absurd (List.isPrefixOf_iff_prefix.mpr h) hnone
  | some c' =>
    have hsome := List.find?_some hfind
    rw [dial_unique (List.isPrefixOf_iff_prefix.mp hsome) h]

theorem of_knownCountry (h : knownCountry d = some c) : c.dial <+: d := by
  have hfound := List.find?_some h
  exact List.isPrefixOf_iff_prefix.mp hfound

theorem digit_plain {ch : Char} (h : ch.isDigit) : asciiDigit ch = ch ∧ isSeparator ch = false := by
  have hnot (cs : List Char) (hcs : cs.all fun ch => !ch.isDigit) : ch ∉ cs := by
    intro hmem
    simpa [h] using List.all_eq_true.mp hcs ch hmem
  have hhigh : ¬ '\u2000' ≤ ch := by
    intro hle
    simp only [Char.isDigit, Bool.and_eq_true, decide_eq_true_eq] at h
    exact absurd (Char.le_trans hle h.2) (by decide)
  constructor
  · unfold asciiDigit
    rw [List.idxOf?_eq_none_iff.mpr (hnot PERSIAN_DIGITS (by decide)),
      List.idxOf?_eq_none_iff.mpr (hnot ARABIC_DIGITS (by decide))]
  · unfold isSeparator isSpace
    simp only [Bool.or_eq_false_iff, Bool.and_eq_false_iff, decide_eq_false_iff_not]
    refine ⟨⟨hnot _ (by decide), .inl hhigh⟩, ?_⟩
    rw [← Bool.not_eq_true, List.contains_iff_mem]
    exact hnot _ (by decide)

/-- Digits and pluses are written as they are. -/
theorem written_ascii (h : ∀ ch ∈ cs, ch.isDigit ∨ ch = '+') :
    trimmed (toAsciiDigits cs) = cs ∧ written cs = cs := by
  have hchar (ch : Char) (hch : ch.isDigit ∨ ch = '+') :
      asciiDigit ch = ch ∧ isSeparator ch = false := by
    obtain hdigit | rfl := hch
    · exact digit_plain hdigit
    · decide
  have hascii : toAsciiDigits cs = cs := by
    exact (List.map_congr_left fun ch hmem => (hchar ch (h ch hmem)).1).trans (List.map_id cs)
  have hblank (ds : List Char) (hds : ∀ ch ∈ ds, ch.isDigit ∨ ch = '+') :
      ds.dropWhile isSpace = ds := by
    cases ds with
    | nil => rfl
    | cons ch ds =>
      have hsep := (hchar ch (hds ch List.mem_cons_self)).2
      unfold isSeparator at hsep
      rw [Bool.or_eq_false_iff] at hsep
      exact List.dropWhile_cons_of_neg (by rw [hsep.1]; decide)
  rw [written, hascii, trimmed, hblank cs h, hblank cs.reverse fun ch hmem =>
    h ch (List.mem_reverse.mp hmem), List.reverse_reverse]
  exact ⟨rfl, List.filter_eq_self.mpr fun ch hmem => by rw [(hchar ch (h ch hmem)).2]; rfl⟩

theorem normalize_code (hn : c.national n) (hm : m ∈ trunked n) :
    normalizePhoneToE164 (some ('+' :: (c.dial ++ m))) (some c) =
      .ok ('+' :: c.dial ++ n, some c) := by
  have hascii : ∀ ch ∈ '+' :: (c.dial ++ m), ch.isDigit ∨ ch = '+' := by
    intro ch hch
    obtain rfl | hch := List.mem_cons.mp hch
    · exact .inr rfl
    · exact .inl (List.all_eq_true.mp (code_digits hn hm) ch hch)
  obtain ⟨htrimmed, hwritten⟩ := written_ascii hascii
  have hplus : PlusFirst ('+' :: (c.dial ++ m)) := by
    rw [PlusFirst, htrimmed]
    rfl
  have hraw := rawDigits_plus hplus hwritten
  refine normalize_part ?_ hn ?_ <;> rw [hraw]
  · exact code_digits hn hm
  · exact (nationalPart_trunked hn hm).1

theorem wellFormed_code (hn : c.national n) (hm : m ∈ trunked n) : wellFormed (c.dial ++ m) := by
  obtain ⟨-, hzero, hne, hdial⟩ := dial_digits c
  have hall := code_digits hn hm
  have hlength := (national_digits hn).2.2
  have hle := length_trunked hm
  obtain ⟨d, ds, hcons⟩ := List.exists_cons_of_ne_nil hne
  rw [hcons] at hzero hdial hall ⊢
  rw [List.cons_append, List.all_cons, Bool.and_eq_true] at hall
  have hd : d ≠ '0' := fun h => hzero (h ▸ rfl)
  simp only [wellFormed, List.cons_append, hall.1, hall.2, List.length_append,
    List.length_cons] at *
  simp [hd]
  omega

/-- The digits of a number that is written in international form. -/
def Writes (input d : List Char) : Prop :=
  written input = '+' :: d ∨ written input = ['0', '0'] ++ d

theorem plusForm_eq_iff : plusForm raw = '+' :: d ↔ raw = '+' :: d ∨ raw = ['0', '0'] ++ d := by
  unfold plusForm
  split
  · rename_i h
    obtain ⟨cs, rfl⟩ := h
    simp
  · rename_i h
    constructor
    · exact .inl
    · rintro (heq | rfl)
      · exact heq
      · exact absurd (List.prefix_append _ _) h

theorem normalizeWhole_ok {e : List Char} {k : Option SupportedCountry}
    (h : normalizeWhole raw = .ok (e, k)) :
    ∃ d, raw = '+' :: d ∧ (k = none → e = '+' :: d) ∧ ∀ c ∈ k, c.dial <+: d := by
  unfold normalizeWhole at h
  split at h
  · rename_i d
    refine ⟨d, rfl, ?_⟩
    split at h
    · cases hknown : knownCountry d with
      | none =>
        rw [hknown] at h
        cases h
        exact ⟨fun _ => rfl, nofun⟩
      | some c =>
        rw [hknown] at h
        cases (normalizePhoneToE164_ok.mp h).2.2
        exact ⟨nofun, fun c' hc' => Option.some.inj hc' ▸ of_knownCountry hknown⟩
    · cases h
  · cases h

/-- Every number that is written whole gives its E.164 text, and what is accepted keeps its code. -/
theorem normalizeInternationalPhone_keeps (input : List Char) :
    (∀ c n, c.national n → ∀ m ∈ trunked n, Writes input (c.dial ++ m) →
      normalizeInternationalPhone (some input) = .ok ('+' :: c.dial ++ n, some c)) ∧
    ∀ e k, normalizeInternationalPhone (some input) = .ok (e, k) →
      ∃ d, Writes input d ∧ (k = none → e = '+' :: d) ∧ ∀ c ∈ k, c.dial <+: d := by
  have heq : normalizeInternationalPhone (some input) =
      normalizeWhole (plusForm (written input)) := by
    rw [normalizeInternationalPhone, filter_trimmed]
    rfl
  rw [heq]
  constructor
  · intro c n hn m hm hwrites
    rw [plusForm_eq_iff.mpr hwrites]
    simp only [normalizeWhole, wellFormed_code hn hm, if_true,
      knownCountry_eq_some (List.prefix_append c.dial m)]
    exact normalize_code hn hm
  · intro e k h
    obtain ⟨d, hd, hnone, hsome⟩ := normalizeWhole_ok h
    exact ⟨d, plusForm_eq_iff.mp hd, hnone, hsome⟩

end International

/-- A text is normalised as it should be just where it is unambiguous. An E.164 text is always, to
itself; no two numbers have one E.164 text; and so it is with numbers that are written whole. -/
theorem phone_kept_iff (c : SupportedCountry) (input : List Char) :
    (Kept c input ↔ Unambiguous c input) ∧
    (∀ n, c.national n → normalizePhoneToE164 (some ('+' :: c.dial ++ n)) (some c) =
      .ok ('+' :: c.dial ++ n, some c)) ∧
    (∀ n c' n', '+' :: c.dial ++ n = '+' :: c'.dial ++ n' → c = c' ∧ n = n') ∧
    (∀ c n, c.national n → ∀ m ∈ trunked n, Writes input (c.dial ++ m) →
      normalizeInternationalPhone (some input) = .ok ('+' :: c.dial ++ n, some c)) ∧
    ∀ e k, normalizeInternationalPhone (some input) = .ok (e, k) →
      ∃ d, Writes input d ∧ (k = none → e = '+' :: d) ∧ ∀ c ∈ k, c.dial <+: d :=
  ⟨⟨Kept.unambiguous, Unambiguous.kept⟩, fun _ hn => normalize_code hn List.mem_cons_self,
    fun _ _ _ => e164_injective, (normalizeInternationalPhone_keeps input).1,
    (normalizeInternationalPhone_keeps input).2⟩

/-- An Indian number is taken for an Iranian one, and an Iranian one is not taken without its trunk
zero. -/
theorem phone_mistaken :
    normalizePhoneToE164 (some "+9121234567".toList) (some .IR) =
        .ok ("+989121234567".toList, some .IR) ∧
      ¬Kept .IR "+9121234567".toList ∧ ¬Kept .IR "9812345678".toList := by
  refine ⟨by decide +kernel, fun h => ?_, fun h => ?_⟩
  · have hpre := h.own _ _ (.inl (by decide +kernel : _ = '+' :: "9121234567".toList)) rfl
    exact absurd hpre (by decide +kernel)
  · have hok := h.spelled "9812345678".toList (by decide +kernel) (by decide +kernel)
    exact absurd hok (by decide +kernel)

end Kindred.Phone
