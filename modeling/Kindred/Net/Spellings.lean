import Mathlib.Data.List.Induction
import Mathlib.Data.List.TakeWhile
import Kindred.Net.Addresses

/-! How the texts of an address read: in either case, from digits, between colons. -/

namespace Kindred.Net

variable {c : Char} {cs : List Char} {n : ℕ} {sep : Char} {v4Tail : Bool} {ps : List (List Char)}

theorem ascii_cases {p : Char → Bool} (h : ((List.range 128).map Char.ofNat).all p = true)
    (hc : c.toNat < 128) : p c = true := by
  refine List.all_eq_true.mp h c (List.mem_map.mpr ⟨c.toNat, List.mem_range.mpr hc, ?_⟩)
  exact Char.ofNat_toNat c

theorem toLower_keeps (hc : c.toNat < 128) :
    c.toLower.toNat < 128 ∧ c.toLower.isUpper = false ∧ isHex c.toLower = isHex c ∧
      (isHex c = true → digitValue c.toLower = digitValue c) ∧
      (c.isDigit = true → c.toLower = c) ∧ (c.toLower = ':' ↔ c = ':') ∧
      (c.toLower = '.' ↔ c = '.') ∧ (c.toLower = '%' ↔ c = '%') := by
  have h := ascii_cases (p := fun c => c.toLower.toNat < 128 ∧ c.toLower.isUpper = false ∧
    isHex c.toLower = isHex c ∧ (isHex c = true → digitValue c.toLower = digitValue c) ∧
    (c.isDigit = true → c.toLower = c) ∧ (c.toLower = ':' ↔ c = ':') ∧
    (c.toLower = '.' ↔ c = '.') ∧ (c.toLower = '%' ↔ c = '%')) (by decide +kernel) hc
  exact of_decide_eq_true h

def low (cs : List Char) : List Char := cs.map Char.toLower

def Ascii (cs : List Char) : Prop := ∀ c ∈ cs, c.toNat < 128

theorem lowered_eq (h : Ascii cs) : lowered cs = low cs := by
  unfold lowered Rest.lower low
  rw [String.toList_map, String.toList_ofList]
  refine List.map_congr_left fun c hc => if_neg ?_
  rintro rfl
  exact absurd (h _ hc) (by decide)

theorem low_low (h : Ascii cs) : low (low cs) = low cs := by
  unfold low
  rw [List.map_map]
  refine List.map_congr_left fun c hc => ?_
  have h2 : ∀ c : Char, c.toNat < 128 → c.toLower.toLower = c.toLower := fun c hc => by
    have := ascii_cases (p := fun c => c.toLower.toLower = c.toLower) (by decide +kernel) hc
    simpa using this
  exact h2 c (h c hc)

theorem number_append (base : ℕ) (cs ds : List Char) :
    number base (cs ++ ds) = ds.foldl (fun n c => base * n + digitValue c) (number base cs) := by
  exact List.foldl_append

theorem number_low {base : ℕ} (h : cs.all isHex = true) (ha : Ascii cs) :
    number base (low cs) = number base cs := by
  induction cs using List.reverseRecOn with
  | nil => rfl
  | append_singleton cs c ih =>
    have hc := toLower_keeps (ha c (by simp))
    rw [List.all_append, Bool.and_eq_true] at h
    have hcs := ih h.1 fun c hc => ha c (by simp [hc])
    unfold low at hcs ⊢
    rw [List.map_append, number_append, number_append, hcs]
    simp only [List.map_cons, List.map_nil, List.foldl_cons, List.foldl_nil]
    rw [hc.2.2.2.1 (by simpa using h.2)]

theorem hex_spec (n : ℕ) :
    (hex n).all (fun c => isHex c && !c.isUpper && c != ':' && c != '%') = true ∧
      number 16 (hex n) = n := by
  unfold hex
  induction n using Nat.strongRecOn with
  | ind n ih =>
    rw [Nat.toDigits_eq_if (by decide)]
    have hdigit : ∀ d < 16, (fun c => isHex c && !c.isUpper && c != ':' && c != '%')
        d.digitChar = true ∧ digitValue d.digitChar = d := by decide
    split_ifs with hn
    · simpa [number] using hdigit n hn
    · obtain ⟨hall, hnumber⟩ := ih (n / 16) (by omega)
      have hd := hdigit (n % 16) (Nat.mod_lt _ (by decide))
      refine ⟨by simpa [List.all_append, hd.1] using hall, ?_⟩
      rw [number_append, hnumber, List.foldl_cons, List.foldl_nil, hd.2]
      omega

theorem hex_length (h : n < 65536) : (hex n).length ≤ 4 :=
  (Nat.length_toDigits_le_iff (by decide) (by decide)).mpr h

theorem isV6Seg_hex (h : n < 65536) : isV6Seg (hex n) = true := by
  have hchars := (hex_spec n).1
  simp only [List.all_eq_true, Bool.and_eq_true] at hchars
  have hne : hex n ≠ [] := Nat.toDigits_ne_nil
  simp only [isV6Seg, Bool.and_eq_true, List.all_eq_true, bne_iff_ne, decide_eq_true_eq]
  exact ⟨⟨hne, hex_length h⟩, fun c hc => (hchars c hc).1.1.1⟩

theorem splitOn_low (hsep : ∀ c : Char, c.toNat < 128 → (c.toLower = sep ↔ c = sep))
    (h : Ascii cs) : (low cs).splitOn sep = (cs.splitOn sep).map low := by
  induction cs with
  | nil => rfl
  | cons c cs ih =>
    have hc := hsep c (h c (by simp))
    have hcs := ih fun d hd => h d (List.mem_cons_of_mem c hd)
    show (c.toLower :: low cs).splitOn sep = _
    rw [List.splitOn_cons_eq_if_modifyHead, List.splitOn_cons_eq_if_modifyHead, hcs]
    by_cases he : c = sep
    · have hlow : c.toLower = sep := hc.mpr he
      rw [if_pos (beq_iff_eq.mpr hlow), if_pos (beq_iff_eq.mpr he)]
      rfl
    · have hne : ¬c.toLower = sep := fun h => he (hc.mp h)
      simp only [beq_iff_eq, hne, he, if_false]
      cases cs.splitOn sep <;> rfl

theorem cutDouble_low (h : Ascii cs) :
    cutDouble (low cs) = (cutDouble cs).map fun r => (low r.1, low r.2) := by
  have hcolon {c : Char} (hc : c.toNat < 128) : c.toLower = ':' ↔ c = ':' :=
    (toLower_keeps hc).2.2.2.2.2.1
  fun_induction cutDouble cs with
  | case1 cs => rfl
  | case2 c cs hne ih =>
    have hcs := ih fun d hd => h d (List.mem_cons_of_mem c hd)
    show cutDouble (c.toLower :: low cs) = _
    rw [cutDouble, hcs]
    · cases cutDouble cs <;> rfl
    · intro rest hc hrest
      cases cs with
      | nil => cases hrest
      | cons d cs =>
        obtain ⟨hd, -⟩ := List.cons.inj hrest
        exact hne cs ((hcolon (h c (by simp))).mp hc)
          (by rw [(hcolon (h d (by simp))).mp hd])
  | case3 => rfl

theorem isV6Seg_low (h : Ascii cs) : isV6Seg (low cs) = isV6Seg cs := by
  have hall : (low cs).all isHex = cs.all isHex := by
    rw [Bool.eq_iff_iff, List.all_eq_true, List.all_eq_true]
    constructor
    · exact fun hc c hmem => (toLower_keeps (h c hmem)).2.2.1 ▸ hc _ (List.mem_map_of_mem hmem)
    · intro hc c hmem
      obtain ⟨d, hd, rfl⟩ := List.mem_map.mp hmem
      rw [(toLower_keeps (h d hd)).2.2.1]
      exact hc d hd
  have hne : (low cs != []) = (cs != []) := by cases cs <;> rfl
  have hlength : (low cs).length = cs.length := List.length_map _
  unfold isV6Seg
  rw [hall, hne, hlength]

theorem low_of_isV4 (h : isV4 cs = true) : low cs = cs := by
  have hchar : ∀ c ∈ cs, c.toLower = c := by
    intro c hc
    simp only [isV4, Bool.and_eq_true, List.all_eq_true] at h
    rcases @mem_splitOn '.' _ _ hc with rfl | ⟨p, hp, hcp⟩
    · rfl
    · have hseg := h.2 p hp
      simp only [isV4Seg, Bool.and_eq_true, List.all_eq_true] at hseg
      have hlt := lt_128_of_isAddressChar (chars_of_isV4Seg (h.2 p hp) c hcp)
      exact (toLower_keeps hlt).2.2.2.2.1 (hseg.1.1 c hcp)
  exact (List.map_congr_left hchar).trans (List.map_id cs)

theorem ascii_of_chars (h : ∀ c ∈ cs, isAddressChar c = true) : Ascii cs :=
  fun c hc => lt_128_of_isAddressChar (h c hc)

variable {p : List Char}

theorem mem_intercalate_of_mem {l : List (List Char)} (hp : p ∈ l) (hc : c ∈ p) :
    c ∈ [sep].intercalate l := by
  induction l with
  | nil => cases hp
  | cons q l ih =>
    cases l with
    | nil =>
      rw [List.mem_singleton.mp hp] at hc
      simpa using hc
    | cons r l =>
      rw [List.intercalate_cons_cons, List.mem_append, List.mem_append]
      rcases List.mem_cons.mp hp with rfl | hp
      · exact .inl (.inl hc)
      · exact .inr (ih hp)

theorem ascii_of_mem_splitOn (h : Ascii cs) (hp : p ∈ cs.splitOn sep) : Ascii p := by
  intro c hc
  refine h c ?_
  have hjoin : [sep].intercalate (cs.splitOn sep) = cs := List.intercalate_splitOn sep
  rw [← hjoin]
  exact mem_intercalate_of_mem hp hc

inductive Parts (v4Tail : Bool) (cs : List Char) : List ℕ → Prop where
  | none (h : cs = []) : Parts v4Tail cs []
  | groups (hne : cs ≠ []) (h : (cs.splitOn ':').all isV6Seg = true) :
    Parts v4Tail cs ((cs.splitOn ':').map (number 16))
  | dotted (hne : cs ≠ []) (ht : v4Tail = true) (last : List Char)
    (hparts : cs.splitOn ':' = (cs.splitOn ':').dropLast ++ [last])
    (hinit : (cs.splitOn ':').dropLast.all isV6Seg = true) (hlast : isV4 last = true) :
    Parts v4Tail cs ((cs.splitOn ':').dropLast.map (number 16) ++
      [(octets last).getD 0 0 * 256 + (octets last).getD 1 0,
        (octets last).getD 2 0 * 256 + (octets last).getD 3 0])

theorem parts_of_groupCount (h : groupCount v4Tail cs = some n) :
    Parts v4Tail cs (groupsOf cs) ∧ (groupsOf cs).length = n := by
  unfold groupCount at h
  unfold groupsOf
  by_cases hne : cs = []
  · rw [if_pos hne] at h ⊢
    cases h
    exact ⟨.none hne, rfl⟩
  · rw [if_neg hne] at h ⊢
    by_cases hall : (cs.splitOn ':').all isV6Seg = true
    · rw [if_pos hall] at h ⊢
      cases h
      exact ⟨.groups hne hall, List.length_map _⟩
    · rw [if_neg hall] at h ⊢
      split_ifs at h with htail
      cases h
      simp only [Bool.and_eq_true] at htail
      obtain ⟨last, hlast, hv4⟩ := (Option.any_eq_true _ _).mp htail.2
      have hparts := (List.dropLast_append_getLast? last hlast).symm
      have hlastD : (cs.splitOn ':').getLastD [] = last := by
        rw [List.getLastD_eq_getLast?, hlast]
        rfl
      rw [hlastD]
      refine ⟨.dotted hne htail.1.1 last hparts htail.1.2 hv4, ?_⟩
      have hlength := congrArg List.length hparts
      rw [List.length_append, List.length_singleton] at hlength
      simp only [List.length_append, List.length_map, List.length_cons, List.length_nil]
      omega

theorem all_isV6Seg_low (ha : ∀ p ∈ ps, Ascii p) : (ps.map low).all isV6Seg = ps.all isV6Seg := by
  induction ps with
  | nil => rfl
  | cons p ps ih =>
    rw [List.map_cons, List.all_cons, List.all_cons, isV6Seg_low (ha p (by simp)),
      ih fun q hq => ha q (List.mem_cons_of_mem p hq)]

theorem map_number_low (h : ps.all isV6Seg = true) (ha : ∀ p ∈ ps, Ascii p) :
    (ps.map low).map (number 16) = ps.map (number 16) := by
  rw [List.map_map]
  refine List.map_congr_left fun p hp => number_low ?_ (ha p hp)
  have hseg := List.all_eq_true.mp h p hp
  simp only [isV6Seg, Bool.and_eq_true] at hseg
  exact hseg.2

theorem groupCount_low (h : groupCount v4Tail cs = some n) (ha : Ascii cs) :
    groupCount v4Tail (low cs) = some n ∧ groupsOf (low cs) = groupsOf cs := by
  have hcolon (c : Char) (hc : c.toNat < 128) : c.toLower = ':' ↔ c = ':' :=
    (toLower_keeps hc).2.2.2.2.2.1
  have hsplit := splitOn_low hcolon ha
  have hpieces : ∀ p ∈ cs.splitOn ':', Ascii p := fun p hp => ascii_of_mem_splitOn ha hp
  have hempty : low cs = [] ↔ cs = [] := by cases cs <;> simp [low]
  unfold groupCount at h ⊢
  unfold groupsOf
  simp only [hempty, hsplit, all_isV6Seg_low hpieces, List.length_map, ← List.map_dropLast]
  by_cases hne : cs = []
  · simp only [hne, if_true] at h ⊢
    exact ⟨h, trivial⟩
  · simp only [hne, if_false] at h ⊢
    by_cases hall : (cs.splitOn ':').all isV6Seg = true
    · simp only [hall, if_true] at h ⊢
      exact ⟨h, map_number_low hall hpieces⟩
    · have hinit : ∀ p ∈ (cs.splitOn ':').dropLast, Ascii p :=
        fun p hp => hpieces p (List.dropLast_subset _ hp)
      simp only [hall, Bool.false_eq_true, if_false, all_isV6Seg_low hinit] at h ⊢
      split_ifs at h with htail
      simp only [Bool.and_eq_true] at htail
      obtain ⟨last, hlast, hv4⟩ := (Option.any_eq_true _ _).mp htail.2
      have hlow : ((cs.splitOn ':').map low).getLast? = some last := by
        rw [List.getLast?_map, hlast, Option.map_some, low_of_isV4 hv4]
      rw [hlow, map_number_low htail.1.2 hinit, List.getLastD_eq_getLast?, hlow,
        List.getLastD_eq_getLast?, hlast]
      exact ⟨by simp [htail.1.1, htail.1.2, hv4, h], rfl⟩

theorem ascii_of_isV6Body (h : isV6Body cs = true) : Ascii cs :=
  ascii_of_chars (chars_of_isV6Body h)

theorem isV6Body_low (h : isV6Body cs = true) :
    isV6Body (low cs) = true ∧ bodyGroups (low cs) = bodyGroups cs := by
  have ha := ascii_of_isV6Body h
  unfold isV6Body at h ⊢
  unfold bodyGroups
  rw [cutDouble_low ha]
  cases hcut : cutDouble cs with
  | none =>
    simp only [hcut, beq_iff_eq] at h
    have hgroups := groupCount_low h ha
    exact ⟨beq_iff_eq.mpr hgroups.1, hgroups.2⟩
  | some r =>
    obtain ⟨head, tail⟩ := r
    simp only [hcut, Option.map_some] at h ⊢
    obtain ⟨a, hhead, h⟩ := (Option.any_eq_true _ _).mp h
    obtain ⟨b, htail, h⟩ := (Option.any_eq_true _ _).mp h
    have heq := eq_of_cutDouble hcut
    have ha1 : Ascii head := fun c hc => ha c (by simp [heq, hc])
    have ha2 : Ascii tail := fun c hc => ha c (by simp [heq, hc])
    have h1 := groupCount_low hhead ha1
    have h2 := groupCount_low htail ha2
    rw [h1.1, h1.2, h2.1, h2.2]
    exact ⟨h, rfl⟩

theorem not_mem_of_isV6Seg (h : isV6Seg cs = true) (hc : isHex c = false) : c ∉ cs := by
  intro hmem
  simp only [isV6Seg, Bool.and_eq_true, List.all_eq_true] at h
  exact absurd (h.2 c hmem) (by simp [hc])

theorem ne_colon (h : isV6Seg cs = true) : ∀ c ∈ cs, decide (c ≠ ':') = true :=
  fun c hc => decide_eq_true fun he : c = ':' => not_mem_of_isV6Seg h (by decide) (he ▸ hc)

theorem takeWhile_seg {first rest : List Char} (h : isV6Seg first = true) :
    (first ++ ':' :: rest).takeWhile (· ≠ ':') = first := by
  rw [List.takeWhile_append_of_pos (ne_colon h), List.takeWhile_cons_of_neg (by decide),
    List.append_nil]

theorem first_of_parts {l : List ℕ} (h : Parts v4Tail cs l) (hne : cs ≠ [])
    (hgroups : v4Tail = true → 3 ≤ l.length) :
    ∃ first, isV6Seg first = true ∧ (∃ ns, l = number 16 first :: ns) ∧
      (cs = first ∧ l.length = 1 ∨ ∃ rest, cs = first ++ ':' :: rest) := by
  have hjoin : [':'].intercalate (cs.splitOn ':') = cs := List.intercalate_splitOn ':'
  cases h with
  | none h => exact absurd h hne
  | groups _ hall =>
    cases hsplit : cs.splitOn ':' with
    | nil => exact absurd hsplit (List.splitOn_ne_nil _ _)
    | cons first ps =>
      rw [hsplit] at hjoin hall
      rw [List.all_cons, Bool.and_eq_true] at hall
      refine ⟨first, hall.1, ⟨_, rfl⟩, ?_⟩
      cases ps with
      | nil => exact .inl ⟨by simpa using hjoin.symm, rfl⟩
      | cons q ps =>
        rw [List.intercalate_cons_cons, List.append_assoc] at hjoin
        exact .inr ⟨_, hjoin.symm⟩
  | dotted _ ht last hparts hinit =>
    have hlength := hgroups ht
    rw [hparts] at hjoin
    cases hsplit : (cs.splitOn ':').dropLast with
    | nil => simp [hsplit] at hlength
    | cons first ps =>
      rw [hsplit] at hjoin hinit
      rw [List.all_cons, Bool.and_eq_true] at hinit
      refine ⟨first, hinit.1, ⟨_, rfl⟩, .inr ?_⟩
      cases hps : ps ++ [last] with
      | nil => simp at hps
      | cons q qs =>
        rw [List.cons_append, hps, List.intercalate_cons_cons, List.append_assoc] at hjoin
        exact ⟨_, hjoin.symm⟩

def headOf (cs : List Char) : List Char := ((cutDouble cs).map Prod.fst).getD cs

/-- A text starts with two colons, and then with a zero, or with its first group. -/
theorem body_cases (h : isV6Body cs = true) : (bodyGroups cs).length = 8 ∧
    ((headOf cs = [] ∧ (∃ tail, cs = ':' :: ':' :: tail) ∧ (bodyGroups cs).getD 0 0 = 0) ∨
      ∃ first rest, cs = first ++ ':' :: rest ∧ isV6Seg first = true ∧
        (bodyGroups cs).getD 0 0 = number 16 first ∧ headOf cs ≠ [] ∧
        (headOf cs).takeWhile (· ≠ ':') = first) := by
  unfold isV6Body at h
  unfold bodyGroups headOf
  cases hcut : cutDouble cs with
  | none =>
    simp only [hcut, beq_iff_eq] at h
    obtain ⟨hparts, hlength⟩ := parts_of_groupCount h
    have hne : cs ≠ [] := by
      rintro rfl
      simp [groupCount] at h
    obtain ⟨first, hseg, ⟨ns, hns⟩, ⟨-, hone⟩ | ⟨rest, heq⟩⟩ := first_of_parts hparts hne
      fun _ => by omega
    · omega
    · refine ⟨hlength, .inr ⟨first, rest, heq, hseg, by rw [hns]; rfl, by simpa using hne, ?_⟩⟩
      simp only [Option.map_none, Option.getD_none]
      rw [heq, takeWhile_seg hseg]
  | some r =>
    obtain ⟨head, tail⟩ := r
    simp only [hcut] at h
    obtain ⟨a, hhead, h⟩ := (Option.any_eq_true _ _).mp h
    obtain ⟨b, htail, h⟩ := (Option.any_eq_true _ _).mp h
    simp only [decide_eq_true_eq] at h
    obtain ⟨hparts, hlength⟩ := parts_of_groupCount hhead
    have hlength' := (parts_of_groupCount htail).2
    have heq := eq_of_cutDouble hcut
    refine ⟨by simp only [List.length_append, List.length_replicate]; omega, ?_⟩
    simp only [Option.map_some, Option.getD_some]
    by_cases hne : head = []
    · subst hne
      have hnil : groupsOf [] = [] := rfl
      obtain ⟨k, hk⟩ : ∃ k, 8 - (groupsOf []).length - (groupsOf tail).length = k + 1 :=
        ⟨7 - (groupsOf tail).length, by simp only [hnil, List.length_nil]; omega⟩
      rw [hk]
      exact .inl ⟨rfl, ⟨tail, heq⟩, rfl⟩
    · obtain ⟨first, hseg, ⟨ns, hns⟩, hone⟩ := first_of_parts hparts hne nofun
      have hzero : (groupsOf head ++ List.replicate (8 - (groupsOf head).length -
          (groupsOf tail).length) 0 ++ groupsOf tail).getD 0 0 = number 16 first := by
        rw [hns]
        rfl
      rcases hone with ⟨rfl, -⟩ | ⟨rest, rfl⟩
      · refine .inr ⟨head, ':' :: tail, heq, hseg, hzero, hne, ?_⟩
        exact List.takeWhile_eq_self_iff.mpr (ne_colon hseg)
      · refine .inr ⟨first, rest ++ ':' :: ':' :: tail, ?_, hseg, hzero, hne, takeWhile_seg hseg⟩
        rw [heq, List.append_assoc]
        rfl

end Kindred.Net
