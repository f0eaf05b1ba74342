import Mathlib.Data.List.ReduceOption
import Kindred.Net.Spellings

/-! What the guard sees of an address in the texts that spell it. -/

namespace Kindred.Net

variable {cs second : List Char} {n : ℕ} {ip : Ipv4} {c : Char}

theorem quad_of_isV4 (h : isV4 cs = true) : quad cs = some (octets cs) := by
  simp only [isV4, Bool.and_eq_true, beq_iff_eq, List.all_eq_true] at h
  have hall : (cs.splitOn '.').all
      (fun p => p != [] && p.length ≤ 3 && p.all Char.isDigit) = true := by
    refine List.all_eq_true.mpr fun p hp => ?_
    have hseg := h.2 p hp
    simp only [isV4Seg, Bool.and_eq_true, Bool.or_eq_true, beq_iff_eq, bne_iff_ne,
      decide_eq_true_eq] at hseg ⊢
    obtain ⟨⟨hdigits, hlength⟩, -⟩ := hseg
    have hne : p ≠ [] := by
      rintro rfl
      simp at hlength
    refine ⟨⟨hne, ?_⟩, hdigits⟩
    omega
  unfold quad octets
  exact if_pos ⟨h.1, hall⟩

theorem octets_of_isV4 (h : isV4 cs = true) : ∃ ip : Ipv4, octets cs = ip.octets := by
  simp only [isV4, Bool.and_eq_true, beq_iff_eq, List.all_eq_true] at h
  obtain ⟨p, q, r, s, hparts⟩ := List.length_eq_four.mp h.1
  have hlt : ∀ p ∈ cs.splitOn '.', number 10 p < 256 := by
    intro p hp
    have hseg := h.2 p hp
    simp only [isV4Seg, Bool.and_eq_true, decide_eq_true_eq] at hseg
    omega
  rw [hparts] at hlt
  exact ⟨⟨_, _, _, _, hlt p (by simp), hlt q (by simp), hlt r (by simp), hlt s (by simp)⟩, by
    rw [octets, hparts]; rfl⟩

theorem toDigits_spec (h : n < 256) :
    isV4Seg (Nat.toDigits 10 n) = true ∧ number 10 (Nat.toDigits 10 n) = n := by
  have hall : ∀ n < 256, isV4Seg (Nat.toDigits 10 n) = true ∧
      number 10 (Nat.toDigits 10 n) = n := by decide +kernel
  exact hall n h

theorem splitOn_dotted (ip : Ipv4) :
    (dotted ip.octets).splitOn '.' = ip.octets.map (Nat.toDigits 10) := by
  refine List.splitOn_intercalate '.' (fun p hp hmem => ?_) (by simp [Ipv4.octets])
  obtain ⟨n, -, rfl⟩ := List.mem_map.mp hp
  exact absurd (Nat.isDigit_of_mem_toDigits (by decide) (by decide) hmem) (by decide)

theorem octets_lt (ip : Ipv4) (h : n ∈ ip.octets) : n < 256 := by
  obtain ⟨a, b, c, d, hb⟩ := ip
  simp only [Ipv4.octets, List.mem_cons, List.not_mem_nil, or_false] at h
  omega

theorem spells_dotted (ip : Ipv4) : Spells (dotted ip.octets) (.v4 ip) := by
  have hseg {n : ℕ} (h : n ∈ ip.octets) := toDigits_spec (octets_lt ip h)
  constructor
  · simp only [isV4, splitOn_dotted, List.length_map, Bool.and_eq_true, beq_iff_eq]
    refine ⟨rfl, List.all_eq_true.mpr fun p hp => ?_⟩
    obtain ⟨n, hn, rfl⟩ := List.mem_map.mp hp
    exact (hseg hn).1
  · rw [octets, splitOn_dotted, List.map_map]
    exact (List.map_congr_left fun n hn => (hseg hn).2).trans (List.map_id _)

theorem octets_injective {ip' : Ipv4} (h : ip.octets = ip'.octets) : ip = ip' := by
  obtain ⟨a, b, c, d, hb⟩ := ip
  obtain ⟨a', b', c', d', hb'⟩ := ip'
  simpa [Ipv4.octets] using h

def Ipv4.IsPrivate (ip : Ipv4) : Prop :=
  (ip.a = 10 ∨ ip.a = 127 ∨ ip.a = 0) ∨ ip.a = 169 ∧ ip.b = 254 ∨
    ip.a = 172 ∧ 16 ≤ ip.b ∧ ip.b ≤ 31 ∨ ip.a = 192 ∧ ip.b = 168 ∨
    ip.a = 100 ∧ 64 ≤ ip.b ∧ ip.b ≤ 127 ∨ ip.a = 192 ∧ ip.b = 0 ∧ (ip.c = 0 ∨ ip.c = 2) ∨
    ip.a = 198 ∧ (ip.b = 18 ∨ ip.b = 19) ∨ ip.a = 198 ∧ ip.b = 51 ∧ ip.c = 100 ∨
    ip.a = 203 ∧ ip.b = 0 ∧ ip.c = 113

theorem isPrivateIpv4_iff (h : quad cs = some ip.octets) :
    isPrivateIpv4 cs = true ↔ ip.IsPrivate := by
  unfold isPrivateIpv4 Ipv4.IsPrivate
  rw [h]
  simp only [Ipv4.octets, Bool.if_true_left, Bool.or_eq_true, decide_eq_true_eq,
    Bool.false_eq_true, or_false]

theorem Ipv4.IsPrivate.low (h : ip.IsPrivate) : ip.a < 224 := by
  unfold Ipv4.IsPrivate at h
  omega

theorem named_iff (ip : Ipv4) : ip.Named ↔ ip.IsPrivate ∨ 224 ≤ ip.a := by
  obtain ⟨a, b, c, d, hb⟩ := ip
  unfold Ipv4.Named Ipv4.within Ipv4.value Ipv4.IsPrivate
  simp only [namedNetworks, List.mem_cons, List.not_mem_nil, or_false, exists_eq_or_imp,
    exists_eq_left, or_assoc]
  iterate 7 refine or_congr (by omega) ?_
  refine or_assoc.symm.trans (or_congr (by omega) ?_)
  iterate 3 refine or_congr (by omega) ?_
  omega

theorem isBlockedIpv4_iff (h : quad cs = some ip.octets) : isBlockedIpv4 cs = true ↔ ip.Named := by
  have hprivate := isPrivateIpv4_iff h
  have hhigh : 224 ≤ ip.a → ip.Named := fun ha => (named_iff ip).mpr (.inr ha)
  unfold isBlockedIpv4
  split_ifs with hp
  · simpa using (named_iff ip).mpr (.inl (hprivate.mp hp))
  · rw [h]
    simp only [Ipv4.octets, List.getD_cons_zero, decide_eq_true_eq]
    constructor
    · exact hhigh
    · intro hnamed
      exact ((named_iff ip).mp hnamed).resolve_left fun hlow => hp (hprivate.mpr hlow)

structure IsBody (cs : List Char) : Prop where
  body : isV6Body cs = true
  lower : low cs = cs
  noZone : '%' ∉ cs

section
variable {cs : List Char} {t : List Char}

theorem IsBody.lowered (h : IsBody cs) : lowered cs = cs :=
  (lowered_eq (ascii_of_isV6Body h.body)).trans h.lower

theorem stripZone_eq (h : '%' ∉ cs) : stripZone cs = cs := by
  induction cs with
  | nil => rfl
  | cons c cs ih =>
    have hc : ¬c = '%' := fun he => h (by simp [he])
    rw [stripZone, if_neg fun hp => hc hp.1, ih fun hm => h (List.mem_cons_of_mem c hm)]

theorem IsBody.stripBrackets (h : IsBody cs) : stripBrackets cs = cs := by
  have hno {c : Char} (hc : isAddressChar c = false) : c ∉ cs := fun hmem => by
    simp [chars_of_isV6Body h.body c hmem] at hc
  unfold Net.stripBrackets
  rw [if_neg fun he => hno (by decide) (List.mem_of_head? he)]
  exact if_neg fun he => hno (by decide) (List.mem_of_getLast? he)

theorem IsBody.colon (h : IsBody cs) : ':' ∈ cs := by
  obtain ⟨-, ⟨-, ⟨tail, rfl⟩, -⟩ | ⟨first, rest, rfl, -⟩⟩ := body_cases h.body
  · simp
  · simp

theorem doubleColons_eq (cs : List Char) :
    doubleColons cs = ((cutDouble cs).map fun r => doubleColons r.2 + 1).getD 0 := by
  fun_induction cutDouble cs with
  | case1 cs => rfl
  | case2 c cs hne ih =>
    rw [doubleColons, ih]
    · cases cutDouble cs <;> rfl
    · exact hne
  | case3 => rfl

theorem cutDouble_of_groupCount {v4Tail : Bool} (h : groupCount v4Tail cs = some n) :
    cutDouble cs = none := by
  cases hcut : cutDouble cs with
  | none => rfl
  | some r =>
    have heq := eq_of_cutDouble hcut
    have hempty : [] ∈ cs.splitOn ':' := by
      rw [heq, List.splitOn_append_cons_self, List.splitOn_cons_eq_if_modifyHead]
      simp
    have hparts := (parts_of_groupCount h).1
    generalize groupsOf cs = l at hparts
    cases hparts with
    | none hnil => simp [hnil] at heq
    | groups _ hall => exact absurd (List.all_eq_true.mp hall _ hempty) (by decide)
    | dotted _ _ last hparts hinit hlast =>
      rw [hparts, List.mem_append, List.mem_singleton] at hempty
      rcases hempty with hempty | rfl
      · exact absurd (List.all_eq_true.mp hinit _ hempty) (by decide)
      · exact absurd hlast (by decide)

theorem doubleColons_le (h : isV6Body cs = true) : doubleColons cs ≤ 1 := by
  unfold isV6Body at h
  rw [doubleColons_eq]
  cases hcut : cutDouble cs with
  | none => simp
  | some r =>
    simp only [hcut] at h
    obtain ⟨a, -, h⟩ := (Option.any_eq_true _ _).mp h
    obtain ⟨b, htail, -⟩ := (Option.any_eq_true _ _).mp h
    simp [doubleColons_eq r.2, cutDouble_of_groupCount htail]

theorem not_isUpper (h : low cs = cs) (ha : Ascii cs) (hc : c ∈ cs) : c.isUpper = false := by
  rw [← h] at hc
  obtain ⟨d, hd, rfl⟩ := List.mem_map.mp hc
  exact (toLower_keeps (ha d hd)).2.1

theorem IsBody.first16 (h : IsBody cs) : ipv6First16Bits cs = some ((bodyGroups cs).getD 0 0) := by
  unfold ipv6First16Bits
  rw [h.lowered, stripZone_eq h.noZone, h.stripBrackets]
  rw [if_neg (not_not.mpr h.colon), if_neg (Nat.not_lt.mpr (doubleColons_le h.body))]
  have hcases := body_cases h.body
  unfold headOf at hcases
  obtain ⟨-, ⟨hhead, -, hzero⟩ | ⟨first, rest, rfl, hseg, hzero, hhead, htake⟩⟩ :=
    hcases
  · rw [if_pos hhead, hzero]
  · have hlower : first.all (fun c => !c.isUpper) = true := by
      refine List.all_eq_true.mpr fun c hc => ?_
      rw [not_isUpper h.lower (ascii_of_isV6Body h.body) (by simp [hc])]
      rfl
    simp only [if_neg hhead, htake, hzero]
    exact if_pos ⟨hseg, hlower⟩

theorem digitValue_spec (hc : isHex c = true) (hl : c.isUpper = false) :
    digitValue c < 16 ∧ c = Nat.digitChar (digitValue c) := by
  have h := ascii_cases (p := fun c => isHex c = true → c.isUpper = false →
    digitValue c < 16 ∧ c = Nat.digitChar (digitValue c)) (by decide +kernel)
    (lt_128_of_isAddressChar (isAddressChar_of_isHex hc))
  exact of_decide_eq_true h hc hl

theorem startsWithF_iff : startsWithF second cs = true ↔
    ∃ c d e rest, cs = 'f' :: c :: d :: e :: ':' :: rest ∧ c ∈ second ∧
      (isHex d = true ∧ d.isUpper = false) ∧ isHex e = true ∧ e.isUpper = false := by
  constructor
  · intro h
    unfold startsWithF at h
    split at h
    · rename_i c d e rest
      simp only [Bool.and_eq_true, List.contains_iff_mem, Bool.not_eq_true'] at h
      exact ⟨c, d, e, rest, rfl, h.1.1.1.1, ⟨h.1.1.1.2, h.1.1.2⟩, h.1.2, h.2⟩
    · cases h
  · rintro ⟨c, d, e, rest, rfl, hc, hd, he⟩
    simp [startsWithF, hc, hd, he]

theorem number_four (c d e f : Char) : number 16 [c, d, e, f] =
    ((digitValue c * 16 + digitValue d) * 16 + digitValue e) * 16 + digitValue f := by
  simp only [number, List.foldl_cons, List.foldl_nil]
  omega

/-- The second digit of the group decides. -/
theorem IsBody.startsWithF (h : IsBody cs)
    (hsecond : ∀ c ∈ second, isHex c = true ∧ c.isUpper = false) : startsWithF second cs = true ↔
      ∃ c ∈ second, (bodyGroups cs).getD 0 0 / 256 = 240 + digitValue c := by
  have ha := ascii_of_isV6Body h.body
  rw [startsWithF_iff]
  obtain ⟨-, ⟨-, ⟨tail, rfl⟩, hzero⟩ | ⟨first, rest, rfl, hseg, hzero, -⟩⟩ := body_cases h.body
  · rw [hzero]
    simp
    omega
  · rw [hzero]
    have hdigit {c : Char} (hc : c ∈ first) :
        digitValue c < 16 ∧ c = Nat.digitChar (digitValue c) := by
      simp only [isV6Seg, Bool.and_eq_true, List.all_eq_true] at hseg
      exact digitValue_spec (hseg.2 c hc) (not_isUpper h.lower ha (by simp [hc]))
    have hhex {c : Char} (hc : c ∈ first) : isHex c = true ∧ c.isUpper = false := by
      simp only [isV6Seg, Bool.and_eq_true, List.all_eq_true] at hseg
      exact ⟨hseg.2 c hc, not_isUpper h.lower ha (by simp [hc])⟩
    constructor
    · rintro ⟨c, d, e, rest', heq, hc, hd, he⟩
      have hfirst : first = ['f', c, d, e] := by
        have hne {x : Char} (hx : isHex x = true) : x ≠ ':' := by
          rintro rfl
          exact absurd hx (by decide)
        have htake : (first ++ ':' :: rest).takeWhile (· ≠ ':') = first := takeWhile_seg hseg
        rw [heq] at htake
        simpa [hne (hsecond c hc).1, hne hd.1, hne he.1] using htake.symm
      have h1 := digitValue_spec hd.1 hd.2
      have h2 := digitValue_spec he.1 he.2
      have h3 : digitValue 'f' = 15 := by decide
      have h4 := digitValue_spec (hsecond c hc).1 (hsecond c hc).2
      refine ⟨c, hc, ?_⟩
      rw [hfirst, number_four]
      omega
    · rintro ⟨c, hc, hvalue⟩
      have hlength : first.length ≤ 4 := by
        simp only [isV6Seg, Bool.and_eq_true, decide_eq_true_eq] at hseg
        exact hseg.1.2
      have hc4 := digitValue_spec (hsecond c hc).1 (hsecond c hc).2
      rcases first with _ | ⟨x, _ | ⟨y, _ | ⟨z, _ | ⟨w, _ | ⟨v, more⟩⟩⟩⟩⟩
      · simp [number] at hvalue
        omega
      · have hx := (@hdigit x (by simp)).1
        simp only [number, List.foldl_cons, List.foldl_nil] at hvalue
        omega
      · have hx := (@hdigit x (by simp)).1
        have hy := (@hdigit y (by simp)).1
        simp only [number, List.foldl_cons, List.foldl_nil] at hvalue
        omega
      · have hx := (@hdigit x (by simp)).1
        have hy := (@hdigit y (by simp)).1
        have hz := (@hdigit z (by simp)).1
        simp only [number, List.foldl_cons, List.foldl_nil] at hvalue
        omega
      · have hx := @hdigit x (by simp)
        have hy := @hdigit y (by simp)
        have hz := (@hdigit z (by simp)).1
        have hw := (@hdigit w (by simp)).1
        rw [number_four] at hvalue
        have hfifteen : digitValue x = 15 := by omega
        have hsame : digitValue y = digitValue c := by omega
        have hxf : x = 'f' := by rw [hx.2, hfifteen]; rfl
        have hyc : y = c := by rw [hy.2, hsame, ← hc4.2]
        exact ⟨y, z, w, rest, by rw [hxf]; rfl, hyc ▸ hc, hhex (by simp), hhex (by simp)⟩
      · simp only [List.length_cons] at hlength
        omega

theorem number_lt (h : cs.all isHex = true) : number 16 cs < 16 ^ cs.length := by
  induction cs using List.reverseRecOn with
  | nil => decide
  | append_singleton cs c ih =>
    rw [List.all_append, Bool.and_eq_true] at h
    have hc : isHex c = true := by simpa using h.2
    have hdigit := ascii_cases (p := fun c => isHex c = true → digitValue c < 16)
      (by decide +kernel) (lt_128_of_isAddressChar (isAddressChar_of_isHex hc))
    have hd := of_decide_eq_true hdigit hc
    have hcs := ih h.1
    rw [number_append, List.foldl_cons, List.foldl_nil, List.length_append, List.length_singleton,
      Nat.pow_succ]
    omega

theorem number_lt_of_isV6Seg (h : isV6Seg cs = true) : number 16 cs < 65536 := by
  simp only [isV6Seg, Bool.and_eq_true, decide_eq_true_eq] at h
  exact Nat.lt_of_lt_of_le (number_lt h.2) (Nat.pow_le_pow_right (by decide) h.1.2)

theorem after_eq {start : String} (hlow : low cs = cs) (h : after start cs = some t) :
    cs = start.toList ++ t := by
  unfold after at h
  split_ifs at h with hstart
  cases h
  have htake : (cs.take start.length).map Char.toLower = cs.take start.length := by
    rw [List.map_take]
    exact congrArg (List.take _) hlow
  rw [← hstart, htake, List.take_append_drop]

theorem quad_chars {o : List ℕ} (h : quad t = some o) : ':' ∉ t ∧ isV6Seg t = false := by
  unfold quad at h
  dsimp only at h
  split_ifs at h with hparts
  obtain ⟨hlength, hall⟩ := hparts
  constructor
  · intro hmem
    rcases @mem_splitOn '.' _ _ hmem with he | ⟨p, hp, hc⟩
    · exact absurd he (by decide)
    · have hpart := List.all_eq_true.mp hall p hp
      simp only [Bool.and_eq_true, List.all_eq_true] at hpart
      exact absurd (hpart.2 ':' hc) (by decide)
  · by_contra hseg
    rw [Bool.not_eq_false] at hseg
    have hone := List.splitOn_eq_singleton (not_mem_of_isV6Seg hseg (c := '.') (by decide))
    rw [hone] at hlength
    simp at hlength

theorem groupsOf_dotted {init : List (List Char)} (hsplit : cs.splitOn ':' = init ++ [t])
    (hquad : (quad t).isSome = true) (h : groupCount true cs = some n) :
    ∃ v4 : Ipv4, quad t = some v4.octets ∧
      groupsOf cs = init.map (number 16) ++ [v4.a * 256 + v4.b, v4.c * 256 + v4.d] := by
  obtain ⟨o, ho⟩ := Option.isSome_iff_exists.mp hquad
  have hparts := (parts_of_groupCount h).1
  generalize groupsOf cs = l at hparts
  cases hparts with
  | none hnil =>
    subst hnil
    have ht : t = [] := by
      cases init with
      | nil => simpa using hsplit.symm
      | cons p ps => simp at hsplit
    have hempty : quad [] = none := by decide
    rw [ht, hempty] at ho
    cases ho
  | groups _ hall =>
    rw [hsplit] at hall
    have hseg := List.all_eq_true.mp hall t (by simp)
    exact absurd hseg (by simp [(quad_chars ho).2])
  | dotted _ _ last hlastparts hinit hlast =>
    rw [hsplit, List.dropLast_concat] at hlastparts
    obtain rfl : t = last := by simpa using hlastparts
    obtain ⟨v4, hv4⟩ := octets_of_isV4 hlast
    refine ⟨v4, (quad_of_isV4 hlast).trans (congrArg some hv4), ?_⟩
    rw [hsplit, List.dropLast_concat, hv4]
    rfl

theorem bodyGroups_double (t : List Char) : bodyGroups (':' :: ':' :: t) =
    List.replicate (8 - (groupsOf t).length) 0 ++ groupsOf t := by
  simp [bodyGroups, cutDouble, groupsOf]

theorem groupCount_double (h : isV6Body (':' :: ':' :: t) = true) :
    ∃ n, groupCount true t = some n := by
  unfold isV6Body at h
  obtain ⟨a, -, h⟩ := (Option.any_eq_true _ _).mp h
  obtain ⟨b, htail, -⟩ := (Option.any_eq_true _ _).mp h
  exact ⟨b, htail⟩

theorem embeds_of_groups {ip : Ipv6} {v4 : Ipv4} {f : ℕ} (hf : f = 0 ∨ f = 0xffff)
    (h : ip.groups = [0, 0, 0, 0, 0, f, v4.a * 256 + v4.b, v4.c * 256 + v4.d]) : ip.Embeds v4 := by
  obtain ⟨a, b, c, d, hb⟩ := v4
  unfold Ipv6.Embeds Ipv6.embedded
  rw [h]
  simp only [List.take_succ_cons, List.take_zero, List.getD_cons_succ, List.getD_cons_zero, hf,
    if_true, Ipv4.octets, Option.some.injEq, List.cons.injEq, and_true]
  omega

theorem quad_dotted (ip : Ipv4) : quad (dotted ip.octets) = some ip.octets := by
  have h := spells_dotted ip
  rw [quad_of_isV4 h.1, h.2]

/-- What the guard takes out of the text is embedded in the address. -/
theorem IsBody.mapped (h : IsBody cs) {q : List Char} (hq : mappedIpv4 cs = some q) {ip : Ipv6}
    (hip : bodyGroups cs = ip.groups) : ∃ v4, ip.Embeds v4 ∧ quad q = some v4.octets := by
  unfold mappedIpv4 at hq
  dsimp only at hq
  split at hq
  · rename_i t htail
    cases hq
    have hquad := List.find?_some htail
    have hmem := List.mem_of_find?_eq_some htail
    rw [List.reduceOption_mem_iff] at hmem
    simp only [List.mem_cons, List.not_mem_nil, or_false] at hmem
    obtain ⟨o, ho⟩ := Option.isSome_iff_exists.mp hquad
    have hone : q.splitOn ':' = [q] := List.splitOn_eq_singleton (quad_chars ho).1
    rcases hmem with hmem | hmem
    · have hcs : cs = ':' :: ':' :: ("ffff".toList ++ ':' :: q) := after_eq h.lower hmem.symm
      have hsplit : ("ffff".toList ++ ':' :: q).splitOn ':' = ["ffff".toList] ++ [q] := by
        rw [List.splitOn_append_cons_self_of_not_mem (by decide), hone]
        rfl
      obtain ⟨n, hn⟩ := groupCount_double (hcs ▸ h.body)
      obtain ⟨v4, hv4, hgroups⟩ := groupsOf_dotted hsplit hquad hn
      refine ⟨v4, embeds_of_groups (.inr rfl) ?_, hv4⟩
      rw [← hip, hcs, bodyGroups_double, hgroups]
      rfl
    · have hcs : cs = ':' :: ':' :: q := after_eq h.lower hmem.symm
      obtain ⟨n, hn⟩ := groupCount_double (hcs ▸ h.body)
      obtain ⟨v4, hv4, hgroups⟩ := groupsOf_dotted (hone.trans (List.nil_append _).symm)
        hquad hn
      refine ⟨v4, embeds_of_groups (.inl rfl) ?_, hv4⟩
      rw [← hip, hcs, bodyGroups_double, hgroups]
      rfl
  · cases ht : after "::ffff:" cs with
    | none => simp [ht] at hq
    | some t =>
      rw [ht, Option.map_some] at hq
      split at hq
      · rename_i hi lo hpieces
        obtain hpieces := Option.some.inj hpieces
        split_ifs at hq with hseg
        cases hq
        have hcs : cs = ':' :: ':' :: ("ffff".toList ++ ':' :: t) := after_eq h.lower ht
        have hsplit : ("ffff".toList ++ ':' :: t).splitOn ':' = ["ffff".toList, hi, lo] := by
          rw [List.splitOn_append_cons_self_of_not_mem (by decide), hpieces]
        have hhi := number_lt_of_isV6Seg hseg.1
        have hlo := number_lt_of_isV6Seg hseg.2
        let v4 : Ipv4 := ⟨number 16 hi / 256, number 16 hi % 256, number 16 lo / 256,
          number 16 lo % 256, by omega⟩
        have hshift (n : ℕ) : n >>> 8 = n / 256 := Nat.shiftRight_eq_div_pow n 8
        have hmask (n : ℕ) : n &&& 0xff = n % 256 := Nat.and_two_pow_sub_one_eq_mod n 8
        have hall : ["ffff".toList, hi, lo].all isV6Seg = true := by
          simp only [List.all_cons, List.all_nil, hseg.1, hseg.2]
          decide
        have hgroups : groupsOf ("ffff".toList ++ ':' :: t) =
            [0xffff, number 16 hi, number 16 lo] := by
          unfold groupsOf
          rw [if_neg (by simp)]
          rw [hsplit, if_pos hall]
          rfl
        refine ⟨v4, embeds_of_groups (f := 0xffff) (.inr rfl) ?_, ?_⟩
        · rw [← hip, hcs, bodyGroups_double, hgroups]
          simp only [v4, Nat.div_add_mod']
          rfl
        · simp only [hshift, hmask]
          exact quad_dotted v4
      · cases hq

end

end Kindred.Net
