import Kindred.Net.Normalizing

/-! The buckets of the rate limits: an IPv6 address is counted with its network. -/

namespace Kindred.Net

def prefixGroups (ip : List Char) : List (List Char) :=
  let leading := ((headOf ip).splitOn ':').filter fun h => h ≠ []
  let prefixGroups := leading.take 4
  prefixGroups ++ List.replicate (4 - prefixGroups.length) ['0']

def collapseIpForRateLimit (ip : List Char) : List Char :=
  if ip.contains ':' then [':'].intercalate (prefixGroups ip) ++ "::/64".toList else ip

inductive Network where
  | host (ip : Ipv4)
  | net64 (groups : List ℕ)
  deriving DecidableEq

def Address.network (a : Address) : Network :=
  match a.unmapped with
  | .v4 ip => .host ip
  | .v6 ip => .net64 (ip.groups.take 4)

def Shares (x y : List Char) (a b : Address) : Prop :=
  collapseIpForRateLimit x = collapseIpForRateLimit y ↔ a.network = b.network

instance (x y : List Char) (a b : Address) : Decidable (Shares x y a b) :=
  inferInstanceAs (Decidable (_ ↔ _))

variable {cs p : List Char} {x y : List Char} {ip : Ipv6}

theorem not_mem_piece {sep : Char} (h : p ∈ cs.splitOn sep) : sep ∉ p := by
  induction cs generalizing p with
  | nil => simpa using List.mem_singleton.mp h ▸ List.not_mem_nil
  | cons c cs ih =>
    rw [List.splitOn_cons_eq_if_modifyHead] at h
    split_ifs at h with hc
    · rcases List.mem_cons.mp h with rfl | h
      · exact List.not_mem_nil
      · exact ih h
    · cases hcs : cs.splitOn sep with
      | nil => exact absurd hcs (List.splitOn_ne_nil _ _)
      | cons q qs =>
        rw [hcs] at h ih
        rcases List.mem_cons.mp h with rfl | h
        · intro hmem
          rcases List.mem_cons.mp hmem with rfl | hmem
          · exact hc (beq_self_eq_true sep)
          · exact ih List.mem_cons_self hmem
        · exact ih (List.mem_cons_of_mem q h)

theorem prefixGroups_length (ip : List Char) : (prefixGroups ip).length = 4 := by
  simp only [prefixGroups, List.length_append, List.length_replicate, List.length_take]
  omega

theorem prefixGroups_colon {ip : List Char} (h : p ∈ prefixGroups ip) : ':' ∉ p := by
  simp only [prefixGroups, List.mem_append, List.mem_replicate] at h
  rcases h with h | ⟨-, rfl⟩
  · exact not_mem_piece (List.mem_filter.mp (List.mem_of_mem_take h)).1
  · decide

theorem collapse_of_colon {ip : List Char} (h : ':' ∈ ip) :
    collapseIpForRateLimit ip = [':'].intercalate (prefixGroups ip) ++ "::/64".toList :=
  if_pos (List.contains_iff_mem.mpr h)

theorem collapse_of_v4 {ip : List Char} {a : Ipv4} (h : Spells ip (.v4 a)) :
    collapseIpForRateLimit ip = ip :=
  if_neg fun hc => no_colon_of_v4 h (List.contains_iff_mem.mp hc)

theorem collapse_eq_iff (hx : ':' ∈ x) (hy : ':' ∈ y) :
    collapseIpForRateLimit x = collapseIpForRateLimit y ↔ prefixGroups x = prefixGroups y := by
  rw [collapse_of_colon hx, collapse_of_colon hy]
  refine ⟨fun h => ?_, fun h => by rw [h]⟩
  have hjoin := congrArg (List.splitOn ':') (List.append_cancel_right h)
  have hne (ip : List Char) : prefixGroups ip ≠ [] :=
    List.ne_nil_of_length_pos (by rw [prefixGroups_length]; decide)
  rwa [List.splitOn_intercalate ':' (fun p => prefixGroups_colon) (hne x),
    List.splitOn_intercalate ':' (fun p => prefixGroups_colon) (hne y)] at hjoin

theorem collapse_ne {a : Ipv4} (hx : Spells x (.v4 a)) (hy : ':' ∈ y) :
    collapseIpForRateLimit x ≠ collapseIpForRateLimit y := by
  rw [collapse_of_v4 hx, collapse_of_colon hy]
  rintro rfl
  exact no_colon_of_v4 hx (List.mem_append_right _ (by decide))

theorem filter_segs {ps : List (List Char)} (h : ps.all isV6Seg = true) :
    ps.filter (fun h => h ≠ []) = ps := by
  refine List.filter_eq_self.mpr fun p hp => ?_
  have hseg := List.all_eq_true.mp h p hp
  simp only [isV6Seg, Bool.and_eq_true, bne_iff_ne] at hseg
  exact decide_eq_true hseg.1.1

/-- The groups that are written first, and after fewer than four of them the two colons. -/
theorem prefixGroups_spec (h : isV6Body cs = true) :
    ∃ ps : List (List Char), ps.all isV6Seg = true ∧ ps.length ≤ 4 ∧
      prefixGroups cs = ps ++ List.replicate (4 - ps.length) ['0'] ∧
      (bodyGroups cs).take ps.length = ps.map (number 16) ∧
      (ps.length < 4 → (bodyGroups cs).getD ps.length 0 = 0) := by
  have hlength := (body_cases h).1
  unfold isV6Body at h
  unfold prefixGroups headOf
  unfold bodyGroups at hlength ⊢
  cases hcut : cutDouble cs with
  | none =>
    simp only [hcut, beq_iff_eq, Option.map_none, Option.getD_none] at h hlength ⊢
    have hparts := (parts_of_groupCount h).1
    generalize groupsOf cs = l at hparts hlength
    cases hparts with
    | none hnil => cases hlength
    | groups _ hall =>
      rw [List.length_map] at hlength
      refine ⟨(cs.splitOn ':').take 4, ?_, List.length_take_le _ _,
    by rw [filter_segs hall], ?_, ?_⟩
      · exact List.all_eq_true.mpr fun p hp => List.all_eq_true.mp hall p (List.mem_of_mem_take hp)
      · rw [List.length_take, hlength, List.map_take]
        rfl
      · rw [List.length_take, hlength]
        exact fun h => absurd h (by decide)
    | dotted _ _ last hparts hinit hlast =>
      generalize (cs.splitOn ':').dropLast = init at hparts hinit hlength
      simp only [List.length_append, List.length_map, List.length_cons, List.length_nil] at hlength
      have hsix : init.length = 6 := by omega
      have hfour : (init ++ [last]).take 4 = init.take 4 :=
        List.take_append_of_le_length (by omega)
      have hne : last ≠ [] := by
        rintro rfl
        exact absurd hlast (by decide)
      have hfilter : (init ++ [last]).filter (fun h => h ≠ []) = init ++ [last] := by
        rw [List.filter_append, filter_segs hinit]
        simp [hne]
      refine ⟨init.take 4, ?_, List.length_take_le _ _, by rw [hparts, hfilter, hfour], ?_, ?_⟩
      · exact List.all_eq_true.mpr fun p hp => List.all_eq_true.mp hinit p (List.mem_of_mem_take hp)
      · rw [List.length_take, hsix, List.map_take]
        exact List.take_append_of_le_length (by rw [List.length_map]; omega)
      · rw [List.length_take, hsix]
        exact fun h => absurd h (by decide)
  | some r =>
    obtain ⟨head, tail⟩ := r
    simp only [hcut, Option.map_some, Option.getD_some] at h hlength ⊢
    obtain ⟨a, hhead, h⟩ := (Option.any_eq_true _ _).mp h
    obtain ⟨b, htail, h⟩ := (Option.any_eq_true _ _).mp h
    simp only [decide_eq_true_eq] at h
    obtain ⟨hparts, ha⟩ := parts_of_groupCount hhead
    have hb := (parts_of_groupCount htail).2
    -- the groups before the two colons, which stand for one group at least
    obtain ⟨ps, hps, hfilter, hgroups⟩ : ∃ ps : List (List Char), ps.all isV6Seg = true ∧
        (head.splitOn ':').filter (fun h => h ≠ []) = ps ∧ groupsOf head = ps.map (number 16) := by
      generalize groupsOf head = l at hparts
      cases hparts with
      | none hnil =>
        subst hnil
        exact ⟨[], rfl, by simp, rfl⟩
      | groups _ hall => exact ⟨_, hall, filter_segs hall, rfl⟩
      | dotted _ ht => cases ht
    have hlen : ps.length = a := by rw [← ha, hgroups, List.length_map]
    refine ⟨ps.take 4, ?_, List.length_take_le _ _, by rw [hfilter], ?_, fun hlt => ?_⟩
    · exact List.all_eq_true.mpr fun p hp => List.all_eq_true.mp hps p (List.mem_of_mem_take hp)
    · rw [hgroups, List.append_assoc, List.take_append_of_le_length
        (by rw [List.length_map, List.length_take]; omega), List.length_take, List.map_take,
        List.take_eq_take_iff, List.length_map]
      omega
    · rw [List.length_take] at hlt ⊢
      have hmin : min 4 ps.length = (groupsOf head).length := by omega
      rw [hmin, List.append_assoc, List.getD_eq_getElem?_getD,
        List.getElem?_append_right (Nat.le_refl _), Nat.sub_self, ha, hb]
      obtain ⟨k, hk⟩ : ∃ k, 8 - a - b = k + 1 := ⟨7 - a - b, by omega⟩
      rw [hk]
      rfl

def Fixed (g : ℕ) : Prop := (hex g).length = 4 ∧ (hex g).all Char.isDigit = true

instance (g : ℕ) : Decidable (Fixed g) := inferInstanceAs (Decidable (_ ∧ _))

/-- An IPv6 address whose network is written in one way only. -/
def OneSpelling : Address → Prop
  | .v4 _ => False
  | .v6 ip => ∀ g ∈ ip.groups.take 4, Fixed g

theorem lower_digit {c : Char} (hc : isHex c = true) (hl : c.isUpper = false) :
    (digitValue c).digitChar = c ∧ digitValue c < 16 := by
  have hall := ascii_cases (p := fun c => isHex c = true → c.isUpper = false →
    (digitValue c).digitChar = c ∧ digitValue c < 16) (by decide +kernel)
    (lt_128_of_isAddressChar (isAddressChar_of_isHex hc))
  exact of_decide_eq_true hall hc hl

theorem number_inj {ds : List Char} (hlength : cs.length = ds.length)
    (hcs : ∀ c ∈ cs, isHex c = true ∧ c.isUpper = false)
    (hds : ∀ c ∈ ds, isHex c = true ∧ c.isUpper = false) (h : number 16 cs = number 16 ds) :
    cs = ds := by
  induction cs using List.reverseRecOn generalizing ds with
  | nil => exact (List.eq_nil_of_length_eq_zero hlength.symm).symm
  | append_singleton cs c ih =>
    obtain rfl | ⟨ds, d, rfl⟩ := List.eq_nil_or_concat ds
    · simp at hlength
    · rw [List.concat_eq_append] at hlength hds h ⊢
      rw [List.length_append, List.length_append, List.length_singleton, List.length_singleton]
        at hlength
      obtain ⟨hchar, hlt⟩ := lower_digit (hcs c (by simp)).1 (hcs c (by simp)).2
      obtain ⟨hchar', hlt'⟩ := lower_digit (hds d (by simp)).1 (hds d (by simp)).2
      rw [number_append, number_append, List.foldl_cons, List.foldl_nil, List.foldl_cons,
        List.foldl_nil] at h
      have hinit : cs = ds := ih (by omega) (fun c hc => hcs c (by simp [hc]))
        (fun d hd => hds d (by simp [hd])) (by omega)
      have hdigit : digitValue c = digitValue d := by omega
      rw [hinit, ← hchar, ← hchar', hdigit]

variable {a b : Address} {n g w z : ℕ}

theorem hex_chars : ∀ c ∈ hex n, isHex c = true ∧ c.isUpper = false :=
  fun _ hc => ⟨(hex_char hc).1, (hex_char hc).2.1⟩

theorem low_chars (h : p.all isHex = true) : ∀ c ∈ low p, isHex c = true ∧ c.isUpper = false := by
  intro c hc
  obtain ⟨d, hd, rfl⟩ := List.mem_map.mp hc
  have hd := List.all_eq_true.mp h d hd
  have hkeeps := toLower_keeps (lt_128_of_isAddressChar (isAddressChar_of_isHex hd))
  exact ⟨hkeeps.2.2.1.trans hd, hkeeps.2.1⟩

theorem ascii_of_hex (h : p.all isHex = true) : Ascii p :=
  fun c hc => lt_128_of_isAddressChar (isAddressChar_of_isHex (List.all_eq_true.mp h c hc))

theorem eq_hex_of_fixed (hp : isV6Seg p = true) (h : Fixed (number 16 p)) :
    p = hex (number 16 p) := by
  obtain ⟨hlength, hdigits⟩ := h
  simp only [isV6Seg, Bool.and_eq_true, decide_eq_true_eq] at hp
  obtain ⟨⟨-, hle⟩, hhex⟩ := hp
  have hfour : p.length = 4 := by
    by_contra hne
    have hlt := number_lt hhex
    have hpow : (16 : ℕ) ^ p.length ≤ 16 ^ 3 := Nat.pow_le_pow_right (by decide) (by omega)
    have hshort : (hex (number 16 p)).length ≤ 3 :=
      (Nat.length_toDigits_le_iff (by decide) (by decide)).mpr (Nat.lt_of_lt_of_le hlt hpow)
    omega
  have hlow : low p = hex (number 16 p) := by
    refine number_inj ?_ (low_chars hhex) hex_chars ?_
    · rw [hlength, low, List.length_map, hfour]
    · rw [number_low hhex (ascii_of_hex hhex), (hex_spec _).2]
  -- a decimal digit is written alike in both cases
  refine Eq.trans ?_ hlow
  refine (List.map_id p).symm.trans (List.map_congr_left fun c hc => ?_)
  have hdigit : c.toLower.isDigit = true :=
    List.all_eq_true.mp hdigits _ (hlow ▸ List.mem_map_of_mem hc)
  have hall := ascii_cases (p := fun c => c.toLower.isDigit = true → c = c.toLower)
    (by decide +kernel) (ascii_of_hex hhex c hc)
  exact of_decide_eq_true hall hdigit

/-- Any other group is written in two ways. -/
theorem respelled (hg : g < 65536) (h : ¬Fixed g) :
    ∃ p, isV6Seg p = true ∧ number 16 p = g ∧ p ≠ hex g := by
  have hle := hex_length hg
  have hne : hex g ≠ [] := Nat.toDigits_ne_nil
  have hhex : (hex g).all isHex = true := List.all_eq_true.mpr fun c hc => (hex_char hc).1
  by_cases hlength : (hex g).length = 4
  · have hletter : ∃ c ∈ hex g, c.isDigit = false := by
      by_contra hall
      refine h ⟨hlength, List.all_eq_true.mpr fun c hc => ?_⟩
      by_contra hdigit
      exact hall ⟨c, hc, by simpa using hdigit⟩
    have hupper : ∀ c ∈ hex g, isHex c.toUpper = true ∧ digitValue c.toUpper = digitValue c ∧
        (c.isDigit = false → c.toUpper ≠ c) := by
      intro c hc
      have hall := ascii_cases (p := fun c => isHex c = true → c.isUpper = false →
        isHex c.toUpper = true ∧ digitValue c.toUpper = digitValue c ∧
          (c.isDigit = false → c.toUpper ≠ c)) (by decide +kernel) (ascii_of_hex hhex c hc)
      exact of_decide_eq_true hall (hex_char hc).1 (hex_char hc).2.1
    refine ⟨(hex g).map Char.toUpper, ?_, ?_, fun he => ?_⟩
    · simp only [isV6Seg, Bool.and_eq_true, bne_iff_ne, decide_eq_true_eq, List.length_map,
        List.all_eq_true]
      refine ⟨⟨by simpa using hne, hle⟩, fun c hc => ?_⟩
      obtain ⟨d, hd, rfl⟩ := List.mem_map.mp hc
      exact (hupper d hd).1
    · refine Eq.trans ?_ (hex_spec g).2
      unfold number
      rw [List.foldl_map]
      refine List.foldl_ext _ _ _ fun n c hc => ?_
      rw [(hupper c hc).2.1]
    · obtain ⟨c, hc, hdigit⟩ := hletter
      have hsame : c.toUpper = c := List.map_inj_left.mp (he.trans (List.map_id _).symm) c hc
      exact (hupper c hc).2.2 hdigit hsame
  · refine ⟨'0' :: hex g, ?_, ?_, fun he => ?_⟩
    · have hzero : isHex '0' = true := by decide
      simp only [isV6Seg, Bool.and_eq_true, bne_iff_ne, decide_eq_true_eq, List.length_cons,
        List.all_cons, hhex, hzero]
      exact ⟨⟨by simp, by omega⟩, trivial, trivial⟩
    · refine Eq.trans ?_ (hex_spec g).2
      unfold number
      rw [List.foldl_cons]
      rfl
    · exact absurd (congrArg List.length he) (by simp)

def Text (cs : List Char) (a : Address) : Prop := Spells cs a ∧ '%' ∉ cs

instance (cs : List Char) (a : Address) : Decidable (Text cs a) :=
  inferInstanceAs (Decidable (_ ∧ _))

theorem Text.body (h : Text cs (.v6 ip)) : isV6Body cs = true ∧ bodyGroups cs = ip.groups := by
  have hbody := body_of_isV6 h.1.1
  have hgroups := h.1.2
  rw [takeWhile_zone h.2] at hbody hgroups
  exact ⟨hbody, hgroups⟩

theorem text_form (a : Address) : Text a.form a := ⟨(spells_form a).1, (spells_form a).2.2⟩

theorem fixed_ne_zero (h : Fixed g) : g ≠ 0 := by
  rintro rfl
  exact absurd h (by decide)

theorem mapped_of_ne (hg : g ∈ ip.groups.take 5) (hne : g ≠ 0) : ip.mapped = none := by
  refine if_neg fun h => hne ?_
  simpa using List.all_eq_true.mp h.1 g hg

theorem network_of_mapped {v4 : Ipv4} (h : ip.mapped = some v4) :
    (Address.v6 ip).network = .host v4 := by
  simp [Address.network, Address.unmapped, h]

theorem network_of_unmapped (h : ip.mapped = none) :
    (Address.v6 ip).network = .net64 (ip.groups.take 4) := by
  simp [Address.network, Address.unmapped, h]

theorem getD_mem_take {l : List ℕ} {i : ℕ} (hi : i < n) (hl : i < l.length) :
    l.getD i 0 ∈ l.take n := by
  rw [List.getD_eq_getElem?_getD, List.getElem?_eq_getElem hl, Option.getD_some]
  exact List.mem_take_iff_getElem.mpr ⟨i, by omega, rfl⟩

theorem take_of_prefixGroups (h : Text y (.v6 ip)) {gs : List ℕ} (hfixed : ∀ g ∈ gs, Fixed g)
    (heq : prefixGroups y = gs.map hex) : ip.groups.take 4 = gs := by
  obtain ⟨hbody, hgroups⟩ := h.body
  obtain ⟨ps, hsegs, hle, hfront, htake, -⟩ := prefixGroups_spec hbody
  have hfour : ps.length = 4 := by
    by_contra hne
    have hzero : ['0'] ∈ gs.map hex := by
      rw [← heq, hfront]
      exact List.mem_append_right _ (List.mem_replicate.mpr ⟨by omega, rfl⟩)
    obtain ⟨g, hg, he⟩ := List.mem_map.mp hzero
    have hlen := (hfixed g hg).1
    rw [he] at hlen
    cases hlen
  rw [hfour, Nat.sub_self, List.replicate_zero, List.append_nil] at hfront
  rw [hfour, hgroups] at htake
  rw [htake, ← hfront, heq, List.map_map]
  exact (List.map_congr_left fun g _ => (hex_spec g).2).trans (List.map_id gs)

theorem prefixGroups_of_fixed (h : Text x (.v6 ip)) (hfixed : ∀ g ∈ ip.groups.take 4, Fixed g) :
    prefixGroups x = (ip.groups.take 4).map hex := by
  obtain ⟨hbody, hgroups⟩ := h.body
  obtain ⟨ps, hsegs, hle, hfront, htake, hzero⟩ := prefixGroups_spec hbody
  rw [hgroups] at htake hzero
  have hfour : ps.length = 4 := by
    by_contra hne
    have hlt : ps.length < 4 := by omega
    have hmem := getD_mem_take (l := ip.groups) hlt (by rw [ip.length]; omega)
    exact fixed_ne_zero (hfixed _ hmem) (hzero hlt)
  rw [hfour] at htake
  rw [hfront, hfour, Nat.sub_self, List.replicate_zero, List.append_nil, htake, List.map_map]
  refine (List.map_id ps).symm.trans (List.map_congr_left fun p hp => ?_)
  refine eq_hex_of_fixed (List.all_eq_true.mp hsegs p hp) (hfixed _ ?_)
  rw [htake]
  exact List.mem_map_of_mem hp

theorem shares_of_oneSpelling (hx : Text x a) (hy : Text y b) (h : OneSpelling a) :
    Shares x y a b := by
  cases a with
  | v4 ip => cases h
  | v6 ip =>
    have hx' := colon_of_isV6 hx.1.1
    have hfirst : ip.groups.getD 0 0 ∈ ip.groups.take 4 :=
      getD_mem_take (by decide) (by rw [ip.length]; decide)
    have hne := fixed_ne_zero (h _ hfirst)
    have hmapped : ip.mapped = none :=
      mapped_of_ne (getD_mem_take (by decide) (by rw [ip.length]; decide)) hne
    unfold Shares
    rw [network_of_unmapped hmapped]
    cases b with
    | v4 ip' =>
      exact ⟨fun he => absurd he.symm (collapse_ne hy.1 hx'), fun he => by cases he⟩
    | v6 ip' =>
      rw [collapse_eq_iff hx' (colon_of_isV6 hy.1.1), prefixGroups_of_fixed hx h]
      have hback (he : (ip.groups.take 4).map hex = prefixGroups y) :
          ip'.groups.take 4 = ip.groups.take 4 := take_of_prefixGroups hy h he.symm
      cases hmapped' : ip'.mapped with
      | some v4 =>
        rw [network_of_mapped hmapped']
        refine ⟨fun he => ?_, fun he => by cases he⟩
        have hfirst' := getD_mem_take (l := ip'.groups) (i := 0) (n := 5) (by decide)
          (by rw [ip'.length]; decide)
        have hsame : ip'.groups.getD 0 0 = ip.groups.getD 0 0 := by
          have htake := congrArg (List.getD · 0 0) (hback he)
          simpa [List.getD_eq_getElem?_getD, List.getElem?_take] using htake
        rw [mapped_of_ne hfirst' (by rwa [hsame])] at hmapped'
        cases hmapped'
      | none =>
        rw [network_of_unmapped hmapped', Network.net64.injEq]
        refine ⟨fun he => (hback he).symm, fun he => ?_⟩
        rw [prefixGroups_of_fixed hy (by rwa [← he]), he]

/-- All eight groups, as they are written. -/
theorem text_full (ip : Ipv6) (ps : List (List Char)) (hps : ps.all isV6Seg = true)
    (hlength : ps.length = 8) (hip : ip.groups = ps.map (number 16)) :
    Text ([':'].intercalate ps) (.v6 ip) ∧ prefixGroups ([':'].intercalate ps) = ps.take 4 := by
  have hne : ps ≠ [] := List.ne_nil_of_length_pos (by omega)
  have hsplit : ([':'].intercalate ps).splitOn ':' = ps :=
    List.splitOn_intercalate ':'
      (fun p hp => not_mem_of_isV6Seg (List.all_eq_true.mp hps p hp) (by decide)) hne
  generalize [':'].intercalate ps = cs at hsplit
  have hcs : cs ≠ [] := by
    rintro rfl
    have hone := congrArg List.length hsplit
    rw [hlength] at hone
    cases hone
  have hcut : cutDouble cs = none := cutDouble_of_segs (by rwa [hsplit])
  have hbody : isV6Body cs = true := by
    unfold isV6Body groupCount
    rw [hcut, if_neg hcs, hsplit]
    rw [if_pos hps, hlength]
    rfl
  have hzone : '%' ∉ cs := by
    intro hmem
    rcases @mem_splitOn ':' _ _ hmem with he | ⟨p, hp, hc⟩
    · exact absurd he (by decide)
    · rw [hsplit] at hp
      exact not_mem_of_isV6Seg (List.all_eq_true.mp hps p hp) (by decide) hc
  have hgroups : bodyGroups cs = ip.groups := by
    unfold bodyGroups groupsOf
    rw [hcut]
    rw [if_neg hcs, hsplit, if_pos hps, hip]
  refine ⟨⟨⟨?_, by rw [takeWhile_zone hzone]; exact hgroups⟩, hzone⟩, ?_⟩
  · have hdrop : cs.dropWhile (fun c => c != '%') = [] :=
      List.dropWhile_eq_nil_iff.mpr fun c hc => bne_iff_ne.mpr fun he => hzone (he ▸ hc)
    unfold isV6
    rw [hdrop]
    exact hbody
  · have hfour : (ps.take 4).length = 4 := by rw [List.length_take, hlength]; rfl
    unfold prefixGroups headOf
    rw [hcut, Option.map_none, Option.getD_none, hsplit, filter_segs hps]
    dsimp only
    rw [hfour]
    simp

def Ipv4.toMapped (ip : Ipv4) : Ipv6 where
  groups := [0, 0, 0, 0, 0, 0xffff, ip.a * 256 + ip.b, ip.c * 256 + ip.d]
  length := rfl
  bound := by
    obtain ⟨a, b, c, d, hb⟩ := ip
    intro g hg
    simp only [List.mem_cons, List.not_mem_nil, or_false] at hg
    omega

theorem mapped_toMapped (ip : Ipv4) : ip.toMapped.mapped = some ip := by
  obtain ⟨a, b, c, d, hb⟩ := ip
  unfold Ipv6.mapped Ipv4.toMapped
  rw [if_pos ⟨rfl, rfl⟩]
  simp only [List.getD_cons_succ, List.getD_cons_zero, Option.some.injEq, Ipv4.mk.injEq]
  omega

def Ipv6.followed (ip : Ipv6) (w x y z : ℕ)
    (h : w < 65536 ∧ x < 65536 ∧ y < 65536 ∧ z < 65536) : Ipv6 where
  groups := ip.groups.take 4 ++ [w, x, y, z]
  length := by rw [List.length_append, List.length_take, ip.length]; rfl
  bound := by
    intro g hg
    rcases List.mem_append.mp hg with hg | hg
    · exact ip.bound g (List.mem_of_mem_take hg)
    · simp only [List.mem_cons, List.not_mem_nil, or_false] at hg
      omega

def Ipv6.neighbour (ip : Ipv6) : Ipv6 := ip.followed 1 1 1 1 (by decide)

theorem take_followed (ip : Ipv6) {x y : ℕ} (h : w < 65536 ∧ x < 65536 ∧ y < 65536 ∧ z < 65536) :
    (ip.followed w x y z h).groups.take 4 = ip.groups.take 4 := by
  have hlength : (ip.groups.take 4).length = 4 := by rw [List.length_take, ip.length]; rfl
  exact List.take_left' hlength

theorem mapped_followed (ip : Ipv6) {x y : ℕ} (h : w < 65536 ∧ x < 65536 ∧ y < 65536 ∧ z < 65536)
    (hx : x ≠ 0xffff) : (ip.followed w x y z h).mapped = none := by
  have hlength : (ip.groups.take 4).length = 4 := by rw [List.length_take, ip.length]; rfl
  have hgroup : (ip.followed w x y z h).groups.getD 5 0 = x := by
    show (ip.groups.take 4 ++ [w, x, y, z]).getD 5 0 = x
    rw [List.getD_eq_getElem?_getD, List.getElem?_append_right (by omega), hlength]
    rfl
  exact if_neg fun hc => hx (hgroup ▸ hc.2)

theorem network_followed (hip : ip.mapped = none) {x y : ℕ}
    (h : w < 65536 ∧ x < 65536 ∧ y < 65536 ∧ z < 65536) (hx : x ≠ 0xffff) :
    (Address.v6 (ip.followed w x y z h)).network = (Address.v6 ip).network := by
  rw [network_of_unmapped hip, network_of_unmapped (mapped_followed ip h hx), take_followed]

/-- Any other address has a text that is not in its network's bucket, or another network's text is in
its own. -/
theorem exists_not_shares (hx : Text x a) (h : ¬OneSpelling a) :
    ∃ y b, Text y b ∧ ¬Shares x y a b := by
  cases a with
  | v4 ip =>
    refine ⟨_, .v6 ip.toMapped, text_form _, fun hs => ?_⟩
    exact collapse_ne hx.1 (colon_of_isV6 (text_form (.v6 ip.toMapped)).1.1)
      (hs.mpr (network_of_mapped (mapped_toMapped ip)).symm)
  | v6 ip =>
    cases hmapped : ip.mapped with
    | some v4 =>
      refine ⟨_, .v4 v4, text_form _, fun hs => ?_⟩
      exact collapse_ne (text_form (.v4 v4)).1 (colon_of_isV6 hx.1.1)
        (hs.mpr (network_of_mapped hmapped)).symm
    | none =>
      by_contra hall
      have hshares : ∀ y b, Text y b → Shares x y (.v6 ip) b := by
        intro y b hy
        by_contra hs
        exact hall ⟨y, b, hy, hs⟩
      -- one group of the network is written in two ways, and nothing else is changed
      obtain ⟨g, hg, hfixed⟩ : ∃ g ∈ ip.groups.take 4, ¬Fixed g := by
        simpa [OneSpelling] using h
      obtain ⟨p, hp, hnumber, hne⟩ := respelled (ip.bound g (List.mem_of_mem_take hg)) hfixed
      obtain ⟨i, hi, hget⟩ := List.getElem_of_mem hg
      have hi4 : i < 4 := Nat.lt_of_lt_of_le hi (List.length_take_le _ _)
      have hlength : (ip.neighbour.groups.map hex).length = 8 := by
        rw [List.length_map, ip.neighbour.length]
      have hsegs : ∀ q ∈ ip.neighbour.groups.map hex, isV6Seg q = true := by
        intro q hq
        obtain ⟨n, hn, rfl⟩ := List.mem_map.mp hq
        exact isV6Seg_hex (ip.neighbour.bound n hn)
      have hat : (ip.neighbour.groups.map hex)[i]? = some (hex g) := by
        have htake : (ip.neighbour.groups.take 4)[i]? = (ip.groups.take 4)[i]? :=
          congrArg (·[i]?) (take_followed ip _)
        simp only [List.getElem?_take_of_lt hi4] at htake
        rw [List.getElem?_map, htake, ← List.getElem?_take_of_lt hi4, List.getElem?_eq_getElem hi,
          hget, Option.map_some]
      have hplain := text_full ip.neighbour _ (List.all_eq_true.mpr hsegs) hlength (by
        rw [List.map_map]
        exact ((List.map_congr_left fun n _ => (hex_spec n).2).trans (List.map_id _)).symm)
      have hother := text_full ip.neighbour ((ip.neighbour.groups.map hex).set i p)
        (List.all_eq_true.mpr fun q hq => (List.mem_or_eq_of_mem_set hq).elim (hsegs q) (· ▸ hp))
        (by rw [List.length_set, hlength]) (by
          refine List.ext_getElem? fun j => ?_
          rw [List.getElem?_map, List.getElem?_set]
          split_ifs with hij hj
          · subst hij
            have hgroup := congrArg (Option.map (number 16)) hat
            rw [List.getElem?_map, Option.map_map, Option.map_some, (hex_spec g).2] at hgroup
            rw [Option.map_some, hnumber, ← hgroup]
            cases ip.neighbour.groups[i]? with
            | none => rfl
            | some n => simp [(hex_spec n).2]
          · rw [hlength] at hj
            omega
          · rw [List.getElem?_map, Option.map_map]
            cases ip.neighbour.groups[j]? with
            | none => rfl
            | some n => simp [(hex_spec n).2])
      have hnetwork : (Address.v6 ip).network = (Address.v6 ip.neighbour).network :=
        (network_followed hmapped _ (by decide)).symm
      have hcolon := colon_of_isV6 hx.1.1
      have h1 := (hshares _ _ hplain.1).mpr hnetwork
      have h2 := (hshares _ _ hother.1).mpr hnetwork
      rw [collapse_eq_iff hcolon (colon_of_isV6 hplain.1.1.1), hplain.2] at h1
      rw [collapse_eq_iff hcolon (colon_of_isV6 hother.1.1.1), hother.2, h1] at h2
      have hsame := congrArg (·[i]?) h2
      simp only [List.getElem?_take_of_lt hi4, hat] at hsame
      rw [List.getElem?_set_self (by rw [hlength]; omega)] at hsame
      exact hne (Option.some.inj hsame).symm

def bucketGroups (g : List ℕ) : List ℕ :=
  match (bestRun g 8 0 (none, 1)).1 with
  | none => g.take 4
  | some best => (g.take best).take 4 ++ List.replicate (4 - ((g.take best).take 4).length) 0

/-- No two neighbours among the first three groups are zero. -/
def Apart : Address → Prop
  | .v4 _ => True
  | .v6 ip => (ip.groups.getD 0 0 = 0 → ip.groups.getD 1 0 ≠ 0) ∧
    (ip.groups.getD 1 0 = 0 → ip.groups.getD 2 0 ≠ 0)

theorem bestRun_two (g : List ℕ) (fuel i : ℕ) {best : Option ℕ × ℕ} (hpos : 1 ≤ best.2)
    (h : best.1.isSome → 2 ≤ best.2) :
    (bestRun g fuel i best).1.isSome → 2 ≤ (bestRun g fuel i best).2 := by
  induction fuel generalizing i best with
  | zero => exact h
  | succ fuel ih =>
    unfold bestRun
    split
    · exact h
    · dsimp only
      split_ifs with hlonger
      · exact ih _ (by dsimp only; omega) fun _ => by dsimp only; omega
      · exact ih _ hpos h
    · exact ih _ hpos h

def headGroups (g : List ℕ) : List ℕ :=
  match (bestRun g 8 0 (none, 1)).1 with
  | none => g
  | some best => g.take best

theorem headOf_form (ip : Ipv6) : headOf (Address.v6 ip).form = joined (headGroups ip.groups) := by
  unfold headOf Address.form canonicalIpv6 headGroups
  dsimp only
  generalize bestRun ip.groups 8 0 (none, 1) = best
  obtain ⟨start, len⟩ := best
  cases start with
  | none =>
    have hcut := cutDouble_of_groupCount (groupCount_joined true ip.bound).1
    show ((cutDouble (joined ip.groups)).map Prod.fst).getD (joined ip.groups) = _
    rw [hcut]
    rfl
  | some b =>
    have hhead := groupCount_joined (g := ip.groups.take b) false
      fun n hn => ip.bound n (List.mem_of_mem_take hn)
    have hcut := cutDouble_append (joined (ip.groups.drop (b + len)))
      (cutDouble_of_groupCount hhead.1) joined_last
    have htext : joined (ip.groups.take b) ++ [':', ':'] ++ joined (ip.groups.drop (b + len)) =
        joined (ip.groups.take b) ++ ':' :: ':' :: joined (ip.groups.drop (b + len)) := by simp
    show ((cutDouble (joined (ip.groups.take b) ++ [':', ':'] ++
      joined (ip.groups.drop (b + len)))).map Prod.fst).getD _ = _
    rw [htext, hcut]
    rfl

theorem headGroups_bound (ip : Ipv6) : ∀ n ∈ headGroups ip.groups, n < 65536 := by
  intro n hn
  unfold headGroups at hn
  split at hn
  · exact ip.bound n hn
  · exact ip.bound n (List.mem_of_mem_take hn)

theorem bucketGroups_eq (ip : Ipv6) : bucketGroups ip.groups = (headGroups ip.groups).take 4 ++
    List.replicate (4 - ((headGroups ip.groups).take 4).length) 0 := by
  unfold bucketGroups headGroups
  cases (bestRun ip.groups 8 0 (none, 1)).1 with
  | none =>
    have hfour : (ip.groups.take 4).length = 4 := by rw [List.length_take, ip.length]; rfl
    simp only [hfour, Nat.sub_self, List.replicate_zero, List.append_nil]
  | some b => rfl

theorem prefixGroups_form (ip : Ipv6) :
    prefixGroups (Address.v6 ip).form = (bucketGroups ip.groups).map hex := by
  have hbound := headGroups_bound ip
  have hfilter : ((joined (headGroups ip.groups)).splitOn ':').filter (fun h => h ≠ []) =
      (headGroups ip.groups).map hex := by
    by_cases hne : headGroups ip.groups = []
    · rw [hne]
      simp [joined_nil]
    · rw [splitOn_joined hne]
      refine filter_segs (List.all_eq_true.mpr fun p hp => ?_)
      obtain ⟨n, hn, rfl⟩ := List.mem_map.mp hp
      exact isV6Seg_hex (hbound n hn)
  unfold prefixGroups
  rw [headOf_form, hfilter, bucketGroups_eq, List.map_append, List.map_replicate]
  dsimp only
  rw [← List.map_take, List.length_map]
  rfl

theorem hex_injective {m : ℕ} (h : hex m = hex n) : m = n := by
  have hnumber := congrArg (number 16) h
  rwa [(hex_spec m).2, (hex_spec n).2] at hnumber

theorem first_four (ip : Ipv6) : ip.groups.take 4 =
    [ip.groups.getD 0 0, ip.groups.getD 1 0, ip.groups.getD 2 0, ip.groups.getD 3 0] := by
  obtain ⟨g, hlength, hbound⟩ := ip
  match g with
  | [] | [_] | [_, _] | [_, _, _] => simp at hlength
  | _ :: _ :: _ :: _ :: _ => rfl

theorem bucketGroups_cases (ip : Ipv6) : bucketGroups ip.groups = ip.groups.take 4 ∨
      (ip.groups.getD 0 0 = 0 ∧ ip.groups.getD 1 0 = 0 ∧ bucketGroups ip.groups = [0, 0, 0, 0]) ∨
      (ip.groups.getD 1 0 = 0 ∧ ip.groups.getD 2 0 = 0 ∧
        bucketGroups ip.groups = [ip.groups.getD 0 0, 0, 0, 0]) := by
  have hrun : IsRun ip.groups (bestRun ip.groups 8 0 (none, 1)) := bestRun_isRun _ _ _ nofun
  have htwo := bestRun_two ip.groups 8 0 (Nat.le_refl (none, 1).2) nofun
  unfold bucketGroups
  generalize bestRun ip.groups 8 0 (none, 1) = best at hrun htwo
  obtain ⟨start, len⟩ := best
  cases start with
  | none => exact .inl rfl
  | some b =>
    obtain ⟨-, hsplit⟩ := hrun b rfl
    obtain ⟨k, rfl⟩ : ∃ k, len = k + 2 := ⟨len - 2, by have := htwo rfl; dsimp only at this; omega⟩
    obtain ⟨g, hlength, hbound⟩ := ip
    match g, hlength with
    | [g0, g1, g2, g3, g4, g5, g6, g7], _ =>
      match b with
      | 0 =>
        simp only [List.take_zero, List.nil_append, List.replicate_succ, List.cons_append,
          List.cons.injEq] at hsplit
        exact .inr (.inl ⟨hsplit.1, hsplit.2.1, rfl⟩)
      | 1 =>
        simp only [List.take_succ_cons, List.take_zero, List.replicate_succ, List.cons_append,
          List.nil_append, List.cons.injEq] at hsplit
        exact .inr (.inr ⟨hsplit.2.1, hsplit.2.2.1, rfl⟩)
      | 2 =>
        simp only [List.take_succ_cons, List.take_zero, List.replicate_succ, List.cons_append,
          List.nil_append, List.cons.injEq] at hsplit
        left
        simp [hsplit.2.2.1, hsplit.2.2.2.1]
      | 3 =>
        simp only [List.take_succ_cons, List.take_zero, List.replicate_succ, List.cons_append,
          List.nil_append, List.cons.injEq] at hsplit
        left
        simp [hsplit.2.2.2.1]
      | b + 4 => exact .inl (by simp)

theorem bucket_form_iff (ip ip' : Ipv6) :
    collapseIpForRateLimit (Address.v6 ip).form = collapseIpForRateLimit (Address.v6 ip').form ↔
      bucketGroups ip.groups = bucketGroups ip'.groups := by
  have hcolon (ip : Ipv6) : ':' ∈ (Address.v6 ip).form := colon_of_isV6 (text_form (.v6 ip)).1.1
  rw [collapse_eq_iff (hcolon ip) (hcolon ip'), prefixGroups_form, prefixGroups_form]
  exact List.map_inj_right fun _ _ => hex_injective

theorem mapped_of_unmapped (h : (Address.v6 ip).unmapped = .v6 ip) : ip.mapped = none := by
  cases hmapped : ip.mapped with
  | none => rfl
  | some v4 => simp [Address.unmapped, hmapped] at h

theorem shares_of_apart (ha : a.unmapped = a) (hb : b.unmapped = b) (h : Apart a) :
    Shares a.form b.form a b := by
  unfold Shares
  cases a with
  | v4 ip =>
    cases b with
    | v4 ip' =>
      rw [collapse_of_v4 (text_form (.v4 ip)).1, collapse_of_v4 (text_form (.v4 ip')).1]
      simp only [Address.network, Address.unmapped, Network.host.injEq]
      exact ⟨fun he => Address.v4.inj (form_injective he), fun he => by rw [he]⟩
    | v6 ip' =>
      rw [network_of_unmapped (mapped_of_unmapped hb)]
      exact ⟨fun he => absurd he (collapse_ne (text_form (.v4 ip)).1
        (colon_of_isV6 (text_form (.v6 ip')).1.1)), fun he => by cases he⟩
  | v6 ip =>
    rw [network_of_unmapped (mapped_of_unmapped ha)]
    cases b with
    | v4 ip' =>
      exact ⟨fun he => absurd he.symm (collapse_ne (text_form (.v4 ip')).1
        (colon_of_isV6 (text_form (.v6 ip)).1.1)), fun he => by cases he⟩
    | v6 ip' =>
      obtain ⟨h01, h12⟩ := h
      rw [network_of_unmapped (mapped_of_unmapped hb), bucket_form_iff, Network.net64.injEq]
      have hown : bucketGroups ip.groups = ip.groups.take 4 := by
        rcases bucketGroups_cases ip with h | ⟨h0, h1, -⟩ | ⟨h1, h2, -⟩
        · exact h
        · exact absurd h1 (h01 h0)
        · exact absurd h2 (h12 h1)
      rw [hown]
      rcases bucketGroups_cases ip' with h | ⟨h0, h1, h⟩ | ⟨h1, h2, h⟩
      · rw [h]
      -- with the colons so early, neither the bucket nor the network is the other's
      · rw [h, first_four ip, first_four ip', h0, h1]
        simp only [List.cons.injEq]
        exact ⟨fun he => absurd he.2.1 (h01 he.1), fun he => absurd he.2.1 (h01 he.1)⟩
      · rw [h, first_four ip, first_four ip', h1, h2]
        simp only [List.cons.injEq]
        exact ⟨fun he => absurd he.2.2.1 (h12 he.2.1), fun he => absurd he.2.2.1 (h12 he.2.1)⟩

/-- Any other form is not in its network's bucket, or another network's form is in its. -/
theorem exists_form_not_shares (hip : (Address.v6 ip).unmapped = .v6 ip) (h : ¬Apart (.v6 ip)) :
    ∃ b, b.unmapped = b ∧ ¬Shares (Address.v6 ip).form b.form (.v6 ip) b := by
  by_contra hall
  have hmapped := mapped_of_unmapped hip
  have hshares : ∀ ip' : Ipv6, ip'.mapped = none →
      (bucketGroups ip.groups = bucketGroups ip'.groups ↔
        ip.groups.take 4 = ip'.groups.take 4) := by
    intro ip' hmapped'
    by_contra hs
    refine hall ⟨.v6 ip', by simp [Address.unmapped, hmapped'], fun hshares => hs ?_⟩
    unfold Shares at hshares
    rwa [bucket_form_iff, network_of_unmapped hmapped, network_of_unmapped hmapped',
      Network.net64.injEq] at hshares
  have hones := (hshares (ip.followed 1 1 1 1 (by decide)) (mapped_followed ip _ (by decide))).mpr
    (take_followed ip _).symm
  have hzeros := (hshares (ip.followed 0 0 0 0 (by decide)) (mapped_followed ip _ (by decide))).mpr
    (take_followed ip _).symm
  have hother := (hshares ⟨[ip.groups.getD 0 0, 0, 0, 1, 1, 1, 1, 1], rfl, by
    simpa using group_lt ip 0⟩ (if_neg (by simp))).mp
  have h0 := group_lt ip 0
  simp only [Ipv6.followed, first_four ip, List.cons_append, List.nil_append] at hones hzeros hother
  change ¬((ip.groups.getD 0 0 = 0 → ip.groups.getD 1 0 ≠ 0) ∧
    (ip.groups.getD 1 0 = 0 → ip.groups.getD 2 0 ≠ 0)) at h
  generalize ip.groups.getD 0 0 = g0 at *
  generalize ip.groups.getD 1 0 = g1 at *
  generalize ip.groups.getD 2 0 = g2 at *
  generalize ip.groups.getD 3 0 = g3 at *
  -- the zeros of the network are left out of one form, and those after it of the other
  have hone (m : ℕ) : bucketGroups [g0, 0, 0, m, 1, 1, 1, 1] = [g0, 0, 0, 0] := by
    cases g0 <;> cases m <;> rfl
  by_cases hmid : g1 = 0 ∧ g2 = 0
  · obtain ⟨rfl, rfl⟩ := hmid
    cases g3 with
    | zero =>
      rw [hone] at hones
      exact absurd (hother (hones.trans (hone 1).symm)) (by simp)
    | succ m =>
      have hzero : bucketGroups [g0, 0, 0, m + 1, 0, 0, 0, 0] = [g0, 0, 0, m + 1] := by
        cases g0 <;> rfl
      rw [hones, hone, hzero] at hzeros
      simp at hzeros
  · obtain ⟨rfl, rfl⟩ : g0 = 0 ∧ g1 = 0 := by
      by_contra hfirst
      exact h ⟨fun h0 h1 => hfirst ⟨h0, h1⟩, fun h1 h2 => hmid ⟨h1, h2⟩⟩
    cases g2 with
    | zero => exact hmid ⟨rfl, rfl⟩
    | succ k =>
      have hone' : bucketGroups [0, 0, k + 1, g3, 1, 1, 1, 1] = [0, 0, 0, 0] := by
        cases g3 <;> rfl
      have hzero : bucketGroups [0, 0, k + 1, g3, 0, 0, 0, 0] = [0, 0, k + 1, g3] := by
        cases g3 <;> rfl
      rw [hones, hone', hzero] at hzeros
      simp at hzeros

def decimalIp : Ipv6 := ⟨[0x2001, 0x1234, 0x5678, 0x9999, 0, 0, 0, 1], rfl, by decide⟩

def shortIp : Ipv6 := ⟨[0x2a01, 0x4f8, 0, 0, 0, 0, 0, 1], rfl, by decide⟩

end Kindred.Net
