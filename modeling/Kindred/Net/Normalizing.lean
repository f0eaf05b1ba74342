import Kindred.Net.Judging

/-! One address, one form: what `normalizeIp` makes of the texts of an address. -/

namespace Kindred.Net
open Rest (trim lower)

inductive Zoned (a : Address) : List Char → Prop where
  | none {cs : List Char} (h : Spells cs a) (hcs : '%' ∉ cs) : Zoned a cs
  | zone {cs : List Char} (zone : List Char) (h : Spells cs a) (hcs : '%' ∉ cs) :
    Zoned a (cs ++ '%' :: zone)

inductive Written : Address → List Char → Prop where
  | bare {a : Address} {cs : List Char} (h : Zoned a cs) : Written a cs
  | bracketed {a : Address} {cs : List Char} (after : List Char) (h : Zoned a cs) (hcs : ']' ∉ cs) :
    Written a ('[' :: (cs ++ ']' :: after))
  | port {ip : Ipv4} {cs : List Char} (port : List Char) (h : Zoned (.v4 ip) cs) (hcs : ':' ∉ cs)
    (hport : ':' ∉ port) : Written (.v4 ip) (cs ++ ':' :: port)

def Denotes (raw : String) (a : Address) : Prop := Written a (lower (trim raw)).toList

theorem group_lt (ip : Ipv6) (i : ℕ) : ip.groups.getD i 0 < 65536 := by
  rw [List.getD_eq_getElem?_getD]
  cases h : ip.groups[i]? with
  | none => exact Nat.succ_pos _
  | some g => exact ip.bound g (List.mem_of_getElem? h)

def Ipv6.mapped (ip : Ipv6) : Option Ipv4 :=
  if (ip.groups.take 5).all (· == 0) ∧ ip.groups.getD 5 0 = 0xffff then
    some ⟨ip.groups.getD 6 0 / 256, ip.groups.getD 6 0 % 256, ip.groups.getD 7 0 / 256,
      ip.groups.getD 7 0 % 256, by
        have h6 := group_lt ip 6
        have h7 := group_lt ip 7
        omega⟩
  else none

def Address.unmapped : Address → Address
  | .v4 ip => .v4 ip
  | .v6 ip => (ip.mapped.map Address.v4).getD (.v6 ip)

def Address.form : Address → List Char
  | .v4 ip => dotted ip.octets
  | .v6 ip => canonicalIpv6 ip.groups

variable {p q last : List Char} {l : List ℕ} {v4Tail : Bool} {n : ℕ} {ip : Ipv4} {sep : Char}
  {raw : String} {b : Address}

theorem takeWhile_hex (h : isV6Seg p = true) : p.takeWhile isHex = p := by
  simp only [isV6Seg, Bool.and_eq_true] at h
  exact List.takeWhile_eq_self_iff.mpr (List.all_eq_true.mp h.2)

variable {cs : List Char} {a : Address}

theorem ipv6Part_of_segs (h : (cs.splitOn ':').all isV6Seg = true) :
    ipv6Part cs = (cs.splitOn ':').map (number 16) := by
  have hseg : ∀ p ∈ cs.splitOn ':', isV6Seg p = true := List.all_eq_true.mp h
  have hne : ∀ p ∈ cs.splitOn ':', decide (p ≠ []) = true := by
    intro p hp
    have hp := hseg p hp
    simp only [isV6Seg, Bool.and_eq_true, bne_iff_ne] at hp
    exact decide_eq_true hp.1.1
  unfold ipv6Part
  rw [List.filter_eq_self.mpr hne]
  exact List.map_congr_left fun p hp => by rw [takeWhile_hex (hseg p hp)]

theorem cutDouble_of_segs (h : (cs.splitOn ':').all isV6Seg = true) : cutDouble cs = none := by
  cases hcut : cutDouble cs with
  | none => rfl
  | some r =>
    have hempty : [] ∈ cs.splitOn ':' := by
      rw [eq_of_cutDouble hcut, List.splitOn_append_cons_self,
        List.splitOn_cons_eq_if_modifyHead]
      simp
    exact absurd (List.all_eq_true.mp h _ hempty) (by decide)

theorem not_dot_of_segs (h : (cs.splitOn ':').all isV6Seg = true) : '.' ∉ cs := by
  intro hmem
  rcases @mem_splitOn ':' _ _ hmem with he | ⟨p, hp, hc⟩
  · exact absurd he (by decide)
  · exact not_mem_of_isV6Seg (List.all_eq_true.mp h p hp) (by decide) hc

theorem intercalate_concat (init : List (List Char)) (last : List Char) :
    [':'].intercalate (init ++ [last]) = init.flatMap (· ++ [':']) ++ last := by
  induction init with
  | nil => simp
  | cons p init ih =>
    cases hinit : init ++ [last] with
    | nil => simp at hinit
    | cons q qs =>
      rw [List.cons_append, hinit, List.intercalate_cons_cons, ← hinit, ih]
      simp

theorem flatMap_last {init : List (List Char)} (h : init ≠ []) :
    (init.flatMap (· ++ [':'])).getLast? = some ':' := by
  obtain ⟨ps, p, rfl⟩ := List.eq_nil_or_concat init |>.resolve_left h
  simp [← List.append_assoc]

theorem lastPiece (hq : q = [] ∨ q.getLast? = some ':') (h : ':' ∉ last) :
    ((q ++ last).reverse.takeWhile fun c => c != ':').reverse = last := by
  have hlast : ∀ c ∈ last.reverse, (c != ':') = true := fun c hc =>
    bne_iff_ne.mpr fun he => h (he ▸ List.mem_reverse.mp hc)
  rw [List.reverse_append, List.takeWhile_append_of_pos hlast, List.reverse_append,
    List.reverse_reverse]
  rcases hq with rfl | hq
  · rfl
  · obtain ⟨init, rfl⟩ := List.getLast?_eq_some_iff.mp hq
    simp

theorem undot_of_not_dot (h : '.' ∉ cs) : undot cs = cs := by
  have htail : ¬(cs.reverse.takeWhile fun c => c != ':').reverse.contains '.' = true := by
    intro hc
    rw [List.contains_iff_mem, List.mem_reverse] at hc
    exact h (List.mem_reverse.mp ((List.takeWhile_prefix _).subset hc))
  exact if_neg fun hc => htail hc.1

theorem undot_dotted (hq : q = [] ∨ q.getLast? = some ':') (h : isV4 last = true)
    : undot (q ++ last) = q ++ (hex ((octets last).getD 0 0 * 256 + (octets last).getD 1 0) ++
        ':' :: hex ((octets last).getD 2 0 * 256 + (octets last).getD 3 0)) := by
  have hcolon : ':' ∉ last := (quad_chars (quad_of_isV4 h)).1
  have hlength : (octets last).length = 4 := by
    simp only [isV4, Bool.and_eq_true, beq_iff_eq] at h
    rw [octets, List.length_map, h.1]
  have hdot : last.contains '.' = true := by
    rw [List.contains_iff_mem]
    by_contra hdot
    have hone := List.splitOn_eq_singleton hdot
    simp [isV4, hone] at h
  unfold undot
  rw [lastPiece hq hcolon, if_pos ⟨hdot, hlength⟩]
  simp

/-- A last part, without its dotted tail. -/
theorem undot_part {t : List Char} (hq : q = [] ∨ q.getLast? = some ':') (hdot : '.' ∉ q)
    (h : Parts true t l) :
    ∃ t', undot (q ++ t) = q ++ t' ∧ ipv6Part t' = l ∧ cutDouble t' = none := by
  cases h with
  | none h =>
    subst h
    exact ⟨[], by simpa using undot_of_not_dot hdot, rfl, rfl⟩
  | groups _ h =>
    refine ⟨t, undot_of_not_dot fun hmem => ?_, ipv6Part_of_segs h, cutDouble_of_segs h⟩
    exact (List.mem_append.mp hmem).elim hdot (not_dot_of_segs h)
  | dotted _ _ last hparts hinit hlast =>
    generalize (t.splitOn ':').dropLast = init at hparts hinit
    obtain ⟨v4, hv4⟩ := octets_of_isV4 hlast
    have hb := v4.bound
    obtain ⟨hi, hhi⟩ : ∃ hi, (octets last).getD 0 0 * 256 + (octets last).getD 1 0 = hi := ⟨_, rfl⟩
    obtain ⟨lo, hlo⟩ : ∃ lo, (octets last).getD 2 0 * 256 + (octets last).getD 3 0 = lo := ⟨_, rfl⟩
    rw [hhi, hlo]
    have hbound : hi < 65536 ∧ lo < 65536 := by
      simp only [hv4, Ipv4.octets, List.getD_cons_zero, List.getD_cons_succ] at hhi hlo
      omega
    have ht : t = init.flatMap (· ++ [':']) ++ last := by
      have hjoin : [':'].intercalate (t.splitOn ':') = t := List.intercalate_splitOn ':'
      rw [← hjoin, hparts, intercalate_concat]
    have hbefore : q ++ init.flatMap (· ++ [':']) = [] ∨
        (q ++ init.flatMap (· ++ [':'])).getLast? = some ':' := by
      by_cases hne : init = []
      · simpa [hne] using hq
      · exact .inr (by simp [flatMap_last hne])
    -- the two groups take the place of the dotted tail
    have hsegs : ([':'].intercalate (init ++ [hex hi, hex lo])).splitOn ':' =
        init ++ [hex hi, hex lo] := by
      refine List.splitOn_intercalate ':' (fun p hp => ?_) (by simp)
      rcases List.mem_append.mp hp with hp | hp
      · exact not_mem_of_isV6Seg (List.all_eq_true.mp hinit p hp) (by decide)
      · simp only [List.mem_cons, List.not_mem_nil, or_false] at hp
        rcases hp with rfl | rfl <;> exact fun hc => (hex_char hc).2.2.1 rfl
    have hall : (([':'].intercalate (init ++ [hex hi, hex lo])).splitOn ':').all isV6Seg = true := by
      rw [hsegs, List.all_append, hinit]
      simp [isV6Seg_hex hbound.1, isV6Seg_hex hbound.2]
    refine ⟨_, ?_, ?_, cutDouble_of_segs hall⟩
    · have hpair : init ++ [hex hi, hex lo] = init ++ [hex hi] ++ [hex lo] := by simp
      rw [ht, ← List.append_assoc, undot_dotted hbefore hlast, hhi, hlo, hpair, intercalate_concat]
      simp
    · rw [ipv6Part_of_segs hall, hsegs, List.map_append]
      simp [(hex_spec hi).2, (hex_spec lo).2]

theorem not_last_colon (h : Parts v4Tail cs l) : cs.getLast? ≠ some ':' := by
  intro hlast
  obtain ⟨init, rfl⟩ := List.getLast?_eq_some_iff.mp hlast
  have hempty : [] ∈ (init ++ [':']).splitOn ':' := by
    rw [List.splitOn_append_cons_self]
    simp
  cases h with
  | none h => simp at h
  | groups _ h => exact absurd (List.all_eq_true.mp h _ hempty) (by decide)
  | dotted _ _ last hparts hinit hv4 =>
    rw [hparts, List.mem_append, List.mem_singleton] at hempty
    rcases hempty with hempty | rfl
    · exact absurd (List.all_eq_true.mp hinit _ hempty) (by decide)
    · exact absurd hv4 (by decide)

theorem not_dot_of_groupCount (h : groupCount false cs = some n) : '.' ∉ cs := by
  have hparts := (parts_of_groupCount h).1
  generalize groupsOf cs = l at hparts
  cases hparts with
  | none h => simp [h]
  | groups _ h => exact not_dot_of_segs h
  | dotted _ ht => cases ht

theorem ipv6Part_of_groupCount (h : groupCount false cs = some n) : ipv6Part cs = groupsOf cs := by
  have hparts := (parts_of_groupCount h).1
  generalize groupsOf cs = l at hparts
  cases hparts with
  | none h =>
    subst h
    rfl
  | groups _ h => exact ipv6Part_of_segs h
  | dotted _ ht => cases ht

/-- The groups of an address are what its text spells. -/
theorem ipv6Groups_of_body (h : isV6Body cs = true) (hzone : '%' ∉ cs) :
    ipv6Groups cs = some (bodyGroups cs) := by
  have hv6 : isIP cs = 6 := by
    have hne : ∀ c ∈ cs, (c != '%') = true := fun c hc => bne_iff_ne.mpr fun he => hzone (he ▸ hc)
    have hdrop : cs.dropWhile (fun c => c != '%') = [] := List.dropWhile_eq_nil_iff.mpr hne
    have hbody : isV6 cs = true := by rwa [isV6, hdrop]
    have hv4 : isV4 cs = false := by
      by_contra hv4
      rw [Bool.not_eq_false] at hv4
      exact (quad_chars (quad_of_isV4 hv4)).1 (colon_of_isV6 hbody)
    rw [isIP, hv4, hbody]
    rfl
  have hlength := (body_cases h).1
  unfold ipv6Groups
  rw [if_neg (not_not.mpr hv6)]
  dsimp only
  unfold isV6Body at h
  unfold bodyGroups at hlength ⊢
  cases hcut : cutDouble cs with
  | none =>
    simp only [hcut, beq_iff_eq] at h hlength
    obtain ⟨t', hundot, hgroups, hnone⟩ := undot_part (.inl rfl) (by simp) (parts_of_groupCount h).1
    rw [List.nil_append] at hundot
    rw [hundot, List.nil_append, hnone]
    rw [hgroups, if_pos hlength]
  | some r =>
    obtain ⟨head, tail⟩ := r
    simp only [hcut] at h
    obtain ⟨a, hhead, h⟩ := (Option.any_eq_true _ _).mp h
    obtain ⟨b, htail, h⟩ := (Option.any_eq_true _ _).mp h
    obtain ⟨hparts, ha⟩ := parts_of_groupCount hhead
    obtain ⟨hparts', hb⟩ := parts_of_groupCount htail
    have hcs : cs = head ++ [':', ':'] ++ tail := by simpa using eq_of_cutDouble hcut
    have hdot : '.' ∉ head ++ [':', ':'] := by simpa using not_dot_of_groupCount hhead
    obtain ⟨t', hundot, hgroups, -⟩ := undot_part (.inr (by simp)) hdot hparts'
    have hcut' : cutDouble (head ++ [':', ':'] ++ t') = some (head, t') := by
      rw [List.append_assoc]
      exact cutDouble_append t' (cutDouble_of_groupCount hhead) (not_last_colon hparts)
    rw [hcs, hundot, hcut']
    dsimp only
    rw [hgroups, ipv6Part_of_groupCount hhead, if_pos]
    simp only [decide_eq_true_eq] at h
    omega

theorem toDigits_three : ∀ a < 10, ∀ b < 10, ∀ c < 10, a ≠ 0 →
    Nat.toDigits 10 (100 * a + 10 * b + c) = [a.digitChar, b.digitChar, c.digitChar] := by
  decide +kernel

theorem toDigits_two : ∀ b < 10, ∀ c < 10, b ≠ 0 →
    Nat.toDigits 10 (10 * b + c) = [b.digitChar, c.digitChar] := by
  decide +kernel

theorem digit_spec {c : Char} (h : c.isDigit = true) :
    digitValue c < 10 ∧ (digitValue c).digitChar = c ∧ (c ≠ '0' → digitValue c ≠ 0) := by
  have hlt : c.toNat < 128 := lt_128_of_isAddressChar
    (isAddressChar_of_isZoneChar (by simp [isZoneChar, Char.isAlphanum, h]))
  have hall := ascii_cases (p := fun c => c.isDigit = true →
    digitValue c < 10 ∧ (digitValue c).digitChar = c ∧ (c ≠ '0' → digitValue c ≠ 0))
    (by decide +kernel) hlt
  exact of_decide_eq_true hall h

theorem toDigits_number (h : isV4Seg p = true) : Nat.toDigits 10 (number 10 p) = p := by
  simp only [isV4Seg, Bool.and_eq_true, Bool.or_eq_true, beq_iff_eq, bne_iff_ne,
    decide_eq_true_eq, List.all_eq_true] at h
  obtain ⟨⟨hdigits, hlength⟩, -⟩ := h
  rcases p with _ | ⟨a, _ | ⟨b, _ | ⟨c, _ | ⟨d, rest⟩⟩⟩⟩
  · simp at hlength
  · have ha := digit_spec (hdigits a (by simp))
    have hnumber : number 10 [a] = digitValue a := by simp [number]
    rw [hnumber, Nat.toDigits_of_lt_base ha.1, ha.2.1]
  · have ha := digit_spec (hdigits a (by simp))
    have hb := digit_spec (hdigits b (by simp))
    have hhead : a ≠ '0' := by simpa using hlength
    have hnumber : number 10 [a, b] = 10 * digitValue a + digitValue b := by simp [number]
    rw [hnumber, toDigits_two _ ha.1 _ hb.1 (ha.2.2 hhead), ha.2.1, hb.2.1]
  · have ha := digit_spec (hdigits a (by simp))
    have hb := digit_spec (hdigits b (by simp))
    have hc := digit_spec (hdigits c (by simp))
    have hhead : a ≠ '0' := by simpa using hlength
    have hnumber : number 10 [a, b, c] = 100 * digitValue a + 10 * digitValue b + digitValue c := by
      simp only [number, List.foldl_cons, List.foldl_nil]
      omega
    rw [hnumber, toDigits_three _ ha.1 _ hb.1 _ hc.1 (ha.2.2 hhead), ha.2.1, hb.2.1, hc.2.1]
  · have hle : (a :: b :: c :: d :: rest).length ≤ 3 :=
      hlength.elim (fun h => by rw [h]; decide) fun h => h.1.1
    simp only [List.length_cons] at hle
    omega

theorem dotted_of_spells (h : Spells cs (.v4 ip)) : cs = dotted ip.octets := by
  obtain ⟨hv4, hoctets⟩ := h
  simp only [isV4, Bool.and_eq_true, List.all_eq_true] at hv4
  have hmap : (octets cs).map (Nat.toDigits 10) = cs.splitOn '.' := by
    rw [octets, List.map_map]
    exact (List.map_congr_left fun p hp => toDigits_number (hv4.2 p hp)).trans (List.map_id _)
  rw [dotted, ← hoctets, hmap]
  exact (List.intercalate_splitOn '.').symm

theorem takeWhile_zone (h : '%' ∉ cs) : cs.takeWhile (· != '%') = cs :=
  List.takeWhile_eq_self_iff.mpr fun _ hc => bne_iff_ne.mpr fun he => h (he ▸ hc)

/-- What `normalizeIp` does with a text by itself. -/
def formOf (cs : List Char) : Option String :=
  match ipv6Groups cs with
  | some g =>
    if (g.take 5).all (· == 0) ∧ g.getD 5 0 = 0xffff then
      some (.ofList (dotted [g.getD 6 0 / 256, g.getD 6 0 % 256, g.getD 7 0 / 256,
        g.getD 7 0 % 256]))
    else some (.ofList (canonicalIpv6 g))
  | none => if isIP cs ≠ 0 then some (.ofList cs) else none

theorem formOf_spells (h : Spells cs a) (hzone : '%' ∉ cs) :
    formOf cs = some (.ofList a.unmapped.form) := by
  unfold formOf
  cases a with
  | v4 ip =>
    have hip : isIP cs = 4 := by rw [isIP, if_pos h.1]
    rw [ipv6Groups, if_pos (by simp [hip])]
    rw [if_pos (by simp [hip])]
    exact congrArg (some ∘ String.ofList) (dotted_of_spells h)
  | v6 ip =>
    have hbody := body_of_isV6 h.1
    have hgroups := h.2
    rw [takeWhile_zone hzone] at hbody hgroups
    rw [ipv6Groups_of_body hbody hzone, hgroups]
    dsimp only [Address.unmapped, Ipv6.mapped]
    split_ifs <;> rfl

theorem normalizeIp_eq (raw : String) : normalizeIp (some raw) =
    if lower (trim raw) = "" ∨ lower (trim raw) = "unknown" then none
    else formOf (bare (lower (trim raw)).toList) := rfl

/-- `bare`, before the zone is cut. -/
def unported (ip : List Char) : List Char :=
  if ip.head? = some '[' then
    if ip.contains ']' then (ip.takeWhile fun c => c != ']').drop 1 else ip
  else if ip.contains '.' ∧ ip.contains ':' ∧ (ip.splitOn ':').length = 2 then
    ip.takeWhile fun c => c != ':'
  else ip

def unzoned (ip : List Char) : List Char :=
  if ip.contains '%' ∧ ip.head? ≠ some '%' then ip.takeWhile fun c => c != '%' else ip

theorem bare_eq (ip : List Char) : bare ip = unzoned (unported ip) := rfl

theorem chars_of_spells (h : Spells cs a) : cs ≠ [] ∧ ∀ c ∈ cs, isAddressChar c = true := by
  cases a with
  | v4 ip =>
    refine ⟨?_, chars_of_isV4 h.1⟩
    rintro rfl
    exact absurd h.1 (by decide)
  | v6 ip =>
    refine ⟨?_, chars_of_isV6 h.1⟩
    rintro rfl
    exact absurd h.1 (by decide)

theorem not_zone_first : ¬Spells ('%' :: cs) a := by
  intro h
  cases a with
  | v4 ip =>
    rcases isV4_char h.1 List.mem_cons_self with he | he
    · exact absurd he (by decide)
    · exact absurd he (by decide)
  | v6 ip =>
    have hbody := body_of_isV6 h.1
    have hnil : ('%' :: cs).takeWhile (fun c => c != '%') = [] := by simp
    rw [hnil] at hbody
    exact absurd hbody (by decide)

theorem takeWhile_before {rest : List Char} (h : sep ∉ cs) :
    (cs ++ sep :: rest).takeWhile (fun c => c != sep) = cs := by
  have hcs : ∀ c ∈ cs, (c != sep) = true := fun c hc => bne_iff_ne.mpr fun he => h (he ▸ hc)
  rw [List.takeWhile_append_of_pos hcs, List.takeWhile_cons_of_neg (by simp), List.append_nil]

theorem split_first (h : sep ∈ cs) : ∃ rest, cs = cs.takeWhile (fun c => c != sep) ++ sep :: rest ∧
      sep ∉ cs.takeWhile (fun c => c != sep) := by
  obtain ⟨before, rest, rfl, hbefore⟩ := List.eq_append_cons_of_mem h
  rw [takeWhile_before hbefore]
  exact ⟨rest, rfl, hbefore⟩

theorem spells_unzoned (h : Zoned a cs) : Spells (unzoned cs) a ∧ '%' ∉ unzoned cs := by
  unfold unzoned
  cases h with
  | none h hcs =>
    rw [if_neg fun hc => hcs (List.contains_iff_mem.mp hc.1)]
    exact ⟨h, hcs⟩
  | @zone cs zone h hcs =>
    have hhead : (cs ++ '%' :: zone).head? ≠ some '%' := by
      cases cs with
      | nil => exact absurd rfl (chars_of_spells h).1
      | cons c cs => simpa using fun he : c = '%' => hcs (he ▸ List.mem_cons_self)
    rw [if_pos ⟨by simp, hhead⟩, takeWhile_before hcs]
    exact ⟨h, hcs⟩

theorem zoned_of_spells (h : Spells (unzoned cs) a) : Zoned a cs := by
  unfold unzoned at h
  by_cases hzone : '%' ∈ cs
  · by_cases hhead : cs.head? = some '%'
    · obtain ⟨rest, rfl⟩ := List.head?_eq_some_iff.mp hhead
      rw [if_neg (by simp)] at h
      exact absurd h not_zone_first
    · rw [if_pos ⟨List.contains_iff_mem.mpr hzone, hhead⟩] at h
      obtain ⟨zone, heq, hnot⟩ := split_first hzone
      rw [heq]
      exact .zone zone h hnot
  · rw [if_neg fun hc => hzone (List.contains_iff_mem.mp hc.1)] at h
    exact .none h hzone

theorem length_splitOn (sep : Char) (cs : List Char) :
    (cs.splitOn sep).length = cs.count sep + 1 := by
  induction cs with
  | nil => rfl
  | cons c cs ih =>
    rw [List.splitOn_cons_eq_if_modifyHead, List.count_cons]
    split_ifs with hc
    · rw [List.length_cons, ih]
    · rw [List.length_modifyHead, ih, Nat.add_zero]

theorem two_colons {ip : Ipv6} (h : Spells cs (.v6 ip)) : 2 ≤ cs.count ':' := by
  have hbody := body_of_isV6 h.1
  have hle := (List.takeWhile_prefix (fun c => c != '%') (l := cs)).sublist.count_le ':'
  refine Nat.le_trans ?_ hle
  generalize cs.takeWhile (fun c => c != '%') = body at hbody
  have hlength := (body_cases hbody).1
  unfold isV6Body at hbody
  unfold bodyGroups at hlength
  cases hcut : cutDouble body with
  | none =>
    simp only [hcut, beq_iff_eq] at hbody hlength
    have hparts := (parts_of_groupCount hbody).1
    have hsplit := length_splitOn ':' body
    generalize groupsOf body = l at hparts hlength
    cases hparts with
    | none hnil => cases hlength
    | groups => rw [List.length_map] at hlength; omega
    | dotted _ _ last hparts =>
      rw [hparts] at hsplit
      simp only [List.length_append, List.length_map, List.length_cons,
        List.length_nil] at hlength hsplit
      omega
  | some r =>
    rw [eq_of_cutDouble hcut, List.count_append, List.count_cons_self, List.count_cons_self]
    omega

theorem no_colon_of_v4 (h : Spells cs (.v4 ip)) : ':' ∉ cs :=
  (quad_chars (quad_of_isV4 h.1)).1

theorem dot_of_v4 (h : Spells cs (.v4 ip)) : '.' ∈ cs := by
  by_contra hdot
  have hone := List.splitOn_eq_singleton hdot
  have hv4 := h.1
  simp [isV4, hone] at hv4

theorem Zoned.chars (h : Zoned a cs) :
    ∃ t, Spells t a ∧ '%' ∉ t ∧ (cs = t ∨ ∃ zone, cs = t ++ '%' :: zone) := by
  cases h with
  | none h hcs => exact ⟨cs, h, hcs, .inl rfl⟩
  | @zone t zone h hcs => exact ⟨t, h, hcs, .inr ⟨zone, rfl⟩⟩

theorem Zoned.not_bracket (h : Zoned a cs) : cs.head? ≠ some '[' := by
  obtain ⟨t, ht, -, hcs⟩ := h.chars
  obtain ⟨hne, hchars⟩ := chars_of_spells ht
  cases t with
  | nil => exact absurd rfl hne
  | cons c t =>
    have hc : c ≠ '[' := fun he => absurd (he ▸ hchars c List.mem_cons_self) (by decide)
    rcases hcs with rfl | ⟨zone, rfl⟩ <;> simpa using hc

theorem Zoned.two_colons {ip : Ipv6} (h : Zoned (.v6 ip) cs) : 2 ≤ cs.count ':' := by
  obtain ⟨t, ht, -, hcs⟩ := h.chars
  have htwo := Net.two_colons ht
  rcases hcs with rfl | ⟨zone, rfl⟩
  · exact htwo
  · rw [List.count_append]
    omega

theorem Zoned.cut (h : Zoned (.v4 ip) cs) : Zoned (.v4 ip) (cs.takeWhile fun c => c != ':') := by
  obtain ⟨t, ht, hzone, hcs⟩ := h.chars
  have hall : ∀ c ∈ t, (c != ':') = true :=
    fun c hc => bne_iff_ne.mpr fun he => no_colon_of_v4 ht (he ▸ hc)
  rcases hcs with rfl | ⟨zone, rfl⟩
  · rw [List.takeWhile_eq_self_iff.mpr hall]
    exact .none ht hzone
  · rw [List.takeWhile_append_of_pos hall, List.takeWhile_cons_of_pos (by decide)]
    exact .zone _ ht hzone

theorem zoned_unported (h : Written a cs) : Zoned a (unported cs) := by
  unfold unported
  cases h with
  | bare h =>
    rw [if_neg h.not_bracket]
    split_ifs with hport
    · cases a with
      | v4 ip => exact h.cut
      | v6 ip =>
        have htwo := h.two_colons
        have hlength := hport.2.2
        rw [length_splitOn] at hlength
        omega
    · exact h
  | @bracketed _ cs after h hcs =>
    have htake : ('[' :: (cs ++ ']' :: after)).takeWhile (fun c => c != ']') = '[' :: cs := by
      rw [List.takeWhile_cons_of_pos (by decide), takeWhile_before hcs]
    rw [if_pos List.head?_cons, if_pos (by simp), htake]
    exact h
  | @port ip cs port h hcs hport =>
    have hhead : (cs ++ ':' :: port).head? ≠ some '[' := by
      have hnot := h.not_bracket
      cases cs with
      | nil => simp
      | cons c cs => simpa using hnot
    have hdot : (cs ++ ':' :: port).contains '.' = true := by
      obtain ⟨t, ht, -, heq⟩ := h.chars
      have hdot := dot_of_v4 ht
      rcases heq with rfl | ⟨zone, rfl⟩ <;> simp [hdot]
    have hlength : ((cs ++ ':' :: port).splitOn ':').length = 2 := by
      rw [length_splitOn, List.count_append, List.count_cons_self,
        List.count_eq_zero.mpr hcs, List.count_eq_zero.mpr hport]
    rw [if_neg hhead, if_pos ⟨hdot, by simp, hlength⟩, takeWhile_before hcs]
    exact h

theorem written_of_zoned (h : Zoned a (unported cs)) : Written a cs := by
  unfold unported at h
  split_ifs at h with hhead hclose hport
  · obtain ⟨inner, rfl⟩ := List.head?_eq_some_iff.mp hhead
    obtain ⟨after, heq, hnot⟩ := split_first (List.contains_iff_mem.mp hclose)
    rw [List.takeWhile_cons_of_pos (by decide)] at h heq hnot
    rw [heq]
    exact .bracketed after h fun hc => hnot (List.mem_cons_of_mem _ hc)
  · exact absurd hhead h.not_bracket
  · obtain ⟨port, heq, hnot⟩ := split_first (List.contains_iff_mem.mp hport.2.1)
    have hlength := hport.2.2
    rw [length_splitOn, heq, List.count_append, List.count_cons_self,
      List.count_eq_zero.mpr hnot] at hlength
    have hrest : ':' ∉ port := List.count_eq_zero.mp (by omega)
    cases a with
    | v4 ip =>
      rw [heq]
      exact .port port h hnot hrest
    | v6 ip =>
      have htwo := h.two_colons
      rw [List.count_eq_zero.mpr hnot] at htwo
      omega
  · exact .bare h

theorem groupsOf_lt (h : groupCount v4Tail cs = some n) : ∀ g ∈ groupsOf cs, g < 65536 := by
  have hparts := (parts_of_groupCount h).1
  generalize groupsOf cs = l at hparts
  have hsegs : ∀ ps : List (List Char), ps.all isV6Seg = true →
      ∀ g ∈ ps.map (number 16), g < 65536 := by
    intro ps hps g hg
    obtain ⟨p, hp, rfl⟩ := List.mem_map.mp hg
    exact number_lt_of_isV6Seg (List.all_eq_true.mp hps p hp)
  cases hparts with
  | none => simp
  | groups _ hall => exact hsegs _ hall
  | dotted _ _ last _ hinit hlast =>
    obtain ⟨v4, hv4⟩ := octets_of_isV4 hlast
    have hb := v4.bound
    intro g hg
    rcases List.mem_append.mp hg with hg | hg
    · exact hsegs _ hinit g hg
    · simp only [hv4, Ipv4.octets, List.getD_cons_zero, List.getD_cons_succ, List.mem_cons,
        List.not_mem_nil, or_false] at hg
      omega

theorem ipv6_of_body (h : isV6Body cs = true) : ∃ ip : Ipv6, bodyGroups cs = ip.groups := by
  refine ⟨⟨bodyGroups cs, (body_cases h).1, ?_⟩, rfl⟩
  unfold isV6Body at h
  unfold bodyGroups
  cases hcut : cutDouble cs with
  | none =>
    simp only [hcut, beq_iff_eq] at h
    exact groupsOf_lt h
  | some r =>
    simp only [hcut] at h
    obtain ⟨a, hhead, h⟩ := (Option.any_eq_true _ _).mp h
    obtain ⟨b, htail, -⟩ := (Option.any_eq_true _ _).mp h
    intro g hg
    simp only [List.mem_append, List.mem_replicate] at hg
    rcases hg with (hg | hg) | hg
    · exact groupsOf_lt hhead g hg
    · omega
    · exact groupsOf_lt htail g hg

theorem spells_of_isIP (h : isIP cs ≠ 0) : ∃ a, Spells cs a := by
  unfold isIP at h
  split_ifs at h with hv4 hv6
  · obtain ⟨ip, hip⟩ := octets_of_isV4 hv4
    exact ⟨.v4 ip, hv4, hip⟩
  · obtain ⟨ip, hip⟩ := ipv6_of_body (body_of_isV6 hv6)
    exact ⟨.v6 ip, hv6, hip⟩
  · exact absurd rfl h

theorem isIP_of_formOf (h : (formOf cs).isSome) : isIP cs ≠ 0 := by
  intro hzero
  have hgroups : ipv6Groups cs = none := if_pos (by simp [hzero])
  simp [formOf, hgroups, hzero] at h

theorem separator_of_zoned (h : Zoned a cs) : '.' ∈ cs ∨ ':' ∈ cs := by
  cases a with
  | v4 ip =>
    obtain ⟨t, ht, -, hcs⟩ := h.chars
    have hdot := dot_of_v4 ht
    rcases hcs with rfl | ⟨zone, rfl⟩
    · exact .inl hdot
    · exact .inl (List.mem_append_left _ hdot)
  | v6 ip => exact .inr (List.count_pos_iff.mp (Nat.lt_of_lt_of_le (by decide) h.two_colons))

theorem separator_of_written (h : Written a cs) : '.' ∈ cs ∨ ':' ∈ cs := by
  cases h with
  | bare h => exact separator_of_zoned h
  | bracketed after h => rcases separator_of_zoned h with h | h <;> simp [h]
  | port port h => simp

theorem normalizeIp_of_denotes (h : Denotes raw a) :
    normalizeIp (some raw) = some (.ofList a.unmapped.form) := by
  have hword : ¬(lower (trim raw) = "" ∨ lower (trim raw) = "unknown") := by
    intro hword
    have hsep := separator_of_written h
    rcases hword with hword | hword
    · rw [hword] at hsep
      exact absurd hsep (by decide)
    · rw [hword] at hsep
      exact absurd hsep (by decide)
  obtain ⟨hspells, hzone⟩ := spells_unzoned (zoned_unported h)
  rw [normalizeIp_eq, if_neg hword, bare_eq]
  exact formOf_spells hspells hzone

theorem denotes_of_normalizeIp (h : (normalizeIp (some raw)).isSome) : ∃ a, Denotes raw a := by
  rw [normalizeIp_eq] at h
  split_ifs at h
  · cases h
  · rw [bare_eq] at h
    obtain ⟨a, ha⟩ := spells_of_isIP (isIP_of_formOf h)
    exact ⟨a, written_of_zoned (zoned_of_spells ha)⟩

theorem spells_form (a : Address) : Spells a.form a ∧ lowered a.form = a.form ∧ '%' ∉ a.form := by
  cases a with
  | v4 ip =>
    have h := spells_dotted ip
    have hascii := ascii_of_chars (chars_of_isV4 h.1)
    refine ⟨h, (lowered_eq hascii).trans (low_of_isV4 h.1), fun hmem => ?_⟩
    rcases isV4_char h.1 hmem with he | he
    · exact absurd he (by decide)
    · exact absurd he (by decide)
  | v6 ip =>
    obtain ⟨hbody, hgroups⟩ := canonical_body ip
    exact ⟨hbody.spells hgroups, hbody.lowered, hbody.noZone⟩

theorem denotes_form (a : Address) : Denotes (.ofList a.form) a := by
  obtain ⟨h, hlow, hzone⟩ := spells_form a
  have htrim : trim (.ofList a.form) = .ofList a.form :=
    trim_of_chars fun c hc => isSpace_of_isAddressChar ((chars_of_spells h).2 c hc)
  have hlower : lower (.ofList a.form) = .ofList a.form := by
    rw [← String.toList_inj, String.toList_ofList]
    exact hlow
  unfold Denotes
  rw [htrim, hlower, String.toList_ofList]
  exact .bare (.none h hzone)

theorem Ipv6.ext_groups {ip ip' : Ipv6} (h : ip.groups = ip'.groups) : ip = ip' := by
  obtain ⟨g, hl, hb⟩ := ip
  obtain ⟨g', hl', hb'⟩ := ip'
  cases h
  rfl

theorem spells_unique (h : Spells cs a) (h' : Spells cs b) : a = b := by
  cases a with
  | v4 ip =>
    cases b with
    | v4 ip' => exact congrArg Address.v4 (octets_injective (h.2.symm.trans h'.2))
    | v6 ip' => exact absurd (colon_of_isV6 h'.1) (no_colon_of_v4 h)
  | v6 ip =>
    cases b with
    | v4 ip' => exact absurd (colon_of_isV6 h.1) (no_colon_of_v4 h')
    | v6 ip' => exact congrArg Address.v6 (Ipv6.ext_groups (h.2.symm.trans h'.2))

theorem form_injective (h : a.form = b.form) : a = b :=
  spells_unique (spells_form a).1 (h ▸ (spells_form b).1)

theorem unmapped_unmapped (a : Address) : a.unmapped.unmapped = a.unmapped := by
  cases a with
  | v4 ip => rfl
  | v6 ip =>
    unfold Address.unmapped
    cases hmapped : ip.mapped with
    | none => simp [hmapped]
    | some v4 => simp [hmapped]

/-- `normalizeIp` takes the texts of addresses, gives each address one form and leaves it so; and
what is private or reserved is the address, not its text. -/
theorem normalizeIp_one_form :
    (∀ raw, normalizeIp (normalizeIp raw) = normalizeIp raw) ∧
    (∀ raw, (normalizeIp (some raw)).isSome ↔ ∃ a, Denotes raw a) ∧
    ∀ x y a b, Denotes x a → Denotes y b →
      (normalizeIp (some x) = normalizeIp (some y) ↔ a.unmapped = b.unmapped) ∧
      (a.unmapped = b.unmapped → isPrivateOrReservedIp x = isPrivateOrReservedIp y) := by
  refine ⟨fun raw => ?_, fun raw => ⟨denotes_of_normalizeIp, ?_⟩, fun x y a b hx hy => ?_⟩
  · cases hnormal : normalizeIp raw with
    | none => rfl
    | some r =>
      cases raw with
      | none => cases hnormal
      | some raw =>
        obtain ⟨a, ha⟩ := denotes_of_normalizeIp (by rw [hnormal]; rfl)
        have hform := normalizeIp_of_denotes ha
        rw [hnormal] at hform
        rw [hform, normalizeIp_of_denotes (denotes_form a.unmapped), unmapped_unmapped]
  · rintro ⟨a, ha⟩
    rw [normalizeIp_of_denotes ha]
    rfl
  · have hiff : normalizeIp (some x) = normalizeIp (some y) ↔ a.unmapped = b.unmapped := by
      rw [normalizeIp_of_denotes hx, normalizeIp_of_denotes hy, Option.some.injEq,
        String.ofList_inj]
      exact ⟨form_injective, congrArg Address.form⟩
    refine ⟨hiff, fun h => ?_⟩
    unfold isPrivateOrReservedIp
    rw [hiff.mpr h]

theorem normalizeIp_one_form_mapped :
    normalizeIp (some " [::FFFF:0102:304%eth0]:443 ") = normalizeIp (some "1.2.3.4:80") ∧
      isPrivateOrReservedIp " [::FFFF:0102:304%eth0]:443 " = isPrivateOrReservedIp "1.2.3.4:80" := by
  have hmapped : Denotes " [::FFFF:0102:304%eth0]:443 "
      (.v6 ⟨[0, 0, 0, 0, 0, 0xffff, 0x102, 0x304], rfl, by decide⟩) := by
    have htext : (lower (trim " [::FFFF:0102:304%eth0]:443 ")).toList =
        '[' :: ("::ffff:0102:304".toList ++ '%' :: "eth0".toList ++ ']' :: ":443".toList) := by
      decide +kernel
    unfold Denotes
    rw [htext]
    exact .bracketed _ (.zone _ (by decide +kernel) (by decide +kernel)) (by decide +kernel)
  have hplain : Denotes "1.2.3.4:80" (.v4 ⟨1, 2, 3, 4, by decide⟩) := by
    have htext : (lower (trim "1.2.3.4:80")).toList = "1.2.3.4".toList ++ ':' :: "80".toList := by
      decide +kernel
    unfold Denotes
    rw [htext]
    exact .port _ (.none (by decide +kernel) (by decide +kernel)) (by decide +kernel)
      (by decide +kernel)
  have h := normalizeIp_one_form.2.2 _ _ _ _ hmapped hplain
  exact ⟨h.1.mpr (by decide +kernel), h.2 (by decide +kernel)⟩

end Kindred.Net
