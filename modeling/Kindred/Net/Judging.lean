import Kindred.Net.Verdicts

/-! Where the guard judges the address, and where its spelling. -/

namespace Kindred.Net

def joined (g : List ℕ) : List Char := [':'].intercalate (g.map hex)

variable {c : Char} {g : List ℕ} {host : List Char}

theorem hex_char {n : ℕ} (h : c ∈ hex n) :
    isHex c = true ∧ c.isUpper = false ∧ c ≠ ':' ∧ c ≠ '%' := by
  have hall := List.all_eq_true.mp (hex_spec n).1 c h
  simp only [Bool.and_eq_true, Bool.not_eq_true', bne_iff_ne] at hall
  exact ⟨hall.1.1.1, hall.1.1.2, hall.1.2, hall.2⟩

theorem joined_char (h : c ∈ joined g) : c = ':' ∨ isHex c = true ∧ c.isUpper = false := by
  rcases mem_intercalate h with rfl | ⟨p, hp, hc⟩
  · exact .inl rfl
  · obtain ⟨n, -, rfl⟩ := List.mem_map.mp hp
    have hchar := hex_char hc
    exact .inr ⟨hchar.1, hchar.2.1⟩

theorem joined_nil : joined [] = [] := rfl

theorem joined_ne_nil (h : g ≠ []) : joined g ≠ [] := by
  cases g with
  | nil => exact absurd rfl h
  | cons n g =>
    have hne : hex n ≠ [] := Nat.toDigits_ne_nil
    cases g with
    | nil => simpa [joined] using hne
    | cons m g => simp [joined, List.intercalate_cons_cons]

theorem splitOn_joined (h : g ≠ []) : (joined g).splitOn ':' = g.map hex := by
  refine List.splitOn_intercalate ':' (fun p hp hmem => ?_) (by simpa using h)
  obtain ⟨n, -, rfl⟩ := List.mem_map.mp hp
  exact (hex_char hmem).2.2.1 rfl

theorem groupCount_joined (v4Tail : Bool) (h : ∀ n ∈ g, n < 65536) :
    groupCount v4Tail (joined g) = some g.length ∧ groupsOf (joined g) = g := by
  by_cases hne : g = []
  · subst hne
    exact ⟨rfl, rfl⟩
  · have hall : (g.map hex).all isV6Seg = true := by
      refine List.all_eq_true.mpr fun p hp => ?_
      obtain ⟨n, hn, rfl⟩ := List.mem_map.mp hp
      exact isV6Seg_hex (h n hn)
    have hmap : (g.map hex).map (number 16) = g := by
      rw [List.map_map]
      exact (List.map_congr_left fun n _ => (hex_spec n).2).trans (List.map_id g)
    unfold groupCount groupsOf
    rw [if_neg (joined_ne_nil hne), if_neg (joined_ne_nil hne)]
    rw [splitOn_joined hne, if_pos hall, if_pos hall, List.length_map]
    exact ⟨rfl, hmap⟩

variable {a cs : List Char} {ip : Ipv6} {u : Url}

theorem cutDouble_append (t : List Char) (h : cutDouble a = none) (hlast : a.getLast? ≠ some ':')
    : cutDouble (a ++ ':' :: ':' :: t) = some (a, t) := by
  induction a with
  | nil => rfl
  | cons c a ih =>
    have hsingle : ∀ rest, c = ':' → a = ':' :: rest → False := by
      rintro rest rfl rfl
      simp [cutDouble] at h
    have hnone : cutDouble a = none := by
      rw [cutDouble] at h
      · simpa using h
      · exact hsingle
    have hlast' : a.getLast? ≠ some ':' := by
      cases a with
      | nil => simp
      | cons d a => simpa using hlast
    rw [List.cons_append, cutDouble, ih hnone hlast']
    · rfl
    · intro rest hc ha
      cases a with
      | nil => simp [hc] at hlast
      | cons d a =>
        obtain ⟨hd, -⟩ := List.cons.inj ha
        exact hsingle a hc (by rw [hd])

theorem joined_last : (joined g).getLast? ≠ some ':' := by
  by_cases hne : g = []
  · subst hne
    simp [joined]
  · intro h
    obtain ⟨init, hinit⟩ := List.getLast?_eq_some_iff.mp h
    have hsplit := splitOn_joined hne
    rw [hinit, List.splitOn_append_cons_self] at hsplit
    have hempty : [] ∈ g.map hex := by
      rw [← hsplit]
      simp
    obtain ⟨n, -, hn⟩ := List.mem_map.mp hempty
    exact Nat.toDigits_ne_nil hn

theorem isBody_of_chars (h : isV6Body cs = true)
    (hchars : ∀ c ∈ cs, c = ':' ∨ isHex c = true ∧ c.isUpper = false) : IsBody cs where
  body := h
  lower := by
    refine (List.map_congr_left fun c hc => ?_).trans (List.map_id cs)
    have hlower := ascii_cases (p := fun c => c.isUpper = false → c.toLower = c)
      (by decide +kernel) (ascii_of_isV6Body h c hc)
    rcases hchars c hc with rfl | hc
    · rfl
    · exact of_decide_eq_true hlower hc.2
  noZone hmem := by
    rcases hchars '%' hmem with h | h
    · exact absurd h (by decide)
    · exact absurd h.1 (by decide)

theorem IsBody.spells (h : IsBody cs) (hip : bodyGroups cs = ip.groups) : Spells cs (.v6 ip) := by
  have hne : ∀ c ∈ cs, (c != '%') = true := fun c hc =>
    bne_iff_ne.mpr fun he => h.noZone (he ▸ hc)
  have htake : cs.takeWhile (· != '%') = cs := List.takeWhile_eq_self_iff.mpr hne
  have hdrop : cs.dropWhile (fun c => c != '%') = [] := List.dropWhile_eq_nil_iff.mpr hne
  refine ⟨?_, by rw [htake]; exact hip⟩
  unfold isV6
  rw [hdrop]
  exact h.body

theorem joined_body (ip : Ipv6) :
    IsBody (joined ip.groups) ∧ bodyGroups (joined ip.groups) = ip.groups := by
  have hcount := groupCount_joined true ip.bound
  have hcut := cutDouble_of_groupCount hcount.1
  refine ⟨isBody_of_chars ?_ fun c hc => joined_char hc, ?_⟩
  · unfold isV6Body
    rw [hcut, hcount.1, ip.length]
    rfl
  · unfold bodyGroups
    rw [hcut]
    exact hcount.2

def IsRun (g : List ℕ) (best : Option ℕ × ℕ) : Prop :=
  ∀ b, best.1 = some b → 0 < best.2 ∧
    g = g.take b ++ List.replicate best.2 0 ++ g.drop (b + best.2)

theorem takeWhile_zero (l : List ℕ) :
    l = List.replicate (l.takeWhile (· == 0)).length 0 ++ l.drop (l.takeWhile (· == 0)).length := by
  induction l with
  | nil => rfl
  | cons n l ih =>
    by_cases h : n = 0
    · subst h
      simpa [List.replicate_succ] using ih
    · simp [h]

theorem bestRun_isRun (g : List ℕ) (fuel i : ℕ) {best : Option ℕ × ℕ} (h : IsRun g best) :
    IsRun g (bestRun g fuel i best) := by
  induction fuel generalizing i best with
  | zero => exact h
  | succ fuel ih =>
    unfold bestRun
    split
    · exact h
    · rename_i rest hdrop
      refine ih _ ?_
      split_ifs with hlonger
      · intro b hb
        obtain rfl : i = b := Option.some.inj hb
        have hlen : i + 1 + (rest.takeWhile (· == 0)).length - i =
            (rest.takeWhile (· == 0)).length + 1 := by omega
        have hrest : g.drop (i + ((rest.takeWhile (· == 0)).length + 1)) =
            rest.drop (rest.takeWhile (· == 0)).length := by
          rw [← List.drop_drop, hdrop, List.drop_succ_cons]
        rw [hlen, hrest, List.replicate_succ, List.append_assoc, List.cons_append,
          ← takeWhile_zero, ← hdrop, List.take_append_drop]
        exact ⟨Nat.succ_pos _, rfl⟩
      · exact h
    · exact ih _ h

theorem canonical_char {g : List ℕ} {c : Char} (h : c ∈ canonicalIpv6 g) :
    c = ':' ∨ isHex c = true ∧ c.isUpper = false := by
  unfold canonicalIpv6 at h
  split at h
  · exact joined_char h
  · simp only [List.mem_append, List.mem_cons, List.not_mem_nil, or_false] at h
    rcases h with (h | rfl | rfl) | h
    · exact joined_char h
    · exact .inl rfl
    · exact .inl rfl
    · exact joined_char h

theorem canonical_body (ip : Ipv6) :
    IsBody (canonicalIpv6 ip.groups) ∧ bodyGroups (canonicalIpv6 ip.groups) = ip.groups := by
  have hchar := @canonical_char ip.groups
  have hrun : IsRun ip.groups (bestRun ip.groups 8 0 (none, 1)) := bestRun_isRun _ _ _ nofun
  unfold canonicalIpv6 at hchar ⊢
  generalize bestRun ip.groups 8 0 (none, 1) = best at hrun hchar
  obtain ⟨start, len⟩ := best
  cases start with
  | none => exact joined_body ip
  | some b =>
    obtain ⟨hpos, hsplit⟩ := hrun b rfl
    have hlength := congrArg List.length hsplit
    simp only [List.length_append, List.length_replicate, ip.length] at hlength
    have hhead := groupCount_joined (g := ip.groups.take b) false
      fun n hn => ip.bound n (List.mem_of_mem_take hn)
    have htail := groupCount_joined (g := ip.groups.drop (b + len)) true
      fun n hn => ip.bound n (List.mem_of_mem_drop hn)
    have hcut := cutDouble_append (joined (ip.groups.drop (b + len)))
      (cutDouble_of_groupCount hhead.1) joined_last
    change IsBody (joined (ip.groups.take b) ++ [':', ':'] ++ joined (ip.groups.drop (b + len))) ∧
      bodyGroups (joined (ip.groups.take b) ++ [':', ':'] ++ joined (ip.groups.drop (b + len))) = _
    refine ⟨isBody_of_chars ?_ fun c hc => hchar hc, ?_⟩
    all_goals rw [List.append_assoc]
    · unfold isV6Body
      rw [List.cons_append, List.cons_append, List.nil_append, hcut]
      simp only [hhead.1, htail.1, Option.any_some, decide_eq_true_eq]
      omega
    · unfold bodyGroups
      rw [List.cons_append, List.cons_append, List.nil_append, hcut]
      dsimp only
      rw [hhead.2, htail.2]
      have hzeros : 8 - (ip.groups.take b).length - (ip.groups.drop (b + len)).length = len := by
        omega
      rw [hzeros]
      exact hsplit.symm

def Ipv6.FirstNamed (ip : Ipv6) : Prop :=
  let first := ip.groups.getD 0 0
  first / 2 ^ 9 = 0xfc00 / 2 ^ 9 ∨ first / 2 ^ 6 = 0xfe80 / 2 ^ 6 ∨ first / 2 ^ 8 = 0xff00 / 2 ^ 8

instance (ip : Ipv6) : Decidable ip.FirstNamed := by
  unfold Ipv6.FirstNamed; infer_instance

theorem firstNamed_of_named (h : ip.Named) (hspared : Spared (.v6 ip)) : ip.FirstNamed := by
  obtain h | h | h := h
  · have hembeds : ip.Embeds ⟨0, 0, 0, 0, by decide⟩ := embeds_of_groups (.inl rfl) h
    exact absurd (by decide) (hspared _ hembeds)
  · have hembeds : ip.Embeds ⟨0, 0, 0, 1, by decide⟩ := embeds_of_groups (.inl rfl) h
    exact absurd (by decide) (hspared _ hembeds)
  · exact h

theorem linkLocal_mask {g : ℕ} (h : g < 65536) :
    (g &&& 0xffc0 == 0xfe80) = true ↔ g / 2 ^ 6 = 0xfe80 / 2 ^ 6 := by
  have hdiv : (g &&& 0xffc0) / 2 ^ 6 = g / 2 ^ 6 := by
    rw [Nat.and_div_two_pow]
    have hmask : g / 2 ^ 6 &&& (2 ^ 10 - 1) = g / 2 ^ 6 % 2 ^ 10 :=
      Nat.and_two_pow_sub_one_eq_mod _ _
    refine hmask.trans (Nat.mod_eq_of_lt ?_)
    omega
  have hmod : (g &&& 0xffc0) % 2 ^ 6 = 0 := by
    rw [Nat.and_mod_two_pow]
    exact Nat.and_zero _
  rw [beq_iff_eq]
  omega

section
variable {cs : List Char} {ip : Ipv6} (h : IsBody cs) (hip : bodyGroups cs = ip.groups)

theorem first_lt (ip : Ipv6) : ip.groups.getD 0 0 < 65536 := by
  obtain ⟨groups, hlength, hbound⟩ := ip
  cases groups with
  | nil => simp at hlength
  | cons g groups => exact hbound g (by simp)

include h hip in
theorem firstNamed_iff : ip.FirstNamed ↔
    startsWithF ['c', 'd'] cs = true ∨ isIpv6LinkLocal cs = true ∨ startsWithF ['f'] cs = true := by
  have hlocal : isIpv6LinkLocal cs = true ↔ ip.groups.getD 0 0 / 2 ^ 6 = 0xfe80 / 2 ^ 6 := by
    unfold isIpv6LinkLocal
    rw [h.first16, hip]
    exact linkLocal_mask (first_lt ip)
  have hc : digitValue 'c' = 12 := by decide
  have hd : digitValue 'd' = 13 := by decide
  have hf : digitValue 'f' = 15 := by decide
  have hunique : ∀ c ∈ ['c', 'd'], isHex c = true ∧ c.isUpper = false :=
    List.forall_mem_cons.mpr ⟨by decide, List.forall_mem_singleton.mpr (by decide)⟩
  have hlink : ∀ c ∈ ['f'], isHex c = true ∧ c.isUpper = false :=
    List.forall_mem_singleton.mpr (by decide)
  rw [hlocal, h.startsWithF hunique, h.startsWithF hlink, hip]
  simp only [List.mem_cons, List.not_mem_nil, or_false, exists_eq_or_imp, exists_eq_left, hc, hd,
    hf]
  refine or_congr ?_ (or_congr Iff.rfl ?_)
  · omega
  · omega

include h hip in
theorem short_embeds (hshort : cs = "::1".toList ∨ cs = "::".toList) :
    ∃ v4, ip.Embeds v4 ∧ v4.Named := by
  rcases hshort with rfl | rfl
  · have hgroups : bodyGroups "::1".toList = [0, 0, 0, 0, 0, 0, 0 * 256 + 0, 0 * 256 + 1] := by
      decide
    exact ⟨⟨0, 0, 0, 1, by decide⟩, embeds_of_groups (.inl rfl) (hip.symm.trans hgroups), by decide⟩
  · have hgroups : bodyGroups "::".toList = [0, 0, 0, 0, 0, 0, 0 * 256 + 0, 0 * 256 + 0] := by
      decide
    exact ⟨⟨0, 0, 0, 0, by decide⟩, embeds_of_groups (.inl rfl) (hip.symm.trans hgroups), by decide⟩

end

theorem stripZone_cut {zone : List Char} (h : '%' ∉ a) (hzone : zone.all (!isLineEnd ·) = true)
    : stripZone (a ++ '%' :: zone) = a := by
  induction a with
  | nil => exact if_pos ⟨rfl, hzone⟩
  | cons c a ih =>
    have hc : ¬c = '%' := fun he => h (by simp [he])
    rw [List.cons_append, stripZone, if_neg fun hp => hc hp.1,
      ih fun hm => h (List.mem_cons_of_mem c hm)]

theorem body_of_isV6 (h : isV6 cs = true) : isV6Body (cs.takeWhile fun c => c != '%') = true := by
  have hsplit := List.takeWhile_append_dropWhile (p := fun c => c != '%') (l := cs)
  unfold isV6 at h
  cases hzone : cs.dropWhile fun c => c != '%' with
  | nil =>
    simp only [hzone, List.append_nil] at h hsplit
    rwa [hsplit]
  | cons percent zone =>
    simp only [hzone, Bool.and_eq_true] at h
    exact h.2

theorem host_of_spells (h : Spells cs (.v6 ip)) :
    IsBody (stripZone (lowered cs)) ∧ bodyGroups (stripZone (lowered cs)) = ip.groups := by
  obtain ⟨hv6, hgroups⟩ := h
  have hascii : Ascii cs := ascii_of_chars (chars_of_isV6 hv6)
  have hpercent {c : Char} (hc : c.toNat < 128) : c.toLower = '%' ↔ c = '%' :=
    (toLower_keeps hc).2.2.2.2.2.2.2
  have hsplit := List.takeWhile_append_dropWhile (p := fun c => c != '%') (l := cs)
  generalize hbody : cs.takeWhile (fun c => c != '%') = body at hgroups hsplit
  have hnone : '%' ∉ body := fun hmem => by
    rw [← hbody] at hmem
    simpa using List.mem_takeWhile_imp hmem
  have hbodyV6 : isV6Body body = true := hbody ▸ body_of_isV6 hv6
  have hbodyAscii := ascii_of_isV6Body hbodyV6
  have hnone' : '%' ∉ low body := fun hmem => by
    obtain ⟨d, hd, he⟩ := List.mem_map.mp hmem
    exact hnone ((hpercent (hbodyAscii d hd)).mp he ▸ hd)
  have hhost : stripZone (lowered cs) = low body := by
    rw [lowered_eq hascii, ← hsplit]
    cases hzone : cs.dropWhile (fun c => c != '%') with
    | nil => rw [List.append_nil, stripZone_eq hnone']
    | cons percent zone =>
      have hp := List.head_dropWhile_not (fun c => c != '%') (l := cs) (by simp [hzone])
      simp only [hzone, List.head_cons, bne_eq_false_iff_eq] at hp
      subst hp
      have happend : low (body ++ '%' :: zone) = low body ++ '%' :: low zone := List.map_append
      rw [happend]
      refine stripZone_cut hnone' (List.all_eq_true.mpr fun c hc => ?_)
      obtain ⟨d, hd, rfl⟩ := List.mem_map.mp hc
      have hd' : d ∈ cs := by
        rw [← hsplit, hzone]
        simp [hd]
      have hend := ascii_cases (p := fun c => isAddressChar c = true → isLineEnd c.toLower = false)
        (by decide +kernel) (hascii d hd')
      rw [of_decide_eq_true hend (chars_of_isV6 hv6 d hd')]
      rfl
  rw [hhost]
  have hlow := isV6Body_low hbodyV6
  exact ⟨⟨hlow.1, low_low hbodyAscii, hnone'⟩, hlow.2.trans hgroups⟩

theorem isBlockedIpv6_iff (h : Spells cs (.v6 ip)) (hspared : Spared (.v6 ip))
    : isBlockedIpv6 cs = true ↔ ip.FirstNamed := by
  obtain ⟨hbody, hip⟩ := host_of_spells h
  have hfirst := firstNamed_iff hbody hip
  have hshort : ¬(stripZone (lowered cs) = "::1".toList ∨
      stripZone (lowered cs) = "::".toList) := by
    intro hshort
    obtain ⟨v4, hembeds, hnamed⟩ := short_embeds hbody hip hshort
    exact hspared v4 hembeds hnamed
  unfold isBlockedIpv6
  rw [if_neg hshort]
  split_ifs with hc hl hf
  · simp [hfirst, hc]
  · simp [hfirst, hl]
  · simp [hfirst, hf]
  · have hnot : ¬ip.FirstNamed := by simp [hfirst, hc, hl, hf]
    cases hmapped : mappedIpv4 (stripZone (lowered cs)) with
    | none => simp [hnot]
    | some q =>
      obtain ⟨v4, hembeds, hquad⟩ := hbody.mapped hmapped hip
      have hblocked := not_congr (isBlockedIpv4_iff hquad)
      simpa [hnot] using hblocked.mpr (hspared v4 hembeds)

theorem colon_of_isV6 (h : isV6 cs = true) : ':' ∈ cs := by
  refine (List.takeWhile_prefix fun c => c != '%').subset ?_
  obtain ⟨-, ⟨-, ⟨tail, heq⟩, -⟩ | ⟨first, rest, heq, -⟩⟩ := body_cases (body_of_isV6 h)
  · simp [heq]
  · simp [heq]

theorem not_blockedHostname (hnormal : normalizeHostname host = host)
    (hlow : host.map Char.toLower = host) (hl : 'l' ∉ host) (hm : 'm' ∉ host) :
    isBlockedHostname host = false := by
  have hends (suffix : String) (h : 'l' ∈ suffix.toList) : endsWith suffix host = false := by
    by_contra hends
    simp only [endsWith, Bool.not_eq_false, Bool.and_eq_true, List.isSuffixOf_iff_suffix] at hends
    exact hl (hends.1.subset h)
  have hname (name : String) (h : 'l' ∈ name.toList ∨ 'm' ∈ name.toList) :
      (host == name.toList) = false := by
    rw [beq_eq_false_iff_ne]
    rintro rfl
    exact h.elim hl hm
  unfold isBlockedHostname
  rw [hnormal, hlow]
  dsimp only
  rw [hname "localhost" (by decide), hends ".localhost" (by decide), hends ".local" (by decide),
    hends ".internal" (by decide), hname "metadata" (by decide),
    hname "metadata.google.internal" (by decide)]
  rfl

theorem stripBrackets_eq {host : List Char} (hopen : '[' ∉ host) (hclose : ']' ∉ host) :
    stripBrackets host = host := by
  unfold stripBrackets
  rw [if_neg fun he => hopen (List.mem_of_head? he)]
  exact if_neg fun he => hclose (List.mem_of_getLast? he)

theorem stripBrackets_bracketed (host : List Char) :
    stripBrackets (['['] ++ host ++ [']']) = host := by
  simp [stripBrackets]

theorem normalizeHostname_eq {written : List Char} (hstrip : stripBrackets written = host)
    (hascii : Ascii host) (hlow : low host = host) (hdot : host.getLast? ≠ some '.') :
    normalizeHostname written = host := by
  have hdots : host.reverse.dropWhile (· = '.') = host.reverse := by
    cases hreverse : host.reverse with
    | nil => rfl
    | cons c rest =>
      have hlast : host.getLast? = some c := by
        rw [← List.head?_reverse, hreverse]
        rfl
      refine List.dropWhile_cons_of_neg fun hc => hdot ?_
      rw [hlast, of_decide_eq_true hc]
  unfold normalizeHostname
  rw [hstrip, hdots, List.reverse_reverse, lowered_eq hascii, hlow]

theorem isSafeOutboundUrl_plain (hu : u.IsPlain) (hnormal : normalizeHostname u.hostname = host)
    (hne : host ≠ []) (hname : isBlockedHostname host = false) :
    isSafeOutboundUrl (some u) = true ↔ ¬isPrivateIpv4 host = true ∧
      ¬(mappedIpv4 host).any isPrivateIpv4 = true ∧ ¬(host = "::1".toList ∨ host = "::".toList) ∧
      ¬(startsWithF ['c', 'd'] (low host) = true ∨ isIpv6LinkLocal host = true ∨
        startsWithF ['f'] (low host) = true) := by
  obtain ⟨hprotocol, husername, hpassword, hport⟩ := hu
  have hport' : (u.port.any fun port => !(0 < port && port ≤ 65535)) = false := by
    cases hp : u.port with
    | none => rfl
    | some p => simp [hport p hp]
  unfold isSafeOutboundUrl
  simp only [hprotocol, husername, hpassword, hport', hnormal, hne, hname, ne_eq, not_true_eq_false,
    or_self, if_false, Bool.false_eq_true]
  change (if isPrivateIpv4 host = true then false
    else if (mappedIpv4 host).any isPrivateIpv4 = true then false
    else if host = "::1".toList ∨ host = "::".toList ∨
        startsWithF ['c', 'd'] (low host) = true ∨ isIpv6LinkLocal host = true then false
    else if startsWithF ['f'] (low host) = true then false else true) = true ↔ _
  split_ifs with hp hm hl hf
  · simp [hp]
  · simp [hm]
  · simp only [false_iff]
    tauto
  · simp [hf]
  · simp only [true_iff]
    tauto

theorem isV4_char (h : isV4 cs = true) (hc : c ∈ cs) : c = '.' ∨ c.isDigit = true := by
  simp only [isV4, Bool.and_eq_true, List.all_eq_true] at h
  rcases @mem_splitOn '.' _ _ hc with rfl | ⟨p, hp, hcp⟩
  · exact .inl rfl
  · have hseg := h.2 p hp
    simp only [isV4Seg, Bool.and_eq_true, List.all_eq_true] at hseg
    exact .inr (hseg.1.1 c hcp)

theorem dotted_last (ip : Ipv4) : (dotted ip.octets).getLast? ≠ some '.' := by
  intro h
  obtain ⟨init, hinit⟩ := List.getLast?_eq_some_iff.mp h
  have hsplit := splitOn_dotted ip
  rw [hinit, List.splitOn_append_cons_self] at hsplit
  have hempty : [] ∈ ip.octets.map (Nat.toDigits 10) := by
    rw [← hsplit]
    simp
  obtain ⟨n, -, hn⟩ := List.mem_map.mp hempty
  exact Nat.toDigits_ne_nil hn

/-- The URL of an IPv4 address is judged by the private networks alone. -/
theorem isSafeOutboundUrl_v4 (hu : u.IsPlain) {ip : Ipv4}
    (hhost : u.hostname = Address.urlHost (.v4 ip)) :
    isSafeOutboundUrl (some u) = true ↔ ¬ip.IsPrivate := by
  have hspells := spells_dotted ip
  generalize hcs : dotted ip.octets = cs at hspells
  have hno {c : Char} (hc : c ≠ '.' ∧ c.isDigit = false) : c ∉ cs := fun hmem => by
    rcases isV4_char hspells.1 hmem with he | he
    · exact hc.1 he
    · simp [hc.2] at he
  have hascii : Ascii cs := ascii_of_chars (chars_of_isV4 hspells.1)
  have hlow := low_of_isV4 hspells.1
  have hlast : cs.getLast? ≠ some '.' := hcs ▸ dotted_last ip
  have hstrip : stripBrackets cs = cs := stripBrackets_eq (hno (by decide)) (hno (by decide))
  have hwritten : u.hostname = cs := hhost.trans hcs
  have hne : cs ≠ [] := by
    rintro rfl
    exact absurd hspells.1 (by decide)
  have hnormal := normalizeHostname_eq hstrip hascii hlow hlast
  have hafter (start : String) (h : ':' ∈ start.toList) : after start cs = none := by
    cases ht : after start cs with
    | none => rfl
    | some t =>
      have hmem : ':' ∈ start.toList ++ t := List.mem_append_left t h
      exact absurd (after_eq hlow ht ▸ hmem) (hno (by decide))
  have hmapped : mappedIpv4 cs = none := by
    simp [mappedIpv4, hafter "::ffff:" (by decide), hafter "::" (by decide)]
  have hlocal : isIpv6LinkLocal cs = false := by
    unfold isIpv6LinkLocal ipv6First16Bits
    rw [lowered_eq hascii, hlow, stripZone_eq (hno (by decide)), hstrip]
    rw [if_pos (hno (by decide))]
  have hf {second : List Char} : ¬startsWithF second (low cs) = true := by
    rw [hlow, startsWithF_iff]
    rintro ⟨c, d, e, rest, rfl, -⟩
    exact hno (c := 'f') (by decide) (by simp)
  have hshort : ¬(cs = "::1".toList ∨ cs = "::".toList) := by
    rintro (rfl | rfl)
    · exact hno (c := ':') (by decide) (by decide)
    · exact hno (c := ':') (by decide) (by decide)
  rw [isSafeOutboundUrl_plain hu (hwritten ▸ hnormal) hne
    (not_blockedHostname hnormal hlow (hno (by decide)) (hno (by decide))),
    isPrivateIpv4_iff ((quad_of_isV4 hspells.1).trans (congrArg some hspells.2)), hmapped, hlocal]
  simp only [hf, hshort, Option.any_none, Bool.false_eq_true, or_self, not_false_eq_true, and_true]

/-- The URL of an IPv6 address with no named address inside is judged by the
first group. -/
theorem isSafeOutboundUrl_v6 (hu : u.IsPlain) (hhost : u.hostname = Address.urlHost (.v6 ip))
    (hspared : Spared (.v6 ip)) : isSafeOutboundUrl (some u) = true ↔ ¬ip.FirstNamed := by
  obtain ⟨hbody, hip⟩ := canonical_body ip
  have hwritten : u.hostname = ['['] ++ canonicalIpv6 ip.groups ++ [']'] := hhost
  have hchar := @canonical_char ip.groups
  generalize canonicalIpv6 ip.groups = cs at hbody hip hwritten hchar
  have hno {c : Char} (hc : c ≠ ':' ∧ isHex c = false) : c ∉ cs := fun hmem => by
    rcases hchar hmem with he | he
    · exact hc.1 he
    · simp [hc.2] at he
  have hlast : cs.getLast? ≠ some '.' := fun h => hno (by decide) (List.mem_of_getLast? h)
  have hne : cs ≠ [] := List.ne_nil_of_mem hbody.colon
  have hascii := ascii_of_isV6Body hbody.body
  have hnormal {written : List Char} (h : stripBrackets written = cs) :=
    normalizeHostname_eq h hascii hbody.lower hlast
  have hprivate : ¬isPrivateIpv4 cs = true := by
    unfold isPrivateIpv4
    cases hquad : quad cs with
    | none => simp
    | some o => exact absurd hbody.colon (quad_chars hquad).1
  have hmapped : ¬(mappedIpv4 cs).any isPrivateIpv4 = true := by
    intro h
    obtain ⟨q, hq, hqprivate⟩ := (Option.any_eq_true _ _).mp h
    obtain ⟨v4, hembeds, hquad⟩ := hbody.mapped hq hip
    exact hspared v4 hembeds ((named_iff v4).mpr (.inl ((isPrivateIpv4_iff hquad).mp hqprivate)))
  have hshort : ¬(cs = "::1".toList ∨ cs = "::".toList) := fun h => by
    obtain ⟨v4, hembeds, hnamed⟩ := short_embeds hbody hip h
    exact hspared v4 hembeds hnamed
  rw [isSafeOutboundUrl_plain hu (hwritten ▸ hnormal (stripBrackets_bracketed cs)) hne
    (not_blockedHostname (hnormal hbody.stripBrackets) hbody.lower (hno (by decide))
      (hno (by decide))), hbody.lower, ← firstNamed_iff hbody hip]
  exact ⟨fun h => h.2.2.2, fun h => ⟨hprivate, hmapped, hshort, h⟩⟩

theorem full_passes {v4 : Ipv4} (h : ip.Embeds v4) : isBlockedIpv6 (joined ip.groups) = false := by
  obtain ⟨hbody, hip⟩ := joined_body ip
  obtain ⟨n, g, hgroups⟩ : ∃ n g, ip.groups = 0 :: n :: g := by
    unfold Ipv6.Embeds Ipv6.embedded at h
    split_ifs at h with hzeros
    rcases hg : ip.groups with _ | ⟨m, _ | ⟨n, g⟩⟩
    · simp [hg] at hzeros
    · simp [hg] at hzeros
    · simp only [hg, List.take_succ_cons, List.cons.injEq] at hzeros
      exact ⟨n, g, by rw [hzeros.1.1]⟩
  have hcs : joined ip.groups = '0' :: ':' :: joined (n :: g) := by
    rw [hgroups]
    simp [joined, List.intercalate_cons_cons, hex]
  have hzero : ¬ip.FirstNamed := by simp [Ipv6.FirstNamed, hgroups]
  rw [firstNamed_iff hbody hip, not_or, not_or] at hzero
  have hafter (start : String) (hstart : start.toList.head? = some ':') :
      after start (joined ip.groups) = none := by
    cases ht : after start (joined ip.groups) with
    | none => rfl
    | some t =>
      have heq := after_eq hbody.lower ht
      rw [hcs] at heq
      cases hl : start.toList with
      | nil => simp [hl] at hstart
      | cons c l =>
        rw [hl, List.head?_cons, Option.some.injEq] at hstart
        rw [hl, hstart, List.cons_append] at heq
        exact absurd (List.cons.inj heq).1 (by decide)
  have hmapped : mappedIpv4 (joined ip.groups) = none := by
    simp [mappedIpv4, hafter "::ffff:" (by decide), hafter "::" (by decide)]
  have hshort : ¬(joined ip.groups = "::1".toList ∨ joined ip.groups = "::".toList) := by
    rw [hcs]
    rintro (he | he)
    · exact absurd (List.cons.inj he).1 (by decide)
    · exact absurd (List.cons.inj he).1 (by decide)
  unfold isBlockedIpv6
  rw [hbody.lowered, stripZone_eq hbody.noZone]
  rw [if_neg hshort, if_neg hzero.1, if_neg hzero.2.1, if_neg hzero.2.2, hmapped]

theorem isBlockedIpAddress_v4 {ip : Ipv4} (h : Spells cs (.v4 ip)) :
    isBlockedIpAddress cs 4 = true ↔ ip.Named := by
  have hcolon : ':' ∉ cs := fun hmem => by
    rcases isV4_char h.1 hmem with he | he
    · exact absurd he (by decide)
    · exact absurd he (by decide)
  have hneither : ¬(4 = 6 ∨ ':' ∈ cs) := by simp [hcolon]
  unfold isBlockedIpAddress
  rw [if_neg hneither]
  exact isBlockedIpv4_iff ((quad_of_isV4 h.1).trans (congrArg some h.2))

/-- One verdict for every text of an address, and against it where it is in
range: where the address is low enough, or holds no address of a named network. -/
theorem judges_iff_spared (address : Address) : Judges address ↔ Spared address := by
  cases address with
  | v4 ip =>
    have hplain : Url.IsPlain ⟨"https:", "", "", none, dotted ip.octets⟩ := ⟨rfl, rfl, rfl, nofun⟩
    constructor
    · rintro ⟨blocked, hgate, hsafe, -⟩
      have hgate := hgate _ (spells_dotted ip)
      have hsafe := hsafe _ hplain rfl
      have hblocked := isBlockedIpAddress_v4 (spells_dotted ip)
      have hurl : _ ↔ ¬ip.IsPrivate := isSafeOutboundUrl_v4 hplain rfl
      rw [show Address.family (.v4 ip) = 4 from rfl] at hgate
      rw [hgate] at hblocked
      rw [hsafe] at hurl
      rw [named_iff] at hblocked
      by_contra hhigh
      have hhigh : 224 ≤ ip.a := Nat.not_lt.mp hhigh
      have hprivate : ¬ip.IsPrivate := fun h => absurd h.low (Nat.not_lt.mpr hhigh)
      simp [hblocked.mpr (.inr hhigh), hprivate] at hurl
    · intro hlow
      have hhigh : ¬224 ≤ ip.a := Nat.not_le.mpr hlow
      refine ⟨decide ip.Named, fun cs h => ?_, fun u hu hhost => ?_, fun h => decide_eq_true h⟩
      · rw [Bool.eq_iff_iff, decide_eq_true_iff]
        exact isBlockedIpAddress_v4 h
      · rw [Bool.eq_iff_iff, isSafeOutboundUrl_v4 hu hhost]
        simp [named_iff, hhigh]
  | v6 ip =>
    constructor
    · rintro ⟨blocked, hgate, -, hrange⟩ v4 hembeds hnamed
      have hgate := hgate _ ((joined_body ip).1.spells (joined_body ip).2)
      have hfull := full_passes hembeds
      have hin := hrange (.inr ⟨v4, hembeds, hnamed⟩)
      unfold isBlockedIpAddress at hgate
      rw [if_pos (.inl rfl), hfull, hin] at hgate
      cases hgate
    · intro hspared
      refine ⟨decide ip.FirstNamed, fun cs h => ?_, fun u hu hhost => ?_, fun h => ?_⟩
      · rw [Bool.eq_iff_iff, decide_eq_true_iff, ← isBlockedIpv6_iff h hspared]
        unfold isBlockedIpAddress
        rw [if_pos (.inl rfl)]
      · rw [Bool.eq_iff_iff, isSafeOutboundUrl_v6 hu hhost hspared]
        simp
      · rcases h with h | ⟨v4, hembeds, hnamed⟩
        · exact decide_eq_true (firstNamed_of_named h hspared)
        · exact absurd hnamed (hspared v4 hembeds)

/-- The loopback address is let through where it is written in full, and a
multicast address where it stands in a URL. -/
theorem not_judges : (¬Judges (.v6 ⟨[0, 0, 0, 0, 0, 0, 0, 1], rfl, by decide⟩)) ∧
    ¬Judges (.v4 ⟨224, 0, 0, 1, by decide⟩) := by
  constructor
  · rintro ⟨blocked, hgate, -, -⟩
    have hshort : isBlockedIpAddress "::1".toList 6 = blocked := hgate _ (by decide +kernel)
    have hfull : isBlockedIpAddress "0:0:0:0:0:0:0:1".toList 6 = blocked :=
      hgate _ (by decide +kernel)
    have hdiffer : isBlockedIpAddress "::1".toList 6 ≠
        isBlockedIpAddress "0:0:0:0:0:0:0:1".toList 6 := by decide +kernel
    exact hdiffer (hshort.trans hfull.symm)
  · rintro ⟨blocked, hgate, hsafe, -⟩
    have haddress : isBlockedIpAddress "224.0.0.1".toList 4 = blocked := hgate _ (by decide +kernel)
    have hurl : isSafeOutboundUrl (some ⟨"https:", "", "", none, "224.0.0.1".toList⟩) = !blocked :=
      hsafe _ ⟨rfl, rfl, rfl, nofun⟩ (by decide +kernel)
    have hagree : isBlockedIpAddress "224.0.0.1".toList 4 =
        isSafeOutboundUrl (some ⟨"https:", "", "", none, "224.0.0.1".toList⟩) := by
      decide +kernel
    rw [haddress, hurl] at hagree
    cases blocked <;> cases hagree

end Kindred.Net
