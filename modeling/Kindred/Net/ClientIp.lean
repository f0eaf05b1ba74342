import Kindred.Rest.Text

/-! Whose address a request comes from: the chain of `X-Forwarded-For`, read from the right past our
own proxies. -/

namespace Kindred.Net
open Rest (trim lower isSpace)

def isHex (c : Char) : Bool :=
  ('0' ≤ c && c ≤ '9') || ('a' ≤ c && c ≤ 'f') || ('A' ≤ c && c ≤ 'F')

def digitValue (c : Char) : ℕ :=
  if c ≤ '9' then c.toNat - '0'.toNat
  else if c ≤ 'F' then c.toNat - 'A'.toNat + 10 else c.toNat - 'a'.toNat + 10

def number (base : ℕ) (cs : List Char) : ℕ := cs.foldl (fun n c => base * n + digitValue c) 0

def isV4Seg (cs : List Char) : Bool :=
  cs.all Char.isDigit && (cs.length == 1 || cs.length ≤ 3 && cs.head? != some '0' && cs != []) &&
    number 10 cs ≤ 255

def isV4 (cs : List Char) : Bool :=
  let parts := cs.splitOn '.'
  parts.length == 4 && parts.all isV4Seg

def isV6Seg (cs : List Char) : Bool := cs != [] && cs.length ≤ 4 && cs.all isHex

def groupCount (v4Tail : Bool) (cs : List Char) : Option ℕ :=
  if cs = [] then some 0
  else
    let parts := cs.splitOn ':'
    if parts.all isV6Seg then some parts.length
    else if v4Tail && parts.dropLast.all isV6Seg && parts.getLast?.any isV4 then
      some (parts.length + 1)
    else none

def cutDouble : List Char → Option (List Char × List Char)
  | ':' :: ':' :: cs => some ([], cs)
  | c :: cs => (cutDouble cs).map fun r => (c :: r.1, r.2)
  | [] => none

def isV6Body (cs : List Char) : Bool :=
  match cutDouble cs with
  | none => groupCount true cs == some 8
  | some (head, tail) =>
    (groupCount false head).any fun a => (groupCount true tail).any fun b => a + b ≤ 7

def isZoneChar (c : Char) : Bool := c.isAlphanum || c == '-' || c == '.' || c == ':'

def isV6 (cs : List Char) : Bool :=
  match cs.dropWhile fun c => c != '%' with
  | [] => isV6Body cs
  | _ :: zone => zone != [] && zone.all isZoneChar && isV6Body (cs.takeWhile fun c => c != '%')

def isIP (cs : List Char) : ℕ := if isV4 cs then 4 else if isV6 cs then 6 else 0

def hex (n : ℕ) : List Char := Nat.toDigits 16 n

def octets (cs : List Char) : List ℕ := (cs.splitOn '.').map (number 10)

def undot (cs : List Char) : List Char :=
  let tail := (cs.reverse.takeWhile fun c => c != ':').reverse
  let o := octets tail
  if tail.contains '.' ∧ o.length = 4 then
    cs.take (cs.length - tail.length) ++ hex (o.getD 0 0 * 256 + o.getD 1 0) ++ [':'] ++
      hex (o.getD 2 0 * 256 + o.getD 3 0)
  else cs

def ipv6Part (cs : List Char) : List ℕ :=
  ((cs.splitOn ':').filter fun h => h ≠ []).map fun h => number 16 (h.takeWhile isHex)

def ipv6Groups (ip : List Char) : Option (List ℕ) :=
  if isIP ip ≠ 6 then none
  else
    let text := undot ip
    match cutDouble text with
    | none =>
      let a := ipv6Part text
      if a.length = 8 then some a else none
    | some (head, tail) =>
      let a := ipv6Part head
      let b := ipv6Part tail
      if a.length + b.length ≤ 8 then some (a ++ List.replicate (8 - a.length - b.length) 0 ++ b)
      else none

def bestRun (g : List ℕ) : ℕ → ℕ → Option ℕ × ℕ → Option ℕ × ℕ
  | 0, _, best => best
  | fuel + 1, i, best =>
    match g.drop i with
    | [] => best
    | 0 :: rest =>
      let j := i + 1 + (rest.takeWhile (· == 0)).length
      bestRun g fuel j (if j - i > best.2 then (some i, j - i) else best)
    | _ :: _ => bestRun g fuel (i + 1) best

def canonicalIpv6 (g : List ℕ) : List Char :=
  let text := fun g : List ℕ => [':'].intercalate (g.map hex)
  match bestRun g 8 0 (none, 1) with
  | (none, _) => text g
  | (some best, len) => text (g.take best) ++ [':', ':'] ++ text (g.drop (best + len))

def dotted (o : List ℕ) : List Char := ['.'].intercalate (o.map (Nat.toDigits 10))

/-- The address without brackets, port or zone. -/
def bare (ip : List Char) : List Char :=
  let ip :=
    if ip.head? = some '[' then
      if ip.contains ']' then (ip.takeWhile fun c => c != ']').drop 1 else ip
    else if ip.contains '.' ∧ ip.contains ':' ∧ (ip.splitOn ':').length = 2 then
      ip.takeWhile fun c => c != ':'
    else ip
  if ip.contains '%' ∧ ip.head? ≠ some '%' then ip.takeWhile fun c => c != '%' else ip

def normalizeIp (raw : Option String) : Option String :=
  match raw with
  | none => none
  | some raw =>
    let ip := lower (trim raw)
    if ip = "" ∨ ip = "unknown" then none
    else
      let ip := bare ip.toList
      match ipv6Groups ip with
      | some g =>
        if (g.take 5).all (· == 0) ∧ g.getD 5 0 = 0xffff then
          some (.ofList (dotted [g.getD 6 0 / 256, g.getD 6 0 % 256, g.getD 7 0 / 256,
            g.getD 7 0 % 256]))
        else some (.ofList (canonicalIpv6 g))
      | none => if isIP ip ≠ 0 then some (.ofList ip) else none

/-- Private, loopback, link-local or reserved, or no address. -/
def isPrivateOrReservedIp (raw : String) : Bool :=
  match normalizeIp (some raw) with
  | none => true
  | some ip =>
    if isIP ip.toList = 4 then
      let o := octets ip.toList
      let o0 := o.getD 0 0
      let o1 := o.getD 1 0
      let o2 := o.getD 2 0
      o0 == 0 || o0 == 10 || o0 == 127 || o0 == 169 && o1 == 254 ||
        o0 == 172 && 16 ≤ o1 && o1 ≤ 31 || o0 == 192 && o1 == 168 ||
        o0 == 192 && o1 == 0 && o2 == 0 || o0 == 192 && o1 == 0 && o2 == 2 ||
        o0 == 198 && (o1 == 18 || o1 == 19) || o0 == 198 && o1 == 51 && o2 == 100 ||
        o0 == 203 && o1 == 0 && o2 == 113 || o0 == 100 && 64 ≤ o1 && o1 ≤ 127 || 224 ≤ o0
    else
      match ipv6Groups ip.toList with
      | none => true
      | some g =>
        let g0 := g.getD 0 0
        (g.take 7).all (· == 0) && g.getD 7 0 ≤ 1 || g0 &&& 0xffc0 == 0xfe80 ||
          g0 &&& 0xfe00 == 0xfc00 || g0 &&& 0xff00 == 0xff00 ||
          g0 == 0x2001 && g.getD 1 0 == 0x0db8 ||
          g0 == 0x64 && g.getD 1 0 == 0xff9b && ((g.drop 2).take 4).all (· == 0)

def isPublicIp (raw : Option String) : Bool :=
  (normalizeIp raw).any fun ip => !isPrivateOrReservedIp ip

/-- The deployment: `TRUSTED_PROXY_IPS`, and what the block list of `CLOUDFLARE_IPS` says of an
address. -/
structure Env where
  trustedProxyIps : String := ""
  blockList : String → Bool

def proxyAllowlist (env : Env) : List String :=
  ((Rest.split ',' env.trustedProxyIps).map fun s => lower (trim s)).filter fun s => s ≠ ""

def isAllowlistedProxy (env : Env) (ip : String) : Bool :=
  (proxyAllowlist env).any fun entry => entry == ip ||
    (entry.toList.getLast? == some '.' || entry.toList.getLast? == some ':') &&
      entry.toList.isPrefixOf ip.toList

def isCloudflareIp (env : Env) (raw : Option String) : Bool :=
  (normalizeIp raw).any env.blockList

def isOwnHop (env : Env) (ip : String) : Bool :=
  isPrivateOrReservedIp ip || isAllowlistedProxy env ip

inductive HeaderValue where
  | one (s : String)
  | many (l : List String)

def HeaderValue.text : HeaderValue → String
  | .one s => s
  | .many l => ",".intercalate l

structure Request where
  remoteAddress : Option String
  xForwardedFor : Option HeaderValue := none
  xRealIp : Option HeaderValue := none
  cfConnectingIp : Option HeaderValue := none

def headerValues (v : Option HeaderValue) : List String :=
  match v with
  | none => []
  | some v => ((Rest.split ',' v.text).map trim).filter fun s => s ≠ ""

def walk (env : Env) : List String → Option String
  | [] => none
  | entry :: entries =>
    match normalizeIp (some entry) with
    | none => none
    | some ip =>
      if isCloudflareIp env (some ip) then some ip
      else if isOwnHop env ip then walk env entries
      else some ip

def getEdgeIp (env : Env) (req : Request) : Option String :=
  match normalizeIp req.remoteAddress with
  | none => none
  | some peer =>
    if isCloudflareIp env (some peer) ∨ !isOwnHop env peer then some peer
    else walk env (headerValues req.xForwardedFor).reverse

def realIpOnly (env : Env) (req : Request) : Option String :=
  match normalizeIp req.remoteAddress with
  | none => none
  | some peer =>
    if !isOwnHop env peer ∨ (headerValues req.xForwardedFor).length > 0 then none
    else
      match headerValues req.xRealIp with
      | [named] => (normalizeIp (some named)).filter fun ip => !isPrivateOrReservedIp ip
      | _ => none

def connecting (req : Request) : Option String :=
  (normalizeIp (headerValues req.cfConnectingIp).head?).filter fun cf => !isPrivateOrReservedIp cf

def getClientIp (env : Env) (req : Request) : Option String :=
  match getEdgeIp env req with
  | none => realIpOnly env req
  | some edge =>
    if isCloudflareIp env (some edge) then connecting req
    else if isPrivateOrReservedIp edge then none
    else some edge

def isAddressChar (c : Char) : Bool := isHex c || isZoneChar c || c == '%'

variable {c : Char} {cs : List Char}

theorem isAddressChar_of_isHex (h : isHex c = true) : isAddressChar c = true := by
  simp [isAddressChar, h]

theorem isAddressChar_of_isZoneChar (h : isZoneChar c = true) : isAddressChar c = true := by
  simp [isAddressChar, h]

theorem mem_intercalate {sep : Char} {l : List (List Char)} (h : c ∈ [sep].intercalate l) :
    c = sep ∨ ∃ p ∈ l, c ∈ p := by
  induction l with
  | nil => simp at h
  | cons p l ih =>
    cases l with
    | nil => exact .inr ⟨p, by simp, by simpa using h⟩
    | cons q l =>
      rw [List.intercalate_cons_cons, List.mem_append, List.mem_append] at h
      rcases h with (h | h) | h
      · exact .inr ⟨p, by simp, h⟩
      · exact .inl (List.mem_singleton.mp h)
      · rcases ih h with rfl | ⟨r, hr, hc⟩
        · exact .inl rfl
        · exact .inr ⟨r, List.mem_cons_of_mem p hr, hc⟩

theorem mem_splitOn {sep c : Char} {cs : List Char} (h : c ∈ cs) :
    c = sep ∨ ∃ p ∈ cs.splitOn sep, c ∈ p := by
  have hcs : List.intercalate [sep] (cs.splitOn sep) = cs := List.intercalate_splitOn sep
  rw [← hcs] at h
  exact mem_intercalate h

theorem chars_of_isV4Seg (h : isV4Seg cs = true) : ∀ c ∈ cs, isAddressChar c = true := by
  intro c hc
  simp only [isV4Seg, Bool.and_eq_true, List.all_eq_true] at h
  refine isAddressChar_of_isZoneChar ?_
  simp [isZoneChar, Char.isAlphanum, h.1.1 c hc]

theorem chars_of_isV4 (h : isV4 cs = true) : ∀ c ∈ cs, isAddressChar c = true := by
  intro c hc
  simp only [isV4, Bool.and_eq_true, List.all_eq_true] at h
  rcases @mem_splitOn '.' _ _ hc with rfl | ⟨p, hp, hc⟩
  · decide
  · exact chars_of_isV4Seg (h.2 p hp) c hc

theorem chars_of_isV6Seg (h : isV6Seg cs = true) : ∀ c ∈ cs, isAddressChar c = true := by
  intro c hc
  simp only [isV6Seg, Bool.and_eq_true, List.all_eq_true] at h
  exact isAddressChar_of_isHex (h.2 c hc)

theorem chars_of_groupCount {v4Tail : Bool} {n : ℕ} (h : groupCount v4Tail cs = some n) :
    ∀ c ∈ cs, isAddressChar c = true := by
  intro c hc
  unfold groupCount at h
  split at h
  · rename_i hnil
    rw [hnil] at hc
    cases hc
  · dsimp only at h
    -- between the colons stand groups, and an IPv4 address at the end
    have hpart : ∀ p ∈ cs.splitOn ':', ∀ c ∈ p, isAddressChar c = true := by
      intro p hp
      split at h
      · rename_i hall
        exact chars_of_isV6Seg (List.all_eq_true.mp hall p hp)
      · split at h
        · rename_i htail
          simp only [Bool.and_eq_true, List.all_eq_true] at htail
          obtain ⟨last, hlast, hv4⟩ := (Option.any_eq_true _ _).mp htail.2
          rw [← List.dropLast_append_getLast? last hlast] at hp
          rcases List.mem_append.mp hp with hp | hp
          · exact chars_of_isV6Seg (htail.1.2 p hp)
          · rw [List.mem_singleton.mp hp]
            exact chars_of_isV4 hv4
        · cases h
    rcases @mem_splitOn ':' _ _ hc with rfl | ⟨p, hp, hc⟩
    · decide
    · exact hpart p hp c hc

theorem eq_of_cutDouble {head tail : List Char} (h : cutDouble cs = some (head, tail)) :
    cs = head ++ ':' :: ':' :: tail := by
  fun_induction cutDouble cs generalizing head with
  | case1 cs =>
    cases h
    rfl
  | case2 c cs hne ih =>
    obtain ⟨r, hr, he⟩ := Option.map_eq_some_iff.mp h
    cases he
    rw [ih hr]
    rfl
  | case3 => cases h

theorem chars_of_isV6Body (h : isV6Body cs = true) : ∀ c ∈ cs, isAddressChar c = true := by
  unfold isV6Body at h
  cases hcut : cutDouble cs with
  | none =>
    simp only [hcut, beq_iff_eq] at h
    exact chars_of_groupCount h
  | some r =>
    obtain ⟨head, tail⟩ := r
    simp only [hcut] at h
    obtain ⟨a, ha, h⟩ := (Option.any_eq_true _ _).mp h
    obtain ⟨b, hb, -⟩ := (Option.any_eq_true _ _).mp h
    intro c hc
    rw [eq_of_cutDouble hcut] at hc
    rcases List.mem_append.mp hc with hc | hc
    · exact chars_of_groupCount ha c hc
    · rcases List.mem_cons.mp hc with rfl | hc
      · decide
      · rcases List.mem_cons.mp hc with rfl | hc
        · decide
        · exact chars_of_groupCount hb c hc

theorem chars_of_isV6 (h : isV6 cs = true) : ∀ c ∈ cs, isAddressChar c = true := by
  unfold isV6 at h
  intro c hc
  rw [← List.takeWhile_append_dropWhile (p := fun c => c != '%') (l := cs)] at hc
  cases hzone : cs.dropWhile fun c => c != '%' with
  | nil =>
    simp only [hzone] at h
    rw [hzone, List.append_nil] at hc
    exact chars_of_isV6Body h c (List.takeWhile_prefix _ |>.subset hc)
  | cons percent zone =>
    simp only [hzone, Bool.and_eq_true, List.all_eq_true] at h
    rw [hzone] at hc
    rcases List.mem_append.mp hc with hc | hc
    · exact chars_of_isV6Body h.2 c hc
    · rcases List.mem_cons.mp hc with rfl | hc
      · have hp := List.head_dropWhile_not (fun c => c != '%') (l := cs) (by simp [hzone])
        simp only [hzone, List.head_cons, bne_eq_false_iff_eq] at hp
        rw [hp]
        decide
      · exact isAddressChar_of_isZoneChar (h.1.2 c hc)

theorem chars_of_isIP (h : isIP cs ≠ 0) : ∀ c ∈ cs, isAddressChar c = true := by
  unfold isIP at h
  split at h
  · exact chars_of_isV4 ‹_›
  · split at h
    · exact chars_of_isV6 ‹_›
    · exact absurd rfl h

theorem no_comma_of_isIP (h : isIP cs ≠ 0) : ',' ∉ cs :=
  fun hc => absurd (chars_of_isIP h ',' hc) (by decide)

theorem lt_128_of_isAddressChar (h : isAddressChar c = true) : c.toNat < 128 := by
  simp only [isAddressChar, isHex, isZoneChar, Char.isAlphanum] at h
  delta Char.isAlpha Char.isUpper Char.isLower at h
  simp only [Char.isDigit, Bool.or_eq_true, Bool.and_eq_true, decide_eq_true_eq, beq_iff_eq,
    Char.le_def, UInt32.le_iff_toNat_le, ge_iff_le, Char.toNat] at h ⊢
  rcases h with (((h | h) | h) | (((((h | h) | h) | rfl) | rfl) | rfl)) | rfl
  all_goals first
    | exact Nat.lt_of_le_of_lt h.2 (by decide)
    | decide

theorem isSpace_of_isAddressChar (h : isAddressChar c = true) : isSpace c = false := by
  have hlt := lt_128_of_isAddressChar h
  by_contra hs
  rw [Bool.not_eq_false] at hs
  simp only [isSpace, List.mem_cons, List.not_mem_nil, or_false, Bool.or_eq_true,
    decide_eq_true_eq, Bool.and_eq_true] at hs
  rcases hs with hs | hs
  · revert h hlt
    rcases hs with rfl | rfl | rfl | rfl | rfl | rfl | rfl | rfl | rfl | rfl | rfl | rfl | rfl | rfl <;>
      decide
  · have hge : 8192 ≤ c.toNat := hs.1
    omega

theorem trim_of_chars (h : ∀ c ∈ cs, isSpace c = false) : trim (.ofList cs) = .ofList cs := by
  have hdrop : ∀ l : List Char, (∀ c ∈ l, isSpace c = false) → l.dropWhile isSpace = l := by
    intro l hl
    cases l with
    | nil => rfl
    | cons c l => simp [hl c List.mem_cons_self]
  unfold trim
  rw [String.toList_ofList, hdrop cs h, hdrop cs.reverse (by simpa using h), List.reverse_reverse]

theorem trim_space (s : String) : trim (.ofList (' ' :: s.toList)) = trim s := by
  unfold trim
  rw [String.toList_ofList, List.dropWhile_cons, if_pos (by decide)]

def appended (xff : Option HeaderValue) (peer : String) : HeaderValue :=
  match xff with
  | none => .one peer
  | some v => if v.text = "" then .one peer else .one (v.text ++ ", " ++ peer)

theorem headerValues_appended (xff : Option HeaderValue) {peer : String}
    (h : isIP peer.toList ≠ 0) :
    headerValues (some (appended xff peer)) = headerValues xff ++ [peer] := by
  have hspace : ∀ c ∈ peer.toList, isSpace c = false := fun c hc =>
    isSpace_of_isAddressChar (chars_of_isIP h c hc)
  have htrim : trim peer = peer := by
    have := trim_of_chars hspace
    rwa [String.ofList_toList] at this
  have hne : peer ≠ "" := by
    rintro rfl
    exact h (by decide)
  have hsplit : peer.toList.splitOn ',' = [peer.toList] :=
    List.splitOn_eq_singleton (no_comma_of_isIP h)
  have hone : headerValues (some (.one peer)) = [peer] := by
    simp [headerValues, HeaderValue.text, Rest.split, hsplit, htrim, hne]
  cases xff with
  | none => exact hone
  | some v =>
    unfold appended
    by_cases hv : v.text = ""
    · have hnone : headerValues (some v) = [] := by
        simp [headerValues, hv, Rest.split]
        decide
      simp only [hv, if_true]
      rw [hone, hnone]
      rfl
    · simp only [hv, if_false]
      have htext : (v.text ++ ", " ++ peer).toList =
          v.text.toList ++ ',' :: (' ' :: peer.toList) := by simp
      have hpeer : (' ' :: peer.toList).splitOn ',' = [' ' :: peer.toList] := by
        refine List.splitOn_eq_singleton ?_
        simpa using no_comma_of_isIP h
      have hsplit' : Rest.split ',' (v.text ++ ", " ++ peer) =
          Rest.split ',' v.text ++ [.ofList (' ' :: peer.toList)] := by
        unfold Rest.split
        rw [htext, List.splitOn_append_cons_self, hpeer, List.map_append]
        rfl
      show ((Rest.split ',' (v.text ++ ", " ++ peer)).map trim).filter _ =
        ((Rest.split ',' v.text).map trim).filter _ ++ [peer]
      rw [hsplit', List.map_append, List.filter_append, List.map_singleton, trim_space, htrim]
      simp [hne]

/-- A request comes to the server from the client through our own proxies, the outermost first. What it
carries besides X-Forwarded-For is as it arrives, whoever wrote it. -/
def arrive (client : String) (own : List String) (sent : Request) : Request :=
  own.foldl (fun req proxy => { req with
    remoteAddress := some proxy
    xForwardedFor := some (appended req.xForwardedFor (req.remoteAddress.getD "")) })
    { sent with remoteAddress := some client }

theorem arrive_spec (own : List String) (client : String) (sent : Request)
    (h : ∀ a ∈ client :: own, isIP a.toList ≠ 0) :
    (arrive client own sent).remoteAddress = (client :: own).getLast? ∧
      headerValues (arrive client own sent).xForwardedFor =
        headerValues sent.xForwardedFor ++ (client :: own).dropLast ∧
      (arrive client own sent).xRealIp = sent.xRealIp ∧
      (arrive client own sent).cfConnectingIp = sent.cfConnectingIp := by
  induction own generalizing client sent with
  | nil => simp [arrive]
  | cons proxy own ih =>
    have hstep : arrive client (proxy :: own) sent =
        arrive proxy own { sent with xForwardedFor := some (appended sent.xForwardedFor client) } := rfl
    obtain ⟨hremote, hxff, hreal, hcf⟩ := ih proxy
      { sent with xForwardedFor := some (appended sent.xForwardedFor client) }
      fun a ha => h a (List.mem_cons_of_mem _ ha)
    rw [hstep]
    refine ⟨?_, ?_, hreal, hcf⟩
    · rw [hremote, List.getLast?_cons_cons]
    · rw [hxff, headerValues_appended _ (h client List.mem_cons_self), List.append_assoc]
      rfl

def IsOwnProxy (env : Env) (proxy : String) : Prop :=
  ∃ ip, normalizeIp (some proxy) = some ip ∧ isOwnHop env ip = true ∧
    isCloudflareIp env (some ip) = false

variable {own : List String}

theorem walk_own (env : Env) (h : ∀ p ∈ own, IsOwnProxy env p) (entries : List String)
    : walk env (own ++ entries) = walk env entries := by
  induction own with
  | nil => rfl
  | cons p own ih =>
    obtain ⟨ip, hip, hown, hcf⟩ := h p List.mem_cons_self
    rw [List.cons_append, walk, hip]
    simp only [hcf, Bool.false_eq_true, if_false, hown, if_true]
    exact ih fun q hq => h q (List.mem_cons_of_mem p hq)

theorem walk_client (env : Env) {client c : String} (hc : normalizeIp (some client) = some c)
    (hown : isOwnHop env c = false) (entries : List String) :
    walk env (client :: entries) = some c := by
  rw [walk, hc]
  simp only [hown, Bool.false_eq_true, if_false, ite_self]

theorem getEdgeIp_arrive (env : Env) {client c : String} (sent : Request)
    (htext : ∀ a ∈ client :: own, isIP a.toList ≠ 0) (hc : normalizeIp (some client) = some c)
    (hclient : isOwnHop env c = false) (hown : ∀ p ∈ own, IsOwnProxy env p) :
    getEdgeIp env (arrive client own sent) = some c := by
  obtain ⟨hremote, hxff, -, -⟩ := arrive_spec own client sent htext
  unfold getEdgeIp
  rw [hremote, hxff]
  cases hlast : own.getLast? with
  | none =>
    rw [List.getLast?_eq_none_iff] at hlast
    subst hlast
    simp [hc, hclient]
  | some proxy =>
    obtain ⟨ip, hip, hownip, hcf⟩ := hown proxy (List.mem_of_getLast? hlast)
    obtain ⟨before, rfl⟩ := List.getLast?_eq_some_iff.mp hlast
    have hproxies : (client :: (before ++ [proxy])).dropLast = client :: before := by
      rw [← List.cons_append, List.dropLast_concat]
    have hlast' : (client :: (before ++ [proxy])).getLast? = some proxy := by
      rw [← List.cons_append, List.getLast?_concat]
    rw [hlast', hip, hproxies]
    simp only [hcf, hownip, Bool.not_true, Bool.false_eq_true, or_self, if_false]
    rw [List.reverse_append, List.reverse_cons, List.append_assoc,
      walk_own env fun p hp => hown p (by simp [List.mem_reverse.mp hp])]
    exact walk_client env hc hclient _

/-- The address of a client that is neither private nor listed cannot be forged: it is the client's own,
or, for a Cloudflare address, what Cloudflare names. -/
theorem getClientIp_unforged (env : Env) (client : String) (own : List String)
    (htext : ∀ a ∈ client :: own, isIP a.toList ≠ 0) (hpublic : isPublicIp (some client) = true)
    (hunlisted : ∀ c, normalizeIp (some client) = some c → isAllowlistedProxy env c = false)
    (hown : ∀ p ∈ own, IsOwnProxy env p) (sent : Request) :
    (∀ c, normalizeIp (some client) = some c → getClientIp env (arrive client own sent) =
      if isCloudflareIp env (some c) then connecting sent else some c) ∧
    ∀ sent' : Request, (∀ c, normalizeIp (some client) = some c → ¬isCloudflareIp env (some c)) →
      getClientIp env (arrive client own sent) = getClientIp env (arrive client own sent') := by
  have hone : ∀ sent : Request, ∀ c, normalizeIp (some client) = some c →
      getClientIp env (arrive client own sent) =
        if isCloudflareIp env (some c) then connecting sent else some c := by
    intro sent c hc
    have hpriv : isPrivateOrReservedIp c = false := by
      simpa [isPublicIp, hc] using hpublic
    have hedge := getEdgeIp_arrive env sent htext hc
      (by simp [isOwnHop, hpriv, hunlisted c hc]) hown
    unfold getClientIp
    rw [hedge]
    simp only [hpriv, Bool.false_eq_true, if_false]
    have hcf : connecting (arrive client own sent) = connecting sent := by
      unfold connecting
      rw [(arrive_spec own client sent htext).2.2.2]
    rw [hcf]
  refine ⟨hone sent, fun sent' hno => ?_⟩
  obtain ⟨c, hc, -⟩ := (Option.any_eq_true _ _).mp hpublic
  rw [hone sent c hc, hone sent' c hc, if_neg (hno c hc), if_neg (hno c hc)]

def fronted : Env :=
  { trustedProxyIps := "104.16.0.1", blockList := fun ip => ip == "104.16.0.1" }

def forging : Request :=
  { remoteAddress := none, xForwardedFor := some (.one "1.2.3.4"),
    cfConnectingIp := some (.one "1.2.3.4") }

theorem getClientIp_unforged_nginx :
    getClientIp fronted (arrive "8.8.8.8" ["10.0.0.5", "::ffff:10.0.0.9"] forging) =
      some "8.8.8.8" := by
  have h := (getClientIp_unforged fronted "8.8.8.8" ["10.0.0.5", "::ffff:10.0.0.9"]
    (by decide +kernel) (by decide +kernel) (fun c hc => by
      cases (show some "8.8.8.8" = some c by rw [← hc]; decide +kernel)
      decide +kernel)
    (fun p hp => by
      rcases List.mem_cons.mp hp with rfl | hp
      · exact ⟨"10.0.0.5", by decide +kernel, by decide +kernel, by decide +kernel⟩
      · rw [List.mem_singleton.mp hp]
        exact ⟨"10.0.0.9", by decide +kernel, by decide +kernel, by decide +kernel⟩)
    forging).1 "8.8.8.8" (by decide +kernel)
  rw [h]
  decide +kernel

/-- The proxy that is taken for Cloudflare makes the client's own cf-connecting-ip believed. -/
theorem forged_through_fronted :
    isPublicIp (some "8.8.8.8") = true ∧ isOwnHop fronted "8.8.8.8" = false ∧
      isCloudflareIp fronted (some "8.8.8.8") = false ∧ isOwnHop fronted "104.16.0.1" = true ∧
      getClientIp fronted (arrive "8.8.8.8" ["104.16.0.1"] forging) = some "1.2.3.4" := by
  decide +kernel

end Kindred.Net
