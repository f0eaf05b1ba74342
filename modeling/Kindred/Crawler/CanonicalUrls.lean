import Mathlib.Data.List.DropRight
import Mathlib.Data.List.Infix
import Mathlib.Data.List.Sublists

/-! The text under which the crawler files a URL. -/

namespace Kindred.Crawler

/-- The parts of an `http:` or `https:` URL; the segments of its path are percent-encoded. -/
structure Url where
  protocol : String
  username : String := ""
  password : String := ""
  hostname : String
  port : String := ""
  path : List (List Char)
  search : Option String := none
  hash : Option String := none
  deriving DecidableEq

/-- `new URL` and `toString`, what `searchParams` makes of a query and of pairs, and the
percent-encoding of a path. `isUrl`: the http(s) URLs that there are. -/
structure UrlParser where
  parse : (raw : String) → (base : Option String) → Option Url
  toText : Url → String
  decode : String → List (String × String)
  encode : List (String × String) → String
  percentEncode : List Char → List Char
  isUrl : Url → Prop

def lowered (s : String) : String := s.map Char.toLower

/-- `TRACKING_PARAM_PATTERNS` -/
def isTracking (key : String) : Bool :=
  let k := lowered key
  ["utm_", "mc_", "_hs", "hsa_"].any (fun start => k.startsWith start) ||
    ["fbclid", "gclid", "ref", "ref_src", "yclid", "msclkid", "igshid"].contains k

/-- `PRIVATE_HOST_PATTERNS`, of a host in lower case -/
def isPrivateHost (host : String) : Bool :=
  let uniqueLocal (start : String) : Bool := host.startsWith start &&
    ((host.toList.drop 2).take 2).all (fun c => c.isDigit || ('a' ≤ c && c ≤ 'f')) &&
    [':', ':'].isPrefixOf (host.toList.drop 4)
  ["localhost", "0.0.0.0", "::1"].contains host ||
    ["127.", "10.", "192.168.", "169.254."].any (fun start => host.startsWith start) ||
    ((List.range 16).any fun n => host.startsWith ("172." ++ toString (n + 16) ++ ".")) ||
    uniqueLocal "fc" || uniqueLocal "fd"

def isSlash (c : Char) : Bool := c = '/' || c = '\\'

def isSingleDot (s : List Char) : Bool :=
  [".".toList, "%2e".toList].contains (s.map Char.toLower)

def isDoubleDot (s : List Char) : Bool :=
  ["..".toList, ".%2e".toList, "%2e.".toList, "%2e%2e".toList].contains (s.map Char.toLower)

/-- `pathname` -/
def pathText (path : List (List Char)) : List Char := path.flatMap fun s => '/' :: s

section Canonical
variable (w : UrlParser)

def buildPath : (path pieces : List (List Char)) → List (List Char)
  | path, [] => path
  | path, s :: rest =>
    if isDoubleDot s then
      buildPath (if rest = [] then path.dropLast ++ [[]] else path.dropLast) rest
    else if isSingleDot s then buildPath (if rest = [] then path ++ [[]] else path) rest
    else buildPath (path ++ [w.percentEncode s]) rest

/-- What the setter `pathname` makes of a text. -/
def setPathname (text : List Char) : List (List Char) :=
  let text := text.filter fun c => !(['\t', '\n', '\r'].contains c)
  buildPath w [] ((if text.head?.any isSlash then text.tail else text).splitOnP isSlash)

/-- The pairs of `searchParams` -/
def pairs (u : Url) : List (String × String) := (u.search.map w.decode).getD []

def keep (u : Url) : List (String × String) := (pairs w u).filter fun kv => !isTracking kv.1

def searchOf (kept : List (String × String)) : Option String :=
  if kept = [] then none else some (w.encode kept)

/-- What `canonicalize` makes of a URL that it accepts. -/
def canonicalUrl (u : Url) : Url :=
  let u := { u with hash := none, search := searchOf w (keep w u) }
  let pathname := pathText u.path
  if 1 < pathname.length ∧ pathname.getLast? = some '/' then
    { u with path := setPathname w (pathname.rdropWhile (· = '/')) }
  else u

/-- `allowLocal`: what the function of that name answers. -/
def canonicalize (allowLocal : Bool) (rawUrl : String) (baseUrl : Option String) :
    Except String String :=
  match w.parse rawUrl baseUrl with
  | none => .error "invalid_url"
  | some u =>
    if u.protocol ≠ "http:" ∧ u.protocol ≠ "https:" then .error "unsupported_protocol"
    else if u.hostname = "" then .error "invalid_host"
    else if isPrivateHost (lowered u.hostname) ∧ ¬allowLocal then .error "private_host_blocked"
    else if 8 < (keep w u).length then .error "query_spam"
    else if ¬((keep w u).map Prod.fst).Nodup then .error "query_repeated_param"
    else .ok (w.toText (canonicalUrl w u))

structure Plain (s : List Char) : Prop where
  unbroken : ∀ c ∈ s, !isSlash c && !(['\t', '\n', '\r'].contains c)
  noDots : isSingleDot s = false ∧ isDoubleDot s = false
  encoded : w.percentEncode s = s

/-- What the URL standard says of its parser. -/
structure Standard : Prop where
  parsed : ∀ raw base u, w.parse raw base = some u →
    u.protocol = "http:" ∨ u.protocol = "https:" → w.isUrl u
  reparsed : ∀ u, w.isUrl u → u.hash = none → w.parse (w.toText u) none = some u
  path : ∀ u, w.isUrl u → u.path ≠ [] ∧ ∀ s ∈ u.path, Plain w s
  empty : w.percentEncode [] = []
  decoded : ∀ u, w.isUrl u → ∀ kept, kept.Sublist (pairs w u) → w.decode (w.encode kept) = kept
  setHash : ∀ u, w.isUrl u → w.isUrl { u with hash := none }
  setSearch : ∀ u, w.isUrl u → ∀ kept, kept.Sublist (pairs w u) →
    w.isUrl { u with search := searchOf w kept }
  setPath : ∀ u path, w.isUrl u → path <+: u.path ∧ path ≠ [] ∨ path = [[]] →
    w.isUrl { u with path }

end Canonical

def trimPath (path : List (List Char)) : List (List Char) := path.rdropWhile (· = [])

/-- The URLs differ in fragment, tracking parameters and slashes at the end of the path only. -/
structure SamePage (w : UrlParser) (u v : Url) : Prop where
  protocol : u.protocol = v.protocol
  username : u.username = v.username
  password : u.password = v.password
  hostname : u.hostname = v.hostname
  port : u.port = v.port
  path : trimPath u.path = trimPath v.path
  query : keep w u = keep w v

variable {path : List (List Char)}

section Proofs
variable {w : UrlParser} {u v : Url}

theorem SamePage.symm (h : SamePage w u v) : SamePage w v u :=
  ⟨h.1.symm, h.2.symm, h.3.symm, h.4.symm, h.5.symm, h.6.symm, h.7.symm⟩

theorem SamePage.trans {x : Url} (h : SamePage w u v) (h' : SamePage w v x) : SamePage w u x :=
  ⟨h.1.trans h'.1, h.2.trans h'.2, h.3.trans h'.3, h.4.trans h'.4, h.5.trans h'.5,
    h.6.trans h'.6, h.7.trans h'.7⟩

/-- A path is not empty. -/
def settled (path : List (List Char)) : List (List Char) := if path = [] then [[]] else path

theorem pathText_append (path : List (List Char)) (s : List Char) :
    pathText (path ++ [s]) = pathText path ++ '/' :: s := by
  simp [pathText]

theorem rdropWhile_pathText (h : ∀ s ∈ path, '/' ∉ s) :
    (pathText path).rdropWhile (· = '/') = pathText (trimPath path) := by
  unfold trimPath
  induction path using List.reverseRecOn with
  | nil => rfl
  | append_singleton path s ih =>
    rw [pathText_append]
    obtain rfl | ⟨s, c, rfl⟩ := s.eq_nil_or_concat'
    · rw [List.rdropWhile_concat_pos _ _ _ (by decide),
        List.rdropWhile_concat_pos _ _ _ (by decide)]
      exact ih fun t ht => h t (List.mem_append_left _ ht)
    · have hc : c ≠ '/' := by
        rintro rfl
        exact h (s ++ ['/']) (by simp) (by simp)
      rw [List.rdropWhile_concat_neg _ _ (s ++ [c]) (by simp), pathText_append, ← List.cons_append,
        ← List.append_assoc, List.rdropWhile_concat_neg _ _ c (by simpa using hc)]

theorem splitOnP_pathText {s : List Char} (hs : ∀ c ∈ s, isSlash c = false)
    (h : ∀ t ∈ path, ∀ c ∈ t, isSlash c = false) :
    (s ++ pathText path).splitOnP isSlash = s :: path := by
  induction path generalizing s with
  | nil => exact (List.append_nil s).symm ▸ List.splitOnP_eq_singleton hs
  | cons t path ih =>
    rw [pathText, List.flatMap_cons, List.cons_append,
      List.splitOnP_append_cons_of_forall_mem hs '/' (by decide)]
    have hrest := ih (h t List.mem_cons_self) fun t ht => h t (List.mem_cons_of_mem _ ht)
    exact congrArg (s :: ·) hrest

theorem buildPath_plain {pieces : List (List Char)} (h : ∀ s ∈ pieces, Plain w s) :
    buildPath w path pieces = path ++ pieces := by
  induction pieces generalizing path with
  | nil => exact (List.append_nil path).symm
  | cons s rest ih =>
    have hs := h s List.mem_cons_self
    rw [buildPath, hs.noDots.2, hs.noDots.1, if_neg Bool.false_ne_true, if_neg Bool.false_ne_true,
      hs.encoded, ih fun t ht => h t (List.mem_cons_of_mem _ ht), List.append_assoc]
    rfl

theorem setPathname_pathText (hempty : w.percentEncode [] = []) (h : ∀ s ∈ path, Plain w s)
    : setPathname w (pathText path) = settled path := by
  have hfilter : (pathText path).filter (fun c => !(['\t', '\n', '\r'].contains c)) =
      pathText path := by
    refine List.filter_eq_self.mpr fun c hc => ?_
    obtain ⟨s, hs, hc⟩ := List.mem_flatMap.mp hc
    obtain rfl | hc := List.mem_cons.mp hc
    · decide
    · exact (Bool.and_eq_true_iff.mp ((h s hs).unbroken c hc)).2
  have hslash : ∀ s ∈ path, ∀ c ∈ s, isSlash c = false := fun s hs c hc => by
    simpa using (Bool.and_eq_true_iff.mp ((h s hs).unbroken c hc)).1
  unfold setPathname
  rw [hfilter]
  dsimp only
  cases path with
  | nil =>
    have hnone : (isDoubleDot [] = false) ∧ isSingleDot [] = false := by decide
    simp [pathText, settled, buildPath, hempty, hnone]
  | cons s path =>
    have hhead : (pathText (s :: path)).head?.any isSlash = true := by
      simp [pathText, isSlash]
    rw [if_pos hhead, pathText, List.flatMap_cons, List.cons_append, List.tail_cons]
    rw [show s ++ path.flatMap _ = s ++ pathText path from rfl,
      splitOnP_pathText (hslash s List.mem_cons_self) fun t ht =>
        hslash t (List.mem_cons_of_mem _ ht),
      buildPath_plain h, settled, if_neg (by simp)]
    rfl

/-- The setter is called just where slashes are at the end. -/
theorem canonicalUrl_eq (h : Standard w) (hu : w.isUrl u) : canonicalUrl w u = { u with
        hash := none, search := searchOf w (keep w u), path := settled (trimPath u.path) } := by
  obtain ⟨hne, hplain⟩ := h.path u hu
  have hslash : ∀ s ∈ u.path, '/' ∉ s := fun s hs hmem => by
    have hc := (hplain s hs).unbroken '/' hmem
    simp [isSlash] at hc
  have hsettled : (if 1 < (pathText u.path).length ∧ (pathText u.path).getLast? = some '/' then
      setPathname w ((pathText u.path).rdropWhile (· = '/')) else u.path) =
        settled (trimPath u.path) := by
    split
    · rw [rdropWhile_pathText hslash]
      exact setPathname_pathText h.empty fun s hs =>
        hplain s ((List.rdropWhile_prefix _ _).subset hs)
    · rename_i hnot
      obtain ⟨path, s, hpath⟩ := (List.eq_nil_or_concat' u.path).resolve_left hne
      rw [hpath] at hnot ⊢
      rw [trimPath, List.rdropWhile_concat]
      split
      · rename_i hs
        have hs : s = [] := of_decide_eq_true hs
        rw [hs, pathText_append, List.length_append, List.getLast?_concat] at hnot
        -- the text is `/` alone
        cases path with
        | nil =>
          rw [hs]
          rfl
        | cons t path =>
          refine absurd ⟨?_, rfl⟩ hnot
          rw [pathText, List.flatMap_cons, List.length_append, List.length_cons, List.length_cons]
          omega
      · exact (if_neg (by simp)).symm
  unfold canonicalUrl
  dsimp only
  rw [← hsettled]
  split <;> rfl

theorem pairs_canonicalUrl (h : Standard w) (hu : w.isUrl u) :
    keep w (canonicalUrl w u) = keep w u := by
  have hpairs : pairs w (canonicalUrl w u) = keep w u := by
    rw [canonicalUrl_eq h hu]
    unfold pairs searchOf
    split
    · rename_i hnone
      exact hnone.symm
    · exact h.decoded u hu _ List.filter_sublist
  unfold keep at hpairs ⊢
  rw [hpairs, List.filter_filter]
  simp only [Bool.and_self]

theorem trimPath_settled (path : List (List Char)) :
    trimPath (settled (trimPath path)) = trimPath path := by
  unfold settled
  split
  · rename_i hnone
    rw [hnone]
    rfl
  · exact List.rdropWhile_idempotent _ _

theorem samePage_canonicalUrl (h : Standard w) (hu : w.isUrl u) :
    SamePage w (canonicalUrl w u) u := by
  have hkeep := pairs_canonicalUrl h hu
  rw [canonicalUrl_eq h hu] at hkeep ⊢
  exact ⟨rfl, rfl, rfl, rfl, rfl, trimPath_settled u.path, hkeep⟩

theorem isUrl_canonicalUrl (h : Standard w) (hu : w.isUrl u) : w.isUrl (canonicalUrl w u) := by
  rw [canonicalUrl_eq h hu]
  have hsearch := h.setSearch _ (h.setHash u hu) (keep w u) List.filter_sublist
  refine h.setPath _ (settled (trimPath u.path)) hsearch ?_
  unfold settled
  split
  · exact .inr rfl
  · rename_i hne
    exact .inl ⟨List.rdropWhile_prefix _ _, hne⟩

theorem SamePage.canonicalUrl (h : Standard w) (hu : w.isUrl u) (hv : w.isUrl v)
    (hsame : SamePage w u v) : Crawler.canonicalUrl w u = Crawler.canonicalUrl w v := by
  rw [canonicalUrl_eq h hu, canonicalUrl_eq h hv]
  simp only [hsame.protocol, hsame.username, hsame.password, hsame.hostname, hsame.port, hsame.path,
    hsame.query]

theorem SamePage.canonicalize (h : Standard w) {raw raw' : String} {base base' : Option String}
    (hsame : SamePage w u v) (hu : w.parse raw base = some u) (hv : w.parse raw' base' = some v)
    (allowLocal : Bool) :
    Crawler.canonicalize w allowLocal raw base = Crawler.canonicalize w allowLocal raw' base' := by
  unfold Crawler.canonicalize
  rw [hu, hv]
  dsimp only
  rw [hsame.protocol, hsame.hostname, hsame.query]
  by_cases hhttp : v.protocol ≠ "http:" ∧ v.protocol ≠ "https:"
  · rw [if_pos hhttp, if_pos hhttp]
  · have hhttp' : v.protocol = "http:" ∨ v.protocol = "https:" := by
      rw [not_and_or, not_not, not_not] at hhttp
      exact hhttp
    rw [hsame.canonicalUrl h (h.parsed raw base u hu (hsame.protocol ▸ hhttp'))
      (h.parsed raw' base' v hv hhttp')]

theorem canonicalize_ok {allowLocal : Bool} {raw t : String} {base : Option String}
    (h : Standard w) (hok : canonicalize w allowLocal raw base = .ok t) :
    ∃ u, w.parse raw base = some u ∧ w.isUrl u ∧ t = w.toText (canonicalUrl w u) ∧
      w.parse t none = some (canonicalUrl w u) := by
  unfold canonicalize at hok
  cases hparse : w.parse raw base with
  | none =>
    rw [hparse] at hok
    cases hok
  | some u =>
    rw [hparse] at hok
    dsimp only at hok
    split at hok
    · cases hok
    rename_i hhttp
    rw [not_and_or, not_not, not_not] at hhttp
    have hu := h.parsed raw base u hparse hhttp
    iterate 4
      split at hok
      · cases hok
    cases hok
    refine ⟨u, rfl, hu, rfl, h.reparsed _ (isUrl_canonicalUrl h hu) ?_⟩
    rw [canonicalUrl_eq h hu]

/-- A canonical text is its own; URLs that differ in fragment, tracking parameters and slashes at
the end of the path only are filed alike, and no others. -/
theorem canonicalize_pages (h : Standard w) (allowLocal : Bool) :
    (∀ raw base t, canonicalize w allowLocal raw base = .ok t →
      canonicalize w allowLocal t none = .ok t) ∧
    ∀ raw base u raw' base' u', w.parse raw base = some u → w.parse raw' base' = some u' →
      (SamePage w u u' →
        canonicalize w allowLocal raw base = canonicalize w allowLocal raw' base') ∧
      ∀ t, canonicalize w allowLocal raw base = .ok t →
        canonicalize w allowLocal raw' base' = .ok t → SamePage w u u' := by
  constructor
  · intro raw base t hok
    obtain ⟨u, hparse, hu, -, hagain⟩ := canonicalize_ok h hok
    exact ((samePage_canonicalUrl h hu).canonicalize h hagain hparse allowLocal).trans hok
  · intro raw base u raw' base' u' hparse hparse'
    refine ⟨fun hsame => hsame.canonicalize h hparse hparse' allowLocal, fun t hok hok' => ?_⟩
    obtain ⟨v, hv, hurl, -, hagain⟩ := canonicalize_ok h hok
    obtain ⟨v', hv', hurl', -, hagain'⟩ := canonicalize_ok h hok'
    cases hparse.symm.trans hv
    cases hparse'.symm.trans hv'
    have hcanonical := Option.some.inj (hagain.symm.trans hagain')
    have hsame := samePage_canonicalUrl h hurl
    rw [hcanonical] at hsame
    exact hsame.symm.trans (samePage_canonicalUrl h hurl')

end Proofs

def advertised : List Url :=
  [[['a'], []], [['a']], [[]]].flatMap fun path =>
    [some "utm_source=x", none].flatMap fun search =>
      [some "top", none].map fun hash =>
        { protocol := "http:", hostname := "example.com", path, search, hash }

def adText (u : Url) : String :=
  u.protocol ++ "//" ++ u.hostname ++ .ofList (pathText u.path) ++
    (u.search.map ("?" ++ ·)).getD "" ++ (u.hash.map ("#" ++ ·)).getD ""

def adParser : UrlParser where
  parse raw _ := advertised.find? fun u => adText u = raw
  toText := adText
  decode query := if query = "" then [] else [("utm_source", "x")]
  encode kept := if kept = [] then "" else "utm_source=x"
  percentEncode s := s
  isUrl u := u ∈ advertised

theorem adParser_standard : Standard adParser where
  parsed raw base u h _ := by
    have hfind : advertised.find? (fun u => adText u = raw) = some u := h
    exact List.mem_of_find?_eq_some hfind
  reparsed := by
    change ∀ u ∈ advertised, u.hash = none →
      advertised.find? (fun v => adText v = adText u) = some u
    decide +kernel
  path := by
    have hsegments : ∀ u ∈ advertised, u.path ≠ [] ∧ ∀ s ∈ u.path, s = ['a'] ∨ s = [] := by
      decide +kernel
    refine fun u hu => ⟨(hsegments u hu).1, fun s hs => ?_⟩
    obtain rfl | rfl := (hsegments u hu).2 s hs <;> exact ⟨List.all_eq_true.mp (by decide), by decide, rfl⟩
  empty := rfl
  decoded u hu kept hkept := by
    have hall : ∀ u ∈ advertised, ∀ kept ∈ (pairs adParser u).sublists,
        adParser.decode (adParser.encode kept) = kept := by
      decide +kernel
    exact hall u hu kept (List.mem_sublists.mpr hkept)
  setHash := by
    change ∀ u ∈ advertised, { u with hash := none } ∈ advertised
    decide +kernel
  setSearch u hu kept hkept := by
    have hall : ∀ u ∈ advertised, ∀ kept ∈ (pairs adParser u).sublists,
        { u with search := searchOf adParser kept } ∈ advertised := by
      decide +kernel
    exact hall u hu kept (List.mem_sublists.mpr hkept)
  setPath u path hu hpath := by
    have hall : ∀ u ∈ advertised, { u with path := [[]] } ∈ advertised ∧
        ∀ path ∈ u.path.inits, path ≠ [] → { u with path } ∈ advertised := by
      decide +kernel
    obtain ⟨hpre, hne⟩ | rfl := hpath
    · exact (hall u hu).2 path ((List.mem_inits _ _).mpr hpre) hne
    · exact (hall u hu).1

theorem advertised_canonical :
    canonicalize adParser false "http://example.com/a" none = .ok "http://example.com/a" :=
  (canonicalize_pages adParser_standard false).1 "http://example.com/a/?utm_source=x#top" none _
    (by decide +kernel)

end Kindred.Crawler
