import Kindred.Rest.Text

/-! The sitemaps that the SEO audit fetches, and how many. -/

namespace Kindred.Crawler
open Rest (trim)

def afterWord (word : String) (cs : List Char) : Option (List Char) :=
  if (cs.take word.length).map Char.toLower = word.toList then some (cs.drop word.length) else none

/-- `/<loc>\s*([^<\s][^<]*?)\s*<\/loc>/gi` at the head of a text. -/
def locAt (cs : List Char) : Option (String × List Char) := do
  let body ← afterWord "<loc>" cs
  let rest ← afterWord "</loc>" (body.dropWhile (· ≠ '<'))
  let text := trim (.ofList (body.takeWhile (· ≠ '<')))
  if text = "" then none else some (text, rest)

/-- The matches one after the other; `skip` characters belong to the last. -/
def locsFrom : ℕ → List Char → List String
  | _, [] => []
  | skip + 1, _ :: cs => locsFrom skip cs
  | 0, c :: cs =>
    match locAt (c :: cs) with
    | some (text, rest) => text :: locsFrom (cs.length - rest.length) cs
    | none => locsFrom 0 cs

def extractLocs (xml : String) : List String := locsFrom 0 xml.toList

def isWordChar (c : Char) : Bool := c.isAlphanum || c = '_'

/-- `/<name\b/i` -/
def hasTag (name xml : String) : Bool :=
  xml.toList.tails.any fun cs =>
    (afterWord ("<" ++ name) cs).any fun rest => rest.head?.all fun c => !isWordChar c

def isSitemapIndex (xml : String) : Bool := hasTag "sitemapindex" xml

inductive HopAnswer where
  | redirect (status : ℕ) (location : Option String)
  | failed (status : Option ℕ) (error : String)
  | page (status : ℕ) (html : String)

/-- The URL parser and the site. `barred` is what ends a hop before its request other than
`isUrlAllowed`; what it and the site say may change with each fetch and hop. -/
structure Web where
  resolve : (raw base : String) → Option String
  href : String → Option String
  hostname : String → Option String
  barred : (fetch hop : ℕ) → (url : String) → Option String
  answer : (fetch hop : ℕ) → (url : String) → HopAnswer

/-- The arguments, with `new URL(canonicalUrl)` as its text and its origin. -/
structure DiscoverSitemapsArgs where
  canonicalHost : String
  root : String
  origin : String
  robotsDeclaredSitemaps : List String

structure SeoFetchResult where
  ok : Bool := false
  html : Option String := none
  status : Option ℕ := none
  error : Option String := none

def MAX_SITEMAPS : ℕ := 20

def MAX_URLS_PER_SITEMAP : ℕ := 20000

def DEFAULT_MAX_REDIRECTS : ℕ := 5

def normalizeHost (h : String) : String :=
  let h := Rest.lower h
  if h.startsWith "www." then (h.drop 4).toString else h

section Fetching
variable (w : Web) (args : DiscoverSitemapsArgs)

def isSameDomain (targetUrl rootHost : String) : Bool :=
  (w.hostname targetUrl).any fun h => normalizeHost h = normalizeHost rootHost

/-- `assertHopAllowed` with the option `isUrlAllowed` -/
def isUrlAllowed (url : String) : Bool :=
  (w.href url).any fun text => isSameDomain w text args.canonicalHost

/-- `seoFetch` from a hop on, with the URLs that it sends a request to. -/
def seoFetchFrom (fetch : ℕ) : ℕ → ℕ → String → SeoFetchResult × List String
  | left, hop, url =>
    match w.barred fetch hop url with
    | some error => ({ error := some error }, [])
    | none =>
      if !isUrlAllowed w args url then
        ({ error := some (if hop = 0 then "blocked_host" else "redirect_blocked") }, [])
      else
        match w.answer fetch hop url, left with
        | .page status html, _ => ({ ok := true, html := some html, status := some status }, [url])
        | .failed status error, _ => ({ status, error := some error }, [url])
        | .redirect .., 0 => ({ error := some "too_many_redirects" }, [url])
        | .redirect status location, left + 1 =>
          match location.filter (· ≠ "") with
          | none => ({ status := some status, error := some "redirect_blocked" }, [url])
          | some location =>
            match w.resolve location url with
            | none => ({ error := some "redirect_blocked" }, [url])
            | some next =>
              let r := seoFetchFrom fetch left (hop + 1) next
              (r.1, url :: r.2)

def seoFetch (fetch : ℕ) (url : String) : SeoFetchResult × List String :=
  seoFetchFrom w args fetch DEFAULT_MAX_REDIRECTS 0 url

inductive SitemapDiscoveredVia where
  | robots | defaultPath | sitemapIndex
  deriving DecidableEq

inductive SitemapStatus where
  | valid | invalid | unreachable

structure SitemapResult where
  url : String
  discoveredVia : SitemapDiscoveredVia
  status : SitemapStatus
  httpStatus : Option ℕ
  urlCount : ℕ
  errorMessage : Option String
  urls : List String

structure Candidate where
  url : String
  via : SitemapDiscoveredVia
  level : ℕ := 0
  deriving DecidableEq

/-- `res.html`, where the fetch went well and it is not empty. -/
def SeoFetchResult.document (res : SeoFetchResult) : Option String :=
  if res.ok then res.html.filter (· ≠ "") else none

def childUrls (html : String) : List String :=
  (extractLocs html).filter fun u => isSameDomain w u args.canonicalHost

def sitemapResult (url : String) (via : SitemapDiscoveredVia) (res : SeoFetchResult) :
    SitemapResult :=
  match res.document with
  | none => {
      url, discoveredVia := via, status := .unreachable, httpStatus := res.status, urlCount := 0
      errorMessage := some (res.error.getD "fetch_failed"), urls := [] }
  | some html =>
    if !hasTag "urlset" html && !hasTag "sitemapindex" html then {
      url, discoveredVia := via, status := .invalid, httpStatus := res.status, urlCount := 0
      errorMessage := some "not_a_sitemap", urls := [] }
    else if isSitemapIndex html then {
      url, discoveredVia := via, status := .valid, httpStatus := some (res.status.getD 200)
      urlCount := (childUrls w args html).length, errorMessage := none, urls := [] }
    else
      let urls := (extractLocs html).take MAX_URLS_PER_SITEMAP
      { url, discoveredVia := via, status := .valid, httpStatus := some (res.status.getD 200)
        urlCount := urls.length, errorMessage := none, urls }

def children (c : Candidate) (res : SeoFetchResult) : List Candidate :=
  match res.document with
  | none => []
  | some html =>
    if isSitemapIndex html then
      ((childUrls w args html).filterMap fun child => w.resolve child args.root).map fun url =>
        { url, via := .sitemapIndex, level := c.level + 1 }
    else []

structure Visit where
  candidate : Candidate
  result : SitemapResult
  requests : List String

def visit (fetch : ℕ) (c : Candidate) : Visit :=
  let r := seoFetch w args fetch c.url
  { candidate := c, result := sitemapResult w args c.url c.via r.1, requests := r.2 }

/-- The loop over sitemaps, while fewer than `MAX_SITEMAPS` have been fetched. -/
def fetchEach (fetchOne : Candidate → ℕ → Option (List Visit)) :
    List Candidate → ℕ → Option (List Visit)
  | [], _ => some []
  | c :: cs, alreadyFetched =>
    if MAX_SITEMAPS ≤ alreadyFetched then some []
    else do
      let fetched ← fetchOne c alreadyFetched
      let rest ← fetchEach fetchOne cs (alreadyFetched + fetched.length)
      return fetched ++ rest

def fetchOneSitemap : ℕ → Candidate → ℕ → Option (List Visit)
  | 0, _, _ => none
  | calls + 1, c, alreadyFetched => do
    let res := (seoFetch w args alreadyFetched c.url).1
    let rest ← fetchEach (fetchOneSitemap calls) (children w args c res) (alreadyFetched + 1)
    return visit w args alreadyFetched c :: rest

def pushCandidate (candidates : List Candidate) (raw : String) (via : SitemapDiscoveredVia) :
    List Candidate :=
  match w.resolve raw args.root with
  | none => candidates
  | some abs =>
    if !isSameDomain w abs args.canonicalHost then candidates
    else if candidates.any (·.url = abs) then candidates
    else candidates ++ [{ url := abs, via }]

def candidates : List Candidate :=
  pushCandidate w args
    (args.robotsDeclaredSitemaps.foldl (fun cs raw => pushCandidate w args cs raw .robots) [])
    (args.origin ++ "/sitemap.xml") .defaultPath

def discoverAndFetchSitemaps (calls : ℕ) : Option (List Visit) :=
  fetchEach (fetchOneSitemap w args calls) (candidates w args) 0

/-- The sitemaps that the one fetched as the `n`-th leads to. -/
def found (n : ℕ) (c : Candidate) : List Candidate :=
  children w args c (seoFetch w args n c.url).1

/-- `left` fetches from the `n`-th on, what an index leads to before what was there. -/
def walk : (left n : ℕ) → List Candidate → List Visit
  | 0, _, _ => []
  | _ + 1, _, [] => []
  | left + 1, n, c :: cs => visit w args n c :: walk left (n + 1) (found w args n c ++ cs)

def shallowWalk : (left n : ℕ) → List Candidate → List Candidate
  | 0, _, _ => []
  | _ + 1, _, [] => []
  | left + 1, n, c :: cs =>
    c :: shallowWalk left (n + 1) (if c.level = 0 then found w args n c ++ cs else cs)

/-- Following the first indexes only, no sitemap comes twice, and none that an index led to, but for
the last one that is allowed, is an index that leads further. -/
def SimpleSite : Prop :=
  let plan := shallowWalk w args MAX_SITEMAPS 0 (candidates w args)
  (plan.map Candidate.url).Nodup ∧
    ∀ i c, plan[i]? = some c → c.level ≠ 0 → i + 1 < MAX_SITEMAPS → found w args i c = []

end Fetching

variable {n calls left : ℕ} {c : Candidate} {cs : List Candidate}

section Proofs
variable {w : Web} {args : DiscoverSitemapsArgs}

theorem walk_nil (left n : ℕ) : walk w args left n [] = [] := by cases left <;> rfl

theorem level_found {d : Candidate} (hd : d ∈ found w args n c) : d.level = c.level + 1 := by
  unfold found children at hd
  split at hd
  · cases hd
  split at hd
  · obtain ⟨url, -, rfl⟩ := List.mem_map.mp hd
    rfl
  · cases hd

def Stretch (w : Web) (args : DiscoverSitemapsArgs) (n : ℕ) (cs : List Candidate)
    (vs : List Visit) : Prop :=
  n + vs.length ≤ MAX_SITEMAPS ∧ ∀ rest, walk w args (MAX_SITEMAPS - n) n (cs ++ rest) =
    vs ++ walk w args (MAX_SITEMAPS - (n + vs.length)) (n + vs.length) rest

theorem fetchEach_stretch {fetchOne : Candidate → ℕ → Option (List Visit)} (hn : n ≤ MAX_SITEMAPS)
    (hone : ∀ c m, n ≤ m → m < MAX_SITEMAPS →
      ∃ vs, fetchOne c m = some vs ∧ Stretch w args m [c] vs) :
    ∃ vs, fetchEach fetchOne cs n = some vs ∧ Stretch w args n cs vs := by
  induction cs generalizing n with
  | nil => exact ⟨[], rfl, hn, fun _ => rfl⟩
  | cons c cs ih =>
    obtain hlt | hfull := Nat.lt_or_ge n MAX_SITEMAPS
    · obtain ⟨vs, hvs, hle, hwalk⟩ := hone c n (Nat.le_refl n) hlt
      obtain ⟨us, hus, hle', hwalk'⟩ := ih hle fun d m hm => hone d m (by omega)
      refine ⟨vs ++ us, ?_, ?_, fun rest => ?_⟩
      · rw [fetchEach, if_neg (by omega), hvs]
        change (fetchEach fetchOne cs (n + vs.length)).bind _ = _
        rw [hus]
        rfl
      · rw [List.length_append]
        omega
      · rw [List.append_assoc, List.length_append, ← Nat.add_assoc, ← hwalk']
        exact hwalk (cs ++ rest)
    · refine ⟨[], by rw [fetchEach, if_pos hfull], hn, fun rest => ?_⟩
      rw [Nat.sub_eq_zero_of_le hfull, List.length_nil, Nat.add_zero, Nat.sub_eq_zero_of_le hfull]
      rfl

/-- By induction on the calls within each other: each has fetched one sitemap more than the call
that it is made from. -/
theorem fetchOneSitemap_stretch (hn : n < MAX_SITEMAPS) (hcalls : MAX_SITEMAPS - n ≤ calls) :
    ∃ vs, fetchOneSitemap w args calls c n = some vs ∧ Stretch w args n [c] vs := by
  induction calls generalizing n c with
  | zero => omega
  | succ calls ih =>
    obtain ⟨vs, hvs, hle, hwalk⟩ : ∃ vs, fetchEach (fetchOneSitemap w args calls)
        (found w args n c) (n + 1) = some vs ∧ Stretch w args (n + 1) (found w args n c) vs :=
      fetchEach_stretch hn fun d m hm hlt => ih hlt (by omega)
    refine ⟨visit w args n c :: vs, ?_, ?_, fun rest => ?_⟩
    · change (fetchEach (fetchOneSitemap w args calls) (found w args n c) (n + 1)).bind _ = _
      rw [hvs]
      rfl
    · rw [List.length_cons]
      omega
    · obtain ⟨left, hleft⟩ : ∃ left, MAX_SITEMAPS - n = left + 1 := ⟨MAX_SITEMAPS - n - 1, by omega⟩
      have hnext : left = MAX_SITEMAPS - (n + 1) := by omega
      rw [hleft, List.cons_append, List.nil_append, walk, hnext, hwalk rest, List.length_cons,
        Nat.add_right_comm n 1, Nat.add_assoc n]
      rfl

theorem discoverAndFetchSitemaps_eq_walk (hcalls : MAX_SITEMAPS ≤ calls) :
    discoverAndFetchSitemaps w args calls = some (walk w args MAX_SITEMAPS 0 (candidates w args)) ∧
      (walk w args MAX_SITEMAPS 0 (candidates w args)).length ≤ MAX_SITEMAPS := by
  obtain ⟨vs, hvs, hle, hwalk⟩ : ∃ vs, discoverAndFetchSitemaps w args calls = some vs ∧
      Stretch w args 0 (candidates w args) vs :=
    fetchEach_stretch (Nat.zero_le _) fun c m _ hlt => fetchOneSitemap_stretch hlt (by omega)
  have heq := hwalk []
  rw [List.append_nil, walk_nil, List.append_nil] at heq
  rw [Nat.sub_zero] at heq
  rw [heq]
  exact ⟨hvs, by omega⟩

theorem forall_getElem?_cons {α : Type} {P : ℕ → α → Prop} {a : α} {l : List α} :
    (∀ i b, (a :: l)[i]? = some b → P i b) ↔ P 0 a ∧ ∀ i b, l[i]? = some b → P (i + 1) b := by
  constructor
  · intro h
    exact ⟨h 0 a rfl, fun i b hb => h (i + 1) b hb⟩
  · rintro ⟨h0, h⟩ i b hb
    cases i with
    | zero => exact Option.some.inj hb ▸ h0
    | succ i => exact h i b hb

def Shallow (w : Web) (args : DiscoverSitemapsArgs) (left n : ℕ) (cs : List Candidate) : Prop :=
  ∀ v ∈ walk w args left n cs, v.candidate.level ≤ 1

theorem shallow_iff (hcs : ∀ c ∈ cs, c.level ≤ 1) : Shallow w args left n cs ↔
      ∀ i c, (shallowWalk w args left n cs)[i]? = some c →
        c.level ≠ 0 → i + 1 < left → found w args (n + i) c = [] := by
  induction left generalizing n cs with
  | zero => simp [Shallow, walk, shallowWalk]
  | succ left ih =>
    cases cs with
    | nil => simp [Shallow, walk, shallowWalk]
    | cons c cs =>
      obtain ⟨hc, hcs⟩ := List.forall_mem_cons.mp hcs
      have hhead : Shallow w args (left + 1) n (c :: cs) ↔
          Shallow w args left (n + 1) (found w args n c ++ cs) := by
        unfold Shallow
        rw [walk, List.forall_mem_cons]
        exact and_iff_right hc
      have hshift (i : ℕ) : n + 1 + i = n + (i + 1) := by omega
      rw [hhead, shallowWalk, forall_getElem?_cons]
      by_cases hlevel : c.level = 0
      · have hfound : ∀ d ∈ found w args n c ++ cs, d.level ≤ 1 := by
          intro d hd
          obtain hd | hd := List.mem_append.mp hd
          · have heq := level_found hd
            omega
          · exact hcs d hd
        rw [if_pos hlevel, ih hfound, and_iff_right (fun h => absurd hlevel h)]
        simp only [Nat.add_lt_add_iff_right, hshift]
      · rw [if_neg hlevel]
        cases left with
        | zero => simp [Shallow, walk]
        | succ left =>
          cases hfound : found w args n c with
          | nil =>
            rw [List.nil_append, ih hcs, and_iff_right (fun _ _ => rfl)]
            simp only [Nat.add_lt_add_iff_right, hshift]
          | cons d ds =>
            -- what is found below a sitemap that was found itself is fetched next
            have hd : d.level = c.level + 1 := level_found (hfound ▸ List.mem_cons_self)
            constructor
            · intro h
              have hle : d.level ≤ 1 := h _ List.mem_cons_self
              omega
            · rintro ⟨h, -⟩
              exact absurd (h hlevel (by omega)) nofun

theorem Shallow.map_candidate (hcs : ∀ c ∈ cs, c.level ≤ 1) (h : Shallow w args left n cs) :
    (walk w args left n cs).map Visit.candidate = shallowWalk w args left n cs := by
  induction left generalizing n cs with
  | zero => rfl
  | succ left ih =>
    cases cs with
    | nil => rfl
    | cons c cs =>
      obtain ⟨hc, hcs⟩ := List.forall_mem_cons.mp hcs
      have hrest : Shallow w args left (n + 1) (found w args n c ++ cs) :=
        fun v hv => h v (List.mem_cons_of_mem _ hv)
      rw [walk, shallowWalk, List.map_cons]
      refine congrArg (List.cons c) ?_
      by_cases hlevel : c.level = 0
      · rw [if_pos hlevel]
        refine ih (fun d hd => ?_) hrest
        obtain hd | hd := List.mem_append.mp hd
        · have heq := level_found hd
          omega
        · exact hcs d hd
      · rw [if_neg hlevel]
        cases left with
        | zero => rfl
        | succ left =>
          cases hfound : found w args n c with
          | nil =>
            rw [hfound] at hrest
            exact ih hcs hrest
          | cons d ds =>
            have hd : d.level = c.level + 1 := level_found (hfound ▸ List.mem_cons_self)
            rw [hfound] at hrest
            have hle : d.level ≤ 1 := hrest _ List.mem_cons_self
            omega

theorem seoFetchFrom_allowed {fetch hop : ℕ} {url next : String}
    (h : next ∈ (seoFetchFrom w args fetch left hop url).2) : isUrlAllowed w args next := by
  induction left generalizing hop url with
  | zero =>
    unfold seoFetchFrom at h
    split at h
    · cases h
    split at h
    · cases h
    rename_i hallowed
    rw [Bool.not_eq_true, Bool.not_eq_false'] at hallowed
    cases hanswer : w.answer fetch hop url <;> rw [hanswer] at h <;>
      exact List.mem_singleton.mp h ▸ hallowed
  | succ left ih =>
    unfold seoFetchFrom at h
    split at h
    · cases h
    split at h
    · cases h
    rename_i hallowed
    rw [Bool.not_eq_true, Bool.not_eq_false'] at hallowed
    cases hanswer : w.answer fetch hop url with
    | page => exact List.mem_singleton.mp (hanswer ▸ h) ▸ hallowed
    | failed => exact List.mem_singleton.mp (hanswer ▸ h) ▸ hallowed
    | redirect status location =>
      rw [hanswer] at h
      dsimp only at h
      split at h
      · exact List.mem_singleton.mp h ▸ hallowed
      split at h
      · exact List.mem_singleton.mp h ▸ hallowed
      -- the hop after it, or one that follows
      obtain rfl | hnext := List.mem_cons.mp h
      · exact hallowed
      · exact ih hnext

theorem mem_walk {v : Visit} (hv : v ∈ walk w args left n cs) : ∃ m c, v = visit w args m c := by
  induction left generalizing n cs with
  | zero => cases hv
  | succ left ih =>
    cases cs with
    | nil => cases hv
    | cons c cs =>
      obtain rfl | hv := List.mem_cons.mp hv
      · exact ⟨n, c, rfl⟩
      · exact ih hv

theorem pushCandidate_level {raw : String} {via : SitemapDiscoveredVia}
    (hcs : ∀ c ∈ cs, c.level = 0) : ∀ c ∈ pushCandidate w args cs raw via, c.level = 0 := by
  unfold pushCandidate
  split
  · exact hcs
  split
  · exact hcs
  split
  · exact hcs
  · intro c hc
    obtain hc | hc := List.mem_append.mp hc
    · exact hcs c hc
    · exact List.mem_singleton.mp hc ▸ rfl

theorem candidates_level (hc : c ∈ candidates w args) : c.level = 0 := by
  refine pushCandidate_level ?_ c hc
  have hdeclared (raws : List String) (cs : List Candidate) (hcs : ∀ c ∈ cs, c.level = 0) :
      ∀ c ∈ raws.foldl (fun cs raw => pushCandidate w args cs raw .robots) cs, c.level = 0 := by
    induction raws generalizing cs with
    | nil => exact hcs
    | cons raw raws ih => exact ih _ (pushCandidate_level hcs)
  exact hdeclared _ _ nofun

/-- At most `MAX_SITEMAPS` sitemaps are fetched, and no request leaves the host. None is fetched
twice and an index is followed one level only just where the site is simple. -/
theorem sitemapDiscovery_bounded_iff (w : Web) (args : DiscoverSitemapsArgs) :
    ∃ visits,
      (∀ calls, MAX_SITEMAPS ≤ calls → discoverAndFetchSitemaps w args calls = some visits) ∧
      visits.length ≤ MAX_SITEMAPS ∧
      (∀ v ∈ visits, ∀ url ∈ v.requests, isUrlAllowed w args url) ∧
      ((visits.map fun v => v.candidate.url).Nodup ∧ (∀ v ∈ visits, v.candidate.level ≤ 1) ↔
        SimpleSite w args) := by
  have hlevel : ∀ c ∈ candidates w args, c.level ≤ 1 := fun c hc => by
    rw [candidates_level hc]
    exact Nat.zero_le 1
  refine ⟨walk w args MAX_SITEMAPS 0 (candidates w args),
    fun calls hcalls => (discoverAndFetchSitemaps_eq_walk hcalls).1,
    (discoverAndFetchSitemaps_eq_walk (Nat.le_refl _)).2, fun v hv url hurl => ?_, ?_⟩
  · obtain ⟨n, c, rfl⟩ := mem_walk hv
    exact seoFetchFrom_allowed hurl
  · have hshallow : Shallow w args MAX_SITEMAPS 0 (candidates w args) ↔ _ := shallow_iff hlevel
    have hurls (h : Shallow w args MAX_SITEMAPS 0 (candidates w args)) :
        (walk w args MAX_SITEMAPS 0 (candidates w args)).map (fun v => v.candidate.url) =
          (shallowWalk w args MAX_SITEMAPS 0 (candidates w args)).map Candidate.url := by
      rw [← h.map_candidate hlevel, List.map_map]
      rfl
    simp only [Nat.zero_add] at hshallow
    constructor
    · rintro ⟨hnodup, h⟩
      exact ⟨hurls h ▸ hnodup, hshallow.mp h⟩
    · rintro ⟨hnodup, h⟩
      exact ⟨(hurls (hshallow.mpr h)).symm ▸ hnodup, hshallow.mpr h⟩

end Proofs

def selfListing : Web where
  resolve raw _ := some raw
  href url := some url
  hostname _ := some "example.com"
  barred _ _ _ := none
  answer _ _ _ :=
    .page 200 "<sitemapindex><loc>https://example.com/sitemap.xml</loc></sitemapindex>"

def selfListingArgs : DiscoverSitemapsArgs where
  canonicalHost := "example.com"
  root := "https://example.com/"
  origin := "https://example.com"
  robotsDeclaredSitemaps := []

/-- It is fetched again and again, under 19 others. -/
theorem selfListing_fetched_again :
    ¬∃ visits, discoverAndFetchSitemaps selfListing selfListingArgs MAX_SITEMAPS = some visits ∧
      ((visits.map fun v => v.candidate.url).Nodup ∨ ∀ v ∈ visits, v.candidate.level ≤ 1) := by
  rintro ⟨visits, hvisits, h⟩
  have hboth : (discoverAndFetchSitemaps selfListing selfListingArgs MAX_SITEMAPS).all fun vs =>
      !decide (vs.map fun v => v.candidate.url).Nodup &&
        !decide (∀ v ∈ vs, v.candidate.level ≤ 1) := by
    decide +kernel
  rw [hvisits, Option.all_some, Bool.and_eq_true, Bool.not_eq_true', Bool.not_eq_true',
    decide_eq_false_iff_not, decide_eq_false_iff_not] at hboth
  exact h.elim hboth.1 hboth.2

end Kindred.Crawler
