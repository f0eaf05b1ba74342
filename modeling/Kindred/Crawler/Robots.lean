import Kindred.Rest.Text

/-! What a `robots.txt` forbids, and what the crawler reads in it. -/

namespace Kindred.Robots
open Rest (trim split lower includes)

inductive Line where
  | blank
  | noColon
  | userAgent (v : String)
  | allow (v : String)
  | disallow (v : String)
  | unknown

/-- `/#.*/`, where `.` is no line terminator. -/
def stripComment (raw : String) : String :=
  let (before, comment) := raw.toList.span (· ≠ '#')
  .ofList (before ++ comment.dropWhile fun c => c ∉ ['\r', '\u2028', '\u2029'])

/-- The `\r` before a line's end is among the blanks that `trim` takes off. -/
def readLine (toLowerCase : String → String) (raw : String) : Line :=
  let line := (trim (stripComment raw)).toList
  if line = [] then .blank
  else if ':' ∉ line then .noColon
  else
    let (k, v) := line.span (· ≠ ':')
    let v := trim (.ofList v.tail)
    let key := toLowerCase (trim (.ofList k))
    if key = "user-agent" then .userAgent (toLowerCase v)
    else if key = "allow" then .allow v
    else if key = "disallow" then .disallow v
    else .unknown

structure Rules where
  allow : List String := []
  disallow : List String := []

structure Group extends Rules where
  agents : List String := []

/-- The groups before `cur`, and `cur`. -/
def readOn : List Group × Option Group → Line → List Group × Option Group
  | (groups, cur), .noColon => (groups, cur)
  | (groups, none), .userAgent v => (groups, some { agents := [v] })
  | (groups, some g), .userAgent v => (groups, some { g with agents := g.agents ++ [v] })
  | (groups, some g), .allow v => (groups, some { g with allow := g.allow ++ [v] })
  | (groups, some g), .disallow v => (groups, some { g with disallow := g.disallow ++ [v] })
  | (groups, cur), _ => (groups ++ cur.toList, none)

def groupsOf (lines : List Line) : List Group :=
  let (groups, cur) := lines.foldl readOn ([], none)
  groups ++ cur.toList

/-- `a !== '*' && ua.includes(a)` -/
def specificTo (ua a : String) : Bool := a ≠ "*" && includes ua a

def pick (ua : String) (groups : List Group) : Rules :=
  match groups.find? fun g => g.agents.any (specificTo ua) with
  | some g => g.toRules
  | none =>
    match groups.find? fun g => g.agents.contains "*" with
    | some g => g.toRules
    | none => {}

def linesOf (toLowerCase : String → String) (body : String) : List Line :=
  (split '\n' body).map (readLine toLowerCase)

def parseRobotsInternal (toLowerCase : String → String) (body userAgent : String) : Rules :=
  if body = "" then {} else pick (toLowerCase userAgent) (groupsOf (linesOf toLowerCase body))

def startsWith (path rule : String) : Bool := rule.toList.isPrefixOf path.toList

def longer (path : String) (longest : Int) (rule : String) : Int :=
  if rule ≠ "" ∧ startsWith path rule ∧ longest < rule.length then rule.length else longest

/-- The longest of the rules that `path` starts with; −1 is no rule. -/
def best (path : String) (rules : List String) : Int := rules.foldl (longer path) (-1)

def isPathAllowedByRobots (path : String) (rules : Rules) : Bool :=
  if best path rules.disallow < 0 then true else best path rules.disallow ≤ best path rules.allow

def Line.agent? : Line → Option String
  | userAgent v => some v
  | blank | noColon | allow _ | disallow _ | unknown => none

def agentsOf (lines : List Line) : List String := lines.filterMap Line.agent?

/-- The rules of the groups that `named` one of their agents; `run` is whether the last line
of a group was an agent, `here` whether the group is one of them. -/
def rulesFor (named : String → Bool) : (run here : Bool) → List Line → Rules
  | _, _, [] => {}
  | run, here, .userAgent v :: ls => rulesFor named true ((run && here) || named v) ls
  | _, here, .allow v :: ls =>
    let rest := rulesFor named false here ls
    if here then { rest with allow := v :: rest.allow } else rest
  | _, here, .disallow v :: ls =>
    let rest := rulesFor named false here ls
    if here then { rest with disallow := v :: rest.disallow } else rest
  | run, here, _ :: ls => rulesFor named run here ls

def names (ua a : String) : Bool := a ≠ "" && specificTo ua a

/-- The rules of one agent: those of its own groups if it has any, else those for `*`. -/
def standardRules (ua : String) (lines : List Line) : Rules :=
  rulesFor (if (agentsOf lines).any (names ua) then names ua else (· = "*")) false false lines

/-- The longest match is a `Disallow`. -/
def Disallows (rules : Rules) (path : String) : Prop :=
  ∃ d ∈ rules.disallow, d ≠ "" ∧ d.toList <+: path.toList ∧
    ∀ a ∈ rules.allow, a.toList <+: path.toList → a.length < d.length

def Rules.Within (rules others : Rules) : Prop :=
  rules.allow ⊆ others.allow ∧ rules.disallow ⊆ others.disallow

def Obeys (toLowerCase : String → String) (body userAgent : String) : Prop :=
  let rules := parseRobotsInternal toLowerCase body userAgent
  let standard := standardRules (toLowerCase userAgent) (linesOf toLowerCase body)
  rules.Within standard ∧
    ∀ path, Disallows standard path → isPathAllowedByRobots path rules = false

def Line.ends : Line → Bool
  | blank | unknown => true
  | _ => false

def paragraphs (lines : List Line) : List (List Line) := lines.splitOnP Line.ends

def Line.allow? : Line → Option String
  | allow v => some v
  | blank | noColon | userAgent _ | disallow _ | unknown => none

def Line.disallow? : Line → Option String
  | disallow v => some v
  | blank | noColon | userAgent _ | allow _ | unknown => none

/-- The rules of a paragraph, from its first `User-agent` line on. -/
def paragraphRules (p : List Line) : Rules :=
  let lines := p.dropWhile fun l => l.agent?.isNone
  { allow := lines.filterMap Line.allow?, disallow := lines.filterMap Line.disallow? }

/-- Those of the first paragraph with a line for `ua`, else with one for `*`. -/
def firstParagraphRules (ua : String) (lines : List Line) : Rules :=
  let specific := (paragraphs lines).find? fun p => (agentsOf p).any (specificTo ua)
  let wildcard := (paragraphs lines).find? fun p => (agentsOf p).contains "*"
  ((specific.or wildcard).map paragraphRules).getD {}

/-- The paragraph has no other agent's rules, and disallows what the agent's groups have a
`Disallow` and no `Allow` for. -/
def OneParagraph (ua : String) (lines : List Line) : Prop :=
  let rules := firstParagraphRules ua lines
  let standard := standardRules ua lines
  rules.Within standard ∧
    ∀ d ∈ standard.disallow, d ≠ "" → d ∉ standard.allow → Disallows rules d

def Group.add (g : Group) (p : List Line) : Group where
  allow := g.allow ++ p.filterMap Line.allow?
  disallow := g.disallow ++ p.filterMap Line.disallow?
  agents := g.agents ++ agentsOf p

/-- What the lines of a paragraph make of `cur`. -/
def grow : Option Group → List Line → Option Group
  | some g, p => some (g.add p)
  | none, p =>
    match p.dropWhile fun l => l.agent?.isNone with
    | [] => none
    | l :: ls => some (Group.add {} (l :: ls))

variable {l : Line}

theorem readOn_ends (groups : List Group) (cur : Option Group) (h : l.ends = true) :
    readOn (groups, cur) l = (groups ++ cur.toList, none) := by
  cases l <;> cases cur <;> simp_all [Line.ends, readOn]

theorem readOn_goes (groups : List Group) (cur : Option Group) (h : l.ends = false) :
    ∃ next, readOn (groups, cur) l = (groups, next) ∧ ∀ p, grow next p = grow cur (l :: p) := by
  cases cur with
  | none =>
    cases l with
    | blank | unknown => cases h
    | userAgent v => exact ⟨_, rfl, fun _ => rfl⟩
    | noColon | allow v | disallow v =>
      refine ⟨none, by simp [readOn], fun p => ?_⟩
      simp only [grow, List.dropWhile_cons, Line.agent?, Option.isNone_none, if_true]
  | some g =>
    cases l with
    | blank | unknown => cases h
    | noColon => exact ⟨_, rfl, fun _ => rfl⟩
    | userAgent v | allow v | disallow v =>
      refine ⟨_, rfl, fun p => ?_⟩
      simp [grow, Group.add, agentsOf, List.filterMap_cons, Line.agent?, Line.allow?,
        Line.disallow?]

theorem grow_nil (cur : Option Group) : grow cur [] = cur := by
  cases cur <;> simp [grow, Group.add, agentsOf]

theorem foldl_readOn (lines : List Line) (groups : List Group) (cur : Option Group) :
    (lines.foldl readOn (groups, cur)).1 ++ (lines.foldl readOn (groups, cur)).2.toList =
      groups ++ match paragraphs lines with
        | p :: ps => (grow cur p).toList ++ ps.filterMap (grow none)
        | [] => [] := by
  induction lines generalizing groups cur with
  | nil => simp [paragraphs, grow_nil]
  | cons l lines ih =>
    obtain ⟨p, ps, hp⟩ := List.exists_cons_of_ne_nil (List.splitOnP_ne_nil Line.ends lines)
    simp only [paragraphs, List.splitOnP_cons_eq_if_modifyHead, List.foldl_cons, hp] at ih ⊢
    cases hl : l.ends with
    | true =>
      rw [readOn_ends groups cur hl, ih]
      cases hg : grow none p <;> simp [grow_nil, hg]
    | false =>
      obtain ⟨next, hnext, hgrow⟩ := readOn_goes groups cur hl
      rw [hnext, ih, hgrow]
      simp

theorem groupsOf_eq (lines : List Line) :
    groupsOf lines = (paragraphs lines).filterMap (grow none) := by
  have h := foldl_readOn lines [] none
  obtain ⟨p, ps, hp⟩ := List.exists_cons_of_ne_nil (List.splitOnP_ne_nil Line.ends lines)
  simp only [paragraphs, hp, List.nil_append] at h ⊢
  exact h.trans (by cases hg : grow none p <;> simp [hg])

theorem agentsOf_dropWhile (p : List Line) :
    agentsOf (p.dropWhile fun l => l.agent?.isNone) = agentsOf p := by
  induction p with
  | nil => rfl
  | cons l p ih =>
    unfold agentsOf at ih ⊢
    cases hl : l.agent? <;> simp [hl, ih]

theorem any_grow (p : List Line) (named : List String → Bool) (h : named [] = false) :
    (grow none p).any (fun g => named g.agents) = named (agentsOf p) := by
  rw [← agentsOf_dropWhile]
  cases hp : p.dropWhile fun l => l.agent?.isNone <;> simp [grow, hp, Group.add, agentsOf, h]

theorem rules_grow (p : List Line) (g : Group) (h : grow none p = some g) :
    g.toRules = paragraphRules p := by
  unfold grow at h
  cases hp : p.dropWhile fun l => l.agent?.isNone <;>
    simp only [hp, reduceCtorEq, Option.some.injEq] at h
  subst h
  simp [Group.add, paragraphRules, hp]

theorem find_groupsOf (lines : List Line) (named : List String → Bool) (h : named [] = false) :
    ((groupsOf lines).find? fun g => named g.agents).map Group.toRules =
      ((paragraphs lines).find? fun p => named (agentsOf p)).map paragraphRules := by
  rw [groupsOf_eq, List.find?_filterMap]
  simp only [any_grow _ named h]
  cases hp : (paragraphs lines).find? fun p => named (agentsOf p) with
  | none => rfl
  | some p =>
    have hnamed : named (agentsOf p) = true := by simpa using List.find?_some hp
    rw [← any_grow p named h] at hnamed
    obtain ⟨g, hg, -⟩ := Option.any_eq_true _ _ |>.mp hnamed
    simp [hg, rules_grow p g hg]

theorem pick_groupsOf (ua : String) (lines : List Line) :
    pick ua (groupsOf lines) = firstParagraphRules ua lines := by
  have hs := find_groupsOf lines (fun as => as.any (specificTo ua)) rfl
  have hw := find_groupsOf lines (fun as => as.contains "*") rfl
  unfold pick firstParagraphRules
  simp only [Option.map_or, ← hs, ← hw]
  cases (groupsOf lines).find? fun g => g.agents.any (specificTo ua) with
  | some g => rfl
  | none => cases (groupsOf lines).find? fun g => g.agents.contains "*" <;> rfl

theorem parseRobotsInternal_eq (toLowerCase : String → String) (body userAgent : String) :
    parseRobotsInternal toLowerCase body userAgent =
      firstParagraphRules (toLowerCase userAgent) (linesOf toLowerCase body) := by
  unfold parseRobotsInternal
  split
  · next h =>
    subst h
    rfl
  · exact pick_groupsOf _ _

theorem lt_foldl_longer (path : String) (rules : List String) (longest n : Int) :
    n < rules.foldl (longer path) longest ↔
      n < longest ∨ ∃ r ∈ rules, r ≠ "" ∧ startsWith path r ∧ n < r.length := by
  induction rules generalizing longest with
  | nil => simp
  | cons r rules ih =>
    simp only [List.foldl_cons, ih, List.mem_cons, exists_eq_or_imp, longer]
    split <;> grind

theorem startsWith_iff (path r : String) : startsWith path r ↔ r.toList <+: path.toList :=
  List.isPrefixOf_iff_prefix

theorem best_lt_iff (path : String) (rules : List String) (n : ℕ) (hn : 0 < n) :
    best path rules < n ↔ ∀ r ∈ rules, r.toList <+: path.toList → r.length < n := by
  have h := lt_foldl_longer path rules (-1) (n - 1)
  constructor
  · intro hbest r hr hpre
    by_cases hne : r = ""
    · rwa [hne]
    · by_contra hlong
      have hlt := h.mpr (.inr ⟨r, hr, hne, (startsWith_iff path r).mpr hpre, by omega⟩)
      exact absurd hlt (by unfold best at hbest; omega)
  · intro hall
    by_contra hlong
    obtain hlt | ⟨r, hr, -, hpre, hlt⟩ := h.mp (by unfold best at hlong; omega)
    · omega
    · have := hall r hr ((startsWith_iff path r).mp hpre)
      omega

theorem not_allowed_iff (path : String) (rules : Rules) :
    isPathAllowedByRobots path rules = false ↔ Disallows rules path := by
  have hallow := (lt_foldl_longer path rules.allow (-1) (-2)).mpr (.inl (by decide))
  have hdisallow := lt_foldl_longer path rules.disallow (-1) (best path rules.allow)
  have hfalse : isPathAllowedByRobots path rules = false ↔
      best path rules.allow < best path rules.disallow := by
    unfold isPathAllowedByRobots
    unfold best at hallow ⊢
    split
    · simp; omega
    · simp
  rw [hfalse, best.eq_def path rules.disallow, hdisallow,
    or_iff_right (by unfold best; omega)]
  refine exists_congr fun d => and_congr_right fun _ => and_congr_right fun hne => ?_
  rw [startsWith_iff, best_lt_iff]
  exact Nat.pos_of_ne_zero fun h => hne (String.length_eq_zero_iff.mp h)

theorem parseRobots_obeys_iff (toLowerCase : String → String) (body userAgent : String) :
    Obeys toLowerCase body userAgent ↔
      OneParagraph (toLowerCase userAgent) (linesOf toLowerCase body) := by
  simp only [Obeys, OneParagraph, parseRobotsInternal_eq, not_allowed_iff]
  refine and_congr_right fun hwithin => ⟨fun h d hd hne ha => ?_, fun h path hpath => ?_⟩
  · -- the rule's own path: an `Allow` as long as it would be the same text
    refine h d ⟨d, hd, hne, List.prefix_rfl, fun a hmem hpre => ?_⟩
    have hle := hpre.length_le
    rw [String.length_toList, String.length_toList] at hle
    refine Nat.lt_of_le_of_ne hle fun heq => ha ?_
    have hsame := hpre.eq_of_length (by rw [String.length_toList, heq, String.length_toList])
    rwa [String.toList_inj.mp hsame] at hmem
  · obtain ⟨d, hd, hne, hpre, hlong⟩ := hpath
    obtain ⟨d', hd', hne', hpre', hlong'⟩ :=
      h d hd hne fun ha => absurd (hlong d ha hpre) (Nat.lt_irrefl _)
    refine ⟨d', hd', hne', hpre'.trans hpre, fun a ha hapre => hlong' a ha ?_⟩
    -- an `Allow` before the path is shorter than `d`, so it is before `d` too
    have hlt := hlong a (hwithin.1 ha) hapre
    rw [← String.length_toList, ← String.length_toList] at hlt
    exact List.prefix_of_prefix_length_le hapre hpre (Nat.le_of_lt hlt)

theorem crawlDelay_loses_disallow :
    ¬ Obeys lower "User-agent: *\nCrawl-delay: 10\nDisallow: /private" "KindredBot" := by
  intro h
  have hfalse := h.2 "/private/a" ⟨"/private", by decide +kernel⟩
  exact absurd hfalse (by decide +kernel)

end Kindred.Robots
