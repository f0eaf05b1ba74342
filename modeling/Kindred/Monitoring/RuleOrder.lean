import Kindred.Monitoring.Lifecycle
import Mathlib.Data.List.Dedup
import Mathlib.Data.List.Perm.Subperm

/-! What a pass writes, whatever the order in which the database returns the rules. -/

namespace Kindred.Monitoring.Evaluator
open Lib (Table run Meets)
variable {V : Type} {ids : List Id} {base combined : List (Id × AlertRule V)} {r : Reading V}

def slugAt (index : Table Id (OpenAlert V)) (id : Id) : Option String :=
  (index.get id).map OpenAlert.ruleSlug

variable {wanted : List String} {index index' : Table Id (OpenAlert V)} {slug : String}
  {ruleId made id : Id} {s s₁ : Evaluator V} {b : Id × AlertRule V}

theorem mem_openSlugs :
    slug ∈ openSlugs wanted index ↔ slug ∈ wanted ∧ ∃ id, slugAt index id = some slug := by
  simp only [openSlugs, List.mem_dedup, List.mem_filter, List.mem_map, List.contains_iff_mem,
    slugAt, Option.map_eq_some_iff, Table.get_eq_some_iff_mem]
  grind

theorem length_openSlugs_congr
    (h : ∀ slug ∈ wanted, (∃ id, slugAt index id = some slug) ↔ ∃ id, slugAt index' id = some slug) :
    (openSlugs wanted index).length = (openSlugs wanted index').length := by
  refine List.Perm.length_eq ((List.perm_ext_iff_of_nodup (List.nodup_dedup _)
    (List.nodup_dedup _)).mpr fun slug => ?_)
  show slug ∈ openSlugs wanted index ↔ slug ∈ openSlugs wanted index'
  rw [mem_openSlugs, mem_openSlugs]
  exact and_congr_right (h slug)

def slugAfter (slug : String) (change : Option (Change V)) (before : Option String) :
    Option String :=
  match change with
  | none => before
  | some (.opened _) => some slug
  | some (.changed _) => before
  | some (.resolved _ _) => none

theorem slugAfter_cases (slug : String) (change : Option (Change V)) (before : Option String) :
    slugAfter slug change before = none ∨ slugAfter slug change before = before ∨
      slugAfter slug change before = some slug := by
  unfold slugAfter
  split <;> simp

theorem slugAt_mirrored {flap : FlapState} {c : Change V}
    (h : Asked ruleId slug flap (index.get ruleId) c) :
    slugAt (mirrored ruleId made c index) ruleId = slugAfter slug (some c) (slugAt index ruleId) := by
  generalize ho : index.get ruleId = o at h
  cases h with
  | opened e hnone hr hs hslug hf =>
    simp [slugAt, mirrored, slugAfter, AlertEvent.openAlert, hslug]
  | changed old entry hold hid hr hslug => simp [slugAt, mirrored, slugAfter, ho, hold, hslug]
  | resolved old r hold hf => simp [slugAt, mirrored, slugAfter, Table.get_erase]

theorem get_mirrored_ne {k : Id} (c : Change V) (index : Table Id (OpenAlert V)) (hk : k ≠ ruleId)
    : (mirrored ruleId made c index).get k = index.get k := by
  cases c with
  | opened e => exact Table.get_put_ne _ _ hk
  | changed entry => exact Table.get_put_ne _ _ hk
  | resolved id r => simp [mirrored, Table.get_erase, hk]

theorem changes_write (ruleId : Id) (c : Change V) (s : Evaluator V) :
    (s.write ruleId c).changes = s.changes.put ruleId c := by
  cases c <;> rfl

theorem mem_enabledIds : id ∈ s.enabledIds ↔ ∃ rule, s.rules.get id = some rule ∧ rule.enabled := by
  simp [enabledIds, Table.get_eq_some_iff_mem]

theorem Answer.mem_iff (h : s.Answer ids) (hcap : s.enabledIds.length ≤ s.maxRows) (id : Id)
    : id ∈ ids ↔ id ∈ s.enabledIds := by
  obtain ⟨hnodup, hlength, hsub⟩ := h
  rw [Nat.min_eq_right hcap] at hlength
  have hperm := (List.subperm_of_subset hnodup hsub).perm_of_length_le hlength.ge
  exact hperm.mem_iff

theorem mem_withRows {r : Id × AlertRule V} :
    r ∈ s.withRows ids ↔ r.1 ∈ ids ∧ s.rules.get r.1 = some r.2 := by
  obtain ⟨id, rule⟩ := r
  simp only [withRows, List.mem_filterMap, Option.map_eq_some_iff, Prod.mk.injEq]
  grind

theorem keys_withRows (h : ∀ id ∈ ids, id ∈ s.enabledIds) :
    (s.withRows ids).map Prod.fst = ids := by
  induction ids with
  | nil => rfl
  | cons id ids ih =>
    obtain ⟨rule, hrule, -⟩ := mem_enabledIds.mp (h id List.mem_cons_self)
    have htail := ih fun id' hid' => h id' (List.mem_cons_of_mem id hid')
    simpa [withRows, hrule] using htail

def combinedRules (s : Evaluator V) : List (Id × AlertRule V) :=
  s.rules.rows.filter fun r => r.2.enabled && r.2.kind == .combined

def Independent (s : Evaluator V) : Prop :=
  ∀ r ∈ s.combinedRules, ∀ r' ∈ s.combinedRules, r'.1 ≠ r.1 →
    r'.2.slug ∉ r.2.subrules ∧
      ∀ row ∈ openEvents s.events, row.2.ruleId = r'.1 → row.2.ruleSlug ∉ r.2.subrules

theorem slugAt_load {events : Table Id (AlertEvent V)} {maxRows : ℕ}
    (h : slugAt (loadOpenAlertIndex maxRows events) id = some slug) :
    ∃ row ∈ openEvents events, row.2.ruleId = id ∧ row.2.ruleSlug = slug := by
  rw [slugAt, loadOpenAlertIndex, get_foldl_indexed, Table.get_empty, Option.none_or,
    Option.map_map, Option.map_eq_some_iff] at h
  obtain ⟨row, hfind, rfl⟩ := h
  have hrule := List.find?_some hfind
  exact ⟨row, List.mem_of_mem_take (List.mem_of_find?_eq_some hfind), by simpa using hrule, rfl⟩

structure Sorted (s : Evaluator V) (base combined : List (Id × AlertRule V)) : Prop where
  base_iff : ∀ b, b ∈ base ↔ s.rules.get b.1 = some b.2 ∧ b.2.enabled ∧ b.2.kind ≠ .combined
  combined_iff : ∀ b, b ∈ combined ↔
    s.rules.get b.1 = some b.2 ∧ b.2.enabled ∧ b.2.kind = .combined
  nodup_base : (base.map Prod.fst).Nodup
  nodup_combined : (combined.map Prod.fst).Nodup

theorem sorted_withRows (ha : s.Answer ids) (hcap : s.enabledIds.length ≤ s.maxRows) :
    Sorted s ((s.withRows ids).filter fun b => b.2.kind ≠ .combined)
      ((s.withRows ids).filter fun b => b.2.kind = .combined) := by
  have hrow : ∀ b, b ∈ s.withRows ids ↔ s.rules.get b.1 = some b.2 ∧ b.2.enabled := by
    intro b
    rw [mem_withRows, ha.mem_iff hcap, mem_enabledIds]
    constructor
    · rintro ⟨⟨rule, hrule, henabled⟩, hget⟩
      have hsame : rule = b.2 := Option.some.inj (hrule.symm.trans hget)
      exact ⟨hget, hsame ▸ henabled⟩
    · exact fun h => ⟨⟨b.2, h⟩, h.1⟩
  have hkeys : ((s.withRows ids).map Prod.fst).Nodup := by
    rw [keys_withRows ha.2.2]
    exact ha.1
  refine ⟨fun b => ?_, fun b => ?_, hkeys.sublist (List.filter_sublist.map _),
    hkeys.sublist (List.filter_sublist.map _)⟩
  · simp [hrow, and_assoc]
  · simp [hrow, and_assoc]

theorem Sorted.apart (h : Sorted s base combined) (hb : b ∈ combined)
    : b.1 ∉ base.map Prod.fst := by
  intro hmem
  obtain ⟨b', hb', hkey⟩ := List.mem_map.mp hmem
  obtain ⟨hget', -, hkind'⟩ := (h.base_iff b').mp hb'
  obtain ⟨hget, -, hkind⟩ := (h.combined_iff b).mp hb
  rw [hkey, hget] at hget'
  exact hkind' (Option.some.inj hget' ▸ hkind)

theorem Sorted.mem_combinedRules (h : Sorted s base combined) (hb : b ∈ combined)
    : b ∈ s.combinedRules := by
  obtain ⟨hget, henabled, hkind⟩ := (h.combined_iff b).mp hb
  exact List.mem_filter.mpr ⟨Table.get_eq_some_iff_mem.mp hget, by simp [henabled, hkind]⟩

theorem begin_going (hpass : s.pass = none) (hread : r.readFails = false) (ha : s.Answer r.ids)
    : s.begin r = { s with
      changes := .empty
      pass := some { s.begun r with remaining := orderedRules (s.withRows r.ids) } } :=
  if_pos ⟨by simp [hpass], hread, ha⟩

theorem length_orderedRules (rules : List (Id × AlertRule V)) :
    (rules.filter fun b => b.2.kind = .combined).length +
      (rules.filter fun b => b.2.kind ≠ .combined).length = rules.length := by
  simpa [List.countP_eq_length_filter] using
    (List.length_eq_countP_add_countP (fun b : Id × AlertRule V => b.2.kind = .combined) (l := rules)).symm

section Rounds
variable [LE V] [DecidableLE V] [NatCast V] [Div V]

/-- What a rule asks for in a pass `p` from `s`, by its result. -/
def asks (s : Evaluator V) (p : Pass V) (r : Id × AlertRule V) (result : RuleEvalResult V) :
    Option (Change V) :=
  (applyRuleResult r.1 r.2 result p.now (s.flapOf r.1) (p.openIndex.get r.1)).2

structure Went (s : Evaluator V) (p : Pass V) (r : Id × AlertRule V) (rest : List (Id × AlertRule V))
    (s' : Evaluator V) (index : Table Id (OpenAlert V)) : Prop where
  pass : s'.pass = some { p with remaining := rest, openIndex := index }
  entries : ∀ k, k ≠ r.1 → index.get k = p.openIndex.get k
  slug : slugAt index r.1 =
    slugAfter r.2.slug (s.asks p r (evaluate p r.1 r.2)) (slugAt p.openIndex r.1)
  flaps : ∀ k, k ≠ r.1 → s'.flapOf k = s.flapOf k
  changes : ∀ k, k ≠ r.1 → s'.changes.get k = s.changes.get k
  change : s'.changes.get r.1 = (s.asks p r (evaluate p r.1 r.2)).or (s.changes.get r.1)

theorem went_round {s : Evaluator V} {p : Pass V} {r : Id × AlertRule V}
    {rest : List (Id × AlertRule V)} (hp : s.pass = some p) (hr : p.remaining = r :: rest)
    (hf : p.faults r.1 = .none) : ∃ index, Went s p r rest s.round index := by
  obtain ⟨id, rule⟩ := r
  simp only [round, hp, hr]
  unfold evaluateRule
  dsimp only
  generalize hresult : applyRuleResult id rule (evaluate p id rule) p.now (s.flapOf id)
    (p.openIndex.get id) = result
  obtain ⟨flap, change⟩ := result
  have hasks : s.asks p (id, rule) (evaluate p id rule) = change := congrArg Prod.snd hresult
  have hflap : ∀ k, k ≠ id → ∀ flap, ((s.flaps.put id flap).get k).getD {} = s.flapOf k := by
    intro k hk flap
    rw [Table.get_put_ne _ _ hk]
    rfl
  cases change with
  | none =>
    refine ⟨p.openIndex, ⟨rfl, fun _ _ => rfl, ?_, fun k hk => hflap k hk flap, fun _ _ => rfl, ?_⟩⟩
    · rw [hasks]
      rfl
    · rw [hasks]
      rfl
  | some c =>
    have hasked := asked_of_result hresult
    simp only [carryOut, hf]
    refine ⟨mirrored id s.made c p.openIndex, ⟨rfl, fun k hk => get_mirrored_ne c _ hk, ?_, ?_, ?_, ?_⟩⟩
    · rw [hasks]
      exact slugAt_mirrored hasked
    · intro k hk
      show (((s.flaps.put id flap).put id (settled c flap)).get k).getD {} = _
      rw [Table.get_put_ne _ _ hk]
      exact hflap k hk flap
    · intro k hk
      show ((s.noted id flap _).write id c).changes.get k = _
      rw [changes_write, Table.get_put_ne _ _ hk]
      rfl
    · show ((s.noted id flap _).write id c).changes.get id = _
      rw [changes_write, Table.get_put_self, hasks]
      rfl

/-- A pass `p` from `s` has gone through the rules `done`, each with its result `res`; `todo` and then
`rest` are ahead. -/
structure Phase (s : Evaluator V) (p : Pass V) (res : Id × AlertRule V → RuleEvalResult V)
    (done todo rest : List (Id × AlertRule V)) (s' : Evaluator V) (index : Table Id (OpenAlert V)) :
    Prop where
  pass : s'.pass = some { p with remaining := todo ++ rest, openIndex := index }
  entries : ∀ k, k ∉ done.map Prod.fst → index.get k = p.openIndex.get k
  flaps : ∀ k, k ∉ done.map Prod.fst → s'.flapOf k = s.flapOf k
  changes : ∀ k, k ∉ done.map Prod.fst → s'.changes.get k = s.changes.get k
  slug : ∀ r ∈ done,
    slugAt index r.1 = slugAfter r.2.slug (s.asks p r (res r)) (slugAt p.openIndex r.1)
  change : ∀ r ∈ done, s'.changes.get r.1 = (s.asks p r (res r)).or (s.changes.get r.1)

/-- An index in which the other rules of `rules` may have lost their incident or got one under their
slug. -/
structure Shifted (rules : List (Id × AlertRule V)) (r : Id × AlertRule V)
    (index index' : Table Id (OpenAlert V)) : Prop where
  own : index'.get r.1 = index.get r.1
  slugs : ∀ k, slugAt index' k = slugAt index k ∨ ∃ r' ∈ rules, r'.1 = k ∧ r'.1 ≠ r.1 ∧
    (slugAt index' k = none ∨ slugAt index' k = some r'.2.slug)

variable {s s' : Evaluator V} {p : Pass V} {res : Id × AlertRule V → RuleEvalResult V}
  {done todo rest : List (Id × AlertRule V)} {index : Table Id (OpenAlert V)} {sb : Evaluator V}

omit [LE V] [DecidableLE V] [NatCast V] [Div V] in
theorem Phase.shifted (h : Phase s p res done todo rest s' index) {r : Id × AlertRule V}
    (hr : r.1 ∉ done.map Prod.fst) : Shifted done r p.openIndex index := by
  refine ⟨h.entries r.1 hr, fun k => ?_⟩
  by_cases hk : k ∈ done.map Prod.fst
  · obtain ⟨r', hr', rfl⟩ := List.mem_map.mp hk
    have hslug := h.slug r' hr'
    have hne : r'.1 ≠ r.1 := fun he => hr (he ▸ hk)
    obtain hnone | hsame | hown := slugAfter_cases r'.2.slug (s.asks p r' (res r'))
      (slugAt p.openIndex r'.1)
    · exact .inr ⟨r', hr', rfl, hne, .inl (hslug.trans hnone)⟩
    · exact .inl (hslug.trans hsame)
    · exact .inr ⟨r', hr', rfl, hne, .inr (hslug.trans hown)⟩
  · exact .inl (congrArg (Option.map OpenAlert.ruleSlug) (h.entries k hk))

theorem Phase.round {r : Id × AlertRule V} (h : Phase s p res done (r :: todo) rest s' index)
    (hr : r.1 ∉ done.map Prod.fst) (hf : p.faults r.1 = .none)
    (hres : ∀ remaining, evaluate { p with remaining, openIndex := index } r.1 r.2 = res r) :
    ∃ index', Phase s p res (done ++ [r]) todo rest s'.round index' := by
  obtain ⟨index', hw⟩ := went_round h.pass rfl hf
  have hasks : s'.asks { p with remaining := r :: todo ++ rest, openIndex := index } r
      (evaluate { p with remaining := r :: todo ++ rest, openIndex := index } r.1 r.2) =
      s.asks p r (res r) := by
    rw [hres, asks, asks, h.flaps r.1 hr]
    show (applyRuleResult r.1 r.2 (res r) p.now (s.flapOf r.1) (index.get r.1)).2 = _
    rw [h.entries r.1 hr]
  have hslug : slugAt index r.1 = slugAt p.openIndex r.1 :=
    congrArg (Option.map OpenAlert.ruleSlug) (h.entries r.1 hr)
  have hsplit : ∀ k, k ∉ (done ++ [r]).map Prod.fst → k ∉ done.map Prod.fst ∧ k ≠ r.1 := by
    intro k hk
    rw [List.map_append, List.mem_append, not_or] at hk
    exact ⟨hk.1, by simpa using hk.2⟩
  have hdone : ∀ r' ∈ done, r'.1 ≠ r.1 :=
    fun r' hr' he => hr (he ▸ List.mem_map_of_mem hr')
  refine ⟨index', ⟨hw.pass, ?_, ?_, ?_, ?_, ?_⟩⟩
  · intro k hk
    exact (hw.entries k (hsplit k hk).2).trans (h.entries k (hsplit k hk).1)
  · intro k hk
    exact (hw.flaps k (hsplit k hk).2).trans (h.flaps k (hsplit k hk).1)
  · intro k hk
    exact (hw.changes k (hsplit k hk).2).trans (h.changes k (hsplit k hk).1)
  · intro r' hr'
    rw [List.mem_append, List.mem_singleton] at hr'
    obtain hr' | rfl := hr'
    · rw [← h.slug r' hr']
      exact congrArg (Option.map OpenAlert.ruleSlug) (hw.entries r'.1 (hdone r' hr'))
    · rw [hw.slug, hasks]
      exact congrArg _ hslug
  · intro r' hr'
    rw [List.mem_append, List.mem_singleton] at hr'
    obtain hr' | rfl := hr'
    · rw [← h.change r' hr']
      exact hw.changes r'.1 (hdone r' hr')
    · rw [hw.change, hasks, h.changes r'.1 hr]

theorem Phase.run (h : Phase s p res done todo rest s' index)
    (hnodup : ((done ++ todo).map Prod.fst).Nodup) (hf : ∀ r ∈ todo, p.faults r.1 = .none)
    (hres : ∀ r ∈ todo, ∀ remaining index, Shifted (done ++ todo) r p.openIndex index →
      evaluate { p with remaining, openIndex := index } r.1 r.2 = res r) :
    ∃ index', Phase s p res (done ++ todo) [] rest (Evaluator.round^[todo.length] s') index' := by
  induction todo generalizing done s' index with
  | nil => exact ⟨index, by simpa using h⟩
  | cons r todo ih =>
    have hr : r.1 ∉ done.map Prod.fst := by
      rw [List.map_append, List.map_cons] at hnodup
      exact fun hmem => (List.nodup_append.mp hnodup).2.2 r.1 hmem r.1 List.mem_cons_self rfl
    have hshift := h.shifted hr
    obtain ⟨index', h'⟩ := h.round hr (hf r List.mem_cons_self) fun remaining =>
      hres r List.mem_cons_self remaining index ⟨hshift.own, fun k => by
        obtain hk | ⟨r', hr', hk⟩ := hshift.slugs k
        · exact .inl hk
        · exact .inr ⟨r', List.mem_append_left _ hr', hk⟩⟩
    have hassoc : done ++ r :: todo = done ++ [r] ++ todo := by simp
    rw [hassoc] at hnodup hres ⊢
    exact ih h' hnodup (fun r' hr' => hf r' (List.mem_cons_of_mem r hr'))
      fun r' hr' => hres r' (List.mem_cons_of_mem r hr')

def finished (r : Reading V) (s : Evaluator V) : Evaluator V :=
  Evaluator.round^[r.ids.length] (s.begin r)

/-- What the pass writes of a rule, where `index` is what the combined rules go by. -/
def finalChange (r : Reading V) (s : Evaluator V) (index : Table Id (OpenAlert V)) (id : Id) :
    Option (Change V) :=
  ((s.rules.get id).filter AlertRule.enabled).bind fun rule =>
    s.asks (s.begun r) (id, rule) <|
      if rule.kind = .combined then evaluateCombinedRule rule index
      else evaluateSyncRule rule (r.collector id) (s.begun r).budgetBytes

def baseSlug (r : Reading V) (s : Evaluator V) (id : Id) : Option String :=
  let before := slugAt (s.begun r).openIndex id
  match (s.rules.get id).filter fun rule => rule.enabled && rule.kind != .combined with
  | none => before
  | some rule => slugAfter rule.slug (s.asks (s.begun r) (id, rule)
      (evaluateSyncRule rule (r.collector id) (s.begun r).budgetBytes)) before

theorem base_phase (hpass : sb.pass = some { s.begun r with remaining := base ++ combined })
    (hnodup : (base.map Prod.fst).Nodup)
    (hbase : ∀ b ∈ base, b.2.kind ≠ .combined ∧ r.faults b.1 = .none) :
    ∃ index, Phase sb (s.begun r)
      (fun b => evaluateSyncRule b.2 (r.collector b.1) (s.begun r).budgetBytes) base [] combined
      (Evaluator.round^[base.length] sb) index := by
  have hstart : Phase sb (s.begun r)
      (fun b => evaluateSyncRule b.2 (r.collector b.1) (s.begun r).budgetBytes) [] base combined sb
      (s.begun r).openIndex :=
    ⟨hpass, fun _ _ => rfl, fun _ _ => rfl, fun _ _ => rfl,
      fun _ h => absurd h List.not_mem_nil, fun _ h => absurd h List.not_mem_nil⟩
  refine hstart.run hnodup (fun b hb => (hbase b hb).2) fun b hb remaining index _ => ?_
  exact if_neg (hbase b hb).1

omit [Div V] in
/-- A combined rule counts the same incidents whichever of the others went before it. -/
theorem evaluate_shifted {r : Id × AlertRule V} (hr : r ∈ s.combinedRules)
    (hcombined : ∀ r' ∈ combined, r' ∈ s.combinedRules) (hi : Independent s)
    (hbefore : ∀ r' ∈ combined, ∀ slug, slugAt p.openIndex r'.1 = some slug →
      ∃ row ∈ openEvents s.events, row.2.ruleId = r'.1 ∧ row.2.ruleSlug = slug)
    (h : Shifted combined r p.openIndex index) :
    evaluateCombinedRule r.2 index = evaluateCombinedRule r.2 p.openIndex := by
  have hlength : (openSlugs r.2.subrules index).length =
      (openSlugs r.2.subrules p.openIndex).length := by
    refine length_openSlugs_congr fun slug hslug => ?_
    constructor
    · rintro ⟨k, hk⟩
      obtain hsame | ⟨r', hr', rfl, hne, hnone | hown⟩ := h.slugs k
      · exact ⟨k, hsame ▸ hk⟩
      · rw [hnone] at hk
        cases hk
      · rw [hown] at hk
        cases hk
        exact absurd hslug (hi r hr r' (hcombined r' hr') hne).1
    · rintro ⟨k, hk⟩
      obtain hsame | ⟨r', hr', rfl, hne, -⟩ := h.slugs k
      · exact ⟨k, hsame.trans hk⟩
      · obtain ⟨row, hrow, hrule, rfl⟩ := hbefore r' hr' slug hk
        exact absurd hslug ((hi r hr r' (hcombined r' hr') hne).2 row hrow hrule)
  rw [evaluateCombinedRule, evaluateCombinedRule, hlength]

theorem both_phases (hsort : Sorted s base combined)
    (hpass : sb.pass = some { s.begun r with remaining := base ++ combined })
    (hf : ∀ id ∈ s.enabledIds, r.faults id = .none) (hi : Independent s) :
    ∃ s₁ index index',
      Phase sb (s.begun r)
        (fun b => evaluateSyncRule b.2 (r.collector b.1) (s.begun r).budgetBytes) base [] combined
        s₁ index ∧
      Phase s₁ { s.begun r with openIndex := index } (fun b => evaluateCombinedRule b.2 index)
        combined [] [] (Evaluator.round^[combined.length + base.length] sb) index' := by
  have hfault : ∀ b : Id × AlertRule V, s.rules.get b.1 = some b.2 → b.2.enabled →
      r.faults b.1 = .none :=
    fun b hget henabled => hf b.1 (mem_enabledIds.mpr ⟨b.2, hget, henabled⟩)
  obtain ⟨index, h₁⟩ := base_phase hpass hsort.nodup_base fun b hb => by
    obtain ⟨hget, henabled, hkind⟩ := (hsort.base_iff b).mp hb
    exact ⟨hkind, hfault b hget henabled⟩
  have hstart : Phase (Evaluator.round^[base.length] sb) { s.begun r with openIndex := index }
      (fun b => evaluateCombinedRule b.2 index) [] combined [] (Evaluator.round^[base.length] sb)
      index := by
    refine ⟨?_, fun _ _ => rfl, fun _ _ => rfl, fun _ _ => rfl,
      fun _ h => absurd h List.not_mem_nil, fun _ h => absurd h List.not_mem_nil⟩
    rw [h₁.pass, List.nil_append, List.append_nil]
  have hbefore : ∀ b ∈ combined, ∀ slug, slugAt index b.1 = some slug →
      ∃ row ∈ openEvents s.events, row.2.ruleId = b.1 ∧ row.2.ruleSlug = slug := by
    intro b hb slug hslug
    rw [slugAt, h₁.entries b.1 (hsort.apart hb)] at hslug
    exact slugAt_load hslug
  obtain ⟨index', h₂⟩ := hstart.run hsort.nodup_combined
    (fun b hb => hfault b ((hsort.combined_iff b).mp hb).1 ((hsort.combined_iff b).mp hb).2.1)
    fun b hb remaining index' hshift => by
      rw [evaluate, if_pos ((hsort.combined_iff b).mp hb).2.2]
      exact evaluate_shifted (hsort.mem_combinedRules hb)
        (fun b' hb' => hsort.mem_combinedRules hb') hi hbefore hshift
  rw [Function.iterate_add_apply]
  exact ⟨_, index, index', h₁, h₂⟩

theorem slug_of_phase (hsort : Sorted s base combined) (hflaps : sb.flaps = s.flaps)
    (h : Phase sb (s.begun r)
      (fun b => evaluateSyncRule b.2 (r.collector b.1) (s.begun r).budgetBytes) base [] combined
      s₁ index) (id : Id) : slugAt index id = baseSlug r s id := by
  unfold baseSlug
  cases hget : (s.rules.get id).filter fun rule => rule.enabled && rule.kind != .combined with
  | none =>
    have hid : id ∉ base.map Prod.fst := by
      intro hmem
      obtain ⟨b, hb, rfl⟩ := List.mem_map.mp hmem
      obtain ⟨hrule, henabled, hkind⟩ := (hsort.base_iff b).mp hb
      simp [hrule, henabled, hkind] at hget
    exact congrArg (Option.map OpenAlert.ruleSlug) (h.entries id hid)
  | some rule =>
    obtain ⟨hrule, hkind⟩ := Option.filter_eq_some_iff.mp hget
    rw [Bool.and_eq_true, bne_iff_ne] at hkind
    have hslug := h.slug (id, rule) ((hsort.base_iff (id, rule)).mpr ⟨hrule, hkind⟩)
    rwa [asks, flapOf, hflaps] at hslug

/-- What both phases have written of a rule. -/
theorem change_of_phases {s₂ : Evaluator V} (hsort : Sorted s base combined)
    (hflaps : sb.flaps = s.flaps) (hchanges : sb.changes = .empty) (h₁ : Phase sb (s.begun r)
      (fun b => evaluateSyncRule b.2 (r.collector b.1) (s.begun r).budgetBytes) base [] combined
      s₁ index)
    (h₂ : Phase s₁ { s.begun r with openIndex := index } (fun b => evaluateCombinedRule b.2 index)
      combined [] [] s₂ index') (id : Id) : s₂.changes.get id = finalChange r s index id := by
  have hempty : sb.changes.get id = none := by rw [hchanges, Table.get_empty]
  unfold finalChange
  cases hget : (s.rules.get id).filter AlertRule.enabled with
  | none =>
    have hid : ∀ b : Id × AlertRule V, s.rules.get b.1 = some b.2 → b.2.enabled → b.1 ≠ id := by
      rintro b hrule henabled rfl
      simp [hrule, henabled] at hget
    have hbase : id ∉ base.map Prod.fst := by
      intro hmem
      obtain ⟨b, hb, hkey⟩ := List.mem_map.mp hmem
      obtain ⟨hrule, henabled, -⟩ := (hsort.base_iff b).mp hb
      exact hid b hrule henabled hkey
    have hcombined : id ∉ combined.map Prod.fst := by
      intro hmem
      obtain ⟨b, hb, hkey⟩ := List.mem_map.mp hmem
      obtain ⟨hrule, henabled, -⟩ := (hsort.combined_iff b).mp hb
      exact hid b hrule henabled hkey
    rw [h₂.changes id hcombined, h₁.changes id hbase, hempty]
    rfl
  | some rule =>
    obtain ⟨hrule, henabled⟩ := Option.filter_eq_some_iff.mp hget
    rw [Option.bind_some]
    by_cases hkind : rule.kind = .combined
    · have hmem := (hsort.combined_iff (id, rule)).mpr ⟨hrule, henabled, hkind⟩
      have hbase := hsort.apart hmem
      have hchange := h₂.change (id, rule) hmem
      rw [h₁.changes id hbase, hempty, Option.or_none, asks, h₁.flaps id hbase, flapOf, hflaps] at hchange
      rw [if_pos hkind, hchange, asks]
      show (applyRuleResult id rule _ _ _ (index.get id)).2 = _
      rw [h₁.entries id hbase]
      rfl
    · have hmem := (hsort.base_iff (id, rule)).mpr ⟨hrule, henabled, hkind⟩
      have hcombined : id ∉ combined.map Prod.fst := by
        intro hmem'
        obtain ⟨b, hb, hkey⟩ := List.mem_map.mp hmem'
        exact hsort.apart hb (hkey ▸ List.mem_map_of_mem hmem)
      have hchange := h₁.change (id, rule) hmem
      rw [hempty, Option.or_none, asks, flapOf, hflaps] at hchange
      rw [if_neg hkind, h₂.changes id hcombined, hchange]
      rfl

theorem finished_changes (hpass : s.pass = none) (hread : r.readFails = false) (ha : s.Answer r.ids)
    (hcap : s.enabledIds.length ≤ s.maxRows) (hf : ∀ id ∈ s.enabledIds, r.faults id = .none)
    (hi : Independent s) : ∃ index, (∀ id, slugAt index id = baseSlug r s id) ∧
      ∀ id, (finished r s).changes.get id = finalChange r s index id := by
  have hsort := sorted_withRows ha hcap
  have hlength := length_orderedRules (s.withRows r.ids)
  generalize hb : (s.withRows r.ids).filter (fun b => b.2.kind ≠ .combined) = base at hsort hlength
  generalize hc : (s.withRows r.ids).filter (fun b => b.2.kind = .combined) = combined
    at hsort hlength
  have hkeys := congrArg List.length (keys_withRows ha.2.2)
  rw [List.length_map, ← hlength] at hkeys
  have hgoing := begin_going hpass hread ha
  rw [orderedRules, hb, hc] at hgoing
  obtain ⟨s₁, index, index', h₁, h₂⟩ := both_phases hsort (congrArg Evaluator.pass hgoing) hf hi
  rw [hkeys] at h₂
  have hflaps : (s.begin r).flaps = s.flaps := by rw [hgoing]
  have hchanges : (s.begin r).changes = .empty := by rw [hgoing]
  exact ⟨index, slug_of_phase hsort hflaps h₁, change_of_phases hsort hflaps hchanges h₁ h₂⟩

/-- What a pass writes is the same for every order in which the database may return its rules. -/
def OrderFree (s : Evaluator V) : Action V → Prop
  | .begin r => s.Answer r.ids → ∀ ids, s.Answer ids →
    ∀ id, (finished { r with ids } s).changes.get id = (finished r s).changes.get id
  | _ => True

/-- The read of the rules is not cut short, no write fails, and no combined rule counts another. -/
def Orderly (s : Evaluator V) : Action V → Prop
  | .begin r => s.enabledIds.length ≤ s.maxRows ∧ (∀ id ∈ s.enabledIds, r.faults id = .none) ∧
    s.Independent
  | _ => True

theorem finished_idle (h : ¬(s.pass = none ∧ r.readFails = false)) :
    finished r s = Evaluator.round^[r.ids.length] s := by
  have hidle : s.begin r = s := if_neg fun hgoing => h ⟨by simpa using hgoing.1, hgoing.2.1⟩
  rw [finished, hidle]

theorem orderFree_of_orderly {a : Action V} (h : s.Orderly a) : s.OrderFree a := by
  cases a with
  | editRule id rule => trivial
  | round => trivial
  | begin r =>
    obtain ⟨hcap, hf, hi⟩ := h
    intro ha ids ha' id
    by_cases hgoing : s.pass = none ∧ r.readFails = false
    · obtain ⟨index, hslugs, hchanges⟩ := finished_changes hgoing.1 hgoing.2 ha hcap hf hi
      obtain ⟨index', hslugs', hchanges'⟩ :=
        finished_changes (r := { r with ids }) hgoing.1 hgoing.2 ha' hcap hf hi
      have hsame : ∀ rule : AlertRule V,
          evaluateCombinedRule rule index' = evaluateCombinedRule rule index := by
        intro rule
        have hlength : (openSlugs rule.subrules index').length =
            (openSlugs rule.subrules index).length := by
          refine length_openSlugs_congr fun slug _ => exists_congr fun k => ?_
          rw [hslugs, show slugAt index' k = baseSlug r s k from hslugs' k]
        rw [evaluateCombinedRule, evaluateCombinedRule, hlength]
      rw [hchanges, hchanges', finalChange, finalChange]
      simp only [hsame]
      rfl
    · rw [finished_idle hgoing, finished_idle (r := { r with ids }) hgoing, ha.2.1, ha'.2.1]

theorem kept_of_sound (h : Sound s) (as : List (Action V)) (hc : Meets act Capped s as) :
    Meets act (fun s a => Kept s (s.act a) ∧ (s.Orderly a → s.OrderFree a)) s as := by
  induction as generalizing s with
  | nil => trivial
  | cons a as ih =>
    obtain ⟨hsound, hkept⟩ := kept_act h hc.1
    exact ⟨⟨hkept, orderFree_of_orderly⟩, ih hsound hc.2⟩

/-- As long as a pass can read every open incident, each rule has one at most, incidents open and
resolve after their streaks only, and the index of a pass is what the table holds; and what a pass
writes does not hang on the order of the rules where no write fails and no combined rule counts
another one. -/
theorem incidents_kept (maxRows : ℕ) (as : List (Action V))
    (hc : Meets act Capped ({ maxRows } : Evaluator V) as) :
    Meets act (fun s a => Kept s (s.act a) ∧ (s.Orderly a → s.OrderFree a))
      ({ maxRows } : Evaluator V) as :=
  kept_of_sound (sound_start maxRows) as hc

end Rounds

def still : Collector ℕ where
  queryRealtimeCount _ _ := 0
  queryRealtimeRatio _ _ _ := (0, 0)
  queryPerfPercentile _ _ _ := (0, 0)
  queryPerfErrorRate _ _ := (0, 0)
  queryProcessAverage _ _ _ := (0, 0)

def readIn (ids : List Id) : Reading ℕ where
  ids := ids
  now := 0
  perfMemoryBudgetMb := none
  collector _ := still
  faults _ := .none

/-- Both rules breach from the start; `outage` is critical once the incident of `overload` is open. -/
def crossedRun : List (Action ℕ) :=
  [.editRule 0 { slug := "outage", kind := .combined, warnThreshold := 0, criticalThreshold := 1
                 subrules := ["overload"] },
    .editRule 1 { slug := "overload", kind := .combined, warnThreshold := 0, criticalThreshold := 1
                  subrules := ["api_latency"] },
    .begin (readIn [1, 0]), .round, .round, .round, .begin (readIn [1, 0]), .round, .round, .round,
    .begin (readIn [1, 0]), .round, .round, .round]

theorem crossedRun_kept :
    Meets act (fun s a => Kept s (s.act a) ∧ (s.Orderly a → s.OrderFree a))
      ({ maxRows := 1000 } : Evaluator ℕ) crossedRun :=
  incidents_kept 1000 crossedRun (by decide)

theorem crossedRun_ordered : ¬Meets act (fun s a => Kept s (s.act a) ∧ s.OrderFree a)
    ({ maxRows := 1000 } : Evaluator ℕ) crossedRun := by
  intro h
  have hsplit : Meets act (fun s a => Kept s (s.act a) ∧ s.OrderFree a)
    ({ maxRows := 1000 } : Evaluator ℕ) (crossedRun.take 10 ++ crossedRun.drop 10) := h
  have hfree := hsplit.append_right.1.2 (by decide) [0, 1] (by decide) 0
  exact absurd hfree (by decide)

end Kindred.Monitoring.Evaluator
