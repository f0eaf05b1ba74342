import Kindred.ChatRouting.Routing
import Kindred.ChatRouting.Effects

/-! Whom a routing run finds. -/

namespace Kindred.ChatRouting

open Lib.Tx

def ChatDb.MayTake (db : ChatDb) (workspaceId id user : Id) : Prop :=
  ∃ m, db.members.get (workspaceId, user) = some m ∧ m.receiving = true ∧
    user ∉ db.skipUserIds id ∧ db.openLoad workspaceId user < db.cap workspaceId m

variable {p : ClaimArgs} {db : ChatDb} {s : Scene} {a : PickArgs} {x : Search}

theorem mem_places_of_mem {user : Id} (h : some user ∈ p.candidates) :
    ∃ r ∈ p.places, r.1 = user := by
  have hi := List.idxOf_lt_length_of_mem h
  refine ⟨(user, p.candidates.idxOf (some user)), List.mem_filterMap.mpr
    ⟨(some user, p.candidates.idxOf (some user)), ?_, by simp⟩, rfl⟩
  rw [List.mem_zipIdx_iff_getElem?]
  simp [hi]

theorem exists_eligible_iff :
    (∃ e ∈ eligible db p (db.skipUserIds p.conversationId), e.openLoad < e.cap) ↔
      ∃ user, some user ∈ p.candidates ∧ p.expectedAssignee ≠ some user ∧
        db.MayTake p.workspaceId p.conversationId user := by
  constructor
  · rintro ⟨e, he, hroom⟩
    obtain ⟨hoffered, hskip, m, hm, hcap, hload⟩ := mem_eligible he
    obtain ⟨m', hm', hreceiving⟩ := hoffered.member
    rw [hm] at hm'
    cases hm'
    rw [hcap, hload] at hroom
    exact ⟨e.userId, hoffered.candidate, hoffered.notExpected, m, hm, hreceiving, hskip, hroom⟩
  · rintro ⟨user, hmem, hexpected, m, hm, hreceiving, hskip, hroom⟩
    obtain ⟨r, hr, rfl⟩ := mem_places_of_mem hmem
    refine ⟨_, List.mem_filterMap.mpr ⟨r, hr, Option.map_eq_some_iff.mpr ⟨m, ?_, rfl⟩⟩, hroom⟩
    simp [Option.filter_eq_some_iff, hm, ClaimArgs.offers, hreceiving, hskip, Ne.symm hexpected]

def Scene.Answers (s : Scene) : Prop := ∀ call, s.ends call = .answers

def Search.Tried (x : Search) (s : Scene) (a : PickArgs) : Prop :=
  x.ofOwner = true → ownerReceives s a = some true

theorem Scene.Answers.rows (h : s.Answers) {α : Type} (call : Call) (l : List α) :
    s.rows call l = some l := by
  simp [Scene.rows, h call]

theorem claimArgs_checked (a : PickArgs) (x : Search) : (a.claimArgs x).checked = .ok x.order := by
  unfold ClaimArgs.checked PickArgs.claimArgs
  split
  · rename_i h
    cases h
  · rename_i order h
    cases h
    have hmethod : ∀ m : AssignmentMethod, 1 ≤ m.text.length ∧ m.text.length ≤ 32 := by
      intro m
      cases m <;> decide
    rw [if_pos]
    simpa using hmethod _

theorem claimArgs_keyFits (a : PickArgs) (x : Search) (order : ClaimOrder) :
    (a.claimArgs x).keyFits order = true := by
  have hfits := x.poolKey.fits
  simp [ClaimArgs.keyFits, PickArgs.claimArgs, hfits]

/-- A claim of a conversation that is with whom it expects gives it to somebody just
when one of those asked for may take it. -/
theorem chatRouteClaim_takes (now : Timestamp) (h : (a.claimArgs x).Takes db) :
    (∃ order user, chatRouteClaim now (a.claimArgs x) db =
        .ok (.assigned user, claimed now (a.claimArgs x) order user db)) ∧
      (∃ user ∈ x.candidates, a.reassignFrom ≠ some user ∧
        db.MayTake a.workspaceId a.conversationId user) ∨
    (∃ outcome, chatRouteClaim now (a.claimArgs x) db = .ok (outcome, db) ∧
        (outcome = .allBusy ∨ outcome = .none)) ∧
      ¬∃ user ∈ x.candidates, a.reassignFrom ≠ some user ∧
        db.MayTake a.workspaceId a.conversationId user := by
  have hasked : (∃ user ∈ x.candidates, a.reassignFrom ≠ some user ∧
      db.MayTake a.workspaceId a.conversationId user) ↔
      ∃ e ∈ eligible db (a.claimArgs x) (db.skipUserIds (a.claimArgs x).conversationId),
        e.openLoad < e.cap := by
    rw [exists_eligible_iff]
    simp [PickArgs.claimArgs]
  rw [hasked, chatRouteClaim_eq, claimArgs_checked, rowAnswer_of_takes h]
  dsimp only
  cases hpick : pick x.order (db.cursorOf (a.claimArgs x))
      (eligible db (a.claimArgs x) (db.skipUserIds (a.claimArgs x).conversationId)) with
  | none =>
    have hfull := pick_eq_none_iff.mp hpick
    refine .inr ⟨⟨_, rfl, ?_⟩, ?_⟩
    · split
      · exact .inr rfl
      · exact .inl rfl
    · rintro ⟨e, he, hroom⟩
      exact absurd (hfull e he) (Nat.not_le.mpr hroom)
  | some user =>
    obtain ⟨e, he, -, hroom⟩ := mem_of_pick hpick
    refine .inl ⟨⟨x.order, user, ?_⟩, e, he, hroom⟩
    unfold claimEnd
    simp only [claimArgs_keyFits, require, if_true]
    rfl

def FindsTaker (s : Scene) (a : PickArgs) (db : ChatDb) (xs : List Search) : Prop :=
  ∃ x ∈ xs, x.Tried s a ∧ ∃ user ∈ x.candidates, a.reassignFrom ≠ some user ∧
    db.MayTake a.workspaceId a.conversationId user

/-- A search whose calls are answered ends in the first claim that has somebody who may
take the conversation. -/
theorem pickFrom_takes (hs : s.Answers) {xs : List Search} (htakes : ∀ x, (a.claimArgs x).Takes db)
    (attempt : ℕ) (anyOnline : Bool) :
    FindsTaker s a db xs ∧ (∃ x order user method, pickFrom s a xs attempt anyOnline db =
      (.assigned user method, claimed s.now (a.claimArgs x) order user db)) ∨
    ¬FindsTaker s a db xs ∧ ∃ reason, pickFrom s a xs attempt anyOnline db = (.none reason, db) ∧
      (reason = .nobodyOnline ↔ anyOnline = false ∧ ∀ x ∈ xs, ¬x.Tried s a) := by
  induction xs generalizing attempt anyOnline with
  | nil =>
    refine .inr ⟨by simp [FindsTaker], _, rfl, ?_⟩
    cases anyOnline <;> simp
  | cons x rest ih =>
    have hrest : FindsTaker s a db (x :: rest) ↔ (x.Tried s a ∧ ∃ user ∈ x.candidates,
        a.reassignFrom ≠ some user ∧ db.MayTake a.workspaceId a.conversationId user) ∨
        FindsTaker s a db rest := by
      simp [FindsTaker]
    -- The owner is asked only once their row says they receive chats.
    obtain ⟨hguard, huntried⟩ | ⟨hguard, htried⟩ :
        ((if x.ofOwner then ownerReceives s a else some true) = some false ∧ ¬x.Tried s a) ∨
        ((if x.ofOwner then ownerReceives s a else some true) = some true ∧ x.Tried s a) := by
      unfold Search.Tried
      cases hx : x.ofOwner with
      | false => simp
      | true => cases h : ownerReceives s a with
        | none => simp [ownerReceives, hs.rows] at h
        | some b => cases b <;> simp
    · have hnext : pickFrom s a (x :: rest) attempt anyOnline db =
          pickFrom s a rest attempt anyOnline db := by
        rw [pickFrom, hguard]
      rw [hnext, hrest]
      simpa [huntried] using ih attempt anyOnline
    · obtain ⟨⟨order, user, hclaim⟩, hasked⟩ | ⟨⟨outcome, hclaim, hbusy⟩, hasked⟩ :=
        chatRouteClaim_takes s.now (htakes x)
      · refine .inl ⟨hrest.mpr (.inl ⟨htried, hasked⟩), x, order, user, x.method, ?_⟩
        rw [pickFrom, hguard]
        simp only [hs (.claim attempt), hclaim]
      · have hnext : pickFrom s a (x :: rest) attempt anyOnline db =
            pickFrom s a rest (attempt + 1) true db := by
          rw [pickFrom, hguard]
          obtain rfl | rfl := hbusy <;> simp only [hs (.claim attempt), hclaim]
        rw [hnext, hrest]
        simpa [htried, hasked] using ih (attempt + 1) true

def PickArgs.InPools (a : PickArgs) (s : Scene) (user : Id) : Prop :=
  (a.settings.lastAgentEnabled = true ∧ s.previousOperator a.conversationId = some user ∧
    user ∈ a.lastAgentPool ∧ a.tier s user = some .active) ∨
  (∃ pool ∈ a.pools s, user ∈ pool.2) ∨
  (a.ownerId = some user ∧ a.onlyDepartment = false ∧ ownerReceives s a = some true)

def PickArgs.Present (a : PickArgs) (s : Scene) (user : Id) : Prop := (a.tier s user).isSome = true

namespace PickArgs
variable {a : PickArgs} {s : Scene} {user : Id}

theorem mem_lastAgentSearch (ha : a.reassignFrom = none) :
    x ∈ a.lastAgentSearch s ∧ user ∈ x.candidates ↔
      x = { candidates := [user], order := .given, poolKey := { text := "last_agent" }
            method := .lastAgent } ∧
        a.settings.lastAgentEnabled = true ∧ s.previousOperator a.conversationId = some user ∧
        user ∈ a.lastAgentPool ∧ a.tier s user = some .active := by
  have hexcluded : a.excluded user = false := by simp [excluded, ha]
  unfold lastAgentSearch
  split
  · rename_i hany
    simp only [Bool.and_eq_true] at hany
    simp only [List.mem_map, Option.mem_toList, Option.filter_eq_some_iff]
    constructor
    · rintro ⟨⟨prev, ⟨hprev, hok⟩, rfl⟩, hmem⟩
      cases List.mem_singleton.mp hmem
      simp only [Bool.and_eq_true, decide_eq_true_eq] at hok
      exact ⟨rfl, hany.1, hprev, hok.1.1, hok.2⟩
    · rintro ⟨rfl, -, hprev, hmem, hactive⟩
      exact ⟨⟨user, ⟨hprev, by simp [hmem, hexcluded, hactive]⟩, rfl⟩, List.mem_singleton.mpr rfl⟩
  · rename_i hnone
    constructor
    · rintro ⟨h, -⟩
      cases h
    · rintro ⟨-, henabled, -, hmem, hactive⟩
      refine absurd ?_ hnone
      simp only [henabled, Bool.true_and, List.any_eq_true, decide_eq_true_eq]
      exact ⟨user, hmem, hactive⟩

theorem mem_poolSearches (ha : a.reassignFrom = none) {pool : PoolKey × List Id} :
    (∃ x ∈ a.poolSearches s pool, user ∈ x.candidates) ↔ user ∈ pool.2 ∧ a.Present s user := by
  have hexcluded : ∀ id, a.excluded id = false := fun id => by simp [excluded, ha]
  have hcandidates : ∀ key ids, (a.searchIn key ids).candidates = ids := by
    intro key ids
    unfold searchIn
    split <;> rfl
  have hne : ∀ tier : Tier, user ∈ pool.2 → a.tier s user = some tier →
      pool.2.filter (a.tier s · = some tier) ≠ [] := by
    intro tier hmem htier hnil
    have hin : user ∈ pool.2.filter (a.tier s · = some tier) :=
      List.mem_filter.mpr ⟨hmem, decide_eq_true htier⟩
    rw [hnil] at hin
    cases hin
  unfold poolSearches Present
  simp only [hexcluded, Bool.not_false, List.filter_true, List.mem_map]
  constructor
  · rintro ⟨x, ⟨ids, hids, rfl⟩, hmem⟩
    rw [hcandidates] at hmem
    obtain ⟨hids, -⟩ := List.mem_filter.mp hids
    simp only [List.mem_cons, List.not_mem_nil, or_false] at hids
    obtain rfl | rfl := hids <;>
    · obtain ⟨hin, htier⟩ := List.mem_filter.mp hmem
      exact ⟨hin, by simp [decide_eq_true_eq.mp htier]⟩
  · rintro ⟨hin, hpresent⟩
    obtain ⟨tier, htier⟩ := Option.isSome_iff_exists.mp hpresent
    refine ⟨_, ⟨pool.2.filter (a.tier s · = some tier), ?_, rfl⟩, ?_⟩
    · refine List.mem_filter.mpr ⟨?_, decide_eq_true (hne tier hin htier)⟩
      cases tier <;> simp
    · rw [hcandidates]
      exact List.mem_filter.mpr ⟨hin, decide_eq_true htier⟩

/-- The claims of the search are made for whoever is in the pools and there. -/
theorem tried_iff (ha : a.reassignFrom = none) :
    (∃ x ∈ a.searches s, x.Tried s a ∧ user ∈ x.candidates) ↔
      a.InPools s user ∧ a.Present s user := by
  have hteam : (∃ x ∈ a.teamSearches s, user ∈ x.candidates) ↔
      (a.settings.lastAgentEnabled = true ∧ s.previousOperator a.conversationId = some user ∧
        user ∈ a.lastAgentPool ∧ a.tier s user = some .active) ∨
      (∃ pool ∈ a.pools s, user ∈ pool.2) ∧ a.Present s user := by
    constructor
    · rintro ⟨x, hx, hmem⟩
      obtain hx | hx := List.mem_append.mp hx
      · exact .inl ((mem_lastAgentSearch ha).mp ⟨hx, hmem⟩).2
      · obtain ⟨pool, hpool, hx⟩ := List.mem_flatMap.mp hx
        obtain ⟨hin, hpresent⟩ := (mem_poolSearches ha).mp ⟨x, hx, hmem⟩
        exact .inr ⟨⟨pool, hpool, hin⟩, hpresent⟩
    · rintro (hlast | ⟨⟨pool, hpool, hin⟩, hpresent⟩)
      · obtain ⟨hx, hmem⟩ := (mem_lastAgentSearch ha).mpr ⟨rfl, hlast⟩
        exact ⟨_, List.mem_append_left _ hx, hmem⟩
      · obtain ⟨x, hx, hmem⟩ := (mem_poolSearches ha).mpr ⟨hin, hpresent⟩
        exact ⟨x, List.mem_append_right _ (List.mem_flatMap.mpr ⟨pool, hpool, hx⟩), hmem⟩
  -- The claims before the owner's are made whatever the owner's row says.
  have hunowned : ∀ x ∈ a.teamSearches s, x.ofOwner = false := by
    intro x hx
    obtain hx | hx := List.mem_append.mp hx
    · unfold lastAgentSearch at hx
      split at hx
      · obtain ⟨prev, -, rfl⟩ := List.mem_map.mp hx
        rfl
      · cases hx
    · obtain ⟨pool, -, hx⟩ := List.mem_flatMap.mp hx
      obtain ⟨ids, -, rfl⟩ := List.mem_map.mp hx
      unfold searchIn
      split <;> rfl
  constructor
  · rintro ⟨x, hx, htried, hmem⟩
    obtain hx | hx := List.mem_append.mp hx
    · obtain hlast | ⟨hin, hpresent⟩ := hteam.mp ⟨x, hx, hmem⟩
      · exact ⟨.inl hlast, by simp [Present, hlast.2.2.2]⟩
      · exact ⟨.inr (.inl hin), hpresent⟩
    · obtain ⟨owner, howner, rfl⟩ := List.mem_map.mp hx
      cases List.mem_singleton.mp hmem
      obtain ⟨howner, hok⟩ := Option.filter_eq_some_iff.mp (Option.mem_toList.mp howner)
      simp only [Bool.and_eq_true, Bool.not_eq_true'] at hok
      exact ⟨.inr (.inr ⟨howner, hok.1.1.1, htried rfl⟩), hok.2⟩
  · rintro ⟨hin, hpresent⟩
    by_cases hasked : ∃ x ∈ a.teamSearches s, user ∈ x.candidates
    · obtain ⟨x, hx, hmem⟩ := hasked
      refine ⟨x, List.mem_append_left _ hx, fun howner => ?_, hmem⟩
      rw [hunowned x hx] at howner
      cases howner
    · obtain hlast | hpool | ⟨howner, honly, hreceives⟩ := hin
      · exact absurd (hteam.mpr (.inl hlast)) hasked
      · exact absurd (hteam.mpr (.inr ⟨hpool, hpresent⟩)) hasked
      · have hnot : (a.teamSearches s).any (decide <| user ∈ ·.candidates) = false := by
          rw [List.any_eq_false]
          exact fun x hx hmem => hasked ⟨x, hx, decide_eq_true_eq.mp hmem⟩
        refine ⟨_, List.mem_append_right _ (List.mem_map.mpr ⟨user, Option.mem_toList.mpr
          (Option.filter_eq_some_iff.mpr ⟨howner, ?_⟩), rfl⟩), fun _ => hreceives,
          List.mem_singleton.mpr rfl⟩
        have hexcluded : a.excluded user = false := by simp [excluded, ha]
        have htier : (a.tier s user).isSome = true := hpresent
        simp [honly, hnot, hexcluded, htier]

theorem candidates_ne_nil (hx : x ∈ a.searches s) : x.candidates ≠ [] := by
  obtain hx | hx := List.mem_append.mp hx
  · obtain hx | hx := List.mem_append.mp hx
    · unfold lastAgentSearch at hx
      split at hx
      · obtain ⟨prev, -, rfl⟩ := List.mem_map.mp hx
        simp
      · cases hx
    · obtain ⟨pool, -, hx⟩ := List.mem_flatMap.mp hx
      obtain ⟨ids, hids, rfl⟩ := List.mem_map.mp hx
      have hne := decide_eq_true_eq.mp (List.mem_filter.mp hids).2
      unfold searchIn
      split <;> exact hne
  · obtain ⟨owner, -, rfl⟩ := List.mem_map.mp hx
    simp

theorem untried_iff (ha : a.reassignFrom = none) :
    (∀ x ∈ a.searches s, ¬x.Tried s a) ↔ ∀ user, a.InPools s user → ¬a.Present s user := by
  constructor
  · intro h user hin hpresent
    obtain ⟨x, hx, htried, -⟩ := (tried_iff ha).mpr ⟨hin, hpresent⟩
    exact h x hx htried
  · intro h x hx htried
    obtain ⟨user, hmem⟩ := List.exists_mem_of_ne_nil _ (candidates_ne_nil hx)
    obtain ⟨hin, hpresent⟩ := (tried_iff ha).mp ⟨x, hx, htried, hmem⟩
    exact h user hin hpresent

end PickArgs

def CanBeTaken (s : Scene) (a : PickArgs) (db : ChatDb) : Prop :=
  ∃ user, a.InPools s user ∧ a.Present s user ∧ db.MayTake a.workspaceId a.conversationId user

theorem findsTaker_iff (ha : a.reassignFrom = none) :
    FindsTaker s a db (a.searches s) ↔ CanBeTaken s a db := by
  constructor
  · rintro ⟨x, hx, htried, user, hmem, -, htakes⟩
    obtain ⟨hin, hpresent⟩ := (PickArgs.tried_iff ha).mp ⟨x, hx, htried, hmem⟩
    exact ⟨user, hin, hpresent, htakes⟩
  · rintro ⟨user, hin, hpresent, htakes⟩
    obtain ⟨x, hx, htried, hmem⟩ := (PickArgs.tried_iff ha).mpr ⟨hin, hpresent⟩
    exact ⟨x, hx, htried, user, hmem, by simp [ha], htakes⟩

theorem pickOperator_cases (hs : s.Answers) (ha : a.reassignFrom = none)
    (htakes : ∀ x, (a.claimArgs x).Takes db) :
    CanBeTaken s a db ∧ (∃ x order user method, pickOperator s a db =
      (.assigned user method, claimed s.now (a.claimArgs x) order user db)) ∨
    ¬CanBeTaken s a db ∧ ∃ reason, pickOperator s a db = (.none reason, db) ∧
      (reason = .nobodyOnline ↔ ∀ user, a.InPools s user → ¬a.Present s user) := by
  have hcases := @pickFrom_takes db s a hs (a.searches s) htakes 0 false
  rw [findsTaker_iff ha, PickArgs.untried_iff ha] at hcases
  simpa [pickOperator] using hcases

end Kindred.ChatRouting
