import Kindred.ChatRouting.Effects
import Kindred.Lib.Exclusive

/-! Claims under way at the same time. Every statement of a claim sees what is
committed; what the claim writes is run where it commits. -/

namespace Kindred.ChatRouting
open Lib (AtMostOne Table run run_append)
open Lib.Tx

inductive ClaimPhase where
  | called | locked | rowLocked
  | skipRead (skip : List Id)
  | picked (user : Id)
  | answered (outcome : ClaimOutcome)
  | raised (e : RoutingError)
  deriving DecidableEq

def ClaimPhase.holds : ClaimPhase → Bool
  | locked | rowLocked | skipRead _ | picked _ => true
  | _ => false

def ClaimPhase.holdsRow : ClaimPhase → Bool
  | rowLocked | skipRead _ | picked _ => true
  | _ => false

variable {phase : ClaimPhase} {db : ChatDb} {p : ClaimArgs} {user ws id : Id} {i : ℕ}

theorem ClaimPhase.holds_of_holdsRow (h : phase.holdsRow) : phase.holds := by
  cases phase <;> first | rfl | cases h

structure Claim where
  /-- `now()` of its transaction. -/
  now : Timestamp
  args : ClaimArgs
  phase : ClaimPhase := .called
  deriving DecidableEq

structure Sessions where
  db : ChatDb
  claims : List Claim

namespace Sessions

def set (s : Sessions) (i : ℕ) (c : Claim) (phase : ClaimPhase) : Sessions :=
  { s with claims := s.claims.set i { c with phase } }

def free (s : Sessions) (workspaceId : Id) : Bool :=
  s.claims.all fun c => ¬(c.args.workspaceId = workspaceId ∧ c.phase.holds)

def rowFree (s : Sessions) (conversationId : Id) : Bool :=
  s.claims.all fun c => ¬(c.args.conversationId = conversationId ∧ c.phase.holdsRow)

/-- The claim's next statement; one that has to wait does nothing. -/
def advance (s : Sessions) (i : ℕ) (c : Claim) : Sessions :=
  match c.phase with
  | .called =>
    match c.args.checked with
    | .error e => s.set i c (.raised e)
    | .ok _ => if s.free c.args.workspaceId then s.set i c .locked else s
  | .locked =>
    match rowAnswer c.args (s.db.conversationOf c.args.workspaceId c.args.conversationId) with
    | some outcome => s.set i c (.answered outcome)
    | none => s.set i c .rowLocked
  | .rowLocked => s.set i c (.skipRead (s.db.skipUserIds c.args.conversationId))
  | .skipRead skip =>
    match c.args.order with
    | none => s
    | some order =>
      let es := eligible s.db c.args skip
      match pick order (s.db.cursorOf c.args) es with
      | none => s.set i c (.answered (if es.isEmpty then .none else .allBusy))
      | some user => s.set i c (.picked user)
  | .picked user =>
    match c.args.order with
    | none => s
    | some order =>
      if c.args.keyFits order then
        { s.set i c (.answered (.assigned user)) with db := claimed c.now c.args order user s.db }
      else s.set i c (.raised .poolKey)
  | .answered _ | .raised _ => s

end Sessions

/-- A statement of a claim, or another call, which is one transaction: releasing
takes the workspace's lock, skipping and moving by hand do not. -/
inductive Step where
  | advance (i : ℕ)
  | release (now : Timestamp) (workspaceId conversationId : Id) (from_ : Option Id)
      (reason : Option WaitReason)
  | releaseMember (workspaceId userId : Id) (missed : List Id)
  | skip (workspaceId conversationId : Id) (userId : Option Id)
  | move (workspaceId conversationId : Id) (from_ user : Option Id)

namespace Sessions

def step (s : Sessions) : Step → Sessions
  | .advance i =>
    match s.claims[i]? with
    | none => s
    | some c => s.advance i c
  | .release now ws id from_ reason =>
    if s.free ws then { s with db := commit (chatRoutingRelease now ws id from_ reason) s.db }
    else s
  | .releaseMember ws user missed =>
    if s.free ws then { s with db := chatRoutingReleaseMember ws user missed s.db } else s
  | .skip ws id user => { s with db := chatRoutingSkip ws id user s.db }
  | .move ws id from_ user =>
    if s.rowFree id then { s with db := compareAndAssign ws id from_ user s.db } else s

end Sessions

namespace Sessions

def at_ (s : Sessions) (i : ℕ) (c : Claim) (db : ChatDb) (phase : ClaimPhase) : Sessions :=
  { db, claims := s.claims.set i { c with phase } }

section At
variable {s : Sessions} {i : ℕ} {c : Claim} (db : ChatDb) (phase : ClaimPhase)

theorem at_set (phase' : ClaimPhase) :
    (s.at_ i c db phase).set i { c with phase } phase' = s.at_ i c db phase' := by
  simp [at_, set]

theorem at_step (hi : i < s.claims.length) :
    (s.at_ i c db phase).step (.advance i) = (s.at_ i c db phase).advance i { c with phase } := by
  simp [step, at_, hi]

theorem at_over (hi : i < s.claims.length)
    (h : (∃ outcome, phase = .answered outcome) ∨ ∃ e, phase = .raised e) (n : ℕ) :
    run step (s.at_ i c db phase) (List.replicate n (.advance i)) = s.at_ i c db phase := by
  induction n with
  | zero => rfl
  | succ n ih =>
    rw [List.replicate_succ, Lib.run_cons, at_step db phase hi]
    obtain ⟨outcome, rfl⟩ | ⟨e, rfl⟩ := h <;> exact ih

end At

/-- A claim that nobody comes between is `chat_route_claim`. -/
theorem claim_alone {s : Sessions} {i : ℕ} {c : Claim} (hc : s.claims[i]? = some c)
    (hcalled : c.phase = .called) (hfree : s.free c.args.workspaceId) :
    run step s (List.replicate 5 (.advance i)) =
      match chatRouteClaim c.now c.args s.db with
      | .ok (outcome, db) => s.at_ i c db (.answered outcome)
      | .error e => s.at_ i c s.db (.raised e) := by
  obtain ⟨hi, -⟩ := List.getElem?_eq_some_iff.mp hc
  have hfirst : s.step (.advance i) = s.advance i c := by simp [step, hc]
  have hover := fun db outcome => at_over (c := c) db (.answered outcome) hi (.inl ⟨outcome, rfl⟩)
  have hraised := fun e => at_over (c := c) s.db (.raised e) hi (.inr ⟨e, rfl⟩)
  rw [chatRouteClaim_eq, List.replicate_succ, Lib.run_cons, hfirst]
  unfold advance
  rw [hcalled]
  cases hchecked : c.args.checked with
  | error e => exact hraised e 4
  | ok order =>
    have horder : c.args.order = some order := by
      unfold ClaimArgs.checked at hchecked
      split at hchecked
      · cases hchecked
      · split at hchecked <;> cases hchecked
        assumption
    rw [if_pos hfree, show s.set i c .locked = s.at_ i c s.db .locked from rfl,
      List.replicate_succ, Lib.run_cons, at_step _ _ hi]
    unfold advance
    simp only [at_set]
    rw [show (s.at_ i c s.db .locked).db = s.db from rfl]
    cases rowAnswer c.args (s.db.conversationOf c.args.workspaceId c.args.conversationId) with
    | some outcome => exact hover s.db outcome 3
    | none =>
      rw [List.replicate_succ, Lib.run_cons, at_step _ _ hi]
      unfold advance
      simp only [at_set]
      rw [List.replicate_succ, Lib.run_cons, at_step _ _ hi]
      unfold advance
      simp only [at_set, horder]
      rw [show (s.at_ i c s.db .rowLocked).db = s.db from rfl,
        show ∀ skip, (s.at_ i c s.db (.skipRead skip)).db = s.db from fun _ => rfl]
      cases pick order (s.db.cursorOf c.args)
          (eligible s.db c.args (s.db.skipUserIds c.args.conversationId)) with
      | none => exact hover s.db _ 1
      | some user =>
        rw [List.replicate_succ, Lib.run_cons, at_step _ _ hi]
        unfold advance claimEnd require
        simp only [at_set, horder]
        by_cases hkey : c.args.keyFits order
        · rw [if_pos hkey, if_pos hkey]
          simp [at_]
          rfl
        · rw [if_neg hkey, if_neg hkey]
          rfl

end Sessions

def Claim.Holds (c : Claim) (db : ChatDb) : Prop :=
  match c.phase with
  | .rowLocked | .skipRead _ => c.args.Takes db
  | .picked user => c.args.Takes db ∧ Offered db c.args user
  | _ => True

def Claim.HasRoom (c : Claim) (db : ChatDb) : Prop :=
  match c.phase with
  | .picked user => UnderCap db c.args.workspaceId user
  | _ => True

def Claim.Skips (c : Claim) (db : ChatDb) : Prop :=
  match c.phase with
  | .skipRead skip => ∀ user ∈ db.skipUserIds c.args.conversationId,
      some user ∈ c.args.candidates → user ∈ skip
  | .picked user => user ∉ db.skipUserIds c.args.conversationId
  | _ => True

variable {c : Claim}

theorem Claim.takes (h : c.Holds db) (hrow : c.phase.holdsRow) : c.args.Takes db := by
  unfold Holds at h
  cases hp : c.phase with
  | rowLocked | skipRead skip => simpa [hp] using h
  | picked user => exact (by simpa [hp] using h : _ ∧ _).1
  | _ => simp [hp, ClaimPhase.holdsRow] at hrow

section Frame
variable {c : Claim} {db db' : ChatDb}

theorem ClaimArgs.Takes.frame (h : p.Takes db)
    (hrow : db'.conversations.get p.conversationId = db.conversations.get p.conversationId) :
    p.Takes db' := by
  unfold ClaimArgs.Takes
  rw [hrow]
  exact h

theorem Offered.frame (h : Offered db p user) (hmembers : db'.members = db.members)
    : Offered db' p user :=
  ⟨h.candidate, by rw [hmembers]; exact h.member, h.notExpected⟩

theorem UnderCap.frame (h : UnderCap db ws user) (hmembers : db'.members = db.members)
    (hsettings : db'.widgetSettings = db.widgetSettings)
    (hload : db'.openLoad ws user ≤ db.openLoad ws user) : UnderCap db' ws user := by
  intro m hm
  rw [hmembers] at hm
  rw [ChatDb.cap_congr hsettings]
  exact Nat.lt_of_le_of_lt hload (h m hm)

theorem Claim.Holds.elsewhere (h : c.Holds db) (helse : db.Elsewhere ws db')
    (hws : c.phase.holds → c.args.workspaceId ≠ ws) : c.Holds db' := by
  have hrow : c.phase.holdsRow → db'.conversations.get c.args.conversationId =
      db.conversations.get c.args.conversationId := by
    intro hholds
    obtain ⟨row, hget, hrowws, -⟩ := Claim.takes h hholds
    have hne : row.workspaceId ≠ ws := by
      rw [hrowws]
      exact hws (ClaimPhase.holds_of_holdsRow hholds)
    rw [(helse.conversation _ row hget hne).1, hget]
  unfold Holds at h ⊢
  cases hp : c.phase with
  | rowLocked | skipRead skip =>
    simp only [hp] at h ⊢
    exact h.frame (hrow (by rw [hp]; rfl))
  | picked user =>
    simp only [hp] at h ⊢
    exact ⟨h.1.frame (hrow (by rw [hp]; rfl)), h.2.frame helse.members⟩
  | _ => trivial

theorem Claim.HasRoom.elsewhere (h : c.HasRoom db) (helse : db.Elsewhere ws db')
    (hws : c.phase.holds → c.args.workspaceId ≠ ws) : c.HasRoom db' := by
  unfold HasRoom at h ⊢
  cases hp : c.phase with
  | picked user =>
    simp only [hp] at h ⊢
    have hne : c.args.workspaceId ≠ ws := hws (by rw [hp]; rfl)
    exact h.frame helse.members helse.widgetSettings (helse.openLoad _ user hne).le
  | _ => trivial

theorem Claim.Skips.elsewhere (h : c.Skips db) (hholds : c.Holds db) (helse : db.Elsewhere ws db')
    (hws : c.phase.holds → c.args.workspaceId ≠ ws) : c.Skips db' := by
  have hskip : c.phase.holdsRow → db'.skipUserIds c.args.conversationId =
      db.skipUserIds c.args.conversationId := by
    intro hrow
    obtain ⟨row, hget, hrowws, -⟩ := Claim.takes hholds hrow
    have hne : row.workspaceId ≠ ws := by
      rw [hrowws]
      exact hws (ClaimPhase.holds_of_holdsRow hrow)
    exact (helse.conversation _ row hget hne).2
  unfold Skips at h ⊢
  cases hp : c.phase with
  | skipRead skip =>
    simp only [hp] at h ⊢
    rw [hskip (by rw [hp]; rfl)]
    exact h
  | picked user =>
    simp only [hp] at h ⊢
    rw [hskip (by rw [hp]; rfl)]
    exact h
  | _ => trivial

end Frame

inductive Advances (s : Sessions) (c : Claim) : ChatDb → ClaimPhase → Prop
  | waits : Advances s c s.db c.phase
  | raises (e : RoutingError) : Advances s c s.db (.raised e)
  | answers (outcome : ClaimOutcome) (h : ∀ user, outcome ≠ .assigned user) :
      Advances s c s.db (.answered outcome)
  | locks (h : s.free c.args.workspaceId) : Advances s c s.db .locked
  | locksRow (hp : c.phase = .locked) (h : c.args.Takes s.db) : Advances s c s.db .rowLocked
  | reads (hp : c.phase = .rowLocked) :
      Advances s c s.db (.skipRead (s.db.skipUserIds c.args.conversationId))
  | picks (skip : List Id) (user : Id) (hp : c.phase = .skipRead skip)
      (hoffered : Offered s.db c.args user) (hskip : user ∉ skip)
      (hroom : UnderCap s.db c.args.workspaceId user) : Advances s c s.db (.picked user)
  | commits (order : ClaimOrder) (user : Id) (hp : c.phase = .picked user) :
      Advances s c (claimed c.now c.args order user s.db) (.answered (.assigned user))

variable {d : Claim}

namespace Sessions
variable {s : Sessions}

theorem advance_cases (hc : s.claims[i]? = some c) : ∃ db phase, Advances s c db phase ∧
      s.advance i c = { db, claims := s.claims.set i { c with phase } } := by
  have hstays : s = { db := s.db, claims := s.claims.set i { c with phase := c.phase } } := by
    obtain ⟨hi, hget⟩ := List.getElem?_eq_some_iff.mp hc
    have hself : s.claims.set i c = s.claims := by rw [← hget, List.set_getElem_self]
    rw [hself]
  unfold advance
  cases hp : c.phase with
  | called =>
    dsimp only
    split
    · exact ⟨_, _, .raises _, rfl⟩
    split
    · exact ⟨_, _, .locks ‹_›, rfl⟩
    · exact ⟨_, _, .waits, hstays⟩
  | locked =>
    dsimp only
    split
    · rename_i outcome h
      exact ⟨_, _, .answers outcome (rowAnswer_ne_assigned h), rfl⟩
    · exact ⟨_, _, .locksRow hp (rowAnswer_eq_none ‹_›), rfl⟩
  | rowLocked => exact ⟨_, _, .reads hp, rfl⟩
  | skipRead skip =>
    dsimp only
    split
    · exact ⟨_, _, .waits, hstays⟩
    split
    · refine ⟨_, _, .answers _ fun user => ?_, rfl⟩
      split <;> simp
    · rename_i user hpick
      obtain ⟨hoffered, hskip, hroom⟩ := pick_offered hpick
      exact ⟨_, _, .picks skip user hp hoffered hskip hroom, rfl⟩
  | picked user =>
    dsimp only
    split
    · exact ⟨_, _, .waits, hstays⟩
    split
    · exact ⟨_, _, .commits _ user hp, rfl⟩
    · exact ⟨_, _, .raises _, rfl⟩
  | answered outcome => exact ⟨_, _, .waits, hstays⟩
  | raised e => exact ⟨_, _, .waits, hstays⟩

theorem ne_of_free (h : s.free ws) (hc : c ∈ s.claims) (hholds : c.phase.holds)
    : c.args.workspaceId ≠ ws := by
  have hall := List.all_eq_true.mp h c hc
  simp only [decide_eq_true_eq, not_and] at hall
  exact fun hws => hall hws hholds

structure Inv (s : Sessions) : Prop where
  exclusive : ∀ ws, AtMostOne (fun c : Claim => c.args.workspaceId = ws ∧ c.phase.holds) s.claims
  holding : ∀ c ∈ s.claims, c.Holds s.db
  skipLists : s.db.SkipListsOk

theorem Inv.others (h : s.Inv) {j : ℕ} (hc : s.claims[i]? = some c) (hd : s.claims[j]? = some d)
    (hij : j ≠ i) (hcholds : c.phase.holds) (hdholds : d.phase.holds)
    : d.args.workspaceId ≠ c.args.workspaceId := fun hws =>
  hij (h.exclusive c.args.workspaceId j i d c hd hc ⟨hws, hdholds⟩ ⟨rfl, hcholds⟩)

theorem mem_set (h : d ∈ s.claims.set i c) : d = c ∨ ∃ j, j ≠ i ∧ s.claims[j]? = some d := by
  obtain ⟨j, hj⟩ := List.mem_iff_getElem?.mp h
  by_cases hij : i = j
  · subst hij
    rw [List.getElem?_set_self'] at hj
    obtain ⟨_, -, rfl⟩ := Option.map_eq_some_iff.mp hj
    exact .inl rfl
  · rw [List.getElem?_set_ne hij] at hj
    exact .inr ⟨j, Ne.symm hij, hj⟩

end Sessions

namespace Sessions
variable {s : Sessions}

theorem Inv.advance_elsewhere (h : s.Inv) (hc : s.claims[i]? = some c)
    (hadv : Advances s c db phase) :
    db = s.db ∨ c.phase.holds ∧ s.db.Elsewhere c.args.workspaceId db := by
  cases hadv with
  | commits order user hp =>
    have hholds := h.holding c (List.mem_of_getElem? hc)
    have htakes : c.args.Takes s.db := Claim.takes hholds (by rw [hp]; rfl)
    exact .inr ⟨by rw [hp]; rfl, claimed_elsewhere c.now c.args order user htakes⟩
  | _ => exact .inl rfl

theorem Inv.advance (h : s.Inv) (hc : s.claims[i]? = some c) : (s.advance i c).Inv := by
  have hcmem := List.mem_of_getElem? hc
  have hholds := h.holding c hcmem
  have htakes : c.phase.holdsRow → c.args.Takes s.db := Claim.takes hholds
  obtain ⟨db, phase, hadv, heq⟩ := advance_cases hc
  rw [heq]
  refine ⟨fun ws => ?_, fun d hd => ?_, ?_⟩
  · cases hadv with
    | locks hfree =>
      refine (h.exclusive ws).set i _ fun hx j d hij hd hpd => ?_
      have hne := ne_of_free hfree (List.mem_of_getElem? hd) hpd.2
      exact hne (hpd.1.trans hx.1.symm)
    | waits => exact (h.exclusive ws).set_keeps hc id
    | raises | answers | commits =>
      exact (h.exclusive ws).set_keeps hc fun hx => absurd hx.2 (by simp [ClaimPhase.holds])
    | locksRow hp | reads hp | picks skip user hp =>
      exact (h.exclusive ws).set_keeps hc fun hx => ⟨hx.1, by rw [hp]; rfl⟩
  · obtain rfl | ⟨j, hij, hj⟩ := mem_set hd
    · cases hadv with
      | waits => exact hholds
      | locksRow hp hrow => exact hrow
      | reads hp => exact htakes (by rw [hp]; rfl)
      | picks skip user hp hoffered => exact ⟨htakes (by rw [hp]; rfl), hoffered⟩
      | _ => trivial
    · have hdholds := h.holding d (List.mem_of_getElem? hj)
      obtain rfl | ⟨hch, helse⟩ := h.advance_elsewhere hc hadv
      · exact hdholds
      · exact hdholds.elsewhere helse fun hdh => h.others hc hj hij hch hdh
  · cases hadv with
    | commits order user hp => exact claimed_skipLists c.now c.args order user h.skipLists
    | _ => exact h.skipLists

theorem Inv.step (h : s.Inv) (st : Step) : (s.step st).Inv := by
  cases st with
  | advance i =>
    unfold Sessions.step
    dsimp only
    split
    · exact h
    · exact h.advance ‹_›
  | release now ws id from_ reason =>
    unfold Sessions.step
    dsimp only
    split
    · rename_i hfree
      refine ⟨h.exclusive, fun c hc => ?_, release_skipLists h.skipLists⟩
      exact (h.holding c hc).elsewhere (release_elsewhere now ws id from_ reason s.db)
        (ne_of_free hfree hc)
    · exact h
  | releaseMember ws user missed =>
    unfold Sessions.step
    dsimp only
    split
    · rename_i hfree
      refine ⟨h.exclusive, fun c hc => ?_, h.skipLists⟩
      exact (h.holding c hc).elsewhere (releaseMember_elsewhere ws user missed s.db)
        (ne_of_free hfree hc)
    · exact h
  | skip ws id user =>
    obtain ⟨hconv, hmembers, -⟩ := skip_conversations ws id user s.db
    refine ⟨h.exclusive, fun c hc => ?_, skip_skipLists h.skipLists⟩
    have hholds := h.holding c hc
    have htakes : c.args.Takes s.db → c.args.Takes (chatRoutingSkip ws id user s.db) :=
      fun ht => ht.frame (by rw [hconv])
    show c.Holds (chatRoutingSkip ws id user s.db)
    unfold Claim.Holds at hholds ⊢
    cases hp : c.phase with
    | rowLocked | skipRead skip =>
      simp only [hp] at hholds ⊢
      exact htakes hholds
    | picked v =>
      simp only [hp] at hholds ⊢
      exact ⟨htakes hholds.1, hholds.2.frame hmembers⟩
    | _ => trivial
  | move ws id from_ user =>
    unfold Sessions.step
    dsimp only
    split
    · rename_i hfree
      obtain hsame | ⟨row, -, -, hmoved⟩ := compareAndAssign_cases ws id from_ user s.db
      · rw [hsame]
        exact h
      · rw [hmoved]
        refine ⟨h.exclusive, fun c hc => ?_, h.skipLists⟩
        have hholds := h.holding c hc
        have htakes : c.phase.holdsRow → c.args.Takes (s.db.assign id user) := by
          intro hrow
          have hne : c.args.conversationId ≠ id := by
            have hall := List.all_eq_true.mp hfree c hc
            simp only [decide_eq_true_eq, not_and] at hall
            exact fun hid => hall hid hrow
          refine (Claim.takes hholds hrow).frame ?_
          rw [ChatDb.assign_conversation]
          simp [hne]
        show c.Holds (s.db.assign id user)
        unfold Claim.Holds at hholds ⊢
        cases hp : c.phase with
        | rowLocked | skipRead skip => exact htakes (by rw [hp]; rfl)
        | picked v =>
          simp only [hp] at hholds
          exact ⟨htakes (by rw [hp]; rfl), hholds.2.frame rfl⟩
        | _ => trivial
    · exact h

end Sessions

def Step.LeavesLoads (s : Sessions) : Step → Prop
  | .move ws _ _ (some user) => ∀ c ∈ s.claims, c.args.workspaceId = ws →
      (∃ picked, c.phase = .picked picked) → some user ∉ c.args.candidates
  | _ => True

def Step.LeavesSkips (s : Sessions) : Step → Prop
  | .skip _ id (some user) => ∀ c ∈ s.claims, c.args.conversationId = id →
      c.phase.holdsRow → c.phase ≠ .rowLocked → some user ∉ c.args.candidates
  | _ => True

variable {st : Step}

namespace Sessions
variable {s : Sessions}

def HasRoom (s : Sessions) : Prop := ∀ c ∈ s.claims, c.HasRoom s.db

def Skips (s : Sessions) : Prop := ∀ c ∈ s.claims, c.Skips s.db

theorem Inv.hasRoom_step (h : s.Inv) (hroom : s.HasRoom) (hst : st.LeavesLoads s) :
    (s.step st).HasRoom := by
  cases st with
  | advance i =>
    unfold Sessions.step
    dsimp only
    split
    · exact hroom
    rename_i c hc
    obtain ⟨db, phase, hadv, heq⟩ := advance_cases hc
    rw [heq]
    intro d hd
    obtain rfl | ⟨j, hij, hj⟩ := mem_set hd
    · have hcroom := hroom c (List.mem_of_getElem? hc)
      cases hadv with
      | waits => exact hcroom
      | picks skip user hp hoffered hskip hunder => exact hunder
      | _ => trivial
    · have hdroom := hroom d (List.mem_of_getElem? hj)
      obtain rfl | ⟨hch, helse⟩ := h.advance_elsewhere hc hadv
      · exact hdroom
      · exact hdroom.elsewhere helse fun hdh => h.others hc hj hij hch hdh
  | release now ws id from_ reason =>
    unfold Sessions.step
    dsimp only
    split
    · rename_i hfree
      exact fun c hc => (hroom c hc).elsewhere (release_elsewhere now ws id from_ reason s.db)
        (ne_of_free hfree hc)
    · exact hroom
  | releaseMember ws user missed =>
    unfold Sessions.step
    dsimp only
    split
    · rename_i hfree
      exact fun c hc => (hroom c hc).elsewhere (releaseMember_elsewhere ws user missed s.db)
        (ne_of_free hfree hc)
    · exact hroom
  | skip ws id user =>
    obtain ⟨hconv, hmembers, hsettings⟩ := skip_conversations ws id user s.db
    intro c hc
    have hcroom := hroom c hc
    show c.HasRoom (chatRoutingSkip ws id user s.db)
    unfold Claim.HasRoom at hcroom ⊢
    split
    · rename_i v hp
      simp only [hp] at hcroom
      refine hcroom.frame hmembers hsettings ?_
      unfold ChatDb.openLoad
      rw [hconv]
    · trivial
  | move ws id from_ user =>
    unfold Sessions.step
    dsimp only
    split
    · obtain hsame | ⟨row, hrow, -, hmoved⟩ := compareAndAssign_cases ws id from_ user s.db
      · rw [hsame]
        exact hroom
      · obtain ⟨hget, hws⟩ := ChatDb.conversationOf_eq_some.mp hrow
        rw [hmoved]
        intro c hc
        have hcroom := hroom c hc
        have hholds := h.holding c hc
        show c.HasRoom (s.db.assign id user)
        unfold Claim.HasRoom at hcroom ⊢
        cases hp : c.phase with
        | picked v =>
          simp only [hp] at hcroom
          simp only [Claim.Holds, hp] at hholds
          refine hcroom.frame rfl rfl ?_
          -- A chat given to the pick is another workspace's.
          by_cases huser : user = some v
          · refine (ChatDb.openLoad_assign_of_ne s.db id (fun row' hrow' => ?_) user v).le
            rw [hget] at hrow'
            cases hrow'
            subst huser
            exact fun he => hst c hc (he.symm.trans hws) ⟨v, hp⟩ hholds.2.candidate
          · exact ChatDb.openLoad_assign_le s.db id huser _
        | _ => trivial
    · exact hroom

theorem Inv.skips_step (h : s.Inv) (hskips : s.Skips) (hst : st.LeavesSkips s) :
    (s.step st).Skips := by
  cases st with
  | advance i =>
    unfold Sessions.step
    dsimp only
    split
    · exact hskips
    rename_i c hc
    have hcskips := hskips c (List.mem_of_getElem? hc)
    obtain ⟨db, phase, hadv, heq⟩ := advance_cases hc
    rw [heq]
    intro d hd
    obtain rfl | ⟨j, hij, hj⟩ := mem_set hd
    · cases hadv with
      | waits => exact hcskips
      | reads hp => exact fun user hmem _ => hmem
      | picks skip user hp hoffered hskip =>
        simp only [Claim.Skips, hp] at hcskips
        exact fun hmem => hskip (hcskips user hmem hoffered.candidate)
      | _ => trivial
    · have hdmem := List.mem_of_getElem? hj
      obtain rfl | ⟨hch, helse⟩ := h.advance_elsewhere hc hadv
      · exact hskips d hdmem
      · exact (hskips d hdmem).elsewhere (h.holding d hdmem) helse fun hdh =>
          h.others hc hj hij hch hdh
  | release now ws id from_ reason =>
    unfold Sessions.step
    dsimp only
    split
    · rename_i hfree
      exact fun c hc => (hskips c hc).elsewhere (h.holding c hc)
        (release_elsewhere now ws id from_ reason s.db) (ne_of_free hfree hc)
    · exact hskips
  | releaseMember ws user missed =>
    unfold Sessions.step
    dsimp only
    split
    · exact fun c hc => hskips c hc
    · exact hskips
  | skip ws id user =>
    intro c hc
    have hcskips := hskips c hc
    have hjoins : ∀ v, v ∈ (chatRoutingSkip ws id user s.db).skipUserIds c.args.conversationId →
        c.phase.holdsRow → c.phase ≠ .rowLocked → some v ∈ c.args.candidates →
        v ∈ s.db.skipUserIds c.args.conversationId := by
      intro v hv hrow hread hcand
      obtain hv | ⟨hid, rfl⟩ := mem_skip_imp hv
      · exact hv
      · exact absurd hcand (hst c hc hid hrow hread)
    show c.Skips (chatRoutingSkip ws id user s.db)
    unfold Claim.Skips at hcskips ⊢
    cases hp : c.phase with
    | skipRead skip =>
      simp only [hp] at hcskips ⊢
      exact fun v hv hcand => hcskips v (hjoins v hv (by rw [hp]; rfl) (by simp [hp]) hcand) hcand
    | picked v =>
      have hholds := h.holding c hc
      simp only [hp] at hcskips ⊢
      simp only [Claim.Holds, hp] at hholds
      exact fun hv => hcskips (hjoins v hv (by rw [hp]; rfl) (by simp [hp]) hholds.2.candidate)
    | _ => trivial
  | move ws id from_ user =>
    unfold Sessions.step
    dsimp only
    split
    · obtain hsame | ⟨row, -, -, hmoved⟩ := compareAndAssign_cases ws id from_ user s.db
      · rw [hsame]
        exact hskips
      · rw [hmoved]
        exact hskips
    · exact hskips

end Sessions

def Step.ByClaims : Step → Prop
  | .move _ _ _ user => user = none
  | _ => True

def ChatDb.WithinCaps (db : ChatDb) : Prop :=
  ∀ ws user m, db.members.get (ws, user) = some m → db.openLoad ws user ≤ db.cap ws m

def Sessions.holder (s : Sessions) (id : Id) : Option Id :=
  (s.db.conversations.get id).bind (·.assignedTo)

/-- The statement commits a claim, which assigns its conversation to `user`. -/
def Sessions.Assigns (s : Sessions) (st : Step) (c : Claim) (user : Id) : Prop :=
  ∃ i, st = .advance i ∧ s.claims[i]? = some c ∧ c.phase ≠ .answered (.assigned user) ∧
    (s.step st).claims[i]? = some { c with phase := .answered (.assigned user) }

structure Moves (db db' : ChatDb) (p : ClaimArgs) (user : Id) : Prop where
  moved : ∃ c, db.conversations.get p.conversationId = some c ∧ c.workspaceId = p.workspaceId ∧
    c.assignedTo = p.expectedAssignee ∧
    db'.conversations.get p.conversationId = some { c with assignedTo := some user }
  candidate : some user ∈ p.candidates
  member : ∃ m, db.members.get (p.workspaceId, user) = some m ∧ m.suspendedAt = none ∧
    m.receivesChats = true

namespace Sessions
variable {s : Sessions}

theorem Assigns.commits (h : s.Assigns st c user) : ∃ order, c ∈ s.claims ∧ c.phase = .picked user ∧
      (s.step st).db = claimed c.now c.args order user s.db := by
  obtain ⟨i, rfl, hc, hbefore, hafter⟩ := h
  have hstep : s.step (.advance i) = s.advance i c := by simp [Sessions.step, hc]
  obtain ⟨db, phase, hadv, heq⟩ := advance_cases hc
  rw [hstep] at hafter ⊢
  rw [heq, List.getElem?_set_self', hc] at hafter
  have hphase : phase = .answered (.assigned user) := congrArg Claim.phase (Option.some.inj hafter)
  rw [heq]
  cases hadv with
  | waits => exact absurd hphase hbefore
  | answers outcome hne => exact absurd (ClaimPhase.answered.inj hphase) (hne user)
  | commits order picked hp =>
    cases hphase
    exact ⟨order, List.mem_of_getElem? hc, hp, rfl⟩
  | _ => cases hphase

theorem Inv.assigns_moves (h : s.Inv) (hassigns : s.Assigns st c user)
    : Moves s.db (s.step st).db c.args user := by
  obtain ⟨order, hc, hp, hdb⟩ := hassigns.commits
  have hholds := h.holding c hc
  simp only [Claim.Holds, hp] at hholds
  obtain ⟨⟨row, hget, hws, -, hfrom⟩, hoffered⟩ := hholds
  obtain ⟨m, hm, hreceiving⟩ := hoffered.member
  refine ⟨⟨row, hget, hws, hfrom, ?_⟩, hoffered.candidate, m, hm, ?_⟩
  · rw [hdb, claimed_conversations, ChatDb.assign_conversation, hget]
    simp
  · simpa [Member.receiving] using hreceiving

theorem Inv.withinCaps_step (h : s.Inv) (hroom : s.HasRoom) (hcaps : s.db.WithinCaps)
    (hst : st.ByClaims) : (s.step st).db.WithinCaps := by
  have hkeeps : ∀ db' : ChatDb, db'.members = s.db.members → db'.widgetSettings = s.db.widgetSettings →
      (∀ ws user, db'.openLoad ws user ≤ s.db.openLoad ws user) → db'.WithinCaps := by
    intro db' hmembers hsettings hload ws user m hm
    rw [hmembers] at hm
    rw [ChatDb.cap_congr hsettings]
    exact Nat.le_trans (hload ws user) (hcaps ws user m hm)
  cases st with
  | advance i =>
    unfold Sessions.step
    dsimp only
    split
    · exact hcaps
    rename_i c hc
    have hcmem := List.mem_of_getElem? hc
    obtain ⟨db, phase, hadv, heq⟩ := advance_cases hc
    rw [heq]
    cases hadv with
    | commits order user hp =>
      have hunder := hroom c hcmem
      have hholds := h.holding c hcmem
      simp only [Claim.HasRoom, hp] at hunder
      simp only [Claim.Holds, hp] at hholds
      obtain ⟨⟨row, hget, hws, -⟩, -⟩ := hholds
      intro ws v m hm
      show (claimed c.now c.args order user s.db).openLoad ws v ≤ _
      have hcap : ∀ m, (claimed c.now c.args order user s.db).cap ws m = s.db.cap ws m :=
        ChatDb.cap_congr rfl ws
      rw [claimed_openLoad, hcap]
      by_cases huser : some user = some v
      · cases huser
        by_cases hw : c.args.workspaceId = ws
        · subst hw
          have hsucc := ChatDb.openLoad_assign_le_succ s.db c.args.conversationId (some user)
            c.args.workspaceId user
          have hlt := hunder m hm
          omega
        · have hne : ∀ row', s.db.conversations.get c.args.conversationId = some row' →
              row'.workspaceId ≠ ws := by
            intro row' hrow'
            rw [hget] at hrow'
            cases hrow'
            rwa [hws]
          rw [ChatDb.openLoad_assign_of_ne s.db _ hne]
          exact hcaps ws user m hm
      · exact Nat.le_trans (ChatDb.openLoad_assign_le s.db _ huser ws) (hcaps ws v m hm)
    | _ => exact hcaps
  | release now ws id from_ reason =>
    unfold Sessions.step
    dsimp only
    split
    · have helse := release_elsewhere now ws id from_ reason s.db
      exact hkeeps _ helse.members helse.widgetSettings
        (release_openLoad_le now ws id from_ reason s.db)
    · exact hcaps
  | releaseMember ws user missed =>
    unfold Sessions.step
    dsimp only
    split
    · exact hkeeps _ rfl rfl (releaseMember_openLoad_le ws user missed s.db)
    · exact hcaps
  | skip ws id user =>
    obtain ⟨hconv, hmembers, hsettings⟩ := skip_conversations ws id user s.db
    have hload : ∀ ws' v, (chatRoutingSkip ws id user s.db).openLoad ws' v = s.db.openLoad ws' v := by
      intro ws' v
      unfold ChatDb.openLoad
      rw [hconv]
    exact hkeeps _ hmembers hsettings fun ws' v => (hload ws' v).le
  | move ws id from_ user =>
    cases (show user = none from hst)
    unfold Sessions.step
    dsimp only
    split
    · obtain hsame | ⟨row, -, -, hmoved⟩ := compareAndAssign_cases ws id from_ none s.db
      · rw [hsame]
        exact hcaps
      · rw [hmoved]
        exact hkeeps _ rfl rfl fun ws' v => ChatDb.openLoad_assign_le s.db id (by simp) ws'
    · exact hcaps

/-- A claim that commits leaves every conversation that somebody has with somebody. -/
theorem holder_advance (hid : (s.holder id).isSome) : ((s.step (.advance i)).holder id).isSome := by
  unfold Sessions.step
  dsimp only
  split
  · exact hid
  rename_i c hc
  obtain ⟨db, phase, hadv, heq⟩ := advance_cases hc
  rw [heq]
  cases hadv with
  | commits order user hp =>
    unfold holder at hid ⊢
    rw [claimed_conversations, ChatDb.assign_conversation]
    cases hrow : s.db.conversations.get id with
    | none => simp [hrow] at hid
    | some row =>
      simp only [hrow, Option.bind_some] at hid
      split
      · rfl
      · exact hid
  | _ => exact hid

def LetsGo (s : Sessions) (st : Step) (id : Id) : Prop :=
  (∀ i, st ≠ .advance i) ∧ (s.holder id).isSome ∧ (s.step st).holder id = none

theorem let_go (hid : (s.holder id).isSome) (steps : List Step)
    (hend : (run step s steps).holder id = none) :
    ∃ pre st post, steps = pre ++ st :: post ∧ (run step s pre).LetsGo st id := by
  induction steps generalizing s with
  | nil =>
    rw [show s.holder id = none from hend] at hid
    cases hid
  | cons st steps ih =>
    cases hnext : (s.step st).holder id with
    | none =>
      refine ⟨[], st, steps, rfl, ?_, hid, hnext⟩
      rintro i rfl
      have hkept : ((s.step (.advance i)).holder id).isSome := holder_advance hid
      rw [hnext] at hkept
      cases hkept
    | some user =>
      have hsome : ((s.step st).holder id).isSome := by rw [hnext]; rfl
      obtain ⟨pre, st', post, rfl, hgo⟩ := ih hsome hend
      exact ⟨st :: pre, st', post, rfl, hgo⟩

end Sessions

def Claim.FromNobody (c : Claim) (id : Id) : Prop :=
  c.args.conversationId = id ∧ c.args.expectedAssignee = none

/-- No claim has begun, and the skip lists are in order. -/
structure Sessions.Starts (s : Sessions) : Prop where
  claims : ∀ c ∈ s.claims, c.phase = .called
  skipLists : s.db.SkipListsOk

/-- What holds of a run, whatever its steps are. -/
structure AssignsSafely (s : Sessions) (steps : List Step) : Prop where
  moves : ∀ pre st post, steps = pre ++ st :: post → ∀ c user,
    (run Sessions.step s pre).Assigns st c user →
      Moves (run Sessions.step s pre).db ((run Sessions.step s pre).step st).db c.args user
  once : ∀ pre st mid st' post, steps = pre ++ st :: (mid ++ st' :: post) → ∀ id c c' user user',
    c.args.conversationId = id → c'.FromNobody id →
    (run Sessions.step s pre).Assigns st c user →
    (run Sessions.step s (pre ++ st :: mid)).Assigns st' c' user' →
      ∃ before go after, mid = before ++ go :: after ∧
        (run Sessions.step s (pre ++ st :: before)).LetsGo go id
  skipLists : ∀ pre post, steps = pre ++ post → (run Sessions.step s pre).db.SkipListsOk
  withinCaps : (∀ st ∈ steps, st.ByClaims) → s.db.WithinCaps →
    ∀ pre post, steps = pre ++ post → (run Sessions.step s pre).db.WithinCaps

namespace Sessions
variable {s : Sessions}

theorem Starts.inv (h : s.Starts) : s.Inv := by
  have hcalled : ∀ c ∈ s.claims, ¬c.phase.holds := fun c hc => by simp [h.claims c hc, ClaimPhase.holds]
  refine ⟨fun ws => AtMostOne.of_none fun c hc hholds => hcalled c hc hholds.2, fun c hc => ?_,
    h.skipLists⟩
  simp [Claim.Holds, h.claims c hc]

theorem Starts.hasRoom (h : s.Starts) : s.HasRoom := fun c hc => by
  simp [Claim.HasRoom, h.claims c hc]

theorem Starts.skips (h : s.Starts) : s.Skips := fun c hc => by simp [Claim.Skips, h.claims c hc]

theorem inv_run (h : s.Inv) (steps : List Step) : (run step s steps).Inv :=
  Lib.run_invariant (fun _ st hs => hs.step st) h steps

theorem withinCaps_run (h : s.Inv) (hroom : s.HasRoom) (hcaps : s.db.WithinCaps)
    {steps : List Step} (hsteps : ∀ st ∈ steps, st.ByClaims) :
    (run step s steps).db.WithinCaps := by
  have hkept : (run step s steps).Inv ∧ (run step s steps).HasRoom ∧
      (run step s steps).db.WithinCaps := by
    refine Lib.run_keeps (I := fun s => s.Inv ∧ s.HasRoom ∧ s.db.WithinCaps)
      (fun s st hs hst => ?_) ⟨h, hroom, hcaps⟩ (Lib.meets_of_forall hsteps s)
    refine ⟨hs.1.step st, hs.1.hasRoom_step hs.2.1 ?_, hs.1.withinCaps_step hs.2.1 hs.2.2 hst⟩
    cases st with
    | move ws id from_ user =>
      cases (show user = none from hst)
      trivial
    | _ => trivial
  exact hkept.2.2

theorem assigns_safely (h : s.Inv) (hroom : s.HasRoom) (steps : List Step) :
    AssignsSafely s steps := by
  refine ⟨?_, ?_, fun pre post _ => (inv_run h pre).skipLists, ?_⟩
  · intro pre st post _ c user hassigns
    exact (inv_run h pre).assigns_moves hassigns
  · intro pre st mid st' post _ id c c' user user' hid hnobody hfirst hsecond
    have hfirst := ((inv_run h pre).assigns_moves hfirst).moved
    have hsecond := ((inv_run h _).assigns_moves hsecond).moved
    obtain ⟨row, -, -, -, hgiven⟩ := hfirst
    obtain ⟨row', hrow', -, hfree, -⟩ := hsecond
    rw [hid] at hgiven
    rw [hnobody.1] at hrow'
    rw [hnobody.2] at hfree
    have hheld : ((run step s (pre ++ [st])).holder id).isSome := by
      rw [run_append]
      simp [holder, hgiven]
    have hend : (run step (run step s (pre ++ [st])) mid).holder id = none := by
      rw [← run_append, List.append_assoc]
      simp [holder, hrow', hfree]
    obtain ⟨before, go, after, rfl, hgo⟩ := let_go hheld mid hend
    refine ⟨before, go, after, rfl, ?_⟩
    rwa [← run_append, List.append_assoc] at hgo
  · intro hclaims hcaps pre post hsplit
    exact withinCaps_run h hroom hcaps fun st hst => hclaims st (hsplit ▸ List.mem_append_left post hst)

end Sessions

def Step.Quiet (s : Sessions) (st : Step) : Prop := st.LeavesSkips s ∧ st.LeavesLoads s

/-- Whoever is given a chat is not on its skip list and has room. -/
theorem routing_assigns_safely (s : Sessions) (hs : s.Starts) (steps : List Step) :
    AssignsSafely s steps ∧
      (Lib.Meets Sessions.step Step.Quiet s steps → ∀ pre st post, steps = pre ++ st :: post →
        ∀ c user, (run Sessions.step s pre).Assigns st c user →
          user ∉ (run Sessions.step s pre).db.skipUserIds c.args.conversationId ∧
            UnderCap (run Sessions.step s pre).db c.args.workspaceId user) := by
  refine ⟨Sessions.assigns_safely hs.inv hs.hasRoom steps, ?_⟩
  intro hquiet pre st post hsplit c user hassigns
  have hpre : Lib.Meets Sessions.step Step.Quiet s pre := by
    rw [hsplit] at hquiet
    exact hquiet.append_left
  have hkept : (run Sessions.step s pre).Inv ∧ (run Sessions.step s pre).HasRoom ∧
      (run Sessions.step s pre).Skips := by
    refine Lib.run_keeps (I := fun s => s.Inv ∧ s.HasRoom ∧ s.Skips) (fun s st hs hst => ?_)
      ⟨hs.inv, hs.hasRoom, hs.skips⟩ hpre
    exact ⟨hs.1.step st, hs.1.hasRoom_step hs.2.1 hst.2, hs.1.skips_step hs.2.2 hst.1⟩
  obtain ⟨order, hc, hp, -⟩ := hassigns.commits
  have hroom := hkept.2.1 c hc
  have hskips := hkept.2.2 c hc
  simp only [Claim.HasRoom, hp] at hroom
  simp only [Claim.Skips, hp] at hskips
  exact ⟨hskips, hroom⟩

def oneDesk : ChatDb where
  conversations := (Table.empty.put 1 { workspaceId := 1 }).put 2 { workspaceId := 1 }
  members := Table.empty.put (1, 7) { maxConcurrentChats := some 1 }

def offer (conversationId : Id) : Claim where
  now := 0
  args := {
    workspaceId := 1, conversationId, candidates := [some 7], order := some .given
    poolKey := none, method := some "auto" }

def twoOffers : Sessions := { db := oneDesk, claims := [offer 1, offer 2] }

theorem twoOffers_starts : twoOffers.Starts := by
  refine ⟨by decide, fun id row h => ?_⟩
  cases h

theorem routing_assigns_safely_two :
    AssignsSafely twoOffers (List.replicate 5 (.advance 0) ++ List.replicate 5 (.advance 1)) ∧
      (run Sessions.step twoOffers
        (List.replicate 5 (.advance 0) ++ List.replicate 5 (.advance 1))).holder 1 = some 7 ∧
      (run Sessions.step twoOffers
        (List.replicate 5 (.advance 0) ++ List.replicate 5 (.advance 1))).holder 2 = none :=
  ⟨(routing_assigns_safely twoOffers twoOffers_starts _).1, by decide +kernel, by decide +kernel⟩

theorem claim_alone_first :
    (run Sessions.step twoOffers (List.replicate 5 (.advance 0))).holder 1 = some 7 := by
  rw [Sessions.claim_alone rfl rfl (by decide)]
  decide +kernel

def skippedMeanwhile : List Step :=
  [.advance 0, .advance 0, .advance 0, .skip 1 1 (some 7), .advance 0]

def takenMeanwhile : List Step :=
  List.replicate 4 (.advance 0) ++ [.move 1 2 none (some 7)]

theorem given_though_skipped_or_full :
    ((run Sessions.step twoOffers skippedMeanwhile).Assigns (.advance 0)
        { offer 1 with phase := .picked 7 } 7 ∧
      7 ∈ (run Sessions.step twoOffers skippedMeanwhile).db.skipUserIds 1) ∧
    ((run Sessions.step twoOffers takenMeanwhile).Assigns (.advance 0)
        { offer 1 with phase := .picked 7 } 7 ∧
      (run Sessions.step twoOffers takenMeanwhile).db.openLoad 1 7 = 1) :=
  ⟨⟨⟨0, rfl, by decide +kernel, by decide, by decide +kernel⟩, by decide +kernel⟩,
    ⟨0, rfl, by decide +kernel, by decide, by decide +kernel⟩, by decide +kernel⟩

end Kindred.ChatRouting
