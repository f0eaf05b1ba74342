import Kindred.Lib.Rotation
import Kindred.ChatRouting.Forgetting

/-! The rotation of a pool: nobody who could take a chat is passed over. -/

namespace Kindred.ChatRouting
open Lib (Table run Meets Sooner)
open Lib.Tx

theorem compare_roundRobin (last : Id) (a b : Eligible) :
    (a.compare .roundRobin (some last) b).isLE = true ↔ (last < a.userId ∧ b.userId ≤ last) ∨
        ((last < a.userId ↔ last < b.userId) ∧
          (a.userId < b.userId ∨ a.userId = b.userId ∧ a.ord ≤ b.ord)) := by
  unfold Eligible.compare
  simp only [Option.any_some, Ordering.isLE_then_iff_or, Ordering.then_eq_lt, Ordering.then_eq_eq,
    Nat.compare_eq_lt, Nat.compare_eq_eq, Nat.isLE_compare]
  by_cases ha : a.userId ≤ last <;> by_cases hb : b.userId ≤ last
  · simp only [ha, hb, not_lt.mpr ha, not_lt.mpr hb]
    grind
  · simp [ha, hb, not_lt.mpr ha, not_le.mp hb]
  · have hbool : compare false true = Ordering.lt := by decide
    simp [ha, hb, not_le.mp ha, hbool]
  · simp only [ha, hb, not_le.mp ha, not_le.mp hb]
    grind

variable {user first other : Id}

theorem pick_sooner {last : Id} {es : List Eligible}
    (h : pick .roundRobin (some last) es = some user) {e : Eligible} (he : e ∈ es)
    (hroom : e.openLoad < e.cap) (hne : e.userId ≠ user) : Sooner last user e.userId := by
  let r (a b : Eligible) : Prop := (a.compare .roundRobin (some last) b).isLE = true
  have : Std.Total r := ⟨fun a b => by simp only [r, compare_roundRobin]; grind⟩
  have : IsTrans _ r := ⟨fun a b c => by simp only [r, compare_roundRobin]; grind⟩
  obtain ⟨x, hx, rfl⟩ := Option.map_eq_some_iff.mp h
  have hsorted := List.pairwise_insertionSort r (es.filter fun e => e.openLoad < e.cap)
  have hmem : e ∈ (es.filter fun e => e.openLoad < e.cap).insertionSort r :=
    List.mem_insertionSort r |>.mpr (List.mem_filter.mpr ⟨he, decide_eq_true hroom⟩)
  change (List.insertionSort r _).head? = some x at hx
  cases hl : (es.filter fun e => e.openLoad < e.cap).insertionSort r with
  | nil => simp [hl] at hx
  | cons y ys =>
    rw [hl] at hx hmem hsorted
    obtain rfl : y = x := by simpa using hx
    rcases List.mem_cons.mp hmem with rfl | hmem
    · exact absurd rfl hne
    · have hle := (List.pairwise_cons.mp hsorted).1 e hmem
      simp only [r, compare_roundRobin] at hle
      unfold Sooner
      grind

inductive RotationEvent where
  | claim (now : Timestamp) (p : ClaimArgs)
  | changed (db : ChatDb)

def rotationStep (db : ChatDb) : RotationEvent → ChatDb
  | .claim now p => commit (chatRouteClaim now p) db
  | .changed db' => { db' with cursors := db.cursors }

def ClaimArgs.Rotates (p : ClaimArgs) (pool : Id × String) : Prop :=
  p.order = some .roundRobin ∧ p.workspaceId = pool.1 ∧ p.poolKey = some pool.2

def Picks (pool : Id × String) (db : ChatDb) (event : RotationEvent) (user : Id) : Prop :=
  ∃ now p db', event = .claim now p ∧ p.Rotates pool ∧
    chatRouteClaim now p db = .ok (.assigned user, db')

/-- The member is eligible for the claim, and under capacity. -/
def Ready (db : ChatDb) (event : RotationEvent) (user : Id) : Prop :=
  ∀ now p, event = .claim now p → ∃ e ∈ eligible db p (db.skipUserIds p.conversationId),
    e.userId = user ∧ e.openLoad < e.cap

theorem chatRouteClaim_assigned {now : Timestamp} {p : ClaimArgs} {db db' : ChatDb}
    (h : chatRouteClaim now p db = .ok (.assigned user, db')) :
    ∃ order, p.order = some order ∧ db' = claimed now p order user db ∧
      pick order (db.cursorOf p) (eligible db p (db.skipUserIds p.conversationId)) = some user := by
  rw [chatRouteClaim_eq] at h
  cases hchecked : p.checked with
  | error e => simp [hchecked] at h
  | ok order =>
    simp only [hchecked] at h
    have horder : p.order = some order := by
      unfold ClaimArgs.checked at hchecked
      cases ho : p.order with
      | none => simp [ho] at hchecked
      | some o =>
        simp only [ho] at hchecked
        split_ifs at hchecked
        cases hchecked
        rfl
    cases hrow : rowAnswer p (db.conversationOf p.workspaceId p.conversationId) with
    | some answer =>
      simp only [hrow, Except.ok.injEq, Prod.mk.injEq] at h
      exact absurd h.1 (rowAnswer_ne_assigned hrow user)
    | none =>
      simp only [hrow] at h
      cases hpick : pick order (db.cursorOf p)
          (eligible db p (db.skipUserIds p.conversationId)) with
      | none =>
        rw [hpick] at h
        have hend := pure_ok.mp h
        split at hend <;> cases hend
      | some picked =>
        rw [hpick] at h
        obtain ⟨-, h⟩ := require_bind_ok.mp h
        cases pure_ok.mp h
        exact ⟨order, horder, rfl, hpick⟩

theorem claimed_cursors (now : Timestamp) (p : ClaimArgs) (order : ClaimOrder) (user : Id)
    (db : ChatDb) : (claimed now p order user db).cursors =
      match order, p.poolKey with
      | .roundRobin, some key => db.cursors.put (p.workspaceId, key) user
      | _, _ => db.cursors := rfl

section
variable {pool : Id × String} {db : ChatDb} {event : RotationEvent}

theorem cursor_of_picks (h : Picks pool db event user) :
    (rotationStep db event).cursors.get pool = some user := by
  obtain ⟨now, p, db', rfl, ⟨horder, hws, hkey⟩, hclaim⟩ := h
  obtain ⟨order, ho, rfl, -⟩ := chatRouteClaim_assigned hclaim
  obtain rfl : order = .roundRobin := by simpa [ho] using horder
  have hstep : rotationStep db (.claim now p) = claimed now p .roundRobin user db := by
    simp [rotationStep, commit, hclaim]
  rw [hstep, claimed_cursors, hkey, hws]
  exact Table.get_put_self _ _ _

theorem cursor_of_not_picks (h : ∀ user, ¬Picks pool db event user) :
    (rotationStep db event).cursors.get pool = db.cursors.get pool := by
  cases event with
  | changed db' => rfl
  | claim now p =>
    cases hclaim : chatRouteClaim now p db with
    | error e => simp [rotationStep, commit, hclaim]
    | ok r =>
      obtain ⟨outcome, db'⟩ := r
      have hstep : rotationStep db (.claim now p) = db' := by simp [rotationStep, commit, hclaim]
      rw [hstep]
      obtain ⟨-, rfl⟩ | ⟨-, user, rfl, -⟩ := chatRouteClaim_cases hclaim
      · rfl
      · obtain ⟨order, ho, rfl, -⟩ := chatRouteClaim_assigned hclaim
        rw [claimed_cursors]
        split
        · rename_i key hkey
          refine Table.get_put_ne _ _ fun hpool => h user ⟨now, p, _, rfl, ⟨ho, ?_⟩, hclaim⟩
          rw [hpool]
          exact ⟨rfl, hkey⟩
        · rfl

def Waits (pool : Id × String) (first other : Id) (db : ChatDb) : Prop :=
  ∃ last, db.cursors.get pool = some last ∧ (last = first ∨ Sooner first last other)

theorem Waits.picks (h : Waits pool first other db) (hpick : Picks pool db event user)
    (hready : Ready db event other) (hne : other ≠ user) : Sooner first user other := by
  obtain ⟨last, hlast, hbetween⟩ := h
  obtain ⟨now, p, db', rfl, ⟨horder, hws, hkey⟩, hclaim⟩ := hpick
  obtain ⟨order, ho, -, hpicked⟩ := chatRouteClaim_assigned hclaim
  obtain rfl : order = .roundRobin := by simpa [ho] using horder
  have hcursor : db.cursorOf p = some last := by
    simpa [ChatDb.cursorOf, hkey, hws] using hlast
  obtain ⟨e, he, rfl, hroom⟩ := hready now p rfl
  rw [hcursor] at hpicked
  exact Sooner.next hbetween (pick_sooner hpicked he hroom hne)

theorem Waits.step (h : Waits pool first other db)
    (hready : ∀ user, Picks pool db event user → Ready db event other)
    (hnot : ¬Picks pool db event other) : Waits pool first other (rotationStep db event) := by
  by_cases hpick : ∃ user, Picks pool db event user
  · obtain ⟨user, hpick⟩ := hpick
    have hne : other ≠ user := fun he => hnot (he ▸ hpick)
    exact ⟨user, cursor_of_picks hpick, .inr (h.picks hpick (hready user hpick) hne)⟩
  · obtain ⟨last, hlast, hbetween⟩ := h
    exact ⟨last, (cursor_of_not_picks (not_exists.mp hpick)).trans hlast, hbetween⟩

end

theorem Waits.run {pool : Id × String} {db : ChatDb} {events : List RotationEvent}
    (h : Waits pool first other db)
    (hready : Meets rotationStep (fun db event => ∀ user, Picks pool db event user →
      Ready db event other) db events) : (∃ before event after, events = before ++ event :: after ∧
      Picks pool (run rotationStep db before) event other) ∨
    Waits pool first other (run rotationStep db events) := by
  induction events generalizing db with
  | nil => exact .inr h
  | cons event events ih =>
    by_cases hnow : Picks pool db event other
    · exact .inl ⟨[], event, events, rfl, hnow⟩
    · obtain ⟨before, e, after, rfl, hpick⟩ | hwaits := ih (h.step hready.1 hnow) hready.2
      · exact .inl ⟨event :: before, e, after, rfl, hpick⟩
      · exact .inr hwaits

/-- Between two claims of a pool that pick the same member, everybody else who was
eligible and under capacity whenever the pool picked, the second time included,
was picked too. -/
theorem round_robin_fair (pool : Id × String) (db : ChatDb) (first last : RotationEvent)
    (between : List RotationEvent) (user other : Id) (hne : other ≠ user)
    (hfirst : Picks pool db first user)
    (hlast : Picks pool (run rotationStep db (first :: between)) last user)
    (hready : Meets rotationStep (fun db event => ∀ picked, Picks pool db event picked →
      Ready db event other) (rotationStep db first) (between ++ [last])) :
    ∃ before event after, between = before ++ event :: after ∧
      Picks pool (run rotationStep db (first :: before)) event other := by
  have hstart : Waits pool user other (rotationStep db first) :=
    ⟨user, cursor_of_picks hfirst, .inl rfl⟩
  have hend := hready.append_right
  obtain hpicked | hwaits := hstart.run hready.append_left
  · exact hpicked
  · exact absurd (hwaits.picks hlast (hend.1 user hlast) hne) (Lib.not_sooner_last _ _)

def twoInTurn : ChatDb :=
  { conversations := ((Table.empty.put 11 { workspaceId := 9 }).put 12 { workspaceId := 9 }).put 13
      { workspaceId := 9 }
    members := (Table.empty.put (9, 1) {}).put (9, 2) {} }

def nextChat (conversationId : Id) : RotationEvent :=
  .claim 0 { workspaceId := 9, conversationId, candidates := [some 1, some 2]
             order := some .roundRobin, poolKey := some "team", method := some "round_robin" }

theorem round_robin_fair_two : ∃ before event after, [nextChat 12] = before ++ event :: after ∧
    Picks (9, "team") (run rotationStep twoInTurn (nextChat 11 :: before)) event 2 := by
  refine round_robin_fair (9, "team") twoInTurn (nextChat 11) (nextChat 13) [nextChat 12] 1 2
    (by decide) ⟨0, _, rotationStep twoInTurn (nextChat 11), rfl, ⟨rfl, rfl, rfl⟩, ?_⟩
    ⟨0, _, run rotationStep twoInTurn [nextChat 11, nextChat 12, nextChat 13], rfl,
      ⟨rfl, rfl, rfl⟩, ?_⟩ ⟨fun _ _ now p hp => ?_, fun _ _ now p hp => ?_, trivial⟩
  · decide +kernel
  · decide +kernel
  · cases hp
    exact ⟨⟨2, 1, 5, 0, none⟩, by decide +kernel, rfl, by decide⟩
  · cases hp
    exact ⟨⟨2, 1, 5, 1, some 0⟩, by decide +kernel, rfl, by decide⟩

end Kindred.ChatRouting
