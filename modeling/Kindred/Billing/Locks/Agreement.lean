import Kindred.Billing.Locks.Predicates
import Kindred.Billing.Locks.Locked

/-!
Where the database, the rows that were read and the filters of a query judge
alike, and when exactly they do.
-/

namespace Kindred.Billing.Locks
open Lib (Table)

variable {id cutId : Id} {r : LockableRow} {ts : Stamp} {lim : ℕ} {c : Rank}

section Filters
variable (input : TimeInput) {ts : Stamp}

theorem text_eq_iff {s : Stamp} : s.text = "-infinity" ↔ s = .negInfinity :=
  Stamp.text_injective.eq_iff' rfl

theorem rank_gt_iff : toLex (ts, id) < r.rank ↔ ts < r.createdAt.getD .negInfinity ∨
      ts = r.createdAt.getD .negInfinity ∧ id < r.id :=
  Prod.Lex.toLex_lt_toLex

theorem keeps_locked_iff :
    keeps input (applyLockedFilter (some { ts := ts.text, id := some id })) r = true ↔
      toLex (ts, id) < r.rank ∨ ts = .negInfinity ∧ r.createdAt = some .negInfinity := by
  rw [rank_gt_iff]
  by_cases hts : ts = .negInfinity
  · subst hts
    cases hc : r.createdAt with
    | none =>
      simp [keeps, applyLockedFilter, Stamp.text, Condition.holds, TimeColumn.of, hc,
        Comparison.holds]
    | some s =>
      by_cases hs : s = .negInfinity <;>
        simp [keeps, applyLockedFilter, Stamp.text, Condition.holds, TimeColumn.of, hc, hs]
  · have htext : ts.text ≠ "-infinity" := fun h => hts (text_eq_iff.mp h)
    cases hc : r.createdAt with
    | none =>
      simp [keeps, applyLockedFilter, htext, Condition.holds, TimeColumn.of, hc, hts]
    | some s =>
      simp [keeps, applyLockedFilter, htext, Condition.holds, TimeColumn.of, hc, hts,
        Comparison.holds, input.read_text, @eq_comm _ ts s]

theorem keeps_unlocked_iff :
    keeps input (applyUnlockedFilter (some { ts := ts.text, id := some id })) r = true ↔
      ¬ (toLex (ts, id) < r.rank ∨ ts = .negInfinity ∧ r.createdAt = some .negInfinity) := by
  rw [rank_gt_iff]
  by_cases hts : ts = .negInfinity
  · subst hts
    cases hc : r.createdAt with
    | none =>
      simp [keeps, applyUnlockedFilter, Stamp.text, Condition.holds, TimeColumn.of, hc,
        Comparison.holds]
    | some s =>
      by_cases hs : s = .negInfinity <;>
        simp [keeps, applyUnlockedFilter, Stamp.text, Condition.holds, TimeColumn.of, hc, hs]
  · have htext : ts.text ≠ "-infinity" := fun h => hts (text_eq_iff.mp h)
    cases hc : r.createdAt with
    | none =>
      simp [keeps, applyUnlockedFilter, htext, Condition.holds, TimeColumn.of, hc, hts]
    | some s =>
      have hkeeps : keeps input (applyUnlockedFilter (some { ts := ts.text, id := some id })) r =
          true ↔ s < ts ∨ s = ts ∧ r.id ≤ id := by
        simp [keeps, applyUnlockedFilter, htext, Condition.holds, TimeColumn.of, hc,
          Comparison.holds, input.read_text]
      rw [hkeeps]
      rcases lt_trichotomy s ts with h | rfl | h
      · simp [h, h.not_gt, h.ne', hts]
      · simp [hts]
      · simp [h, h.not_gt, h.ne']

theorem keeps_chat_locked_iff :
    keeps input (applyConversationLockedFilter (some { ts := ts.text, id := none })) r = true ↔
      r.activity < ts ∧ ¬ (r.updatedAt = none ∧ r.createdAt = none) := by
  unfold LockableRow.activity
  cases hu : r.updatedAt <;> cases hc : r.createdAt <;>
    simp [keeps, applyConversationLockedFilter, Condition.holds, TimeColumn.of, hu, hc,
      Comparison.holds, input.read_text]

theorem keeps_chat_unlocked_iff :
    keeps input (applyConversationUnlockedFilter (some { ts := ts.text, id := none })) r = true ↔
      ¬ (r.activity < ts ∧ ¬ (r.updatedAt = none ∧ r.createdAt = none)) := by
  unfold LockableRow.activity
  cases hu : r.updatedAt <;> cases hc : r.createdAt <;>
    simp [keeps, applyConversationUnlockedFilter, Condition.holds, TimeColumn.of, hu, hc,
      Comparison.holds, input.read_text]

end Filters

section Rows
variable (dateParse : String → Option Int) {cutTs : Stamp} {db : LockDb} {now : Timestamp} {ws : Id}
  {k : DeletableKind}

/-- What `isRowLocked` makes of the two times of a count kind. -/
def judges (ts : Option Stamp) (id : Id) (cutTs : Stamp) (cutId : Id) : Bool :=
  (tsMicros dateParse (some cutTs.text)).any fun cut =>
    rankAfter ((tsMicros dateParse (ts.map Stamp.text)).getD .negInfinity) id cut (some cutId)

def judgesChat (r : LockableRow) (cutTs : Stamp) : Bool :=
  ((tsMicros dateParse (r.updatedAt.map Stamp.text)).or
      (tsMicros dateParse (r.createdAt.map Stamp.text))).any fun a =>
    (tsMicros dateParse (some cutTs.text)).any fun c => a < c

/-- The time and the id of a row, told apart from the cutoff's. In the years 1 to 9999 doubles may
show two times as one, and then the ids have to stand as the times do; in other years
`Date.parse` has to make of the texts what puts the row where it is. -/
def ToldApart (ts : Stamp) (id : Id) (cutTs : Stamp) (cutId : Id) : Prop :=
  if ts.Plain ∧ cutTs.Plain then
    ts.micros = cutTs.micros → (ts < cutTs → id ≤ cutId) ∧ (cutTs < ts → cutId < id)
  else judges dateParse (some ts) id cutTs cutId = true ↔ toLex (cutTs, cutId) < toLex (ts, id)

instance (ts : Stamp) (id : Id) (cutTs : Stamp) (cutId : Id) :
    Decidable (ToldApart dateParse ts id cutTs cutId) := by
  unfold ToldApart
  infer_instance

def ToldBefore (r : LockableRow) (cutTs : Stamp) : Prop :=
  if r.updatedAt.all (·.Plain) ∧ r.createdAt.all (·.Plain) ∧ cutTs.Plain then
    r.activity < cutTs → r.activity.micros < cutTs.micros
  else judgesChat dateParse r cutTs = true ↔ r.activity < cutTs

instance (r : LockableRow) (cutTs : Stamp) : Decidable (ToldBefore dateParse r cutTs) := by
  unfold ToldBefore
  infer_instance

@[simp] theorem tsMicros_none : tsMicros dateParse none = none := rfl

theorem rankAfter_iff :
    rankAfter ts id cutTs (some cutId) = true ↔ cutTs < ts ∨ cutTs = ts ∧ cutId < id := by
  unfold rankAfter
  by_cases h : ts = cutTs
  · simp [h]
  · simp [h, Ne.symm h]

theorem judges_none : judges dateParse none id cutTs cutId = true ↔
      toLex (cutTs, cutId) < toLex (Stamp.negInfinity, id) := by
  have hnone : tsMicros dateParse (Option.map Stamp.text none) = none := rfl
  rw [Prod.Lex.toLex_lt_toLex, judges, hnone]
  cases cutTs with
  | negInfinity =>
    have hread : tsMicros dateParse (some (Stamp.text .negInfinity)) = some .negInfinity := rfl
    simp [hread, rankAfter_iff]
  | finite t =>
    cases hread : tsMicros dateParse (some (Stamp.text (.finite t))) with
    | none => simp
    | some c =>
      obtain ⟨m, rfl⟩ := tsMicros_finite hread
      simp [rankAfter_iff]
  | infinity =>
    have hread : tsMicros dateParse (some (Stamp.text .infinity)) = some .infinity := rfl
    simp [hread, rankAfter_iff]

theorem judges_iff :
    (judges dateParse (some ts) id cutTs cutId = true ↔ toLex (cutTs, cutId) < toLex (ts, id)) ↔
      ToldApart dateParse ts id cutTs cutId := by
  unfold ToldApart
  split
  · rename_i hplain
    have hts := tsMicros_plain hplain.1 dateParse
    have hcut := tsMicros_plain hplain.2 dateParse
    simp only [judges, Option.map_some, hts, hcut, Option.any_some, Option.getD_some, rankAfter_iff,
      Prod.Lex.toLex_lt_toLex]
    rcases lt_trichotomy ts cutTs with h | rfl | h
    · have hle := Stamp.micros_mono h.le
      rcases hle.lt_or_eq with hlt | heq
      · simp [hlt.not_gt, hlt.ne', h.not_gt, h.ne', hlt.ne]
      · simp [heq, h.not_gt, h.ne', h]
    · simp
    · have hle := Stamp.micros_mono h.le
      rcases hle.lt_or_eq with hlt | heq
      · simp [hlt, h, hlt.ne']
      · simp [heq, h, h.not_gt]
  · rfl

theorem judgesChat_iff (htimed : ¬ (r.updatedAt = none ∧ r.createdAt = none)) :
    (judgesChat dateParse r cutTs = true ↔ r.activity < cutTs) ↔ ToldBefore dateParse r cutTs := by
  unfold ToldBefore
  split
  · rename_i hplain
    obtain ⟨hupdated, hcreated, hcut⟩ := hplain
    have hread : (tsMicros dateParse (r.updatedAt.map Stamp.text)).or
        (tsMicros dateParse (r.createdAt.map Stamp.text)) = some r.activity.micros := by
      unfold LockableRow.activity
      cases hu : r.updatedAt with
      | some u => simp [tsMicros_plain (s := u) (by simpa [hu] using hupdated)]
      | none =>
        cases hc : r.createdAt with
        | some c => simp [tsMicros_plain (s := c) (by simpa [hc] using hcreated)]
        | none => exact absurd ⟨hu, hc⟩ htimed
    simp only [judgesChat, hread, tsMicros_plain hcut, Option.any_some, decide_eq_true_eq]
    constructor
    · exact fun h => h.mpr
    · intro h
      refine ⟨fun hlt => not_le.mp fun hle => ?_, h⟩
      exact absurd hlt (Stamp.micros_mono hle).not_gt
  · rfl

def cutOf (db : LockDb) (now : Timestamp) (ws : Id) (k : DeletableKind) : Option LockCut :=
  (kindLock db now ws k.kind).cut

theorem cutOf_eq (db : LockDb) (now : Timestamp) (ws : Id) (k : DeletableKind) : cutOf db now ws k =
    (lockCutoff db now ws k.kind).cutTs.map fun ts =>
      { ts := ts.text, id := (lockCutoff db now ws k.kind).cutId } := by
  unfold cutOf kindLock
  split <;> rfl

theorem lockOf_eq (hon : db.locksEnabled = true) :
    lockOf (resolveLockState db now ws) k.kind = some (kindLock db now ws k.kind) := by
  cases k <;> simp [lockOf, resolveLockState, hon, DeletableKind.kind]

theorem NoCut.isRowLocked (h : NoCut db now ws k.kind) (row : ReadRow) :
    Locks.isRowLocked dateParse (resolveLockState db now ws) k.kind row = false := by
  unfold Locks.isRowLocked
  by_cases hon : db.locksEnabled = true
  · have hcut : (kindLock db now ws k.kind).cut = none := by
      have := cutOf_eq db now ws k
      rwa [h.cutTs] at this
    rw [lockOf_eq hon, Option.bind_some, hcut]
    rfl
  · have hnone : lockOf (resolveLockState db now ws) k.kind = none := by
      simp [lockOf, resolveLockState, hon, unlockedState]
    rw [hnone]
    rfl

theorem CountCut.isRowLocked (hk : k ≠ .conversation) (h : CountCut db now ws k.kind lim c)
    (r : LockableRow) : Locks.isRowLocked dateParse (resolveLockState db now ws) k.kind r.read =
      judges dateParse r.createdAt r.id (ofLex c).1 (ofLex c).2 := by
  have hcut : (kindLock db now ws k.kind).cut =
      some { ts := (ofLex c).1.text, id := some (ofLex c).2 } := by
    have := cutOf_eq db now ws k
    rwa [h.cutoff] at this
  unfold Locks.isRowLocked
  rw [lockOf_eq h.inForce.1, Option.bind_some, hcut]
  cases k with
  | kb_article => rfl
  | contact => rfl
  | conversation => exact absurd rfl hk

theorem ChatCut.isRowLocked (h : ChatCut db now ws lim) (r : LockableRow) :
    Locks.isRowLocked dateParse (resolveLockState db now ws) .conversation r.read =
      judgesChat dateParse r (retentionCut now lim) := by
  have hcut : (kindLock db now ws .conversation).cut =
      some { ts := (retentionCut now lim).text, id := none } := by
    have := cutOf_eq db now ws .conversation
    rwa [DeletableKind.kind, h.cutoff] at this
  have hlock : lockOf (resolveLockState db now ws) .conversation =
      some (kindLock db now ws .conversation) := lockOf_eq (k := .conversation) h.inForce.1
  unfold Locks.isRowLocked
  rw [hlock, Option.bind_some, hcut]
  rfl

end Rows

def lockedFilter : DeletableKind → Option LockCut → List OrFilter
  | .conversation => applyConversationLockedFilter
  | _ => applyLockedFilter

def unlockedFilter : DeletableKind → Option LockCut → List OrFilter
  | .conversation => applyConversationUnlockedFilter
  | _ => applyUnlockedFilter

section Agreement
variable (dateParse : String → Option Int) (input : TimeInput)
  (db : LockDb) (now : Timestamp) (ws : Id) (k : DeletableKind)

/-- At one moment all judge each countable row alike, as many are locked as the cutoff says, of a
count kind those above the limit, the youngest, and a higher limit locks none of the others. -/
structure Agree : Prop where
  lockedIds : ∀ max : Int, (lockableRows db ws k.kind).length ≤ max →
    ∀ r ∈ lockableRows db ws k.kind,
      r.id ∈ lockedIds db now ws k.kind (some max) ↔ isLocked db now ws k.kind r.id = true
  row : ∀ r ∈ lockableRows db ws k.kind,
    isRowLocked dateParse (resolveLockState db now ws) k.kind r.read =
      isLocked db now ws k.kind r.id
  locked : ∀ r ∈ lockableRows db ws k.kind,
    keeps input (lockedFilter k (cutOf db now ws k)) r = isLocked db now ws k.kind r.id
  unlocked : ∀ r ∈ lockableRows db ws k.kind,
    keeps input (unlockedFilter k (cutOf db now ws k)) r = !isLocked db now ws k.kind r.id
  count : (lockableRows db ws k.kind).countP (fun r => isLocked db now ws k.kind r.id) =
    (lockCutoff db now ws k.kind).locked
  excess : k ≠ .conversation → ∀ lim, InForce db ws k.kind lim →
    (lockCutoff db now ws k.kind).locked = (lockableRows db ws k.kind).length - lim
  youngest : k ≠ .conversation → ∀ r ∈ lockableRows db ws k.kind,
    ∀ s ∈ lockableRows db ws k.kind, isLocked db now ws k.kind r.id = true →
      isLocked db now ws k.kind s.id ≠ true → s.rank < r.rank
  raising : ∀ lim lim', InForce db ws k.kind lim → (∀ n ∈ lim', lim ≤ n) →
    ∀ id, isLocked (db.withLimit ws k lim') now ws k.kind id = true →
      isLocked db now ws k.kind id = true

/-- Where the rows of a count kind leave no two readings of the cutoff `c`. -/
structure ClearCut (rows : List LockableRow) (lim : ℕ) (c : Rank) : Prop where
  first : lim = 0 → ∀ r ∈ rows, r.rank ≠ c
  /-- After a cutoff without a time, no active row has `-infinity` for a time of its own. -/
  stored : (ofLex c).1 = .negInfinity → ∀ r ∈ rows, r.createdAt = some .negInfinity →
    (ofLex c).2 < r.id
  told : ∀ r ∈ rows, ∀ ts, r.createdAt = some ts →
    ToldApart dateParse ts r.id (ofLex c).1 (ofLex c).2

structure ClearChats (rows : List LockableRow) (cutTs : Stamp) : Prop where
  timed : ∀ r ∈ rows, ¬ (r.updatedAt = none ∧ r.createdAt = none)
  told : ∀ r ∈ rows, ToldBefore dateParse r cutTs

/-- Of the rows that are counted and the limit that locks. -/
def Clear : Prop :=
  ∀ lim, InForce db ws k.kind lim →
    if k = .conversation then
      ClearChats dateParse (lockableRows db ws k.kind) (retentionCut now lim)
    else ∀ c, LastActive (lockRankRows db ws k.kind) lim c →
      ClearCut dateParse (lockableRows db ws k.kind) lim c

variable {dateParse input db now ws k}

theorem NoCut.agree (h : NoCut db now ws k.kind)
    (hfew : k ≠ .conversation → ∀ lim, InForce db ws k.kind lim →
      (lockRankRows db ws k.kind).length ≤ lim) : Agree dateParse input db now ws k where
  lockedIds max _ r _ := by simp [h.lockedIds, h.isLocked]
  row r _ := by rw [h.isRowLocked, h.isLocked]
  locked r _ := by
    rw [h.isLocked, cutOf_eq, h.cutTs]
    cases k <;> simp [lockedFilter, keeps, applyLockedFilter, applyConversationLockedFilter,
      Condition.holds]
  unlocked r _ := by
    rw [h.isLocked, cutOf_eq, h.cutTs]
    cases k <;> simp [unlockedFilter, keeps, applyUnlockedFilter, applyConversationUnlockedFilter]
  count := by simp [h.isLocked, h.locked]
  excess hk lim hlim := by
    have hk' : k.kind ≠ .conversation := by cases k <;> simp_all [DeletableKind.kind]
    have := hfew hk lim hlim
    rw [lockRankRows_eq hk', List.length_map] at this
    rw [h.locked]
    omega
  youngest _ r _ s _ hr := by simp [h.isLocked] at hr
  raising lim lim' hlim hraise id := isLocked_of_raised hlim hraise

theorem CountCut.filters (hk : k ≠ .conversation) (h : CountCut db now ws k.kind lim c) :
    (keeps input (lockedFilter k (cutOf db now ws k)) r = true ↔
      c < r.rank ∨ (ofLex c).1 = .negInfinity ∧ r.createdAt = some .negInfinity) ∧
    (keeps input (unlockedFilter k (cutOf db now ws k)) r = true ↔
      ¬ (c < r.rank ∨ (ofLex c).1 = .negInfinity ∧ r.createdAt = some .negInfinity)) := by
  have hcut : cutOf db now ws k = some { ts := (ofLex c).1.text, id := some (ofLex c).2 } := by
    rw [cutOf_eq, h.cutoff]
    rfl
  rw [hcut]
  cases k with
  | kb_article => exact ⟨keeps_locked_iff input, keeps_unlocked_iff input⟩
  | contact => exact ⟨keeps_locked_iff input, keeps_unlocked_iff input⟩
  | conversation => exact absurd rfl hk

theorem past_stored (hc : (ofLex c).1 = .negInfinity) (hr : r.createdAt = some .negInfinity)
    : c < r.rank ↔ (ofLex c).2 < r.id := by
  rw [← toLex_ofLex c, rank_gt_iff]
  simp [hc, hr]

theorem CountCut.agree_iff (hk : k ≠ .conversation) (h : CountCut db now ws k.kind lim c) :
    Agree dateParse input db now ws k ↔ ClearCut dateParse (lockableRows db ws k.kind) lim c := by
  have hk' : k.kind ≠ .conversation := by cases k <;> simp_all [DeletableKind.kind]
  have hlength : (lockRankRows db ws k.kind).length = (lockableRows db ws k.kind).length := by
    rw [lockRankRows_eq hk', List.length_map]
  have hcount := h.count hk'
  have hlocked : (lockCutoff db now ws k.kind).locked =
      (lockRankRows db ws k.kind).length - lim := by
    rw [h.cutoff]
  constructor
  · intro ha
    refine ⟨hcount.mp (by rw [ha.count, hlocked]), fun hc r hr hstored => ?_, fun r hr ts hts => ?_⟩
    · have hkeep : keeps input (lockedFilter k (cutOf db now ws k)) r = true :=
        (h.filters hk).1.mpr (.inr ⟨hc, hstored⟩)
      rw [ha.locked r hr, h.isLocked hk' hr] at hkeep
      exact (past_stored hc hstored).mp hkeep
    · refine (judges_iff dateParse).mp ?_
      have hrow := ha.row r hr
      rw [h.isRowLocked dateParse hk, hts] at hrow
      have hrank : r.rank = toLex (ts, r.id) := by simp [LockableRow.rank, hts]
      rw [hrow, h.isLocked hk' hr, hrank, toLex_ofLex]
  · intro hclear
    have hpast {r : LockableRow} (hr : r ∈ lockableRows db ws k.kind) :
        c < r.rank ∨ (ofLex c).1 = .negInfinity ∧ r.createdAt = some .negInfinity ↔
          Locks.isLocked db now ws k.kind r.id = true := by
      rw [h.isLocked hk' hr, or_iff_left_iff_imp]
      exact fun hstored => (past_stored hstored.1 hstored.2).mpr
        (hclear.stored hstored.1 r hr hstored.2)
    refine ⟨fun max hmax r hr => ?_, fun r hr => ?_, fun r hr => ?_, fun r hr => ?_, ?_, ?_, ?_, ?_⟩
    · rw [h.mem_lockedIds hk' hmax hr, h.isLocked hk' hr]
    · rw [Bool.eq_iff_iff, h.isLocked hk' hr, h.isRowLocked dateParse hk]
      cases hts : r.createdAt with
      | none =>
        have hrank : r.rank = toLex (.negInfinity, r.id) := by simp [LockableRow.rank, hts]
        rw [judges_none, hrank, toLex_ofLex]
      | some ts =>
        have hrank : r.rank = toLex (ts, r.id) := by simp [LockableRow.rank, hts]
        have htold := (judges_iff dateParse).mpr (hclear.told r hr ts hts)
        rw [htold, hrank, toLex_ofLex]
    · rw [Bool.eq_iff_iff, (h.filters hk).1, hpast hr]
    · rw [Bool.eq_iff_iff, (h.filters hk).2, hpast hr]
      simp
    · rw [hcount.mpr hclear.first, hlocked]
    · intro _ lim' hlim'
      have hsame : lim' = lim := by
        have := hlim'.2.2.2
        rw [h.inForce.2.2.2] at this
        exact (Option.some.inj this).symm
      rw [hlocked, hsame, hlength]
    · exact fun _ r hr s hs => h.youngest hk' hr hs
    · exact fun lim lim' hlim hraise id => isLocked_of_raised hlim hraise

theorem ChatCut.agree_iff (h : ChatCut db now ws lim) :
    Agree dateParse input db now ws .conversation ↔
      ClearChats dateParse (lockableRows db ws .conversation) (retentionCut now lim) := by
  have hcut : cutOf db now ws .conversation =
      some { ts := (retentionCut now lim).text, id := none } := by
    rw [cutOf_eq, DeletableKind.kind, h.cutoff]
    rfl
  constructor
  · intro ha
    have htimed : ∀ r ∈ lockableRows db ws .conversation,
        ¬ (r.updatedAt = none ∧ r.createdAt = none) := by
      rintro r hr ⟨hu, hc⟩
      have hlocked := ha.locked r hr
      have hbefore : r.activity < retentionCut now lim := by
        simp [LockableRow.activity, hu, hc, retentionCut]
      have hkeep : keeps input (lockedFilter .conversation (cutOf db now ws .conversation)) r =
          true := by
        rw [hlocked]
        exact (h.isLocked hr).mpr hbefore
      rw [hcut] at hkeep
      exact ((keeps_chat_locked_iff input).mp hkeep).2 ⟨hu, hc⟩
    refine ⟨htimed, fun r hr => (judgesChat_iff dateParse (htimed r hr)).mp ?_⟩
    have hrow := ha.row r hr
    rw [DeletableKind.kind, h.isRowLocked dateParse] at hrow
    rw [hrow]
    exact h.isLocked hr
  · intro hclear
    have hpast {r : LockableRow} (hr : r ∈ lockableRows db ws .conversation) :
        r.activity < retentionCut now lim ∧ ¬ (r.updatedAt = none ∧ r.createdAt = none) ↔
          Locks.isLocked db now ws .conversation r.id = true := by
      rw [h.isLocked hr, and_iff_left (hclear.timed r hr)]
    refine ⟨fun max hmax r hr => ?_, fun r hr => ?_, fun r hr => ?_, fun r hr => ?_, h.count, ?_,
      ?_, fun lim lim' hlim hraise id => isLocked_of_raised hlim hraise⟩
    · rw [DeletableKind.kind, h.mem_lockedIds hmax hr, h.isLocked hr]
    · rw [Bool.eq_iff_iff, DeletableKind.kind, h.isLocked hr, h.isRowLocked dateParse]
      exact (judgesChat_iff dateParse (hclear.timed r hr)).mpr (hclear.told r hr)
    · rw [Bool.eq_iff_iff, hcut, DeletableKind.kind, ← hpast hr]
      exact keeps_chat_locked_iff input
    · rw [hcut, DeletableKind.kind, Bool.eq_iff_iff, Bool.not_eq_true', ← Bool.not_eq_true,
        ← hpast hr]
      exact keeps_chat_unlocked_iff input
    · exact fun hne => absurd rfl hne
    · exact fun hne => absurd rfl hne

/-- All agree exactly where the rows are clear. -/
theorem forms_agree_iff (dateParse : String → Option Int) (input : TimeInput) (db : LockDb)
    (now : Timestamp) (ws : Id) (k : DeletableKind) :
    Agree dateParse input db now ws k ↔ Clear dateParse db now ws k := by
  by_cases hforce : ∃ lim, InForce db ws k.kind lim
  · obtain ⟨lim, hlim⟩ := hforce
    have hsame {n : ℕ} (hn : InForce db ws k.kind n) : n = lim := by
      have := hn.2.2.2
      rw [hlim.2.2.2] at this
      exact (Option.some.inj this).symm
    have hclear : Clear dateParse db now ws k ↔ if k = .conversation then
        ClearChats dateParse (lockableRows db ws k.kind) (retentionCut now lim)
      else ∀ c, LastActive (lockRankRows db ws k.kind) lim c →
        ClearCut dateParse (lockableRows db ws k.kind) lim c := by
      refine ⟨fun h => h lim hlim, fun h n hn => ?_⟩
      rw [hsame hn]
      exact h
    rw [hclear]
    by_cases hk : k = .conversation
    · subst hk
      rw [if_pos rfl]
      exact (cutoff_chats hlim).agree_iff
    · have hk' : k.kind ≠ .conversation := by cases k <;> simp_all [DeletableKind.kind]
      rw [if_neg hk]
      rcases cutoff_counted now hk' hlim with ⟨c, hc⟩ | ⟨hfew, hno⟩
      · rw [hc.agree_iff hk]
        refine ⟨fun h c' hc' => ?_, fun h => h c hc.last⟩
        rw [hc'.unique (lockRankRows_nodup hk') hc.last]
        exact h
      · refine iff_of_true (hno.agree fun _ n hn => hsame hn ▸ hfew) fun c hc => ?_
        exact absurd hc.1 (by omega)
  · have hnone (lim : ℕ) : ¬ InForce db ws k.kind lim := fun h => hforce ⟨lim, h⟩
    exact iff_of_true ((noCut_of_not_inForce hnone).agree fun _ lim hlim => absurd hlim (hnone lim))
      fun lim hlim => absurd hlim (hnone lim)

end Agreement

noncomputable def writtenTexts : TimeInput where
  read := Function.partialInv Stamp.text
  read_text := Function.partialInv_left Stamp.text_injective

def untimedChat : LockDb where
  workspaces := Table.empty.put 1 { owner := 2, active := true }
  articles := Table.empty
  contacts := Table.empty
  members := Table.empty
  conversations := Table.empty.put 3 { workspace := 1, createdAt := none, updatedAt := none }
  limits := Table.empty.put (1, "data_retention_days") 30
  locksEnabled := true
  selfHostUnlimited := false

/-- The database locks it, and would delete it; the inbox shows it as open. -/
theorem untimedChat_agree : ¬ Agree (fun _ => none) writtenTexts untimedChat 0 1 .conversation := by
  intro h
  have hrow := h.row ⟨3, none, none⟩ (by decide)
  exact absurd hrow (by decide +kernel)

end Kindred.Billing.Locks
