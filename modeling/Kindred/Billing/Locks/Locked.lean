import Kindred.Billing.Locks.Cutoff
import Kindred.Lib.Ranking

/-! What the database holds locked: of a count kind the rows past the last active one, of chats
those idle since before the cutoff. -/

namespace Kindred.Billing.Locks
open Lib (before)

inductive DeletableKind where
  | kb_article | contact | conversation
  deriving DecidableEq

def DeletableKind.kind : DeletableKind → LockKind
  | .kb_article => .kb_article
  | .contact => .contact
  | .conversation => .conversation

theorem nodup_filterMap {κ : Type} [DecidableEq κ] {β : Type} (t : Table κ β)
    (f : κ × β → Option LockableRow)
    (hf : ∀ x y a b, f x = some a → f y = some b → a.id = b.id → x.1 = y.1) :
    ((t.rows.filterMap f).map LockableRow.id).Nodup := by
  have hkeys := t.keys_nodup
  rw [List.Nodup, List.pairwise_map] at hkeys ⊢
  rw [List.pairwise_filterMap]
  refine hkeys.imp fun {x y} hne a ha b hb heq => hne (hf x y a b ?_ ?_ heq)
  · exact ha
  · exact hb

theorem lockableRows_nodup (db : LockDb) (ws : Id) (kind : LockKind) :
    ((lockableRows db ws kind).map LockableRow.id).Nodup := by
  cases kind <;> refine nodup_filterMap _ _ fun x y a b ha hb hid => ?_
  case member =>
    obtain ⟨⟨w, u⟩, m⟩ := x
    obtain ⟨⟨w', u'⟩, m'⟩ := y
    simp only [Option.ite_none_right_eq_some, Option.some.injEq] at ha hb
    obtain ⟨⟨rfl, -⟩, rfl⟩ := ha
    obtain ⟨⟨rfl, -⟩, rfl⟩ := hb
    simp_all
  all_goals
    simp only [Option.ite_none_right_eq_some, Option.some.injEq] at ha hb
    obtain ⟨-, rfl⟩ := ha
    obtain ⟨-, rfl⟩ := hb
    exact hid

variable {db : LockDb} {now : Timestamp} {ws : Id} {kind : LockKind} {r : LockableRow}
  {rows : List Rank}

variable {s : LockableRow} {lim n m : ℕ} {c b : Rank} {max : Int} {k : DeletableKind} {id : Id}

theorem row_unique (hr : r ∈ lockableRows db ws kind) (hs : s ∈ lockableRows db ws kind)
    (h : r.id = s.id) : r = s :=
  List.inj_on_of_nodup_map (lockableRows_nodup db ws kind) hr hs h

theorem lockRankRows_eq (hk : kind ≠ .conversation) :
    lockRankRows db ws kind = (lockableRows db ws kind).map LockableRow.rank := by
  simp [lockRankRows, hk]

theorem lockRankRows_nodup (hk : kind ≠ .conversation) : (lockRankRows db ws kind).Nodup := by
  have hids := lockableRows_nodup db ws kind
  rw [lockRankRows_eq hk]
  refine List.Nodup.of_map (fun r : Rank => (ofLex r).2) ?_
  rwa [List.map_map]

def InForce (db : LockDb) (ws : Id) (kind : LockKind) (lim : ℕ) : Prop :=
  db.locksEnabled = true ∧ (db.workspaces.get ws).any Workspace.active = true ∧
    db.selfHostUnlimited = false ∧ lockLimit db ws kind = some lim

def LastActive (rows : List Rank) (lim : ℕ) (c : Rank) : Prop :=
  lim < rows.length ∧
    if lim = 0 then c = toLex (.negInfinity, 0) else c ∈ rows ∧ before rows c + 1 = lim

theorem lastKept_eq_some (hrows : rows.Nodup) (hlt : lim < rows.length) :
    lastKept rows lim = some c ↔ LastActive rows lim c := by
  unfold lastKept LastActive
  by_cases h0 : lim = 0
  · simp only [h0, if_true, Option.some.injEq]
    constructor
    · rintro rfl
      exact ⟨by omega, rfl⟩
    · rintro ⟨-, rfl⟩
      rfl
  · simp only [h0, if_false, ranked, Lib.sort_getElem_eq_some hrows]
    constructor
    · rintro ⟨hc, hplace⟩
      exact ⟨hlt, hc, by omega⟩
    · rintro ⟨-, hc, hplace⟩
      exact ⟨hc, by omega⟩

theorem exists_lastActive (hrows : rows.Nodup) (hlt : lim < rows.length) :
    ∃ c, LastActive rows lim c := by
  have hsome : (lastKept rows lim).isSome := by
    unfold lastKept
    split
    · rfl
    · rw [List.getElem?_eq_getElem (by rw [ranked, List.length_insertionSort]; omega)]
      rfl
  obtain ⟨c, hc⟩ := Option.isSome_iff_exists.mp hsome
  exact ⟨c, (lastKept_eq_some hrows hlt).mp hc⟩

structure CountCut (db : LockDb) (now : Timestamp) (ws : Id) (kind : LockKind) (lim : ℕ)
    (c : Rank) : Prop where
  inForce : InForce db ws kind lim
  last : LastActive (lockRankRows db ws kind) lim c
  cutoff : lockCutoff db now ws kind =
    { lim := some lim, total := some (lockRankRows db ws kind).length
      locked := (lockRankRows db ws kind).length - lim
      cutTs := some (ofLex c).1, cutId := some (ofLex c).2 }

structure NoCut (db : LockDb) (now : Timestamp) (ws : Id) (kind : LockKind) : Prop where
  locked : (lockCutoff db now ws kind).locked = 0
  cutTs : (lockCutoff db now ws kind).cutTs = none

theorem inForce_of_lim (now : Timestamp) (h : InForce db ws kind lim) :
    lockCutoff db now ws kind = lockCompute db now ws kind ∧
      ¬ (!(db.workspaces.get ws).any Workspace.active || db.selfHostUnlimited) = true := by
  obtain ⟨hon, hactive, hself, -⟩ := h
  simp [lockCutoff, hon, hactive, hself]

theorem noCut_of_not_inForce (h : ∀ lim, ¬ InForce db ws kind lim) : NoCut db now ws kind := by
  have hlim : db.locksEnabled = true → (!(db.workspaces.get ws).any Workspace.active ||
      db.selfHostUnlimited) = false → lockLimit db ws kind = none := by
    intro hon hactive
    simp only [Bool.or_eq_false_iff, Bool.not_eq_false'] at hactive
    cases hl : lockLimit db ws kind with
    | none => rfl
    | some lim => exact absurd ⟨hon, hactive.1, hactive.2, hl⟩ (h lim)
  have hcutoff : (lockCutoff db now ws kind).locked = 0 ∧
      (lockCutoff db now ws kind).cutTs = none := by
    unfold lockCutoff
    split
    · exact ⟨rfl, rfl⟩
    · rename_i hon
      unfold lockCompute
      split
      · exact ⟨rfl, rfl⟩
      · rename_i hactive
        rw [hlim (by simpa using hon) (by simpa using hactive)]
        exact ⟨rfl, rfl⟩
  exact ⟨hcutoff.1, hcutoff.2⟩

theorem cutoff_counted (now : Timestamp) (hk : kind ≠ .conversation) (h : InForce db ws kind lim) :
    (∃ c, CountCut db now ws kind lim c) ∨
      (lockRankRows db ws kind).length ≤ lim ∧ NoCut db now ws kind := by
  obtain ⟨heq, hopen⟩ := inForce_of_lim now h
  rw [lockCompute, if_neg hopen, h.2.2.2] at heq
  simp only [if_neg hk] at heq
  by_cases hle : (lockRankRows db ws kind).length ≤ lim
  · rw [if_pos hle] at heq
    exact .inr ⟨hle, by rw [heq], by rw [heq]⟩
  · have hnodup : (lockRankRows db ws kind).Nodup := lockRankRows_nodup hk
    obtain ⟨c, hc⟩ := exists_lastActive hnodup (not_le.mp hle)
    rw [if_neg hle, (lastKept_eq_some hnodup (not_le.mp hle)).mpr hc] at heq
    exact .inl ⟨c, h, hc, heq⟩

theorem LastActive.unique (hrows : rows.Nodup) (hb : LastActive rows lim b)
    (hc : LastActive rows lim c) : b = c := by
  have hsome := (lastKept_eq_some hrows hb.1).mpr hb
  rw [(lastKept_eq_some hrows hc.1).mpr hc] at hsome
  exact (Option.some.inj hsome).symm

theorem first_le (c : Rank) : toLex (.negInfinity, 0) ≤ c := by
  rw [Prod.Lex.le_iff']
  exact ⟨not_lt.mp Stamp.not_lt_negInfinity, fun _ => Nat.zero_le _⟩

theorem LastActive.mono {lim' : ℕ} (hb : LastActive rows lim b) (hc : LastActive rows lim' c)
    (h : lim ≤ lim') : b ≤ c := by
  obtain ⟨-, hb⟩ := hb
  obtain ⟨-, hc⟩ := hc
  by_cases h0 : lim = 0
  · rw [if_pos h0] at hb
    exact hb ▸ first_le c
  · rw [if_neg h0] at hb
    rw [if_neg (by omega)] at hc
    refine not_lt.mp fun hlt => ?_
    have := Lib.before_lt hc.1 hlt
    omega

section Counted
variable {lim : ℕ} {c : Rank}

theorem CountCut.isLocked (hk : kind ≠ .conversation) (h : CountCut db now ws kind lim c)
    (hr : r ∈ lockableRows db ws kind) : isLocked db now ws kind r.id = true ↔ c < r.rank := by
  have hsome : (lockRankRows db ws kind).length - lim ≠ 0 := by
    have := h.last.1
    omega
  simp only [Locks.isLocked, h.cutoff, if_neg hsome, if_neg hk]
  simp only [lockRankRows_eq hk, List.any_eq_true, Bool.and_eq_true, decide_eq_true_eq,
    List.mem_map]
  constructor
  · rintro ⟨-, ⟨s, hs, rfl⟩, hid, hafter⟩
    rw [row_unique hr hs hid.symm]
    simpa [isAfter] using hafter
  · intro hafter
    exact ⟨r.rank, ⟨r, hr, rfl⟩, rfl, by simpa [isAfter] using hafter⟩

theorem CountCut.mem_lockedIds (hk : kind ≠ .conversation) (h : CountCut db now ws kind lim c)
    (hmax : (lockableRows db ws kind).length ≤ max) (hr : r ∈ lockableRows db ws kind) :
    r.id ∈ lockedIds db now ws kind (some max) ↔ c < r.rank := by
  have hsome : (lockRankRows db ws kind).length - lim ≠ 0 := by
    have := h.last.1
    omega
  have hall : (ranked ((lockRankRows db ws kind).filter fun r =>
      isAfter r (some (ofLex c).1) (some (ofLex c).2))).length ≤ max.toNat := by
    have hfilter := List.length_filter_le
      (fun r => isAfter r (some (ofLex c).1) (some (ofLex c).2)) (lockRankRows db ws kind)
    have hlength : (lockRankRows db ws kind).length = (lockableRows db ws kind).length := by
      rw [lockRankRows_eq hk, List.length_map]
    rw [ranked, List.length_insertionSort]
    omega
  simp only [lockedIds, h.cutoff, if_neg hsome, lockRowsAfter, if_neg hk, Option.getD_some,
    List.take_of_length_le hall]
  simp only [ranked, List.mem_map, List.mem_insertionSort, List.mem_filter, lockRankRows_eq hk]
  constructor
  · rintro ⟨-, ⟨⟨s, hs, rfl⟩, hafter⟩, hid⟩
    rw [row_unique hr hs hid.symm]
    simpa [isAfter] using hafter
  · intro hafter
    exact ⟨r.rank, ⟨⟨r, hr, rfl⟩, by simpa [isAfter] using hafter⟩, rfl⟩

theorem CountCut.count (hk : kind ≠ .conversation) (h : CountCut db now ws kind lim c) :
    (lockableRows db ws kind).countP (fun r => Locks.isLocked db now ws kind r.id) =
        (lockRankRows db ws kind).length - lim ↔
      (lim = 0 → ∀ r ∈ lockableRows db ws kind, r.rank ≠ c) := by
  have hnodup : (lockRankRows db ws kind).Nodup := lockRankRows_nodup hk
  have hcount : (lockableRows db ws kind).countP (fun r => Locks.isLocked db now ws kind r.id) =
      Lib.after (lockRankRows db ws kind) c := by
    rw [Lib.after, lockRankRows_eq hk, List.countP_map]
    refine List.countP_congr fun r hr => ?_
    simpa using h.isLocked hk hr
  have hall := Lib.after_add_iff (lockRankRows db ws kind) c
  obtain ⟨hlt, hlast⟩ := h.last
  rw [hcount]
  by_cases h0 : lim = 0
  · rw [if_pos h0] at hlast
    have hnone : before (lockRankRows db ws kind) c = 0 := by
      refine List.countP_eq_zero.mpr fun r _ => ?_
      have : c ≤ r := hlast ▸ first_le r
      simpa using this
    have hmem : c ∉ lockRankRows db ws kind ↔ ∀ r ∈ lockableRows db ws kind, r.rank ≠ c := by
      rw [lockRankRows_eq hk, List.mem_map]
      simp
    simp only [h0, Nat.sub_zero, true_implies]
    rw [← hmem, ← hall, hnone, Nat.add_zero]
  · rw [if_neg h0] at hlast
    have := Lib.after_add_mem hnodup hlast.1
    omega

theorem CountCut.youngest (hk : kind ≠ .conversation) (h : CountCut db now ws kind lim c)
    (hr : r ∈ lockableRows db ws kind) (hs : s ∈ lockableRows db ws kind)
    (hlocked : Locks.isLocked db now ws kind r.id = true)
    (hopen : Locks.isLocked db now ws kind s.id ≠ true) : s.rank < r.rank := by
  rw [h.isLocked hk hr] at hlocked
  rw [Ne, h.isLocked hk hs, not_lt] at hopen
  exact lt_of_le_of_lt hopen hlocked

end Counted

structure ChatCut (db : LockDb) (now : Timestamp) (ws : Id) (lim : ℕ) : Prop where
  inForce : InForce db ws .conversation lim
  cutoff : lockCutoff db now ws .conversation =
    { lim := some lim, total := some (lockableRows db ws .conversation).length
      locked := (lockableRows db ws .conversation).countP fun r =>
        r.activity < retentionCut now lim
      cutTs := some (retentionCut now lim), cutId := none }

theorem cutoff_chats (h : InForce db ws .conversation lim) : ChatCut db now ws lim := by
  obtain ⟨heq, hopen⟩ := inForce_of_lim now h
  rw [lockCompute, if_neg hopen, h.2.2.2] at heq
  exact ⟨h, heq⟩

section Chats
variable {lim : ℕ}

theorem ChatCut.isLocked (h : ChatCut db now ws lim) (hr : r ∈ lockableRows db ws .conversation) :
    Locks.isLocked db now ws .conversation r.id = true ↔ r.activity < retentionCut now lim := by
  simp only [Locks.isLocked, h.cutoff, if_true]
  split
  · rename_i hnone
    have := List.countP_eq_zero.mp hnone r hr
    simpa using this
  · simp only [List.any_eq_true, Bool.and_eq_true, decide_eq_true_eq]
    constructor
    · rintro ⟨s, hs, hid, hbefore⟩
      rw [row_unique hr hs hid.symm]
      simpa [isBefore] using hbefore
    · intro hbefore
      exact ⟨r, hr, rfl, by simpa [isBefore] using hbefore⟩

theorem ChatCut.mem_lockedIds (h : ChatCut db now ws lim)
    (hmax : (lockableRows db ws .conversation).length ≤ max)
    (hr : r ∈ lockableRows db ws .conversation) :
    r.id ∈ lockedIds db now ws .conversation (some max) ↔ r.activity < retentionCut now lim := by
  simp only [lockedIds, h.cutoff]
  split
  · rename_i hnone
    have := List.countP_eq_zero.mp hnone r hr
    simpa using this
  · have hall : (ranked (((lockableRows db ws .conversation).filter fun r =>
        isBefore r.activity (some (retentionCut now lim))).map
          fun r => toLex (r.activity, r.id))).length ≤ max.toNat := by
      have hfilter := List.length_filter_le
        (fun r => isBefore r.activity (some (retentionCut now lim)))
        (lockableRows db ws .conversation)
      rw [ranked, List.length_insertionSort, List.length_map]
      omega
    simp only [lockRowsAfter, if_true, Option.getD_some, List.take_of_length_le hall]
    simp only [ranked, List.mem_map, List.mem_insertionSort, List.mem_filter]
    constructor
    · rintro ⟨-, ⟨s, ⟨hs, hbefore⟩, rfl⟩, hid⟩
      rw [row_unique hr hs hid.symm]
      simpa [isBefore] using hbefore
    · intro hbefore
      exact ⟨_, ⟨r, ⟨hr, by simpa [isBefore] using hbefore⟩, rfl⟩, rfl⟩

theorem ChatCut.count (h : ChatCut db now ws lim) : (lockableRows db ws .conversation).countP
        (fun r => Locks.isLocked db now ws .conversation r.id) =
      (lockCutoff db now ws .conversation).locked := by
  rw [h.cutoff]
  refine List.countP_congr fun r hr => ?_
  simpa using h.isLocked hr

end Chats

/-- The limit that locks the kind. -/
def DeletableKind.key : DeletableKind → String
  | .kb_article => "max_kb_articles"
  | .contact => "max_contacts"
  | .conversation => "data_retention_days"

def LockDb.withLimit (db : LockDb) (ws : Id) (k : DeletableKind) (lim : Option ℕ) : LockDb :=
  { db with limits := match lim with
      | some n => db.limits.put (ws, k.key) n
      | none => db.limits.erase (ws, k.key) }

@[simp] theorem lockableRows_withLimit (k : DeletableKind) (lim : Option ℕ) (kind : LockKind) :
    lockableRows (db.withLimit ws k lim) ws kind = lockableRows db ws kind := by
  cases kind <;> rfl

@[simp] theorem lockLimit_withLimit (k : DeletableKind) (lim : Option ℕ) :
    lockLimit (db.withLimit ws k lim) ws k.kind = lim := by
  cases k <;> cases lim <;>
    simp [lockLimit, LockDb.withLimit, DeletableKind.kind, DeletableKind.key, Lib.Table.get_erase]

theorem inForce_withLimit {lim : Option ℕ} (h : InForce db ws k.kind n)
    : InForce (db.withLimit ws k lim) ws k.kind m ↔ lim = some m := by
  obtain ⟨hon, hactive, hself, -⟩ := h
  unfold InForce
  rw [lockLimit_withLimit]
  exact ⟨fun h => h.2.2.2, fun h => ⟨hon, hactive, hself, h⟩⟩

theorem NoCut.isLocked (h : NoCut db now ws kind) (id : Id) :
    Locks.isLocked db now ws kind id = false := by
  simp [Locks.isLocked, h.locked]

theorem NoCut.lockedIds (h : NoCut db now ws kind) (max : Option Int) :
    Locks.lockedIds db now ws kind max = [] := by
  simp [Locks.lockedIds, h.locked]

theorem row_of_isLocked (h : isLocked db now ws kind id = true) :
    ∃ r ∈ lockableRows db ws kind, r.id = id := by
  simp only [isLocked] at h
  split at h
  · simp at h
  · split at h
    · rename_i hk
      obtain ⟨r, hr, hid⟩ := List.any_eq_true.mp h
      simp only [Bool.and_eq_true, decide_eq_true_eq] at hid
      exact ⟨r, hk ▸ hr, hid.1⟩
    · rename_i hk
      rw [lockRankRows_eq hk] at h
      obtain ⟨x, hx, hid⟩ := List.any_eq_true.mp h
      obtain ⟨r, hr, rfl⟩ := List.mem_map.mp hx
      simp only [Bool.and_eq_true, decide_eq_true_eq] at hid
      exact ⟨r, hr, hid.1⟩

theorem retentionCut_anti {now : Int} (h : m ≤ n) : retentionCut now n ≤ retentionCut now m := by
  refine not_lt.mp fun hlt => ?_
  have hcut : now - ((min m 1000000 : ℕ) : Int) * 86400000000 <
      now - ((min n 1000000 : ℕ) : Int) * 86400000000 := Stamp.finite_lt_finite.mp hlt
  omega

theorem isLocked_of_raised {lim' : Option ℕ} (h : InForce db ws k.kind lim)
    (hraise : ∀ n ∈ lim', lim ≤ n)
    (hlocked : isLocked (db.withLimit ws k lim') now ws k.kind id = true) :
    isLocked db now ws k.kind id = true := by
  obtain ⟨r, hr', rfl⟩ := row_of_isLocked hlocked
  have hr : r ∈ lockableRows db ws k.kind := by simpa using hr'
  have hnone (hno : NoCut (db.withLimit ws k lim') now ws k.kind) : False := by
    rw [hno.isLocked] at hlocked
    cases hlocked
  cases lim' with
  | none =>
    refine (hnone (noCut_of_not_inForce fun m hm => ?_)).elim
    cases (inForce_withLimit h).mp hm
  | some n =>
    have hn : InForce (db.withLimit ws k (some n)) ws k.kind n := (inForce_withLimit h).mpr rfl
    have hle : lim ≤ n := hraise n rfl
    by_cases hk : k.kind = .conversation
    · rw [hk] at h hn hlocked hr hr' ⊢
      rw [(cutoff_chats hn).isLocked hr'] at hlocked
      rw [(cutoff_chats h).isLocked hr]
      exact lt_of_lt_of_le hlocked (retentionCut_anti hle)
    · rcases cutoff_counted now hk hn with ⟨c', hc'⟩ | ⟨-, hno⟩
      · have hrows : lockRankRows (db.withLimit ws k (some n)) ws k.kind =
            lockRankRows db ws k.kind := by
          rw [lockRankRows_eq hk, lockRankRows_eq hk, lockableRows_withLimit]
        rw [hc'.isLocked hk hr'] at hlocked
        have hlast := hc'.last
        rw [hrows] at hlast
        rcases cutoff_counted now hk h with ⟨c, hc⟩ | ⟨hfew, -⟩
        · rw [hc.isLocked hk hr]
          exact lt_of_le_of_lt (hc.last.mono hlast hle) hlocked
        · have := hlast.1
          omega
      · exact (hnone hno).elim

end Kindred.Billing.Locks
