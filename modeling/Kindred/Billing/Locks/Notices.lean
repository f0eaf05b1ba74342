import Kindred.Billing.Locks.Retention

/-! What is deleted was announced, to whoever still had it. -/

namespace Kindred.Billing.Locks

/-- Rows that the 30-day notice of an episode is about: of a count kind what was there at `moment`
and is past the cutoff it named, of chats what is idle since before the batch's cutoff. -/
def Covers (k : EpisodeKey) (e : Clock) (moment : Timestamp) (r : LockableRow) : Prop :=
  if k.kind = .conversation then (e.cutoffAt.any fun cutoff => r.activity < .finite cutoff) = true
  else isAfter r.rank e.noticedCutTs e.noticedCutId = true ∧ (ofLex r.rank).1 < .finite moment

instance (k : EpisodeKey) (e : Clock) (moment : Timestamp) (r : LockableRow) :
    Decidable (Covers k e moment r) := by
  unfold Covers
  infer_instance

def LockDb.rowsOf (db : LockDb) (k : EpisodeKey) : List LockableRow :=
  lockableRows db k.workspace k.kind.kind

variable {ids : Option (List Id)} {max : ℕ} {id : Id} {e : Clock}

section Targets
variable {db : ClockDb} {now : Timestamp} {k : EpisodeKey}

theorem due_of_target (h : id ∈ lockedDeleteTargets db now k ids max) :
    ∃ e, db.clocks.get k = some e ∧ (∃ d, episodeDeadline db k e = some d ∧ d ≤ now) ∧
      (lockCutoff db.toLockDb now k.workspace k.kind.kind).locked ≠ 0 := by
  unfold lockedDeleteTargets at h
  cases he : db.clocks.get k with
  | none =>
    rw [he] at h
    cases h
  | some e =>
    rw [he] at h
    dsimp only at h
    split at h
    · cases h
    · rename_i hopen
      simp only [Bool.or_eq_true, not_or, Bool.not_eq_true', Bool.not_eq_false,
        decide_eq_true_eq, Option.any_eq_true] at hopen
      obtain ⟨⟨-, d, hd, hle⟩, hlocked⟩ := hopen
      exact ⟨e, rfl, ⟨d, hd, hle⟩, hlocked⟩

theorem notices_of_deadline {d : Timestamp} (h : episodeDeadline db k e = some d) :
    ∃ n n7, e.notice30At = some n ∧ e.notice7At = some n7 ∧ n + days 30 ≤ d ∧ n7 + days 7 ≤ d := by
  unfold episodeDeadline at h
  cases h30 : e.notice30At with
  | none => simp [h30] at h
  | some n =>
    cases h7 : e.notice7At with
    | none => simp [h30, h7] at h
    | some n7 =>
      cases hk : db.keep.get k.workspace with
      | none => simp [h30, h7, hk] at h
      | some keep =>
        simp only [h30, h7, hk, Option.bind_eq_bind, Option.bind_some, Option.pure_def,
          Option.some.injEq] at h
        exact ⟨n, n7, rfl, rfl, h ▸ le_trans (le_max_left _ _) (le_max_right _ _),
          h ▸ le_trans (le_max_right _ _) (le_max_right _ _)⟩

theorem isLocked_of_isAfter {db : LockDb} {ws : Id} {kind : LockKind} {r : LockableRow}
    (hk : kind ≠ .conversation) (hlocked : (lockCutoff db now ws kind).locked ≠ 0)
    (hr : r ∈ lockableRows db ws kind)
    (hafter : isAfter r.rank (lockCutoff db now ws kind).cutTs (lockCutoff db now ws kind).cutId =
      true) : isLocked db now ws kind r.id = true := by
  have hrank : r.rank ∈ lockRankRows db ws kind := by
    rw [lockRankRows_eq hk]
    exact List.mem_map_of_mem hr
  simp only [isLocked, if_neg hlocked, if_neg hk]
  rw [List.any_eq_true]
  exact ⟨r.rank, hrank, by rw [hafter]; simp [LockableRow.rank]⟩

theorem kind_ne {k : DeletableKind} (h : k ≠ .conversation) : k.kind ≠ .conversation := by
  cases k <;> simp_all [DeletableKind.kind]

/-- What may be deleted is locked, and its notice was about it. -/
theorem row_of_target {n : Timestamp} (h : id ∈ lockedDeleteTargets db now k ids max)
    (he : db.clocks.get k = some e) (hn : e.notice30At = some n) :
    isLocked db.toLockDb now k.workspace k.kind.kind id = true ∧
      ∃ r ∈ db.toLockDb.rowsOf k, r.id = id ∧ Covers k e n r := by
  obtain ⟨-, -, -, hlocked⟩ := due_of_target h
  unfold lockedDeleteTargets at h
  simp only [he, hn] at h
  split at h
  · cases h
  · split at h
    · rename_i hchat
      split at h
      · rename_i lim keep cutoffAt cutTs hlim hkeep hcutoff hcut
        obtain ⟨x, hx, rfl⟩ := List.mem_map.mp h
        have hx := List.mem_of_mem_take hx
        rw [ranked, List.mem_insertionSort, List.mem_map] at hx
        obtain ⟨r, hr, rfl⟩ := hx
        simp only [List.mem_filter, Bool.and_eq_true, decide_eq_true_eq, lt_min_iff] at hr
        obtain ⟨hrow, -, hfinite, hcutTs⟩ := hr
        have hrows : r ∈ db.toLockDb.rowsOf k := by
          rw [LockDb.rowsOf, hchat]
          exact hrow
        have hbefore : r.activity < .finite cutoffAt :=
          lt_of_lt_of_le hfinite (Stamp.finite_le (min_le_left _ _))
        refine ⟨?_, r, hrows, rfl, ?_⟩
        · rw [hchat] at hlocked hcut ⊢
          simp only [isLocked, DeletableKind.kind, if_true] at hlocked hcut ⊢
          rw [if_neg hlocked, List.any_eq_true]
          exact ⟨r, hrow, by simp [isBefore, hcut, hcutTs]⟩
        · rw [Covers, if_pos hchat, hcutoff]
          simpa using hbefore
      · cases h
    · rename_i hkind
      have hk : k.kind.kind ≠ .conversation := kind_ne hkind
      split at h
      · rename_i ts cutId' cutTs cutId n' hts hid hcutTs hcutId hn'
        obtain ⟨x, hx, rfl⟩ := List.mem_map.mp h
        have hx := List.mem_of_mem_take hx
        rw [ranked, List.mem_insertionSort] at hx
        simp only [List.mem_filter, Bool.and_eq_true, decide_eq_true_eq, max_lt_iff] at hx
        obtain ⟨hrow, ⟨⟨hcut, hnoticed⟩, hold⟩, -⟩ := hx
        have hmem := hrow
        rw [lockRankRows_eq hk] at hmem
        obtain ⟨r, hr, rfl⟩ := List.mem_map.mp hmem
        refine ⟨?_, r, hr, rfl, ?_⟩
        · exact isLocked_of_isAfter hk hlocked hr (by simp [isAfter, hcutTs, hcutId, hcut])
        · rw [Covers, if_neg hkind, hts, hid]
          cases hn'
          exact ⟨by simpa [isAfter] using hnoticed, hold⟩
      · cases h

end Targets

/-- The notice that `c` claimed went out at `m`. -/
structure Told (senders : List Sender) (k : EpisodeKey) (which : Notice) (a : Sender)
    (c : HeldClaim) (m : Timestamp) : Prop where
  sender : a ∈ senders
  which : a.which = which
  claimed : c ∈ a.claimed
  key : c.key = k
  sent : a.phase = .sent m

structure Retention.Announced (s : Retention) (k : EpisodeKey) (id : Id) : Prop where
  enabled : s.db.locksEnabled = true
  locked : isLocked s.db.toLockDb s.now k.workspace k.kind.kind id = true
  due : ∃ e d, s.db.clocks.get k = some e ∧ episodeDeadline s.db k e = some d ∧ d ≤ s.now
  notices : ∃ a c m a' c' m', Told s.senders k .«30» a c m ∧ m + days 30 ≤ s.now ∧
    isLocked c.db c.wonAt k.workspace k.kind.kind id = true ∧
    Told s.senders k .«7» a' c' m' ∧ m ≤ m' ∧ m' + days 7 ≤ s.now

def LockDb.has (db : LockDb) (id : Id) : DeletableKind → Bool
  | .kb_article => (db.articles.get id).isSome
  | .contact => (db.contacts.get id).isSome
  | .conversation => (db.conversations.get id).isSome

/-- A step of the process deletes what was announced only, and no workspace or member. -/
def Retention.Announces (s : Retention) (e : RetentionEvent) : Prop :=
  let t := s.step e
  (∀ db keep, e ≠ .world db keep) → (∀ kind id, s.db.has id kind = true → t.db.has id kind = false →
    ∃ k ids, e = .delete k ids ∧ k.kind = kind ∧ s.Announced k id) ∧
  t.db.workspaces = s.db.workspaces ∧ t.db.members = s.db.members

namespace Retention

/-- A sender that still may confirm its claim of `k`. -/
def confirms (k : EpisodeKey) (claim : Option Timestamp) (which : Notice) (a : Sender) : Bool :=
  a.which = which && a.phase ≠ .released &&
    a.claimed.any fun c => c.key = k && claim = some c.stamp

def moments (s : Retention) (k : EpisodeKey) (e : Clock) : List Timestamp :=
  e.notice30At.toList ++
    (s.senders.filter (confirms k e.notice30ClaimedAt .«30»)).map Sender.runNow

def Notice.ahead : Notice → Int
  | .«30» => days 30
  | .«7» => days 7

/-- Nothing comes newly under a notice that is claimed or recorded; when the notice of a batch of
chats is claimed, all that it is about are locked; no two hold claims of one stamp; and no deletion
falls between a notice's period since the moment recorded and the one since its mail. -/
def Clean (s : Retention) : RetentionEvent → Prop
  | .world db _ => ∀ p ∈ s.db.clocks.rows, ∀ n ∈ s.moments p.1 p.2, ∀ r' ∈ db.rowsOf p.1,
      Covers p.1 p.2 n r' → ∃ r ∈ s.db.rowsOf p.1, r.id = r'.id ∧ Covers p.1 p.2 n r
  | .observe ws => ∀ p ∈ s.db.clocks.rows,
      ∀ e' ∈ (lockClockObserve s.db s.now ws).clocks.get p.1, ∀ n ∈ s.moments p.1 p.2,
        ∀ r ∈ s.db.rowsOf p.1, Covers p.1 e' n r → Covers p.1 p.2 n r
  | .claim i k => ∀ a ∈ s.senders[i]?,
      (∀ b ∈ s.senders, confirms k (some (truncMillis s.now)) a.which b = false) ∧
      (a.which = .«30» → k.kind = .conversation → ∀ e ∈ s.db.clocks.get k, ∀ r ∈ s.db.rowsOf k,
        Covers k e a.runNow r → isLocked s.db.toLockDb s.now k.workspace .conversation r.id = true)
  | .delete k _ => ∀ a ∈ s.senders, ∀ c ∈ a.claimed, c.key = k →
      match a.phase with
      | .sent m => a.runNow + Notice.ahead a.which ≤ s.now → m + Notice.ahead a.which ≤ s.now
      | _ => True
  | _ => True

instance (s : Retention) : (e : RetentionEvent) → Decidable (s.Clean e)
  | .world .. | .observe _ | .claim .. => by unfold Clean; infer_instance
  | .delete k _ => by
    have (a : Sender) : Decidable (match a.phase with
        | .sent m => a.runNow + Notice.ahead a.which ≤ s.now → m + Notice.ahead a.which ≤ s.now
        | _ => True) := by
      split <;> infer_instance
    unfold Clean
    infer_instance
  | .tick _ | .start .. | .mail _ | .release .. | .record .. => .isTrue trivial

end Retention

end Kindred.Billing.Locks
