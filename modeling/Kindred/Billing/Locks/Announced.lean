import Kindred.Billing.Locks.Notices

/-! That clean runs delete nothing that was not announced. -/

namespace Kindred.Billing.Locks
open Lib (Table run Meets)

variable {c : HeldClaim} {r : LockableRow} {id : Id}

namespace Retention

/-- An episode whose notices, claimed or recorded, are about rows that were locked when they were
claimed, the second sent after the first. -/
structure Kept (s : Retention) (k : EpisodeKey) (e : Clock) : Prop where
  claimed : ∀ a ∈ s.senders, a.which = .«30» → a.phase ≠ .released → ∀ c ∈ a.claimed, c.key = k →
    e.notice30ClaimedAt = some c.stamp → ∀ r ∈ s.db.rowsOf k, Covers k e a.runNow r →
      isLocked c.db c.wonAt k.workspace k.kind.kind r.id = true
  noticed : ∀ n, e.notice30At = some n → ∃ a c m, Told s.senders k .«30» a c m ∧ a.runNow = n ∧
    m ≤ s.now ∧
    (∀ r ∈ s.db.rowsOf k, Covers k e n r →
      isLocked c.db c.wonAt k.workspace k.kind.kind r.id = true) ∧
    (∀ b ∈ s.senders, b.which = .«7» → b.phase ≠ .released → ∀ c' ∈ b.claimed, c'.key = k →
      e.notice7ClaimedAt = some c'.stamp → ∀ m', b.phase = .sent m' → m ≤ m') ∧
    ∀ n', e.notice7At = some n' → ∃ b c' m', Told s.senders k .«7» b c' m' ∧ b.runNow = n' ∧ m ≤ m'
  first : e.notice30At = none → e.notice7ClaimedAt = none ∧ e.notice7At = none

def Sound (s : Retention) : Prop := ∀ k e, s.db.clocks.get k = some e → s.Kept k e

structure Follows (s t : Retention) (k : EpisodeKey) (e e' : Clock) : Prop where
  now : s.now ≤ t.now
  told : ∀ a ∈ s.senders, ∀ m, a.phase = .sent m → a ∈ t.senders
  senders : ∀ a' ∈ t.senders, a'.phase ≠ .released → ∀ c ∈ a'.claimed, c.key = k →
    ∃ a ∈ s.senders, a.which = a'.which ∧ a.runNow = a'.runNow ∧ a.phase ≠ .released ∧
      c ∈ a.claimed ∧ ∀ m, a'.phase = .sent m → a.phase = .sent m ∨ s.now ≤ m
  notice30 : e'.notice30At = e.notice30At
  notice7 : e'.notice7At = e.notice7At
  claim30 : e'.notice30ClaimedAt = e.notice30ClaimedAt ∨ e'.notice30ClaimedAt = none
  claim7 : e'.notice7ClaimedAt = e.notice7ClaimedAt ∨ e'.notice7ClaimedAt = none
  rows : ∀ n ∈ s.moments k e, ∀ r' ∈ t.db.rowsOf k, Covers k e' n r' →
    ∃ r ∈ s.db.rowsOf k, r.id = r'.id ∧ Covers k e n r

variable {k : EpisodeKey} {e : Clock} {a : Sender} {e' : Clock} {senders : List Sender} {i : ℕ}
  {db : LockDb} {b : Sender} {now : Timestamp} {clocks : Table EpisodeKey Clock} {ws : Id}
  {ids : List Id} {kind : DeletableKind}

theorem mem_moments {s : Retention} (ha : a ∈ s.senders) (hwhich : a.which = .«30»)
    (hphase : a.phase ≠ .released) (hc : c ∈ a.claimed) (hkey : c.key = k)
    (hclaim : e.notice30ClaimedAt = some c.stamp) : a.runNow ∈ s.moments k e := by
  refine List.mem_append_right _ (List.mem_map.mpr ⟨a, List.mem_filter.mpr ⟨ha, ?_⟩, rfl⟩)
  simp only [confirms, Bool.and_eq_true, decide_eq_true_eq, List.any_eq_true]
  exact ⟨⟨hwhich, by simpa using hphase⟩, c, hc, hkey, hclaim⟩

theorem Kept.follows {s t : Retention} (h : s.Kept k e) (hf : Follows s t k e e') :
    t.Kept k e' := by
  refine ⟨?_, ?_, ?_⟩
  · intro a' ha' hwhich hphase c hc hkey hclaim r' hr' hcovers
    have hold : e.notice30ClaimedAt = some c.stamp := by
      rcases hf.claim30 with heq | hnone
      · rw [← heq, hclaim]
      · rw [hnone] at hclaim
        cases hclaim
    obtain ⟨a, ha, hsame, hrun, hopen, hca, -⟩ := hf.senders a' ha' hphase c hc hkey
    rw [← hrun] at hcovers
    obtain ⟨r, hr, hid, hcov⟩ := hf.rows _
      (mem_moments ha (hsame.trans hwhich) hopen hca hkey hold) r' hr' hcovers
    rw [← hid]
    exact h.claimed a ha (hsame.trans hwhich) hopen c hca hkey hold r hr hcov
  · intro n hn
    rw [hf.notice30] at hn
    obtain ⟨a, c, m, htold, hrun, hm, hlocked, hsecond, hseven⟩ := h.noticed n hn
    refine ⟨a, c, m, ⟨hf.told a htold.sender m htold.sent, htold.which, htold.claimed, htold.key,
      htold.sent⟩, hrun, le_trans hm hf.now, ?_, ?_, ?_⟩
    · intro r' hr' hcovers
      have hmem : n ∈ s.moments k e := by
        refine List.mem_append_left _ ?_
        rw [hn]
        exact List.mem_singleton.mpr rfl
      obtain ⟨r, hr, hid, hcov⟩ := hf.rows n hmem r' hr' hcovers
      rw [← hid]
      exact hlocked r hr hcov
    · intro b' hb' hwhich hphase c' hc' hkey hclaim m' hm'
      have hold : e.notice7ClaimedAt = some c'.stamp := by
        rcases hf.claim7 with heq | hnone
        · rw [← heq, hclaim]
        · rw [hnone] at hclaim
          cases hclaim
      obtain ⟨b, hb, hsame, -, hopen, hcb, hsent⟩ := hf.senders b' hb' hphase c' hc' hkey
      rcases hsent m' hm' with hb' | hlate
      · exact hsecond b hb (hsame.trans hwhich) hopen c' hcb hkey hold m' hb'
      · exact le_trans hm hlate
    · intro n' hn'
      rw [hf.notice7] at hn'
      obtain ⟨b, c', m', htold', hrun', hle⟩ := hseven n' hn'
      exact ⟨b, c', m', ⟨hf.told b htold'.sender m' htold'.sent, htold'.which, htold'.claimed,
        htold'.key, htold'.sent⟩, hrun', hle⟩
  · intro hnone
    rw [hf.notice30] at hnone
    obtain ⟨hclaim, hnotice⟩ := h.first hnone
    refine ⟨?_, by rw [hf.notice7, hnotice]⟩
    rcases hf.claim7 with heq | hnone'
    · rw [heq, hclaim]
    · exact hnone'

theorem Kept.blank (s : Retention) (k : EpisodeKey) (h30 : e.notice30At = none)
    (h7 : e.notice7At = none) (hc30 : e.notice30ClaimedAt = none)
    (hc7 : e.notice7ClaimedAt = none) : s.Kept k e where
  claimed _ _ _ _ _ _ _ hclaim := by simp [hc30] at hclaim
  noticed n hn := by simp [h30] at hn
  first _ := ⟨hc7, h7⟩

/-- What senders of `k` there are after a step that wins no claim of it. -/
structure Later (senders senders' : List Sender) (k : EpisodeKey) (now : Timestamp) : Prop where
  told : ∀ a ∈ senders, ∀ m, a.phase = .sent m → a ∈ senders'
  back : ∀ a' ∈ senders', a'.phase ≠ .released → ∀ c ∈ a'.claimed, c.key = k →
    ∃ a ∈ senders, a.which = a'.which ∧ a.runNow = a'.runNow ∧ a.phase ≠ .released ∧
      c ∈ a.claimed ∧ ∀ m, a'.phase = .sent m → a.phase = .sent m ∨ now ≤ m

theorem Later.refl (senders : List Sender) (k : EpisodeKey) (now : Timestamp) :
    Later senders senders k now where
  told _ ha _ _ := ha
  back a ha hphase _ hc _ := ⟨a, ha, rfl, rfl, hphase, hc, fun _ hm => .inl hm⟩

theorem Later.start (senders : List Sender) (k : EpisodeKey) (now : Timestamp)
    (hnone : a.claimed = []) : Later senders (senders ++ [a]) k now where
  told b hb _ _ := List.mem_append_left _ hb
  back b hb hphase c hc _ := by
    rcases List.mem_append.mp hb with hb | hb
    · exact ⟨b, hb, rfl, rfl, hphase, hc, fun _ hm => .inl hm⟩
    · rw [List.mem_singleton.mp hb, hnone] at hc
      cases hc

theorem mem_set_of_ne {x : Sender} (hi : senders[i]? = some a) (hx : x ∈ senders) (hne : x ≠ a) :
    x ∈ senders.set i b := by
  obtain ⟨j, hj⟩ := List.mem_iff_getElem?.mp hx
  have hij : i ≠ j := by
    rintro rfl
    rw [hi] at hj
    exact hne (Option.some.inj hj).symm
  refine List.mem_iff_getElem?.mpr ⟨j, ?_⟩
  rw [List.getElem?_set_ne hij, hj]

theorem Later.set (hi : senders[i]? = some a) (hunsent : ∀ m, a.phase ≠ .sent m)
    (hwhich : b.which = a.which) (hrun : b.runNow = a.runNow)
    (hphase : b.phase ≠ .released → a.phase ≠ .released)
    (hclaimed : ∀ c ∈ b.claimed, c.key = k → c ∈ a.claimed)
    (hmail : ∀ m, b.phase = .sent m → now ≤ m) : Later senders (senders.set i b) k now where
  told x hx m hm := mem_set_of_ne hi hx fun h => hunsent m (h ▸ hm)
  back x hx hopen c hc hkey := by
    rcases List.mem_or_eq_of_mem_set hx with hx | rfl
    · exact ⟨x, hx, rfl, rfl, hopen, hc, fun _ hm => .inl hm⟩
    · exact ⟨a, List.mem_of_getElem? hi, hwhich.symm, hrun.symm, hphase hopen, hclaimed c hc hkey,
        fun m hm => .inr (hmail m hm)⟩

structure SameNotices (e e' : Clock) : Prop where
  notice30 : e'.notice30At = e.notice30At
  notice7 : e'.notice7At = e.notice7At
  claim30 : e'.notice30ClaimedAt = e.notice30ClaimedAt
  claim7 : e'.notice7ClaimedAt = e.notice7ClaimedAt

theorem SameNotices.refl (e : Clock) : SameNotices e e := ⟨rfl, rfl, rfl, rfl⟩

theorem SameNotices.trans {e'' : Clock} (h : SameNotices e e') (h' : SameNotices e' e'') :
    SameNotices e e'' :=
  ⟨h'.notice30.trans h.notice30, h'.notice7.trans h.notice7, h'.claim30.trans h.claim30,
    h'.claim7.trans h.claim7⟩

structure Blank (e : Clock) : Prop where
  notice30 : e.notice30At = none
  notice7 : e.notice7At = none
  claim30 : e.notice30ClaimedAt = none
  claim7 : e.notice7ClaimedAt = none

theorem Blank.same (h : Blank e) (hs : SameNotices e e') : Blank e' :=
  ⟨hs.notice30.trans h.notice30, hs.notice7.trans h.notice7, hs.claim30.trans h.claim30,
    hs.claim7.trans h.claim7⟩

theorem blank_opened (since : Timestamp) (cutoffAt : Option Timestamp) (count : ℕ) :
    Blank (.opened since cutoffAt count) := ⟨rfl, rfl, rfl, rfl⟩

def KeepsNotices (clocks clocks' : Table EpisodeKey Clock) : Prop :=
  ∀ k e', clocks'.get k = some e' → Blank e' ∨ ∃ e, clocks.get k = some e ∧ SameNotices e e'

theorem KeepsNotices.refl (clocks : Table EpisodeKey Clock) : KeepsNotices clocks clocks :=
  fun _ e h => .inr ⟨e, h, .refl e⟩

theorem KeepsNotices.trans {a b c : Table EpisodeKey Clock} (h : KeepsNotices a b)
    (h' : KeepsNotices b c) : KeepsNotices a c := by
  intro k e'' he''
  rcases h' k e'' he'' with hblank | ⟨e', he', hsame'⟩
  · exact .inl hblank
  · rcases h k e' he' with hblank | ⟨e, he, hsame⟩
    · exact .inl (hblank.same hsame')
    · exact .inr ⟨e, he, hsame.trans hsame'⟩

theorem KeepsNotices.put (h : Blank e' ∨ ∃ e, clocks.get k = some e ∧ SameNotices e e') :
    KeepsNotices clocks (clocks.put k e') := by
  intro k' x hx
  by_cases hk : k' = k
  · rw [hk, Table.get_put_self] at hx
    cases hx
    exact hk ▸ h
  · rw [Table.get_put_ne _ _ hk] at hx
    exact .inr ⟨x, hx, .refl x⟩

theorem KeepsNotices.update {f : Clock → Clock} (h : ∀ e, SameNotices e (f e)) :
    KeepsNotices clocks (clocks.update k f) := by
  intro k' x hx
  by_cases hk : k' = k
  · rw [hk, Table.get_update_self] at hx
    obtain ⟨e, he, rfl⟩ := Option.map_eq_some_iff.mp hx
    exact .inr ⟨e, hk ▸ he, h e⟩
  · rw [Table.get_update_ne _ _ hk] at hx
    exact .inr ⟨x, hx, .refl x⟩

theorem KeepsNotices.keep (clocks : Table EpisodeKey Clock) (p : EpisodeKey → Clock → Bool) :
    KeepsNotices clocks (clocks.keep p) := by
  intro k x hx
  rw [Table.get_keep] at hx
  exact .inr ⟨x, (Option.filter_eq_some_iff.mp hx).1, .refl x⟩

theorem KeepsNotices.erase (clocks : Table EpisodeKey Clock) (k : EpisodeKey) :
    KeepsNotices clocks (clocks.erase k) := by
  intro k' x hx
  rw [Table.get_erase] at hx
  split at hx
  · cases hx
  · exact .inr ⟨x, hx, .refl x⟩

theorem observeCounted_keeps (db : ClockDb) (now : Timestamp) (ws : Id) (kind : DeletableKind) :
    KeepsNotices db.clocks (observeCounted db now ws kind).clocks := by
  unfold observeCounted
  dsimp only
  split
  · split
    · split
      · exact .refl _
      · exact .put (.inl (blank_opened ..))
    · exact .update fun e => ⟨rfl, rfl, rfl, rfl⟩
  · exact .keep _ _

theorem observeBatch_keeps (db : ClockDb) (now : Timestamp) (k : EpisodeKey) (cutoff : Timestamp) :
    KeepsNotices db.clocks (observeBatch db now k cutoff) := by
  unfold observeBatch
  dsimp only
  generalize (if ((db.clocks.get k).any fun e => e.notice30At.isSome) = true then
    least ((db.clocks.get k).bind Clock.cutoffAt) cutoff else cutoff) = named
  cases he : db.clocks.get k with
  | none =>
    dsimp only
    split
    · exact .put (.inl (blank_opened ..))
    · exact .refl _
  | some e =>
    dsimp only
    split
    · exact .refl _
    · split
      · exact .put (.inr ⟨e, he, rfl, rfl, rfl, rfl⟩)
      · exact .erase _ _

theorem observe_keeps (db : ClockDb) (now : Timestamp) (ws : Id) :
    KeepsNotices db.clocks (lockClockObserve db now ws).clocks := by
  have hchats (db : ClockDb) : KeepsNotices db.clocks (observeChats db now ws).clocks := by
    unfold observeChats
    dsimp only
    split
    · split
      · exact observeBatch_keeps _ _ _ _
      · exact .refl _
    · exact .keep _ _
  exact ((observeCounted_keeps db now ws _).trans (observeCounted_keeps _ now ws _)).trans
    (hchats _)

theorem lockedDelete_cases (db : ClockDb) (now : Timestamp) (k : EpisodeKey) (ids : List Id) :
    lockedDelete db now k ids = db ∨ ∃ e, db.clocks.get k = some e ∧
      ((lockedDelete db now k ids).toLockDb =
        db.toLockDb.deleteRows k.workspace (lockedDeleteBatch db now k ids) k.kind) ∧
      ((lockedDelete db now k ids).clocks = db.clocks ∨ (lockedDelete db now k ids).clocks =
          db.clocks.put k { e with deletedAt := some now, lockedCount := 0 }) := by
  unfold lockedDelete
  cases he : db.clocks.get k with
  | none => exact .inl rfl
  | some e =>
    dsimp only
    split
    · exact .inl rfl
    · right
      refine ⟨e, rfl, ?_⟩
      split
      · exact ⟨rfl, .inr rfl⟩
      · exact ⟨rfl, .inl rfl⟩

theorem mem_deleteRows {ws' : Id} {kind' : LockKind}
    (h : r ∈ lockableRows (db.deleteRows ws ids kind) ws' kind') :
    r ∈ lockableRows db ws' kind' := by
  have hsub {β : Type} {t : Table Id β} {p : Id → β → Bool} {f : Id × β → Option LockableRow}
      (h : r ∈ (t.keep p).rows.filterMap f) : r ∈ t.rows.filterMap f := by
    obtain ⟨x, hx, hf⟩ := List.mem_filterMap.mp h
    exact List.mem_filterMap.mpr ⟨x, (List.mem_filter.mp hx).1, hf⟩
  cases kind <;> cases kind' <;> first | exact h | exact hsub h

theorem Covers.congr {n : Timestamp} (hcutoff : e'.cutoffAt = e.cutoffAt)
    (hts : e'.noticedCutTs = e.noticedCutTs) (hid : e'.noticedCutId = e.noticedCutId)
    (h : Covers k e' n r) : Covers k e n r := by
  unfold Covers at *
  rwa [hcutoff, hts, hid] at h

section Steps
variable {s : Retention}

theorem Follows.of {t : Retention} (hnow : s.now ≤ t.now)
    (hlater : Later s.senders t.senders k s.now) (hsame : SameNotices e e')
    (hrows : ∀ n ∈ s.moments k e, ∀ r' ∈ t.db.rowsOf k, Covers k e' n r' →
      ∃ r ∈ s.db.rowsOf k, r.id = r'.id ∧ Covers k e n r) : Follows s t k e e' :=
  { now := hnow, told := hlater.told, senders := hlater.back, notice30 := hsame.notice30
    notice7 := hsame.notice7, claim30 := .inl hsame.claim30, claim7 := .inl hsame.claim7
    rows := hrows }

theorem Sound.later (h : s.Sound) (hnow : s.now ≤ now)
    (hlater : ∀ k, Later s.senders senders k s.now) : Sound { s with now, senders } := by
  intro k e he
  exact (h k e he).follows (.of hnow (hlater k) (.refl e) fun n _ r hr hcovers =>
    ⟨r, hr, rfl, hcovers⟩)

theorem Sound.world (h : s.Sound) {keep : Table Id ℕ} (hclean : s.Clean (.world db keep)) :
    (s.step (.world db keep)).Sound := by
  intro k e he
  refine (h k e he).follows (.of (le_refl _) (.refl _ _ _) (.refl e) fun n hn r' hr' hcovers => ?_)
  exact hclean (k, e) (Table.get_eq_some_iff_mem.mp he) n hn r' hr' hcovers

theorem Sound.observe (h : s.Sound) (hclean : s.Clean (.observe ws)) :
    (s.step (.observe ws)).Sound := by
  intro k e' he'
  rcases observe_keeps s.db s.now ws k e' he' with hblank | ⟨e, he, hsame⟩
  · exact .blank _ k hblank.notice30 hblank.notice7 hblank.claim30 hblank.claim7
  · refine (h k e he).follows (.of (le_refl _) (.refl _ _ _) hsame fun n hn r hr hcovers => ?_)
    have hrow : r ∈ s.db.rowsOf k := hr
    exact ⟨r, hrow, rfl,
      hclean (k, e) (Table.get_eq_some_iff_mem.mp he) e' he' n hn r hrow hcovers⟩

theorem Sound.delete (h : s.Sound) (k : EpisodeKey) (ids : List Id) :
    (s.step (.delete k ids)).Sound := by
  show Sound { s with db := lockedDelete s.db s.now k ids }
  rcases lockedDelete_cases s.db s.now k ids with heq | ⟨e₀, he₀, hrows, hclocks⟩
  · rw [heq]
    exact h
  · intro k' e' he'
    have hback {r : LockableRow}
        (hr : r ∈ LockDb.rowsOf (lockedDelete s.db s.now k ids).toLockDb k') :
        r ∈ s.db.rowsOf k' := by
      rw [LockDb.rowsOf, hrows] at hr
      exact mem_deleteRows hr
    have hold : ∃ e, s.db.clocks.get k' = some e ∧ SameNotices e e' ∧
        e'.cutoffAt = e.cutoffAt ∧ e'.noticedCutTs = e.noticedCutTs ∧
        e'.noticedCutId = e.noticedCutId := by
      have he' : (lockedDelete s.db s.now k ids).clocks.get k' = some e' := he'
      rcases hclocks with hsame | hput
      · rw [hsame] at he'
        exact ⟨e', he', .refl e', rfl, rfl, rfl⟩
      · rw [hput] at he'
        by_cases hk : k' = k
        · rw [hk, Table.get_put_self] at he'
          cases he'
          exact ⟨e₀, hk ▸ he₀, ⟨rfl, rfl, rfl, rfl⟩, rfl, rfl, rfl⟩
        · rw [Table.get_put_ne _ _ hk] at he'
          exact ⟨e', he', .refl e', rfl, rfl, rfl⟩
    obtain ⟨e, he, hsame, hcutoff, hts, hid⟩ := hold
    refine (h k' e he).follows (.of (le_refl _) (.refl _ _ _) hsame fun n hn r hr hcovers => ?_)
    exact ⟨r, hback hr, rfl, Covers.congr hcutoff hts hid hcovers⟩

theorem Sound.mail (h : s.Sound) (i : ℕ) : (s.step (.mail i)).Sound := by
  unfold step
  dsimp only
  cases hi : s.senders[i]? with
  | none => exact h
  | some a =>
    dsimp only
    split
    · rename_i hready
      refine h.later (le_refl _) fun k => .set hi (fun m hm => ?_) rfl rfl (fun _ hr => ?_)
        (fun _ hc _ => hc) fun m hm => ?_
      · rw [hready.1] at hm
        cases hm
      · rw [hready.1] at hr
        cases hr
      · cases hm
        exact le_refl _
    · exact h

theorem Sound.start (h : s.Sound) (which : Notice) (runNow : Timestamp)
    (episodes : List EpisodeKey) : (s.step (.start which runNow episodes)).Sound := by
  show Sound (if runNow ≤ s.now ∧ episodes.all (s.due which runNow) then _ else s)
  split
  · exact h.later (le_refl _) fun k => .start _ _ _ rfl
  · exact h

theorem Sound.release (h : s.Sound) (i : ℕ) (k : EpisodeKey) : (s.step (.release i k)).Sound := by
  unfold step
  dsimp only
  cases hi : s.senders[i]? with
  | none => exact h
  | some a =>
    have hreleased (c : HeldClaim) (hunsent : ∀ m, a.phase ≠ .sent m) :
        Sound { s with db := releaseClaim s.db a.which c
                       senders := s.senders.set i { a with phase := .released } } := by
      have hlater (k : EpisodeKey) :
          Later s.senders (s.senders.set i { a with phase := .released }) k s.now :=
        .set hi hunsent rfl rfl (fun hne => absurd rfl hne) (fun _ hc _ => hc)
          fun m hm => by cases hm
      intro k' e' he'
      by_cases hk : k' = c.key
      · rw [hk] at he' ⊢
        simp only [releaseClaim, Table.get_update_self] at he'
        obtain ⟨e, he, heq⟩ := Option.map_eq_some_iff.mp he'
        have hfree : Follows s { s with db := releaseClaim s.db a.which c
                                        senders := s.senders.set i { a with phase := .released } }
            c.key e e' := by
          split at heq
          · subst heq
            obtain ⟨hclaim30, hclaim7⟩ := e.withClaim_claims a.which
            exact
              { now := le_refl _, told := (hlater c.key).told, senders := (hlater c.key).back
                notice30 := by simp, notice7 := by simp, claim30 := hclaim30, claim7 := hclaim7
                rows := fun n _ r hr hcovers =>
                  ⟨r, hr, rfl, Covers.congr (by simp) (by simp) (by simp) hcovers⟩ }
          · subst heq
            exact .of (le_refl _) (hlater c.key) (.refl e) fun n _ r hr hcovers =>
              ⟨r, hr, rfl, hcovers⟩
        exact (h c.key e he).follows hfree
      · simp only [releaseClaim, Table.get_update_ne _ _ hk] at he'
        exact (h k' e' he').follows (.of (le_refl _) (hlater k') (.refl e') fun n _ r hr hcovers =>
          ⟨r, hr, rfl, hcovers⟩)
    dsimp only
    cases hphase : a.phase with
    | sent m => cases a.claimed.find? (·.key = k) <;> exact h
    | claiming =>
      cases a.claimed.find? (·.key = k) with
      | none => exact h
      | some c => exact hreleased c fun m hm => by simp [hphase] at hm
    | released =>
      cases a.claimed.find? (·.key = k) with
      | none => exact h
      | some c => exact hreleased c fun m hm => by simp [hphase] at hm

/-- What its sender confirms was told. -/
theorem Sound.record (h : s.Sound) (hsent : ∀ a ∈ s.senders, ∀ m, a.phase = .sent m → m ≤ s.now)
    (i : ℕ) (k : EpisodeKey) : (s.step (.record i k)).Sound := by
  unfold step
  dsimp only
  cases hi : s.senders[i]? with
  | none => exact h
  | some a =>
    have ha : a ∈ s.senders := List.mem_of_getElem? hi
    dsimp only
    cases hphase : a.phase with
    | claiming => cases a.claimed.find? (·.key = k) <;> exact h
    | released => cases a.claimed.find? (·.key = k) <;> exact h
    | sent m =>
      cases hc : a.claimed.find? (·.key = k) with
      | none => exact h
      | some c =>
        have hmem : c ∈ a.claimed := List.mem_of_find?_eq_some hc
        have hopen : a.phase ≠ .released := by simp [hphase]
        show Sound { s with db := recordNotice s.db a c }
        intro k' e' he'
        by_cases hk : k' = c.key
        · rw [hk] at he' ⊢
          simp only [recordNotice, Table.get_update_self] at he'
          obtain ⟨e, he, heq⟩ := Option.map_eq_some_iff.mp he'
          have hkept := h c.key e he
          split at heq
          · rename_i hown
            cases hwhich : a.which with
            | «30» =>
              rw [hwhich] at heq hown
              obtain ⟨hclaim, hnone⟩ := hown
              obtain ⟨hfree, hno7⟩ := hkept.first hnone
              subst heq
              exact {
                claimed := fun _ _ _ _ _ _ _ hclaim' => by cases hclaim'
                noticed := fun n hn => by
                  cases hn
                  refine ⟨a, c, m, ⟨ha, hwhich, hmem, rfl, hphase⟩, rfl, hsent a ha m hphase,
                    ?_, ?_, ?_⟩
                  · intro r hr hcovers
                    exact hkept.claimed a ha hwhich hopen c hmem rfl hclaim r hr
                      (Covers.congr rfl rfl rfl hcovers)
                  · intro _ _ _ _ c' _ _ hclaim'
                    rw [show e.notice7ClaimedAt = some c'.stamp from hclaim'] at hfree
                    cases hfree
                  · intro n' hn'
                    rw [show e.notice7At = some n' from hn'] at hno7
                    cases hno7
                first := fun h0 => by cases h0 }
            | «7» =>
              rw [hwhich] at heq hown
              obtain ⟨hclaim, hnone⟩ := hown
              subst heq
              exact {
                claimed := fun b hb hb30 hbopen c' hc' hkey hclaim' r hr hcovers =>
                  hkept.claimed b hb hb30 hbopen c' hc' hkey hclaim' r hr
                    (Covers.congr rfl rfl rfl hcovers)
                noticed := fun n hn => by
                  obtain ⟨b, c', m', htold, hrun, hm', hlocked, hsecond, -⟩ := hkept.noticed n hn
                  refine ⟨b, c', m', htold, hrun, hm', ?_, ?_, ?_⟩
                  · exact fun r hr hcovers => hlocked r hr (Covers.congr rfl rfl rfl hcovers)
                  · exact fun _ _ _ _ _ _ _ hclaim' => by cases hclaim'
                  · intro n' hn'
                    cases hn'
                    exact ⟨a, c, m, ⟨ha, hwhich, hmem, rfl, hphase⟩, rfl,
                      hsecond a ha hwhich hopen c hmem rfl hclaim m hphase⟩
                first := fun h0 => by
                  have hclaim' : e.notice7ClaimedAt = some c.stamp := hclaim
                  rw [(hkept.first h0).1] at hclaim'
                  cases hclaim' }
          · subst heq
            exact hkept.follows (.of (le_refl _) (.refl _ _ _) (.refl e) fun n _ r hr hcovers =>
              ⟨r, hr, rfl, hcovers⟩)
        · simp only [recordNotice, Table.get_update_ne _ _ hk] at he'
          exact (h k' e' he').follows (.of (le_refl _) (.refl _ _ _) (.refl e')
            fun n _ r hr hcovers => ⟨r, hr, rfl, hcovers⟩)

inductive Won (db : ClockDb) (now : Timestamp) (k : EpisodeKey) (e : Clock) : Notice → Clock → Prop
  | chats (hk : k.kind = .conversation) (hnone : e.notice30At = none) :
    Won db now k e .«30» (e.withClaim (some (truncMillis now)) .«30»)
  | counted (hk : k.kind ≠ .conversation) (hnone : e.notice30At = none)
    (hlocked : (lockCutoff db.toLockDb now k.workspace k.kind.kind).locked ≠ 0) (count : ℕ) :
    Won db now k e .«30»
      { e with
        notice30ClaimedAt := some (truncMillis now)
        noticedCutTs := (lockCutoff db.toLockDb now k.workspace k.kind.kind).cutTs
        noticedCutId := (lockCutoff db.toLockDb now k.workspace k.kind.kind).cutId
        lockedCount := count }
  | second (hsome : e.notice30At ≠ none) (hnone : e.notice7At = none) :
    Won db now k e .«7» (e.withClaim (some (truncMillis now)) .«7»)

theorem lockNoticeClaim_cases (db : ClockDb) (now : Timestamp) (k : EpisodeKey) (which : Notice) :
    (lockNoticeClaim db now k which).1 = none ∨ ∃ e e' count, db.clocks.get k = some e ∧
      Won db now k e which e' ∧ lockNoticeClaim db now k which =
        (some (count, truncMillis now), { db with clocks := db.clocks.put k e' }) := by
  unfold lockNoticeClaim
  cases he : db.clocks.get k with
  | none => exact .inl rfl
  | some e =>
    dsimp only
    split
    · exact .inl rfl
    · rename_i hfree
      simp only [Bool.or_eq_true, not_or, Bool.not_eq_true, Option.isSome_eq_false_iff,
        Option.isNone_iff_eq_none] at hfree
      obtain ⟨⟨-, hnone⟩, -⟩ := hfree
      cases which with
      | «30» =>
        dsimp only
        split
        · rename_i hk
          exact .inr ⟨e, _, _, rfl, .chats hk hnone, rfl⟩
        · rename_i hk
          split
          · exact .inl rfl
          · rename_i hlocked
            exact .inr ⟨e, _, _, rfl, .counted hk hnone hlocked _, rfl⟩
      | «7» =>
        dsimp only
        split
        · exact .inl rfl
        · rename_i hsome
          exact .inr ⟨e, _, _, rfl, .second (by simpa using hsome) hnone, rfl⟩

def Sender.wins (s : Retention) (k : EpisodeKey) (a : Sender) : Sender :=
  { a with claimed := a.claimed ++
      [{ key := k, stamp := truncMillis s.now, db := s.db.toLockDb, wonAt := s.now }] }

theorem confirms_of_wins (hnew : a.claimed.all (·.key ≠ k) = true)
    (hstamps : ∀ b ∈ s.senders, confirms k (some (truncMillis s.now)) a.which b = false)
    (hb : b ∈ s.senders.set i (Sender.wins s k a)) (hwhich : b.which = a.which)
    (hopen : b.phase ≠ .released) (hc : c ∈ b.claimed) (hkey : c.key = k)
    (hstamp : some (truncMillis s.now) = some c.stamp) :
    b = Sender.wins s k a ∧ c.db = s.db.toLockDb ∧ c.wonAt = s.now := by
  rcases List.mem_or_eq_of_mem_set hb with hb | rfl
  · have hnot := hstamps b hb
    have hconfirms : confirms k (some (truncMillis s.now)) a.which b = true := by
      simp only [confirms, Bool.and_eq_true, decide_eq_true_eq, List.any_eq_true]
      exact ⟨⟨hwhich, by simpa using hopen⟩, c, hc, hkey, hstamp⟩
    rw [hconfirms] at hnot
    cases hnot
  · rcases List.mem_append.mp hc with hold | hlast
    · have hne := List.all_eq_true.mp hnew c hold
      simp [hkey] at hne
    · rw [List.mem_singleton.mp hlast]
      exact ⟨rfl, rfl, rfl⟩

theorem Kept.wins (h : s.Sound) (hi : s.senders[i]? = some a) (hphase : a.phase = .claiming)
    (hnew : a.claimed.all (·.key ≠ k) = true) (he : s.db.clocks.get k = some e)
    (hwon : Won s.db s.now k e a.which e')
    (hstamps : ∀ b ∈ s.senders, confirms k (some (truncMillis s.now)) a.which b = false)
    (hchats : a.which = .«30» → k.kind = .conversation → ∀ r ∈ s.db.rowsOf k,
      Covers k e a.runNow r → isLocked s.db.toLockDb s.now k.workspace .conversation r.id = true) :
    Kept { s with db := { s.db with clocks := s.db.clocks.put k e' }
                  senders := s.senders.set i (Sender.wins s k a) } k e' := by
  have hkept := h k e he
  generalize hw : a.which = which at hwon
  have hown {b : Sender} {c : HeldClaim} (hb : b ∈ s.senders.set i (Sender.wins s k a))
      (hwhich : b.which = which) := confirms_of_wins hnew hstamps hb (hwhich.trans hw.symm) (c := c)
  cases hwon with
  | chats hk hnone =>
    exact {
      claimed := fun b hb hb30 hopen c hc hkey hclaim r hr hcovers => by
        obtain ⟨rfl, hdb, hat⟩ := hown hb hb30 hopen hc hkey hclaim
        rw [hdb, hat, hk]
        exact hchats hw hk r hr (Covers.congr rfl rfl rfl hcovers)
      noticed := fun n hn => by
        rw [show e.notice30At = some n from hn] at hnone
        cases hnone
      first := fun _ => hkept.first hnone }
  | counted hk hnone hlocked count =>
    exact {
      claimed := fun b hb hb30 hopen c hc hkey hclaim r hr hcovers => by
        obtain ⟨rfl, hdb, hat⟩ := hown hb hb30 hopen hc hkey hclaim
        rw [hdb, hat]
        rw [Covers, if_neg hk] at hcovers
        exact isLocked_of_isAfter (kind_ne hk) hlocked hr hcovers.1
      noticed := fun n hn => by
        rw [show e.notice30At = some n from hn] at hnone
        cases hnone
      first := fun _ => hkept.first hnone }
  | second hsome hnone =>
    have hunsent (m : Timestamp) : a.phase ≠ .sent m := by simp [hphase]
    exact {
      claimed := fun b hb hb30 hopen c hc hkey hclaim r hr hcovers => by
        rcases List.mem_or_eq_of_mem_set hb with hb | rfl
        · exact hkept.claimed b hb hb30 hopen c hc hkey hclaim r hr
            (Covers.congr rfl rfl rfl hcovers)
        · rw [show (Sender.wins s k a).which = a.which from rfl, hw] at hb30
          cases hb30
      noticed := fun n hn => by
        obtain ⟨b, c, m, htold, hrun, hm, hlocked, -, -⟩ := hkept.noticed n hn
        refine ⟨b, c, m, ⟨?_, htold.which, htold.claimed, htold.key, htold.sent⟩, hrun, hm,
          ?_, ?_, ?_⟩
        · exact mem_set_of_ne hi htold.sender fun heq => hunsent m (heq ▸ htold.sent)
        · exact fun r hr hcovers => hlocked r hr (Covers.congr rfl rfl rfl hcovers)
        · intro b' hb' hb7 hopen c' hc' hkey hclaim m' hm'
          obtain ⟨rfl, -, -⟩ := hown hb' hb7 hopen hc' hkey hclaim
          exact absurd hm' (hunsent m')
        · intro n' hn'
          rw [show e.notice7At = some n' from hn'] at hnone
          cases hnone
      first := fun h0 => absurd h0 hsome }

theorem Sound.claim (h : s.Sound) (hclean : s.Clean (.claim i k)) :
    (s.step (.claim i k)).Sound := by
  unfold step
  dsimp only
  cases hi : s.senders[i]? with
  | none => exact h
  | some a =>
    dsimp only
    split
    · rename_i hready
      obtain ⟨hphase, -, hnew⟩ := hready
      obtain ⟨hstamps, hchats⟩ := hclean a hi
      unfold claimBy
      rcases lockNoticeClaim_cases s.db s.now k a.which with hlost | ⟨e, e', count, he, hwon, heq⟩
      · cases hr : lockNoticeClaim s.db s.now k a.which with
        | mk won db =>
          rw [hr] at hlost
          dsimp only at hlost
          rw [hlost]
          exact h
      · rw [heq]
        intro k' x hx
        by_cases hk : k' = k
        · subst hk
          simp only [Table.get_put_self, Option.some.injEq] at hx
          subst hx
          exact Kept.wins h hi hphase hnew he hwon hstamps fun hw hk => hchats hw hk e he
        · simp only [Table.get_put_ne _ _ hk] at hx
          have hlater : Later s.senders (s.senders.set i (Sender.wins s k a)) k' s.now := by
            refine .set hi (fun m => by simp [hphase]) rfl rfl id (fun c hc hkey => ?_)
              fun m hm => ?_
            · rcases List.mem_append.mp hc with hc | hc
              · exact hc
              · rw [List.mem_singleton.mp hc] at hkey
                exact absurd hkey.symm hk
            · rw [show (Sender.wins s k a).phase = a.phase from rfl, hphase] at hm
              cases hm
          exact (h k' x hx).follows (.of (le_refl _) hlater (.refl x) fun n _ r hr hcovers =>
            ⟨r, hr, rfl, hcovers⟩)
    · exact h

def Mailed (s : Retention) : Prop := ∀ a ∈ s.senders, ∀ m, a.phase = .sent m → m ≤ s.now

theorem Mailed.set (h : s.Mailed) (ha : ∀ m, a.phase = .sent m → m ≤ s.now) :
    ∀ b ∈ s.senders.set i a, ∀ m, b.phase = .sent m → m ≤ s.now := by
  intro b hb m hm
  rcases List.mem_or_eq_of_mem_set hb with hb | rfl
  · exact h b hb m hm
  · exact ha m hm

theorem Mailed.step (h : s.Mailed) (e : RetentionEvent) : (s.step e).Mailed := by
  cases e with
  | tick micros => exact fun a ha m hm => le_trans (h a ha m hm) (le_add_of_nonneg_right (by simp))
  | world db keep => exact h
  | observe ws => exact h
  | start which runNow episodes =>
    simp only [Retention.step]
    split
    · intro a ha m hm
      rcases List.mem_append.mp ha with ha | ha
      · exact h a ha m hm
      · rw [List.mem_singleton.mp ha] at hm
        cases hm
    · exact h
  | claim i k =>
    simp only [Retention.step]
    split
    · exact h
    · split
      · rename_i a hi hready
        unfold claimBy
        split
        · exact h
        · refine h.set fun m hm => ?_
          rw [hready.1] at hm
          cases hm
      · exact h
  | mail i =>
    simp only [Retention.step]
    split
    · exact h
    · split
      · refine h.set fun m hm => ?_
        cases hm
        exact le_refl _
      · exact h
  | release i k =>
    simp only [Retention.step]
    split
    · exact h
    · split
      · exact h
      · exact h
      · exact h.set fun m hm => by cases hm
  | record i k =>
    simp only [Retention.step]
    split
    · exact h
    · split <;> exact h
  | delete k ids => exact h

theorem Sound.step (h : s.Sound) (hm : s.Mailed) {e : RetentionEvent} (hclean : s.Clean e) :
    (s.step e).Sound := by
  cases e with
  | tick micros =>
    exact h.later (le_add_of_nonneg_right (by simp)) fun k => .refl _ k _
  | world db keep => exact h.world hclean
  | observe ws => exact h.observe hclean
  | start which runNow episodes => exact h.start which runNow episodes
  | claim i k => exact h.claim hclean
  | mail i => exact h.mail i
  | release i k => exact h.release i k
  | record i k => exact h.record hm i k
  | delete k ids => exact h.delete k ids

theorem step_rows {e : RetentionEvent} (hworld : ∀ db keep, e ≠ .world db keep)
    (hdelete : ∀ k ids, e ≠ .delete k ids) : (s.step e).db.toLockDb = s.db.toLockDb := by
  cases e with
  | world db keep => exact absurd rfl (hworld db keep)
  | delete k ids => exact absurd rfl (hdelete k ids)
  | tick | observe => rfl
  | start =>
    simp only [Retention.step]
    split <;> rfl
  | mail i =>
    simp only [Retention.step]
    split
    · rfl
    · split <;> rfl
  | claim i k =>
    simp only [Retention.step]
    split
    · rfl
    · rename_i a hi
      split
      · unfold claimBy
        rcases lockNoticeClaim_cases s.db s.now k a.which with hlost | ⟨e, e', count, -, -, heq⟩
        · cases hr : lockNoticeClaim s.db s.now k a.which with
          | mk won db =>
            rw [hr] at hlost
            dsimp only at hlost
            rw [hlost]
        · rw [heq]
      · rfl
  | release i k =>
    simp only [Retention.step]
    split
    · rfl
    · split <;> rfl
  | record i k =>
    simp only [Retention.step]
    split
    · rfl
    · split <;> rfl

theorem has_deleteRows {kind' : DeletableKind} (h : db.has id kind' = true)
    (hgone : (db.deleteRows ws ids kind).has id kind' = false) : kind' = kind ∧ id ∈ ids := by
  have hkeep {β : Type} {t : Table Id β} {w : β → Id} (h : (t.get id).isSome = true)
      (hgone : ((t.keep fun id x => !(w x = ws && id ∈ ids)).get id).isSome = false) :
      id ∈ ids := by
    obtain ⟨x, hx⟩ := Option.isSome_iff_exists.mp h
    rw [Table.get_keep, hx] at hgone
    by_contra hnot
    simp [Option.filter, hnot] at hgone
  cases kind <;> cases kind' <;> simp only [LockDb.has, LockDb.deleteRows] at h hgone
  case kb_article.kb_article => exact ⟨rfl, hkeep h hgone⟩
  case contact.contact => exact ⟨rfl, hkeep h hgone⟩
  case conversation.conversation => exact ⟨rfl, hkeep h hgone⟩
  all_goals
    rw [h] at hgone
    cases hgone

theorem enabled_of_isLocked {kind : LockKind} (h : isLocked db now ws kind id = true) :
    db.locksEnabled = true := by
  by_contra hoff
  have hnone : NoCut db now ws kind := noCut_of_not_inForce fun lim hlim => hoff hlim.1
  rw [hnone.isLocked] at h
  cases h

theorem Sound.announced (h : s.Sound) (hclean : s.Clean (.delete k ids))
    (hid : id ∈ lockedDeleteBatch s.db s.now k ids) : s.Announced k id := by
  unfold lockedDeleteBatch at hid
  split at hid
  · cases hid
  · obtain ⟨e, he, ⟨d, hd, hle⟩, -⟩ := due_of_target hid
    obtain ⟨n, n', hn, hn', hdue, hdue'⟩ := notices_of_deadline hd
    obtain ⟨hlocked, r, hr, rfl, hcovers⟩ := row_of_target hid he hn
    obtain ⟨a, c, m, htold, hrun, -, hrows, -, hseven⟩ := (h k e he).noticed n hn
    obtain ⟨b, c', m', htold', hrun', hafter⟩ := hseven n' hn'
    have hmail := hclean a htold.sender c htold.claimed htold.key
    rw [htold.sent, htold.which, hrun] at hmail
    have hmail' := hclean b htold'.sender c' htold'.claimed htold'.key
    rw [htold'.sent, htold'.which, hrun'] at hmail'
    exact ⟨enabled_of_isLocked hlocked, hlocked, ⟨e, d, he, hd, hle⟩, a, c, m, b, c', m', htold,
      hmail (le_trans hdue hle), hrows r hr hcovers, htold', hafter, hmail' (le_trans hdue' hle)⟩

theorem Sound.announces (h : s.Sound) {e : RetentionEvent} (hclean : s.Clean e) :
    s.Announces e := by
  intro hworld
  by_cases hdelete : ∀ k ids, e ≠ .delete k ids
  · have hrows : (s.step e).db.toLockDb = s.db.toLockDb := step_rows hworld hdelete
    refine ⟨fun kind id hhas hgone => ?_, by rw [hrows], by rw [hrows]⟩
    rw [hrows, hhas] at hgone
    cases hgone
  · simp only [not_forall, not_not] at hdelete
    obtain ⟨k, ids, rfl⟩ := hdelete
    have hstep : (s.step (.delete k ids)).db = lockedDelete s.db s.now k ids := rfl
    rw [hstep]
    rcases lockedDelete_cases s.db s.now k ids with heq | ⟨e, -, hrows, -⟩
    · rw [heq]
      refine ⟨fun kind id hhas hgone => ?_, rfl, rfl⟩
      rw [hhas] at hgone
      cases hgone
    · rw [hrows]
      refine ⟨fun kind id hhas hgone => ?_, ?_, ?_⟩
      · obtain ⟨rfl, hid⟩ := has_deleteRows hhas hgone
        exact ⟨k, ids, rfl, rfl, h.announced hclean hid⟩
      · cases k.kind <;> rfl
      · cases k.kind <;> rfl

end Steps

/-- In a clean run nothing is deleted that was not announced. -/
theorem clean_announces (db : LockDb) (keep : Table Id ℕ) (now : Timestamp)
    (es : List RetentionEvent) (e : RetentionEvent)
    (h : Meets step Clean (init db keep now) (es ++ [e])) :
    (run step (init db keep now) es).Announces e := by
  have hinit : (init db keep now).Sound ∧ (init db keep now).Mailed :=
    ⟨fun k e he => by simp [init] at he, fun a ha => by simp [init] at ha⟩
  have hinv := Lib.run_keeps (I := fun s => s.Sound ∧ s.Mailed)
    (fun s e hs hc => ⟨hs.1.step hs.2 hc, hs.2.step e⟩) hinit h.append_left
  exact hinv.1.announces h.append_right.1

def threeContacts (isSpam : Bool) : LockDb where
  workspaces := Table.empty.put 1 { owner := 2, active := true }
  articles := .empty
  contacts :=
    let contact (t : Timestamp) (isSpam : Bool) : Contact :=
      { workspace := 1, createdAt := some (.finite t), isSpam, anonymous := none
        email := some "a@b.c", phone := none, name := none }
    ((Table.empty.put 10 (contact 1 false)).put 11 (contact 2 false)).put 12 (contact 3 isSpam)
  members := .empty
  conversations := .empty
  limits := Table.empty.put (1, "max_contacts") 1
  locksEnabled := true
  selfHostUnlimited := false

def contactEpisode : EpisodeKey := { workspace := 1, kind := .contact, key := 1000000 }

def bothNotices : List RetentionEvent :=
  [.observe 1, .start .«30» 1000000 [contactEpisode], .claim 0 contactEpisode, .mail 0,
    .record 0 contactEpisode, .tick (23 * 86400000000),
    .start .«7» (23 * 86400000000 + 1000000) [contactEpisode], .claim 1 contactEpisode, .mail 1,
    .record 1 contactEpisode]

/-- The contact that was locked is announced and, 30 days on, deleted. -/
theorem bothNotices_announces :
    (run step (init (threeContacts true) (Table.empty.put 1 30) 1000000)
        (bothNotices ++ [.tick (7 * 86400000000)])).Announces (.delete contactEpisode [11]) ∧
      (run step (init (threeContacts true) (Table.empty.put 1 30) 1000000)
        (bothNotices ++ [.tick (7 * 86400000000), .delete contactEpisode [11]])).db.has 11
          .contact = false :=
  ⟨clean_announces _ _ _ _ _ (by decide +kernel), by decide +kernel⟩

/-- A contact no longer taken for spam after the notices is deleted with the others. -/
theorem unspammed_announces :
    ¬ (run step (init (threeContacts true) (Table.empty.put 1 30) 1000000)
        (bothNotices ++ [.world (threeContacts false) (Table.empty.put 1 30),
          .tick (7 * 86400000000)])).Announces (.delete contactEpisode [12]) := by
  generalize hs : run step (init (threeContacts true) (Table.empty.put 1 30) 1000000)
    (bothNotices ++ [.world (threeContacts false) (Table.empty.put 1 30),
      .tick (7 * 86400000000)]) = s
  intro h
  have hhas : s.db.has 12 .contact = true := by
    rw [← hs]
    decide +kernel
  have hgone : (s.step (.delete contactEpisode [12])).db.has 12 .contact = false := by
    rw [← hs]
    decide +kernel
  have hnever : ∀ a ∈ s.senders, ∀ c ∈ a.claimed, isLocked c.db c.wonAt 1 .contact 12 = false := by
    rw [← hs]
    decide +kernel
  obtain ⟨k, ids, heq, -, hannounced⟩ := (h fun _ _ => by simp).1 .contact 12 hhas hgone
  cases heq
  obtain ⟨a, c, m, a', c', m', htold, -, hlocked, -⟩ := hannounced.notices
  have hnot := hnever a htold.sender c htold.claimed
  rw [show isLocked c.db c.wonAt 1 .contact 12 = true from hlocked] at hnot
  cases hnot

end Retention

end Kindred.Billing.Locks
