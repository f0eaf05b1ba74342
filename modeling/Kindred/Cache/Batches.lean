import Mathlib.Data.List.ReduceOption
import Kindred.Cache.RoomStore

/-! A batch of conversations as either store writes it: each row judged against the copy it
finds at its turn, or every row against the copy stored before the batch. -/

namespace Kindred.Cache
open Lib (Table Mirrors upsert)

variable {α β γ δ τ : Type} {m : CacheMapping α β γ δ} {scope : CacheScope} {now : ℤ}
  {stored : Option (ConversationEntity β)} {rows : List (Conversation α)}
  {cur : Option (ConversationEntity β)} {t : Table ConvKey (ConversationEntity β)}

def older : Option ℤ → Option ℤ → Bool
  | some got, some have_ => got < have_
  | _, _ => false

@[simp] theorem older_none_left (d : Option ℤ) : older none d = false := rfl

@[simp] theorem older_none_right (d : Option ℤ) : older d none = false := by cases d <;> rfl

def Conversation.revision (c : Conversation α) : Option ℤ := c.updatedAt.bind toEpochMilli

def Storable (m : CacheMapping α β γ δ) (scope : CacheScope) (now : ℤ) (c : Conversation α) :
    Prop :=
  (m.toEntity scope c now none).isSome = true

instance (c : Conversation α) : Decidable (Storable m scope now c) := by
  unfold Storable; infer_instance

def ConvKey.of (scope : CacheScope) (id : String) : ConvKey :=
  ⟨scope.accountId, scope.workspaceId, id⟩

theorem toEntity_opened (c : Conversation α) (opened : Option ℤ) : m.toEntity scope c now opened =
      (m.toEntity scope c now none).map fun e => { e with openedAt := opened } := by
  unfold CacheMapping.toEntity
  cases m.columns c with
  | none => rfl
  | some rest => cases c.updatedAt.mapM toEpochMilli <;> rfl

variable {c : Conversation α} {since : List (Conversation α)} {l : List (ConversationEntity β)}

theorem toEntity_some {opened : Option ℤ} {e : ConversationEntity β}
    (h : m.toEntity scope c now opened = some e) :
    e.key = ConvKey.of scope c.id ∧ e.updatedAt = c.revision ∧ e.openedAt = opened := by
  unfold CacheMapping.toEntity at h
  cases hm : m.columns c with
  | none => simp [hm] at h
  | some rest =>
    cases hu : c.updatedAt with
    | none =>
      rw [hm, hu] at h
      obtain rfl : _ = e := Option.some.inj h
      exact ⟨rfl, by simp [Conversation.revision, hu], rfl⟩
    | some t =>
      cases ht : toEpochMilli t with
      | none => simp [hm, hu, ht, Option.mapM_some] at h
      | some ms =>
        simp only [hm, hu, Option.mapM_some] at h
        simp only [ht, Option.bind_eq_bind, Option.map_eq_map, Option.map_some, Option.bind_some,
          Option.pure_def, Option.some.injEq] at h
        subst h
        exact ⟨rfl, by simp [Conversation.revision, hu, ht], rfl⟩

theorem Storable.exists (c : Conversation α) (h : Storable m scope now c) (opened : Option ℤ) :
    ∃ e, m.toEntity scope c now opened = some e := by
  obtain ⟨e, he⟩ := Option.isSome_iff_exists.mp h
  exact ⟨_, by rw [toEntity_opened, he]; rfl⟩

theorem Storable.isStale (h : Storable m scope now c) (stored : Option (ConversationEntity β)) :
    isStale c stored = some (older c.revision (stored.bind (·.updatedAt))) := by
  unfold Cache.isStale
  cases hs : stored.bind (·.updatedAt) with
  | none => simp
  | some have_ =>
    cases hu : c.updatedAt with
    | none => simp [Conversation.revision, hu]
    | some t =>
      cases ht : toEpochMilli t with
      | some ms => simp [Conversation.revision, hu, ht, older]
      | none =>
        unfold Storable CacheMapping.toEntity at h
        cases hm : m.columns c <;> simp [hm, hu, ht, Option.mapM_some] at h

/-- The copy of a conversation after a row at its turn. -/
def turn (m : CacheMapping α β γ δ) (scope : CacheScope) (now : ℤ)
    (cur : Option (ConversationEntity β)) (row : Conversation α) :
    Option (ConversationEntity β) :=
  if older row.revision (cur.bind (·.updatedAt)) then cur
  else m.toEntity scope row now (cur.bind (·.openedAt))

def atOnce (m : CacheMapping α β γ δ) (scope : CacheScope) (now : ℤ)
    (stored cur : Option (ConversationEntity β)) (row : Conversation α) :
    Option (ConversationEntity β) :=
  if older row.revision (stored.bind (·.updatedAt)) then cur
  else m.toEntity scope row now (stored.bind (·.openedAt))

/-- The rows of one conversation, in the order of the batch: the last that is not older than the
stored copy is older than none since the last one without a date, and if it has no date itself,
none follows it. -/
def Settled (stored : Option ℤ) : List (Conversation α) → List (Conversation α) → Prop
  | _, [] => True
  | since, row :: rows =>
    (older row.revision stored = false → (∀ r ∈ rows, older r.revision stored = true) →
      match row.revision with
      | none => rows = []
      | some _ => ∀ r ∈ since, older row.revision r.revision = false) ∧
    Settled stored (if row.revision = none then [] else row :: since) rows

instance decidableSettled (stored : Option ℤ) (since rows : List (Conversation α)) :
    Decidable (Settled stored since rows) := by
  induction rows generalizing since with
  | nil => exact .isTrue trivial
  | cons row rows ih =>
    have hrows : Decidable (rows = []) := decidable_of_iff (rows.isEmpty = true) List.isEmpty_iff
    have := ih (if row.revision = none then [] else row :: since)
    unfold Settled
    cases row.revision <;> infer_instance

theorem foldl_atOnce_stale (h : ∀ r ∈ rows, older r.revision (stored.bind (·.updatedAt)) = true)
    (cur : Option (ConversationEntity β)) : rows.foldl (atOnce m scope now stored) cur = cur := by
  induction rows with
  | nil => rfl
  | cons row rows ih =>
    rw [List.foldl_cons, atOnce, if_pos (h row List.mem_cons_self)]
    exact ih fun r hr => h r (List.mem_cons_of_mem _ hr)

theorem foldl_turn_stale (h : ∀ r ∈ rows, older r.revision (cur.bind (·.updatedAt)) = true) :
    rows.foldl (turn m scope now) cur = cur := by
  induction rows with
  | nil => rfl
  | cons row rows ih =>
    rw [List.foldl_cons, turn, if_pos (h row List.mem_cons_self)]
    exact ih fun r hr => h r (List.mem_cons_of_mem _ hr)

theorem older_trans {a b c : Option ℤ} (hab : older a b = true) (hbc : older c b = false)
    (hc : c ≠ none) : older a c = true := by
  cases a with
  | none => simp at hab
  | some a =>
    cases b with
    | none => simp at hab
    | some b =>
      cases c with
      | none => exact (hc rfl).elim
      | some c =>
        simp only [older, decide_eq_true_eq, decide_eq_false_iff_not] at *
        omega

def Dated (stored : Option ℤ) (since : List (Conversation α))
    (cur : Option (ConversationEntity β)) : Prop :=
  cur.bind (·.updatedAt) = none ∨ (∃ r ∈ since, cur.bind (·.updatedAt) = r.revision) ∨
    cur.bind (·.updatedAt) = stored

theorem Dated.turn {stored : Option ℤ} {row : Conversation α} (h : Dated stored since cur)
    (hrow : Storable m scope now row) :
    Dated stored (if row.revision = none then [] else row :: since) (turn m scope now cur row) ∧
      (turn m scope now cur row).bind (·.openedAt) = cur.bind (·.openedAt) := by
  unfold Cache.turn
  by_cases hold : older row.revision (cur.bind (·.updatedAt)) = true
  · have hdate : row.revision ≠ none := by
      intro hn
      rw [hn, older_none_left] at hold
      exact Bool.false_ne_true hold
    rw [if_pos hold, if_neg hdate]
    refine ⟨?_, rfl⟩
    rcases h with h | ⟨r, hr, h⟩ | h
    · exact .inl h
    · exact .inr (.inl ⟨r, List.mem_cons_of_mem _ hr, h⟩)
    · exact .inr (.inr h)
  · obtain ⟨e, he⟩ := hrow.exists row (cur.bind (·.openedAt))
    obtain ⟨-, hu, ho⟩ := toEntity_some he
    rw [if_neg hold, he]
    refine ⟨?_, ho⟩
    split
    · rename_i hn
      exact .inl (hu.trans hn)
    · exact .inr (.inl ⟨row, List.mem_cons_self, hu⟩)

/-- Where the rows settle, the two ways end with one copy. -/
theorem foldl_turn (hrows : ∀ r ∈ rows, Storable m scope now r)
    (hs : Settled (stored.bind (·.updatedAt)) since rows)
    (hdate : Dated (stored.bind (·.updatedAt)) since cur)
    (hopen : cur.bind (·.openedAt) = stored.bind (·.openedAt))
    (hfresh : ∃ r ∈ rows, older r.revision (stored.bind (·.updatedAt)) = false)
    (c : Option (ConversationEntity β)) :
    rows.foldl (turn m scope now) cur = rows.foldl (atOnce m scope now stored) c := by
  induction rows generalizing since cur c with
  | nil =>
    obtain ⟨r, hr, -⟩ := hfresh
    exact (List.not_mem_nil hr).elim
  | cons row rows ih =>
    obtain ⟨hlast, htail⟩ := hs
    have hrow := hrows row List.mem_cons_self
    have hrest : ∀ r ∈ rows, Storable m scope now r :=
      fun r hr => hrows r (List.mem_cons_of_mem _ hr)
    rw [List.foldl_cons, List.foldl_cons]
    by_cases hmore : ∃ r ∈ rows, older r.revision (stored.bind (·.updatedAt)) = false
    · obtain ⟨hdate', hopen'⟩ := hdate.turn hrow
      exact ih hrest htail hdate' (hopen'.trans hopen) hmore _
    · -- The row is the last to be stored at once: it is stored at its turn and stays.
      have hstale : ∀ r ∈ rows, older r.revision (stored.bind (·.updatedAt)) = true := by
        intro r hr
        by_contra hn
        exact hmore ⟨r, hr, Bool.not_eq_true _ ▸ hn⟩
      have hnew : older row.revision (stored.bind (·.updatedAt)) = false := by
        obtain ⟨r, hr, hf⟩ := hfresh
        rcases List.mem_cons.mp hr with rfl | hr
        · exact hf
        · rw [hstale r hr] at hf
          cases hf
      have hlast := hlast hnew hstale
      have hturn : older row.revision (cur.bind (·.updatedAt)) = false := by
        rcases hdate with hd | ⟨r, hr, hd⟩ | hd
        · rw [hd, older_none_right]
        · rw [hd]
          cases hv : row.revision with
          | none => rfl
          | some d =>
            rw [hv] at hlast
            exact hlast r hr
        · rwa [hd]
      obtain ⟨e, he⟩ := hrow.exists row (stored.bind (·.openedAt))
      obtain ⟨-, hu, -⟩ := toEntity_some he
      have hcur : turn m scope now cur row = some e := by
        rw [turn, hturn, hopen, if_neg Bool.false_ne_true, he]
      have hc : atOnce m scope now stored c row = some e := by
        rw [atOnce, hnew, if_neg Bool.false_ne_true, he]
      rw [hcur, hc, foldl_atOnce_stale hstale]
      refine foldl_turn_stale fun r hr => ?_
      have hv : row.revision ≠ none := by
        intro hn
        rw [hn] at hlast
        rw [hlast] at hr
        exact List.not_mem_nil hr
      exact (congrArg (older r.revision) hu).trans (older_trans (hstale r hr) hnew hv)

theorem foldl_turn_stored (hrows : ∀ r ∈ rows, Storable m scope now r)
    (hs : Settled (stored.bind (·.updatedAt)) [] rows) :
    rows.foldl (turn m scope now) stored = rows.foldl (atOnce m scope now stored) stored := by
  by_cases hfresh : ∃ r ∈ rows, older r.revision (stored.bind (·.updatedAt)) = false
  · exact foldl_turn hrows hs (.inr (.inr rfl)) rfl hfresh stored
  · have hstale : ∀ r ∈ rows, older r.revision (stored.bind (·.updatedAt)) = true := by
      intro r hr
      by_contra hn
      exact hfresh ⟨r, hr, Bool.not_eq_true _ ▸ hn⟩
    rw [foldl_atOnce_stale hstale, foldl_turn_stale hstale]

def rowsOf (scope : CacheScope) (k : ConvKey) (rows : List (Conversation α)) :
    List (Conversation α) :=
  rows.filter fun r => ConvKey.of scope r.id = k

theorem rowsOf_cons (k : ConvKey) (row : Conversation α) (rows : List (Conversation α)) :
    rowsOf scope k (row :: rows) =
      if ConvKey.of scope row.id = k then row :: rowsOf scope k rows else rowsOf scope k rows := by
  simp [rowsOf, List.filter_cons]

/-- The map after a batch, one conversation at a time. -/
theorem writeRows_spec (hrows : ∀ r ∈ rows, Storable m scope now r)
    (ht : t.Keyed ConversationEntity.key) :
    ∃ t', writeRows m scope now rows t = (t', true) ∧ t'.Keyed ConversationEntity.key ∧
      ∀ k, t'.get k = (rowsOf scope k rows).foldl (turn m scope now) (t.get k) := by
  induction rows generalizing t with
  | nil => exact ⟨t, rfl, ht, fun k => rfl⟩
  | cons row rows ih =>
    have hrow := hrows row List.mem_cons_self
    have hrest : ∀ r ∈ rows, Storable m scope now r :=
      fun r hr => hrows r (List.mem_cons_of_mem _ hr)
    have hturn : ∃ t1, t1.Keyed ConversationEntity.key ∧
        writeRows m scope now (row :: rows) t = writeRows m scope now rows t1 ∧
        ∀ k, t1.get k = if ConvKey.of scope row.id = k then turn m scope now (t.get k) row
          else t.get k := by
      have hstale := hrow.isStale (t.get (ConvKey.of scope row.id))
      cases hold : older row.revision ((t.get (ConvKey.of scope row.id)).bind (·.updatedAt)) with
      | true =>
        rw [hold] at hstale
        refine ⟨t, ht, ?_, fun k => ?_⟩
        · simp only [writeRows]
          rw [show (⟨scope.accountId, scope.workspaceId, row.id⟩ : ConvKey) =
            ConvKey.of scope row.id from rfl, hstale]
        · split
          · rename_i hk
            rw [← hk, turn, hold, if_pos rfl]
          · rfl
      | false =>
        rw [hold] at hstale
        obtain ⟨e, he⟩ := hrow.exists row
          ((t.get (ConvKey.of scope row.id)).bind (·.openedAt))
        obtain ⟨hkey, -, -⟩ := toEntity_some he
        refine ⟨t.put e.key e, Table.keyed_put ht e, ?_, fun k => ?_⟩
        · simp only [writeRows]
          rw [show (⟨scope.accountId, scope.workspaceId, row.id⟩ : ConvKey) =
            ConvKey.of scope row.id from rfl, hstale]
          simp only [he, hkey]
        · rw [Table.get_put, hkey]
          by_cases hk : ConvKey.of scope row.id = k
          · rw [if_pos hk.symm, if_pos hk, ← hk, turn, hold, if_neg Bool.false_ne_true, he]
          · rw [if_neg fun h => hk h.symm, if_neg hk]
    obtain ⟨t1, ht1, hwrite, hget⟩ := hturn
    obtain ⟨t', h', hk', hget'⟩ := ih hrest ht1
    refine ⟨t', hwrite.trans h', hk', fun k => ?_⟩
    rw [hget', hget, rowsOf_cons]
    split
    · rw [List.foldl_cons]
    · rfl

def freshEntity (m : CacheMapping α β γ δ) (scope : CacheScope) (now : ℤ)
    (stored : String → Option (ConversationEntity β)) (row : Conversation α) :
    Option (ConversationEntity β) :=
  if older row.revision ((stored row.id).bind (·.updatedAt)) then none
  else m.toEntity scope row now ((stored row.id).bind (·.openedAt))

theorem mapM_freshRow (hrows : ∀ r ∈ rows, Storable m scope now r)
    (stored : String → Option (ConversationEntity β)) :
    rows.mapM (RoomCacheStore.freshRow m scope now stored) =
      some (rows.map (freshEntity m scope now stored)) := by
  induction rows with
  | nil => rfl
  | cons row rows ih =>
    have hrow := hrows row List.mem_cons_self
    have ih := ih fun r hr => hrows r (List.mem_cons_of_mem _ hr)
    have hfresh : RoomCacheStore.freshRow m scope now stored row =
        some (freshEntity m scope now stored row) := by
      have hstale := hrow.isStale (stored row.id)
      simp only [RoomCacheStore.freshRow, freshEntity]
      rw [hstale]
      cases older row.revision ((stored row.id).bind (·.updatedAt)) with
      | true => rfl
      | false =>
        obtain ⟨e, he⟩ := hrow.exists row ((stored row.id).bind (·.openedAt))
        simp [he]
    rw [List.mapM_cons, hfresh, ih]
    rfl

theorem get_foldl_fresh {stored : String → Option (ConversationEntity β)}
    {was : ConvKey → Option (ConversationEntity β)} (hrows : ∀ r ∈ rows, Storable m scope now r)
    (hwas : ∀ r ∈ rows, stored r.id = was (ConvKey.of scope r.id)) (k : ConvKey) :
    ((rows.map (freshEntity m scope now stored)).reduceOption.foldl (fun t e => t.put e.key e)
      t).get k = (rowsOf scope k rows).foldl (atOnce m scope now (was k)) (t.get k) := by
  induction rows generalizing t with
  | nil => rfl
  | cons row rows ih =>
    have hrow := hrows row List.mem_cons_self
    have ih : ∀ t : Table ConvKey (ConversationEntity β), _ := fun t =>
      ih (t := t) (fun r hr => hrows r (List.mem_cons_of_mem _ hr))
        fun r hr => hwas r (List.mem_cons_of_mem _ hr)
    rw [List.map_cons, rowsOf_cons]
    have hw := hwas row List.mem_cons_self
    cases hold : older row.revision ((stored row.id).bind (·.updatedAt)) with
    | true =>
      rw [freshEntity, hold, if_pos rfl, List.reduceOption_cons_of_none, ih]
      split
      · rename_i hk
        rw [List.foldl_cons, atOnce, ← hk, ← hw, hold, if_pos rfl]
      · rfl
    | false =>
      obtain ⟨e, he⟩ := hrow.exists row ((stored row.id).bind (·.openedAt))
      obtain ⟨hkey, -, -⟩ := toEntity_some he
      rw [freshEntity, hold, if_neg Bool.false_ne_true, he, List.reduceOption_cons_of_some,
        List.foldl_cons, ih, Table.get_put, hkey]
      by_cases hk : ConvKey.of scope row.id = k
      · rw [if_pos hk.symm, if_pos hk, List.foldl_cons, ← hk, ← hw]
        congr 1
        rw [atOnce, hold, if_neg Bool.false_ne_true, he]
      · rw [if_neg fun h => hk h.symm, if_neg hk]

theorem mirrors_foldl (h : Mirrors ConversationEntity.key l t) (es : List (ConversationEntity β)) :
    Mirrors ConversationEntity.key (es.foldl (fun l e => upsert ConversationEntity.key e l) l)
      (es.foldl (fun t e => t.put e.key e) t) := by
  induction es generalizing l t with
  | nil => exact h
  | cons e es ih => exact ih (h.put e)

def BatchSettles (m : CacheMapping α β γ δ) (scope : CacheScope) (now : ℤ)
    (rows : List (Conversation α)) (t : Table ConvKey (ConversationEntity β)) : Prop :=
  ∀ row ∈ rows, Storable m scope now row ∧
    Settled ((t.get (ConvKey.of scope row.id)).bind (·.updatedAt)) []
      (rows.filter fun r => r.id = row.id)

instance (rows : List (Conversation α)) (t : Table ConvKey (ConversationEntity β)) :
    Decidable (BatchSettles m scope now rows t) := by
  unfold BatchSettles; infer_instance

theorem writeRows_agrees (stored : String → Option (ConversationEntity β))
    (h : Mirrors ConversationEntity.key l t) (hs : BatchSettles m scope now rows t)
    (hstored : ∀ r ∈ rows, stored r.id = t.get (ConvKey.of scope r.id)) :
    ∃ t' fresh, writeRows m scope now rows t = (t', true) ∧
      rows.mapM (RoomCacheStore.freshRow m scope now stored) = some fresh ∧
      Mirrors ConversationEntity.key
        (fresh.reduceOption.foldl (fun l e => upsert ConversationEntity.key e l) l) t' := by
  have hrows : ∀ r ∈ rows, Storable m scope now r := fun r hr => (hs r hr).1
  obtain ⟨t', hwrite, hkeyed, hget⟩ := writeRows_spec hrows h.keyed
  refine ⟨t', _, hwrite, mapM_freshRow hrows stored, hkeyed, ?_⟩
  have hm := mirrors_foldl h (rows.map (freshEntity m scope now stored)).reduceOption
  refine hm.perm.trans (Table.perm_of_get hm.keyed hkeyed fun k => ?_)
  rw [hget, get_foldl_fresh hrows hstored]
  by_cases hk : ∃ r ∈ rows, ConvKey.of scope r.id = k
  · obtain ⟨row, hrow, rfl⟩ := hk
    have hids : rowsOf scope (ConvKey.of scope row.id) rows = rows.filter fun r => r.id = row.id :=
      List.filter_congr fun r _ => by simp [ConvKey.of]
    rw [hids]
    exact (foldl_turn_stored (fun r hr => hrows r (List.mem_of_mem_filter hr)) (hs row hrow).2).symm
  · have hnone : rowsOf scope k rows = [] :=
      List.filter_eq_nil_iff.mpr fun r hr hrk => hk ⟨r, hr, decide_eq_true_eq.mp hrk⟩
    rw [hnone]
    rfl

end Kindred.Cache
