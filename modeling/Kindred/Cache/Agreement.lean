import Kindred.Cache.Batches
import Kindred.Cache.Threads
import Kindred.Lib.Twins

/-! The two stores side by side: what each operation needs to be answered alike, and every run
of such operations. -/

namespace Kindred.Cache
open Lib (Table Mirrors fresh orderBy chunked upsert keyIn keyOut)

variable {α β γ δ τ : Type}

structure Same (s : MemoryCacheStore β γ) (db : CacheDatabase β γ) : Prop
    extends SamePages s.toMemoryPages db.toRoomPages where
  conversations : Mirrors ConversationEntity.key db.conversations s.conversations
  entries : db.inbox_entries.Perm s.entries

theorem same_empty : Same ({} : MemoryCacheStore β γ) ({} : CacheDatabase β γ) :=
  ⟨⟨.empty, .empty⟩, .empty, .nil⟩

variable {scope : CacheScope} {listKey : String}

section
variable {s : MemoryCacheStore β γ} {db : CacheDatabase β γ}

theorem dao_key (a w id : String) (c : ConversationEntity β) :
    (decide (c.accountId = a) && decide (c.workspaceId = w) && decide (c.conversationId = id)) =
      decide (c.key = ⟨a, w, id⟩) := by
  simp [ConversationEntity.key, Bool.and_assoc]

theorem Same.get (h : Same s db) (a w id : String) :
    ConversationDao.get a w id db.conversations = s.conversations.get ⟨a, w, id⟩ := by
  unfold ConversationDao.get
  simp only [dao_key]
  exact h.conversations.find_key _

theorem Same.updateRow (h : Same s db) (a w id : String)
    {f : ConversationEntity β → ConversationEntity β} (hf : ∀ c, (f c).key = c.key) :
    Mirrors ConversationEntity.key (ConversationDao.updateRow a w id f db.conversations)
      (s.conversations.update ⟨a, w, id⟩ f) := by
  have hm := h.conversations.update ⟨a, w, id⟩ hf
  suffices hl : ConversationDao.updateRow a w id f db.conversations =
      db.conversations.map fun c => if c.key = ⟨a, w, id⟩ then f c else c by rwa [hl]
  refine List.map_congr_left fun c _ => ?_
  simp only [ConversationEntity.key, ConvKey.mk.injEq]

theorem Same.listed (h : Same s db) (scope : CacheScope) (listKey : String) :
    ((db.inbox_entries.filter fun e => decide (e.accountId = scope.accountId) &&
        decide (e.workspaceId = scope.workspaceId) && decide (e.listKey = listKey)).flatMap fun e =>
      db.conversations.filter fun c => decide (e.accountId = c.accountId) &&
        decide (e.workspaceId = c.workspaceId) &&
        decide (e.conversationId = c.conversationId)).Perm (s.listed scope listKey) := by
  have hjoin : ∀ e : InboxEntryEntity, (db.conversations.filter fun c =>
      decide (e.accountId = c.accountId) && decide (e.workspaceId = c.workspaceId) &&
        decide (e.conversationId = c.conversationId)) =
      (s.conversations.get ⟨e.accountId, e.workspaceId, e.conversationId⟩).toList := by
    intro e
    rw [← h.conversations.filter_key]
    refine List.filter_congr fun c _ => ?_
    simp [ConversationEntity.key, Bool.and_assoc, eq_comm]
  simp only [hjoin]
  rw [← List.filterMap_eq_flatMap_toList]
  exact (h.entries.filter _).filterMap _

theorem listed_key {c : ConversationEntity β} (hk : s.conversations.Keyed ConversationEntity.key)
    (hc : c ∈ s.listed scope listKey) :
    s.conversations.get ⟨scope.accountId, scope.workspaceId, c.conversationId⟩ = some c := by
  obtain ⟨e, he, hget⟩ := List.mem_filterMap.mp hc
  obtain ⟨-, hp⟩ := List.mem_filter.mp he
  simp only [Bool.and_eq_true, decide_eq_true_eq] at hp
  have hkey : (⟨e.accountId, e.workspaceId, e.conversationId⟩ : ConvKey) = c.key :=
    hk _ (Table.get_eq_some_iff_mem.mp hget)
  have hid : e.conversationId = c.conversationId := congrArg ConvKey.id hkey
  rwa [hp.1.1, hp.1.2, hid] at hget

theorem Same.observeList (h : Same s db)
    (hfit : ∀ c ∈ s.listed scope listKey, ∀ d ∈ s.listed scope listKey,
      listOrder c ≤ listOrder d ↔ listColumns c ≤ listColumns d) :
    orderBy listOrder (s.listed scope listKey) =
      ConversationDao.observeList scope.accountId scope.workspaceId listKey db := by
  refine Lib.orderBy_congr (h.listed scope listKey).symm ?_ hfit
  intro c hc d hd hcd
  have hid : c.conversationId = d.conversationId :=
    Lib.utf16_injective (congrArg Prod.snd (toLex_inj.mp hcd))
  have hgc := listed_key h.conversations.keyed hc
  rw [hid, listed_key h.conversations.keyed hd] at hgc
  exact (Option.some.inj hgc).symm

theorem Same.observeThread (h : Same s db) {id : String}
    (hfit : ∀ m ∈ s.messages.values.filter (inThread scope id),
      ∀ n ∈ s.messages.values.filter (inThread scope id),
        threadOrder m ≤ threadOrder n ↔ threadColumns m ≤ threadColumns n) :
    orderBy threadOrder (s.messages.values.filter (inThread scope id)) =
      orderBy threadColumns (MessageDao.ofThreadRows scope.accountId scope.workspaceId id
        db.messages) := by
  refine Lib.orderBy_congr (h.messages.perm.filter _).symm ?_ hfit
  intro m hm n hn hmn
  obtain ⟨hm, hpm⟩ := List.mem_filter.mp hm
  obtain ⟨hn, hpn⟩ := List.mem_filter.mp hn
  simp only [inThread, Bool.and_eq_true, decide_eq_true_eq] at hpm hpn
  have hlocal : m.localId = n.localId :=
    Lib.utf16_injective (congrArg Prod.snd (toLex_inj.mp (congrArg Prod.snd (toLex_inj.mp hmn))))
  have hkey : m.key = n.key := by
    rw [MessageEntity.key, MessageEntity.key, hpm.1.1, hpn.1.1, hlocal]
  exact List.inj_on_of_nodup_map (Table.nodup_values h.messages.keyed) hm hn hkey

theorem Same.message (h : Same s db) (a localId : String) :
    (db.messages.find? fun m => decide (m.accountId = a) && decide (m.localId = localId)) =
      s.messages.get ⟨a, localId⟩ := by
  rw [← h.messages.find_key]
  congr 1
  funext m
  simp [MessageEntity.key]

theorem Same.joined (h : Same s db) (m : MessageEntity γ) :
    MaintenanceDao.joined db m = [s.conversations.get m.threadKey] := by
  have hf : (db.conversations.filter fun c => decide (c.accountId = m.accountId) &&
      decide (c.workspaceId = m.workspaceId) && decide (c.conversationId = m.conversationId)) =
      (s.conversations.get m.threadKey).toList := by
    simp only [dao_key]
    exact h.conversations.filter_key _
  unfold MaintenanceDao.joined
  rw [hf]
  cases s.conversations.get m.threadKey <;> rfl

def sentThreads (rows : List (MessageEntity γ)) : List ConvKey :=
  fresh [] ((rows.filter sent).map (·.threadKey))

theorem sentThreads_perm {rows rows' : List (MessageEntity γ)} (h : rows.Perm rows') :
    (sentThreads rows).Perm (sentThreads rows') := by
  refine (List.perm_ext_iff_of_nodup (Lib.nodup_fresh _ _) (Lib.nodup_fresh _ _)).mpr fun k => ?_
  rw [Lib.mem_fresh, Lib.mem_fresh, ((h.filter sent).map (·.threadKey)).mem_iff]

def weigh (s : MemoryCacheStore β γ) (key : ConvKey) : ThreadWeight where
  accountId := key.a
  workspaceId := key.w
  conversationId := key.id
  messageCount := (s.messages.values.filter sent).countP fun m => m.threadKey = key
  openedAt := (s.conversations.get key).bind (·.openedAt)

theorem memoryWeights_eq (hashed : Scan (MessageEntity γ)) : s.threadWeights hashed =
      orderBy openedOrder ((sentThreads (hashed.run s.messages.values)).map (weigh s)) := by
  unfold MemoryCacheStore.threadWeights
  simp only [List.map_map]
  congr 1
  refine List.map_congr_left fun key _ => ?_
  simp only [Function.comp_apply, weigh, ← List.countP_eq_length_filter]
  rw [((hashed.perm _).filter sent).countP_eq]

theorem Same.weights (h : Same s db) (grouped : Scan ThreadWeight) :
    MaintenanceDao.threadWeights grouped db =
      orderBy openedOrder (grouped.run ((sentThreads db.messages).map (weigh s))) := by
  unfold MaintenanceDao.threadWeights
  have hrows : ((db.messages.filter fun m => decide (m.sendState = 0)).flatMap fun m =>
      (MaintenanceDao.joined db m).map fun c => (m.threadKey, c)) =
      (db.messages.filter sent).map fun m => (m.threadKey, s.conversations.get m.threadKey) := by
    simp only [h.joined, List.map_cons, List.map_nil]
    exact List.map_eq_flatMap.symm
  simp only [hrows, List.map_map]
  congr 2
  refine List.map_congr_left fun key hkey => ?_
  have hgroup : (((db.messages.filter sent).map fun m =>
        (m.threadKey, s.conversations.get m.threadKey)).filter fun r => decide (r.1 = key)) =
      ((db.messages.filter sent).filter fun m => m.threadKey = key).map fun _ =>
        (key, s.conversations.get key) := by
    rw [List.filter_map]
    refine List.map_congr_left fun m hm => ?_
    have hk : m.threadKey = key := by simpa using (List.mem_filter.mp hm).2
    rw [hk]
  rw [hgroup, weigh, List.length_map, ← List.countP_eq_length_filter,
    ((h.messages.perm.filter sent).countP_eq _)]
  obtain ⟨m, hm, hk⟩ := List.mem_map.mp (Lib.mem_fresh.mp hkey).1
  have hne : (db.messages.filter sent).filter (fun m => decide (m.threadKey = key)) ≠ [] :=
    List.ne_nil_of_mem (List.mem_filter.mpr ⟨hm, by simpa using hk⟩)
  obtain ⟨r, rs, hcons⟩ := List.exists_cons_of_ne_nil hne
  rw [hcons]
  rfl

theorem Same.threadWeights (h : Same s db) (hashed : Scan (MessageEntity γ))
    (grouped : Scan ThreadWeight) (hfit : ((sentThreads s.messages.values).map fun key =>
      (s.conversations.get key).bind (·.openedAt)).Nodup) :
    s.threadWeights hashed = MaintenanceDao.threadWeights grouped db := by
  rw [memoryWeights_eq, h.weights]
  have hm := (sentThreads_perm (hashed.perm s.messages.values)).map (weigh s)
  have hr := (sentThreads_perm h.messages.perm).map (weigh s)
  refine Lib.orderBy_of_nodup _ (hm.trans (hr.symm.trans (grouped.perm _).symm)) ?_
  rw [(hm.map openedOrder).nodup_iff, List.map_map]
  exact hfit

theorem Same.outbox (h : Same s db) (hashed stored : Scan (MessageEntity γ))
    (hfit : ((s.messages.values.filter fun m => decide (m.accountId = scope.accountId) &&
      decide (m.workspaceId = scope.workspaceId) && !sent m).map (·.sortAt)).Nodup) :
    orderBy (·.sortAt) ((hashed.run s.messages.values).filter fun m =>
        decide (m.accountId = scope.accountId) && decide (m.workspaceId = scope.workspaceId) &&
          !sent m) = orderBy (·.sortAt) (stored.run (db.messages.filter fun m =>
        decide (m.accountId = scope.accountId) && decide (m.workspaceId = scope.workspaceId) &&
          decide (m.sendState ≠ 0))) := by
  have hsent : ∀ m : MessageEntity γ, (!sent m) = decide (m.sendState ≠ 0) := by
    intro m
    by_cases hm : m.sendState = 0 <;> simp [sent, SendState.code, hm]
  simp only [hsent] at hfit ⊢
  have hm := (hashed.perm s.messages.values).filter fun m =>
    decide (m.accountId = scope.accountId) && decide (m.workspaceId = scope.workspaceId) &&
      decide (m.sendState ≠ 0)
  refine Lib.orderBy_of_nodup _ (hm.trans ((h.messages.perm.filter _).symm.trans
    (stored.perm _).symm)) ?_
  rwa [(hm.map _).nodup_iff]

theorem Same.orphan (h : Same s db) (before : ℤ) (c : ConversationEntity β) :
    s.orphan before c = MaintenanceDao.orphan db before c := by
  unfold MemoryCacheStore.orphan MaintenanceDao.orphan
  rw [List.not_any_eq_all_not, List.not_any_eq_all_not, h.entries.all_eq, h.messages.perm.all_eq]
  rfl

theorem Same.dropOrphans (h : Same s db) (before : ℤ) : Mirrors ConversationEntity.key
        (db.conversations.filter fun c => !MaintenanceDao.orphan db before c)
        ((s.conversations.values.filter (s.orphan before)).foldl (fun t c => t.erase c.key)
          s.conversations) ∧ (s.conversations.values.filter (s.orphan before)).length =
        db.conversations.countP (MaintenanceDao.orphan db before) := by
  have horphan : s.orphan before = MaintenanceDao.orphan db before := funext (h.orphan before)
  rw [horphan]
  constructor
  · have hm := h.conversations.eraseAll
      ((s.conversations.values.filter (MaintenanceDao.orphan db before)).map (·.key))
    rw [List.foldl_map] at hm
    suffices hl : (db.conversations.filter fun c => !MaintenanceDao.orphan db before c) =
        db.conversations.filter fun c => decide (c.key ∉
          (s.conversations.values.filter (MaintenanceDao.orphan db before)).map (·.key)) by
      rwa [hl]
    refine List.filter_congr fun c hc => ?_
    have hmem : c.key ∈ (s.conversations.values.filter (MaintenanceDao.orphan db before)).map
        (·.key) ↔ MaintenanceDao.orphan db before c = true := by
      rw [List.mem_map]
      constructor
      · rintro ⟨d, hd, hkey⟩
        obtain ⟨hd, hp⟩ := List.mem_filter.mp hd
        have hdc : d = c := List.inj_on_of_nodup_map (Table.nodup_values h.conversations.keyed) hd
          (h.conversations.perm.mem_iff.mp hc) hkey
        exact hdc ▸ hp
      · intro hp
        exact ⟨c, List.mem_filter.mpr ⟨h.conversations.perm.mem_iff.mp hc, hp⟩, rfl⟩
    cases ho : MaintenanceDao.orphan db before c <;> simp [hmem, ho]
  · rw [← List.countP_eq_length_filter, h.conversations.perm.countP_eq]

theorem Same.clear (h : Same s db) : Same s.clear (RoomCacheStore.clear db) := by
  have hm : Mirrors MessageEntity.key (db.messages.filter fun m => !decide (m.sendState = 0))
      (s.messages.keep fun _ m => !sent m) := h.messages.keep fun m => !sent m
  refine ⟨⟨hm, .empty⟩, ?_, .nil⟩
  have hk := h.conversations.keep fun c => !(s.messages.keep fun _ m => !sent m).values.all
    fun m => !ofThread c.accountId c.workspaceId c.conversationId m
  suffices hl : (RoomCacheStore.clear db).conversations = db.conversations.filter fun c =>
      !(s.messages.keep fun _ m => !sent m).values.all
        fun m => !ofThread c.accountId c.workspaceId c.conversationId m by
    rw [hl]
    exact hk
  refine List.filter_congr fun c _ => ?_
  rw [← List.not_any_eq_all_not, Bool.not_not, ← hm.perm.any_eq]
  rfl

end

section
variable {scope : CacheScope} {listKey : String}

theorem addEntry_eq (l : List InboxEntryEntity) (e : InboxEntryEntity) :
    addEntry l e = upsert (fun e => e) e l := by
  unfold addEntry upsert
  by_cases he : e ∈ l
  · have hany : (l.any fun r => decide (r = e)) = true :=
      List.any_eq_true.mpr ⟨e, he, decide_eq_true rfl⟩
    rw [if_pos he, if_pos hany]
    refine ((List.map_congr_left fun r _ => ?_).trans (List.map_id l)).symm
    split
    · rename_i hr
      exact hr.symm
    · rfl
  · have hany : ¬(l.any fun r => decide (r = e)) = true := by
      intro ha
      obtain ⟨r, hr, hre⟩ := List.any_eq_true.mp ha
      exact he (decide_eq_true_eq.mp hre ▸ hr)
    rw [if_neg he, if_neg hany]

theorem removeEntries_chunked (a w : String) (ids : List String) (l : List InboxEntryEntity) :
    (chunked SQL_CHUNK ids).foldl (fun l c => ConversationDao.removeEntries a w listKey c l) l =
      ConversationDao.removeEntries a w listKey ids l := by
  have hout : ∀ (c : List String) (l : List InboxEntryEntity),
      ConversationDao.removeEntries a w listKey c l = keyOut (fun e : InboxEntryEntity =>
        if e.accountId = a ∧ e.workspaceId = w ∧ e.listKey = listKey then some e.conversationId
        else none) c l := by
    intro c l
    refine List.filter_congr fun e _ => ?_
    by_cases he : e.accountId = a ∧ e.workspaceId = w ∧ e.listKey = listKey
    · simp [he]
    · simp only [if_neg he]
      simp only [Option.any_none, Bool.not_false, Bool.not_eq_true', Bool.and_eq_false_iff,
        decide_eq_false_iff_not]
      tauto
  simp only [hout]
  exact Lib.keyOut_chunked _ (by decide) ids l

theorem foldl_remove (a w : String) (ids : List String) (l : List InboxEntryEntity) :
    ids.foldl (fun l id => l.filter fun e => decide (e ≠ ⟨a, w, listKey, id⟩)) l =
      ConversationDao.removeEntries a w listKey ids l := by
  induction ids generalizing l with
  | nil =>
    refine (List.filter_eq_self.mpr fun e _ => ?_).symm
    simp
  | cons id ids ih =>
    rw [List.foldl_cons, ih, ConversationDao.removeEntries, ConversationDao.removeEntries,
      List.filter_filter]
    refine List.filter_congr fun e _ => ?_
    rw [Bool.eq_iff_iff]
    obtain ⟨a', w', k', id'⟩ := e
    simp only [Bool.and_eq_true, Bool.not_eq_true', Bool.and_eq_false_iff, decide_eq_true_eq,
      decide_eq_false_iff_not, InboxEntryEntity.mk.injEq, List.mem_cons, ne_eq]
    tauto

theorem writeList_perm (rows : List (Conversation α)) (replaceList : Bool) (absent : List String)
    {l l' : List InboxEntryEntity} (h : l.Perm l') :
    (RoomCacheStore.writeList scope rows listKey replaceList absent l).Perm
      (MemoryCacheStore.writeList scope rows listKey replaceList absent l') := by
  unfold RoomCacheStore.writeList MemoryCacheStore.writeList
  simp only [removeEntries_chunked, foldl_remove, addEntry_eq]
  refine List.Perm.filter _ ?_
  have hadd : ∀ (ids : List String) (l l' : List InboxEntryEntity), l.Perm l' →
      (ids.foldl (fun l id => upsert (fun e => e)
        (⟨scope.accountId, scope.workspaceId, listKey, id⟩ : InboxEntryEntity) l) l).Perm
      (ids.foldl (fun l id => upsert (fun e => e)
        (⟨scope.accountId, scope.workspaceId, listKey, id⟩ : InboxEntryEntity) l) l') := by
    intro ids
    induction ids with
    | nil => exact fun _ _ h => h
    | cons id ids ih => exact fun _ _ h => ih _ _ (Lib.upsert_perm _ _ h)
  refine hadd _ _ _ ?_
  cases replaceList with
  | false => exact h
  | true =>
    have hgone : ConversationDao.removeEntries scope.accountId scope.workspaceId listKey
        ((ConversationDao.listIds scope.accountId scope.workspaceId listKey l).filter fun id =>
          decide (id ∉ fresh [] (rows.map (·.id)))) l =
        l.filter fun e => !(decide (e.accountId = scope.accountId) &&
          decide (e.workspaceId = scope.workspaceId) && decide (e.listKey = listKey) &&
          decide (e.conversationId ∉ fresh [] (rows.map (·.id)))) := by
      refine List.filter_congr fun e he => ?_
      rw [Bool.eq_iff_iff, Bool.not_eq_true', Bool.not_eq_true', ← not_iff_not,
        Bool.not_eq_false, Bool.not_eq_false]
      simp only [Bool.and_eq_true, decide_eq_true_eq, List.mem_filter]
      simp only [ConversationDao.listIds, Bool.and_eq_true, decide_eq_true_eq, List.mem_filter,
        List.mem_map]
      constructor
      · rintro ⟨hkey, -, hnot⟩
        exact ⟨hkey, hnot⟩
      · rintro ⟨hkey, hnot⟩
        exact ⟨hkey, ⟨e, ⟨he, hkey⟩, rfl⟩, hnot⟩
    simp only [if_true, hgone]
    exact h.filter _

end

theorem Same.stored {s : MemoryCacheStore β γ} {db : CacheDatabase β γ} (h : Same s db)
    (scope : CacheScope) (rows : List (Conversation α)) (row : Conversation α) (hrow : row ∈ rows) :
    (((chunked SQL_CHUNK (fresh [] (rows.map (·.id)))).flatMap fun c => ConversationDao.getAll
      scope.accountId scope.workspaceId c db.conversations).reverse.find? fun c =>
        decide (c.conversationId = row.id)) = s.conversations.get (ConvKey.of scope row.id) := by
  have hfound := Lib.keyIn_chunked (fun c : ConversationEntity β => some c.conversationId)
    (show 0 < SQL_CHUNK by decide) (Lib.nodup_fresh [] (rows.map (·.id)))
    (db.conversations.filter fun c => decide (c.accountId = scope.accountId) &&
      decide (c.workspaceId = scope.workspaceId))
  refine Lib.find_of_unique fun c => ?_
  rw [List.mem_reverse, h.conversations.get_iff]
  have hmem := hfound.mem_iff (a := c)
  simp only [keyIn, List.mem_filter, Bool.and_eq_true, decide_eq_true_eq, Option.any_some,
    Lib.mem_fresh, List.not_mem_nil, not_false_eq_true, and_true] at hmem
  rw [show (c ∈ (chunked SQL_CHUNK (fresh [] (rows.map (·.id)))).flatMap fun ids =>
    ConversationDao.getAll scope.accountId scope.workspaceId ids db.conversations) ↔ _ from hmem,
    decide_eq_true_eq, ConversationEntity.key, ConvKey.of, ConvKey.mk.injEq]
  constructor
  · rintro ⟨⟨⟨hc, ha, hw⟩, -⟩, hid⟩
    exact ⟨hc, ha, hw, hid⟩
  · rintro ⟨hc, ha, hw, hid⟩
    exact ⟨⟨⟨hc, ha, hw⟩, hid ▸ List.mem_map_of_mem hrow⟩, hid⟩

end Kindred.Cache
