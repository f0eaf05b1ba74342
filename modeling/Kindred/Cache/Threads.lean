import Kindred.Cache.RoomStore

/-! A block on one thread, run by either store's writer. -/

namespace Kindred.Cache
open Lib (Table Mirrors fresh chunked upsert keyIn keyOut)

variable {α β γ δ τ : Type} {p : MemoryPages γ} {q : RoomPages γ} {scope : CacheScope}
  {conversationId : String}

structure SamePages (p : MemoryPages γ) (q : RoomPages γ) : Prop where
  messages : Mirrors MessageEntity.key q.messages p.messages
  states : Mirrors SyncStateEntity.stateKey q.sync_state p.states

theorem deleteState_eq (a w key : String) (rows : List SyncStateEntity) :
    deleteState a w key rows = rows.filter fun r => r.stateKey ≠ ⟨a, w, key⟩ := by
  refine List.filter_congr fun r _ => ?_
  simp [SyncStateEntity.stateKey, Bool.or_assoc]

theorem getState_eq (a w key : String) (rows : List SyncStateEntity) :
    getState a w key rows = rows.find? fun r => r.stateKey = ⟨a, w, key⟩ := by
  unfold getState
  congr 1
  funext r
  simp [SyncStateEntity.stateKey, Bool.and_assoc]

theorem SamePages.deleteState (h : SamePages p q) (a w key : String) :
    Mirrors SyncStateEntity.stateKey (deleteState a w key q.sync_state)
      (p.states.erase ⟨a, w, key⟩) := by
  rw [deleteState_eq]
  exact h.states.erase _

theorem SamePages.getState (h : SamePages p q) (a w key : String) :
    getState a w key q.sync_state = p.states.get ⟨a, w, key⟩ := by
  rw [getState_eq, h.states.find_key]

def NoClash (scope : CacheScope) (conversationId : String) :
    List (MessageEntity γ) → Table MsgKey (MessageEntity γ) → Prop
  | [], _ => True
  | row :: rows, t =>
    if t.values.any (clashes scope conversationId row) = true then
      (t.get row.key).isSome = true
    else NoClash scope conversationId rows (t.put row.key row)

instance decidableNoClash (scope : CacheScope) (conversationId : String)
    (rows : List (MessageEntity γ)) (t : Table MsgKey (MessageEntity γ)) :
    Decidable (NoClash scope conversationId rows t) := by
  induction rows generalizing t with
  | nil => exact .isTrue trivial
  | cons row rows ih =>
    have := ih (t.put row.key row)
    unfold NoClash
    infer_instance

def CallFits (strict : Bool) (scope : CacheScope) (conversationId : String) (p : MemoryPages γ) :
    WriterOp γ → Prop
  | .upsert rows =>
    strict = true ∨ (rows.all (inThread scope conversationId)) = false ∨
      NoClash scope conversationId rows p.messages
  | .putState state =>
    state.key = SyncKeys.thread conversationId →
      state.accountId = scope.accountId ∧ state.workspaceId = scope.workspaceId
  | _ => True

instance (strict : Bool) (scope : CacheScope) (conversationId : String) (p : MemoryPages γ)
    (op : WriterOp γ) : Decidable (CallFits strict scope conversationId p op) := by
  cases op <;> unfold CallFits <;> infer_instance

/-- What the two writers leave and answer is the same, or both throw. -/
def Agrees {ε : Type} : MemoryPages γ × Option ε → Option (RoomPages γ × ε) → Prop
  | (p, some a), some (q, b) => SamePages p q ∧ a = b
  | (_, none), none => True
  | _, _ => False

variable {rows : List (MessageEntity γ)} {strict : Bool}

theorem upsertRows_outside (h : rows.all (inThread scope conversationId) = false)
    (t : Table MsgKey (MessageEntity γ)) : (upsertRows scope conversationId rows t).2 = false := by
  induction rows generalizing t with
  | nil => cases h
  | cons row rows ih =>
    rw [upsertRows]
    cases hrow : inThread scope conversationId row with
    | false => rfl
    | true =>
      rw [List.all_cons, hrow, Bool.true_and] at h
      simp only [Bool.not_true, Bool.false_eq_true, if_false]
      split
      · rfl
      · exact ih h _

theorem clashes_eq {row : MessageEntity γ} (h : inThread scope conversationId row = true)
    (other : MessageEntity γ) : clashes scope conversationId row other =
      (decide (other.key ≠ row.key) && MessageDao.conflicts row other) := by
  simp only [inThread, Bool.and_eq_true, decide_eq_true_eq] at h
  obtain ⟨⟨ha, hw⟩, hc⟩ := h
  rw [Bool.eq_iff_iff]
  simp only [clashes, MessageDao.conflicts, inThread, MessageEntity.key, ha, hw, hc, ne_eq,
    MsgKey.mk.injEq, Bool.and_eq_true, decide_eq_true_eq]
  tauto

/-- The two upserts of a batch in which no new row is refused by a unique index, or where a
refusal is an error in both. -/
theorem upsertRows_agrees {t : Table MsgKey (MessageEntity γ)} {l : List (MessageEntity γ)}
    (h : Mirrors MessageEntity.key l t) (hall : rows.all (inThread scope conversationId) = true)
    (hfit : strict = true ∨ NoClash scope conversationId rows t) :
    (∃ t' l', upsertRows scope conversationId rows t = (t', true) ∧
      MessageDao.upsertAll strict rows l = some l' ∧ Mirrors MessageEntity.key l' t') ∨
    (upsertRows scope conversationId rows t).2 = false ∧
      MessageDao.upsertAll strict rows l = none := by
  induction rows generalizing t l with
  | nil => exact .inl ⟨t, l, rfl, rfl, h⟩
  | cons row rows ih =>
    rw [List.all_cons, Bool.and_eq_true] at hall
    obtain ⟨hrow, hall⟩ := hall
    have hclash : t.values.any (clashes scope conversationId row) =
        l.any fun other => decide (other.key ≠ row.key) && MessageDao.conflicts row other := by
      rw [h.perm.any_eq]
      congr 1
      exact funext (clashes_eq hrow)
    have hknown : (l.any fun other => decide (other.key = row.key)) = (t.get row.key).isSome := by
      rw [← h.find_key, Bool.eq_iff_iff, List.find?_isSome, List.any_eq_true]
    simp only [upsertRows, MessageDao.upsertAll, List.foldlM_cons, MessageDao.upsertRow, hrow,
      Bool.not_true, Bool.false_eq_true, if_false]
    cases hc : t.values.any (clashes scope conversationId row) with
    | true =>
      refine .inr ⟨by rw [if_pos rfl], ?_⟩
      rw [hc] at hclash
      rw [← hclash, hknown, if_pos rfl]
      cases hg : (t.get row.key).isSome with
      | true => rfl
      | false =>
        -- A refused row whose key is new: only where that is an error.
        have hstrict : strict = true := by
          rcases hfit with hfit | hfit
          · exact hfit
          · rw [NoClash, if_pos hc, hg] at hfit
            cases hfit
        have hconf : l.any (MessageDao.conflicts row) = true := by
          obtain ⟨other, hother, hp⟩ := List.any_eq_true.mp hclash.symm
          rw [Bool.and_eq_true] at hp
          exact List.any_eq_true.mpr ⟨other, hother, hp.2⟩
        rw [hconf, hstrict]
        rfl
    | false =>
      rw [hc] at hclash
      have hput : (if (l.any fun other => decide (other.key = row.key)) = true then
            if (l.any fun other => decide (other.key ≠ row.key) && MessageDao.conflicts row other) =
              true then none
            else some (l.map fun other => if other.key = row.key then row else other)
          else if l.any (MessageDao.conflicts row) = true then
            if strict = true then none else some l
          else some (l ++ [row])) = some (upsert MessageEntity.key row l) := by
        rw [← hclash, if_neg Bool.false_ne_true, upsert]
        by_cases hk : (l.any fun other => decide (other.key = row.key)) = true
        · rw [if_pos hk, if_pos hk]
        · rw [if_neg hk, if_neg hk, if_neg]
          intro hconf
          obtain ⟨other, hother, hp⟩ := List.any_eq_true.mp hconf
          have hne : other.key ≠ row.key := fun he =>
            hk (List.any_eq_true.mpr ⟨other, hother, decide_eq_true he⟩)
          have hany : (l.any fun other => decide (other.key ≠ row.key) &&
              MessageDao.conflicts row other) = true :=
            List.any_eq_true.mpr ⟨other, hother, by rw [hp, decide_eq_true hne]; rfl⟩
          rw [← hclash] at hany
          cases hany
      rw [hput]
      have hfit' : strict = true ∨ NoClash scope conversationId rows (t.put row.key row) := by
        refine hfit.imp_right fun hn => ?_
        rwa [NoClash, hc, if_neg Bool.false_ne_true] at hn
      exact ih (h.put row) hall hfit'

theorem keyIn_thread (key : MessageEntity γ → Option String) (ids : List String)
    (h : SamePages p q) : ((chunked SQL_CHUNK (fresh [] ids)).flatMap fun c => keyIn key c
      (MessageDao.ofThreadRows scope.accountId scope.workspaceId conversationId q.messages)).Perm
      (p.messages.values.filter fun m =>
        inThread scope conversationId m && (key m).any (· ∈ fresh [] ids)) := by
  refine (Lib.keyIn_chunked key (by decide) (Lib.nodup_fresh [] ids) _).trans ?_
  unfold keyIn MessageDao.ofThreadRows
  rw [List.filter_filter]
  refine (h.messages.perm.filter _).trans (.of_eq (List.filter_congr fun m _ => ?_))
  rw [Bool.and_comm]
  rfl

theorem delete_agrees (h : SamePages p q) (a : String) (ids : List String) :
    Mirrors MessageEntity.key ((chunked SQL_CHUNK (fresh [] ids)).foldl (fun rows c =>
        rows.filter fun m => !(decide (m.accountId = a) && decide (m.localId ∈ c))) q.messages)
      (ids.foldl (fun t id => t.erase ⟨a, id⟩) p.messages) := by
  have hkeys := h.messages.eraseAll (ids.map fun id => ⟨a, id⟩)
  rw [List.foldl_map] at hkeys
  suffices hl : (chunked SQL_CHUNK (fresh [] ids)).foldl (fun rows c =>
      rows.filter fun m => !(decide (m.accountId = a) && decide (m.localId ∈ c))) q.messages =
      q.messages.filter fun m => decide (m.key ∉ ids.map fun id => (⟨a, id⟩ : MsgKey)) by
    rwa [hl]
  have hout : ∀ (c : List String) (rows : List (MessageEntity γ)),
      (rows.filter fun m => !(decide (m.accountId = a) && decide (m.localId ∈ c))) =
        keyOut (fun m => if m.accountId = a then some m.localId else none) c rows := by
    intro c rows
    refine List.filter_congr fun m _ => ?_
    by_cases ha : m.accountId = a <;> simp [ha]
  simp only [hout]
  rw [Lib.keyOut_chunked _ (by decide)]
  refine List.filter_congr fun m _ => ?_
  by_cases ha : m.accountId = a
  · simp [ha, Lib.mem_fresh, MessageEntity.key]
  · simp [ha, MessageEntity.key, Ne.symm ha]

theorem call_agrees {op : WriterOp γ} (h : SamePages p q)
    (hfit : CallFits strict scope conversationId p op) :
    Agrees (MemoryThreadWriter.call scope conversationId p op)
      (RoomThreadWriter.call strict scope conversationId q op) := by
  cases op with
  | byServerIds ids =>
    exact ⟨h, congrArg WriterAnswer.rows (Multiset.coe_eq_coe.mpr (keyIn_thread _ ids h).symm)⟩
  | byClientIds ids =>
    exact ⟨h, congrArg WriterAnswer.rows (Multiset.coe_eq_coe.mpr (keyIn_thread _ ids h).symm)⟩
  | keys =>
    refine ⟨h, congrArg WriterAnswer.keyRows (Multiset.coe_eq_coe.mpr ?_)⟩
    exact ((h.messages.perm.filter _).map _).symm
  | upsert rows =>
    have hroom : RoomThreadWriter.call strict scope conversationId q (.upsert rows) =
        if rows.all (inThread scope conversationId) = true then
          (MessageDao.upsertAll strict rows q.messages).map fun messages =>
            ({ q with messages }, .done)
        else none := rfl
    rw [hroom]
    simp only [MemoryThreadWriter.call]
    cases hall : rows.all (inThread scope conversationId) with
    | false =>
      rw [upsertRows_outside hall, if_neg Bool.false_ne_true, if_neg Bool.false_ne_true]
      trivial
    | true =>
      have hfit : strict = true ∨ NoClash scope conversationId rows p.messages := by
        rcases hfit with hfit | hfit | hfit
        · exact .inl hfit
        · rw [hall] at hfit
          cases hfit
        · exact .inr hfit
      rw [if_pos rfl]
      obtain ⟨t', l', ht, hl, hm⟩ | ⟨ht, hl⟩ := upsertRows_agrees h.messages hall hfit
      · rw [ht, hl]
        exact ⟨⟨hm, h.states⟩, rfl⟩
      · rw [ht, hl]
        trivial
  | delete ids => exact ⟨⟨delete_agrees h scope.accountId ids, h.states⟩, rfl⟩
  | state => exact ⟨h, congrArg WriterAnswer.state (h.getState _ _ _).symm⟩
  | putState state =>
    simp only [MemoryThreadWriter.call, RoomThreadWriter.call]
    by_cases hk : state.key = SyncKeys.thread conversationId
    · obtain ⟨ha, hw⟩ := hfit hk
      rw [if_pos hk, if_pos ⟨ha, hw, hk⟩]
      have hkey : (⟨scope.accountId, scope.workspaceId, state.key⟩ : StateKey) =
          state.stateKey := by
        rw [SyncStateEntity.stateKey, ha, hw]
      rw [hkey]
      exact ⟨⟨h.messages, h.states.put state⟩, rfl⟩
    · rw [if_neg hk, if_neg fun hs => hk hs.2.2]
      trivial
  | clearState => exact ⟨⟨h.messages, h.deleteState _ _ _⟩, rfl⟩

def BlockFits (strict : Bool) (scope : CacheScope) (conversationId : String) :
    Block γ τ → MemoryPages γ → Prop
  | .done _, _ | .throw, _ => True
  | .call op next, p =>
    CallFits strict scope conversationId p op ∧
      match MemoryThreadWriter.call scope conversationId p op with
      | (_, none) => True
      | (p, some answer) => BlockFits strict scope conversationId (next answer) p

instance decidableBlockFits (strict : Bool) (scope : CacheScope) (conversationId : String) :
    (block : Block γ τ) → (p : MemoryPages γ) →
      Decidable (BlockFits strict scope conversationId block p)
  | .done _, _ => .isTrue trivial
  | .throw, _ => .isTrue trivial
  | .call op next, p =>
    have : Decidable (match MemoryThreadWriter.call scope conversationId p op with
        | (_, none) => True
        | (p, some answer) => BlockFits strict scope conversationId (next answer) p) :=
      match MemoryThreadWriter.call scope conversationId p op with
      | (_, none) => .isTrue trivial
      | (p, some answer) => decidableBlockFits strict scope conversationId (next answer) p
    inferInstanceAs (Decidable (CallFits strict scope conversationId p op ∧
      match MemoryThreadWriter.call scope conversationId p op with
        | (_, none) => True
        | (p, some answer) => BlockFits strict scope conversationId (next answer) p))

theorem run_agrees {block : Block γ τ} (h : SamePages p q)
    (hfit : BlockFits strict scope conversationId block p) :
    Agrees (MemoryThreadWriter.run scope conversationId block p)
      (RoomThreadWriter.run strict scope conversationId block q) := by
  induction block generalizing p q with
  | done result => exact ⟨h, rfl⟩
  | throw => trivial
  | call op next ih =>
    rw [BlockFits] at hfit
    obtain ⟨hcall, hnext⟩ := hfit
    have hagree := call_agrees h hcall
    rw [MemoryThreadWriter.run, RoomThreadWriter.run]
    cases hm : MemoryThreadWriter.call scope conversationId p op with
    | mk p' answer =>
      rw [hm] at hagree hnext
      cases answer with
      | none =>
        cases hr : RoomThreadWriter.call strict scope conversationId q op with
        | none => trivial
        | some _ =>
          rw [hr] at hagree
          exact hagree.elim
      | some answer =>
        cases hr : RoomThreadWriter.call strict scope conversationId q op with
        | none =>
          rw [hr] at hagree
          exact hagree.elim
        | some qb =>
          rw [hr] at hagree
          obtain ⟨hpages, rfl⟩ := hagree
          exact ih _ hpages hnext

end Kindred.Cache
