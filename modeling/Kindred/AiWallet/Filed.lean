import Kindred.AiWallet.Effects

/-! What holds of the wallet's rows in every state: ids are handed out once, and only
an empty lot is depleted. -/

namespace Kindred.AiWallet
open Lib.Tx
open Lib (Table)

def Lot.Drained (lot : Lot) : Prop := lot.state = .depleted → lot.remainingAmount ≤ 0

/-- Rows have ids of their own, `n` among those already given out. -/
structure Filed (n : Id) (w : Wallet) : Prop where
  ids : n ≤ w.nextId
  lots_old : ∀ id lot, w.lots.get id = some lot → id < w.nextId
  drained : ∀ id lot, w.lots.get id = some lot → lot.Drained
  ledger_old : ∀ id entry, w.ledger.get id = some entry → id < w.nextId
  posted_old : ∀ a ∈ w.ledgerAllocations, a.ledgerEntryId < w.nextId
  posted_lots : ∀ a ∈ w.ledgerAllocations, a.lotId < w.nextId
  posted_nonneg : ∀ a ∈ w.ledgerAllocations, 0 ≤ a.amount
  positive : ∀ a ∈ w.reservationAllocations, 0 < a.amount

theorem filed_empty : Filed 0 .empty := by
  constructor <;> simp [Wallet.empty]

variable {n : Id} {w w' : Wallet} {now : Timestamp} {ws : Id} {reason : Option String}
  {amount : Option Int} {key : Option String} {runId : Id} {α : Type} {lot : Lot} {entry : Id}
  {l l' : Lot} {cycle : Option String}

theorem Filed.since (h : Filed n w) {m : Id} (hm : m ≤ n) : Filed m w :=
  { h with ids := hm.trans h.ids }

theorem Filed.frame (h : Filed n w) (hlots : w'.lots = w.lots) (hledger : w'.ledger = w.ledger)
    (hposted : w'.ledgerAllocations = w.ledgerAllocations)
    (hheld : ∀ a ∈ w'.reservationAllocations, a ∈ w.reservationAllocations)
    (hid : w.nextId ≤ w'.nextId) : Filed n w' where
  ids := h.ids.trans hid
  lots_old id lot hl := lt_of_lt_of_le (h.lots_old id lot (hlots ▸ hl)) hid
  drained id lot hl := h.drained id lot (hlots ▸ hl)
  ledger_old id entry he := lt_of_lt_of_le (h.ledger_old id entry (hledger ▸ he)) hid
  posted_old a ha := lt_of_lt_of_le (h.posted_old a (hposted ▸ ha)) hid
  posted_lots a ha := lt_of_lt_of_le (h.posted_lots a (hposted ▸ ha)) hid
  posted_nonneg a ha := h.posted_nonneg a (hposted ▸ ha)
  positive a ha := h.positive a (hheld a ha)

def Files (n : Id) {α : Type} (m : WalletTx α) : Prop := Triple (Filed n) m fun _ => Filed n

variable {m : WalletTx α} {c : Prop} {f : Wallet → WalletTx α} {charge : Int}

theorem Files.bind {β : Type} {f : α → WalletTx β} (hm : Files n m) (hf : ∀ a, Files n (f a))
    : Files n (m >>= f) := Triple.bind hm hf

theorem Files.pure (a : α) : Files n (Pure.pure a : WalletTx α) := Triple.pure fun _ h => h

theorem Files.throw (e : WalletError) : Files n (MonadExcept.throw e : WalletTx α) :=
  Triple.throw

theorem Files.ite [Decidable c] {m' : WalletTx α} (hm : c → Files n m) (hm' : ¬c → Files n m')
    : Files n (if c then m else m') := Triple.ite hm hm'

theorem Files.require [Decidable c] {e : WalletError} :
    Files n (Lib.Tx.require c e : WalletTx Unit) := Triple.require fun _ _ h => h

theorem Files.get_bind (hf : ∀ w, Filed n w → Files n (f w)) : Files n (get >>= f) :=
  fun w a w' hw h => hf w hw w a w' hw h

theorem Files.read_bind (hf : ∀ w, Filed n w → Files w.nextId (f w)) : Files n (get >>= f) :=
  fun w a w' hw h => (hf w hw w a w' { hw with ids := le_rfl } h).since hw.ids

theorem Files.modify {f : Wallet → Wallet} (hf : ∀ w, Filed n w → Filed n (f w)) :
    Files n (modify f : WalletTx PUnit) := Triple.modify hf

theorem Filed.lock (h : Filed n w) (ws : Id) : Filed n (w.lock ws) := by
  obtain ⟨wallets, hlock⟩ := lock_eq w ws
  rw [hlock]
  exact h.frame rfl rfl rfl (fun _ ha => ha) le_rfl

theorem Filed.project (h : Filed n w) (ws : Id) : Filed n (w.project ws) :=
  h.frame rfl rfl rfl (fun _ ha => ha) le_rfl

theorem Filed.recordCommand (h : Filed n w) (key : Option String) (c : Command) :
    Filed n (w.recordCommand key c) := by
  obtain ⟨commands, hcommands⟩ := recordCommand_eq w key c
  rw [hcommands]
  exact h.frame rfl rfl rfl (fun _ ha => ha) le_rfl

theorem Filed.linkRun (h : Filed n w) (run : Option Id) (res : Id) : Filed n (w.linkRun run res) := by
  obtain ⟨runs, hruns⟩ := linkRun_eq w run res
  rw [hruns]
  exact h.frame rfl rfl rfl (fun _ ha => ha) le_rfl

theorem Filed.sumReservation (h : Filed n w) (res : Id) : Filed n (w.sumReservation res) :=
  h.frame rfl rfl rfl (fun _ ha => ha) le_rfl

theorem Filed.setLots (h : Filed n w) {lots : Table Id Lot}
    (hlots : ∀ id lot, lots.get id = some lot →
      ∃ old, w.lots.get id = some old ∧ (old.Drained → lot.Drained)) :
    Filed n { w with lots := lots } :=
  { h with
    lots_old := fun id lot hl => by
      obtain ⟨old, hold, -⟩ := hlots id lot hl
      exact h.lots_old id old hold
    drained := fun id lot hl => by
      obtain ⟨old, hold, hd⟩ := hlots id lot hl
      exact hd (h.drained id old hold) }

theorem insertLot_files (hlot : lot.Drained) :
    Triple (Filed n) (insertLot lot) fun id w => n ≤ id ∧ Filed (id + 1) w := by
  intro w a w' hw h
  rw [insertLot, get_bind, set_bind] at h
  cases pure_ok.mp h
  refine ⟨hw.ids, le_rfl, fun id l hl => ?_, fun id l hl => ?_,
    fun id e he => Nat.lt_succ_of_lt (hw.ledger_old id e he),
    fun a ha => Nat.lt_succ_of_lt (hw.posted_old a ha),
    fun a ha => Nat.lt_succ_of_lt (hw.posted_lots a ha), hw.posted_nonneg, hw.positive⟩ <;>
    rw [Table.get_put] at hl <;> split at hl
  · rename_i hid
    rw [hid]
    exact Nat.lt_succ_self _
  · exact Nat.lt_succ_of_lt (hw.lots_old id l hl)
  · cases hl
    exact hlot
  · exact hw.drained id l hl

theorem updateLot_files {id : Id} {f : Lot → Option Lot}
    (hf : ∀ l l', f l = some l' → l.Drained → l'.Drained) : Files n (updateLot id f) := by
  intro w a w' hw h
  obtain ⟨table, hdb, ⟨-, htable⟩ | ⟨l, l', hl, hfl, htable⟩⟩ := updateLot_ok h
  · have hw' : w' = _ := hdb
    rw [hw', htable]
    exact hw
  · have hw' : w' = _ := hdb
    rw [hw', htable]
    refine hw.setLots fun j x hx => ?_
    rw [Table.get_put] at hx
    split at hx
    · rename_i hj
      cases hx
      exact ⟨l, hj ▸ hl, hf l l' hfl⟩
    · exact ⟨x, hx, fun hd => hd⟩

theorem insertLedger_files (entry : LedgerEntry) :
    Triple (Filed n) (insertLedger entry) fun id w => n ≤ id ∧ Filed (id + 1) w := by
  intro w a w' hw h
  rw [insertLedger, get_bind, set_bind] at h
  cases pure_ok.mp h
  refine ⟨hw.ids, le_rfl, fun id l hl => Nat.lt_succ_of_lt (hw.lots_old id l hl), hw.drained,
    fun id e he => ?_, fun a ha => Nat.lt_succ_of_lt (hw.posted_old a ha),
    fun a ha => Nat.lt_succ_of_lt (hw.posted_lots a ha), hw.posted_nonneg, hw.positive⟩
  rw [Table.get_put] at he
  split at he
  · rename_i hid
    rw [hid]
    exact Nat.lt_succ_self _
  · exact Nat.lt_succ_of_lt (hw.ledger_old id e he)

theorem insertLedgerAllocation_files {lot : Id} {amount : Int} (hentry : entry < n) (hlot : lot < n)
    (hamount : 0 ≤ amount) : Files n (insertLedgerAllocation entry lot amount) := by
  refine .modify fun w hw => ?_
  refine ⟨hw.ids, hw.lots_old, hw.drained, hw.ledger_old, fun a ha => ?_, fun a ha => ?_,
    fun a ha => ?_, hw.positive⟩ <;> rcases List.mem_append.mp ha with ha | ha
  · exact hw.posted_old a ha
  · cases List.mem_singleton.mp ha
    exact lt_of_lt_of_le hentry hw.ids
  · exact hw.posted_lots a ha
  · cases List.mem_singleton.mp ha
    exact lt_of_lt_of_le hlot hw.ids
  · exact hw.posted_nonneg a ha
  · cases List.mem_singleton.mp ha
    exact hamount

theorem insertReservationAllocation_files {res lot : Id} {amount : Int} (hpos : 0 < amount) :
    Files n (insertReservationAllocation res lot amount) := by
  intro w a w' hw h
  obtain ⟨-, hw'⟩ := insertReservationAllocation_ok h
  have hw' : w' = _ := hw'
  rw [hw']
  refine { hw with positive := fun a ha => ?_ }
  rcases List.mem_append.mp ha with ha | ha
  · exact hw.positive a ha
  · cases List.mem_singleton.mp ha
    exact hpos

theorem Files.after_new {m : WalletTx Id} {f : Id → WalletTx α}
    (hm : Triple (Filed n) m fun id w => n ≤ id ∧ Filed (id + 1) w)
    (hf : ∀ id, n ≤ id → Files (id + 1) (f id)) : Files n (m >>= f) :=
  Triple.bind hm fun id w a w' hw h =>
    (hf id hw.1 w a w' hw.2 h).since (hw.1.trans (Nat.le_succ _))

theorem Files.after_ledger {entry : LedgerEntry} {f : Id → WalletTx α}
    (hf : ∀ id, n ≤ id → Files (id + 1) (f id)) : Files n (insertLedger entry >>= f) :=
  .after_new (insertLedger_files entry) hf

theorem withAmounts_drained {reserved : Int}
    (h : l.withAmounts l.remainingAmount reserved l.state = some l') (hl : l.Drained) :
    l'.Drained := by
  obtain ⟨hremaining, -, hstate, -⟩ := withAmounts_ok h
  unfold Lot.Drained
  rw [hremaining, hstate]
  exact hl

theorem charge_drained {amount : Int} (hamount : 0 ≤ amount) (h : Lot.charge amount l = some l')
    (hl : l.Drained) : l'.Drained := by
  obtain ⟨hremaining, -, hstate, -⟩ := withAmounts_ok h
  intro hdepleted
  rw [hremaining]
  rw [hstate] at hdepleted
  split at hdepleted
  · assumption
  · have := hl hdepleted
    omega

theorem refund_drained {amount : Int}
    (h : l.withAmounts (l.remainingAmount + amount) l.reservedAmount
      (if l.state = .depleted then .active else l.state) = some l') : l'.Drained := by
  obtain ⟨-, -, hstate, -⟩ := withAmounts_ok h
  intro hdepleted
  rw [hstate] at hdepleted
  split at hdepleted
  · cases hdepleted
  · rename_i hne
    exact (hne hdepleted).elim

theorem finish_drained (hl : l.Drained) (ws : Id) : (l.finish ws).Drained := by
  unfold Lot.finish
  split
  · intro h
    cases h
  · exact hl

theorem fundLot_files (hlot : lot.Drained) (hamount : 0 ≤ lot.originalAmount)
    {entryType : EntryType} : Files 0 (fundLot lot entryType reason) := by
  exact .after_new (insertLot_files hlot) fun id _ => .after_ledger fun entry hid =>
    (insertLedgerAllocation_files (Nat.lt_succ_self _) (Nat.lt_of_lt_of_le hid (Nat.le_succ _))
      hamount).bind fun _ => .pure _

theorem drained_of_active (h : lot.state = .active) : lot.Drained := by
  intro hdepleted
  rw [h] at hdepleted
  cases hdepleted

theorem aiGrantAllowance_files {source : Option String} {expires : Option Timestamp} :
    Files 0 (aiGrantAllowance now ws amount cycle source expires key) := by
  unfold aiGrantAllowance allowanceLot
  refine (Files.modify fun _ h => h.lock ws).bind fun _ => .get_bind fun w _ => ?_
  cases w.replay key with
  | some id => exact .pure _
  | none =>
    refine Files.bind (.get_bind fun w _ => ?_) fun _ =>
      (Files.modify fun _ h => h.project ws).bind fun _ =>
        (Files.modify fun _ h => h.recordCommand key _).bind fun _ => .pure _
    generalize List.find? _ _ = found
    cases found with
    | some r => exact .pure _
    | none => exact (fundLot_files (drained_of_active rfl) (le_max_right _ _)).bind fun _ => .pure _

theorem aiPurchaseCredit_files : Files 0 (aiPurchaseCredit now ws amount key reason) := by
  refine (Files.modify fun _ h => h.lock ws).bind fun _ => .get_bind fun w _ => ?_
  cases w.replay key with
  | some id => exact .pure _
  | none =>
    exact (fundLot_files (drained_of_active rfl) (le_max_right _ _)).bind fun _ =>
      (Files.modify fun _ h => h.project ws).bind fun _ =>
        (Files.modify fun _ h => h.recordCommand key _).bind fun _ => .pure _

theorem aiAdjustBalance_files : Files 0 (aiAdjustBalance now ws amount reason key) := by
  refine .get_bind fun w _ => ?_
  cases w.replay key with
  | some id => exact .pure _
  | none =>
    exact (Files.modify fun _ h => h.lock ws).bind fun _ =>
      (fundLot_files (drained_of_active rfl) (le_max_right _ _)).bind fun _ =>
        (Files.modify fun _ h => h.project ws).bind fun _ =>
          (Files.modify fun _ h => h.recordCommand key _).bind fun _ => .pure _

theorem aiBeginRun_files {key hash : String} {mode : Option RunMode} :
    Files n (aiBeginRun ws key hash mode) := by
  intro w a w' hw h
  rcases beginRun_ok h with hw' | ⟨runs, hw'⟩ <;> have hw' : w' = _ := hw'
  · rw [hw']
    exact hw
  · rw [hw']
    exact hw.frame rfl rfl rfl (fun _ ha => ha) (Nat.le_succ _)

theorem holdLots_files {res : Id} (left : Int) (lots : List (Id × Lot)) :
    Files n (holdLots res left lots) := by
  induction lots generalizing left with
  | nil => exact .pure _
  | cons l lots ih =>
    obtain ⟨id, lot⟩ := l
    refine .ite (fun _ => .pure _) fun _ => .ite (fun hpos => ?_) fun _ => ih left
    exact (updateLot_files fun _ _ h => withAmounts_drained h).bind fun _ =>
      (insertReservationAllocation_files hpos).bind fun _ => ih _

theorem insertReservation_files {runId : Option Id} : Files n (insertReservation ws runId) := by
  intro w a w' hw h
  rw [insertReservation, get_bind] at h
  obtain ⟨-, h⟩ := require_bind_ok.mp h
  rw [set_bind] at h
  cases pure_ok.mp h
  exact hw.frame rfl rfl rfl (fun _ ha => ha) (Nat.le_succ _)

theorem aiReserve_files {runId : Option Id} : Files n (aiReserve now ws runId amount key) := by
  refine (Files.modify fun _ h => h.lock ws).bind fun _ => .get_bind fun w _ => ?_
  cases w.replay key with
  | some id => exact .pure _
  | none =>
    exact insertReservation_files.bind fun id => (holdLots_files _ _).bind fun _ =>
      (Files.modify fun _ h => h.sumReservation id).bind fun _ =>
        (Files.modify fun _ h => h.linkRun runId id).bind fun _ =>
          (Files.modify fun _ h => h.project ws).bind fun _ =>
            (Files.modify fun _ h => h.recordCommand key _).bind fun _ =>
              .get_bind fun _ _ => .pure _

theorem aiTopupReservation_files {delta : Option Int} :
    Files n (aiTopupReservation now runId delta) := by
  refine .get_bind fun w _ => ?_
  cases w.runs.get runId with
  | none => exact .pure _
  | some run =>
    cases hres : run.reservationId with
    | none => simp only [hres]; exact .pure _
    | some id =>
      simp only [hres]
      exact (Files.modify fun _ h => h.lock _).bind fun _ => (holdLots_files _ _).bind fun _ =>
        (Files.modify fun _ h => h.sumReservation id).bind fun _ =>
          (Files.modify fun _ h => h.project _).bind fun _ => .pure _

theorem aiReleaseReservation_files (id : Id) : Files n (aiReleaseReservation id) := by
  refine .get_bind fun w _ => ?_
  cases w.reservations.get id with
  | none => exact .pure _
  | some r =>
    refine (Files.modify fun _ h => h.lock _).bind fun _ => Files.bind (Triple.forM fun a _ =>
      updateLot_files fun _ _ h => withAmounts_drained h) fun _ => ?_
    refine (Files.modify fun w h => ?_).bind fun _ => (Files.modify fun _ h => h.project _).bind
      fun _ => (Files.modify fun w h => ?_).bind fun _ => .modify fun _ h => h.project _
    · exact h.frame rfl rfl rfl (fun _ ha => (List.mem_filter.mp ha).1) le_rfl
    · refine h.setLots fun id lot hl => ?_
      rw [Table.get_mapValues] at hl
      obtain ⟨old, hold, rfl⟩ := Option.map_eq_some_iff.mp hl
      exact ⟨old, hold, fun hd => finish_drained hd _⟩

theorem fundCharge_files {res : Option Id} : Files n (fundCharge now runId res charge) := by
  refine .ite (fun _ => ?_) fun _ => .pure _
  cases res with
  | none => exact .pure _
  | some id =>
    refine .get_bind fun w _ => ?_
    cases w.reservations.get id with
    | none => exact .pure _
    | some r =>
      refine .ite (fun _ => aiTopupReservation_files.bind fun _ => ?_) fun _ => .pure _
      exact .ite (fun _ => .pure _) fun _ => .pure _

theorem chargeLots_files (hentry : entry < n) (left : Int) {rows : List (Id × Int)}
    (hrows : ∀ r ∈ rows, r.1 < n ∧ 0 < r.2) : Files n (chargeLots entry left rows) := by
  induction rows generalizing left with
  | nil => exact .pure _
  | cons r rows ih =>
    obtain ⟨lot, amount⟩ := r
    refine .ite (fun _ => .pure _) fun hleft => ?_
    have hpos : 0 < amount := (hrows _ List.mem_cons_self).2
    have htake : 0 ≤ min left amount := by omega
    exact (updateLot_files fun _ _ h => charge_drained htake h).bind fun _ =>
      (insertLedgerAllocation_files hentry (hrows _ List.mem_cons_self).1 htake).bind fun _ =>
        ih _ fun r hr => hrows r (List.mem_cons_of_mem _ hr)

theorem postCharge_files {run : Run} {cycle : String} :
    Files 0 (postCharge run runId cycle charge) := by
  refine .ite (fun _ => .after_ledger fun entry _ => .read_bind fun w hw => ?_) fun _ => .pure _
  have hpos : ∀ a ∈ run.reservationId.elim [] w.allocationsOf, 0 < a.amount := by
    cases run.reservationId with
    | none => simp
    | some id => exact fun a ha => hw.positive a (List.mem_filter.mp ha).1
  have hrows : ∀ r ∈ w.chargeOrder (run.reservationId.elim [] w.allocationsOf),
      r.1 < w.nextId ∧ 0 < r.2 := by
    intro r hr
    obtain ⟨l, hl⟩ := Option.isSome_iff_exists.mp (chargeOrder_known r hr)
    exact ⟨hw.lots_old r.1 l hl, chargeOrder_pos hpos r hr⟩
  exact (chargeLots_files (Nat.lt_of_lt_of_le (Nat.lt_succ_self _) hw.ids) _ hrows).bind fun _ =>
    .modify fun _ h => h.frame rfl rfl rfl (fun _ ha => ha) le_rfl

theorem insertSettlement_files {settlement : Id → Settlement} :
    Files n (insertSettlement runId settlement) := by
  intro w a w' hw h
  rw [insertSettlement, get_bind, set_bind] at h
  cases pure_ok.mp h
  exact hw.frame rfl rfl rfl (fun _ ha => ha) (Nat.le_succ _)

theorem closeReservation_files (res : Option Id) : Files n (closeReservation res) := by
  cases res with
  | none => exact .pure _
  | some id =>
    exact (aiReleaseReservation_files id).bind fun _ =>
      .modify fun _ h => h.frame rfl rfl rfl (fun _ ha => ha) le_rfl

theorem aiSettleRun_files {usd irr charge : Option Int} :
    Files 0 (aiSettleRun now runId key usd irr charge cycle) := by
  refine .get_bind fun w _ => ?_
  cases w.replay key with
  | some id => exact .pure _
  | none =>
    cases w.runs.get runId with
    | none => exact .throw _
    | some run =>
      cases w.settlements.get runId with
      | some s => exact .pure _
      | none =>
        refine (Files.modify fun _ h => h.lock _).bind fun _ => fundCharge_files.bind fun _ =>
          insertSettlement_files.bind fun _ => postCharge_files.bind fun _ =>
            (closeReservation_files _).bind fun _ => (Files.modify ?_).bind fun _ =>
              (Files.modify fun _ h => h.project _).bind fun _ => .get_bind fun _ _ =>
                (Files.modify fun _ h => h.recordCommand key _).bind fun _ => .pure _
        exact fun _ h => h.frame rfl rfl rfl (fun _ ha => ha) le_rfl

theorem chargesOf_nonneg (hw : Filed n w) (runId : Id) : ∀ r ∈ w.chargesOf runId, 0 ≤ r.2.1 := by
  intro r hr
  obtain ⟨la, hla, hr⟩ := List.mem_filterMap.mp hr
  split at hr
  · cases hr
  · split at hr
    · obtain ⟨l, -, rfl⟩ := Option.map_eq_some_iff.mp hr
      exact hw.posted_nonneg la hla
    · cases hr

theorem chargesOf_old (hw : Filed n w) (runId : Id) : ∀ r ∈ w.chargesOf runId, r.1 < w.nextId := by
  intro r hr
  obtain ⟨la, hla, hr⟩ := List.mem_filterMap.mp hr
  split at hr
  · cases hr
  · split at hr
    · obtain ⟨l, -, rfl⟩ := Option.map_eq_some_iff.mp hr
      exact hw.posted_lots la hla
    · cases hr

theorem refundTarget_files {lotId : Id} {take : Int} (hlot : lotId < n) :
    Triple (Filed n) (refundTarget now ws lotId lot take) fun target w =>
      ∃ m, n ≤ m ∧ target < m ∧ Filed m w := by
  refine Triple.ite (fun _ => Triple.bind Files.require fun _ => ?_) fun _ => ?_
  · intro w id w' hw h
    obtain ⟨hid, hw'⟩ := insertLot_files (drained_of_active rfl) w id w' hw h
    exact ⟨id + 1, hid.trans (Nat.le_succ _), Nat.lt_succ_self _, hw'⟩
  · refine Triple.bind (updateLot_files fun _ _ h _ => refund_drained h) fun _ => ?_
    exact Triple.pure fun w hw => ⟨n, le_rfl, hlot, hw⟩

theorem refundLots_files (hentry : entry < n) (left : Int) {rows : List (Id × Int × Lot)}
    (hrows : ∀ r ∈ rows, r.1 < n ∧ 0 ≤ r.2.1) : Files n (refundLots now ws entry left rows) := by
  induction rows generalizing left with
  | nil => exact .pure _
  | cons r rows ih =>
    obtain ⟨id, amount, lot⟩ := r
    have hamount : 0 ≤ amount := (hrows _ List.mem_cons_self).2
    have hrest : ∀ left, Files n (refundLots now ws entry left rows) :=
      fun left => ih left fun r hr => hrows r (List.mem_cons_of_mem _ hr)
    refine .ite (fun _ => .pure _) fun hleft =>
      Triple.bind (refundTarget_files (hrows _ List.mem_cons_self).1) fun target => ?_
    have htake : 0 ≤ min left amount := by omega
    intro w a w' ⟨m, hm, htarget, hw⟩ h
    obtain ⟨_, w₁, hpost, h⟩ := bind_ok.mp h
    have hw₁ : Filed m w₁ := insertLedgerAllocation_files (Nat.lt_of_lt_of_le hentry hm) htarget
      htake _ _ _ hw hpost
    exact (hrest _).bind (fun _ => .pure _) _ _ _ (hw₁.since hm) h

theorem aiRefundRun_files : Files 0 (aiRefundRun now runId amount reason key) := by
  refine .read_bind fun w hw => ?_
  have hrows : ∀ r ∈ w.chargesOf runId, r.1 < w.nextId ∧ 0 ≤ r.2.1 :=
    fun r hr => ⟨chargesOf_old hw runId r hr, chargesOf_nonneg hw runId r hr⟩
  cases w.replay key with
  | some id => exact .pure _
  | none =>
    cases w.runs.get runId with
    | none => exact .throw _
    | some run =>
      exact (Files.modify fun _ h => h.lock _).bind fun _ => Files.require.bind fun _ =>
        Files.require.bind fun _ => .after_ledger fun id hid =>
          (refundLots_files (Nat.lt_succ_self _) _ fun r hr =>
            ⟨Nat.lt_succ_of_le ((hrows r hr).1.le.trans hid), (hrows r hr).2⟩).bind fun _ =>
            (Files.modify fun _ h => h.project _).bind fun _ =>
              (Files.modify fun _ h => h.recordCommand key _).bind fun _ => .pure _

theorem retireLot_files {reason : String} {r : Id × Lot} (hr : r.1 < n) :
    Files n (retireLot reason r) := by
  unfold retireLot writeOff
  refine Files.bind (.ite (fun hfree => .after_ledger fun entry hid =>
    insertLedgerAllocation_files (Nat.lt_succ_self _) (Nat.lt_succ_of_le (hr.le.trans hid))
      hfree.le) fun _ => .pure _) fun _ => ?_
  refine updateLot_files fun l l' h _ hdepleted => ?_
  rw [(withAmounts_ok h).2.2.1] at hdepleted
  split at hdepleted <;> cases hdepleted

theorem aiExpireLots_files : Files 0 (aiExpireLots now) := by
  refine .read_bind fun w hw => Files.bind (Triple.forM fun r hr => ?_) fun _ => .pure _
  have hid : r.1 < w.nextId :=
    hw.lots_old r.1 r.2 (Table.get_eq_some_iff_mem.mpr (List.mem_filter.mp hr).1)
  exact (retireLot_files hid).bind fun _ => .modify fun _ h => h.project _

theorem Files.discard (h : Files n m) : Files n (discard m : WalletTx Unit) := by
  intro w a w' hw hm
  obtain ⟨b, hm⟩ := discard_ok hm
  exact h w b w' hw hm

theorem walletCommand_files (c : WalletCommand) : Files 0 (c.call now) := by
  cases c with
  | grantAllowance => exact aiGrantAllowance_files.discard
  | purchaseCredit => exact aiPurchaseCredit_files.discard
  | beginRun => exact aiBeginRun_files.discard
  | reserve => exact aiReserve_files.discard
  | topupReservation => exact aiTopupReservation_files.discard
  | releaseReservation id => exact aiReleaseReservation_files id
  | settleRun => exact aiSettleRun_files.discard
  | refundRun => exact aiRefundRun_files.discard
  | adjustBalance => exact aiAdjustBalance_files.discard
  | expireLots => exact aiExpireLots_files.discard

theorem Filed.step (hw : Filed 0 w) (c : Timestamp × WalletCommand) : Filed 0 (walletStep w c) :=
  commit_of_triple (walletCommand_files c.2) hw

end Kindred.AiWallet
