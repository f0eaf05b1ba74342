import Kindred.AiWallet.Books
import Kindred.AiWallet.Holds

/-! What a settlement does to the books, and when it goes through. -/

namespace Kindred.AiWallet
open Lib (Table)
open Lib.Tx

section Books
variable {now : Timestamp} {runId : Id} {key : Option String} {usd irr charge : Option Int}
  {cycle : Option String} {w w' w'' : Wallet}

theorem Wallet.SameBooks.trans (h : w.SameBooks w') (h' : w'.SameBooks w'') : w.SameBooks w'' :=
  ⟨h'.commands.trans h.commands, h'.runs.trans h.runs,
    fun run => (h'.settlements run).trans (h.settlements run)⟩

theorem Wallet.SameBooks.replay (h : w.SameBooks w') (key : Option String) :
    w'.replay key = w.replay key := by
  simp only [Wallet.replay, h.commands]

theorem recordCommand_replay_ne {key' : Option String} {c : Command} (h : key' ≠ key) :
    (w.recordCommand key c).replay key' = w.replay key' := by
  unfold Wallet.recordCommand Wallet.replay
  cases key with
  | none => rfl
  | some k =>
    dsimp only
    split
    · rfl
    · cases key' with
      | none => rfl
      | some k' => simp [Table.get_put_ne _ _ fun hk : k' = k => h (hk ▸ rfl)]

structure Wallet.Settles (w : Wallet) (runId : Id) (key : Option String) (irr : Option Int)
    (w' : Wallet) : Prop where
  replay : w.replay key = none
  unsettled : w.settlements.get runId = none
  status : (w'.runs.get runId).map (·.status) = some .settled
  runs : ∀ id, id ≠ runId → w'.runs.get id = w.runs.get id
  cost : (w'.settlements.get runId).map (·.internalCostIrr) = some (irr.getD 0)
  settlements : ∀ id, id ≠ runId → (w'.settlements.get id).map Settlement.unposted =
    (w.settlements.get id).map Settlement.unposted
  replays : ∀ key', key' ≠ key → w'.replay key' = w.replay key'

/-- It is a replay, or it settles. -/
theorem settle_books {r : SettleResult × Wallet}
    (h : aiSettleRun now runId key usd irr charge cycle w = .ok r) :
    r.2 = w ∧ ((w.replay key).isSome ∨ (w.settlements.get runId).isSome) ∨
      w.Settles runId key irr r.2 := by
  rw [aiSettleRun, get_bind] at h
  cases hkey : w.replay key with
  | some id =>
    simp only [hkey] at h
    cases pure_ok.mp h
    exact .inl ⟨rfl, .inl rfl⟩
  | none =>
    cases hrun : w.runs.get runId with
    | none =>
      simp only [hkey, hrun] at h
      exact (throw_ok.mp h).elim
    | some run =>
      cases hset : w.settlements.get runId with
      | some s =>
        simp only [hkey, hrun, hset] at h
        cases pure_ok.mp h
        exact .inl ⟨rfl, .inr rfl⟩
      | none =>
        simp only [hkey, hrun, hset] at h
        obtain ⟨_, w₁, hlock, h⟩ := bind_ok.mp h
        obtain ⟨⟨paid, absorbed⟩, w₂, hfund, h⟩ := bind_ok.mp h
        obtain ⟨settlement, w₃, hinsert, h⟩ := bind_ok.mp h
        obtain ⟨_, w₄, hpost, h⟩ := bind_ok.mp h
        obtain ⟨_, w₅, hclose, h⟩ := bind_ok.mp h
        rw [modify_bind, modify_bind, get_bind, modify_bind] at h
        cases pure_ok.mp h
        have hbefore : w.SameBooks w₂ := (lock_offBooks.same hlock).trans (fundCharge_offBooks.same hfund)
        have hafter : w₃.SameBooks w₅ :=
          (postCharge_offBooks.same hpost).trans (closeReservation_offBooks.same hclose)
        unfold insertSettlement at hinsert
        rw [get_bind, set_bind] at hinsert
        cases pure_ok.mp hinsert
        obtain ⟨commands, hrecord⟩ := recordCommand_eq
          ({ w₅ with runs := w₅.runs.update runId fun r => { r with
            status := .settled, providerCostUsd := usd.getD 0, internalCostIrr := irr.getD 0
            customerChargeIrr := paid, platformAbsorbed := r.platformAbsorbed + absorbed } }.project
              run.workspaceId) key ⟨.settleRun, run.workspaceId, runId, w₂.nextId⟩
        have hruns : w₅.runs = w.runs := hafter.runs.trans hbefore.runs
        refine .inr ⟨hkey, hset, ?_, fun id hid => ?_, ?_, fun id hid => ?_, fun key' hne => ?_⟩
        · rw [hrecord]
          simp [Wallet.project, hruns, hrun]
        · rw [hrecord]
          simp [Wallet.project, hruns, Table.get_update_ne _ _ hid]
        · rw [hrecord]
          have hcost := congrArg (Option.map (·.internalCostIrr)) (hafter.settlements runId)
          simpa [Wallet.project, Function.comp_def, Settlement.unposted] using hcost
        · rw [hrecord]
          have hother := hafter.settlements id
          rw [Table.get_put_ne _ _ hid, hbefore.settlements id] at hother
          exact hother
        · rw [recordCommand_replay_ne hne]
          exact (hafter.replay key').trans (hbefore.replay key')

end Books

structure Wallet.Covered (w : Wallet) : Prop where
  reserved : ∀ id l, w.lots.get id = some l →
    allocatedOn id w.reservationAllocations ≤ l.reservedAmount
  positive : ∀ a ∈ w.reservationAllocations, 0 < a.amount

variable {id res : Id} {l l' : Lot} {x left charge : Int}

section Successes
variable {now : Timestamp} {runId : Id} {w w' : Wallet} {E : WalletError → Prop}
  {Q : Unit → Wallet → Prop} {run : Run} {reservationId : Option Id}

theorem Wallet.Covered.frame (h : w.Covered) (hlots : w'.lots = w.lots)
    (hallocations : w'.reservationAllocations = w.reservationAllocations) : w'.Covered := by
  refine ⟨fun id l hl => ?_, fun a ha => ?_⟩
  · rw [hallocations]
    exact h.reserved id l (hlots ▸ hl)
  · exact h.positive a (hallocations ▸ ha)

theorem updateLot_runs {f : Lot → Option Lot} (hl : w.lots.get id = some l) (hf : f l = some l')
    (hQ : Q () { w with lots := w.lots.put id l' }) :
    Runs E (updateLot id f) w Q := by
  refine .bind (.get ?_)
  rw [hl]
  dsimp only
  rw [hf]
  exact .set hQ

theorem insertReservationAllocation_runs {lot : Id} {amount : Int}
    (hres : (w.reservations.get res).isSome) (hQ : Q () { w with
      reservationAllocations := w.reservationAllocations ++ [⟨res, lot, amount⟩] }) :
    Runs E (insertReservationAllocation res lot amount) w Q := by
  unfold insertReservationAllocation require
  refine .bind (.get (.bind (.ite (fun _ => .pure (.set hQ)) fun h => absurd hres h)))

theorem Lot.hold_free (hx : 0 < x) (hfree : x ≤ l.free) :
    ∃ l', Lot.hold x l = some l' ∧ l'.reservedAmount = l.reservedAmount + x := by
  have hsane := l.amounts_sane
  unfold Lot.free at hfree
  unfold Lot.hold Lot.withAmounts
  rw [dif_pos ⟨by omega, by omega⟩]
  exact ⟨_, rfl, rfl⟩

theorem Wallet.Covered.hold (hw : w.Covered) (hx : 0 < x) (hl : w.lots.get id = some l)
    (hl' : l'.reservedAmount = l.reservedAmount + x) : Wallet.Covered { w with
      lots := w.lots.put id l'
      reservationAllocations := w.reservationAllocations ++ [⟨res, id, x⟩] } := by
  refine ⟨fun k m hm => ?_, fun a ha => ?_⟩
  · simp only [allocatedOn, Lib.total_append, Lib.total_cons, Lib.total_nil]
    rw [Table.get_put] at hm
    split at hm
    · rename_i hk
      cases hm
      have hle := hw.reserved id l hl
      simp only [allocatedOn] at hle
      simp only [hk, if_true]
      omega
    · rename_i hk
      have hle := hw.reserved k m hm
      simp only [allocatedOn] at hle
      rw [if_neg fun h => hk h.symm]
      omega
  · rcases List.mem_append.mp ha with ha | ha
    · exact hw.positive a ha
    · rw [List.mem_singleton.mp ha]
      exact hx

theorem holdLots_runs {lots : List (Id × Lot)} (hw : w.Covered)
    (hres : (w.reservations.get res).isSome) (hlots : ∀ r ∈ lots, w.lots.get r.1 = some r.2)
    (hnodup : (lots.map Prod.fst).Nodup) :
    Runs E (holdLots res left lots) w fun _ w' => w'.Covered := by
  induction lots generalizing left w with
  | nil => exact .pure hw
  | cons lot lots ih =>
    obtain ⟨id, l⟩ := lot
    have hl := hlots _ List.mem_cons_self
    obtain ⟨hid, hnodup⟩ := List.nodup_cons.mp hnodup
    have hrest : ∀ r ∈ lots, w.lots.get r.1 = some r.2 := fun r hr =>
      hlots r (List.mem_cons_of_mem _ hr)
    refine .ite (fun _ => .pure hw) fun _ => .ite (fun hfree => ?_) fun _ =>
      ih hw hres hrest hnodup
    obtain ⟨l', hhold, hreserved⟩ := Lot.hold_free hfree (min_le_right left l.free)
    refine .bind (updateLot_runs hl hhold (.bind (insertReservationAllocation_runs hres ?_)))
    refine ih (hw.hold hfree hl hreserved) hres (fun r hr => ?_) hnodup
    have hne : r.1 ≠ id := fun h => hid (List.mem_map.mpr ⟨r, hr, h⟩)
    exact (Table.get_put_ne _ _ hne).trans (hrest r hr)

theorem topup_runs {delta : Option Int} (hw : w.Covered) (hrun : w.runs.get runId = some run)
    (hres : run.reservationId.all fun id => (w.reservations.get id).isSome) :
    Runs E (aiTopupReservation now runId delta) w fun _ w' => w'.Covered := by
  refine .bind (.get ?_)
  rw [hrun]
  dsimp only
  cases hid : run.reservationId with
  | none => exact .pure hw
  | some id =>
    rw [hid] at hres
    obtain ⟨wallets, hlock⟩ := lock_eq w run.workspaceId
    refine .bind (.modify (.bind ?_))
    rw [hlock]
    have hlocked : Wallet.Covered { w with wallets } := hw.frame rfl rfl
    refine (holdLots_runs hlocked hres spendable_get spendable_nodup).mono fun left w' hw' => ?_
    exact .bind (.modify (.bind (.modify (.pure (hw'.frame rfl rfl)))))

theorem fundCharge_runs (hw : w.Covered) (hrun : w.runs.get runId = some run)
    (hid : run.reservationId = reservationId) :
    Runs E (fundCharge now runId reservationId charge) w fun _ w' => w'.Covered := by
  refine .ite (fun _ => ?_) fun _ => .pure hw
  cases reservationId with
  | none => exact .pure hw
  | some id =>
    refine .bind (.get ?_)
    cases hres : w.reservations.get id with
    | none => exact .pure hw
    | some r =>
      refine .ite (fun _ => .bind ?_) fun _ => .pure hw
      have hisSome : run.reservationId.all fun id => (w.reservations.get id).isSome := by
        rw [hid]
        simp [hres]
      refine (topup_runs hw hrun hisSome).mono fun added w' hw' => ?_
      exact .ite (fun _ => .pure hw') fun _ => .pure hw'

/-- The lots have what they are charged. -/
theorem chargeLots_runs {entry : Id} {rows : List (Id × Int)} (hpos : ∀ r ∈ rows, 0 < r.2)
    (hshare : ∀ id l, w.lots.get id = some l → Lib.share id rows ≤ l.remainingAmount) :
    Runs E (chargeLots entry left rows) w fun _ w' =>
      w'.reservationAllocations = w.reservationAllocations := by
  induction rows generalizing left w with
  | nil => exact .pure rfl
  | cons r rows ih =>
    obtain ⟨lotId, amount⟩ := r
    have hamount : 0 < amount := hpos _ List.mem_cons_self
    have hrest : ∀ r ∈ rows, 0 < r.2 := fun r hr => hpos r (List.mem_cons_of_mem _ hr)
    have hnonneg (id : Id) : 0 ≤ Lib.share id rows :=
      Lib.share_nonneg fun p hp => (hrest p hp).le
    refine .ite (fun _ => .pure rfl) fun hleft => .bind ?_
    cases hl : w.lots.get lotId with
    | none =>
      refine .bind (.get ?_)
      rw [hl]
      refine .pure (.bind (.modify (ih hrest fun id l hl' => ?_)))
      have hle := hshare id l hl'
      rw [Lib.share_cons] at hle
      split at hle <;> omega
    | some l =>
      have hle := hshare lotId l hl
      have hrestShare := hnonneg lotId
      simp only [Lib.share_cons, if_true] at hle
      have hsane := l.amounts_sane
      have hcharge : ∃ l', Lot.charge (min left amount) l = some l' ∧
          l'.remainingAmount = l.remainingAmount - min left amount := by
        unfold Lot.charge Lot.withAmounts
        rw [dif_pos ⟨by omega, by omega⟩]
        exact ⟨_, rfl, rfl⟩
      obtain ⟨l', hcharge, hremaining⟩ := hcharge
      refine updateLot_runs hl hcharge (.bind (.modify (ih hrest fun id m hm => ?_)))
      rw [Table.get_put] at hm
      split at hm
      · rename_i hid
        cases hm
        rw [hid]
        omega
      · have hother := hshare id m hm
        rw [Lib.share_cons] at hother
        split at hother <;> omega

theorem postCharge_runs {cycle : String} (hw : w.Covered) :
    Runs E (postCharge run runId cycle charge) w fun _ w' =>
      w'.reservationAllocations = w.reservationAllocations := by
  unfold postCharge insertLedger
  refine .ite (fun _ => .bind (.bind (.get (.bind (.set (.pure (.bind (.get (.bind ?_)))))))))
    fun _ => .pure rfl
  have hcharge (allocations : List ReservationAllocation)
      (hpos : ∀ a ∈ allocations, 0 < a.amount)
      (hle : ∀ id, allocatedOn id allocations ≤ allocatedOn id w.reservationAllocations)
      (entry : Id) (w₁ : Wallet) (hlots : w₁.lots = w.lots)
      (hsame : w₁.reservationAllocations = w.reservationAllocations) :
      Runs E (chargeLots entry charge (w₁.chargeOrder allocations)) w₁ fun _ w' =>
        w'.reservationAllocations = w.reservationAllocations := by
    refine (chargeLots_runs (chargeOrder_pos hpos) fun id l hl => ?_).mono fun _ w' hw' =>
      hw'.trans hsame
    rw [share_chargeOrder hl]
    have hreserved := hw.reserved id l (hlots ▸ hl)
    have hsane := l.amounts_sane.2
    have hallocated := hle id
    omega
  refine Runs.mono (hcharge _ ?_ ?_ _ _ ?_ ?_) fun _ w' hw' => Runs.modify hw'
  · intro a ha
    cases hid : run.reservationId with
    | none =>
      rw [hid] at ha
      cases ha
    | some res =>
      rw [hid] at ha
      exact hw.positive a (List.mem_filter.mp ha).1
  · intro id
    cases run.reservationId with
    | none => exact Lib.total_nonneg fun a ha _ => (hw.positive a ha).le
    | some res => exact allocatedOn_filter_le hw.positive res id
  · rfl
  · rfl

theorem giveBacks_runs {allocations : List ReservationAllocation}
    (hpos : ∀ a ∈ allocations, 0 < a.amount) :
    Runs E (allocations.forM giveBack) w fun _ _ => True := by
  induction allocations generalizing w with
  | nil => exact .pure trivial
  | cons a allocations ih =>
    have hamount := hpos a List.mem_cons_self
    refine .bind ?_
    cases hl : w.lots.get a.lotId with
    | none =>
      refine .bind (.get ?_)
      rw [hl]
      exact .pure (ih fun b hb => hpos b (List.mem_cons_of_mem _ hb))
    | some l =>
      have hsane := l.amounts_sane
      have hback : ∃ l', Lot.giveBack a.amount l = some l' := by
        unfold Lot.giveBack Lot.withAmounts
        rw [dif_pos ⟨by omega, by omega⟩]
        exact ⟨_, rfl⟩
      obtain ⟨l', hback⟩ := hback
      exact updateLot_runs hl hback (ih fun b hb => hpos b (List.mem_cons_of_mem _ hb))

theorem closeReservation_runs (hpos : ∀ a ∈ w.reservationAllocations, 0 < a.amount) :
    Runs E (closeReservation reservationId) w fun _ _ => True := by
  cases reservationId with
  | none => exact .pure trivial
  | some id =>
    refine .bind (.bind (.get ?_))
    cases w.reservations.get id with
    | none => exact .pure (.modify trivial)
    | some r =>
      refine .bind (.modify (.bind ?_))
      refine (giveBacks_runs fun a ha => hpos a (List.mem_filter.mp ha).1).mono fun _ _ _ => ?_
      exact .bind (.modify (.bind (.modify (.bind (.modify (.modify (.modify trivial)))))))

theorem aiSettleRun_succeeds {key : Option String} {usd irr charge : Option Int}
    {cycle : Option String} (hw : w.Covered) (hrun : w.runs.get runId = some run)
    (hkey : w.replay key = none) (hset : w.settlements.get runId = none) :
    Succeeds (aiSettleRun now runId key usd irr charge cycle) w := by
  refine Runs.succeeds (Q := fun _ _ => True) ?_
  refine .bind (.get ?_)
  simp only [hkey, hrun, hset]
  obtain ⟨wallets, hlock⟩ := lock_eq w run.workspaceId
  refine .bind (.modify (.bind ?_))
  rw [hlock]
  have hlocked : Wallet.Covered { w with wallets } := hw.frame rfl rfl
  refine (fundCharge_runs hlocked hrun rfl).mono fun paid w₁ hw₁ => ?_
  refine .bind (.bind (.get (.bind (.set (.pure (.bind ?_))))))
  refine Runs.mono (postCharge_runs (hw₁.frame rfl rfl)) fun _ w₂ hallocations => ?_
  have hpos : ∀ a ∈ w₂.reservationAllocations, 0 < a.amount := fun a ha =>
    hw₁.positive a (hallocations ▸ ha)
  refine .bind (Runs.mono (closeReservation_runs hpos) fun _ w₃ _ => ?_)
  exact .bind (.modify (.bind (.modify (.bind (.get (.bind (.modify (.pure trivial))))))))

end Successes

end Kindred.AiWallet
