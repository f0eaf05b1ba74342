import Kindred.AiWallet.Effects

/-! What the commands write besides their keys, the runs and the settlements. -/

namespace Kindred.AiWallet
open Lib (Table)
open Lib.Tx

def Settlement.unposted (s : Settlement) : Settlement := { s with ledgerEntryId := none }

structure Wallet.SameBooks (w w' : Wallet) : Prop where
  commands : w'.commands = w.commands
  runs : w'.runs = w.runs
  settlements : ∀ run, (w'.settlements.get run).map Settlement.unposted =
    (w.settlements.get run).map Settlement.unposted

abbrev OffBooks {α : Type} (m : WalletTx α) (w : Wallet) : Prop := MadeOf Wallet.SameBooks m w

variable {now : Timestamp} {ws runId : Id} {w : Wallet}

theorem OffBooks.same {α : Type} {m : WalletTx α} (h : OffBooks m w) {r : α × Wallet}
    (hr : m w = .ok r) : w.SameBooks r.2 := by
  have hrun := h r hr
  generalize r.2 = w' at hrun
  induction hrun with
  | refl => exact ⟨rfl, rfl, fun _ => rfl⟩
  | tail _ hstep ih =>
    exact ⟨hstep.commands.trans ih.commands, hstep.runs.trans ih.runs,
      fun run => (hstep.settlements run).trans (ih.settlements run)⟩

theorem offBooks_write {f : Wallet → Wallet} (hcommands : (f w).commands = w.commands)
    (hruns : (f w).runs = w.runs) (hsettlements : (f w).settlements = w.settlements) :
    OffBooks (modify f) w :=
  .modify (.single ⟨hcommands, hruns, fun _ => by rw [hsettlements]⟩)

theorem lock_offBooks : OffBooks (modify (·.lock ws)) w := by
  obtain ⟨wallets, hlock⟩ := lock_eq w ws
  exact offBooks_write (by rw [hlock]) (by rw [hlock]) (by rw [hlock])

theorem project_offBooks : OffBooks (modify (·.project ws)) w := offBooks_write rfl rfl rfl

variable {lot : Lot} {id entry res : Id} {amount left charge : Int} {reservationId : Option Id}

theorem insertLot_offBooks : OffBooks (insertLot lot) w := by
  exact .get_bind (.set_bind (.single ⟨rfl, rfl, fun _ => rfl⟩) (.pure _))

theorem updateLot_offBooks {f : Lot → Option Lot} : OffBooks (updateLot id f) w := by
  refine .get_bind ?_
  split
  · exact .pure _
  · split
    · exact .throw _
    · exact .set (.single ⟨rfl, rfl, fun _ => rfl⟩)

theorem insertLedger_offBooks {entry : LedgerEntry} : OffBooks (insertLedger entry) w := by
  exact .get_bind (.set_bind (.single ⟨rfl, rfl, fun _ => rfl⟩) (.pure _))

theorem insertLedgerAllocation_offBooks {lot : Id} :
    OffBooks (insertLedgerAllocation entry lot amount) w :=
  offBooks_write rfl rfl rfl

theorem insertReservationAllocation_offBooks {lot : Id} :
    OffBooks (insertReservationAllocation res lot amount) w := by
  exact .get_bind (.require_bind fun _ => .set (.single ⟨rfl, rfl, fun _ => rfl⟩))

theorem fundLot_offBooks {entryType : EntryType} {reason : Option String} :
    OffBooks (fundLot lot entryType reason) w := by
  refine insertLot_offBooks.bind fun _ _ => insertLedger_offBooks.bind fun _ _ => ?_
  exact insertLedgerAllocation_offBooks.bind fun _ _ => .pure _

theorem allowanceLot_offBooks {amount : Option Int} {cycle : Option String} {source : String}
    {expiresAt : Option Timestamp} :
    OffBooks (allowanceLot now ws amount cycle source expiresAt) w := by
  refine .get_bind ?_
  split
  · exact .pure _
  · exact fundLot_offBooks.bind fun _ _ => .pure _

theorem holdLots_offBooks {lots : List (Id × Lot)} : OffBooks (holdLots res left lots) w := by
  induction lots generalizing left w with
  | nil => exact .pure _
  | cons r lots ih =>
    refine .ite (fun _ => .pure _) fun _ => .ite (fun _ => ?_) fun _ => ih
    exact updateLot_offBooks.bind fun _ _ => insertReservationAllocation_offBooks.bind fun _ _ => ih

theorem topup_offBooks {delta : Option Int} : OffBooks (aiTopupReservation now runId delta) w := by
  refine .get_bind ?_
  split
  · exact .pure _
  · split
    · exact .pure _
    · refine lock_offBooks.bind fun _ _ => holdLots_offBooks.bind fun _ _ => ?_
      have hsum : ∀ {w : Wallet} {id : Id}, OffBooks (modify (·.sumReservation id)) w :=
        fun {_ _} => offBooks_write rfl rfl rfl
      exact hsum.bind fun _ _ => project_offBooks.bind fun _ _ => .pure _

theorem fundCharge_offBooks : OffBooks (fundCharge now runId reservationId charge) w := by
  refine .ite (fun _ => ?_) fun _ => .pure _
  split
  · exact .pure _
  · refine .get_bind ?_
    split
    · exact .pure _
    · refine .ite (fun _ => topup_offBooks.bind fun _ _ => ?_) fun _ => .pure _
      exact .ite (fun _ => .pure _) fun _ => .pure _

theorem chargeLots_offBooks {rows : List (Id × Int)} : OffBooks (chargeLots entry left rows) w := by
  induction rows generalizing left w with
  | nil => exact .pure _
  | cons r rows ih =>
    refine .ite (fun _ => .pure _) fun _ => updateLot_offBooks.bind fun _ _ => ?_
    exact insertLedgerAllocation_offBooks.bind fun _ _ => ih

theorem postCharge_offBooks {run : Run} {cycle : String} :
    OffBooks (postCharge run runId cycle charge) w := by
  refine .ite (fun _ => insertLedger_offBooks.bind fun _ _ => .get_bind ?_) fun _ => .pure _
  refine chargeLots_offBooks.bind fun _ _ => .modify (.single ⟨rfl, rfl, fun run => ?_⟩)
  simp only [Table.get_update]
  split
  · rename_i hrun
    rw [hrun, Option.map_map]
    rfl
  · rfl

theorem release_offBooks : OffBooks (aiReleaseReservation id) w := by
  refine .get_bind ?_
  split
  · exact .pure _
  · refine lock_offBooks.bind fun _ _ => ?_
    refine MadeOf.bind (.forM (fun a _ s => updateLot_offBooks) _) fun _ _ => ?_
    refine (offBooks_write rfl rfl rfl).bind fun _ _ => project_offBooks.bind fun _ _ => ?_
    exact (offBooks_write rfl rfl rfl).bind fun _ _ => project_offBooks

theorem closeReservation_offBooks : OffBooks (closeReservation reservationId) w := by
  cases reservationId with
  | none => exact .pure _
  | some id => exact release_offBooks.bind fun _ _ => offBooks_write rfl rfl rfl

theorem refundLots_offBooks {rows : List (Id × Int × Lot)} :
    OffBooks (refundLots now ws entry left rows) w := by
  induction rows generalizing left w with
  | nil => exact .pure _
  | cons r rows ih =>
    unfold refundLots refundTarget
    refine .ite (fun _ => .pure _) fun _ => MadeOf.bind ?_ fun _ _ => ?_
    · refine .ite (fun _ => .require_bind fun _ => insertLot_offBooks) fun _ => ?_
      exact updateLot_offBooks.bind fun _ _ => .pure _
    · exact insertLedgerAllocation_offBooks.bind fun _ _ => ih.bind fun _ _ => .pure _

theorem expireLots_offBooks : OffBooks (aiExpireLots now) w := by
  refine .get_bind (MadeOf.bind (.forM (fun r _ s => ?_) _) fun _ _ => .pure _)
  have hoff : OffBooks (writeOff "lot_expired" r.1 r.2) s := by
    refine .ite (fun _ => insertLedger_offBooks.bind fun _ _ => ?_) fun _ => .pure _
    exact insertLedgerAllocation_offBooks
  unfold expireLot retireLot
  exact (hoff.bind fun _ _ => updateLot_offBooks).bind fun _ _ => project_offBooks

end Kindred.AiWallet
