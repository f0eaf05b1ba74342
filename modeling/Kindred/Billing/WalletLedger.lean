import Kindred.Billing.Statements
import Kindred.AiWallet.LotLedger

/-! The AI wallet's ledger, through its own commands and through what billing
buys, grants and takes back. -/

namespace Kindred.Billing
open AiWallet (Wallet LedgerSound LedgerEntry KeepsExpiring LotsMatchLedger)
open Lib (Table Meets run run_keeps)
open Lib.Tx

variable {w w' : Wallet} {db db' : Db}

variable {workspaceId : Id} {r : Unit × Wallet}

theorem calendarLots_ledger (hw : LedgerSound w) (h : retireCalendarLots workspaceId w = .ok r)
    : LedgerSound r.2 := by
  obtain ⟨_, w₁, hlock, h⟩ := bind_ok.mp h
  cases modify_ok.mp hlock
  obtain ⟨wallets, hlock⟩ := AiWallet.lock_eq w workspaceId
  rw [get_bind, hlock] at h
  have hw₁ : LedgerSound { w with wallets := wallets } := hw.frame rfl rfl rfl hw.positive le_rfl
  obtain ⟨_, w₂, hloop, h⟩ := bind_ok.mp h
  have hw₂ : LedgerSound w₂ := AiWallet.retireAll_ledger
    (fun _ _ _ hw hlot _ h => AiWallet.retireLot_ledger hw hlot h) hw₁
    (fun r hr => Table.get_eq_some_iff_mem.mpr (List.mem_filter.mp hr).1)
    (w.lots.keys_nodup.sublist (List.filter_sublist.map _)) hloop
  rcases ite_ok.mp h with ⟨-, h⟩ | ⟨-, h⟩
  · cases pure_ok.mp h
    exact hw₂
  · cases modify_ok.mp h
    exact hw₂.frame rfl rfl rfl hw₂.positive le_rfl

theorem reclaimCredit_ledger {lotId : Id} {amount : Int} {key : String} (hw : LedgerSound w)
    (hlot : (w.lots.get lotId).isSome) (hpos : 0 < amount)
    (h : reclaimCredit workspaceId lotId amount key w = .ok r) : LedgerSound r.2 := by
  simp only [reclaimCredit, AiWallet.insertLedger, AiWallet.insertLedgerAllocation, bind_assoc,
    pure_bind] at h
  rw [get_bind, set_bind, modify_bind] at h
  obtain ⟨_, w₁, hup, h⟩ := bind_ok.mp h
  rw [modify_bind] at h
  cases modify_ok.mp h
  obtain ⟨table, hw₁, ⟨hnone, -⟩ | ⟨l, l', hget, hf, rfl⟩⟩ := AiWallet.updateLot_ok hup
  · simp only at hnone
    rw [hnone] at hlot
    cases hlot
  simp only at hw₁ hget
  generalize hentry : (LedgerEntry.mk workspaceId none .adjustment (-amount) _ _) = entry at hw₁
  have hsign : entry.sign = -1 := by
    rw [← hentry]
    simp only [LedgerEntry.sign]
    rw [if_neg (by omega)]
  have hw₂ : LedgerSound w₁ := by
    rw [hw₁]
    refine hw.post le_rfl (Nat.lt_succ_self _) (by simp) rfl rfl ?_ (fun {j x} hx => ?_) hw.positive
    · have := hw.lots_old hget
      simp
      lia
    · rw [Table.get_put] at hx
      split at hx
      · rename_i hj
        cases hx
        refine ⟨l, hj ▸ hget, ?_⟩
        simp [hj, hsign, (AiWallet.withAmounts_ok hf).1]
        omega
      · rename_i hj
        exact ⟨x, hx, by simp [Ne.symm hj]⟩
  obtain ⟨commands, hrecord⟩ := AiWallet.recordCommand_eq w₁ (some key)
    { commandType := .adjustment, workspaceId, resultRef := w.nextId }
  simp only [hrecord]
  exact hw₂.frame rfl rfl rfl hw₂.positive le_rfl

theorem WalletStatement.ledger (h : WalletStatement w w') (hw : LedgerSound w) : LedgerSound w' := by
  cases h with
  | locked workspaceId =>
    obtain ⟨wallets, hlock⟩ := AiWallet.lock_eq w workspaceId
    rw [hlock]
    exact hw.frame rfl rfl rfl hw.positive le_rfl
  | superseded h => exact calendarLots_ledger hw h
  | granted h =>
    exact AiWallet.funds_ledger hw (fun _ he _ => by simp [LedgerEntry.sign, he])
      (AiWallet.grantAllowance_ok h)
  | purchased h =>
    exact AiWallet.funds_ledger hw (fun _ he _ => by simp [LedgerEntry.sign, he])
      (AiWallet.purchaseCredit_ok h)
  | reclaimed hlot hpos h => exact reclaimCredit_ledger hw hlot hpos h

theorem Statement.walletLedger {may : Right → Prop} (h : Statement may db db') (hw : LedgerSound db.wallet) :
    LedgerSound db'.wallet := by
  cases h with
  | money h =>
    cases h with
    | wallet h => exact h.ledger hw
    | _ => exact hw
  | _ => exact hw

/-- A command of the AI wallet that empties no expiring lot without a ledger row;
billing's functions never do. -/
def LedgerKept (db : Db) (c : Timestamp × Operation) : Prop :=
  match c.2 with
  | .aiWallet command => KeepsExpiring db.wallet (c.1, command)
  | _ => True

instance (db : Db) (c : Timestamp × Operation) : Decidable (LedgerKept db c) := by
  unfold LedgerKept
  split <;> infer_instance

theorem step_wallet (db : Db) (now : Timestamp) (command : AiWallet.WalletCommand) :
    (db.step (now, .aiWallet command)).wallet = AiWallet.walletStep db.wallet (now, command) := by
  unfold Db.step AiWallet.walletStep commit
  simp only [Operation.call, onWallet]
  rw [get_bind]
  cases command.call now db.wallet <;> rfl

theorem step_ledger (hw : LedgerSound db.wallet) {c : Timestamp × Operation}
    (hc : LedgerKept db c) : LedgerSound (db.step c).wallet := by
  by_cases hop : ∀ command, c.2 ≠ .aiWallet command
  · have hstep : ∀ db db', Statement (fun _ => True) db db' → LedgerSound db.wallet → LedgerSound db'.wallet :=
      fun _ _ h => h.walletLedger
    exact (call_made c.2 hop (fun _ => trivial) (fun _ => trivial) fun _ => trivial).keeps hstep hw
  · simp only [not_forall, not_not] at hop
    obtain ⟨now, op⟩ := c
    obtain ⟨command, rfl⟩ := hop
    rw [step_wallet]
    exact AiWallet.walletStep_ledger hw hc

/-- In every run that lets no reservation's end empty a lot, what remains of each
lot is what the ledger says. -/
theorem lots_match_ledger {calls : List (Timestamp × Operation)}
    (h : Meets Db.step LedgerKept .empty calls) :
    LotsMatchLedger (run Db.step .empty calls).wallet := by
  have hkeeps : ∀ db c, LedgerSound db.wallet → LedgerKept db c → LedgerSound (db.step c).wallet :=
    fun _ _ hw hc => step_ledger hw hc
  exact (run_keeps hkeeps AiWallet.ledgerSound_empty h).lotsMatchLedger

/-- A pack is bought, some of its credit held and given back, and it is reversed. -/
theorem lots_match_ledger_pack :
    let pack : Pack :=
      { currency := "IRR", id := "p", priceMinor := .number 1000 0, creditMinor := .number 500 0 }
    LotsMatchLedger (run Db.step .empty
      [(0, .editSettings { region := .iran, packs := [pack] }),
       (0, .adminAdjust 9 (some 5000) (some "IRR") (some "opening") none (some "k") (some "test")
         none),
       (1, .buyAiPack 9 (some "p") none "b" none),
       (2, .aiWallet (.reserve 9 none (some 60) none)), (3, .aiWallet (.releaseReservation 2)),
       (4, .aiPackReverse 9 1 (some 400) (.aiPackReturnRefund "x:r") "r" "x")]).wallet := by
  intro pack
  exact lots_match_ledger (by decide +kernel)

/-- Sixty of an allowance of a hundred are held when it expires. Releasing them
empties the lot, and no ledger row says so. -/
theorem release_empties_expiring :
    ¬∀ calls : List (Timestamp × Operation), LotsMatchLedger (run Db.step .empty calls).wallet := by
  intro h
  have hlot := h [(0, .aiWallet (.grantAllowance 9 (some 100) (some "2026-01") none (some 10) none)),
    (0, .aiWallet (.reserve 9 none (some 60) none)), (11, .aiWallet .expireLots),
    (12, .aiWallet (.releaseReservation 2))] 0
  revert hlot
  decide +kernel

end Kindred.Billing
