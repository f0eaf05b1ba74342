import Kindred.Billing.Cycles
import Kindred.AiWallet.Refunding

/-! Refunds of AI runs, after any past of the billing database. -/

namespace Kindred.Billing
open AiWallet (RefundCall RefundsRouted refundStep asked reached Run)
open Lib (run grants Fits)

/-- A refund can all be spent exactly when each lot it reaches takes it back: an allowance,
expired or not, or another lot of the workspace that has not expired. -/
theorem refund_spendable (past : List (Timestamp × Operation)) (now : Timestamp) (runId entry : Id)
    (r : Run) (amount : Option Int) (reason key : Option String) (refunded : Int)
    (w' : AiWallet.Wallet) :
    let w := (run Db.step .empty past).wallet
    w.runs.get runId = some r →
    AiWallet.aiRefundRun now runId amount reason key w = .ok (.refunded entry refunded, w') →
    (w'.availableBalance now r.workspaceId = w.availableBalance now r.workspaceId + refunded ↔
      ∀ p ∈ reached (w.refundFor runId amount) (w.chargesOf runId), 0 < p.2 →
        p.1.2.2.takesBack now r.workspaceId) := by
  intro w hrun h
  have hw : AiWallet.Filed 0 w := walletFiled_run past
  obtain ⟨hrefunded, hbalance⟩ := AiWallet.refund_balance hw hrun h
  rw [hbalance, hrefunded, Int.add_right_inj]
  exact Lib.total_eq_sum_iff (AiWallet.reached_nonneg hw runId _)

def afterRefund (w : AiWallet.Wallet) (now : Timestamp) (runId : Id) (amount : Int) :
    AiWallet.Wallet :=
  Lib.Tx.commit (AiWallet.aiRefundRun now runId (some amount) none none) w

/-- Fifty of a purchased hundred are refunded, and are there to spend. -/
theorem refund_spendable_purchased :
    let w := (run Db.step .empty
      [(0, .aiWallet (.purchaseCredit 9 (some 100) none none)),
       (2, .aiWallet (.beginRun 9 "op" "h" (some .enforced))),
       (3, .aiWallet (.reserve 9 (some 2) (some 100) none)),
       (4, .aiWallet (.settleRun 2 none none none (some 100) none))]).wallet
    (afterRefund w 5 2 50).availableBalance 5 9 = w.availableBalance 5 9 + 50 := by
  intro w
  obtain ⟨r, hr⟩ : ∃ r, w.runs.get 2 = some r := Option.isSome_iff_exists.mp (by decide +kernel)
  have hws : ∀ r ∈ w.runs.get 2, r.workspaceId = 9 := by decide +kernel
  have hcall : AiWallet.aiRefundRun 5 2 (some 50) none none w =
      .ok (.refunded 6 50, afterRefund w 5 2 50) := by decide +kernel
  have h := refund_spendable _ 5 2 6 r (some 50) none none 50 _ hr hcall
  rw [hws r hr] at h
  exact h.mpr (by decide +kernel)

/-- An allowance paid a run and expired, so its refund was new credit of the month; that
paid another run and expired in turn. The refund of the second run is lost in it. -/
theorem expired_compensation_swallows :
    ¬∀ (past : List (Timestamp × Operation)) (now : Timestamp) (runId entry : Id) (r : Run)
      (amount : Option Int) (reason key : Option String) (refunded : Int) (w' : AiWallet.Wallet),
      let w := (run Db.step .empty past).wallet
      w.runs.get runId = some r →
      AiWallet.aiRefundRun now runId amount reason key w = .ok (.refunded entry refunded, w') →
      w'.availableBalance now r.workspaceId = w.availableBalance now r.workspaceId + refunded := by
  intro h
  let past : List (Timestamp × Operation) :=
    [(0, .aiWallet (.grantAllowance 9 (some 100) (some "1970-01") none (some 10) none)),
     (1, .aiWallet (.beginRun 9 "a" "h" (some .enforced))),
     (2, .aiWallet (.reserve 9 (some 2) (some 100) none)),
     (3, .aiWallet (.settleRun 2 none none none (some 100) none)),
     (11, .aiWallet (.refundRun 2 (some 100) none none)),
     (12, .aiWallet (.beginRun 9 "b" "h" (some .enforced))),
     (13, .aiWallet (.reserve 9 (some 8) (some 100) none)),
     (14, .aiWallet (.settleRun 8 none none none (some 100) none))]
  let w := (run Db.step .empty past).wallet
  let now : Timestamp := 31 * Lib.Calendar.day
  obtain ⟨r, hr⟩ : ∃ r, w.runs.get 8 = some r := Option.isSome_iff_exists.mp (by decide +kernel)
  have hws : ∀ r ∈ w.runs.get 8, r.workspaceId = 9 := by decide +kernel
  have hcall : AiWallet.aiRefundRun now 8 (some 100) none none w =
      .ok (.refunded 12 100, afterRefund w now 8 100) := by decide +kernel
  have hspend := h past now 8 12 r (some 100) none none 100 _ hr hcall
  rw [hws r hr] at hspend
  revert hspend
  decide +kernel

end Kindred.Billing
