import Kindred.Billing.NextCharge
import Kindred.Billing.Refunds
import Mathlib.Algebra.BigOperators.Ring.List

/-! A payment refunded in full, in parts: when all of what it credited is taken back. -/

namespace Kindred.Billing
open AiWallet (Wallet Lot)
open Lib (Table Meets run run_keeps meets_of_forall)
open Lib.Tx

variable {now : Timestamp} {ws : Id} {db db' : Db} {paymentId : Id} {refundId : String}
  {amount : Int} {pay : Payment} {credit : Int}

def ReturnKeys (db : Db) : Prop :=
  ∀ key, (db.ledger.get (.aiPackReturnRefund key)).isSome ∨
    (db.ledger.get (.prepaidReturnRefund key)).isSome → (db.ledger.get (.refund key)).isSome

theorem returnKeys_write (h : Statement (· ≠ .reversal) db db') (hdb : ReturnKeys db) :
    ReturnKeys db' := by
  have hput : ∀ {k : Key} {row : LedgerRow}, k.ofReturn = false →
      ReturnKeys { db with ledger := db.ledger.put k row } := by
    intro k row hk key hkey
    simp only [isSome_put] at hkey ⊢
    refine .inr (hdb key ?_)
    rcases hkey with (he | hkey) | (he | hkey)
    · rw [← he] at hk
      cases hk
    · exact .inl hkey
    · rw [← he] at hk
      cases hk
    · exact .inr hkey
  cases h with
  | money h =>
    cases h with
    | posted _ _ hmay =>
      refine hput (Bool.eq_false_iff.mpr fun hreturn => ?_)
      exact hmay hreturn rfl
    | drawn | account | opened | subscriptions | duplicate | saved | moved | wallet => exact hdb
  | credited => exact hput rfl
  | edited | opened | noted | ended | verified | succeeded | refunded | renewal => exact hdb

theorem returnKeys_refund (hpacks : PacksSound db) (hdb : ReturnKeys db) {amount : Option Int} :
    ReturnKeys (db.step (now, .refundPayment paymentId refundId amount)) := by
  unfold Db.step commit
  split
  · rename_i after h
    obtain ⟨r, h⟩ := discard_ok h
    cases refundPayment_ok hpacks h with
    | idle => exact hdb
    | took hpay hstatus hrow hnew hcredit hpos hamount hshare hdebited hshortfall hmoney hwritten
        hkeys hkept =>
      intro key hkey
      have hcase : ∀ k : Key, k = .aiPackReturnRefund key ∨ k = .prepaidReturnRefund key →
          (after.ledger.get k).isSome → (after.ledger.get (.refund key)).isSome := by
        intro k hk hsome
        rcases hkeys k hsome with hold | ⟨hrefund, hk'⟩
        · refine hkept _ (hdb key ?_)
          rcases hk with rfl | rfl
          · exact .inl hold
          · exact .inr hold
        · rcases hk with rfl | rfl <;> rcases hk' with hk' | hk' | hk' <;> cases hk' <;> exact hrefund
      rcases hkey with hkey | hkey
      · exact hcase _ (.inl rfl) hkey
      · exact hcase _ (.inr rfl) hkey
  · exact hdb

def Operation.OwnKeys (op : Operation) : Prop := op.reverses → op.isRefund

instance (op : Operation) : Decidable op.OwnKeys := by
  unfold Operation.OwnKeys
  infer_instance

variable {c : Timestamp × Operation} {lot : Lot}

theorem returnKeys_step (hpacks : PacksSound db) (hdb : ReturnKeys db) (hc : c.2.OwnKeys)
    : ReturnKeys (db.step c) := by
  obtain ⟨now, op⟩ := c
  cases hop : op.isRefund with
  | true =>
    cases op with
    | refundPayment id refundId amount => exact returnKeys_refund hpacks hdb
    | _ => cases hop
  | false =>
    have hnot : op.reverses = false := Bool.eq_false_iff.mpr fun h => by
      have := hc h
      rw [hop] at this
      cases this
    exact step_keeps (fun _ _ h hdb => returnKeys_write h hdb) (fun _ _ hdb => hdb) hdb _ (by simp)
      (by simp) (by simp [hnot])

theorem reclaimCredit_succeeds {w : Wallet} {lotId : Id} {key : String}
    (hlot : w.lots.get lotId = some lot) (hfree : amount ≤ lot.free) :
    Succeeds (reclaimCredit ws lotId amount key) w := by
  have hsane := lot.amounts_sane
  have hcheck : ∀ state, (lot.withAmounts (lot.remainingAmount - amount) lot.reservedAmount
      state).isSome := by
    intro state
    unfold Lot.withAmounts
    rw [dif_pos ⟨hsane.1, by unfold Lot.free at hfree; omega⟩]
    rfl
  unfold reclaimCredit AiWallet.insertLedger AiWallet.insertLedgerAllocation
  refine Succeeds.bind ⟨_, rfl⟩ fun r hr => ?_
  refine (Succeeds.modify _ _).bind fun r' hr' => Succeeds.bind ?_ fun _ _ => ?_
  · have hlots : r'.2.lots = w.lots := by
      rw [congrArg Prod.snd (modify_ok.mp hr')]
      cases hr
      rfl
    refine .get_bind ?_
    rw [hlots]
    simp only [hlot]
    split
    · rename_i hnone
      have := hcheck (if lot.remainingAmount - amount ≤ 0 then .depleted else lot.state)
      rw [hnone] at this
      cases this
    · exact ⟨_, rfl⟩
  · exact (Succeeds.modify _ _).bind fun _ _ => .modify _ _

theorem reclaimed_free {most wallet : Option Int} {price returned : Int}
    (hback : 0 < packReturn most price returned (unusedCredit (some lot)) wallet) :
    reclaimed (unusedCredit (some lot))
      (packReturn most price returned (unusedCredit (some lot)) wallet) (wallet.getD 0) price ≤
      lot.free := by
  have hle : ∀ back wallet price,
      reclaimed (unusedCredit (some lot)) back wallet price ≤ unusedCredit (some lot) :=
    fun _ _ _ => min_le_left _ _
  have hpos : 0 < unusedCredit (some lot) := lt_of_lt_of_le (reclaimed_pos hback) (hle _ _ _)
  have hfree : unusedCredit (some lot) ≤ lot.free := by
    simp only [unusedCredit, Option.map_some, Option.getD_some] at hpos ⊢
    split at hpos
    · rename_i hlive
      rw [if_pos hlive]
      have := (lt_max_iff.mp hpos).resolve_right (lt_irrefl 0)
      exact max_le le_rfl this.le
    · omega
  exact (hle _ _ _).trans hfree

theorem aiPackReverse_succeeds {packLedgerId : Id} {most : Option Int} {key : Key}
    {provider : String} (hkey : key ≠ .other "") (hnew : db.ledger.get key = none)
    (hacc : (db.accounts.get ws).isSome) {packKey : Key} {pack : LedgerRow}
    (hpack : db.ledger.get packKey = some pack) (hid : pack.id = packLedgerId)
    (hws : pack.workspaceId = ws) (hkind : pack.kind = .aiPack) :
    Succeeds (aiPackReverse now ws packLedgerId most key refundId provider) db := by
  obtain ⟨acc, hacc⟩ := Option.isSome_iff_exists.mp hacc
  have hfound : (db.ledger.rows.find? fun r =>
      r.2.id = packLedgerId ∧ r.2.workspaceId = ws ∧ r.2.kind = .aiPack).isSome := by
    refine List.find?_isSome.mpr ⟨_, Table.get_eq_some_iff_mem.mp hpack, ?_⟩
    simp [hid, hws, hkind]
  obtain ⟨⟨foundKey, found⟩, hfound⟩ := Option.isSome_iff_exists.mp hfound
  refine .require_bind hkey (.get_bind ?_)
  simp only [hnew, hacc, hfound]
  refine (onWallet_succeeds (.modify _ _)).bind fun r hr => ?_
  obtain ⟨w, hw, hdb⟩ := onWallet_ok hr
  obtain ⟨wallets, hlock⟩ := AiWallet.lock_eq db.wallet ws
  have hdb : r.2 = { db with wallet := { db.wallet with wallets } } := by
    rw [hdb, show w = _ from congrArg Prod.snd (modify_ok.mp hw), hlock]
  split
  · exact .pure _ _
  · rename_i lotId lot hlot
    simp only [hlot, Option.map_some]
    refine .ite (fun _ => .pure _ _) fun hback => ?_
    obtain ⟨id, -, hlot⟩ := Option.bind_eq_some_iff.mp hlot
    obtain ⟨l, hl, heq⟩ := Option.map_eq_some_iff.mp hlot
    cases heq
    have hlot : r.2.wallet.lots.get lotId = some lot := by
      rw [hdb]
      exact (Option.filter_eq_some_iff.mp hl).1
    refine (onWallet_succeeds (reclaimCredit_succeeds hlot ?_)).bind fun r' hr' => ?_
    · exact reclaimed_free (not_le.mp hback)
    · obtain ⟨w', -, hdb'⟩ := onWallet_ok hr'
      have hcheck := acc.balance_check
      refine (insertLedger_succeeds ?_ ?_ ?_).bind fun r'' hr'' => ?_
      · rw [hdb', hdb]
        exact hnew
      · simp only
        omega
      · simp only
        omega
      · have hacc'' : r''.2.accounts.get ws = some acc := by
          rw [(insertLedger_ok hr'').2.2, hdb', hdb]
          exact hacc
        obtain ⟨acc', hf⟩ := withBalance_succeeds acc (lt_of_not_ge hback |>.le.trans
          (Int.le_add_of_nonneg_left hcheck))
        exact (updateAccount_succeeds hacc'' hf).bind fun _ _ => .pure _ _

structure Refundable (pay : Payment) (refundId : String) (db : Db) : Prop where
  account : (db.accounts.get pay.workspaceId).isSome
  pack : db.ledger.get (.aiPackReturnRefund (pay.refundKey refundId)) = none
  prepaid : db.ledger.get (.prepaidReturnRefund (pay.refundKey refundId)) = none
  refund : db.ledger.get (.refund (pay.refundKey refundId)) = none

theorem reverseForRefund_succeeds (hdb : Refundable pay refundId db) (hbought : db.Bought pay) :
    Succeeds (reverseForRefund now pay refundId credit) db := by
  unfold reverseForRefund
  split
  · rename_i packLedgerId _ hresult
    obtain ⟨key, row, hrow, hid, hws, hkind⟩ := hbought packLedgerId hresult
    exact aiPackReverse_succeeds (by simp) hdb.pack hdb.account hrow hid hws hkind
  · exact .pure _ _

theorem releaseForRefund_succeeds
    (hnew : db.ledger.get (.prepaidReturnRefund (pay.refundKey refundId)) = none) :
    Succeeds (releaseForRefund now pay refundId credit) db := by
  refine .get_bind ?_
  cases hacc : db.accounts.get pay.workspaceId with
  | none => exact .pure _ _
  | some acc =>
    simp only
    cases hprepaid : acc.nextPeriodPrepaidMinor with
    | none => exact .pure _ _
    | some prepaid =>
      refine .ite (fun _ => ?_) fun _ => .pure _ _
      refine (creditBack_succeeds hacc hnew).bind fun _ _ => ?_
      exact (updateAccount_some_succeeds Account.withoutPrepaid).bind fun _ _ => .pure _ _

theorem debitRefund_succeeds {released : Int}
    (hnew : db.ledger.get (.refund (pay.refundKey refundId)) = none) :
    Succeeds (debitRefund now paymentId pay refundId credit released) db := by
  refine .get_bind ?_
  cases hacc : db.accounts.get pay.workspaceId with
  | none => exact .pure _ _
  | some acc =>
    have hcheck := acc.balance_check
    refine .ite (fun hpos => ?_) fun _ => .pure _ _
    refine (insertLedger_succeeds hnew ?_ ?_).bind fun r hr => ?_
    · simp only
      omega
    · simp only
      omega
    · have hafter : 0 ≤ acc.balanceMinor - min credit acc.balanceMinor := by omega
      obtain ⟨acc', hf⟩ := withBalance_succeeds acc hafter
      refine (updateAccount_succeeds ?_ hf).bind fun _ _ => .pure _ _
      rw [(insertLedger_ok hr).2.2]
      exact hacc

theorem applyRefund_succeeds (hpacks : PacksSound db) (hdb : Refundable pay refundId db)
    (hbought : db.Bought pay) :
    Succeeds (applyRefund now paymentId pay refundId amount credit) db := by
  have hother : ∀ {t t' : Table Key LedgerRow} {k key : Key} {P : Prop}, key ≠ k →
      (t' = t ∨ P ∧ ∃ row, t' = t.put k row) → t.get key = none → t'.get key = none := by
    intro t t' k key P hne hput hnone
    rcases hput with rfl | ⟨-, row, rfl⟩
    · exact hnone
    · rw [Table.get_put_ne _ _ hne]
      exact hnone
  refine (reverseForRefund_succeeds hdb hbought).bind fun r₁ h₁ => ?_
  have hposted₁ := (reverseForRefund_ok hpacks h₁).posted
  have hprepaid₁ := hother (by simp) hposted₁ hdb.prepaid
  refine (releaseForRefund_succeeds hprepaid₁).bind fun r₂ h₂ => ?_
  have hrefund₂ := hother (by simp) (releaseForRefund_ok h₂).posted
    (hother (by simp) hposted₁ hdb.refund)
  refine (debitRefund_succeeds hrefund₂).bind fun r₃ _ => ?_
  exact (Succeeds.modify _ _).bind fun _ _ => .pure _ _

/-- A refund of a part of what was paid. -/
structure Piece where
  now : Timestamp
  refundId : String
  amount : Int

def Piece.call (paymentId : Id) (p : Piece) : Timestamp × Operation :=
  (p.now, .refundPayment paymentId p.refundId (some p.amount))

def Payment.netShare (pay : Payment) (amount : Int) : Int := amount * pay.netMinor / pay.amountMinor

def Db.creditedBack (db : Db) (paymentId : Id) : Int :=
  ((db.payments.get paymentId).map Payment.creditedBack).getD 0

structure RefundsSound (db : Db) : Prop where
  packs : PacksSound db
  payments : PaymentsSound db
  keys : ReturnKeys db
  credited : Credited db
  sound : Sound db

theorem refundsSound_step (h : RefundsSound db) (hc : c.2.OwnKeys) : RefundsSound (db.step c) :=
  ⟨h.packs.step c, h.payments.step c, returnKeys_step h.packs h.keys hc, h.credited.step c,
    h.sound.step c⟩

theorem refundsSound_empty : RefundsSound .empty :=
  ⟨packsSound_empty, paymentsSound_empty, by simp [ReturnKeys, Db.empty], credited_empty,
    sound_empty⟩

theorem refundsSound_run {calls : List (Timestamp × Operation)} (h : ∀ c ∈ calls, c.2.OwnKeys) :
    RefundsSound (run Db.step .empty calls) := by
  have hmeets : Meets Db.step (fun _ c => c.2.OwnKeys) .empty calls :=
    meets_of_forall (C := fun c : Timestamp × Operation => c.2.OwnKeys) h _
  have hstep : ∀ (s : Db) (c : Timestamp × Operation), RefundsSound s → c.2.OwnKeys →
      RefundsSound (s.step c) := fun _ _ hs hc => refundsSound_step hs hc
  exact run_keeps hstep refundsSound_empty hmeets

theorem RefundsSound.account (h : RefundsSound db) (hpay : db.payments.get paymentId = some pay)
    (hstatus : pay.status = .succeeded) : (db.accounts.get pay.workspaceId).isSome := by
  obtain ⟨row, hrow, hkind⟩ := h.credited.settled _ _ hpay hstatus
  obtain ⟨id, paid, hkey, -, hpaid, -, hws, -⟩ := h.credited.credit _ _ hrow hkind
  cases hkey
  cases hpay.symm.trans hpaid
  cases hacc : db.accounts.get pay.workspaceId with
  | some acc => rfl
  | none =>
    have hnone := (h.sound.balanced pay.workspaceId).empty (by simp [Db.book, hacc])
    have hmem : (Key.payment paymentId, row) ∈ (db.book pay.workspaceId).rows := by
      simp only [Db.book, List.mem_filter]
      exact ⟨Table.get_eq_some_iff_mem.mp hrow, by simpa using hws⟩
    rw [hnone] at hmem
    cases hmem

theorem RefundsSound.refundable (h : RefundsSound db) (hpay : db.payments.get paymentId = some pay)
    (hstatus : pay.status = .succeeded)
    (hnew : db.ledger.get (.refund (pay.refundKey refundId)) = none) :
    Refundable pay refundId db := by
  have hkeys := h.keys (pay.refundKey refundId)
  rw [hnew] at hkeys
  refine ⟨h.account hpay hstatus, ?_, ?_, hnew⟩
  · exact Option.not_isSome_iff_eq_none.mp fun hsome => nomatch hkeys (.inl hsome)
  · exact Option.not_isSome_iff_eq_none.mp fun hsome => nomatch hkeys (.inr hsome)

theorem refundKey_injective (pay : Payment) {refundId' : String}
    (h : pay.refundKey refundId = pay.refundKey refundId') : refundId = refundId' :=
  String.append_right_inj _ |>.mp h

/-- While the cap is not reached, a refund takes its rounded share, unless a row
stands under its key. -/
theorem piece_step (h : RefundsSound db) (p : Piece) (hpay : db.payments.get paymentId = some pay)
    (hstatus : pay.status = .succeeded) (hid : p.refundId ≠ "") (hpos : 0 < p.amount)
    (hnew : pay.purposeDetail.refunds.get p.refundId = none)
    (hcap : pay.refundedMinor + pay.netShare p.amount ≤ pay.netMinor) :
    ∃ pay', (db.step (p.call paymentId)).payments.get paymentId = some pay' ∧
      pay'.status = .succeeded ∧ pay'.provider = pay.provider ∧ pay'.netMinor = pay.netMinor ∧
      pay'.amountMinor = pay.amountMinor ∧
      (∀ refundId ≠ p.refundId, pay'.purposeDetail.refunds.get refundId =
        pay.purposeDetail.refunds.get refundId) ∧ (∀ refundId ≠ p.refundId,
        ((db.step (p.call paymentId)).ledger.get (.refund (pay.refundKey refundId))).isSome =
          (db.ledger.get (.refund (pay.refundKey refundId))).isSome) ∧
      pay'.refundedMinor = pay.refundedMinor +
        if (db.ledger.get (.refund (pay.refundKey p.refundId))).isSome then 0
        else pay.netShare p.amount := by
  have hgross : 0 < pay.amountMinor := by
    have := pay.amount_check
    omega
  have hshare : pay.refundShare p.amount = pay.netShare p.amount := by
    unfold Payment.refundShare
    rw [max_eq_left (by omega), ← Payment.netShare]
    omega
  have hnonneg : 0 ≤ pay.netShare p.amount :=
    Int.ediv_nonneg (Int.mul_nonneg hpos.le pay.amount_check.1.le) hgross.le
  have hcalls : Succeeds (refundPayment p.now paymentId p.refundId (some p.amount)) db := by
    refine .require_bind ⟨hid, by simpa using hpos⟩ (.get_bind ?_)
    simp only [hpay]
    refine .ite (fun _ => .pure _ _) fun hfresh => .require_bind hstatus (.ite (fun _ => .pure _ _)
      fun _ => ?_)
    refine applyRefund_succeeds h.packs (h.refundable hpay hstatus ?_) (h.payments.bought _ _ hpay)
    exact Option.not_isSome_iff_eq_none.mp fun hsome => hfresh (.inl hsome)
  obtain ⟨r, hr⟩ := hcalls
  have hstep : db.step (p.call paymentId) = r.2 := by
    unfold Db.step commit Piece.call
    simp only [Operation.call]
    rw [show discard (refundPayment p.now paymentId p.refundId (some p.amount)) db = .ok ((), r.2)
      from by
        show (refundPayment p.now paymentId p.refundId (some p.amount) db >>= _) = _
        rw [hr]
        rfl]
  rw [hstep]
  cases refundPayment_ok h.packs hr with
  | idle hpay' hwhy =>
    cases hpay.symm.trans hpay'
    refine ⟨pay, hpay, hstatus, rfl, rfl, rfl, fun _ _ => rfl, fun _ _ => rfl, ?_⟩
    split
    · omega
    · rename_i hrow
      rcases hwhy with hsome | hsome | hzero
      · exact (hrow hsome).elim
      · rw [hnew] at hsome
        cases hsome
      · simp only [Option.getD_some, hshare] at hzero
        omega
  | took hpay' hstatus' hrow hnew' hcredit hpos' hamount hsum hdebited hshortfall hmoney hwritten
      hkeys hkept =>
    cases hpay.symm.trans hpay'
    have hget := congrArg (fun t => t.get paymentId) hwritten
    simp only [Table.get_put_self] at hget
    refine ⟨_, hget, hstatus, rfl, rfl, rfl, fun refundId hne => Table.get_put_ne _ _ hne,
      fun refundId hne => ?_, ?_⟩
    · refine Bool.eq_iff_iff.mpr ⟨fun hsome => ?_, hkept _⟩
      rcases hkeys _ hsome with hold | ⟨-, hkey | hkey | hkey⟩
      · exact hold
      · exact (hne (refundKey_injective pay (Key.refund.inj hkey))).elim
      · cases hkey
      · cases hkey
    · rw [hrow]
      simp only [Option.isSome_none, Bool.false_eq_true, if_false, ← hshare]
      simp only [Option.getD_some] at hcredit
      rw [← hcredit]
      rfl

def Db.credits (db : Db) (pay : Payment) (p : Piece) : Int :=
  if (db.ledger.get (.refund (pay.refundKey p.refundId))).isSome then 0 else pay.netShare p.amount

theorem netShare_nonneg (h : 0 < amount) : 0 ≤ pay.netShare amount := by
  have := pay.amount_check
  exact Int.ediv_nonneg (Int.mul_nonneg h.le (by omega)) (by omega)

/-- Parts that stay below the cap together are credited one by one. -/
theorem pieces_credited (pieces : List Piece) :
    ∀ {db : Db} {pay : Payment}, RefundsSound db → db.payments.get paymentId = some pay →
      pay.status = .succeeded → (pieces.map (·.refundId)).Nodup →
      (∀ p ∈ pieces, p.refundId ≠ "" ∧ 0 < p.amount ∧
        pay.purposeDetail.refunds.get p.refundId = none) →
      pay.refundedMinor + (pieces.map fun p => pay.netShare p.amount).sum ≤ pay.netMinor →
      (run Db.step db (pieces.map (Piece.call paymentId))).creditedBack paymentId =
        pay.refundedMinor + (pieces.map (db.credits pay)).sum := by
  induction pieces with
  | nil =>
    intro db pay h hpay _ _ _ _
    have hcounted := (h.payments.counted _ _ hpay).counted
    simp [run, Db.creditedBack, hpay, hcounted]
  | cons p pieces ih =>
    intro db pay h hpay hstatus hids hpieces hcap
    obtain ⟨hid, hpos, hnew⟩ := hpieces p (List.mem_cons_self ..)
    simp only [List.map_cons, List.nodup_cons, List.sum_cons] at hids hcap
    have hrest : 0 ≤ (pieces.map fun p => pay.netShare p.amount).sum :=
      List.sum_nonneg fun x hx => by
        obtain ⟨q, hq, rfl⟩ := List.mem_map.mp hx
        exact netShare_nonneg (hpieces q (List.mem_cons_of_mem _ hq)).2.1
    obtain ⟨pay', hpay', hstatus', hprovider, hnet, hgross, hrefunds, hrows, hrefunded⟩ :=
      piece_step h p hpay hstatus hid hpos hnew (by omega)
    have hne : ∀ q ∈ pieces, q.refundId ≠ p.refundId := fun q hq heq =>
      hids.1 (heq ▸ List.mem_map_of_mem hq)
    have hshare : ∀ q : Piece, pay'.netShare q.amount = pay.netShare q.amount := fun q => by
      unfold Payment.netShare
      rw [hnet, hgross]
    have hcredits : pieces.map ((db.step (p.call paymentId)).credits pay') =
        pieces.map (db.credits pay) := by
      refine List.map_congr_left fun q hq => ?_
      unfold Db.credits Payment.refundKey
      have := hrows q.refundId (hne q hq)
      unfold Payment.refundKey at this
      rw [hprovider, this, hshare]
    have hsum : pay'.refundedMinor = pay.refundedMinor + db.credits pay p := hrefunded
    have hcredit : db.credits pay p ≤ pay.netShare p.amount := by
      unfold Db.credits
      split
      · exact netShare_nonneg hpos
      · exact le_rfl
    have hcall : (p.call paymentId).2.OwnKeys := fun _ => rfl
    have := ih (refundsSound_step h hcall) hpay' hstatus' hids.2
      (fun q hq => ⟨(hpieces q (List.mem_cons_of_mem _ hq)).1,
        (hpieces q (List.mem_cons_of_mem _ hq)).2.1, by
          rw [hrefunds q.refundId (hne q hq)]
          exact (hpieces q (List.mem_cons_of_mem _ hq)).2.2⟩)
      (by simp only [hshare]; omega)
    rw [hcredits, hsum, Int.add_assoc] at this
    exact this

theorem sum_eq_sum_iff_of_le {α : Type} {f g : α → Int} (l : List α) (h : ∀ x ∈ l, f x ≤ g x) :
    (l.map f).sum = (l.map g).sum ↔ ∀ x ∈ l, f x = g x := by
  induction l with
  | nil => simp
  | cons x l ih =>
    have hx := h x (List.mem_cons_self ..)
    have hl : ∀ y ∈ l, f y ≤ g y := fun y hy => h y (List.mem_cons_of_mem _ hy)
    have hsum := List.sum_le_sum hl
    simp only [List.map_cons, List.sum_cons, List.forall_mem_cons, ← ih hl]
    omega

theorem mul_netShare_le : pay.amountMinor * pay.netShare amount ≤ amount * pay.netMinor :=
  Int.mul_ediv_self_le (ne_of_gt (by have := pay.amount_check; omega))

variable {p : Piece}

theorem mul_credits_le (db : Db) (pay : Payment) (hpos : 0 < p.amount) :
    pay.amountMinor * db.credits pay p ≤ p.amount * pay.netMinor := by
  have := pay.amount_check
  unfold Db.credits
  split
  · rw [Int.mul_zero]
    exact Int.mul_nonneg hpos.le (by omega)
  · exact mul_netShare_le

theorem mul_credits_eq_iff (hpos : 0 < p.amount) :
    pay.amountMinor * db.credits pay p = p.amount * pay.netMinor ↔
      pay.amountMinor ∣ p.amount * pay.netMinor ∧
        db.ledger.get (.refund (pay.refundKey p.refundId)) = none := by
  have hnet := Int.mul_pos hpos pay.amount_check.1
  unfold Db.credits Payment.netShare
  cases hrow : db.ledger.get (.refund (pay.refundKey p.refundId)) with
  | some row =>
    simp only [Option.isSome_some, if_true, Int.mul_zero, reduceCtorEq, and_false, iff_false]
    omega
  | none =>
    simp only [Option.isSome_none, Bool.false_eq_true, if_false, and_true]
    exact ⟨fun h => ⟨_, h.symm⟩, Int.mul_ediv_cancel'⟩

def payInGross (workspaceId : Id) : Payment :=
  { workspaceId, provider := "stripe", currency := "USD", amountMinor := 1100
    netMinor := 1000, taxMinor := 100, amount_check := by decide }

def settledCalls : List (Timestamp × Operation) :=
  [(0, .createPayment (payInGross 1)),
   (1, .recordVerification 0 (some 1100) (some "USD") (some "pi")), (2, .settlePayment 0)]

end Kindred.Billing
