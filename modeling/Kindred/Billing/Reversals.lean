import Kindred.Billing.Credits

/-! Packs given back: what a reversal takes out of the lot, and what comes back of
the price. -/

namespace Kindred.Billing
open AiWallet (Wallet Lot)
open Lib (Table run run_invariant total)
open Lib.Tx

variable {now : Timestamp} {ws : Id} {db db' : Db} {most : Option Int} {refundId provider : String}
  {row : LedgerRow} {key : Key} {r : ReverseResult × Db} {pack : Id} {reclaim : Int}

theorem reclaimCredit_ok {w : Wallet} {lotId : Id} {amount : Int} {key : String} {lot : Lot}
    (hlot : w.lots.get lotId = some lot) {r : Unit × Wallet}
    (h : reclaimCredit ws lotId amount key w = .ok r) :
    ∃ lot' : Lot, r.2.lots = w.lots.put lotId lot' ∧
      lot'.remainingAmount = lot.remainingAmount - amount ∧
      lot'.reservedAmount = lot.reservedAmount := by
  simp only [reclaimCredit, AiWallet.insertLedger, AiWallet.insertLedgerAllocation, bind_assoc,
    pure_bind] at h
  rw [get_bind, set_bind, modify_bind] at h
  obtain ⟨_, w₁, hup, h⟩ := bind_ok.mp h
  rw [modify_bind] at h
  cases modify_ok.mp h
  obtain ⟨table, hw₁, ⟨hnone, -⟩ | ⟨l, l', hget, hf, rfl⟩⟩ := AiWallet.updateLot_ok hup
  · simp only at hnone
    rw [hlot] at hnone
    cases hnone
  · simp only at hw₁ hget
    cases hlot.symm.trans hget
    obtain ⟨hremaining, hreserved, -⟩ := AiWallet.withAmounts_ok hf
    obtain ⟨commands, hrecord⟩ := AiWallet.recordCommand_eq w₁ (some key)
      { commandType := .adjustment, workspaceId := ws, resultRef := w.nextId }
    refine ⟨l', ?_, hremaining, hreserved⟩
    simp only [hrecord, AiWallet.Wallet.project]
    exact congrArg Wallet.lots hw₁

inductive Reversed (ws packLedgerId : Id) (most : Option Int) (key : Key) (db : Db) :
    ReverseResult × Db → Prop where
  | replayed {row : LedgerRow} {r : ReverseResult} (hrow : db.ledger.get key = some row)
      (hkind : row.kind = .aiPackReturn) (hr : r.replayed = true)
      (hamount : r.returnedMinor = row.amountMinor) :
      Reversed ws packLedgerId most key db (r, db)
  | nothing {wallets : Table Id AiWallet.WalletRow} :
      Reversed ws packLedgerId most key db ({}, { db with wallet := { db.wallet with wallets } })
  | returned {r : ReverseResult × Db} {acc acc' : Account} {pack row : LedgerRow}
      {packKey : Key} {lotId : Id} {lot lot' : Lot} {refundId provider : String}
      (hr : r.1.replayed = false) (hnew : db.ledger.get key = none)
      (hpack : db.ledger.get packKey = some pack) (hid : pack.id = packLedgerId)
      (hpos : 0 < r.1.returnedMinor) (hmost : r.1.returnedMinor ≤ most.getD 0)
      (hacc : db.accounts.get ws = some acc)
      (hbalance : acc.withBalance (acc.balanceMinor + r.1.returnedMinor) = some acc')
      (hpacklot : db.packLot pack.id = some lotId)
      (hlot : db.wallet.lots.get lotId = some lot)
      (hremaining : lot'.remainingAmount = lot.remainingAmount - r.1.reclaimedWallet)
      (hreserved : lot'.reservedAmount = lot.reservedAmount)
      (hws : row.workspaceId = ws) (hkind : row.kind = .aiPackReturn)
      (hamount : row.amountMinor = r.1.returnedMinor)
      (hrow : row.description = .packReturn pack.id refundId provider r.1.reclaimedWallet)
      (haccounts : r.2.accounts = db.accounts.put ws acc')
      (hledger : r.2.ledger = db.ledger.put key row) (hpayments : r.2.payments = db.payments)
      (hlots : r.2.wallet.lots = db.wallet.lots.put lotId lot') :
      Reversed ws packLedgerId most key db r

theorem packReturn_le {wallet : Option Int} {price returned unused : Int}
    (hback : 0 < packReturn most price returned unused wallet) :
    packReturn most price returned unused wallet ≤ most.getD 0 := by
  cases wallet with
  | none => simp [packReturn] at hback
  | some w =>
    simp only [packReturn] at hback ⊢
    split at hback
    · omega
    · rename_i hsane
      rw [if_neg hsane]
      omega

variable {packLedgerId packId : Id}

theorem aiPackReverse_ok
    (h : aiPackReverse now ws packLedgerId most key refundId provider db = .ok r) :
    Reversed ws packLedgerId most key db r := by
  obtain ⟨-, h⟩ := require_bind_ok.mp h
  rw [get_bind] at h
  cases hrow : db.ledger.get key with
  | some row =>
    simp only [hrow] at h
    obtain ⟨⟨-, hkind⟩, h⟩ := require_bind_ok.mp h
    rw [pure_ok.mp h]
    exact .replayed hrow hkind rfl rfl
  | none =>
    simp only [hrow] at h
    cases hacc : db.accounts.get ws with
    | none =>
      simp only [hacc] at h
      exact (throw_ok.mp h).elim
    | some acc =>
      cases hfind : db.ledger.rows.find? fun r =>
          r.2.id = packLedgerId ∧ r.2.workspaceId = ws ∧ r.2.kind = .aiPack with
      | none =>
        simp only [hacc, hfind] at h
        exact (throw_ok.mp h).elim
      | some found =>
        obtain ⟨packKey, pack⟩ := found
        simp only [hacc, hfind] at h
        obtain ⟨_, db₁, hwallet, h⟩ := bind_ok.mp h
        obtain ⟨w, hw, hdb₁⟩ := onWallet_ok hwallet
        obtain ⟨wallets, hlock⟩ := AiWallet.lock_eq db.wallet ws
        have hdb₁ : db₁ = { db with wallet := { db.wallet with wallets } } := by
          rw [show db₁ = _ from hdb₁, show w = _ from congrArg Prod.snd (modify_ok.mp hw), hlock]
        have hpack := Table.get_eq_some_iff_mem.mpr (List.mem_of_find?_eq_some hfind)
        have hid := List.find?_some hfind
        simp only [decide_eq_true_eq] at hid
        cases hlot : (db.packLot pack.id).bind fun id =>
            ((db.wallet.lots.get id).filter fun l => l.workspaceId = ws).map fun l => (id, l) with
        | none =>
          simp only [hlot] at h
          rw [pure_ok.mp h, hdb₁]
          exact .nothing
        | some found =>
          obtain ⟨lotId, lot⟩ := found
          simp only [hlot] at h
          rcases ite_ok.mp h with ⟨-, h⟩ | ⟨hback, h⟩
          · rw [pure_ok.mp h, hdb₁]
            exact .nothing
          obtain ⟨id, hpacklot, hlot⟩ := Option.bind_eq_some_iff.mp hlot
          obtain ⟨l, hl, heq⟩ := Option.map_eq_some_iff.mp hlot
          cases heq
          have hlot : db.wallet.lots.get lotId = some lot := (Option.filter_eq_some_iff.mp hl).1
          obtain ⟨_, db₂, hreclaim, h⟩ := bind_ok.mp h
          obtain ⟨row, db₃, hinsert, h⟩ := bind_ok.mp h
          obtain ⟨_, db₄, hup, h⟩ := bind_ok.mp h
          obtain ⟨w₂, hw₂, hdb₂⟩ := onWallet_ok hreclaim
          rw [hdb₁] at hw₂ hdb₂
          have hlocked : ({ db.wallet with wallets } : Wallet).lots.get lotId = some lot := hlot
          obtain ⟨lot', hlots, hremaining, hreserved⟩ := reclaimCredit_ok hlocked hw₂
          have hacc₂ : db₂.accounts.get ws = some acc := by
            rw [show db₂ = _ from hdb₂]
            exact hacc
          obtain ⟨acc', -, hbalance, hposted, hdb₄⟩ := post_ok hacc₂ hinsert hup
          rw [pure_ok.mp h]
          have hdb₄ : db₄ = db₂.posted ws key row acc' := hdb₄
          have hposted : row = _ := hposted
          have hdescription : row.description = .packReturn pack.id refundId provider _ :=
            congrArg LedgerRow.description hposted
          refine .returned rfl hrow hpack hid.1 (not_le.mp hback) (packReturn_le (not_le.mp hback))
            hacc hbalance hpacklot hlot hremaining hreserved ?_ ?_ ?_ hdescription ?_ ?_ ?_ ?_
          · rw [hposted]
          · rw [hposted]
          · rw [hposted]
          · rw [hdb₄, show db₂ = _ from hdb₂]
            rfl
          · rw [hdb₄, show db₂ = _ from hdb₂]
            rfl
          · rw [hdb₄, show db₂ = _ from hdb₂]
            rfl
          · rw [hdb₄, show db₂ = _ from hdb₂]
            exact hlots

def LedgerRow.reclaimed (r : LedgerRow) : Int :=
  match r.description with
  | .packReturn _ _ _ wallet => wallet
  | _ => 0

/-- The credit that left a pack's lot with what came back of its price. -/
def Db.packReclaimed (db : Db) (workspaceId pack : Id) : Int :=
  total (fun r : Key × LedgerRow => r.2.workspaceId = workspaceId ∧ r.2.returns pack)
    (fun r => r.2.reclaimed) db.ledger.rows

structure Db.Worth (db : Db) (pack : LedgerRow) : Prop where
  price : db.packReturned pack.workspaceId pack.id ≤ -pack.amountMinor
  worth : ∀ wallet ∈ pack.description.wallet,
    db.packReturned pack.workspaceId pack.id * (wallet * rial) ≤
      db.packReclaimed pack.workspaceId pack.id * -pack.amountMinor

structure PacksSound (db : Db) : Prop where
  old : ∀ key row, db.ledger.get key = some row → row.id < db.nextId
  unique : ∀ key key' row row', db.ledger.get key = some row → db.ledger.get key' = some row' →
    row.id = row'.id → key = key'
  positive : ∀ key row, db.ledger.get key = some row → row.kind = .aiPackReturn →
    0 < row.amountMinor
  bought : ∀ key row pack, db.ledger.get key = some row → row.returns pack → pack < db.nextId
  worth : ∀ key pack, db.ledger.get key = some pack → pack.kind = .aiPack → db.Worth pack

theorem packsSound_empty : PacksSound .empty := by
  constructor <;> simp [Db.empty]

theorem PacksSound.frame (h : PacksSound db) (hledger : db'.ledger = db.ledger)
    (hid : db.nextId ≤ db'.nextId) : PacksSound db' where
  old key row hrow := lt_of_lt_of_le (h.old key row (hledger ▸ hrow)) hid
  unique key key' row row' hrow hrow' :=
    h.unique key key' row row' (hledger ▸ hrow) (hledger ▸ hrow')
  positive key row hrow := h.positive key row (hledger ▸ hrow)
  bought key row pack hrow hreturns :=
    lt_of_lt_of_le (h.bought key row pack (hledger ▸ hrow) hreturns) hid
  worth key pack hpack hkind := by
    obtain ⟨hprice, hworth⟩ := h.worth key pack (hledger ▸ hpack) hkind
    constructor
    · rwa [Db.packReturned, hledger]
    · rwa [Db.packReturned, Db.packReclaimed, hledger]

theorem packTotals_put (hnew : db.ledger.get key = none)
    (hledger : db'.ledger = db.ledger.put key row) (ws pack : Id) :
    db'.packReturned ws pack = db.packReturned ws pack +
        (if row.workspaceId = ws ∧ row.returns pack then row.amountMinor else 0) ∧
      db'.packReclaimed ws pack = db.packReclaimed ws pack +
        (if row.workspaceId = ws ∧ row.returns pack then row.reclaimed else 0) := by
  simp [Db.packReturned, Db.packReclaimed, hledger, put_rows_new hnew]

theorem returns_kind (h : row.returns pack) : row.kind = .aiPackReturn := by
  unfold LedgerRow.returns at h
  split at h
  · simp only [decide_eq_true_eq] at h
    exact h.1
  · cases h

theorem returns_description (hrow : row.description = .packReturn packId refundId provider reclaim)
    (h : row.returns pack) : packId = pack := by
  unfold LedgerRow.returns at h
  simp only [hrow, decide_eq_true_eq] at h
  exact h.2

theorem reclaimed_description
    (hrow : row.description = .packReturn packId refundId provider reclaim) :
    row.reclaimed = reclaim := by
  simp [LedgerRow.reclaimed, hrow]

/-- A new row with the next id. -/
theorem PacksSound.post (h : PacksSound db) (hnew : db.ledger.get key = none)
    (hid : row.id = db.nextId) (hledger : db'.ledger = db.ledger.put key row)
    (hnext : db'.nextId = db.nextId + 1) (hsold : row.kind = .aiPack → row.amountMinor < 0)
    (hreturned : row.kind = .aiPackReturn → db.ReturnsPack row) : PacksSound db' := by
  have hcases : ∀ {k : Key} {x : LedgerRow}, db'.ledger.get k = some x →
      k = key ∧ x = row ∨ k ≠ key ∧ db.ledger.get k = some x := by
    intro k x hx
    rw [hledger, Table.get_put] at hx
    split at hx
    · rename_i hk
      exact .inl ⟨hk, (Option.some.inj hx).symm⟩
    · rename_i hk
      exact .inr ⟨hk, hx⟩
  have hfresh : ∀ {k : Key} {x : LedgerRow}, db.ledger.get k = some x → x.id ≠ row.id := by
    intro k x hx he
    have := h.old k x hx
    lia
  refine ⟨fun k x hx => ?_, fun k k' x x' hx hx' he => ?_, fun k x hx hkind => ?_,
    fun k x pack hx hreturns => ?_, fun k pack hx hkind => ?_⟩
  · rcases hcases hx with ⟨-, rfl⟩ | ⟨-, hx⟩
    · lia
    · have := h.old k x hx
      lia
  · rcases hcases hx with ⟨rfl, rfl⟩ | ⟨-, hx⟩ <;> rcases hcases hx' with ⟨rfl, rfl⟩ | ⟨-, hx'⟩
    · rfl
    · exact (hfresh hx' he.symm).elim
    · exact (hfresh hx he).elim
    · exact h.unique k k' x x' hx hx' he
  · rcases hcases hx with ⟨-, rfl⟩ | ⟨-, hx⟩
    · obtain ⟨-, -, -, -, -, hpos, -⟩ := hreturned hkind
      exact hpos
    · exact h.positive k x hx hkind
  · rcases hcases hx with ⟨-, rfl⟩ | ⟨-, hx⟩
    · obtain ⟨hpack, -, -, -, hrow, -⟩ := hreturned (returns_kind hreturns)
      have := h.old _ _ hpack
      rw [← returns_description hrow hreturns]
      lia
    · have := h.bought k x pack hx hreturns
      lia
  obtain ⟨hprice, hreclaimed⟩ := packTotals_put hnew hledger pack.workspaceId pack.id
  rcases hcases hx with ⟨-, rfl⟩ | ⟨-, hx⟩
  · -- Nothing was returned of a pack before it was bought.
    have hnone : ∀ r ∈ db.ledger.rows, ¬(r.2.workspaceId = pack.workspaceId ∧ r.2.returns pack.id) := by
      rintro ⟨k, x⟩ hmem ⟨-, hreturns⟩
      have := h.bought k x _ (Table.get_eq_some_iff_mem.mpr hmem) hreturns
      lia
    have hother : ¬(pack.returns pack.id = true) := fun hreturns => by
      have := returns_kind hreturns
      rw [hkind] at this
      cases this
    have hzero : db.packReturned pack.workspaceId pack.id = 0 := Lib.total_eq_zero hnone
    have hnothing : db.packReclaimed pack.workspaceId pack.id = 0 := Lib.total_eq_zero hnone
    have hcost := hsold hkind
    rw [hzero, if_neg (by simp [hother])] at hprice
    rw [hnothing, if_neg (by simp [hother])] at hreclaimed
    constructor
    · rw [hprice]
      omega
    · intro wallet _
      rw [hprice, hreclaimed]
      omega
  · obtain ⟨hbound, hworth⟩ := h.worth k pack hx hkind
    by_cases hreturns : row.workspaceId = pack.workspaceId ∧ row.returns pack.id
    · obtain ⟨hpack, -, -, hwallet, hrow, -, hleft, hback⟩ :=
        hreturned (returns_kind hreturns.2)
      have hsame := returns_description hrow hreturns.2
      rw [if_pos hreturns] at hprice hreclaimed
      have hkey := h.unique _ _ _ _ hpack hx hsame
      subst hkey
      cases hpack.symm.trans hx
      constructor
      · rw [hprice, ← hreturns.1]
        exact hleft
      · intro wallet hw
        cases hwallet.symm.trans hw
        have hold := hworth _ hwallet
        rw [hprice, hreclaimed, reclaimed_description hrow, Int.add_mul, Int.add_mul]
        omega
    · rw [if_neg hreturns, add_zero] at hprice hreclaimed
      constructor
      · rw [hprice]
        exact hbound
      · rw [hprice, hreclaimed]
        exact hworth

theorem PacksSound.write {may : Right → Prop} (hdb : PacksSound db) (h : Statement may db db') :
    PacksSound db' := by
  cases h with
  | money h =>
    cases h with
    | drawn | duplicate | saved => exact hdb.frame rfl (Nat.le_succ _)
    | posted hnew hrow => exact hdb.post hnew hrow.id rfl rfl hrow.sold hrow.returned
    | account | opened | subscriptions | moved | wallet => exact hdb.frame rfl le_rfl
  | opened => exact hdb.frame rfl (Nat.le_succ _)
  | credited _ _ hnew hkind _ _ _ hid =>
    exact hdb.post hnew hid rfl rfl (by simp [hkind]) (by simp [hkind])
  | edited | noted | ended | verified | succeeded | refunded | renewal => exact hdb.frame rfl le_rfl

theorem PacksSound.step (hdb : PacksSound db) (c : Timestamp × Operation) :
    PacksSound (db.step c) :=
  step_keeps (fun _ _ (h : Statement (fun _ => True) _ _) hdb => hdb.write h)
    (fun _ _ hdb => hdb.frame rfl le_rfl) hdb c (fun _ => trivial) (fun _ => trivial)
    fun _ => trivial

theorem packsSound_run (calls : List (Timestamp × Operation)) :
    PacksSound (run Db.step .empty calls) :=
  run_invariant (fun _ c hdb => hdb.step c) packsSound_empty calls

def Db.remainingOf (db : Db) (lotId : Id) : Int :=
  ((db.wallet.lots.get lotId).map (·.remainingAmount)).getD 0

/-- As much leaves the pack's lot as is recorded to leave it, and as much is
added to the balance as is recorded to come back. -/
structure Db.GivesBack (db : Db) (workspaceId pack : Id) (r : ReverseResult) (db' : Db) : Prop where
  balance : db'.balanceOf workspaceId = db.balanceOf workspaceId + r.returnedMinor
  returned : db'.packReturned workspaceId pack = db.packReturned workspaceId pack + r.returnedMinor
  reclaimed : db'.packReclaimed workspaceId pack =
    db.packReclaimed workspaceId pack + r.reclaimedWallet
  lot : ∀ lotId ∈ db.packLot pack, db'.remainingOf lotId = db.remainingOf lotId - r.reclaimedWallet

theorem returns_of (hkind : row.kind = .aiPackReturn)
    (hrow : row.description = .packReturn pack refundId provider reclaim) :
    row.returns pack = true := by
  simp [LedgerRow.returns, hrow, hkind]

theorem reverse_givesBack (h : Reversed ws packLedgerId most key db r) (hnew : r.1.replayed = false)
    : db.GivesBack ws packLedgerId r.1 r.2 := by
  cases h with
  | replayed hrow hkind hr =>
    rw [hr] at hnew
    cases hnew
  | nothing =>
    constructor
    · simp [Db.balanceOf]
    · simp [Db.packReturned]
    · simp [Db.packReclaimed]
    · simp [Db.remainingOf]
  | returned hr hkey hpack hid hpos hmost hacc hbalance hpacklot hlot hremaining hreserved hws hkind
      hamount hrow haccounts hledger hpayments hlots =>
    subst hid
    obtain ⟨hreturned, hreclaimed⟩ := packTotals_put hkey hledger ws _
    have hreturns := returns_of hkind hrow
    rw [if_pos ⟨hws, hreturns⟩] at hreturned hreclaimed
    refine ⟨?_, ?_, ?_, fun lotId hlotId => ?_⟩
    · have hmoney := congrArg Money.balance (withBalance_ok hbalance).1
      simp only [Db.balanceOf, haccounts, Table.get_put_self, hacc, Option.map_some, Option.getD_some]
      exact hmoney
    · rw [hreturned, hamount]
    · rw [hreclaimed, reclaimed_description hrow]
    · cases hpacklot.symm.trans hlotId
      simp [Db.remainingOf, hlots, hlot, hremaining]

end Kindred.Billing
