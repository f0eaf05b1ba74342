import Kindred.AiWallet.Filed
import Kindred.Lib.Refills
import Kindred.Lib.Balances
import Kindred.Lib.Months

/-! Where the refunds of a run go. -/

namespace Kindred.AiWallet
open Lib (Table fill share grants total)
open Lib.Tx

variable {n : Id} {w : Wallet} {now : Timestamp} {ws : Id}

def Lot.lapsed (lot : Lot) (now : Timestamp) : Bool :=
  lot.sourceType = .planAllowance ∧ (lot.state = .expired ∨ !lot.unexpired now)

def Lot.takesBack (lot : Lot) (now : Timestamp) (ws : Id) : Bool :=
  lot.lapsed now ∨ lot.workspaceId = ws ∧ lot.state ≠ .expired ∧ lot.unexpired now

/-- What a refund of `left` gives back for each charge, in their order. -/
def reached (left : Int) (charges : List (Id × Int × Lot)) : List ((Id × Int × Lot) × Int) :=
  fill left (charges.map fun r => (r, r.2.1))

structure Lot.Same (l l' : Lot) : Prop where
  workspace : l'.workspaceId = l.workspaceId
  expires : l'.expiresAt = l.expiresAt
  expired : l'.state = .expired ↔ l.state = .expired

theorem Lot.Same.refl (l : Lot) : l.Same l := ⟨rfl, rfl, Iff.rfl⟩

variable {l l' : Lot} {id entry runId : Id} {take left refunded : Int} {w' : Wallet}

theorem Lot.Same.trans {l'' : Lot} (h : l.Same l') (h' : l'.Same l'') : l.Same l'' :=
  ⟨h'.workspace.trans h.workspace, h'.expires.trans h.expires, h'.expired.trans h.expired⟩

theorem Lot.Same.unexpired (h : l.Same l') : l'.unexpired now = l.unexpired now := by
  unfold Lot.unexpired
  rw [h.expires]

def Lot.worth (l : Lot) (now : Timestamp) (ws : Id) : Int :=
  if l.workspaceId = ws ∧ l.live ∧ l.unexpired now then l.free else 0

theorem availableBalance_put (hl : w.lots.get id = some l) :
    ({ w with lots := w.lots.put id l' } : Wallet).availableBalance now ws =
      w.availableBalance now ws - l.worth now ws + l'.worth now ws :=
  Table.total_put hl

theorem availableBalance_insert {next : Id} (hl : w.lots.get id = none) :
    ({ w with nextId := next, lots := w.lots.put id l } : Wallet).availableBalance now ws =
      w.availableBalance now ws + l.worth now ws :=
  Table.total_put_new hl

theorem refund_worth (hl : l.Drained) (h : l.withAmounts (l.remainingAmount + take) l.reservedAmount
      (if l.state = .depleted then .active else l.state) = some l') :
    l.Same l' ∧ l'.worth now ws = l.worth now ws +
      if l.workspaceId = ws ∧ l.state ≠ .expired ∧ l.unexpired now then take else 0 := by
  obtain ⟨hremaining, hreserved, hstate, hexpires, hws⟩ := withAmounts_ok h
  have hsane := l.amounts_sane
  have hsame : l.Same l' := by
    refine ⟨hws, hexpires, ?_⟩
    rw [hstate]
    split
    · rename_i hd
      simp [hd]
    · rfl
  refine ⟨hsame, ?_⟩
  unfold Lot.worth Lot.free Lot.live
  rw [hws, hsame.unexpired, hremaining, hreserved, hstate]
  cases hs : l.state with
  | depleted =>
    have := hl hs
    simp
    grind
  | expired => simp
  | active => grind
  | expiring => grind

theorem Filed.new_lot (hw : Filed n w) : w.lots.get w.nextId = none := by
  cases hx : w.lots.get w.nextId with
  | none => rfl
  | some x => exact (lt_irrefl _ (hw.lots_old _ x hx)).elim

theorem monthFloor_next (t : Int) : t < Lib.Calendar.monthFloor t 1 := by
  have hnext := (Lib.Calendar.monthOf_spec (Lib.Calendar.dateOf t)).2
  have ht := Lib.Calendar.instant_eq t
  have htime := Lib.Calendar.timeOfDay_bounds t
  have hmul : (Lib.Calendar.dateOf t + 1) * Lib.Calendar.day ≤
      Lib.Calendar.monthStart (Lib.Calendar.monthOf (Lib.Calendar.dateOf t) + 1) *
        Lib.Calendar.day :=
    Int.mul_le_mul_of_nonneg_right hnext Lib.Calendar.day_pos.le
  rw [Int.add_mul, Int.one_mul] at hmul
  unfold Lib.Calendar.monthFloor
  omega

theorem compensation_worth (htake : 0 ≤ take) (cycle : Option String) :
    Lot.worth { Lot.fresh ws .refundCompensation take now with
      billingCycleId := cycle, expiresAt := some (Lib.Calendar.monthFloor now 1) } now ws = take := by
  have hnext := monthFloor_next now
  simp [Lot.worth, Lot.fresh, Lot.live, Lot.unexpired, Lot.free, hnext, htake]

structure Wallet.OldLots (w w' : Wallet) : Prop where
  ids : w.nextId ≤ w'.nextId
  lots : ∀ j, j < w.nextId → (w'.lots.get j).isSome → (w.lots.get j).isSome

theorem Wallet.OldLots.trans {w w'' : Wallet} (h : w.OldLots w') (h' : w'.OldLots w'') :
    w.OldLots w'' :=
  ⟨h.ids.trans h'.ids, fun j hj hx => h.lots j hj (h'.lots j (Nat.lt_of_lt_of_le hj h.ids) hx)⟩

section Target
variable {id target : Id} {lot l : Lot} {take : Int}

theorem refundTarget_succeeds (hl : w.lots.get id = some l) (htake : 0 ≤ take) :
    Succeeds (refundTarget now ws id lot take) w := by
  have hsane := l.amounts_sane
  refine .ite (fun _ => .require_bind htake ⟨_, rfl⟩) fun _ => .bind ?_ fun _ _ => .pure _ _
  refine .get_bind ?_
  have hok : 0 ≤ l.reservedAmount ∧ l.reservedAmount ≤ l.remainingAmount + take := by omega
  simp only [hl, Lot.withAmounts, hok, and_self, dite_true]
  exact ⟨_, rfl⟩

/-- What gives `take` back to a lot, or to a new one in its place. -/
theorem refundTarget_ok (hw : Filed n w) (hl : w.lots.get id = some l) (hsame : lot.Same l)
    (htake : 0 ≤ take) (h : refundTarget now ws id lot take w = .ok (target, w')) :
    ∃ next lots, w' = { w with nextId := next, lots := lots } ∧
      (∀ j x, w.lots.get j = some x → ∃ x', w'.lots.get j = some x' ∧ x.Same x') ∧
      w.OldLots w' ∧ w'.availableBalance now ws =
        w.availableBalance now ws + if lot.takesBack now ws then take else 0 := by
  rcases ite_ok.mp h with ⟨hlapsed, h⟩ | ⟨hlapsed, h⟩
  · rw [require_bind_ok, insertLot, get_bind, set_bind] at h
    cases pure_ok.mp h.2
    refine ⟨_, _, rfl, fun j x hx => ⟨x, ?_, .refl x⟩, ⟨Nat.le_succ _, fun j hj hx => ?_⟩, ?_⟩
    · have hj : j ≠ w.nextId := by
        rintro rfl
        rw [hw.new_lot] at hx
        cases hx
      rw [Table.get_put_ne _ _ hj]
      exact hx
    · have hx : ((w.lots.put w.nextId _).get j).isSome := hx
      rwa [Table.get_put_ne _ _ (Nat.ne_of_lt hj)] at hx
    · have htakes : lot.takesBack now ws = true := by
        have hyes : lot.lapsed now = true := decide_eq_true hlapsed
        simp [Lot.takesBack, hyes]
      rw [availableBalance_insert hw.new_lot, compensation_worth htake, if_pos htakes]
  · obtain ⟨_, w₁, hup, h⟩ := bind_ok.mp h
    cases pure_ok.mp h
    obtain ⟨table, hw₁, ⟨hnone, -⟩ | ⟨l₀, l', hget, hf, htable⟩⟩ := updateLot_ok hup
    · cases hl.symm.trans hnone
    · cases hl.symm.trans hget
      have hw₁ : w' = { w with lots := table } := hw₁
      obtain ⟨hkept, hworth⟩ := refund_worth (hw.drained _ _ hl) hf
      refine ⟨w.nextId, table, hw₁, fun j x hx => ?_, ⟨by rw [hw₁], fun j _ hx => ?_⟩, ?_⟩
      · rw [hw₁]
        show ∃ x', table.get j = some x' ∧ x.Same x'
        rw [htable, Table.get_put]
        split
        · rename_i hj
          rw [hj, hl] at hx
          cases hx
          exact ⟨l', rfl, hkept⟩
        · exact ⟨x, hx, .refl x⟩
      · rw [hw₁, show ({ w with lots := table } : Wallet).lots = table from rfl, htable,
          Table.get_put] at hx
        split at hx
        · rename_i hj
          rw [hj, hl]
          rfl
        · exact hx
      · have htakes : lot.takesBack now ws = true ↔
            l.workspaceId = ws ∧ l.state ≠ .expired ∧ l.unexpired now := by
          have hno : lot.lapsed now = false := by simpa [Lot.lapsed] using hlapsed
          simp [Lot.takesBack, hno, hsame.workspace, hsame.unexpired, hsame.expired]
        rw [hw₁, htable, availableBalance_put hl, hworth]
        simp only [htakes]
        omega

end Target

def Wallet.Holds (w : Wallet) (charges : List (Id × Int × Lot)) : Prop :=
  ∀ r ∈ charges, 0 ≤ r.2.1 ∧ ∃ l, w.lots.get r.1 = some l ∧ r.2.2.Same l

theorem Wallet.Holds.mono {w : Wallet} {charges : List (Id × Int × Lot)} (h : w.Holds charges)
    (hlots : ∀ j x, w.lots.get j = some x → ∃ x', w'.lots.get j = some x' ∧ x.Same x') :
    w'.Holds charges := by
  intro r hr
  obtain ⟨hamount, l, hl, hsame⟩ := h r hr
  obtain ⟨l', hl', hkept⟩ := hlots r.1 l hl
  exact ⟨hamount, l', hl', hsame.trans hkept⟩

theorem reached_of_nonpos (h : left ≤ 0) (charges : List (Id × Int × Lot)) :
    reached left charges = [] :=
  Lib.fill_of_nonpos h _

theorem reached_cons (h : 0 < left) (id : Id) (amount : Int) (lot : Lot)
    (charges : List (Id × Int × Lot)) : reached left ((id, amount, lot) :: charges) =
      ((id, amount, lot), min left amount) :: reached (left - min left amount) charges :=
  Lib.fill_cons h _ _ _

/-- What the refund writes: the postings of its entry, and the lots it reaches. -/
structure GivesBack (now : Timestamp) (ws entry : Id) (shares : List ((Id × Int × Lot) × Int))
    (w w' : Wallet) : Prop where
  rows : ∃ next lots posted, w' = { w with
      nextId := next, lots := lots, ledgerAllocations := w.ledgerAllocations ++ posted } ∧
    posted.map LedgerAllocation.amount = shares.map Prod.snd ∧ ∀ a ∈ posted, a.ledgerEntryId = entry
  lots : ∀ j x, w.lots.get j = some x → ∃ x', w'.lots.get j = some x' ∧ x.Same x'
  old : w.OldLots w'
  balance : w'.availableBalance now ws = w.availableBalance now ws +
    total (fun p : (Id × Int × Lot) × Int => p.1.2.2.takesBack now ws) Prod.snd shares

theorem GivesBack.refl : GivesBack now ws entry [] w w :=
  ⟨⟨w.nextId, w.lots, [], by simp, rfl, by simp⟩, fun _ x hx => ⟨x, hx, .refl x⟩,
    ⟨le_rfl, fun _ _ hx => hx⟩, (Int.add_zero _).symm⟩

section Loop
variable {entry : Id} {left : Int} {charges : List (Id × Int × Lot)}

theorem refund_posted (hw : Filed n w) (hentry : entry < n) {target : Id} {lot : Lot} {amount : Int}
    (hl : w.lots.get id = some l) (htake : 0 ≤ min left amount)
    (h : refundTarget now ws id lot (min left amount) w = .ok (target, w')) : Filed n { w' with
      ledgerAllocations := w'.ledgerAllocations ++ [⟨entry, target, min left amount⟩] } := by
  have hid : id < w.nextId := hw.lots_old id l hl
  obtain ⟨m, hm, htarget, hw'⟩ :=
    refundTarget_files hid w target w' { hw with ids := le_rfl } h
  have hn : n ≤ m := hw.ids.trans hm
  exact (insertLedgerAllocation_files (Nat.lt_of_lt_of_le hentry hn) htarget htake w' _ _ hw'
    rfl).since hn

theorem refundLots_succeeds (hw : Filed n w) (hentry : entry < n) (hrows : w.Holds charges) :
    Succeeds (refundLots now ws entry left charges) w := by
  induction charges generalizing left w with
  | nil => exact .pure _ _
  | cons r charges ih =>
    obtain ⟨id, amount, lot⟩ := r
    obtain ⟨hamount, l, hl, hsame⟩ := hrows _ List.mem_cons_self
    refine .ite (fun _ => .pure _ _) fun hleft => ?_
    have hamount : 0 ≤ amount := hamount
    have htake : 0 ≤ min left amount := by omega
    refine .bind (refundTarget_succeeds hl htake) fun t ht => .modify_bind ?_
    obtain ⟨next, lots, hw', hkept, -, -⟩ := refundTarget_ok hw hl hsame htake ht
    have hrest : t.2.Holds charges := (show w.Holds charges from fun r hr =>
      hrows r (List.mem_cons_of_mem _ hr)).mono hkept
    exact .bind (ih (refund_posted hw hentry hl htake ht) hrest) fun _ _ => .pure _ _

theorem refundLots_ok (hw : Filed n w) (hentry : entry < n) (hrows : w.Holds charges)
    (h : refundLots now ws entry left charges w = .ok (refunded, w')) :
    refunded = ((reached left charges).map Prod.snd).sum ∧
      GivesBack now ws entry (reached left charges) w w' := by
  induction charges generalizing left refunded w with
  | nil =>
    cases pure_ok.mp h
    exact ⟨rfl, .refl⟩
  | cons r charges ih =>
    obtain ⟨id, amount, lot⟩ := r
    obtain ⟨hamount, l, hl, hsame⟩ := hrows _ List.mem_cons_self
    rcases ite_ok.mp h with ⟨hleft, h⟩ | ⟨hleft, h⟩
    · cases pure_ok.mp h
      rw [reached_of_nonpos hleft]
      exact ⟨rfl, .refl⟩
    have hamount : 0 ≤ amount := hamount
    have htake : 0 ≤ min left amount := by omega
    obtain ⟨target, w₁, htarget, h⟩ := bind_ok.mp h
    rw [insertLedgerAllocation, modify_bind] at h
    obtain ⟨refunded', w₂, hlots, h⟩ := bind_ok.mp h
    cases pure_ok.mp h
    obtain ⟨next, lots, hw₁, hkept, hold, hbalance⟩ := refundTarget_ok hw hl hsame htake htarget
    have hrest : w₁.Holds charges := (show w.Holds charges from fun r hr =>
      hrows r (List.mem_cons_of_mem _ hr)).mono hkept
    obtain ⟨hsum, ⟨next', lots', posted, hw₂, hamounts, hentries⟩, hkept', hold', hbalance'⟩ :=
      ih (refund_posted hw hentry hl htake htarget) hrest hlots
    rw [reached_cons (by omega)]
    refine ⟨?_, ⟨next', lots', ⟨entry, target, min left amount⟩ :: posted, ?_, ?_, ?_⟩,
      fun j x hx => ?_, hold.trans ⟨hold'.ids, hold'.lots⟩, ?_⟩
    · rw [List.map_cons, List.sum_cons, ← hsum]
    · rw [hw₂, hw₁]
      simp
    · rw [List.map_cons, List.map_cons, hamounts]
    · simpa using hentries
    · obtain ⟨x₁, hx₁, hsame₁⟩ := hkept j x hx
      obtain ⟨x₂, hx₂, hsame₂⟩ := hkept' j x₁ hx₁
      exact ⟨x₂, hx₂, hsame₁.trans hsame₂⟩
    · rw [hbalance', Lib.total_cons]
      have hsame : Wallet.availableBalance { w₁ with
          ledgerAllocations := w₁.ledgerAllocations ++ [⟨entry, target, min left amount⟩] } now ws =
          w₁.availableBalance now ws := rfl
      rw [hsame, hbalance]
      exact Int.add_assoc _ _ _

end Loop

theorem chargesOf_holds (hw : Filed n w) (runId : Id) : w.Holds (w.chargesOf runId) := by
  intro r hr
  refine ⟨chargesOf_nonneg hw runId r hr, r.2.2, ?_, .refl _⟩
  obtain ⟨la, -, hr⟩ := List.mem_filterMap.mp hr
  split at hr
  · cases hr
  · split at hr
    · obtain ⟨l, hl, rfl⟩ := Option.map_eq_some_iff.mp hr
      exact hl
    · cases hr

/-- `v_already` -/
def Wallet.refundedTotal (w : Wallet) (runId : Id) : Int :=
  total (fun r : Id × LedgerEntry => r.2.runId = some runId ∧ r.2.entryType = .refund)
    (fun r => r.2.amount) w.ledger.rows

/-- `v_charged` -/
def Wallet.chargedTotal (w : Wallet) (runId : Id) : Int :=
  ((w.settlements.get runId).map (·.customerChargeIrr)).getD 0

/-- What a call that asks for `amount` would refund. -/
def Wallet.refundFor (w : Wallet) (runId : Id) (amount : Option Int) : Int :=
  min (asked amount) (w.chargedTotal runId - w.refundedTotal runId)

structure Refunds (now : Timestamp) (runId : Id) (run : Run) (amount : Option Int)
    (key : Option String) (w w' : Wallet) : Prop where
  charged : 0 < w.chargedTotal runId
  positive : 0 < w.refundFor runId amount
  entry : ∃ e, w'.ledger = w.ledger.put w.nextId e ∧ e.runId = some runId ∧
    e.entryType = .refund ∧ e.amount = w.refundFor runId amount
  posted : ∃ posted, w'.ledgerAllocations = w.ledgerAllocations ++ posted ∧
    posted.map LedgerAllocation.amount =
      (reached (w.refundFor runId amount) (w.chargesOf runId)).map Prod.snd ∧
    ∀ a ∈ posted, a.ledgerEntryId = w.nextId
  runs : w'.runs = w.runs
  settlements : w'.settlements = w.settlements
  commands : ∀ k, some k ≠ key → w'.commands.get k = w.commands.get k
  lots : ∀ j x, w.lots.get j = some x → ∃ x', w'.lots.get j = some x' ∧ x.Same x'
  old : w.OldLots w'
  balance : w'.availableBalance now run.workspaceId = w.availableBalance now run.workspaceId +
    total (fun p : (Id × Int × Lot) × Int => p.1.2.2.takesBack now run.workspaceId) Prod.snd
      (reached (w.refundFor runId amount) (w.chargesOf runId))

theorem recordCommand_get {key : Option String} {c : Command} {k : String} (hk : some k ≠ key) :
    (w.recordCommand key c).commands.get k = w.commands.get k := by
  cases key with
  | none => rfl
  | some key' =>
    have hne : k ≠ key' := fun h => hk (congrArg some h)
    simp only [Wallet.recordCommand]
    split
    · rfl
    · exact Table.get_put_ne _ _ hne

section Call
variable {runId : Id} {run : Run} {amount : Option Int} {reason key : Option String}

theorem aiRefundRun_does (now : Timestamp) (reason : Option String) (hw : Filed 0 w)
    (hkey : w.replay key = none) (hrun : w.runs.get runId = some run) (hcharged : 0 < w.chargedTotal runId)
    (hleft : 0 < w.refundFor runId amount) :
    ∃ w', aiRefundRun now runId amount reason key w = .ok (.refunded w.nextId
        ((reached (w.refundFor runId amount) (w.chargesOf runId)).map Prod.snd).sum, w') ∧
      Refunds now runId run amount key w w' := by
  obtain ⟨wallets, hlock⟩ := lock_eq w run.workspaceId
  let entry : LedgerEntry :=
    { workspaceId := run.workspaceId, runId, entryType := .refund, amount := w.refundFor runId amount
      billingCycleId := some (monthText now), reason := reason.getD "refund" }
  let opened : Wallet := { w with
    nextId := w.nextId + 1, wallets := wallets, ledger := w.ledger.put w.nextId entry }
  have hlocked : Filed 0 { w with wallets := wallets } :=
    hw.frame rfl rfl rfl (fun _ ha => ha) le_rfl
  have hopened : Filed (w.nextId + 1) opened := (insertLedger_files entry _ _ _ hlocked rfl).2
  have hholds : opened.Holds (w.chargesOf runId) :=
    (chargesOf_holds hw runId).mono fun _ x hx => ⟨x, hx, .refl x⟩
  obtain ⟨⟨refunded, w₁⟩, hlots⟩ : Succeeds (refundLots now run.workspaceId w.nextId
      (w.refundFor runId amount) (w.chargesOf runId)) opened :=
    refundLots_succeeds hopened (Nat.lt_succ_self _) hholds
  obtain ⟨hrefunded, ⟨next, lots, posted, hw₁, hamounts, hentries⟩, hkept, hold, hbalance⟩ :=
    refundLots_ok hopened (Nat.lt_succ_self _) hholds hlots
  let c : Command := ⟨.refund, run.workspaceId, runId, w.nextId⟩
  refine ⟨(w₁.project run.workspaceId).recordCommand key c, ?_, ?_⟩
  · rw [aiRefundRun, get_bind]
    simp only [hkey, hrun, modify_bind, hlock]
    rw [require_bind_ok, require_bind_ok]
    refine ⟨hcharged, hleft, ?_⟩
    simp only [insertLedger, bind_assoc, pure_bind]
    rw [get_bind, set_bind]
    refine bind_ok.mpr ⟨refunded, w₁, hlots, ?_⟩
    rw [modify_bind, modify_bind, hrefunded]
    rfl
  · obtain ⟨commands, hcommands⟩ := recordCommand_eq (w₁.project run.workspaceId) key c
    refine ⟨hcharged, hleft, ⟨entry, ?_, rfl, rfl, rfl⟩, ⟨posted, ?_, hamounts, hentries⟩, ?_, ?_,
      fun k hk => ?_, fun j x hx => ?_, ?_, ?_⟩
    · rw [hcommands, hw₁]
      rfl
    · rw [hcommands, hw₁]
      rfl
    · rw [hcommands, hw₁]
      rfl
    · rw [hcommands, hw₁]
      rfl
    · rw [recordCommand_get hk, hw₁]
      rfl
    · rw [hcommands]
      exact hkept j x hx
    · rw [hcommands]
      exact ⟨(Nat.le_succ _).trans hold.ids, fun j hj hx => hold.lots j (Nat.lt_succ_of_lt hj) hx⟩
    · rw [hcommands]
      exact hbalance

theorem aiRefundRun_ok {r : RefundResult × Wallet}
    (h : aiRefundRun now runId amount reason key w = .ok r) :
    (∃ id, r = (.replayed id, w)) ∨ w.replay key = none ∧ (w.runs.get runId).isSome ∧
      0 < w.chargedTotal runId ∧ 0 < w.refundFor runId amount := by
  rw [aiRefundRun, get_bind] at h
  cases hkey : w.replay key with
  | some id =>
    simp only [hkey] at h
    cases pure_ok.mp h
    exact .inl ⟨id, rfl⟩
  | none =>
    cases hrun : w.runs.get runId with
    | none =>
      simp only [hkey, hrun] at h
      exact (throw_ok.mp h).elim
    | some run =>
      obtain ⟨wallets, hlock⟩ := lock_eq w run.workspaceId
      simp only [hkey, hrun, modify_bind, hlock] at h
      rw [require_bind_ok, require_bind_ok] at h
      exact .inr ⟨rfl, rfl, h.1, h.2.1⟩

theorem refund_balance (hw : Filed 0 w) (hrun : w.runs.get runId = some run)
    (h : aiRefundRun now runId amount reason key w = .ok (.refunded entry refunded, w')) :
    refunded = ((reached (w.refundFor runId amount) (w.chargesOf runId)).map Prod.snd).sum ∧
      w'.availableBalance now run.workspaceId = w.availableBalance now run.workspaceId +
        total (fun p : (Id × Int × Lot) × Int => p.1.2.2.takesBack now run.workspaceId) Prod.snd
          (reached (w.refundFor runId amount) (w.chargesOf runId)) := by
  rcases aiRefundRun_ok h with ⟨id, h⟩ | ⟨hkey, -, hcharged, hleft⟩
  · cases h
  · obtain ⟨w₁, hcall, hdoes⟩ :=
      aiRefundRun_does now reason hw hkey hrun hcharged hleft
    cases h.symm.trans hcall
    exact ⟨rfl, hdoes.balance⟩

end Call

theorem reached_nonneg (hw : Filed n w) (runId : Id) (left : Int) :
    ∀ p ∈ reached left (w.chargesOf runId), 0 ≤ p.2 := by
  refine Lib.fill_nonneg (fun p hp => ?_) left
  obtain ⟨r, hr, rfl⟩ := List.mem_map.mp hp
  exact chargesOf_nonneg hw runId r hr

def Wallet.charged (w : Wallet) (runId : Id) : List (Id × Int) :=
  (w.chargesOf runId).map fun r => (r.1, r.2.1)

def Wallet.postings (w : Wallet) (entryId : Id) : List Int :=
  (w.ledgerAllocations.filter fun a => a.ledgerEntryId = entryId).map LedgerAllocation.amount

def Wallet.refundsOf (w : Wallet) (runId : Id) : List (Id × LedgerEntry) :=
  w.ledger.rows.filter fun r => r.2.runId = some runId ∧ r.2.entryType = .refund

def Wallet.refundHistory (w : Wallet) (runId : Id) : List (Int × List Int) :=
  (w.refundsOf runId).map fun r => (r.2.amount, w.postings r.1)

def Wallet.givenBack (w : Wallet) (runId lotId : Id) : Int :=
  ((w.refundHistory runId).map fun e =>
    share lotId (((w.charged runId).map Prod.fst).zip e.2)).sum

theorem reached_charged (left : Int) (w : Wallet) (runId : Id) :
    (reached left (w.chargesOf runId)).map Prod.snd =
      (fill left (w.charged runId)).map Prod.snd := by
  have hmap := Lib.fill_map (fun r : Id × Int × Lot => r.1) left
    ((w.chargesOf runId).map fun r => (r, r.2.1))
  unfold reached Wallet.charged
  rw [List.map_map] at hmap
  have hsnd := congrArg (List.map Prod.snd) hmap
  rw [List.map_map] at hsnd
  exact hsnd.symm

theorem refundedTotal_eq (w : Wallet) (runId : Id) :
    w.refundedTotal runId = ((w.refundHistory runId).map Prod.fst).sum := by
  unfold Wallet.refundedTotal Wallet.refundHistory Wallet.refundsOf
  induction w.ledger.rows with
  | nil => rfl
  | cons r rows ih => by_cases h : r.2.runId = some runId ∧ r.2.entryType = .refund <;> simp_all

theorem Filed.new_entry (hw : Filed n w) : w.ledger.get w.nextId = none := by
  cases hx : w.ledger.get w.nextId with
  | none => rfl
  | some x => exact (lt_irrefl _ (hw.ledger_old _ x hx)).elim

theorem Filed.no_postings (hw : Filed n w) : w.postings w.nextId = [] := by
  unfold Wallet.postings
  rw [List.filter_eq_nil_iff.mpr fun a ha => ?_, List.map_nil]
  have hold := hw.posted_old a ha
  simp only [decide_eq_true_eq]
  exact Nat.ne_of_lt hold

theorem postings_append {posted : List LedgerAllocation}
    (hw' : w'.ledgerAllocations = w.ledgerAllocations ++ posted)
    (hposted : ∀ a ∈ posted, a.ledgerEntryId = entry) (id : Id) : w'.postings id = w.postings id ++
      if id = entry then posted.map LedgerAllocation.amount else [] := by
  unfold Wallet.postings
  rw [hw', List.filter_append, List.map_append]
  congr 1
  split
  · rename_i hid
    rw [List.filter_eq_self.mpr fun a ha => by simp [hposted a ha, hid]]
  · rename_i hid
    rw [List.filter_eq_nil_iff.mpr fun a ha => by simp [hposted a ha, Ne.symm hid], List.map_nil]

section History
variable {runId : Id} {run : Run} {amount : Option Int} {key : Option String} {w' : Wallet}

theorem Refunds.history (h : Refunds now runId run amount key w w') (hw : Filed 0 w) :
    w'.refundHistory runId = w.refundHistory runId ++ [(w.refundFor runId amount,
        (fill (w.refundFor runId amount) (w.charged runId)).map Prod.snd)] := by
  obtain ⟨e, hledger, hrun, htype, hamount⟩ := h.entry
  obtain ⟨posted, hposted, hamounts, hentries⟩ := h.posted
  have hpostings := postings_append hposted hentries
  have hold : ∀ r ∈ w.refundsOf runId, w'.postings r.1 = w.postings r.1 := by
    intro r hr
    have hid := hw.ledger_old r.1 r.2 (Table.get_eq_some_iff_mem.mpr (List.mem_filter.mp hr).1)
    rw [hpostings, if_neg (Nat.ne_of_lt hid), List.append_nil]
  have hnew : w'.postings w.nextId =
      (fill (w.refundFor runId amount) (w.charged runId)).map Prod.snd := by
    rw [hpostings, if_pos rfl, hw.no_postings, List.nil_append, hamounts, reached_charged]
  have hrefunds : w'.refundsOf runId = w.refundsOf runId ++ [(w.nextId, e)] := by
    unfold Wallet.refundsOf
    rw [hledger, Table.rows_put_new hw.new_entry, List.filter_append]
    simp [hrun, htype]
  unfold Wallet.refundHistory
  rw [hrefunds, List.map_append, List.map_singleton, hnew, hamount]
  exact congrArg (· ++ _) (List.map_congr_left fun r hr => by rw [hold r hr])

def Wallet.chargeOf (w : Wallet) (runId : Id) (la : LedgerAllocation) : Option (Id × Int) :=
  if ((w.ledger.get la.ledgerEntryId).any fun e =>
      e.runId = some runId ∧ e.entryType = .charge) ∧ (w.lots.get la.lotId).isSome then
    some (la.lotId, la.amount)
  else none

theorem charged_eq (w : Wallet) (runId : Id) :
    w.charged runId = w.ledgerAllocations.filterMap (w.chargeOf runId) := by
  unfold Wallet.charged Wallet.chargesOf
  rw [List.map_filterMap]
  refine List.filterMap_congr fun la _ => ?_
  unfold Wallet.chargeOf
  cases w.ledger.get la.ledgerEntryId with
  | none => rfl
  | some e =>
    by_cases h : e.runId = some runId ∧ e.entryType = .charge <;>
      cases w.lots.get la.lotId <;> simp [h]

theorem Refunds.charges (h : Refunds now runId run amount key w w') (hw : Filed 0 w) :
    w'.charged runId = w.charged runId := by
  obtain ⟨e, hledger, -, htype, -⟩ := h.entry
  obtain ⟨posted, hposted, -, hentries⟩ := h.posted
  have hold : ∀ la ∈ w.ledgerAllocations, w'.ledger.get la.ledgerEntryId =
      w.ledger.get la.ledgerEntryId ∧
      (w'.lots.get la.lotId).isSome = (w.lots.get la.lotId).isSome := by
    intro la hla
    rw [hledger, Table.get_put_ne _ _ (Nat.ne_of_lt (hw.posted_old la hla))]
    refine ⟨rfl, Bool.eq_iff_iff.mpr ⟨h.old.lots _ (hw.posted_lots la hla), fun hx => ?_⟩⟩
    obtain ⟨x, hx⟩ := Option.isSome_iff_exists.mp hx
    obtain ⟨x', hx', -⟩ := h.lots _ x hx
    rw [hx']
    rfl
  have hsame : ∀ la ∈ w.ledgerAllocations, w'.chargeOf runId la = w.chargeOf runId la := by
    intro la hla
    unfold Wallet.chargeOf
    rw [(hold la hla).1, (hold la hla).2]
  have hnone : ∀ la ∈ posted, w'.chargeOf runId la = none := by
    intro la hla
    unfold Wallet.chargeOf
    rw [hentries la hla, hledger, Table.get_put_self]
    simp [htype]
  rw [charged_eq, charged_eq, hposted, List.filterMap_append, List.filterMap_congr hsame,
    List.filterMap_eq_nil_iff.mpr hnone, List.append_nil]

theorem Refunds.refundedTotal (h : Refunds now runId run amount key w w') (hw : Filed 0 w) :
    w'.refundedTotal runId = w.refundedTotal runId + w.refundFor runId amount := by
  rw [refundedTotal_eq, refundedTotal_eq, h.history hw]
  simp

theorem Refunds.chargedTotal (h : Refunds now runId run amount key w w') :
    w'.chargedTotal runId = w.chargedTotal runId := by
  unfold Wallet.chargedTotal
  rw [h.settlements]

theorem Refunds.replay (h : Refunds now runId run amount key w w') {other : Option String}
    (hother : other.isSome → other ≠ key) : w'.replay other = w.replay other := by
  cases other with
  | none => rfl
  | some k =>
    unfold Wallet.replay
    rw [Option.bind_some, Option.bind_some, h.commands k (hother rfl)]

end History

structure RefundCall where
  now : Timestamp
  amount : Option Int
  reason : Option String
  key : Option String

def refundStep (runId : Id) (w : Wallet) (c : RefundCall) : Wallet :=
  walletStep w (c.now, .refundRun runId c.amount c.reason c.key)

variable {c : RefundCall}

theorem refundStep_refunds {run : Run} (hw : Filed 0 w) (hkey : w.replay c.key = none)
    (hrun : w.runs.get runId = some run) (hcharged : 0 < w.chargedTotal runId)
    (hleft : 0 < w.refundFor runId c.amount) :
    Refunds c.now runId run c.amount c.key w (refundStep runId w c) := by
  obtain ⟨w', hcall, h⟩ :=
    aiRefundRun_does c.now c.reason hw hkey hrun hcharged hleft
  have hstep : refundStep runId w c = w' := by
    show commit (aiRefundRun c.now runId c.amount c.reason c.key >>= fun _ => Pure.pure ()) w = w'
    unfold commit
    rw [bind_ok.mpr ⟨_, w', hcall, rfl⟩]
  rwa [hstep]

theorem refundStep_refuses (h : ¬(0 < w.chargedTotal runId ∧ 0 < w.refundFor runId c.amount)) :
    refundStep runId w c = w := by
  show commit (aiRefundRun c.now runId c.amount c.reason c.key >>= fun _ => Pure.pure ()) w = w
  unfold commit
  cases hcall : (aiRefundRun c.now runId c.amount c.reason c.key >>= fun _ => Pure.pure ()) w with
  | error e => rfl
  | ok r =>
    obtain ⟨a, w', hrefund, hdone⟩ := bind_ok.mp hcall
    cases pure_ok.mp hdone
    rcases aiRefundRun_ok hrefund with ⟨id, hreplay⟩ | ⟨-, -, hpos⟩
    · cases hreplay
      rfl
    · exact (h hpos).elim

theorem refundStep_filed (runId : Id) (c : RefundCall) (hw : Filed 0 w) :
    Filed 0 (refundStep runId w c) := hw.step _

variable {calls : List RefundCall}

/-- Each call in turn gets what is left of the charge, and is walked over the charged
lots from the first. -/
theorem refundHistory_run (hw : Filed 0 w) (hrun : (w.runs.get runId).isSome)
    (hnonneg : 0 ≤ w.refundedTotal runId) (hfresh : ∀ c ∈ calls, w.replay c.key = none)
    (hkeys : (calls.filterMap (·.key)).Nodup) : let w' := Lib.run (refundStep runId) w calls
    w'.charged runId = w.charged runId ∧ w'.chargedTotal runId = w.chargedTotal runId ∧
      w'.refundHistory runId = w.refundHistory runId ++
        (grants (w.chargedTotal runId - w.refundedTotal runId)
          (calls.map fun c => asked c.amount)).map fun g =>
            (g, (fill g (w.charged runId)).map Prod.snd) := by
  induction calls generalizing w with
  | nil => simp [grants]
  | cons c calls ih =>
    obtain ⟨run, hget⟩ := Option.isSome_iff_exists.mp hrun
    have hkey := hfresh c List.mem_cons_self
    have hrest : ∀ c' ∈ calls, w.replay c'.key = none :=
      fun c' hc' => hfresh c' (List.mem_cons_of_mem _ hc')
    have hnodup : (calls.filterMap (·.key)).Nodup := by
      cases hc : c.key with
      | none => simpa [hc] using hkeys
      | some k => exact (List.nodup_cons.mp (by simpa [hc] using hkeys)).2
    rw [Lib.run_cons, List.map_cons]
    unfold grants
    have hfor : min (asked c.amount) (w.chargedTotal runId - w.refundedTotal runId) =
        w.refundFor runId c.amount := rfl
    rw [hfor]
    by_cases hleft : 0 < w.refundFor runId c.amount
    · have hcharged : 0 < w.chargedTotal runId := by
        omega
      have h := refundStep_refunds hw hkey hget hcharged hleft
      have hother : ∀ c' ∈ calls, c'.key.isSome → c'.key ≠ c.key := by
        intro c' hc' hsome heq
        obtain ⟨k, hk⟩ := Option.isSome_iff_exists.mp hsome
        rw [List.filterMap_cons_some (heq ▸ hk)] at hkeys
        exact (List.nodup_cons.mp hkeys).1 (List.mem_filterMap.mpr ⟨c', hc', hk⟩)
      have hfiled := refundStep_filed runId c hw
      have hrun' : ((refundStep runId w c).runs.get runId).isSome := by
        rw [h.runs]
        exact hrun
      have hnonneg' : 0 ≤ (refundStep runId w c).refundedTotal runId := by
        rw [h.refundedTotal hw]
        omega
      have hfresh' : ∀ c' ∈ calls, (refundStep runId w c).replay c'.key = none := by
        intro c' hc'
        rw [h.replay (hother c' hc')]
        exact hrest c' hc'
      obtain ⟨hcharges, htotal, hhistory⟩ := ih hfiled hrun' hnonneg' hfresh' hnodup
      rw [h.chargedTotal, h.charges hw] at *
      refine ⟨hcharges, htotal, ?_⟩
      rw [hhistory, h.history hw, h.refundedTotal hw, if_pos hleft, List.append_assoc,
        ← Int.sub_sub]
      rfl
    · rw [refundStep_refuses fun hpos => hleft hpos.2, if_neg hleft]
      exact ih hw hrun hnonneg hrest hnodup

structure RefundsRouted (runId : Id) (w : Wallet) : Prop where
  within_lots : ∀ lot, w.givenBack runId lot ≤ share lot (w.charged runId)
  within_charge : 0 < w.refundedTotal runId → w.refundedTotal runId ≤ w.chargedTotal runId
  allocated : ∀ e ∈ w.refundHistory runId, e.1 = e.2.sum

theorem routed_iff_fits {gs : List Int} {charges : List (Id × Int)}
    (hcharges : w.charged runId = charges) (hnonneg : ∀ p ∈ charges, 0 ≤ p.2)
    (hpos : ∀ g ∈ gs, 0 < g) (hsum : 0 < gs.sum → gs.sum ≤ w.chargedTotal runId)
    (hhistory : w.refundHistory runId = gs.map fun g => (g, (fill g charges).map Prod.snd)) :
    RefundsRouted runId w ↔ Lib.Fits charges gs := by
  have hback : ∀ lot, w.givenBack runId lot = (gs.map fun g => share lot (fill g charges)).sum := by
    intro lot
    unfold Wallet.givenBack
    rw [hhistory, hcharges, List.map_map]
    simp only [Function.comp_def, Lib.zip_fill]
  have htotal : w.refundedTotal runId = gs.sum := by
    rw [refundedTotal_eq, hhistory, List.map_map]
    simp [Function.comp_def]
  have hposted : ∀ g ∈ gs, ((fill g charges).map Prod.snd).sum =
      min g (charges.map Prod.snd).sum :=
    fun g hg => Lib.sum_fill (hpos g hg).le hnonneg
  constructor
  · intro h
    refine ⟨fun lot => ?_, fun g hg => ?_⟩
    · rw [← hback lot, ← hcharges]
      exact h.within_lots lot
    · have hall := h.allocated (g, _) (hhistory ▸ List.mem_map_of_mem hg)
      have := hposted g hg
      simp only at hall
      omega
  · rintro ⟨hlots, hfits⟩
    refine ⟨fun lot => ?_, ?_, fun e he => ?_⟩
    · rw [hback lot, hcharges]
      exact hlots lot
    · rw [htotal]
      exact hsum
    · rw [hhistory] at he
      obtain ⟨g, hg, rfl⟩ := List.mem_map.mp he
      have := hposted g hg
      have := hfits g hg
      simp only
      omega

theorem charged_nonneg (hw : Filed n w) (runId : Id) : ∀ p ∈ w.charged runId, 0 ≤ p.2 := by
  intro p hp
  obtain ⟨r, hr, rfl⟩ := List.mem_map.mp hp
  exact chargesOf_nonneg hw runId r hr

theorem refunds_routed (hw : Filed 0 w) (hrun : (w.runs.get runId).isSome)
    (hnone : w.refundsOf runId = []) (hfresh : ∀ c ∈ calls, w.replay c.key = none)
    (hkeys : (calls.filterMap (·.key)).Nodup) :
    RefundsRouted runId (Lib.run (refundStep runId) w calls) ↔ Lib.Fits (w.charged runId)
        (grants (w.chargedTotal runId) (calls.map fun c => asked c.amount)) := by
  have hempty : w.refundHistory runId = [] := by
    unfold Wallet.refundHistory
    rw [hnone, List.map_nil]
  have hzero : w.refundedTotal runId = 0 := by rw [refundedTotal_eq, hempty]; rfl
  obtain ⟨hcharges, htotal, hhistory⟩ := refundHistory_run hw hrun hzero.ge hfresh hkeys
  rw [hempty, hzero, Int.sub_zero, List.nil_append] at hhistory
  refine routed_iff_fits hcharges (charged_nonneg hw runId) (fun g hg => Lib.grants_pos g hg) ?_
    hhistory
  intro hpos
  rw [htotal]
  by_cases hcharged : 0 ≤ w.chargedTotal runId
  · exact Lib.sum_grants_le hcharged _
  · rw [Lib.grants_of_nonpos (by omega), List.sum_nil] at hpos
    exact (lt_irrefl _ hpos).elim

end Kindred.AiWallet
