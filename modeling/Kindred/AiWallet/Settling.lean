import Kindred.AiWallet.Books
import Kindred.AiWallet.Holds
import Kindred.AiWallet.Refunding

/-! What a settlement charges, from any state whose reservations add up. -/

namespace Kindred.AiWallet
open Lib (Table fill share Applied)
open Lib.Tx

structure Wallet.Held (w : Wallet) : Prop where
  reserved : ∀ id l, w.lots.get id = some l →
    l.reservedAmount = allocatedOn id w.reservationAllocations
  known : ∀ a ∈ w.reservationAllocations, (w.lots.get a.lotId).isSome
  positive : ∀ a ∈ w.reservationAllocations, 0 < a.amount

/-- Each reservation's amount is what its allocations come to, too, and ids are given out
once. -/
structure Wallet.Tallied (w : Wallet) : Prop extends w.Held where
  amounts : ∀ id r, w.reservations.get id = some r →
    r.amount = ((w.allocationsOf id).map ReservationAllocation.amount).sum
  posted_old : ∀ a ∈ w.ledgerAllocations, a.ledgerEntryId < w.nextId

variable {w : Wallet} {now : Timestamp} {ws : Id} {charge : Int}
  {allocations : List ReservationAllocation}

theorem sum_spendable : ((w.spendable now ws).map fun r => r.2.free).sum =
    w.availableBalance now ws := by
  rw [(spendable_perm.map _).sum_eq]
  unfold Wallet.availableBalance
  induction w.lots.rows with
  | nil => rfl
  | cons r rows ih =>
    have hsane := r.2.amounts_sane
    have hfree : ¬r.2.reservedAmount < r.2.remainingAmount → r.2.free = 0 := by
      unfold Lot.free
      omega
    rw [Lib.total_cons, ← ih, List.filter_cons]
    by_cases hlive : r.2.workspaceId = ws ∧ r.2.live ∧ r.2.unexpired now
    · by_cases hless : r.2.reservedAmount < r.2.remainingAmount
      · simp [hlive, hless]
      · simp [hlive, hless, hfree hless]
    · have hno : ¬(r.2.workspaceId = ws ∧ r.2.live ∧ r.2.unexpired now ∧
          r.2.reservedAmount < r.2.remainingAmount) :=
        fun h => hlive ⟨h.1, h.2.1, h.2.2.1⟩
      simp [hlive, hno]

theorem sum_holds {want : Int} (hwant : 0 ≤ want) :
    ((w.holds now ws want).map Prod.snd).sum = min want (w.availableBalance now ws) := by
  have hnonneg : ∀ p ∈ (w.spendable now ws).map fun r => (r.1, r.2.free), 0 ≤ p.2 := by
    intro p hp
    obtain ⟨r, hr, rfl⟩ := List.mem_map.mp hp
    exact (spendable_free r hr).le
  unfold Wallet.holds
  rw [Lib.sum_fill hwant hnonneg, List.map_map]
  exact congrArg (min want) sum_spendable

theorem availableBalance_nonneg : 0 ≤ w.availableBalance now ws := by
  refine Lib.total_nonneg fun r _ _ => ?_
  have := r.2.amounts_sane
  unfold Lot.free
  omega

variable {id runId : Id} {l : Lot} {left : Int} {run : Run} {r : Reservation} {w' : Wallet}
  {cycle : String}

theorem updateLot_succeeds {f : Lot → Option Lot} (h : ∀ l, w.lots.get id = some l → (f l).isSome)
    : Succeeds (updateLot id f) w := by
  refine .get_bind ?_
  cases hl : w.lots.get id with
  | none => exact ⟨_, rfl⟩
  | some l =>
    obtain ⟨l', hl'⟩ := Option.isSome_iff_exists.mp (h l hl)
    simp only [hl']
    exact ⟨_, rfl⟩

theorem withAmounts_isSome {remaining reserved : Int} {state : LotState}
    (h : 0 ≤ reserved ∧ reserved ≤ remaining) :
    (l.withAmounts remaining reserved state).isSome := by
  simp [Lot.withAmounts, h]

theorem holdLots_succeeds {lots : List (Id × Lot)} (hres : (w.reservations.get id).isSome)
    (hlots : ∀ r ∈ lots, w.lots.get r.1 = some r.2) (hnodup : (lots.map Prod.fst).Nodup)
    : Succeeds (holdLots id left lots) w := by
  induction lots generalizing left w with
  | nil => exact .pure _ _
  | cons r lots ih =>
    obtain ⟨lotId, lot⟩ := r
    obtain ⟨hid, hnodup⟩ := List.nodup_cons.mp hnodup
    have hrest : ∀ r ∈ lots, w.lots.get r.1 = some r.2 :=
      fun r hr => hlots r (List.mem_cons_of_mem _ hr)
    refine .ite (fun _ => .pure _ _) fun _ => .ite (fun hpos => ?_) fun _ => ih hres hrest hnodup
    have hold : ∀ l, w.lots.get lotId = some l → (Lot.hold (min left lot.free) l).isSome := by
      intro l hl
      have hlot : w.lots.get lotId = some lot := hlots _ List.mem_cons_self
      cases hlot.symm.trans hl
      have hsane := lot.amounts_sane
      apply withAmounts_isSome
      unfold Lot.free at *
      omega
    refine .bind (updateLot_succeeds hold) fun t ht => ?_
    obtain ⟨table, ht, hpost⟩ := updateLot_ok ht
    have hres' : (t.2.reservations.get id).isSome := by
      rw [ht]
      exact hres
    refine .bind (.get_bind (.require_bind hres' ⟨_, rfl⟩)) fun s hs => ?_
    obtain ⟨-, hs⟩ := insertReservationAllocation_ok hs
    have hlots' : ∀ r ∈ lots, s.2.lots.get r.1 = some r.2 := by
      intro r hr
      have hne : r.1 ≠ lotId := fun h => hid (List.mem_map.mpr ⟨r, hr, h⟩)
      rw [hs, ht]
      rcases hpost with ⟨-, htable⟩ | ⟨l, l', -, -, htable⟩
      · exact htable ▸ hrest r hr
      · show table.get r.1 = some r.2
        rw [htable, Table.get_put_ne _ _ hne]
        exact hrest r hr
    exact ih (by rw [hs]; exact hres') hlots' hnodup

theorem aiTopupReservation_succeeds (now : Timestamp) (delta : Option Int)
    (hrun : w.runs.get runId = some run) (hid : run.reservationId = some id)
    (hres : (w.reservations.get id).isSome) : Succeeds (aiTopupReservation now runId delta) w := by
  obtain ⟨wallets, hlock⟩ := lock_eq w run.workspaceId
  refine .get_bind ?_
  simp only [hrun, hid]
  refine .modify_bind (.bind ?_ fun _ _ => ⟨_, rfl⟩)
  rw [hlock]
  exact holdLots_succeeds hres spendable_get spendable_nodup

theorem fundCharge_succeeds (hrun : w.runs.get runId = some run) (hid : run.reservationId = some id)
    (hres : (w.reservations.get id).isSome) :
    Succeeds (fundCharge now runId run.reservationId charge) w := by
  obtain ⟨r, hr⟩ := Option.isSome_iff_exists.mp hres
  refine .ite (fun _ => ?_) fun _ => .pure _ _
  simp only [hid]
  refine .get_bind ?_
  simp only [hr]
  refine .ite (fun _ => .bind (aiTopupReservation_succeeds _ _ hrun hid hres) fun _ _ => ?_)
    fun _ => .pure _ _
  exact .ite (fun _ => .pure _ _) fun _ => .pure _ _

/-- No lot is charged for more than remains of it. -/
theorem chargeLots_succeeds {entry : Id} {rows : List (Id × Int)} (hpos : ∀ p ∈ rows, 0 < p.2)
    (hroom : ∀ j l, w.lots.get j = some l → share j rows ≤ l.remainingAmount) :
    Succeeds (chargeLots entry left rows) w := by
  induction rows generalizing left w with
  | nil => exact .pure _ _
  | cons p rows ih =>
    obtain ⟨lotId, amount⟩ := p
    have hamount : 0 < amount := hpos _ List.mem_cons_self
    have htail : ∀ p ∈ rows, 0 < p.2 := fun p hp => hpos p (List.mem_cons_of_mem _ hp)
    have hshare (j : Id) : 0 ≤ share j rows := Lib.share_nonneg fun p hp => (htail p hp).le
    refine .ite (fun _ => .pure _ _) fun hleft => ?_
    have hcharge : ∀ l, w.lots.get lotId = some l → (Lot.charge (min left amount) l).isSome := by
      intro l hl
      have hroom := hroom lotId l hl
      have hsane := l.amounts_sane
      have hrest := hshare lotId
      rw [Lib.share_cons, if_pos rfl] at hroom
      apply withAmounts_isSome
      omega
    refine .bind (updateLot_succeeds hcharge) fun t ht => .modify_bind (ih htail ?_)
    obtain ⟨table, ht, hpost⟩ := updateLot_ok ht
    intro j l hl
    have hl : table.get j = some l := by
      rw [ht] at hl
      exact hl
    have hold : ∀ l, w.lots.get j = some l →
        (if lotId = j then amount else 0) + share j rows ≤ l.remainingAmount :=
      fun l hl => hroom j l hl
    rcases hpost with ⟨-, htable⟩ | ⟨l₀, l', hl₀, hl', htable⟩
    · have := hold l (htable ▸ hl)
      split at this <;> omega
    · rw [htable, Table.get_put] at hl
      split at hl
      · rename_i hj
        cases hl
        have := hold l₀ (hj ▸ hl₀)
        rw [if_pos hj.symm] at this
        rw [(withAmounts_ok hl').1]
        omega
      · rename_i hj
        have := hold l hl
        rwa [if_neg (Ne.symm hj), Int.zero_add] at this

theorem giveBacks_succeed (hpos : ∀ a ∈ allocations, 0 < a.amount) :
    Succeeds (allocations.forM giveBack) w := by
  induction allocations generalizing w with
  | nil => exact .pure _ _
  | cons a allocations ih =>
    have hamount := hpos a List.mem_cons_self
    rw [List.forM_eq_forM, List.forM_cons, ← List.forM_eq_forM]
    refine .bind (updateLot_succeeds fun l _ => withAmounts_isSome ?_) fun _ _ =>
      ih fun b hb => hpos b (List.mem_cons_of_mem _ hb)
    have hsane := l.amounts_sane
    omega

theorem closeReservation_succeeds {id : Option Id}
    (hpos : ∀ a ∈ w.reservationAllocations, 0 < a.amount) : Succeeds (closeReservation id) w := by
  cases id with
  | none => exact .pure _ _
  | some id =>
    refine .bind ?_ fun _ _ => ⟨_, rfl⟩
    refine .get_bind ?_
    cases w.reservations.get id with
    | none => exact .pure _ _
    | some r =>
      exact .modify_bind (.bind (giveBacks_succeed fun a ha => hpos a (List.mem_filter.mp ha).1)
        fun _ _ => ⟨_, rfl⟩)

theorem chargeOrder_perm (hknown : ∀ a ∈ allocations, (w.lots.get a.lotId).isSome) :
    (w.chargeOrder allocations).Perm (allocations.map fun a => (a.lotId, a.amount)) := by
  refine ((List.perm_insertionSort _ _).map _).trans ?_
  rw [List.map_filterMap]
  refine .of_eq ?_
  rw [← List.filterMap_eq_map]
  refine List.filterMap_congr fun a ha => ?_
  obtain ⟨l, hl⟩ := Option.isSome_iff_exists.mp (hknown a ha)
  simp [hl]

theorem sum_chargeOrder (hknown : ∀ a ∈ allocations, (w.lots.get a.lotId).isSome) :
    ((w.chargeOrder allocations).map Prod.snd).sum =
      (allocations.map ReservationAllocation.amount).sum := by
  rw [((chargeOrder_perm hknown).map _).sum_eq, List.map_map]
  rfl

theorem Wallet.Held.room (hw : w.Held) (id j : Id) (hl : w.lots.get j = some l) :
    share j (w.chargeOrder (w.allocationsOf id)) ≤ l.remainingAmount := by
  have hle := allocatedOn_filter_le hw.positive id j
  have hsane := l.amounts_sane
  rw [share_chargeOrder hl]
  rw [hw.reserved j l hl] at hsane
  exact hle.trans hsane.2

theorem Wallet.Tallied.amount_nonneg (hw : w.Tallied) (hr : w.reservations.get id = some r)
    : 0 ≤ r.amount := by
  rw [hw.amounts id r hr]
  refine List.sum_nonneg fun x hx => ?_
  obtain ⟨a, ha, rfl⟩ := List.mem_map.mp hx
  exact (hw.positive a (List.mem_filter.mp ha).1).le

theorem paid_eq (hw : w.Tallied) (hid : run.reservationId = some id)
    (hr : w.reservations.get id = some r) (hcharge : 0 ≤ charge) :
    w.paid now run charge = min charge (r.amount + w.availableBalance now run.workspaceId) := by
  have hamount := hw.amount_nonneg hr
  have hfree : 0 ≤ w.availableBalance now run.workspaceId := availableBalance_nonneg
  by_cases hmore : 0 < charge ∧ r.amount < charge
  · have htop : w.topupFor now run charge = w.holds now run.workspaceId (charge - r.amount) := by
      simp [Wallet.topupFor, hid, hr, hmore]
    have hsum : ((w.holds now run.workspaceId (charge - r.amount)).map Prod.snd).sum =
        min (charge - r.amount) (w.availableBalance now run.workspaceId) := sum_holds (by omega)
    have hpaid : w.paid now run charge =
        r.amount + ((w.topupFor now run charge).map Prod.snd).sum := by
      simp [Wallet.paid, hid, hr, hmore]
    rw [hpaid, htop, hsum]
    omega
  · have hpaid : w.paid now run charge = charge := by
      simp only [Wallet.paid, hid, hr, if_neg hmore]
    rw [hpaid]
    omega

theorem Wallet.Held.hold (hw : w.Held) {table : Table Id Lot} {takes : List (Id × Int)}
    (happ : Applied Lot.hold takes w.lots table) (hpos : ∀ t ∈ takes, 0 < t.2)
    (hknown : ∀ t ∈ takes, (w.lots.get t.1).isSome) (id : Id) (hlots : w'.lots = table)
    (hheld : w'.reservationAllocations =
      w.reservationAllocations ++ AiWallet.allocationsFor id takes) : w'.Held := by
  have hkept : ∀ j, (w.lots.get j).isSome → (table.get j).isSome := by
    intro j hj
    obtain ⟨l, hl⟩ := Option.isSome_iff_exists.mp hj
    obtain ⟨l', hl', -⟩ := happ.2 j l hl
    rw [hl']
    rfl
  refine ⟨fun j l' hl => ?_, fun a ha => ?_, fun a ha => ?_⟩
  · obtain ⟨l, hget, hr, -⟩ := applied_hold happ (hlots ▸ hl)
    rw [hr, hw.reserved j l hget, hheld, ← share_allocationsFor id takes j, allocatedOn, allocatedOn,
      allocatedOn, Lib.total_append]
  · rw [hheld] at ha
    rw [hlots]
    rcases List.mem_append.mp ha with ha | ha
    · exact hkept _ (hw.known a ha)
    · obtain ⟨t, ht, rfl⟩ := List.mem_map.mp ha
      exact hkept _ (hknown t ht)
  · rw [hheld] at ha
    rcases List.mem_append.mp ha with ha | ha
    · exact hw.positive a ha
    · obtain ⟨t, ht, rfl⟩ := List.mem_map.mp ha
      exact hpos t ht

theorem topupFor_known : ∀ t ∈ w.topupFor now run charge, (w.lots.get t.1).isSome := by
  intro t ht
  unfold Wallet.topupFor at ht
  split at ht
  · cases ht
  · split at ht
    · obtain ⟨p, hp, hk⟩ := Lib.fill_keys ht
      obtain ⟨r, hr, rfl⟩ := List.mem_map.mp hp
      rw [← hk, spendable_get r hr]
      rfl
    · cases ht

theorem postCharge_succeeds (hid : run.reservationId = some id) (hw : w.Held) :
    Succeeds (postCharge run runId cycle charge) w := by
  have hrows : ∀ p ∈ w.chargeOrder (w.allocationsOf id), 0 < p.2 :=
    chargeOrder_pos fun a ha => hw.positive a (List.mem_filter.mp ha).1
  refine .ite (fun _ => .bind ⟨_, rfl⟩ fun r hr => .get_bind ?_) fun _ => .pure _ _
  rw [insertLedger, get_bind, set_bind] at hr
  cases pure_ok.mp hr
  rw [hid]
  exact .bind (chargeLots_succeeds hrows fun j l hl => hw.room id j hl) fun _ _ => ⟨_, rfl⟩

theorem postCharge_posts (hid : run.reservationId = some id)
    (hpos : ∀ a ∈ w.reservationAllocations, 0 < a.amount)
    (h : postCharge run runId cycle charge w = .ok ((), w')) :
    (charge ≤ 0 ∧ w' = w) ∨ 0 < charge ∧ ∃ e, w'.ledger = w.ledger.put w.nextId e ∧
      e.runId = some runId ∧ e.entryType = .charge ∧ e.amount = -charge ∧
      w'.ledgerAllocations = w.ledgerAllocations ++
        (fill charge (w.chargeOrder (w.allocationsOf id))).map fun t => ⟨w.nextId, t.1, t.2⟩ := by
  have hrows : ∀ p ∈ w.chargeOrder (w.allocationsOf id), 0 < p.2 :=
    chargeOrder_pos fun a ha => hpos a (List.mem_filter.mp ha).1
  rcases ite_ok.mp h with ⟨hc, h⟩ | ⟨hc, h⟩
  · rw [insertLedger, hid] at h
    simp only [bind_assoc, get_bind, set_bind, pure_bind] at h
    obtain ⟨_, w₁, hcharge, h⟩ := bind_ok.mp h
    cases modify_ok.mp h
    obtain ⟨table, -, hw₁⟩ := chargeLots_ok hrows hcharge
    have hw₁ : w₁ = _ := hw₁
    rw [hw₁]
    exact .inr ⟨hc, _, rfl, rfl, rfl, rfl, rfl⟩
  · cases pure_ok.mp h
    exact .inl ⟨by omega, rfl⟩

theorem postCharge_sums (hid : run.reservationId = some id) (hw : w.Held)
    (hold : ∀ a ∈ w.ledgerAllocations, a.ledgerEntryId < w.nextId)
    (hall : charge ≤ ((w.chargeOrder (w.allocationsOf id)).map Prod.snd).sum)
    (h : postCharge run runId cycle charge w = .ok ((), w')) :
    (charge ≤ 0 ∧ w' = w) ∨ 0 < charge ∧ ∃ e, w'.ledger = w.ledger.put w.nextId e ∧
      e.runId = some runId ∧ e.entryType = .charge ∧ e.amount = -charge ∧
      (w'.postings w.nextId).sum = charge := by
  rcases postCharge_posts hid hw.positive h with hzero | ⟨hcharge, e, hput, hrun, htype, hamount,
    hposted⟩
  · exact .inl hzero
  refine .inr ⟨hcharge, e, hput, hrun, htype, hamount, ?_⟩
  have hnone : w.postings w.nextId = [] := by
    unfold Wallet.postings
    rw [List.filter_eq_nil_iff.mpr fun a ha => by simpa using Nat.ne_of_lt (hold a ha), List.map_nil]
  have hrows : ∀ p ∈ w.chargeOrder (w.allocationsOf id), 0 ≤ p.2 := fun p hp =>
    (chargeOrder_pos (fun a ha => hw.positive a (List.mem_filter.mp ha).1) p hp).le
  have hentries : ∀ a ∈ (fill charge (w.chargeOrder (w.allocationsOf id))).map fun t =>
      (⟨w.nextId, t.1, t.2⟩ : LedgerAllocation), a.ledgerEntryId = w.nextId := by
    intro a ha
    obtain ⟨t, -, rfl⟩ := List.mem_map.mp ha
    rfl
  rw [postings_append hposted hentries, hnone, if_pos rfl, List.nil_append, List.map_map]
  have hsum := Lib.sum_fill hcharge.le hrows
  rw [min_eq_left hall] at hsum
  exact hsum

theorem settled_replays (hrun : (w.runs.get runId).isSome)
    (hsettled : (w.settlements.get runId).isSome) (key : Option String)
    (usd irr charge : Option Int) (cycle : Option String) :
    ∃ s, aiSettleRun now runId key usd irr charge cycle w = .ok (.replayed s, w) := by
  obtain ⟨run, hrun⟩ := Option.isSome_iff_exists.mp hrun
  obtain ⟨s, hsettled⟩ := Option.isSome_iff_exists.mp hsettled
  rw [aiSettleRun, get_bind]
  cases hkey : w.replay key with
  | some id => exact ⟨id, rfl⟩
  | none =>
    simp only [hrun, hsettled]
    exact ⟨s.id, rfl⟩

section Settle
variable {runId id : Id} {run : Run} {r : Reservation} {requested : Int}

/-- The reservation topped up for the charge: what it pays, and what it then holds. -/
theorem fundCharge_does (now : Timestamp) (hw : w.Tallied) (hrun : w.runs.get runId = some run)
    (hid : run.reservationId = some id) (hr : w.reservations.get id = some r)
    (hcharge : 0 ≤ requested) :
    ∃ paid absorbed w₁, fundCharge now runId run.reservationId requested w =
        .ok ((paid, absorbed), w₁) ∧
      paid = min requested (r.amount + w.availableBalance now run.workspaceId) ∧
      paid + absorbed = requested ∧ w₁.Held ∧
      paid ≤ ((w₁.chargeOrder (w₁.allocationsOf id)).map Prod.snd).sum ∧
      w₁.nextId = w.nextId ∧ w₁.ledger = w.ledger ∧ w₁.ledgerAllocations = w.ledgerAllocations := by
  obtain ⟨⟨⟨paid, absorbed⟩, w₁⟩, hfund⟩ : Succeeds
      (fundCharge now runId run.reservationId requested) w :=
    fundCharge_succeeds hrun hid (Option.isSome_of_eq_some hr)
  obtain ⟨hpaid, hsum, wallets, table, reservations, hhold, -, hw₁⟩ :=
    fundCharge_ok hrun hcharge hfund
  have hw₁ : w₁ = _ := hw₁
  have hpaid : paid = w.paid now run requested := hpaid
  have hheld : w₁.reservationAllocations =
      w.reservationAllocations ++ allocationsFor id (w.topupFor now run requested) := by
    rw [hw₁, hid]
    rfl
  have hheld₁ : w₁.Held := hw.toHeld.hold hhold topupFor_pos topupFor_known id (by rw [hw₁]) hheld
  refine ⟨paid, absorbed, w₁, hfund, hpaid.trans (paid_eq hw hid hr hcharge), hsum, hheld₁, ?_,
    by rw [hw₁], by rw [hw₁], by rw [hw₁]⟩
  have hof : w₁.allocationsOf id =
      w.allocationsOf id ++ allocationsFor id (w.topupFor now run requested) := by
    unfold Wallet.allocationsOf
    rw [hheld, List.filter_append, filter_allocationsFor]
  have htakes : ((allocationsFor id (w.topupFor now run requested)).map
      ReservationAllocation.amount).sum = ((w.topupFor now run requested).map Prod.snd).sum := by
    unfold allocationsFor
    rw [List.map_map]
    rfl
  have hknown : ∀ a ∈ w₁.allocationsOf id, (w₁.lots.get a.lotId).isSome :=
    fun a ha => hheld₁.known a (List.mem_filter.mp ha).1
  rw [sum_chargeOrder hknown, hof, List.map_append, List.sum_append, htakes, ← hw.amounts id r hr,
    hpaid]
  unfold Wallet.paid
  simp only [hid, hr]
  have hnonneg : 0 ≤ ((w.topupFor now run requested).map Prod.snd).sum :=
    Lib.sum_parts_nonneg fun p hp => (topupFor_pos p hp).le
  split
  · exact le_rfl
  · rename_i hless
    have := hw.amount_nonneg hr
    omega

/-- The whole settlement. -/
theorem aiSettleRun_settles {key : Option String} (now : Timestamp) (usd irr charge : Option Int)
    (cycle : Option String)
    (hw : w.Tallied) (hkey : w.replay key = none) (hrun : w.runs.get runId = some run)
    (hmode : run.mode = .enforced) (hnew : w.settlements.get runId = none)
    (hid : run.reservationId = some id) (hr : w.reservations.get id = some r) :
    ∃ settlement charged absorbed before after w',
      aiSettleRun now runId key usd irr charge cycle w =
        .ok (.settled settlement charged absorbed before after, w') ∧
      charged = min (asked charge) (r.amount + w.availableBalance now run.workspaceId) ∧
      charged + absorbed = asked charge ∧
      (charged ≤ 0 ∧ w'.ledger = w.ledger ∧ w'.ledgerAllocations = w.ledgerAllocations ∨
        0 < charged ∧ ∃ entry e, w'.ledger = w.ledger.put entry e ∧ e.runId = some runId ∧
          e.entryType = .charge ∧ e.amount = -charged ∧ (w'.postings entry).sum = charged) ∧
      (w'.runs.get runId).isSome ∧ (w'.settlements.get runId).isSome := by
  obtain ⟨wallets, hlock⟩ := lock_eq w run.workspaceId
  have hlocked : Wallet.Tallied { w with wallets := wallets } :=
    ⟨⟨hw.reserved, hw.known, hw.positive⟩, hw.amounts, hw.posted_old⟩
  have hcharge : 0 ≤ asked charge := le_max_right _ _
  obtain ⟨paid, absorbed, w₁, hfund, hpaid, hsum, hheld, hall, hnext, hledger, hposted⟩ :=
    fundCharge_does now hlocked hrun hid hr hcharge
  let cycle' := cycle.getD (monthText now)
  let settlement : Settlement :=
    { id := w₁.nextId, workspaceId := run.workspaceId, billingCycleId := cycle'
      providerCostUsd := usd.getD 0, internalCostIrr := irr.getD 0
      customerChargeIrr := paid, platformAbsorbed := absorbed }
  let opened : Wallet :=
    { w₁ with nextId := w₁.nextId + 1, settlements := w₁.settlements.put runId settlement }
  have hopened : opened.Held := ⟨hheld.reserved, hheld.known, hheld.positive⟩
  obtain ⟨⟨_, w₂⟩, hpost⟩ : Succeeds (postCharge run runId cycle' paid) opened :=
    postCharge_succeeds hid hopened
  have hpos₂ : ∀ a ∈ w₂.reservationAllocations, 0 < a.amount := by
    obtain ⟨table, -, ⟨-, hw₂⟩ | ⟨entry, wallets₂, settlements, -, hw₂⟩⟩ :=
      postCharge_ok hopened.positive hpost
    · have hw₂ : w₂ = _ := hw₂
      rw [hw₂]
      exact hopened.positive
    · have hw₂ : w₂ = _ := hw₂
      rw [hw₂]
      exact hopened.positive
  obtain ⟨⟨_, w₃⟩, hclose⟩ : Succeeds (closeReservation run.reservationId) w₂ :=
    closeReservation_succeeds hpos₂
  have hsame₁ := fundCharge_offBooks.same hfund
  have hsame₂ := postCharge_offBooks.same hpost
  have hsame₃ := closeReservation_offBooks.same hclose
  have hruns : w₃.runs = w.runs := hsame₃.runs.trans (hsame₂.runs.trans hsame₁.runs)
  have hsettled : (w₃.settlements.get runId).isSome := by
    have hput : (opened.settlements.get runId).map Settlement.unposted =
        some settlement.unposted := by simp [opened]
    have h := (hsame₃.settlements runId).trans ((hsame₂.settlements runId).trans hput)
    obtain ⟨x, hx, -⟩ := Option.map_eq_some_iff.mp h
    exact Option.isSome_of_eq_some hx
  obtain ⟨hledger₃, hposted₃⟩ : w₃.ledger = w₂.ledger ∧
      w₃.ledgerAllocations = w₂.ledgerAllocations := by
    rcases closeReservation_ok hpos₂ hclose with ⟨-, hw₃⟩ | ⟨_, _, _, _, _, -, -, -, -, hw₃⟩
    · have hw₃ : w₃ = w₂ := hw₃
      rw [hw₃]
      exact ⟨rfl, rfl⟩
    · have hw₃ : w₃ = _ := hw₃
      rw [hw₃]
      exact ⟨rfl, rfl⟩
  let settled : Wallet := { w₃ with runs := w₃.runs.update runId fun r =>
    { r with status := .settled, providerCostUsd := usd.getD 0, internalCostIrr := irr.getD 0
             customerChargeIrr := paid, platformAbsorbed := r.platformAbsorbed + absorbed } }
  let c : Command := ⟨.settleRun, run.workspaceId, runId, w₁.nextId⟩
  obtain ⟨commands, hcommands⟩ := recordCommand_eq (settled.project run.workspaceId) key c
  refine ⟨w₁.nextId, paid, absorbed, w.availableBalance now run.workspaceId,
    (settled.project run.workspaceId).availableBalance now run.workspaceId,
    (settled.project run.workspaceId).recordCommand key c, ?_, hpaid, hsum, ?_, ?_, ?_⟩
  · rw [aiSettleRun, get_bind]
    simp only [hkey, hrun, hnew, modify_bind, insertSettlement, bind_assoc, pure_bind, hlock, hmode]
    refine bind_ok.mpr ⟨(paid, absorbed), w₁, hfund, ?_⟩
    rw [get_bind, set_bind]
    refine bind_ok.mpr ⟨(), w₂, hpost, bind_ok.mpr ⟨(), w₃, hclose, ?_⟩⟩
    rfl
  · have hold : ∀ a ∈ opened.ledgerAllocations, a.ledgerEntryId < opened.nextId := by
      intro a ha
      have ha : a ∈ w₁.ledgerAllocations := ha
      rw [hposted] at ha
      have hid₁ : opened.nextId = w.nextId + 1 := congrArg (· + 1) hnext
      exact hid₁ ▸ Nat.lt_succ_of_lt (hw.posted_old a ha)
    have hfinal : ((settled.project run.workspaceId).recordCommand key c).ledger = w₂.ledger ∧
        ((settled.project run.workspaceId).recordCommand key c).ledgerAllocations =
          w₂.ledgerAllocations := by
      rw [hcommands]
      exact ⟨hledger₃, hposted₃⟩
    have hpostings : ∀ entry, ((settled.project run.workspaceId).recordCommand key c).postings
        entry = w₂.postings entry := by
      intro entry
      unfold Wallet.postings
      rw [hfinal.2]
    rw [hfinal.1, hfinal.2]
    rcases postCharge_sums hid hopened hold hall hpost with ⟨hzero, hw₂⟩ |
      ⟨hcharged, e, hput, hrun', htype, hamount, hposts⟩
    · rw [hw₂]
      exact .inl ⟨hzero, hledger, hposted⟩
    · refine .inr ⟨hcharged, opened.nextId, e, ?_, hrun', htype, hamount, ?_⟩
      · rw [hput]
        exact congrArg (Table.put · opened.nextId e) hledger
      · rw [hpostings]
        exact hposts
  · rw [hcommands]
    show ((w₃.runs.update runId _).get runId).isSome
    rw [Table.get_update_self, hruns, hrun]
    rfl
  · rw [hcommands]
    exact hsettled

end Settle

end Kindred.AiWallet
