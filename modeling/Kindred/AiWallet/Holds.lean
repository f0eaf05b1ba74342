import Kindred.AiWallet.Effects

namespace Kindred.AiWallet
open Lib (total total_append total_filter total_split total_congr total_nonneg total_eq_zero share Applied Meets run_keeps)
open Lib.Tx

def Wallet.outstanding (w : Wallet) (reservationId : Id) : Prop :=
  (w.reservations.get reservationId).map Reservation.state = some .active

instance (w : Wallet) (id : Id) : Decidable (w.outstanding id) :=
  inferInstanceAs (Decidable (_ = _))

def Wallet.heldOn (w : Wallet) (lotId : Id) : Int :=
  total (fun a => a.lotId = lotId ∧ w.outstanding a.reservationId)
    ReservationAllocation.amount w.reservationAllocations

def ReservedIsHeld (w : Wallet) : Prop :=
  ∀ id, ∀ l ∈ w.lots.get id, l.reservedAmount = w.heldOn id

def allocatedOn (lotId : Id) (allocations : List ReservationAllocation) : Int :=
  total (fun a => a.lotId = lotId) ReservationAllocation.amount allocations

variable {allocations : List ReservationAllocation} {id : Id}

theorem allocatedOn_filter_le (hpos : ∀ a ∈ allocations, 0 < a.amount) (id j : Id) :
    allocatedOn j (allocations.filter fun a => a.reservationId = id) ≤
      allocatedOn j allocations := by
  have hsplit := total_split (fun a : ReservationAllocation => a.lotId = j)
    (fun a => a.reservationId = id) ReservationAllocation.amount allocations
  have hrest : 0 ≤ total (fun a : ReservationAllocation => ¬a.reservationId = id ∧ a.lotId = j)
      ReservationAllocation.amount allocations :=
    total_nonneg fun a ha _ => (hpos a ha).le
  unfold allocatedOn
  rw [total_filter]
  omega

variable {w w' : Wallet} {l lot : Lot} {table : Table Id Lot} {r : Unit × Wallet} {j : Id}
  {run : Run} {charge : Int}

theorem share_chargeOrder (hl : w.lots.get id = some l) (allocations : List ReservationAllocation) :
    Lib.share id (w.chargeOrder allocations) = allocatedOn id allocations := by
  have hperm := (List.perm_insertionSort
    (fun a b : ReservationAllocation × Option Timestamp => expiresFirst a.2 b.2)
    (allocations.filterMap fun a => (w.lots.get a.lotId).map fun l => (a, l.expiresAt))).map
      fun r => (r.1.lotId, r.1.amount)
  have hsum : Lib.share id _ = Lib.share id _ := (hperm.map _).sum_eq
  refine hsum.trans ?_
  clear hperm hsum
  induction allocations with
  | nil => rfl
  | cons a allocations ih =>
    rw [List.filterMap_cons, allocatedOn, Lib.total_cons]
    cases ha : w.lots.get a.lotId with
    | none =>
      have hne : a.lotId ≠ id := by
        rintro rfl
        rw [hl] at ha
        cases ha
      rw [if_neg hne, zero_add]
      exact ih
    | some m =>
      rw [Option.map_some, List.map_cons, Lib.share_cons, ih]
      rfl

structure Counted (w : Wallet) : Prop where
  reserved : ∀ {id l}, w.lots.get id = some l →
    l.reservedAmount = allocatedOn id w.reservationAllocations
  lots_old : ∀ {id l}, w.lots.get id = some l → id < w.nextId
  allocations_old : ∀ a ∈ w.reservationAllocations, a.lotId < w.nextId
  positive : ∀ a ∈ w.reservationAllocations, 0 < a.amount

structure HoldsSound (w : Wallet) : Prop extends Counted w where
  outstanding : ∀ a ∈ w.reservationAllocations, w.outstanding a.reservationId

theorem HoldsSound.reservedIsHeld (h : HoldsSound w) : ReservedIsHeld w := by
  intro id l hl
  rw [h.reserved hl]
  exact total_congr (fun a ha => by simp [h.outstanding a ha]) fun _ _ _ => rfl

theorem holdsSound_empty : HoldsSound .empty where
  reserved h := by simp [Wallet.empty] at h
  lots_old h := by simp [Wallet.empty] at h
  allocations_old := by simp [Wallet.empty]
  positive := by simp [Wallet.empty]
  outstanding := by simp [Wallet.empty]

section Statements
variable {w w' : Wallet}

theorem Counted.frame (h : Counted w) (hlots : w'.lots = w.lots)
    (halloc : w'.reservationAllocations = w.reservationAllocations)
    (hid : w.nextId ≤ w'.nextId) : Counted w' where
  reserved hl := by
    rw [halloc]
    exact h.reserved (hlots ▸ hl)
  lots_old hl := lt_of_lt_of_le (h.lots_old (hlots ▸ hl)) hid
  allocations_old a ha := lt_of_lt_of_le (h.allocations_old a (halloc ▸ ha)) hid
  positive a ha := h.positive a (halloc ▸ ha)

theorem HoldsSound.frame (h : HoldsSound w) (hlots : w'.lots = w.lots)
    (halloc : w'.reservationAllocations = w.reservationAllocations)
    (hres : w'.reservations = w.reservations) (hid : w.nextId ≤ w'.nextId) : HoldsSound w' where
  toCounted := h.toCounted.frame hlots halloc hid
  outstanding a ha := by
    have := h.outstanding a (halloc ▸ ha)
    unfold Wallet.outstanding at *
    rwa [hres]

theorem HoldsSound.setLots (h : HoldsSound w) (hkeep : ∀ id l', table.get id = some l' →
      ∃ l, w.lots.get id = some l ∧ l'.reservedAmount = l.reservedAmount) :
    HoldsSound { w with lots := table } where
  reserved {id l'} hl := by
    obtain ⟨l, hget, hr⟩ := hkeep id l' hl
    rw [hr]
    exact h.reserved hget
  lots_old {id l'} hl := by
    obtain ⟨l, hget, -⟩ := hkeep id l' hl
    exact h.lots_old hget
  allocations_old := h.allocations_old
  positive := h.positive
  outstanding := h.outstanding

theorem updateLot_holds {f : Lot → Option Lot}
    (hf : ∀ l l', f l = some l' → l'.reservedAmount = l.reservedAmount) (h : HoldsSound w)
    (hr : updateLot id f w = .ok r) : HoldsSound r.2 := by
  obtain ⟨table, hw, hpost⟩ := updateLot_ok hr
  rw [hw]
  apply h.setLots
  intro j l' hj
  rcases hpost with ⟨-, rfl⟩ | ⟨l, l₁, hget, hl, rfl⟩
  · exact ⟨l', hj, rfl⟩
  · rw [Lib.Table.get_put] at hj
    split at hj
    · rename_i hji
      cases hj
      exact ⟨l, hji ▸ hget, hf l l' hl⟩
    · exact ⟨l', hj, rfl⟩

theorem HoldsSound.newLot (h : HoldsSound w) (hlot : lot.reservedAmount = 0) :
    HoldsSound { w with nextId := w.nextId + 1, lots := w.lots.put w.nextId lot } where
  reserved {id l} hl := by
    rw [Lib.Table.get_put] at hl
    split at hl
    · rename_i hid
      cases hl
      have hnone : ∀ a ∈ w.reservationAllocations, ¬a.lotId = id := by
        intro a ha he
        have := h.allocations_old a ha
        rw [he, hid] at this
        exact Nat.lt_irrefl _ this
      rw [hlot]
      exact (total_eq_zero hnone).symm
    · exact h.reserved hl
  lots_old {id l} hl := by
    rw [Lib.Table.get_put] at hl
    split at hl
    · rename_i hid
      rw [hid]
      exact Nat.lt_succ_self _
    · exact Nat.lt_succ_of_lt (h.lots_old hl)
  allocations_old a ha := Nat.lt_succ_of_lt (h.allocations_old a ha)
  positive := h.positive
  outstanding := h.outstanding

theorem share_allocationsFor (id : Id) (takes : List (Id × Int)) (lot : Id) :
    allocatedOn lot (allocationsFor id takes) = share lot takes := by
  simp [allocatedOn, allocationsFor, share, total, Function.comp_def]

theorem Counted.hold (h : Counted w) {takes : List (Id × Int)}
    (happ : Applied Lot.hold takes w.lots table) (hpos : ∀ t ∈ takes, 0 < t.2)
    (hold : ∀ t ∈ takes, t.1 < w.nextId) (id : Id) : Counted { w with
      lots := table
      reservationAllocations := w.reservationAllocations ++ allocationsFor id takes } where
  reserved {j l'} hl := by
    obtain ⟨l, hget, hr, -⟩ := applied_hold happ hl
    rw [hr, h.reserved hget, ← share_allocationsFor id takes j, allocatedOn, allocatedOn,
      allocatedOn, total_append]
  lots_old hl := by
    obtain ⟨l, hget, -⟩ := applied_hold happ hl
    exact h.lots_old hget
  allocations_old a ha := by
    rcases List.mem_append.mp ha with ha | ha
    · exact h.allocations_old a ha
    · obtain ⟨t, ht, rfl⟩ := List.mem_map.mp ha
      exact hold t ht
  positive a ha := by
    rcases List.mem_append.mp ha with ha | ha
    · exact h.positive a ha
    · obtain ⟨t, ht, rfl⟩ := List.mem_map.mp ha
      exact hpos t ht

theorem holds_old (h : Counted w) {now : Timestamp} {ws : Id} {want : Int} :
    ∀ t ∈ w.holds now ws want, t.1 < w.nextId := by
  intro t ht
  obtain ⟨p, hp, hk⟩ := Lib.fill_keys ht
  obtain ⟨r, hr, rfl⟩ := List.mem_map.mp hp
  rw [Wallet.spendable, List.mem_insertionSort] at hr
  rw [← hk]
  exact h.lots_old (Lib.Table.get_eq_some_iff_mem.mpr (List.mem_filter.mp hr).1)

end Statements

section Calls
variable {w : Wallet} {now : Timestamp} {ws : Id} {key : Option String} {amount : Option Int}
  {runId : Id} {table before : Table Id Lot} {parts : List (Id × Int)}

theorem funds_holds {entryType : EntryType} (hw : HoldsSound w) (h : Funds entryType w w')
    : HoldsSound w' := by
  cases h with
  | replayed wallets commands h =>
    subst h
    exact hw.frame rfl rfl rfl le_rfl
  | funded lot entry wallets commands hlot hsane htype hamount h =>
    subst h
    exact (hw.newLot hlot.2).frame rfl rfl rfl (Nat.le_succ _)

theorem beginRun_holds {key hash : String} {mode : Option RunMode} (hw : HoldsSound w)
    {r : Id × Wallet} (h : aiBeginRun ws key hash mode w = .ok r) : HoldsSound r.2 := by
  rcases beginRun_ok h with h | ⟨runs, h⟩
  · rwa [h]
  · rw [h]
    exact hw.frame rfl rfl rfl (Nat.le_succ _)

theorem reserve_holds {runId : Option Id} (hw : HoldsSound w) {r : ReserveResult × Wallet}
    (h : aiReserve now ws runId amount key w = .ok r) : HoldsSound r.2 := by
  rcases reserve_ok h with ⟨wallets, h⟩ | ⟨table, wallets, reservations, runs, commands, happ, hnew,
    hold, h⟩
  · rw [h]
    exact hw.frame rfl rfl rfl le_rfl
  · rw [h]
    have hc := hw.toCounted.hold happ holds_pos (holds_old hw.toCounted) w.nextId
    refine ⟨hc.frame rfl rfl (Nat.le_succ _), fun a ha => ?_⟩
    unfold Wallet.outstanding
    by_cases hid : a.reservationId = w.nextId
    · rw [hid]
      exact hnew
    · rcases List.mem_append.mp ha with ha | ha
      · rw [hold _ hid]
        exact hw.outstanding a ha
      · obtain ⟨t, -, rfl⟩ := List.mem_map.mp ha
        exact absurd rfl hid

def Wallet.topsUpOutstanding (w : Wallet) (now : Timestamp) (runId : Id) (delta : Option Int) :
    Prop :=
  ∀ run ∈ w.runs.get runId, ∀ id ∈ run.reservationId,
    w.outstanding id ∨ w.holds now run.workspaceId (asked delta) = []

theorem topup_holds {delta : Option Int} (hw : HoldsSound w)
    (hcond : w.topsUpOutstanding now runId delta) {r : Int × Wallet}
    (h : aiTopupReservation now runId delta w = .ok r) : HoldsSound r.2 := by
  rcases topup_ok h with ⟨-, rfl⟩ | ⟨run, id, table, wallets, reservations, hrun, hid, happ, -,
    hstate, -, h⟩
  · exact hw
  · rw [h]
    have hc := hw.toCounted.hold happ holds_pos (holds_old hw.toCounted) id
    refine ⟨hc.frame rfl rfl le_rfl, fun a ha => ?_⟩
    unfold Wallet.outstanding
    rw [state_of_terms (hstate _)]
    rcases List.mem_append.mp ha with ha | ha
    · exact hw.outstanding a ha
    · obtain ⟨t, ht, rfl⟩ := List.mem_map.mp ha
      rcases hcond run hrun id hid with hout | hnone
      · exact hout
      · rw [hnone] at ht
        cases ht

theorem finish_reserved (l : Lot) (ws : Id) : (l.finish ws).reservedAmount = l.reservedAmount := by
  unfold Lot.finish
  split <;> rfl

/-- Closing a reservation takes its allocations off the lots. `charged` is what
settling it took off them before. -/
theorem closed_reserved {charged : Id → Int} (hpos : ∀ a ∈ allocations, 0 < a.amount) (ws : Id)
    (happ : Applied Lot.giveBack ((allocations.filter fun a => a.reservationId = id).map
      fun a => (a.lotId, a.amount)) before table) (hbefore : ∀ {j l}, before.get j = some l →
      l.reservedAmount = max (allocatedOn j allocations - charged j) 0)
    (hcharged : ∀ j, 0 ≤ charged j)
    (hapart : ∀ j, charged j ≠ 0 → ∀ a ∈ allocations, a.lotId = j → a.reservationId = id) {l' : Lot}
    (hl : (table.mapValues fun l => l.finish ws).get j = some l') :
    l'.reservedAmount = allocatedOn j (allocations.filter fun a => a.reservationId ≠ id) := by
  rw [Lib.Table.get_mapValues, Option.map_eq_some_iff] at hl
  obtain ⟨l, hl, rfl⟩ := hl
  obtain ⟨l₀, hget, hr, -⟩ := applied_giveBack happ hl
  have hshare : share j ((allocations.filter fun a => a.reservationId = id).map
      fun a => (a.lotId, a.amount)) =
      allocatedOn j (allocations.filter fun a => a.reservationId = id) := by
    simp [share, allocatedOn, total, Function.comp_def]
  have hsplit : allocatedOn j allocations =
      allocatedOn j (allocations.filter fun a => a.reservationId = id) +
      allocatedOn j (allocations.filter fun a => a.reservationId ≠ id) := by
    simp only [allocatedOn, total_filter]
    exact total_split (fun a : ReservationAllocation => a.lotId = j)
      (fun a => a.reservationId = id) _ allocations
  have hnonneg (p : ReservationAllocation → Bool) :
      0 ≤ allocatedOn j (allocations.filter fun a => p a) :=
    total_nonneg fun a ha _ => (hpos a (List.mem_filter.mp ha).1).le
  have hother : charged j ≠ 0 →
      allocatedOn j (allocations.filter fun a => a.reservationId ≠ id) = 0 := by
    intro hc
    refine total_eq_zero fun a ha hj => ?_
    have := List.mem_filter.mp ha
    simp [hapart j hc a this.1 hj] at this
  rw [finish_reserved, hr, hbefore hget, hshare, hsplit]
  have := hnonneg fun a => a.reservationId = id
  have := hnonneg fun a => a.reservationId ≠ id
  have := hcharged j
  by_cases hc : charged j = 0
  · omega
  · rw [hother hc]
    omega

theorem Counted.close (h : Counted w) {lots : Table Id Lot}
    (hlots : ∀ {j l}, lots.get j = some l → ∃ l₀, w.lots.get j = some l₀)
    (hreserved : ∀ {j l}, lots.get j = some l → l.reservedAmount =
      allocatedOn j (w.reservationAllocations.filter fun a => a.reservationId ≠ id)) :
    Counted { w with
      lots := lots
      reservationAllocations :=
        w.reservationAllocations.filter fun a => a.reservationId ≠ id } where
  reserved := hreserved
  lots_old hl := by
    obtain ⟨l₀, hl₀⟩ := hlots hl
    exact h.lots_old hl₀
  allocations_old a ha := h.allocations_old a (List.mem_filter.mp ha).1
  positive a ha := h.positive a (List.mem_filter.mp ha).1

theorem get_finished (ws : Id) (happ : Applied Lot.giveBack parts before table)
    (hl : (table.mapValues fun l => l.finish ws).get j = some l) :
    ∃ l₀, before.get j = some l₀ := by
  rw [Lib.Table.get_mapValues, Option.map_eq_some_iff] at hl
  obtain ⟨l₁, hl₁, -⟩ := hl
  obtain ⟨l₀, hl₀, -⟩ := applied_giveBack happ hl₁
  exact ⟨l₀, hl₀⟩

theorem release_holds (hw : HoldsSound w) (h : aiReleaseReservation id w = .ok r)
    : HoldsSound r.2 := by
  have hpos : ∀ a ∈ w.allocationsOf id, 0 < a.amount := fun a ha =>
    hw.positive a (List.mem_filter.mp ha).1
  rcases release_ok hpos h with ⟨-, h⟩ | ⟨res, table, wallets, -, happ, h⟩
  · rwa [h]
  · rw [h]
    have hbefore {j l} (hl : w.lots.get j = some l) :
        l.reservedAmount = max (allocatedOn j w.reservationAllocations - 0) 0 := by
      have := hw.reserved hl
      have := l.amounts_sane.1
      omega
    have hc := hw.toCounted.close (get_finished res.workspaceId happ) (closed_reserved
      hw.positive res.workspaceId happ hbefore (fun _ => le_rfl) (fun _ hne => absurd rfl hne))
    refine ⟨hc.frame rfl rfl le_rfl, fun a ha => ?_⟩
    obtain ⟨ha, hne⟩ := List.mem_filter.mp ha
    have hout := hw.outstanding a ha
    unfold Wallet.outstanding at *
    rwa [Lib.Table.get_update_ne _ _ (by simpa using hne)]

def Wallet.chargesApart (w : Wallet) (now : Timestamp) (run : Run) (charge : Int) : Prop :=
  ∀ t ∈ w.chargesFor now run charge, ∀ a ∈ w.reservationAllocations,
    a.lotId = t.1 ∧ w.outstanding a.reservationId → run.reservationId = some a.reservationId

theorem topup_old (hw : Counted w) : ∀ t ∈ w.topupFor now run charge, t.1 < w.nextId := by
  intro t ht
  unfold Wallet.topupFor at ht
  split at ht
  · cases ht
  · split at ht
    · exact holds_old hw t ht
    · cases ht

theorem share_ne_zero (h : share j parts ≠ 0) : ∃ t ∈ parts, t.1 = j := by
  by_contra hno
  refine h (total_eq_zero fun t ht hj => hno ⟨t, ht, hj⟩)

theorem Wallet.outstanding_isSome (h : w.outstanding id) : (w.reservations.get id).isSome := by
  unfold Wallet.outstanding at h
  cases hget : w.reservations.get id with
  | none => simp [hget] at h
  | some r => rfl

theorem chargesFor_none (hw : HoldsSound w) (h : run.reservationId.bind w.reservations.get = none)
    : w.chargesFor now run charge = [] := by
  have hnone : w.allocationsFor now run charge = [] := by
    unfold Wallet.allocationsFor
    cases hid : run.reservationId with
    | none => rfl
    | some id =>
      rw [hid] at h
      have hno : w.allocationsOf id = [] := by
        refine List.filter_eq_nil_iff.mpr fun a ha hr => ?_
        have hout := hw.outstanding a ha
        rw [of_decide_eq_true hr] at hout
        have := Wallet.outstanding_isSome hout
        simp [show w.reservations.get id = none from h] at this
      simp [hno, topupFor_none (hid ▸ h), AiWallet.allocationsFor]
  simp [Wallet.chargesFor, hnone, Wallet.chargeOrder]

theorem settle_holds {usd irr charge : Option Int} {cycle : Option String} (hw : HoldsSound w)
    (hcond : ∀ run ∈ w.unsettled runId key, w.chargesApart now run (run.billed charge))
    {r : SettleResult × Wallet} (h : aiSettleRun now runId key usd irr charge cycle w = .ok r) :
    HoldsSound r.2 := by
  rcases settle_ok h with ⟨-, h⟩ | ⟨run, paid, absorbed, w₁, settlements, cycle', w₂, w₃, wallets,
    runs, commands, hrun, hfund, hpost, hclose, h⟩
  · rwa [h]
  rw [h]
  suffices hw₃ : HoldsSound w₃ from hw₃.frame rfl rfl rfl le_rfl
  have hapart := hcond run hrun
  obtain ⟨table, hhold, hcharges, halloc, hstate, hrest⟩ :=
    charged_ok hw.positive (unsettled_run hrun) (billed_nonneg run charge) hfund hpost
  have hid : w.nextId ≤ w₂.nextId := by
    rcases hrest with ⟨-, hid, -⟩ | ⟨-, -, hid, -⟩ <;> rw [hid] <;> lia
  -- The reservation's state is as before, so every allocation is still outstanding.
  have hout {j : Id} (hj : w.outstanding j) : w₂.outstanding j := by
    unfold Wallet.outstanding at *
    rwa [state_of_terms (hstate _)]
  have hcounted := hw.toCounted.hold hhold topupFor_pos (topup_old hw.toCounted)
    (run.reservationId.getD 0)
  have htopups : run.reservationId.elim []
      (fun id => allocationsFor id (w.topupFor now run (run.billed charge))) =
      allocationsFor (run.reservationId.getD 0) (w.topupFor now run (run.billed charge)) := by
    cases hres : run.reservationId with
    | none => simp [topupFor_none (w := w) (by rw [hres]; rfl), allocationsFor]
    | some id => rfl
  rw [htopups] at halloc
  have hcharge_nonneg (j : Id) : 0 ≤ share j (w.chargesFor now run (run.billed charge)) :=
    Lib.share_nonneg fun t ht => (chargesFor_pos hw.positive t ht).le
  have hlots_old {j l} (hl : w₂.lots.get j = some l) : j < w₂.nextId := by
    obtain ⟨l₀, hl₀, -⟩ := applied_charge hcharges hl
    exact lt_of_lt_of_le (hcounted.lots_old hl₀) hid
  have halloc_old : ∀ a ∈ w₂.reservationAllocations, a.lotId < w₂.nextId := by
    rw [halloc]
    exact fun a ha => lt_of_lt_of_le (hcounted.allocations_old a ha) hid
  have hbefore {j l} (hl : w₂.lots.get j = some l) : l.reservedAmount =
      max (allocatedOn j w₂.reservationAllocations -
        share j (w.chargesFor now run (run.billed charge))) 0 := by
    obtain ⟨l₀, hl₀, hr, -⟩ := applied_charge hcharges hl
    rw [hr, hcounted.reserved hl₀, halloc]
  have hcounted₂ : ∀ a ∈ w₂.reservationAllocations, 0 < a.amount := by
    rw [halloc]
    exact hcounted.positive
  rcases closeReservation_ok hcounted₂ hclose with ⟨hnone, hw₃⟩ | ⟨id, res, table₃, wallets₃,
    reservations₃, hres, -, happ, hother, hw₃⟩
  · simp only at hw₃
    subst hw₃
    have hnone : run.reservationId.bind w.reservations.get = none := by
      cases hres : run.reservationId with
      | none => rfl
      | some id =>
        have := hstate id
        rw [hres] at hnone
        simpa [show w₃.reservations.get id = none from hnone] using this.symm
    rw [topupFor_none hnone] at halloc
    refine ⟨⟨fun {j l} hl => ?_, hlots_old, halloc_old, hcounted₂⟩, fun a ha => ?_⟩
    · have hsum : 0 ≤ allocatedOn j w₃.reservationAllocations :=
        total_nonneg fun a ha _ => (hcounted₂ a ha).le
      have := hbefore hl
      rw [chargesFor_none hw hnone, Lib.share_nil] at this
      omega
    · rw [halloc] at ha
      exact hout (hw.outstanding a (by simpa [allocationsFor] using ha))
  · simp only at hw₃
    subst hw₃
    have hown (j : Id) (hj : share j (w.chargesFor now run (run.billed charge)) ≠ 0) :
        ∀ a ∈ w₂.reservationAllocations, a.lotId = j → a.reservationId = id := by
      obtain ⟨t, ht, htj⟩ := share_ne_zero hj
      intro a ha haj
      rw [halloc] at ha
      rcases List.mem_append.mp ha with ha | ha
      · have := hapart t ht a ha ⟨haj.trans htj.symm, hw.outstanding a ha⟩
        exact (Option.some.inj (hres.symm.trans this)).symm
      · obtain ⟨t', -, rfl⟩ := List.mem_map.mp ha
        simp [hres]
    refine ⟨⟨closed_reserved hcounted₂ res.workspaceId happ hbefore hcharge_nonneg hown,
      fun hl => ?_, fun a ha => halloc_old a (List.mem_filter.mp ha).1,
      fun a ha => hcounted₂ a (List.mem_filter.mp ha).1⟩, fun a ha => ?_⟩
    · obtain ⟨l₀, hl₀⟩ := get_finished res.workspaceId happ hl
      exact hlots_old hl₀
    · obtain ⟨ha, hne⟩ := List.mem_filter.mp ha
      unfold Wallet.outstanding
      rw [hother _ (by simpa using hne)]
      rw [halloc] at ha
      rcases List.mem_append.mp ha with ha | ha
      · exact hout (hw.outstanding a ha)
      · obtain ⟨t', -, rfl⟩ := List.mem_map.mp ha
        simp [hres] at hne

theorem refundTarget_holds {lotId : Id} {take : Int} (hw : HoldsSound w) {r : Id × Wallet}
    (h : refundTarget now ws lotId lot take w = .ok r) : HoldsSound r.2 := by
  unfold refundTarget at h
  split at h
  · rw [require_bind_ok, insertLot, get_bind, set_bind] at h
    cases pure_ok.mp h.2
    exact hw.newLot rfl
  · obtain ⟨_, w₁, hup, h⟩ := bind_ok.mp h
    cases pure_ok.mp h
    exact updateLot_holds (fun _ _ hf => (withAmounts_ok hf).2.1) hw hup

theorem refundLots_holds {entry : Id} {left refunded : Int} {rows : List (Id × Int × Lot)}
    (hw : HoldsSound w) (h : refundLots now ws entry left rows w = .ok (refunded, w'))
    : HoldsSound w' := by
  induction rows generalizing left refunded w with
  | nil =>
    cases pure_ok.mp h
    exact hw
  | cons row rows ih =>
    obtain ⟨lotId, amount, lot⟩ := row
    unfold refundLots at h
    split at h
    · cases pure_ok.mp h
      exact hw
    · obtain ⟨target, w₁, htarget, h⟩ := bind_ok.mp h
      rw [insertLedgerAllocation, modify_bind] at h
      obtain ⟨refunded, w₂, hrest, h⟩ := bind_ok.mp h
      cases pure_ok.mp h
      have hw₁ : HoldsSound w₁ := refundTarget_holds hw htarget
      refine ih ?_ hrest
      exact hw₁.frame rfl rfl rfl le_rfl

theorem refund_holds {reason : Option String} (hw : HoldsSound w) {r : RefundResult × Wallet}
    (h : aiRefundRun now runId amount reason key w = .ok r) : HoldsSound r.2 := by
  rcases refund_ok h with h | ⟨ws, left, refunded, wallets, wallets', w₁, commands, entry, -, -, -,
    hlots, h⟩
  · rwa [h]
  · rw [h]
    have hentry : HoldsSound { w with
        nextId := w.nextId + 1, wallets := wallets, ledger := w.ledger.put w.nextId entry } :=
      hw.frame rfl rfl rfl (Nat.le_succ _)
    exact (refundLots_holds hentry hlots).frame rfl rfl rfl le_rfl

theorem expireLot_holds (row : Id × Lot) :
    Triple HoldsSound (expireLot row) fun _ => HoldsSound := by
  intro w _ w' hw h
  unfold expireLot retireLot at h
  simp only [bind_assoc] at h
  obtain ⟨_, w₁, hoff, h⟩ := bind_ok.mp h
  have hw₁ : HoldsSound w₁ := by
    rcases ite_ok.mp hoff with ⟨-, h⟩ | ⟨-, h⟩
    · simp only [insertLedger, insertLedgerAllocation, bind_assoc, pure_bind] at h
      rw [get_bind, set_bind] at h
      cases modify_ok.mp h
      exact hw.frame rfl rfl rfl (Nat.le_succ _)
    · cases pure_ok.mp h
      exact hw
  obtain ⟨_, w₂, hup, h⟩ := bind_ok.mp h
  cases modify_ok.mp h
  have hw₂ : HoldsSound w₂ := updateLot_holds (fun _ _ hf => (withAmounts_ok hf).2.1) hw₁ hup
  exact hw₂.frame rfl rfl rfl le_rfl

theorem expireLots_holds (hw : HoldsSound w) {r : Nat × Wallet}
    (h : aiExpireLots now w = .ok r) : HoldsSound r.2 :=
  Triple.forM (fun row _ => expireLot_holds row) w _ r.2 hw (expireLots_ok h)

end Calls

/-- The calls that keep the holds of different reservations apart: a top-up goes
to an outstanding reservation, and a settlement charges no lot that another
outstanding reservation holds. -/
def KeepsHoldsApart (w : Wallet) (c : Timestamp × WalletCommand) : Prop :=
  match c.2 with
  | .topupReservation runId delta => w.topsUpOutstanding c.1 runId delta
  | .settleRun runId key _ _ charge _ =>
    ∀ run ∈ w.unsettled runId key, w.chargesApart c.1 run (run.billed charge)
  | _ => True

instance (w : Wallet) (now : Timestamp) (runId : Id) (delta : Option Int) :
    Decidable (w.topsUpOutstanding now runId delta) :=
  inferInstanceAs (Decidable (∀ run ∈ w.runs.get runId, _))

instance (w : Wallet) (now : Timestamp) (run : Run) (charge : Int) :
    Decidable (w.chargesApart now run charge) :=
  inferInstanceAs (Decidable (∀ t ∈ w.chargesFor now run charge, _))

instance (w : Wallet) (c : Timestamp × WalletCommand) : Decidable (KeepsHoldsApart w c) := by
  unfold KeepsHoldsApart
  split <;> infer_instance

theorem walletStep_holds (hw : HoldsSound w) {c : Timestamp × WalletCommand}
    (hcond : KeepsHoldsApart w c) : HoldsSound (walletStep w c) := by
  obtain ⟨now, c⟩ := c
  unfold walletStep commit
  split
  · rename_i r w' h
    cases c with
    | releaseReservation id => exact release_holds hw h
    | grantAllowance ws amount cycle source expires key =>
      obtain ⟨a, h⟩ := discard_ok h
      exact funds_holds hw (grantAllowance_ok h)
    | purchaseCredit ws amount key reason =>
      obtain ⟨a, h⟩ := discard_ok h
      exact funds_holds hw (purchaseCredit_ok h)
    | adjustBalance ws amount reason key =>
      obtain ⟨a, h⟩ := discard_ok h
      exact funds_holds hw (adjustBalance_ok h)
    | beginRun ws key hash mode =>
      obtain ⟨a, h⟩ := discard_ok h
      exact beginRun_holds hw h
    | reserve ws run amount key =>
      obtain ⟨a, h⟩ := discard_ok h
      exact reserve_holds hw h
    | topupReservation run delta =>
      obtain ⟨a, h⟩ := discard_ok h
      exact topup_holds hw hcond h
    | settleRun run key usd irr charge cycle =>
      obtain ⟨a, h⟩ := discard_ok h
      exact settle_holds hw hcond h
    | refundRun run amount reason key =>
      obtain ⟨a, h⟩ := discard_ok h
      exact refund_holds hw h
    | expireLots =>
      obtain ⟨a, h⟩ := discard_ok h
      exact expireLots_holds hw h
  · exact hw

end Kindred.AiWallet
