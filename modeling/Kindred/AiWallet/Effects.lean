import Kindred.AiWallet.Commands

namespace Kindred.AiWallet
open Lib (share fill Applied Composes)
open Lib.Tx

/-! What the calls write, said once for each. -/

variable {l l' lot : Lot} {id ws : Id} {w w' : Wallet} {left : Int} {key : Option String}
  {expires : Option Timestamp}

theorem withAmounts_ok {remaining reserved : Int} {state : LotState}
    (h : l.withAmounts remaining reserved state = some l') :
    l'.remainingAmount = remaining ∧ l'.reservedAmount = reserved ∧ l'.state = state ∧
    l'.expiresAt = l.expiresAt ∧ l'.workspaceId = l.workspaceId := by
  unfold Lot.withAmounts at h
  split at h
  · cases h
    simp
  · cases h

theorem withAmounts_twice {a b c d : Int} {s t : LotState} (h : l.withAmounts a b s = some l')
    : l'.withAmounts c d t = l.withAmounts c d t := by
  unfold Lot.withAmounts at h
  split at h
  · cases h
    rfl
  · cases h

theorem hold_composes : Composes Lot.hold := by
  intro x y l l' _ _ h
  have hf := withAmounts_ok h
  unfold Lot.hold at *
  rw [withAmounts_twice h, hf.1, hf.2.1, hf.2.2.1, Int.add_assoc]

theorem giveBack_composes : Composes Lot.giveBack := by
  intro x y l l' _ _ h
  have hf := withAmounts_ok h
  have hmax : max (max (l.reservedAmount - x) 0 - y) 0 = max (l.reservedAmount - (x + y)) 0 := by
    omega
  unfold Lot.giveBack at *
  rw [withAmounts_twice h, hf.1, hf.2.1, hf.2.2.1, hmax]

theorem charge_composes : Composes Lot.charge := by
  intro x y l l' _ _ h
  have hf := withAmounts_ok h
  have hsub : l.remainingAmount - x - y = l.remainingAmount - (x + y) := by omega
  have hmax : max (max (l.reservedAmount - x) 0 - y) 0 = max (l.reservedAmount - (x + y)) 0 := by
    omega
  unfold Lot.charge at *
  rw [withAmounts_twice h, hf.1, hf.2.1, hf.2.2.1, hsub, hmax]
  by_cases hz : l.remainingAmount - (x + y) ≤ 0
  · simp [hz]
  · have : ¬l.remainingAmount - x ≤ 0 := by omega
    simp [hz, this]

variable {r : Unit × Wallet} {now : Timestamp} {runId : Id}
  {allocations : List ReservationAllocation} {run : Run} {charge : Int} {cycle : Option String}
  {entryType : EntryType} {reason : Option String} {amount : Option Int}

theorem updateLot_ok {f : Lot → Option Lot} (h : updateLot id f w = .ok r) :
    ∃ table, r.2 = { w with lots := table } ∧ (w.lots.get id = none ∧ table = w.lots ∨
      ∃ l l', w.lots.get id = some l ∧ f l = some l' ∧ table = w.lots.put id l') := by
  rw [updateLot, get_bind] at h
  cases hl : w.lots.get id with
  | none =>
    simp only [hl] at h
    cases pure_ok.mp h
    exact ⟨_, rfl, .inl ⟨rfl, rfl⟩⟩
  | some l =>
    simp only [hl] at h
    cases hf : f l with
    | none =>
      simp only [hf] at h
      exact (throw_ok.mp h).elim
    | some l' =>
      simp only [hf] at h
      cases set_ok.mp h
      exact ⟨_, rfl, .inr ⟨l, l', rfl, hf, rfl⟩⟩

theorem insertReservationAllocation_ok {res lot : Id} {amount : Int}
    (h : insertReservationAllocation res lot amount w = .ok r) :
    (w.reservations.get res).isSome ∧ r.2 = { w with
      reservationAllocations := w.reservationAllocations ++ [⟨res, lot, amount⟩] } := by
  rw [insertReservationAllocation, get_bind, require_bind_ok] at h
  obtain ⟨hres, h⟩ := h
  cases set_ok.mp h
  exact ⟨hres, rfl⟩

theorem holdLots_ok {lots : List (Id × Lot)} (hfree : ∀ r ∈ lots, 0 < r.2.free) {r : Int × Wallet}
    (h : holdLots id left lots w = .ok r) :
    ∃ takes table, takes = fill left (lots.map fun l => (l.1, l.2.free)) ∧
      r.1 = left - (takes.map Prod.snd).sum ∧ Applied Lot.hold takes w.lots table ∧
      (takes = [] ∨ (w.reservations.get id).isSome) ∧
      r.2 = { w with lots := table, reservationAllocations :=
        w.reservationAllocations ++ takes.map fun t => ⟨id, t.1, t.2⟩ } := by
  induction lots generalizing left w with
  | nil =>
    cases pure_ok.mp h
    exact ⟨[], w.lots, rfl, by simp, Applied.refl _ _, .inl rfl, by simp⟩
  | cons l lots ih =>
    obtain ⟨k, lot⟩ := l
    unfold holdLots at h
    have hlot : 0 < lot.free := hfree _ List.mem_cons_self
    have htail : ∀ r ∈ lots, 0 < r.2.free := fun r hr => hfree r (List.mem_cons_of_mem _ hr)
    by_cases hleft : left ≤ 0
    · rw [if_pos hleft] at h
      cases pure_ok.mp h
      exact ⟨[], w.lots, (Lib.fill_of_nonpos hleft _).symm, by simp, Applied.refl _ _, .inl rfl,
        by simp⟩
    · have htake : 0 < min left lot.free := by omega
      rw [if_neg hleft, if_pos htake] at h
      obtain ⟨_, w₁, hup, h⟩ := bind_ok.mp h
      obtain ⟨table₁, hw₁, hpost⟩ := updateLot_ok hup
      obtain ⟨_, w₂, hins, h⟩ := bind_ok.mp h
      obtain ⟨hres, hw₂⟩ := insertReservationAllocation_ok hins
      obtain ⟨takes, table, htakes, hr, happ, -, hw⟩ := ih htail h
      subst hw₁ hw₂
      refine ⟨(k, min left lot.free) :: takes, table, ?_, ?_, ?_, .inr hres, ?_⟩
      · rw [List.map_cons, Lib.fill_cons (by omega), ← htakes]
      · rw [hr, List.map_cons, List.sum_cons]
        omega
      · refine Applied.cons hold_composes htake ?_ hpost happ
        rw [htakes]
        apply Lib.fill_pos
        intro p hp
        obtain ⟨l, hl, rfl⟩ := List.mem_map.mp hp
        exact htail l hl
      · rw [hw]
        simp

section Shares
variable {parts : List (Id × Int)} {t t' : Table Id Lot} {id : Id} {l' : Lot}

theorem applied_hold (h : Applied Lot.hold parts t t') (hl : t'.get id = some l') :
    ∃ l, t.get id = some l ∧ l'.reservedAmount = l.reservedAmount + share id parts ∧
      l'.remainingAmount = l.remainingAmount ∧ l'.state = l.state ∧
      l'.workspaceId = l.workspaceId := by
  obtain ⟨l, hget, hpost⟩ := h.of_get hl
  refine ⟨l, hget, ?_⟩
  split at hpost
  · rename_i hz
    simp [hpost, hz]
  · have := withAmounts_ok hpost
    simp [this]

theorem applied_giveBack (h : Applied Lot.giveBack parts t t') (hl : t'.get id = some l') :
    ∃ l, t.get id = some l ∧ l'.reservedAmount = max (l.reservedAmount - share id parts) 0 ∧
      l'.remainingAmount = l.remainingAmount ∧ l'.state = l.state ∧
      l'.workspaceId = l.workspaceId := by
  obtain ⟨l, hget, hpost⟩ := h.of_get hl
  refine ⟨l, hget, ?_⟩
  split at hpost
  · rename_i hz
    simp [hpost, hz, l.amounts_sane.1]
  · have := withAmounts_ok hpost
    simp [this]

theorem applied_charge (h : Applied Lot.charge parts t t') (hl : t'.get id = some l') :
    ∃ l, t.get id = some l ∧ l'.reservedAmount = max (l.reservedAmount - share id parts) 0 ∧
      l'.remainingAmount = l.remainingAmount - share id parts ∧
      l'.state = (if share id parts ≠ 0 ∧ l'.remainingAmount ≤ 0 then .depleted else l.state) ∧
      l'.workspaceId = l.workspaceId := by
  obtain ⟨l, hget, hpost⟩ := h.of_get hl
  refine ⟨l, hget, ?_⟩
  split at hpost
  · rename_i hz
    simp [hpost, hz, l.amounts_sane.1]
  · rename_i hz
    have := withAmounts_ok hpost
    simp [this, hz]

end Shares

section Frame
variable (w : Wallet) (ws : Id) (key : Option String) (c : Command)

theorem lock_eq : ∃ wallets, w.lock ws = { w with wallets := wallets } := by
  unfold Wallet.lock
  split
  · exact ⟨w.wallets, rfl⟩
  · exact ⟨_, rfl⟩

theorem recordCommand_eq : ∃ commands, w.recordCommand key c = { w with commands := commands } := by
  unfold Wallet.recordCommand
  split
  · exact ⟨w.commands, rfl⟩
  · split
    · exact ⟨w.commands, rfl⟩
    · exact ⟨_, rfl⟩

theorem linkRun_eq (run : Option Id) (res : Id) :
    ∃ runs, w.linkRun run res = { w with runs := runs } := by
  unfold Wallet.linkRun
  split
  · exact ⟨w.runs, rfl⟩
  · exact ⟨_, rfl⟩

theorem replay_wallets (wallets : Table Id WalletRow) :
    Wallet.replay { w with wallets := wallets } key = w.replay key :=
  rfl

end Frame

def Reservation.terms (r : Reservation) : Id × ReservationState := (r.workspaceId, r.state)

theorem state_of_terms {a b : Option Reservation} (h : a.map Reservation.terms = b.map (·.terms)) :
    a.map Reservation.state = b.map (·.state) := by
  simpa [Option.map_map, Function.comp_def, Reservation.terms] using
    congrArg (Option.map Prod.snd) h

/-- What a hold of `want` takes of the spendable lots. -/
def Wallet.holds (w : Wallet) (now : Timestamp) (workspaceId : Id) (want : Int) :
    List (Id × Int) :=
  fill want ((w.spendable now workspaceId).map fun r => (r.1, r.2.free))

def allocationsFor (reservationId : Id) (takes : List (Id × Int)) : List ReservationAllocation :=
  takes.map fun t => ⟨reservationId, t.1, t.2⟩

theorem spendable_perm :
    (w.spendable now ws).Perm (w.lots.rows.filter fun r => r.2.workspaceId = ws ∧ r.2.live ∧
      r.2.unexpired now ∧ r.2.reservedAmount < r.2.remainingAmount) :=
  List.perm_insertionSort _ _

theorem spendable_get : ∀ r ∈ w.spendable now ws, w.lots.get r.1 = some r.2 := by
  intro r hr
  have hr := spendable_perm.mem_iff.mp hr
  exact Lib.Table.get_eq_some_iff_mem.mpr (List.mem_filter.mp hr).1

theorem spendable_nodup : ((w.spendable now ws).map Prod.fst).Nodup :=
  (spendable_perm.map Prod.fst).nodup_iff.mpr
    (w.lots.keys_nodup.sublist (List.filter_sublist.map Prod.fst))

theorem spendable_free : ∀ r ∈ w.spendable now ws, 0 < r.2.free := by
  intro r hr
  rw [Wallet.spendable, List.mem_insertionSort] at hr
  have := (List.mem_filter.mp hr).2
  simp only [decide_eq_true_eq] at this
  have := this.2.2.2
  unfold Lot.free
  omega

theorem holds_pos {want : Int} : ∀ t ∈ w.holds now ws want, 0 < t.2 := by
  apply Lib.fill_pos
  intro p hp
  obtain ⟨r, hr, rfl⟩ := List.mem_map.mp hp
  exact spendable_free r hr

theorem topup_ok {delta : Option Int} {r : Int × Wallet}
    (h : aiTopupReservation now runId delta w = .ok r) :
    (w.runs.get runId).bind Run.reservationId = none ∧ r = (0, w) ∨
    ∃ run id table wallets reservations, w.runs.get runId = some run ∧ run.reservationId = some id ∧
      Applied Lot.hold (w.holds now run.workspaceId (asked delta)) w.lots table ∧
      (w.holds now run.workspaceId (asked delta) = [] ∨ (w.reservations.get id).isSome) ∧
      (∀ j, (reservations.get j).map Reservation.terms = (w.reservations.get j).map (·.terms)) ∧
      r.1 = ((w.holds now run.workspaceId (asked delta)).map Prod.snd).sum ∧ r.2 = { w with
        wallets := wallets, lots := table, reservations := reservations
        reservationAllocations := w.reservationAllocations ++
          allocationsFor id (w.holds now run.workspaceId (asked delta)) } := by
  rw [aiTopupReservation, get_bind] at h
  cases hrun : w.runs.get runId with
  | none =>
    simp only [hrun] at h
    exact .inl ⟨by simp, pure_ok.mp h⟩
  | some run =>
    cases hid : run.reservationId with
    | none =>
      simp only [hrun, hid] at h
      exact .inl ⟨by simp [hid], pure_ok.mp h⟩
    | some id =>
      simp only [hrun, hid, modify_bind] at h
      obtain ⟨left, w₁, hhold, h⟩ := bind_ok.mp h
      rw [modify_bind, modify_bind] at h
      cases pure_ok.mp h
      obtain ⟨takes, table, htakes, hleft, happ, hres, hw⟩ := holdLots_ok spendable_free hhold
      obtain ⟨wallets, hlock⟩ := lock_eq w run.workspaceId
      simp only [hlock] at *
      subst hw htakes hleft
      refine .inr ⟨run, id, table, _, _, rfl, hid, happ, hres, ?_, ?_, rfl⟩
      · intro j
        simp only [Wallet.sumReservation, Lib.Table.get_update]
        split
        · rename_i hj
          subst hj
          cases w.reservations.get j <;> rfl
        · rfl
      · exact Int.sub_sub_self _ _

theorem giveBack_ok (hpos : ∀ a ∈ allocations, 0 < a.amount) {r : PUnit × Wallet}
    (h : allocations.forM giveBack w = .ok r) : ∃ table, r.2 = { w with lots := table } ∧
      Applied Lot.giveBack (allocations.map fun a => (a.lotId, a.amount)) w.lots table := by
  induction allocations generalizing w with
  | nil =>
    cases pure_ok.mp h
    exact ⟨w.lots, rfl, Applied.refl _ _⟩
  | cons a allocations ih =>
    rw [List.forM_eq_forM, List.forM_cons, ← List.forM_eq_forM] at h
    obtain ⟨_, w₁, hup, h⟩ := bind_ok.mp h
    obtain ⟨table₁, hw₁, hpost⟩ := updateLot_ok hup
    have htail : ∀ a ∈ allocations, 0 < a.amount := fun b hb => hpos b (List.mem_cons_of_mem _ hb)
    obtain ⟨table, hw, happ⟩ := ih htail h
    subst hw₁
    refine ⟨table, hw, Applied.cons giveBack_composes (hpos a List.mem_cons_self) ?_ hpost happ⟩
    intro p hp
    obtain ⟨b, hb, rfl⟩ := List.mem_map.mp hp
    exact htail b hb

theorem release_ok (hpos : ∀ a ∈ w.allocationsOf id, 0 < a.amount)
    (h : aiReleaseReservation id w = .ok r) :
    w.reservations.get id = none ∧ r.2 = w ∨ ∃ res table wallets, w.reservations.get id = some res ∧
      Applied Lot.giveBack ((w.allocationsOf id).map fun a => (a.lotId, a.amount)) w.lots table ∧
      r.2 = { w with
        wallets := wallets
        lots := table.mapValues fun l => l.finish res.workspaceId
        reservations := w.reservations.update id Reservation.release
        reservationAllocations :=
          w.reservationAllocations.filter fun a => a.reservationId ≠ id } := by
  rw [aiReleaseReservation, get_bind] at h
  cases hres : w.reservations.get id with
  | none =>
    simp only [hres] at h
    cases pure_ok.mp h
    exact .inl ⟨rfl, rfl⟩
  | some res =>
    obtain ⟨wallets, hlock⟩ := lock_eq w res.workspaceId
    simp only [hres, modify_bind, hlock] at h
    obtain ⟨_, w₁, hgive, h⟩ := bind_ok.mp h
    obtain ⟨table, hw, happ⟩ := giveBack_ok hpos hgive
    rw [modify_bind, modify_bind, modify_bind] at h
    cases modify_ok.mp h
    subst hw
    exact .inr ⟨res, table, _, rfl, happ, rfl⟩

theorem chargeLots_ok {entry : Id} {rows : List (Id × Int)} (hpos : ∀ p ∈ rows, 0 < p.2)
    (h : chargeLots entry left rows w = .ok r) :
    ∃ table, Applied Lot.charge (fill left rows) w.lots table ∧
      r.2 = { w with lots := table, ledgerAllocations :=
        w.ledgerAllocations ++ (fill left rows).map fun t => ⟨entry, t.1, t.2⟩ } := by
  induction rows generalizing left w with
  | nil =>
    cases pure_ok.mp h
    exact ⟨w.lots, Applied.refl _ _, by simp⟩
  | cons p rows ih =>
    obtain ⟨k, size⟩ := p
    have hsize : 0 < size := hpos _ List.mem_cons_self
    have htail : ∀ p ∈ rows, 0 < p.2 := fun p hp => hpos p (List.mem_cons_of_mem _ hp)
    unfold chargeLots at h
    by_cases hleft : left ≤ 0
    · rw [if_pos hleft] at h
      cases pure_ok.mp h
      rw [Lib.fill_of_nonpos hleft]
      exact ⟨w.lots, Applied.refl _ _, by simp⟩
    · rw [if_neg hleft] at h
      obtain ⟨_, w₁, hup, h⟩ := bind_ok.mp h
      obtain ⟨table₁, hw₁, hpost⟩ := updateLot_ok hup
      rw [insertLedgerAllocation, modify_bind] at h
      obtain ⟨table, happ, hw⟩ := ih htail h
      subst hw₁
      rw [Lib.fill_cons (by omega)]
      have hrest := Lib.fill_pos htail (left - min left size)
      exact ⟨table, Applied.cons charge_composes (by omega) hrest hpost happ, by simp [hw]⟩

def Run.billed (run : Run) (charge : Option Int) : Int :=
  if run.mode = .meterOnly then 0 else asked charge

/-- What settling `charge` adds to the run's reservation. -/
def Wallet.topupFor (w : Wallet) (now : Timestamp) (run : Run) (charge : Int) :
    List (Id × Int) :=
  match run.reservationId.bind w.reservations.get with
  | none => []
  | some r =>
    if 0 < charge ∧ r.amount < charge then w.holds now run.workspaceId (charge - r.amount) else []

/-- What the wallet pays of `charge`. -/
def Wallet.paid (w : Wallet) (now : Timestamp) (run : Run) (charge : Int) : Int :=
  match run.reservationId with
  | none => 0
  | some id =>
    match w.reservations.get id with
    | none => charge
    | some r =>
      if 0 < charge ∧ r.amount < charge then
        r.amount + ((w.topupFor now run charge).map Prod.snd).sum
      else charge

def Wallet.allocationsFor (w : Wallet) (now : Timestamp) (run : Run) (charge : Int) :
    List ReservationAllocation :=
  match run.reservationId with
  | none => []
  | some id => w.allocationsOf id ++ AiWallet.allocationsFor id (w.topupFor now run charge)

def Wallet.chargesFor (w : Wallet) (now : Timestamp) (run : Run) (charge : Int) :
    List (Id × Int) :=
  fill (w.paid now run charge) (w.chargeOrder (w.allocationsFor now run charge))

def Wallet.unsettled (w : Wallet) (runId : Id) (commandKey : Option String) : Option Run :=
  if (w.replay commandKey).isNone ∧ (w.settlements.get runId).isNone then w.runs.get runId
  else none

theorem topupFor_pos : ∀ t ∈ w.topupFor now run charge, 0 < t.2 := by
  intro t ht
  unfold Wallet.topupFor at ht
  split at ht
  · cases ht
  · split at ht
    · exact holds_pos t ht
    · cases ht

theorem asked_of_nonneg {x : Int} (h : 0 ≤ x) : asked (some x) = x := by
  simp [asked, h]

theorem fundCharge_ok (hrun : w.runs.get runId = some run) (hcharge : 0 ≤ charge)
    {r : (Int × Int) × Wallet} (h : fundCharge now runId run.reservationId charge w = .ok r) :
    r.1.1 = w.paid now run charge ∧ r.1.1 + r.1.2 = charge ∧ ∃ wallets table reservations,
      Applied Lot.hold (w.topupFor now run charge) w.lots table ∧
      (∀ j, (reservations.get j).map Reservation.terms = (w.reservations.get j).map (·.terms)) ∧
      r.2 = { w with
        wallets := wallets, lots := table, reservations := reservations
        reservationAllocations := w.reservationAllocations ++ run.reservationId.elim []
          fun id => allocationsFor id (w.topupFor now run charge) } := by
  unfold fundCharge at h
  by_cases hpos : 0 < charge
  · rw [if_pos hpos] at h
    cases hid : run.reservationId with
    | none =>
      simp only [hid] at h
      cases pure_ok.mp h
      have htop : w.topupFor now run charge = [] := by simp [Wallet.topupFor, hid]
      rw [htop]
      exact ⟨by simp [Wallet.paid, hid], by simp, w.wallets, w.lots, w.reservations,
        Applied.refl _ _, fun _ => rfl, by simp⟩
    | some id =>
      simp only [hid, get_bind] at h
      cases hres : w.reservations.get id with
      | none =>
        simp only [hres] at h
        cases pure_ok.mp h
        have htop : w.topupFor now run charge = [] := by simp [Wallet.topupFor, hid, hres]
        rw [htop]
        exact ⟨by simp [Wallet.paid, hid, hres], by simp, w.wallets, w.lots, w.reservations,
          Applied.refl _ _, fun _ => rfl, by simp [allocationsFor]⟩
      | some res =>
        simp only [hres] at h
        by_cases hless : res.amount < charge
        · rw [if_pos hless] at h
          obtain ⟨added, w₁, htopup, h⟩ := bind_ok.mp h
          have hdelta : asked (some (charge - res.amount)) = charge - res.amount :=
            asked_of_nonneg (by omega)
          have htop : w.topupFor now run charge =
              w.holds now run.workspaceId (charge - res.amount) := by
            simp [Wallet.topupFor, hid, hres, hpos, hless]
          have hpaid : w.paid now run charge =
              res.amount + ((w.topupFor now run charge).map Prod.snd).sum := by
            simp [Wallet.paid, hid, hres, hpos, hless]
          rcases topup_ok htopup with ⟨hnone, -⟩ | ⟨run', id', table, wallets, reservations,
            hrun', hid', happ, -, hstate, hsum, hw⟩
          · simp [hrun, hid] at hnone
          · cases hrun.symm.trans hrun'
            cases hid.symm.trans hid'
            rw [hdelta, ← htop] at happ hsum hw
            simp only at hsum hw
            have hle : added ≤ charge - res.amount := by
              rw [hsum, htop]
              exact Lib.sum_fill_le (by omega) _
            have hr : r = ((res.amount + added, charge - res.amount - added), w₁) := by
              by_cases hshort : added < charge - res.amount
              · rw [if_pos hshort] at h
                have hsub : charge - (charge - res.amount - added) = res.amount + added := by omega
                simpa [hsub] using pure_ok.mp h
              · rw [if_neg hshort] at h
                have hall : res.amount + added = charge := by omega
                have hzero : charge - res.amount - added = 0 := by omega
                simpa [hall, hzero] using pure_ok.mp h
            subst hr
            exact ⟨by rw [hpaid, hsum], by simp only; omega, wallets, table, reservations, happ,
              hstate, hw⟩
        · rw [if_neg hless] at h
          cases pure_ok.mp h
          have htop : w.topupFor now run charge = [] := by
            simp [Wallet.topupFor, hid, hres, hless]
          rw [htop]
          exact ⟨by simp [Wallet.paid, hid, hres, hless], by simp, w.wallets, w.lots,
            w.reservations, Applied.refl _ _, fun _ => rfl, by simp [allocationsFor]⟩
  · rw [if_neg hpos] at h
    cases pure_ok.mp h
    have htop : w.topupFor now run charge = [] := by
      simp only [Wallet.topupFor, hpos, false_and, if_false]
      split <;> rfl
    have hpaid : charge = w.paid now run charge := by
      simp only [Wallet.paid, hpos, false_and, if_false]
      split
      · omega
      · split <;> rfl
    rw [htop]
    refine ⟨hpaid, by simp, w.wallets, w.lots, w.reservations, Applied.refl _ _, fun _ => rfl, ?_⟩
    cases run.reservationId <;> simp [allocationsFor]

theorem chargeOrder_pos (hpos : ∀ a ∈ allocations, 0 < a.amount) :
    ∀ p ∈ w.chargeOrder allocations, 0 < p.2 := by
  intro p hp
  obtain ⟨r, hr, rfl⟩ := List.mem_map.mp hp
  rw [List.mem_insertionSort] at hr
  obtain ⟨a, ha, hmap⟩ := List.mem_filterMap.mp hr
  cases hl : w.lots.get a.lotId with
  | none => simp [hl] at hmap
  | some l =>
    simp only [hl, Option.map_some, Option.some.injEq] at hmap
    subst hmap
    exact hpos a ha

theorem chargeOrder_known : ∀ p ∈ w.chargeOrder allocations, (w.lots.get p.1).isSome := by
  intro p hp
  obtain ⟨r, hr, rfl⟩ := List.mem_map.mp hp
  rw [List.mem_insertionSort] at hr
  obtain ⟨a, -, hmap⟩ := List.mem_filterMap.mp hr
  cases hl : w.lots.get a.lotId with
  | none => simp [hl] at hmap
  | some l =>
    simp only [hl, Option.map_some, Option.some.injEq] at hmap
    subst hmap
    simp [hl]

theorem chargesFor_known : ∀ t ∈ w.chargesFor now run charge, (w.lots.get t.1).isSome := by
  intro t ht
  obtain ⟨p, hp, hk⟩ := Lib.fill_keys ht
  rw [← hk]
  exact chargeOrder_known p hp

theorem chargesFor_pos (hpos : ∀ a ∈ w.reservationAllocations, 0 < a.amount) :
    ∀ t ∈ w.chargesFor now run charge, 0 < t.2 := by
  refine Lib.fill_pos (chargeOrder_pos fun a ha => ?_) _
  unfold Wallet.allocationsFor at ha
  split at ha
  · cases ha
  · rcases List.mem_append.mp ha with ha | ha
    · exact hpos a (List.mem_filter.mp ha).1
    · obtain ⟨t, ht, rfl⟩ := List.mem_map.mp ha
      exact topupFor_pos t ht

theorem chargeOrder_congr (h : ∀ id,
      (w'.lots.get id).map Lot.expiresAt = (w.lots.get id).map Lot.expiresAt)
    (allocations : List ReservationAllocation) :
    w'.chargeOrder allocations = w.chargeOrder allocations := by
  have hjoin (a : ReservationAllocation) : (w'.lots.get a.lotId).map (fun l => (a, l.expiresAt)) =
      (w.lots.get a.lotId).map fun l => (a, l.expiresAt) := by
    have := congrArg (Option.map fun e => (a, e)) (h a.lotId)
    simpa [Option.map_map, Function.comp_def] using this
  unfold Wallet.chargeOrder
  simp only [hjoin]

theorem postCharge_ok {cycle : String} (hpos : ∀ a ∈ w.reservationAllocations, 0 < a.amount)
    (h : postCharge run runId cycle charge w = .ok r) : ∃ table, Applied Lot.charge
        (fill charge (w.chargeOrder (run.reservationId.elim [] w.allocationsOf))) w.lots table ∧
      (charge ≤ 0 ∧ r.2 = { w with lots := table } ∨
        ∃ entry wallets settlements, entry.entryType = .charge ∧ r.2 = { w with
          nextId := w.nextId + 1, wallets := wallets, lots := table, settlements := settlements
          ledger := w.ledger.put w.nextId entry
          ledgerAllocations := w.ledgerAllocations ++
            (fill charge (w.chargeOrder (run.reservationId.elim [] w.allocationsOf))).map
              fun t => ⟨w.nextId, t.1, t.2⟩ }) := by
  unfold postCharge at h
  by_cases hc : 0 < charge
  · rw [if_pos hc, insertLedger] at h
    simp only [bind_assoc, get_bind, set_bind, pure_bind] at h
    obtain ⟨_, w₁, hcharge, h⟩ := bind_ok.mp h
    cases modify_ok.mp h
    have hrows : ∀ a ∈ run.reservationId.elim [] w.allocationsOf, 0 < a.amount := by
      cases run.reservationId with
      | none => simp
      | some id => exact fun a ha => hpos a (List.mem_filter.mp ha).1
    obtain ⟨table, happ, hw⟩ := chargeLots_ok (chargeOrder_pos hrows) hcharge
    subst hw
    exact ⟨table, happ, .inr ⟨_, _, _, rfl, rfl⟩⟩
  · rw [if_neg hc] at h
    cases pure_ok.mp h
    rw [Lib.fill_of_nonpos (by omega)]
    exact ⟨w.lots, Applied.refl _ _, .inl ⟨by omega, rfl⟩⟩

theorem closeReservation_ok {reservationId : Option Id}
    (hpos : ∀ a ∈ w.reservationAllocations, 0 < a.amount)
    (h : closeReservation reservationId w = .ok r) :
    reservationId.bind w.reservations.get = none ∧ r.2 = w ∨
    ∃ id res table wallets reservations, reservationId = some id ∧
      w.reservations.get id = some res ∧
      Applied Lot.giveBack ((w.allocationsOf id).map fun a => (a.lotId, a.amount)) w.lots table ∧
      (∀ j, j ≠ id → reservations.get j = w.reservations.get j) ∧ r.2 = { w with
        wallets := wallets
        lots := table.mapValues fun l => l.finish res.workspaceId
        reservations := reservations
        reservationAllocations :=
          w.reservationAllocations.filter fun a => a.reservationId ≠ id } := by
  cases hid : reservationId with
  | none =>
    simp only [closeReservation, hid] at h
    cases pure_ok.mp h
    exact .inl ⟨rfl, rfl⟩
  | some id =>
    simp only [closeReservation, hid] at h
    obtain ⟨_, w₁, hrel, h⟩ := bind_ok.mp h
    cases modify_ok.mp h
    rcases release_ok (fun a ha => hpos a (List.mem_filter.mp ha).1) hrel with
      ⟨hnone, hw⟩ | ⟨res, table, wallets, hres, happ, hw⟩
    · simp only at hw
      subst hw
      refine .inl ⟨hnone, ?_⟩
      simp [Lib.Table.update, hnone]
    · simp only at hw
      subst hw
      refine .inr ⟨id, res, table, wallets, _, rfl, hres, happ, ?_, rfl⟩
      intro j hj
      simp [Lib.Table.get_update_ne _ _ hj]

theorem unsettled_run (h : w.unsettled runId key = some run) : w.runs.get runId = some run := by
  unfold Wallet.unsettled at h
  split at h
  · exact h
  · cases h

theorem billed_nonneg (run : Run) (charge : Option Int) : 0 ≤ run.billed charge := by
  unfold Run.billed asked
  split
  · exact le_rfl
  · exact le_max_right _ _

/-- A settlement that is no replay: it funds the charge, posts it and closes the
reservation. -/
theorem settle_ok {usd irr charge : Option Int} {r : SettleResult × Wallet}
    (h : aiSettleRun now runId key usd irr charge cycle w = .ok r) :
    w.unsettled runId key = none ∧ r.2 = w ∨
    ∃ run paid absorbed w₁ settlements cycle' w₂ w₃ wallets runs commands,
      w.unsettled runId key = some run ∧
      fundCharge now runId run.reservationId (run.billed charge) (w.lock run.workspaceId) =
        .ok ((paid, absorbed), w₁) ∧ postCharge run runId cycle' paid
        { w₁ with nextId := w₁.nextId + 1, settlements := settlements } = .ok ((), w₂) ∧
      closeReservation run.reservationId w₂ = .ok ((), w₃) ∧
      r.2 = { w₃ with wallets := wallets, runs := runs, commands := commands } := by
  rw [aiSettleRun, get_bind] at h
  cases hkey : w.replay key with
  | some id =>
    simp only [hkey] at h
    cases pure_ok.mp h
    exact .inl ⟨by simp [Wallet.unsettled, hkey], rfl⟩
  | none =>
    cases hrun : w.runs.get runId with
    | none =>
      simp only [hkey, hrun] at h
      exact (throw_ok.mp h).elim
    | some run =>
      cases hset : w.settlements.get runId with
      | some s =>
        simp only [hkey, hrun, hset] at h
        cases pure_ok.mp h
        exact .inl ⟨by simp [Wallet.unsettled, hset], rfl⟩
      | none =>
        simp only [hkey, hrun, hset, modify_bind, insertSettlement, bind_assoc, pure_bind] at h
        obtain ⟨⟨paid, absorbed⟩, w₁, hfund, h⟩ := bind_ok.mp h
        rw [get_bind, set_bind] at h
        obtain ⟨_, w₂, hpost, h⟩ := bind_ok.mp h
        obtain ⟨_, w₃, hclose, h⟩ := bind_ok.mp h
        rw [modify_bind, modify_bind, get_bind, modify_bind] at h
        cases pure_ok.mp h
        obtain ⟨commands, hcmd⟩ := recordCommand_eq _ key _
        exact .inr ⟨run, paid, absorbed, w₁, _, _, w₂, w₃, _, _, commands,
          by simp [Wallet.unsettled, hkey, hset, hrun], hfund, hpost, hclose, hcmd⟩

theorem hold_expiresAt (x : Int) (l l' : Lot) (h : Lot.hold x l = some l') :
    l'.expiresAt = l.expiresAt :=
  (withAmounts_ok h).2.2.2.1

theorem topupFor_none (h : run.reservationId.bind w.reservations.get = none) :
    w.topupFor now run charge = [] := by
  simp [Wallet.topupFor, h]

theorem filter_allocationsFor (id : Id) (takes : List (Id × Int)) :
    (allocationsFor id takes).filter (fun a => a.reservationId = id) = allocationsFor id takes := by
  rw [List.filter_eq_self]
  intro a ha
  obtain ⟨t, -, rfl⟩ := List.mem_map.mp ha
  simp

/-- A settlement that has charged its lots, in terms of the wallet before it. -/
theorem charged_ok {paid absorbed : Int} {cycle : String} {w₁ w₂ : Wallet}
    {settlements : Table Id Settlement} (hpos : ∀ a ∈ w.reservationAllocations, 0 < a.amount)
    (hrun : w.runs.get runId = some run) (hcharge : 0 ≤ charge)
    (hfund : fundCharge now runId run.reservationId charge (w.lock run.workspaceId) =
      .ok ((paid, absorbed), w₁)) (hpost : postCharge run runId cycle paid
      { w₁ with nextId := w₁.nextId + 1, settlements := settlements } = .ok ((), w₂)) :
    ∃ table, Applied Lot.hold (w.topupFor now run charge) w.lots table ∧
      Applied Lot.charge (w.chargesFor now run charge) table w₂.lots ∧
      w₂.reservationAllocations = w.reservationAllocations ++ run.reservationId.elim []
        (fun id => allocationsFor id (w.topupFor now run charge)) ∧
      (∀ j, (w₂.reservations.get j).map Reservation.terms =
        (w.reservations.get j).map (·.terms)) ∧
      (w.paid now run charge ≤ 0 ∧ w₂.nextId = w.nextId + 1 ∧ w₂.ledger = w.ledger ∧
          w₂.ledgerAllocations = w.ledgerAllocations ∨
        ∃ entry : LedgerEntry, entry.entryType = .charge ∧ w₂.nextId = w.nextId + 1 + 1 ∧
          w₂.ledger = w.ledger.put (w.nextId + 1) entry ∧
          w₂.ledgerAllocations = w.ledgerAllocations ++
            (w.chargesFor now run charge).map fun t => ⟨w.nextId + 1, t.1, t.2⟩) := by
  obtain ⟨wallets, hlock⟩ := lock_eq w run.workspaceId
  rw [hlock] at hfund
  have htopup : Wallet.topupFor { w with wallets := wallets } now run charge =
      w.topupFor now run charge := rfl
  obtain ⟨hpaid, -, wallets₁, table, reservations, hhold, hstate, hw₁⟩ :=
    fundCharge_ok (w := { w with wallets := wallets }) hrun hcharge hfund
  rw [htopup] at hhold hw₁
  simp only at hpaid hhold hw₁
  subst hw₁
  have hpos₁ : ∀ a ∈ w.reservationAllocations ++ run.reservationId.elim []
      (fun id => allocationsFor id (w.topupFor now run charge)), 0 < a.amount := by
    intro a ha
    rcases List.mem_append.mp ha with ha | ha
    · exact hpos a ha
    · cases hid : run.reservationId with
      | none => simp [hid] at ha
      | some id =>
        rw [hid] at ha
        obtain ⟨t, ht, rfl⟩ := List.mem_map.mp ha
        exact topupFor_pos t ht
  obtain ⟨table₂, hcharges, hw₂⟩ := postCharge_ok hpos₁ hpost
  have horder (allocations : List ReservationAllocation) :
      Wallet.chargeOrder { w with lots := table } allocations = w.chargeOrder allocations :=
    chargeOrder_congr (hhold.map_eq hold_expiresAt) allocations
  have hcharge : fill paid (Wallet.chargeOrder { w with lots := table }
      (run.reservationId.elim [] fun id => (w.reservationAllocations ++ run.reservationId.elim []
        (fun id => allocationsFor id (w.topupFor now run charge))).filter
          fun a => a.reservationId = id)) = w.chargesFor now run charge := by
    rw [horder, hpaid]
    unfold Wallet.chargesFor Wallet.allocationsFor
    cases hid : run.reservationId with
    | none => rfl
    | some id =>
      simp only [Option.elim_some, List.filter_append, filter_allocationsFor]
      rfl
  have hcharges : Applied Lot.charge (w.chargesFor now run charge) table table₂ := by
    rw [← hcharge]
    exact hcharges
  refine ⟨table, hhold, ?_⟩
  rcases hw₂ with ⟨hle, hw₂⟩ | ⟨entry, wallets₂, settlements₂, hentry, hw₂⟩
  · simp only at hw₂
    subst hw₂
    exact ⟨hcharges, rfl, hstate, .inl ⟨hpaid ▸ hle, rfl, rfl, rfl⟩⟩
  · simp only at hw₂
    subst hw₂
    refine ⟨hcharges, rfl, hstate, .inr ⟨entry, hentry, rfl, rfl, ?_⟩⟩
    rw [← hcharge]
    rfl

def Wallet.withLot (w : Wallet) (lot : Lot) (entry : LedgerEntry) : Wallet :=
  { w with
    nextId := w.nextId + 1 + 1
    lots := w.lots.put w.nextId lot
    ledger := w.ledger.put (w.nextId + 1) entry
    ledgerAllocations := w.ledgerAllocations ++ [⟨w.nextId + 1, w.nextId, lot.originalAmount⟩] }

def Lot.Untouched (lot : Lot) : Prop :=
  lot.remainingAmount = lot.originalAmount ∧ lot.reservedAmount = 0

theorem fresh_untouched (ws : Id) (source : SourceType) (amount : Int) (now : Timestamp) :
    (Lot.fresh ws source amount now).Untouched :=
  ⟨rfl, rfl⟩

inductive Funds (entryType : EntryType) (w w' : Wallet) : Prop where
  | replayed (wallets : Table Id WalletRow) (commands : Table String Command)
      (h : w' = { w with wallets := wallets, commands := commands })
  | funded (lot : Lot) (entry : LedgerEntry) (wallets : Table Id WalletRow)
      (commands : Table String Command) (hlot : lot.Untouched) (hsane : 0 ≤ lot.originalAmount)
      (htype : entry.entryType = entryType) (hamount : entry.amount = lot.originalAmount)
      (h : w' = { w.withLot lot entry with wallets := wallets, commands := commands })

theorem fundLot_ok {r : (Id × Id) × Wallet} (h : fundLot lot entryType reason w = .ok r) :
    ∃ entry : LedgerEntry, entry.entryType = entryType ∧ entry.amount = lot.originalAmount ∧
      r = ((w.nextId, w.nextId + 1), w.withLot lot entry) := by
  simp only [fundLot, insertLot, insertLedger, insertLedgerAllocation, bind_assoc, pure_bind] at h
  rw [get_bind, set_bind, get_bind, set_bind, modify_bind] at h
  exact ⟨_, rfl, rfl, pure_ok.mp h⟩

theorem Funds.project (h : Funds entryType w w') (ws : Id) : Funds entryType w (w'.project ws) := by
  cases h with
  | replayed wallets commands h =>
    subst h
    exact .replayed _ commands rfl
  | funded lot entry wallets commands hlot hsane htype hamount h =>
    subst h
    exact .funded lot entry _ commands hlot hsane htype hamount rfl

theorem Funds.record (h : Funds entryType w w') (key : Option String) (c : Command)
    : Funds entryType w (w'.recordCommand key c) := by
  obtain ⟨commands', hcmd⟩ := recordCommand_eq w' key c
  rw [hcmd]
  cases h with
  | replayed wallets commands h =>
    subst h
    exact .replayed wallets commands' rfl
  | funded lot entry wallets commands hlot hsane htype hamount h =>
    subst h
    exact .funded lot entry wallets commands' hlot hsane htype hamount rfl

theorem allowanceLot_ok {source : String} {wallets : Table Id WalletRow} {r : Id × Wallet}
    (h : allowanceLot now ws amount cycle source expires { w with wallets := wallets } = .ok r) :
    Funds .grant w r.2 := by
  rw [allowanceLot, get_bind] at h
  generalize List.find? _ _ = granted at h
  cases granted with
  | some row =>
    cases pure_ok.mp h
    exact .replayed wallets w.commands rfl
  | none =>
    obtain ⟨_, w₁, hfund, h⟩ := bind_ok.mp h
    cases pure_ok.mp h
    obtain ⟨entry, htype, hamount, hw⟩ := fundLot_ok hfund
    cases hw
    exact .funded _ entry wallets w.commands ⟨rfl, rfl⟩ (le_max_right _ _) htype hamount rfl

theorem grantAllowance_ok {source : Option String} {r : Id × Wallet}
    (h : aiGrantAllowance now ws amount cycle source expires key w = .ok r) :
    Funds .grant w r.2 := by
  obtain ⟨wallets, hlock⟩ := lock_eq w ws
  rw [aiGrantAllowance, modify_bind, get_bind, hlock, replay_wallets] at h
  cases hkey : w.replay key with
  | some id =>
    simp only [hkey] at h
    cases pure_ok.mp h
    exact .replayed wallets w.commands rfl
  | none =>
    simp only [hkey] at h
    obtain ⟨lot, w₁, hlot, h⟩ := bind_ok.mp h
    rw [modify_bind, modify_bind] at h
    cases pure_ok.mp h
    exact ((allowanceLot_ok hlot).project ws).record key _

theorem purchaseCredit_ok {r : Id × Wallet}
    (h : aiPurchaseCredit now ws amount key reason w = .ok r) : Funds .purchase w r.2 := by
  obtain ⟨wallets, hlock⟩ := lock_eq w ws
  rw [aiPurchaseCredit, modify_bind, get_bind, hlock, replay_wallets] at h
  cases hkey : w.replay key with
  | some id =>
    simp only [hkey] at h
    cases pure_ok.mp h
    exact .replayed wallets w.commands rfl
  | none =>
    simp only [hkey] at h
    obtain ⟨ids, w₁, hfund, h⟩ := bind_ok.mp h
    rw [modify_bind, modify_bind] at h
    cases pure_ok.mp h
    obtain ⟨entry, htype, hamount, hw⟩ := fundLot_ok hfund
    cases hw
    have hfunds : Funds .purchase w ({ w with wallets := wallets }.withLot _ entry) :=
      .funded _ entry wallets w.commands (fresh_untouched _ _ _ _) (le_max_right _ _) htype hamount
        rfl
    exact (hfunds.project ws).record key _

theorem adjustBalance_ok {r : Id × Wallet} (h : aiAdjustBalance now ws amount reason key w = .ok r)
    : Funds .adjustment w r.2 := by
  obtain ⟨wallets, hlock⟩ := lock_eq w ws
  rw [aiAdjustBalance, get_bind] at h
  cases hkey : w.replay key with
  | some id =>
    simp only [hkey] at h
    cases pure_ok.mp h
    exact .replayed w.wallets w.commands rfl
  | none =>
    simp only [hkey] at h
    rw [modify_bind, hlock] at h
    obtain ⟨ids, w₁, hfund, h⟩ := bind_ok.mp h
    rw [modify_bind, modify_bind] at h
    cases pure_ok.mp h
    obtain ⟨entry, htype, hamount, hw⟩ := fundLot_ok hfund
    cases hw
    have hfunds : Funds .adjustment w ({ w with wallets := wallets }.withLot _ entry) :=
      .funded _ entry wallets w.commands (fresh_untouched _ _ _ _) (le_max_right _ _) htype hamount
        rfl
    exact (hfunds.project ws).record key _

theorem beginRun_ok {key hash : String} {mode : Option RunMode} {r : Id × Wallet}
    (h : aiBeginRun ws key hash mode w = .ok r) :
    r.2 = w ∨ ∃ runs, r.2 = { w with nextId := w.nextId + 1, runs := runs } := by
  rw [aiBeginRun, get_bind] at h
  cases hrun : w.runs.rows.find? fun r => r.2.operationKey = key with
  | some run =>
    simp only [hrun] at h
    rw [require_bind_ok] at h
    cases pure_ok.mp h.2
    exact .inl rfl
  | none =>
    simp only [hrun] at h
    cases pure_ok.mp h
    exact .inr ⟨_, rfl⟩

theorem reserve_ok {runId : Option Id} {r : ReserveResult × Wallet}
    (h : aiReserve now ws runId amount key w = .ok r) :
    (∃ wallets, r.2 = { w with wallets := wallets }) ∨
    ∃ table wallets reservations runs commands,
      Applied Lot.hold (w.holds now ws (asked amount)) w.lots table ∧
      (reservations.get w.nextId).map Reservation.state = some .active ∧
      (∀ j, j ≠ w.nextId → reservations.get j = w.reservations.get j) ∧
      r.2 = { w with
        nextId := w.nextId + 1, wallets := wallets, lots := table, reservations := reservations
        reservationAllocations := w.reservationAllocations ++
          allocationsFor w.nextId (w.holds now ws (asked amount))
        commands := commands, runs := runs } := by
  obtain ⟨wallets, hlock⟩ := lock_eq w ws
  rw [aiReserve, modify_bind, get_bind, hlock, replay_wallets] at h
  cases hkey : w.replay key with
  | some id =>
    simp only [hkey] at h
    cases pure_ok.mp h
    exact .inl ⟨wallets, rfl⟩
  | none =>
    simp only [hkey, insertReservation, bind_assoc, pure_bind] at h
    rw [get_bind, require_bind_ok] at h
    obtain ⟨-, h⟩ := h
    rw [set_bind] at h
    obtain ⟨left, w₁, hhold, h⟩ := bind_ok.mp h
    rw [modify_bind, modify_bind, modify_bind, modify_bind, get_bind] at h
    cases pure_ok.mp h
    obtain ⟨takes, table, htakes, -, happ, -, hw⟩ := holdLots_ok spendable_free hhold
    obtain ⟨runs, hlink⟩ := linkRun_eq (w₁.sumReservation w.nextId) runId w.nextId
    obtain ⟨commands, hcmd⟩ := recordCommand_eq
      (((w₁.sumReservation w.nextId).linkRun runId w.nextId).project ws) key
      ⟨.reserve, ws, runId, w.nextId⟩
    rw [hlink] at hcmd
    simp only [hlink, hcmd]
    subst hw htakes
    refine .inr ⟨table, _, _, runs, commands, happ, ?_, ?_, rfl⟩
    · simp [Wallet.project, Wallet.sumReservation]
    · intro j hj
      simp [Wallet.project, Wallet.sumReservation, Lib.Table.get_update_ne _ _ hj,
        Lib.Table.get_put_ne _ _ hj]

theorem refund_ok {r : RefundResult × Wallet}
    (h : aiRefundRun now runId amount reason key w = .ok r) :
    r.2 = w ∨ ∃ ws left refunded wallets wallets' w₁ commands, ∃ entry : LedgerEntry,
      entry.entryType = .refund ∧ entry.amount = left ∧ 0 < left ∧
      refundLots now ws w.nextId left (w.chargesOf runId) { w with
        nextId := w.nextId + 1, wallets := wallets, ledger := w.ledger.put w.nextId entry } =
          .ok (refunded, w₁) ∧
      r.2 = { w₁ with wallets := wallets', commands := commands } := by
  rw [aiRefundRun, get_bind] at h
  cases hkey : w.replay key with
  | some id =>
    simp only [hkey] at h
    cases pure_ok.mp h
    exact .inl rfl
  | none =>
    cases hrun : w.runs.get runId with
    | none =>
      simp only [hkey, hrun] at h
      exact (throw_ok.mp h).elim
    | some run =>
      obtain ⟨wallets, hlock⟩ := lock_eq w run.workspaceId
      simp only [hkey, hrun, modify_bind, hlock] at h
      rw [require_bind_ok, require_bind_ok] at h
      obtain ⟨-, hleft, h⟩ := h
      simp only [insertLedger, bind_assoc, pure_bind] at h
      rw [get_bind, set_bind] at h
      obtain ⟨refunded, w₁, hlots, h⟩ := bind_ok.mp h
      rw [modify_bind, modify_bind] at h
      cases pure_ok.mp h
      obtain ⟨commands, hcmd⟩ := recordCommand_eq (w₁.project run.workspaceId) key
        ⟨.refund, run.workspaceId, runId, w.nextId⟩
      simp only [hcmd]
      refine .inr ⟨_, _, refunded, wallets, _, w₁, commands, _, ?_, ?_, hleft, hlots, rfl⟩
      · rfl
      · rfl

theorem retireLot_ok {reason : String} (hlot : w.lots.get id = some lot)
    (h : retireLot reason (id, lot) w = .ok r) :
    ∃ l', l'.remainingAmount = lot.reservedAmount ∧ l'.reservedAmount = lot.reservedAmount ∧
      (lot.free ≤ 0 ∧ r.2 = { w with lots := w.lots.put id l' } ∨
        ∃ entry : LedgerEntry, entry.entryType = .expiration ∧ r.2 = { w with
          nextId := w.nextId + 1, lots := w.lots.put id l'
          ledger := w.ledger.put w.nextId entry
          ledgerAllocations := w.ledgerAllocations ++ [⟨w.nextId, id, lot.free⟩] }) := by
  obtain ⟨_, w₁, hoff, hup⟩ := bind_ok.mp h
  obtain ⟨table, hw₂, hpost⟩ := updateLot_ok hup
  rcases ite_ok.mp hoff with ⟨-, h⟩ | ⟨hfree, h⟩
  · simp only [insertLedger, insertLedgerAllocation, bind_assoc, pure_bind] at h
    rw [get_bind, set_bind] at h
    cases modify_ok.mp h
    obtain ⟨hnone, -⟩ | ⟨l, l', hget, hf, rfl⟩ := hpost
    · simp [hlot] at hnone
    · cases hlot.symm.trans hget
      have := withAmounts_ok hf
      exact ⟨l', this.1, this.2.1, .inr ⟨_, rfl, hw₂⟩⟩
  · cases pure_ok.mp h
    obtain ⟨hnone, -⟩ | ⟨l, l', hget, hf, rfl⟩ := hpost
    · simp [hlot] at hnone
    · cases hlot.symm.trans hget
      have := withAmounts_ok hf
      exact ⟨l', this.1, this.2.1, .inl ⟨Int.not_lt.mp hfree, hw₂⟩⟩

def Wallet.expiring (w : Wallet) (now : Timestamp) : List (Id × Lot) :=
  w.lots.rows.filter fun r => r.2.live ∧ !r.2.unexpired now ∧ 0 < r.2.remainingAmount

theorem expiring_get : ∀ r ∈ w.expiring now, w.lots.get r.1 = some r.2 := fun _ hr =>
  Lib.Table.get_eq_some_iff_mem.mpr (List.mem_filter.mp hr).1

theorem expiring_nodup : ((w.expiring now).map Prod.fst).Nodup :=
  w.lots.keys_nodup.sublist (List.filter_sublist.map _)

theorem expireLots_ok {r : Nat × Wallet} (h : aiExpireLots now w = .ok r) :
    (w.expiring now).forM expireLot w = .ok ((), r.2) := by
  rw [aiExpireLots, get_bind] at h
  obtain ⟨_, w₁, hloop, h⟩ := bind_ok.mp h
  cases pure_ok.mp h
  exact hloop

theorem retireLot_succeeds (reason : String) (hlot : w.lots.get id = some lot)
    : Succeeds (retireLot reason (id, lot)) w := by
  have hoff : ∃ a w', writeOff reason id lot w = .ok (a, w') ∧ w'.lots = w.lots := by
    unfold writeOff
    split <;> exact ⟨_, _, rfl, rfl⟩
  obtain ⟨a, w', hoff, hlots⟩ := hoff
  refine .bind ⟨_, hoff⟩ fun r hr => ?_
  cases hoff.symm.trans hr
  have hsane := lot.amounts_sane.1
  refine .get_bind ?_
  simp only [hlots, hlot, Lot.withAmounts, hsane, le_refl, and_self, dite_true]
  exact ⟨_, rfl⟩

theorem retireLots_succeed (reason : String) (lots : List (Id × Lot))
    (hlots : ∀ r ∈ lots, w.lots.get r.1 = some r.2) (hnodup : (lots.map Prod.fst).Nodup) :
    Succeeds (lots.forM (retireLot reason)) w := by
  induction lots generalizing w with
  | nil => exact .pure _ _
  | cons lot lots ih =>
    obtain ⟨id, lot⟩ := lot
    have hlot := hlots _ List.mem_cons_self
    obtain ⟨hid, hnodup⟩ := List.nodup_cons.mp hnodup
    refine .bind (retireLot_succeeds reason hlot) fun r hr => ih (fun x hx => ?_) hnodup
    have hne : x.1 ≠ id := fun h => hid (List.mem_map.mpr ⟨x, hx, h⟩)
    rw [← hlots x (List.mem_cons_of_mem _ hx)]
    obtain ⟨lot', -, -, ⟨-, hw⟩ | ⟨_, -, hw⟩⟩ := retireLot_ok hlot hr
    · rw [hw, Lib.Table.get_put_ne _ _ hne]
    · rw [hw, Lib.Table.get_put_ne _ _ hne]

theorem aiGrantAllowance_succeeds (now : Timestamp) (workspaceId : Id) (amount : Option Int)
    (cycle source : Option String) (expiresAt : Option Timestamp) (key : Option String)
    (w : Wallet) :
    Succeeds (aiGrantAllowance now workspaceId amount cycle source expiresAt key) w := by
  refine .modify_bind (.get_bind ?_)
  cases (w.lock workspaceId).replay key with
  | some id => exact .pure _ _
  | none =>
    refine .bind ?_ fun r _ => ⟨_, rfl⟩
    refine .get_bind ?_
    generalize List.find? _ _ = lot
    cases lot with
    | some lot => exact .pure _ _
    | none => exact ⟨_, rfl⟩

end Kindred.AiWallet
