import Kindred.AiWallet.Effects

namespace Kindred.AiWallet
open Lib (total total_append total_congr total_eq_zero share Applied)
open Lib.Tx

def LedgerEntry.sign (e : LedgerEntry) : Int :=
  match e.entryType with
  | .grant | .purchase | .refund => 1
  | .charge | .expiration => -1
  | .adjustment => if 0 ≤ e.amount then 1 else -1

def Wallet.signed (w : Wallet) (a : LedgerAllocation) : Int :=
  (w.ledger.get a.ledgerEntryId).elim 0 fun e => e.sign * a.amount

def Wallet.postedTo (w : Wallet) (lotId : Id) : Int :=
  total (fun a => a.lotId = lotId) w.signed w.ledgerAllocations

def LotsMatchLedger (w : Wallet) : Prop :=
  ∀ id, ∀ l ∈ w.lots.get id, l.remainingAmount = w.postedTo id

structure LedgerSound (w : Wallet) : Prop where
  remaining : ∀ {id l}, w.lots.get id = some l → l.remainingAmount = w.postedTo id
  lots_old : ∀ {id l}, w.lots.get id = some l → id < w.nextId
  posted_old : ∀ a ∈ w.ledgerAllocations, a.lotId < w.nextId ∧ a.ledgerEntryId < w.nextId
  positive : ∀ a ∈ w.reservationAllocations, 0 < a.amount

variable {w : Wallet} {lotId entryId : Id} {entry : LedgerEntry}

theorem LedgerSound.lotsMatchLedger (h : LedgerSound w) : LotsMatchLedger w :=
  fun _ _ hl => h.remaining hl

theorem ledgerSound_empty : LedgerSound .empty where
  remaining h := by simp [Wallet.empty] at h
  lots_old h := by simp [Wallet.empty] at h
  posted_old := by simp [Wallet.empty]
  positive := by simp [Wallet.empty]

section Statements
variable {w w' : Wallet} {entry : LedgerEntry} {entryId : Id} {news : List LedgerAllocation}

theorem postedTo_congr (hledger : w'.ledger = w.ledger)
    (hposted : w'.ledgerAllocations = w.ledgerAllocations) (id : Id) :
    w'.postedTo id = w.postedTo id := by
  unfold Wallet.postedTo
  rw [hposted]
  exact total_congr (fun _ _ => Iff.rfl) fun a _ _ => by simp [Wallet.signed, hledger]

theorem LedgerSound.frame (h : LedgerSound w) (hlots : w'.lots = w.lots)
    (hledger : w'.ledger = w.ledger) (hposted : w'.ledgerAllocations = w.ledgerAllocations)
    (halloc : ∀ a ∈ w'.reservationAllocations, 0 < a.amount) (hid : w.nextId ≤ w'.nextId) :
    LedgerSound w' where
  remaining hl := by
    rw [postedTo_congr hledger hposted]
    exact h.remaining (hlots ▸ hl)
  lots_old hl := lt_of_lt_of_le (h.lots_old (hlots ▸ hl)) hid
  posted_old a ha := by
    have := h.posted_old a (hposted ▸ ha)
    exact ⟨lt_of_lt_of_le this.1 hid, lt_of_lt_of_le this.2 hid⟩
  positive := halloc

theorem postedTo_post (h : LedgerSound w) (hnew : w.nextId ≤ entryId)
    (hnews : ∀ a ∈ news, a.ledgerEntryId = entryId)
    (hledger : w'.ledger = w.ledger.put entryId entry)
    (hposted : w'.ledgerAllocations = w.ledgerAllocations ++ news) (id : Id) :
    w'.postedTo id = w.postedTo id +
      entry.sign * total (fun a => a.lotId = id) LedgerAllocation.amount news := by
  have hold : total (fun a => a.lotId = id) w'.signed w.ledgerAllocations =
      total (fun a => a.lotId = id) w.signed w.ledgerAllocations := by
    refine total_congr (fun _ _ => Iff.rfl) fun a ha _ => ?_
    have hne : a.ledgerEntryId ≠ entryId := by
      intro he
      have := (h.posted_old a ha).2
      lia
    simp [Wallet.signed, hledger, Lib.Table.get_put_ne _ _ hne]
  have hall : total (fun a => a.lotId = id) w'.signed news =
      entry.sign * total (fun a => a.lotId = id) LedgerAllocation.amount news := by
    clear hposted
    induction news with
    | nil => simp
    | cons a news ih =>
      have ih := ih fun b hb => hnews b (List.mem_cons_of_mem a hb)
      have ha : w'.signed a = entry.sign * a.amount := by
        simp [Wallet.signed, hledger, hnews a List.mem_cons_self]
      by_cases hid : a.lotId = id
      · simp [hid, ha, ih, Int.mul_add]
      · simp [hid, ih]
  rw [Wallet.postedTo, hposted, total_append, hold, hall]
  rfl

theorem LedgerSound.setLots (h : LedgerSound w) {table : Table Id Lot}
    (hkeep : ∀ id l', table.get id = some l' →
      ∃ l, w.lots.get id = some l ∧ l'.remainingAmount = l.remainingAmount) :
    LedgerSound { w with lots := table } where
  remaining {id l'} hl := by
    obtain ⟨l, hget, hr⟩ := hkeep id l' hl
    rw [hr]
    exact h.remaining hget
  lots_old {id l'} hl := by
    obtain ⟨l, hget, -⟩ := hkeep id l' hl
    exact h.lots_old hget
  posted_old := h.posted_old
  positive := h.positive

theorem LedgerSound.postedTo_new (h : LedgerSound w) {id : Id} (hid : w.nextId ≤ id) :
    w.postedTo id = 0 :=
  total_eq_zero fun a ha he => by
    have := (h.posted_old a ha).1
    lia

theorem funds_ledger {entryType : EntryType} (hw : LedgerSound w)
    (hcredits : ∀ e : LedgerEntry, e.entryType = entryType → 0 ≤ e.amount → e.sign = 1)
    (h : Funds entryType w w') : LedgerSound w' := by
  cases h with
  | replayed wallets commands h =>
    subst h
    exact hw.frame rfl rfl rfl hw.positive le_rfl
  | funded lot entry wallets commands hlot hsane htype hamount h =>
    subst h
    have hsign : entry.sign = 1 := hcredits entry htype (hamount ▸ hsane)
    suffices hlot : LedgerSound (w.withLot lot entry) from
      hlot.frame rfl rfl rfl hlot.positive le_rfl
    have hpost (id : Id) : (w.withLot lot entry).postedTo id =
        w.postedTo id + entry.sign * total (fun a => a.lotId = id) LedgerAllocation.amount
          [⟨w.nextId + 1, w.nextId, lot.originalAmount⟩] :=
      postedTo_post hw (Nat.le_succ _) (by simp) rfl rfl id
    constructor
    · intro id l hl
      rw [hpost, hsign]
      simp only [Wallet.withLot, Lib.Table.get_put] at hl
      split at hl
      · rename_i hid
        cases hl
        simp [hid, hlot.1, hw.postedTo_new le_rfl]
      · rename_i hid
        simp [hw.remaining hl, Ne.symm hid]
    · intro id l hl
      simp only [Wallet.withLot, Lib.Table.get_put] at hl ⊢
      split at hl
      · lia
      · have := hw.lots_old hl
        lia
    · intro a ha
      simp only [Wallet.withLot] at ha ⊢
      rcases List.mem_append.mp ha with ha | ha
      · have := hw.posted_old a ha
        lia
      · cases List.mem_singleton.mp ha
        simp only
        lia
    · exact hw.positive

theorem LedgerSound.post (h : LedgerSound w) (hnew : w.nextId ≤ entryId) (hid : entryId < w'.nextId)
    (hnews : ∀ a ∈ news, a.ledgerEntryId = entryId)
    (hledger : w'.ledger = w.ledger.put entryId entry)
    (hposted : w'.ledgerAllocations = w.ledgerAllocations ++ news)
    (hold : ∀ a ∈ news, a.lotId < w'.nextId)
    (hlots : ∀ {id l'}, w'.lots.get id = some l' → ∃ l, w.lots.get id = some l ∧
      l'.remainingAmount = l.remainingAmount +
        entry.sign * total (fun a => a.lotId = id) LedgerAllocation.amount news)
    (halloc : ∀ a ∈ w'.reservationAllocations, 0 < a.amount) : LedgerSound w' where
  remaining {id l'} hl := by
    obtain ⟨l, hget, hr⟩ := hlots hl
    rw [hr, postedTo_post h hnew hnews hledger hposted, h.remaining hget]
  lots_old hl := by
    obtain ⟨l, hget, -⟩ := hlots hl
    have := h.lots_old hget
    lia
  posted_old a ha := by
    rw [hposted] at ha
    rcases List.mem_append.mp ha with ha | ha
    · have := h.posted_old a ha
      lia
    · exact ⟨hold a ha, hnews a ha ▸ hid⟩
  positive := halloc

theorem LedgerSound.allocate (h : LedgerSound w) {amount : Int}
    (hentry : w.ledger.get entryId = some entry) (hsign : entry.sign = 1)
    (hid : entryId < w'.nextId) (hlot : lotId < w'.nextId) (hledger : w'.ledger = w.ledger)
    (hposted : w'.ledgerAllocations = w.ledgerAllocations ++ [⟨entryId, lotId, amount⟩])
    (hnext : w.nextId ≤ w'.nextId) (hlots : ∀ {id l'}, w'.lots.get id = some l' → id < w'.nextId ∧
      l'.remainingAmount = w.postedTo id + if lotId = id then amount else 0)
    (halloc : w'.reservationAllocations = w.reservationAllocations) : LedgerSound w' where
  remaining {id l'} hl := by
    have hsame : total (fun a => a.lotId = id) w'.signed w.ledgerAllocations = w.postedTo id :=
      total_congr (fun _ _ => Iff.rfl) fun a _ _ => by simp [Wallet.signed, hledger]
    have hone : w'.signed ⟨entryId, lotId, amount⟩ = amount := by
      simp [Wallet.signed, hledger, hentry, hsign]
    have hall : w'.postedTo id = w.postedTo id + if lotId = id then amount else 0 := by
      rw [← hsame, Wallet.postedTo, hposted, total_append]
      simp [hone]
    rw [hall]
    exact (hlots hl).2
  lots_old hl := (hlots hl).1
  posted_old a ha := by
    rw [hposted] at ha
    rcases List.mem_append.mp ha with ha | ha
    · have := h.posted_old a ha
      lia
    · cases List.mem_singleton.mp ha
      exact ⟨hlot, hid⟩
  positive a ha := h.positive a (halloc ▸ ha)

end Statements

section Calls
variable {w : Wallet} {now : Timestamp} {ws : Id} {key : Option String} {r : Unit × Wallet}
  {id : Id} {takes : List (Id × Int)} {table : Table Id Lot} {amount : Option Int} {runId : Id}
  {lot : Lot}

theorem beginRun_ledger {key hash : String} {mode : Option RunMode} (hw : LedgerSound w)
    {r : Id × Wallet} (h : aiBeginRun ws key hash mode w = .ok r) : LedgerSound r.2 := by
  rcases beginRun_ok h with h | ⟨runs, h⟩
  · rwa [h]
  · rw [h]
    exact hw.frame rfl rfl rfl hw.positive (Nat.le_succ _)

theorem allocationsFor_pos {allocations : List ReservationAllocation}
    (hpos : ∀ a ∈ allocations, 0 < a.amount) (htakes : ∀ t ∈ takes, 0 < t.2) :
    ∀ a ∈ allocations ++ allocationsFor id takes, 0 < a.amount := by
  intro a ha
  rcases List.mem_append.mp ha with ha | ha
  · exact hpos a ha
  · obtain ⟨t, ht, rfl⟩ := List.mem_map.mp ha
    exact htakes t ht

theorem LedgerSound.hold (h : LedgerSound w) (happ : Applied Lot.hold takes w.lots table) :
    LedgerSound { w with lots := table } :=
  h.setLots fun _ _ hl => by
    obtain ⟨l, hget, -, hr, -⟩ := applied_hold happ hl
    exact ⟨l, hget, hr⟩

theorem reserve_ledger {runId : Option Id} (hw : LedgerSound w) {r : ReserveResult × Wallet}
    (h : aiReserve now ws runId amount key w = .ok r) : LedgerSound r.2 := by
  rcases reserve_ok h with ⟨wallets, h⟩ | ⟨table, wallets, reservations, runs, commands, happ, -, -, h⟩
  · rw [h]
    exact hw.frame rfl rfl rfl hw.positive le_rfl
  · rw [h]
    exact (hw.hold happ).frame rfl rfl rfl (allocationsFor_pos hw.positive holds_pos)
      (Nat.le_succ _)

theorem topup_ledger {delta : Option Int} (hw : LedgerSound w) {r : Int × Wallet}
    (h : aiTopupReservation now runId delta w = .ok r) : LedgerSound r.2 := by
  rcases topup_ok h with ⟨-, rfl⟩ | ⟨run, id, table, wallets, reservations, -, -, happ, -, -, -, h⟩
  · exact hw
  · rw [h]
    exact (hw.hold happ).frame rfl rfl rfl (allocationsFor_pos hw.positive holds_pos) le_rfl

def Wallet.keepsExpiring (w : Wallet) (reservationId : Id) (charges : List (Id × Int)) : Prop :=
  ∀ res ∈ w.reservations.get reservationId, ∀ r ∈ w.lots.rows,
    r.2.workspaceId = res.workspaceId ∧ r.2.state = .expiring ∧ 0 < r.2.remainingAmount →
      r.2.remainingAmount ≤ share r.1 charges ∨
      share r.1 charges + share r.1 ((w.allocationsOf reservationId).map fun a =>
        (a.lotId, a.amount)) < r.2.reservedAmount

instance (w : Wallet) (id : Id) (charges : List (Id × Int)) :
    Decidable (w.keepsExpiring id charges) :=
  inferInstanceAs (Decidable (∀ res ∈ w.reservations.get id, _))

theorem finish_remaining {l : Lot}
    (h : l.workspaceId = ws → l.state = .expiring → l.reservedAmount = 0 → l.remainingAmount = 0) :
    (l.finish ws).remainingAmount = l.remainingAmount := by
  unfold Lot.finish
  split
  · rename_i hc
    exact (h hc.1 hc.2.1 hc.2.2).symm
  · rfl

theorem release_ledger (hw : LedgerSound w) (hcond : w.keepsExpiring id [])
    (h : aiReleaseReservation id w = .ok r) : LedgerSound r.2 := by
  have hpos : ∀ a ∈ w.allocationsOf id, 0 < a.amount := fun a ha =>
    hw.positive a (List.mem_filter.mp ha).1
  rcases release_ok hpos h with ⟨-, h⟩ | ⟨res, table, wallets, hres, happ, h⟩
  · rwa [h]
  · rw [h]
    refine (hw.setLots fun j l' hl => ?_).frame rfl rfl rfl
      (fun a ha => hw.positive a (List.mem_filter.mp ha).1) le_rfl
    rw [Lib.Table.get_mapValues, Option.map_eq_some_iff] at hl
    obtain ⟨l₁, hl₁, rfl⟩ := hl
    obtain ⟨l, hget, hr, hrem, hstate, hws⟩ := applied_giveBack happ hl₁
    refine ⟨l, hget, ?_⟩
    rw [finish_remaining, hrem]
    intro hw₁ hs₁ hr₁
    by_contra hne
    have := l₁.amounts_sane
    have := hcond res hres (j, l) (Lib.Table.get_eq_some_iff_mem.mp hget)
      ⟨hws ▸ hw₁, hstate ▸ hs₁, by lia⟩
    simp only [Lib.share_nil] at this
    lia

theorem total_posted (id entryId : Id) (parts : List (Id × Int)) :
    total (fun a => a.lotId = id) LedgerAllocation.amount
      (parts.map fun t => ⟨entryId, t.1, t.2⟩) = share id parts := by
  simp [share, total, Function.comp_def]

theorem charged_ledger {run : Run} {charge : Int} {w₂ : Wallet} (hw : LedgerSound w)
    (hhold : Applied Lot.hold (w.topupFor now run charge) w.lots table)
    (hcharges : Applied Lot.charge (w.chargesFor now run charge) table w₂.lots)
    (halloc : ∀ a ∈ w₂.reservationAllocations, 0 < a.amount)
    (h : w.paid now run charge ≤ 0 ∧ w₂.nextId = w.nextId + 1 ∧ w₂.ledger = w.ledger ∧
          w₂.ledgerAllocations = w.ledgerAllocations ∨
        ∃ entry : LedgerEntry, entry.entryType = .charge ∧ w₂.nextId = w.nextId + 1 + 1 ∧
          w₂.ledger = w.ledger.put (w.nextId + 1) entry ∧
          w₂.ledgerAllocations = w.ledgerAllocations ++
            (w.chargesFor now run charge).map fun t => ⟨w.nextId + 1, t.1, t.2⟩) :
    LedgerSound w₂ := by
  have hlots {id : Id} {l₂ : Lot} (hl : w₂.lots.get id = some l₂) : ∃ l, w.lots.get id = some l ∧
      l₂.remainingAmount = l.remainingAmount - share id (w.chargesFor now run charge) := by
    obtain ⟨l₁, hl₁, -, hrem, -⟩ := applied_charge hcharges hl
    obtain ⟨l, hget, -, hrem₁, -⟩ := applied_hold hhold hl₁
    exact ⟨l, hget, by rw [hrem, hrem₁]⟩
  rcases h with ⟨hpaid, hid, hledger, hposted⟩ | ⟨entry, htype, hid, hledger, hposted⟩
  · have hnone : w.chargesFor now run charge = [] := Lib.fill_of_nonpos hpaid _
    refine (hw.setLots fun id l₂ hl => ?_).frame rfl hledger hposted halloc (by lia)
    obtain ⟨l, hget, hrem⟩ := hlots hl
    exact ⟨l, hget, by simpa [hnone] using hrem⟩
  · have hsign : entry.sign = -1 := by simp [LedgerEntry.sign, htype]
    refine hw.post (Nat.le_succ _) (by lia) (fun a ha => ?_) hledger hposted (fun a ha => ?_)
      (fun {id l₂} hl => ?_) halloc
    · obtain ⟨t, -, rfl⟩ := List.mem_map.mp ha
      rfl
    · obtain ⟨t, ht, rfl⟩ := List.mem_map.mp ha
      obtain ⟨l, hget⟩ := Option.isSome_iff_exists.mp (chargesFor_known t ht)
      have := hw.lots_old hget
      simp only
      lia
    · obtain ⟨l, hget, hrem⟩ := hlots hl
      exact ⟨l, hget, by rw [hrem, total_posted, hsign]; omega⟩

theorem settle_ledger {usd irr charge : Option Int} {cycle : Option String} (hw : LedgerSound w)
    (hcond : ∀ run ∈ w.unsettled runId key, ∀ id ∈ run.reservationId,
      w.keepsExpiring id (w.chargesFor now run (run.billed charge))) {r : SettleResult × Wallet}
    (h : aiSettleRun now runId key usd irr charge cycle w = .ok r) : LedgerSound r.2 := by
  rcases settle_ok h with ⟨-, h⟩ | ⟨run, paid, absorbed, w₁, settlements, cycle', w₂, w₃, wallets,
    runs, commands, hrun, hfund, hpost, hclose, h⟩
  · rwa [h]
  rw [h]
  suffices hw₃ : LedgerSound w₃ from hw₃.frame rfl rfl rfl hw₃.positive le_rfl
  obtain ⟨table, hhold, hcharges, halloc, hterms, hrest⟩ :=
    charged_ok hw.positive (unsettled_run hrun) (billed_nonneg run charge) hfund hpost
  have hpos : ∀ a ∈ w₂.reservationAllocations, 0 < a.amount := by
    rw [halloc]
    cases run.reservationId with
    | none => simpa using hw.positive
    | some id => exact allocationsFor_pos hw.positive topupFor_pos
  have hw₂ := charged_ledger hw hhold hcharges hpos hrest
  rcases closeReservation_ok hpos hclose with ⟨-, hw₃⟩ | ⟨id, res, table₃, wallets₃,
    reservations₃, hid, hres, happ, -, hw₃⟩
  · simp only at hw₃
    rwa [hw₃]
  · simp only at hw₃
    subst hw₃
    refine (hw₂.setLots fun j l' hl => ?_).frame rfl rfl rfl
      (fun a ha => hpos a (List.mem_filter.mp ha).1) le_rfl
    rw [Lib.Table.get_mapValues, Option.map_eq_some_iff] at hl
    obtain ⟨l₃, hl₃, rfl⟩ := hl
    obtain ⟨l₂, hl₂, hr₃, hrem₃, hstate₃, hws₃⟩ := applied_giveBack happ hl₃
    obtain ⟨l₁, hl₁, hr₂, hrem₂, hstate₂, hws₂⟩ := applied_charge hcharges hl₂
    obtain ⟨l, hl, hr₁, hrem₁, hstate₁, hws₁⟩ := applied_hold hhold hl₁
    refine ⟨l₂, hl₂, ?_⟩
    rw [finish_remaining, hrem₃]
    intro hws hstate hreserved
    by_contra hne
    -- What the reservation holds of the lot after its top-up.
    have hshare : share j ((w₂.allocationsOf id).map fun a => (a.lotId, a.amount)) =
        share j ((w.allocationsOf id).map fun a => (a.lotId, a.amount)) +
        share j (w.topupFor now run (run.billed charge)) := by
      have hof : w₂.allocationsOf id = w.allocationsOf id ++
          allocationsFor id (w.topupFor now run (run.billed charge)) := by
        rw [hid] at halloc
        simp only [Wallet.allocationsOf, halloc, Option.elim_some, List.filter_append,
          filter_allocationsFor]
      rw [hof, List.map_append, Lib.share_append]
      congr 1
      simp [allocationsFor, Function.comp_def]
    obtain ⟨res₀, hres₀, hws₀⟩ : ∃ res₀, w.reservations.get id = some res₀ ∧
        res.workspaceId = res₀.workspaceId := by
      have := hterms id
      cases hget : w.reservations.get id with
      | none => simp [hres, hget] at this
      | some res₀ =>
        rw [hres, hget] at this
        exact ⟨res₀, rfl, congrArg Prod.fst (Option.some.inj this)⟩
    have hc : 0 ≤ share j (w.chargesFor now run (run.billed charge)) :=
      Lib.share_nonneg fun t ht => (chargesFor_pos hw.positive t ht).le
    have hsane := l₂.amounts_sane
    have hlive : ¬(share j (w.chargesFor now run (run.billed charge)) ≠ 0 ∧
        l₂.remainingAmount ≤ 0) ∧ l.state = .expiring := by
      rw [hstate₃, hstate₂, hstate₁] at hstate
      split at hstate
      · cases hstate
      · rename_i hno
        exact ⟨hno, hstate⟩
    have hleft : 0 < l.remainingAmount := by omega
    have := hcond run hrun id hid res₀ hres₀ (j, l) (Lib.Table.get_eq_some_iff_mem.mp hl)
      ⟨by rw [← hws₁, ← hws₂, ← hws₃, hws, hws₀], hlive.2, hleft⟩
    simp only at this
    omega

theorem refundTarget_ledger {take : Int} (hw : LedgerSound w) (hlot : (w.lots.get lotId).isSome)
    (hentry : w.ledger.get entryId = some entry) (hsign : entry.sign = 1) (hid : entryId < w.nextId)
    {target : Id} {w₁ : Wallet} (h : refundTarget now ws lotId lot take w = .ok (target, w₁)) :
    LedgerSound { w₁ with
      ledgerAllocations := w₁.ledgerAllocations ++ [⟨entryId, target, take⟩] } ∧
    w₁.ledger = w.ledger ∧ w.nextId ≤ w₁.nextId ∧
    ∀ j, (w.lots.get j).isSome → (w₁.lots.get j).isSome := by
  unfold refundTarget at h
  split at h
  · rw [require_bind_ok, insertLot, get_bind, set_bind] at h
    obtain ⟨htake, h⟩ := h
    cases pure_ok.mp h
    refine ⟨hw.allocate hentry hsign (Nat.lt_succ_of_lt hid) (Nat.lt_succ_self _) rfl rfl
      (Nat.le_succ _) (fun {j l'} hl => ?_) rfl, rfl, Nat.le_succ _, fun j hj => ?_⟩
    · rw [Lib.Table.get_put] at hl
      split at hl
      · rename_i hj
        cases hl
        subst hj
        exact ⟨Nat.lt_succ_self _, by simp [Lot.fresh, hw.postedTo_new le_rfl, htake]⟩
      · rename_i hj
        exact ⟨Nat.lt_succ_of_lt (hw.lots_old hl), by simp [hw.remaining hl, Ne.symm hj]⟩
    · rw [Lib.Table.get_put]
      split
      · rfl
      · exact hj
  · obtain ⟨_, w₂, hup, h⟩ := bind_ok.mp h
    cases pure_ok.mp h
    obtain ⟨table, hw₁, ⟨hnone, -⟩ | ⟨l, l₁, hget, hf, rfl⟩⟩ := updateLot_ok hup
    · simp [hnone] at hlot
    · simp only at hw₁
      subst hw₁
      refine ⟨hw.allocate hentry hsign hid (hw.lots_old hget) rfl rfl le_rfl
        (fun {j l'} hl => ?_) rfl, rfl, le_rfl, fun j hj => ?_⟩
      · rw [Lib.Table.get_put] at hl
        split at hl
        · rename_i hj
          cases hl
          subst hj
          exact ⟨hw.lots_old hget, by simp [(withAmounts_ok hf).1, hw.remaining hget]⟩
        · rename_i hj
          exact ⟨hw.lots_old hl, by simp [hw.remaining hl, Ne.symm hj]⟩
      · rw [Lib.Table.get_put]
        split
        · rfl
        · exact hj

theorem refundLots_ledger {left refunded : Int} {rows : List (Id × Int × Lot)} {w' : Wallet}
    (hw : LedgerSound w) (hrows : ∀ row ∈ rows, (w.lots.get row.1).isSome)
    (hentry : w.ledger.get entryId = some entry) (hsign : entry.sign = 1) (hid : entryId < w.nextId)
    (h : refundLots now ws entryId left rows w = .ok (refunded, w')) : LedgerSound w' := by
  induction rows generalizing left refunded w with
  | nil =>
    cases pure_ok.mp h
    exact hw
  | cons row rows ih =>
    obtain ⟨lotId, amount, lot⟩ := row
    unfold refundLots at h
    split at h
    · cases pure_ok.mp h
      exact hw
    · obtain ⟨target, w₁, htarget, h⟩ := bind_ok.mp h
      rw [insertLedgerAllocation, modify_bind] at h
      obtain ⟨refunded, w₂, hrest, h⟩ := bind_ok.mp h
      cases pure_ok.mp h
      obtain ⟨hw₁, hledger, hnext, hknown⟩ := refundTarget_ledger hw
        (hrows _ List.mem_cons_self) hentry hsign hid htarget
      exact ih hw₁ (fun row hrow => hknown _ (hrows row (List.mem_cons_of_mem _ hrow)))
        (by simpa [hledger] using hentry) (lt_of_lt_of_le hid hnext) hrest

theorem chargesOf_known : ∀ row ∈ w.chargesOf runId, (w.lots.get row.1).isSome := by
  intro row hrow
  obtain ⟨la, -, hmap⟩ := List.mem_filterMap.mp hrow
  split at hmap
  · cases hmap
  · split at hmap
    · cases hl : w.lots.get la.lotId with
      | none => simp [hl] at hmap
      | some l =>
        simp only [hl, Option.map_some, Option.some.injEq] at hmap
        subst hmap
        simp [hl]
    · cases hmap

theorem LedgerSound.newEntry (hw : LedgerSound w) (entry : LedgerEntry) :
    LedgerSound { w with nextId := w.nextId + 1, ledger := w.ledger.put w.nextId entry } :=
  hw.post le_rfl (Nat.lt_succ_self _) (by simp) rfl (List.append_nil _).symm (by simp)
    (fun {_ l} hl => ⟨l, hl, by simp⟩) hw.positive

theorem refund_ledger {reason : Option String} (hw : LedgerSound w) {r : RefundResult × Wallet}
    (h : aiRefundRun now runId amount reason key w = .ok r) : LedgerSound r.2 := by
  rcases refund_ok h with h | ⟨ws, left, refunded, wallets, wallets', w₁, commands, entry, htype, -,
    -, hlots, h⟩
  · rwa [h]
  · rw [h]
    have hsign : entry.sign = 1 := by simp [LedgerEntry.sign, htype]
    have hentry : LedgerSound { w with
        nextId := w.nextId + 1, wallets := wallets, ledger := w.ledger.put w.nextId entry } :=
      (hw.newEntry entry).frame rfl rfl rfl hw.positive le_rfl
    have hknown : ∀ row ∈ w.chargesOf runId, (w.lots.get row.1).isSome := chargesOf_known
    have hw₁ := refundLots_ledger hentry hknown (Lib.Table.get_put_self _ _ _) hsign
      (Nat.lt_succ_self _) hlots
    exact hw₁.frame rfl rfl rfl hw₁.positive le_rfl

theorem retireLot_ledger {reason : String} (hw : LedgerSound w) (hlot : w.lots.get id = some lot)
    (h : retireLot reason (id, lot) w = .ok r) :
    LedgerSound r.2 ∧ ∀ j, j ≠ id → r.2.lots.get j = w.lots.get j := by
  have hsane := lot.amounts_sane
  have hfree : lot.free = lot.remainingAmount - lot.reservedAmount := rfl
  obtain ⟨l', hrem, -, ⟨hnone, h⟩ | ⟨entry, htype, h⟩⟩ := retireLot_ok hlot h
  · rw [h]
    refine ⟨hw.setLots fun j l hl => ?_, fun j hj => Lib.Table.get_put_ne _ _ hj⟩
    rw [Lib.Table.get_put] at hl
    split at hl
    · rename_i hj
      cases hl
      exact ⟨lot, hj ▸ hlot, by omega⟩
    · exact ⟨l, hl, rfl⟩
  · rw [h]
    have hsign : entry.sign = -1 := by simp [LedgerEntry.sign, htype]
    refine ⟨hw.post le_rfl (Nat.lt_succ_self _) ?_ rfl rfl ?_ (fun {j l} hl => ?_) hw.positive,
      fun j hj => Lib.Table.get_put_ne _ _ hj⟩
    · simp
    · have := hw.lots_old hlot
      simp
      lia
    · rw [Lib.Table.get_put] at hl
      split at hl
      · rename_i hj
        cases hl
        refine ⟨lot, hj ▸ hlot, ?_⟩
        simp [hj, hsign]
        omega
      · rename_i hj
        exact ⟨l, hl, by simp [Ne.symm hj]⟩

theorem expireLot_ledger (hw : LedgerSound w) (hlot : w.lots.get id = some lot)
    (h : expireLot (id, lot) w = .ok r) :
    LedgerSound r.2 ∧ ∀ j, j ≠ id → r.2.lots.get j = w.lots.get j := by
  obtain ⟨_, w₁, hone, h⟩ := bind_ok.mp h
  cases modify_ok.mp h
  obtain ⟨hw₁, hother⟩ := retireLot_ledger hw hlot hone
  exact ⟨hw₁.frame rfl rfl rfl hw₁.positive le_rfl, hother⟩

theorem retireAll_ledger {f : Id × Lot → WalletTx Unit}
    (hf : ∀ w id lot, LedgerSound w → w.lots.get id = some lot → ∀ r : Unit × Wallet,
      f (id, lot) w = .ok r → LedgerSound r.2 ∧ ∀ j, j ≠ id → r.2.lots.get j = w.lots.get j)
    {lots : List (Id × Lot)} (hw : LedgerSound w) (hlots : ∀ r ∈ lots, w.lots.get r.1 = some r.2)
    (hnodup : (lots.map Prod.fst).Nodup) {r : PUnit × Wallet} (h : lots.forM f w = .ok r) :
    LedgerSound r.2 := by
  induction lots generalizing w with
  | nil =>
    cases pure_ok.mp h
    exact hw
  | cons row lots ih =>
    rw [List.forM_eq_forM, List.forM_cons, ← List.forM_eq_forM] at h
    obtain ⟨_, w₁, hone, h⟩ := bind_ok.mp h
    obtain ⟨hrow, hnodup⟩ := List.nodup_cons.mp hnodup
    obtain ⟨hw₁, hother⟩ := hf w row.1 row.2 hw (hlots row List.mem_cons_self) _ hone
    refine ih hw₁ (fun r hr => ?_) hnodup h
    rw [hother r.1 fun he => hrow (he ▸ List.mem_map_of_mem hr)]
    exact hlots r (List.mem_cons_of_mem row hr)

theorem expireLots_ledger (hw : LedgerSound w) {r : Nat × Wallet}
    (h : aiExpireLots now w = .ok r) : LedgerSound r.2 :=
  retireAll_ledger (fun _ _ _ hw hlot _ h => expireLot_ledger hw hlot h) hw expiring_get expiring_nodup
    (expireLots_ok h)

end Calls

def KeepsExpiring (w : Wallet) (c : Timestamp × WalletCommand) : Prop :=
  match c.2 with
  | .releaseReservation id => w.keepsExpiring id []
  | .settleRun runId key _ _ charge _ =>
    ∀ run ∈ w.unsettled runId key, ∀ id ∈ run.reservationId,
      w.keepsExpiring id (w.chargesFor c.1 run (run.billed charge))
  | _ => True

instance (w : Wallet) (c : Timestamp × WalletCommand) : Decidable (KeepsExpiring w c) := by
  obtain ⟨now, c⟩ := c
  cases c <;> dsimp only [KeepsExpiring] <;> infer_instance

theorem walletStep_ledger (hw : LedgerSound w) {c : Timestamp × WalletCommand}
    (hcond : KeepsExpiring w c) : LedgerSound (walletStep w c) := by
  obtain ⟨now, c⟩ := c
  unfold walletStep commit
  split
  · rename_i r w' h
    cases c with
    | releaseReservation id => exact release_ledger hw hcond h
    | grantAllowance ws amount cycle source expires key =>
      obtain ⟨a, h⟩ := discard_ok h
      exact funds_ledger hw (fun _ he _ => by simp [LedgerEntry.sign, he]) (grantAllowance_ok h)
    | purchaseCredit ws amount key reason =>
      obtain ⟨a, h⟩ := discard_ok h
      exact funds_ledger hw (fun _ he _ => by simp [LedgerEntry.sign, he]) (purchaseCredit_ok h)
    | adjustBalance ws amount reason key =>
      obtain ⟨a, h⟩ := discard_ok h
      exact funds_ledger hw (fun _ he hn => by simp [LedgerEntry.sign, he, hn]) (adjustBalance_ok h)
    | beginRun ws key hash mode =>
      obtain ⟨a, h⟩ := discard_ok h
      exact beginRun_ledger hw h
    | reserve ws run amount key =>
      obtain ⟨a, h⟩ := discard_ok h
      exact reserve_ledger hw h
    | topupReservation run delta =>
      obtain ⟨a, h⟩ := discard_ok h
      exact topup_ledger hw h
    | settleRun run key usd irr charge cycle =>
      obtain ⟨a, h⟩ := discard_ok h
      exact settle_ledger hw hcond h
    | refundRun run amount reason key =>
      obtain ⟨a, h⟩ := discard_ok h
      exact refund_ledger hw h
    | expireLots =>
      obtain ⟨a, h⟩ := discard_ok h
      exact expireLots_ledger hw h
  · exact hw

end Kindred.AiWallet
