import Mathlib.Data.Int.ConditionallyCompleteOrder
import Mathlib.Order.CompletePartialOrder
import Kindred.Billing.WalletLedger
import Kindred.AiWallet.Filed
import Kindred.Lib.Months

/-! The months of a period that the plan's AI credit is granted for. -/

namespace Kindred.Billing
open AiWallet (Wallet Lot Filed Files)
open Lib (Table run run_invariant tally tally_le_budget)
open Lib.Calendar (addMonths addMonths_zero addMonths_le monthOf dateOf monthOf_addMonths monthOf_mono dateOf_mono)
open Lib.Tx

variable {now start stop at_ : Timestamp} {ws : Id}

theorem cycleDown_spec (hstart : start ≤ at_) (k : Nat) :
    addMonths start (cycleDown start at_ k : Nat) ≤ at_ := by
  induction k with
  | zero => simpa [cycleDown] using hstart
  | succ k ih =>
    unfold cycleDown
    split
    · exact ih
    · rename_i h
      exact not_lt.mp h

theorem month_le {n : Int} (h : addMonths start n ≤ at_) :
    n ≤ monthOf (dateOf at_) - monthOf (dateOf start) := by
  have := monthOf_mono (dateOf_mono h)
  rw [monthOf_addMonths] at this
  omega

variable {k rounds : Nat} {may : Right → Prop} {db db' : Db} {r : Unit × Wallet}
  {amount : Option Int}

theorem cycleUp_spec (hk : addMonths start k ≤ at_)
    (hrounds : monthOf (dateOf at_) - monthOf (dateOf start) < k + rounds) :
    addMonths start (cycleUp start at_ rounds k : Nat) ≤ at_ ∧
      at_ < addMonths start (cycleUp start at_ rounds k + 1 : Nat) := by
  induction rounds generalizing k with
  | zero =>
    have := month_le hk
    exact (not_lt.mpr this hrounds).elim
  | succ rounds ih =>
    unfold cycleUp
    split
    · rename_i h
      exact ih h (by omega)
    · rename_i h
      exact ⟨hk, not_le.mp h⟩

theorem cycleOf_spec (hstart : start ≤ at_) : addMonths start (cycleOf start at_ : Nat) ≤ at_ ∧
      at_ < addMonths start (cycleOf start at_ + 1 : Nat) :=
  cycleUp_spec (cycleDown_spec hstart _) (by omega)

theorem cycleUp_stable (hend : at_ < addMonths start (cycleUp start at_ rounds k + 1 : Nat))
    (more : Nat) : cycleUp start at_ (rounds + more) k = cycleUp start at_ rounds k := by
  induction rounds generalizing k with
  | zero =>
    cases more with
    | zero => rfl
    | succ more =>
      have hend : at_ < addMonths start (k + 1 : Nat) := hend
      rw [Nat.zero_add]
      unfold cycleUp
      rw [if_neg (not_le.mpr hend)]
  | succ rounds ih =>
    rw [Nat.succ_add]
    unfold cycleUp at hend ⊢
    split at hend <;> rename_i h
    · rw [if_pos h, if_pos h]
      exact ih hend
    · rw [if_neg h, if_neg h]

theorem cycle_unique {j : Nat} (hj : addMonths start j ≤ at_)
    (hj' : at_ < addMonths start (j + 1 : Nat)) (hk : addMonths start k ≤ at_)
    (hk' : at_ < addMonths start (k + 1 : Nat)) : j = k := by
  rcases lt_trichotomy j k with h | h | h
  · have := addMonths_le start (show ((j + 1 : Nat) : Int) ≤ k by omega)
    exact absurd (hj'.trans_le (this.trans hk)) (lt_irrefl _)
  · exact h
  · have := addMonths_le start (show ((k + 1 : Nat) : Int) ≤ j by omega)
    exact absurd (hk'.trans_le (this.trans hj)) (lt_irrefl _)

/-- `v_cycle_start` and `v_cycle_end`. -/
def cycleStart (start at_ : Timestamp) : Timestamp := addMonths start (cycleOf start at_ : Nat)

def cycleEnd (start stop at_ : Timestamp) : Timestamp :=
  min (addMonths start (cycleOf start at_ + 1 : Nat)) stop

def cycle (start stop at_ : Timestamp) : Set Timestamp :=
  Set.Ico (cycleStart start at_) (cycleEnd start stop at_)

theorem mem_cycle (hstart : start ≤ at_) (hstop : at_ < stop) : at_ ∈ cycle start stop at_ :=
  ⟨(cycleOf_spec hstart).1, lt_min (cycleOf_spec hstart).2 hstop⟩

theorem cycle_subset : cycle start stop at_ ⊆ Set.Ico start stop := by
  intro t ⟨hlo, hhi⟩
  refine ⟨?_, hhi.trans_le (min_le_right _ _)⟩
  have := addMonths_le start (show (0 : Int) ≤ (cycleOf start at_ : Nat) by omega)
  rw [addMonths_zero] at this
  exact this.trans hlo

theorem cycle_eq {t : Timestamp} (ht : t ∈ cycle start stop at_) :
    cycleOf start t = cycleOf start at_ := by
  obtain ⟨hlo, hhi⟩ := ht
  have hmem : t ∈ Set.Ico start stop := cycle_subset ⟨hlo, hhi⟩
  have hspec := cycleOf_spec hmem.1
  exact cycle_unique hspec.1 hspec.2 hlo (hhi.trans_le (min_le_left _ _))

theorem cycles_apart (start stop a b : Timestamp) : cycle start stop a = cycle start stop b ∨
      Disjoint (cycle start stop a) (cycle start stop b) := by
  by_cases h : cycleOf start a = cycleOf start b
  · refine .inl ?_
    unfold cycle cycleStart cycleEnd
    rw [h]
  · refine .inr (Set.disjoint_left.mpr fun t hta htb => h ?_)
    rw [← cycle_eq hta, ← cycle_eq htb]

theorem cycles_cover : ⋃ at_ ∈ Set.Ico start stop, cycle start stop at_ = Set.Ico start stop := by
  refine Set.Subset.antisymm (Set.iUnion₂_subset fun _ _ => cycle_subset) fun t ht => ?_
  exact Set.mem_biUnion ht (mem_cycle ht.1 ht.2)

theorem retireCalendarLots_files (ws : Id) : Files 0 (retireCalendarLots ws) := by
  refine (Files.modify fun _ h => h.lock ws).bind fun _ => .read_bind fun w hw => ?_
  refine Files.bind (Triple.forM fun r hr => AiWallet.retireLot_files ?_) fun _ => ?_
  · exact hw.lots_old r.1 r.2 (Table.get_eq_some_iff_mem.mpr (List.mem_filter.mp hr).1)
  · exact .ite (fun _ => .pure _) fun _ => .modify fun _ h => h.project ws

theorem reclaimCredit_files {n lotId : Id} {amount : Int} (hlot : lotId < n) (hpos : 0 < amount)
    {key : String} : Files n (reclaimCredit ws lotId amount key) := by
  refine .after_ledger fun entry hid => (AiWallet.insertLedgerAllocation_files (Nat.lt_succ_self _)
    (Nat.lt_succ_of_le (hlot.le.trans hid)) hpos.le).bind fun _ =>
      (AiWallet.updateLot_files fun l l' h hl => ?_).bind fun _ =>
        (Files.modify fun _ h => h.recordCommand _ _).bind fun _ => .modify fun _ h => h.project ws
  obtain ⟨hremaining, -, hstate, -⟩ := AiWallet.withAmounts_ok h
  intro hdepleted
  rw [hremaining]
  rw [hstate] at hdepleted
  split at hdepleted
  · assumption
  · have := hl hdepleted
    omega

theorem WalletStatement.filed {w w' : Wallet} (h : WalletStatement w w') (hw : Filed 0 w) :
    Filed 0 w' := by
  cases h with
  | locked ws => exact hw.lock ws
  | superseded h => exact retireCalendarLots_files _ _ _ _ hw h
  | granted h => exact AiWallet.aiGrantAllowance_files _ _ _ hw h
  | purchased h => exact AiWallet.aiPurchaseCredit_files _ _ _ hw h
  | reclaimed hlot hpos h =>
    obtain ⟨l, hl⟩ := Option.isSome_iff_exists.mp hlot
    have hold := hw.lots_old _ l hl
    exact (reclaimCredit_files hold hpos _ _ _ { hw with ids := le_rfl } h).since (Nat.zero_le _)

theorem MoneyStatement.walletFiled (h : MoneyStatement may db db') (hw : Filed 0 db.wallet)
    : Filed 0 db'.wallet := by
  cases h with
  | wallet h => exact h.filed hw
  | _ => exact hw

theorem Statement.walletFiled (h : Statement may db db') (hw : Filed 0 db.wallet)
    : Filed 0 db'.wallet := by
  cases h with
  | money h => exact h.walletFiled hw
  | _ => exact hw

theorem step_filed (hw : Filed 0 db.wallet) (c : Timestamp × Operation) :
    Filed 0 (db.step c).wallet := by
  by_cases hop : ∀ command, c.2 ≠ .aiWallet command
  · have hstep : ∀ db db', Statement (fun _ => True) db db' → Filed 0 db.wallet →
        Filed 0 db'.wallet := fun _ _ h => h.walletFiled
    exact (call_made c.2 hop (fun _ => trivial) (fun _ => trivial) fun _ => trivial).keeps hstep hw
  · simp only [not_forall, not_not] at hop
    obtain ⟨now, op⟩ := c
    obtain ⟨command, rfl⟩ := hop
    rw [step_wallet]
    exact hw.step _

theorem walletFiled_run (calls : List (Timestamp × Operation)) :
    Filed 0 (run Db.step .empty calls).wallet :=
  run_invariant (I := fun db : Db => Filed 0 db.wallet) (fun _ c hw => step_filed hw c)
    AiWallet.filed_empty calls

def funds (ws : Id) (cycle source : String) (r : Id × Lot) : Bool :=
  r.2.workspaceId = ws ∧ r.2.sourceType = .planAllowance ∧ r.2.billingCycleId = some cycle ∧
    r.2.allowanceSource = some source

def fundings (w : Wallet) (ws : Id) (cycle source : String) : Nat :=
  w.lots.rows.countP (funds ws cycle source)

section Fundings
variable {w w' : Wallet} {cycle source : String}

theorem withAmounts_funds {l l' : Lot} {remaining reserved : Int} {state : AiWallet.LotState}
    (h : l.withAmounts remaining reserved state = some l') (id : Id) :
    funds ws cycle source (id, l') = funds ws cycle source (id, l) := by
  unfold Lot.withAmounts at h
  split at h
  · cases h
    rfl
  · cases h

theorem updateLot_fundings {id : Id} {f : Lot → Option Lot}
    (hf : ∀ l l', f l = some l' → funds ws cycle source (id, l') = funds ws cycle source (id, l))
    (h : AiWallet.updateLot id f w = .ok r) :
    fundings r.2 ws cycle source = fundings w ws cycle source := by
  obtain ⟨table, hw, ⟨-, htable⟩ | ⟨l, l', hl, hfl, htable⟩⟩ := AiWallet.updateLot_ok h
  · rw [hw, htable]
  · have hput : w.lots.put id l' = w.lots.update id fun _ => l' := by
      unfold Table.update
      simp only [hl]
    rw [hw, htable, hput]
    refine Table.countP_update_eq _ fun v hv => ?_
    cases hl.symm.trans hv
    exact hf l l' hfl

/-- What is left of other months is written off; the lots stay what they were
granted for. -/
theorem retireCalendarLots_fundings {ws' : Id} (h : retireCalendarLots ws' w = .ok r) :
    fundings r.2 ws cycle source = fundings w ws cycle source := by
  let Same (w' : Wallet) : Prop := fundings w' ws cycle source = fundings w ws cycle source
  have hretire : ∀ r : Id × Lot,
      Triple Same (AiWallet.retireLot "legacy_allowance_superseded" r) fun _ => Same := by
    intro r w₁ _ w₂ hw₁ h
    obtain ⟨_, w₁', hoff, hup⟩ := bind_ok.mp h
    have hlots : w₁'.lots = w₁.lots := by
      rcases ite_ok.mp hoff with ⟨-, hoff⟩ | ⟨-, hoff⟩
      · obtain ⟨_, t, hledger, hoff⟩ := bind_ok.mp hoff
        rw [AiWallet.insertLedger, get_bind, set_bind] at hledger
        cases pure_ok.mp hledger
        cases modify_ok.mp hoff
        rfl
      · cases pure_ok.mp hoff
        rfl
    have hsame : fundings w₂ ws cycle source = fundings w₁' ws cycle source :=
      updateLot_fundings (fun _ _ hf => withAmounts_funds hf _) hup
    refine hsame.trans (Eq.trans ?_ hw₁)
    unfold fundings
    rw [hlots]
  obtain ⟨_, w₁, hlock, h⟩ := bind_ok.mp h
  have hw₁ : Same w₁ := by
    cases modify_ok.mp hlock
    obtain ⟨wallets, hlock⟩ := AiWallet.lock_eq w ws'
    rw [hlock]
    rfl
  rw [get_bind] at h
  obtain ⟨_, w₂, hloop, h⟩ := bind_ok.mp h
  have hw₂ : Same w₂ := Triple.forM (fun r _ => hretire r) w₁ _ w₂ hw₁ hloop
  rcases ite_ok.mp h with ⟨-, h⟩ | ⟨-, h⟩
  · cases pure_ok.mp h
    exact hw₂
  · cases modify_ok.mp h
    exact hw₂

/-- A month and source that have a lot are granted no other. -/
theorem aiGrantAllowance_fundings {expires : Option Timestamp} {key : Option String}
    (hw : Filed 0 w) {r : Id × Wallet}
    (h : AiWallet.aiGrantAllowance now ws amount (some cycle) (some source) expires key w = .ok r)
    (ws' : Id) (cycle' source' : String) :
    fundings r.2 ws' cycle' source' = fundings w ws' cycle' source' ∨
      (ws', cycle', source') = (ws, cycle, source) ∧ fundings w ws' cycle' source' = 0 ∧
        fundings r.2 ws' cycle' source' = 1 := by
  obtain ⟨wallets, hlock⟩ := AiWallet.lock_eq w ws
  rw [AiWallet.aiGrantAllowance, modify_bind, get_bind, hlock, AiWallet.replay_wallets] at h
  cases hkey : w.replay key with
  | some id =>
    simp only [hkey] at h
    cases pure_ok.mp h
    exact .inl rfl
  | none =>
    simp only [hkey] at h
    obtain ⟨lot, w₁, hlot, h⟩ := bind_ok.mp h
    rw [modify_bind, modify_bind] at h
    have hr : r.2.lots = w₁.lots := by
      rw [pure_ok.mp h]
      obtain ⟨commands, hcommands⟩ := AiWallet.recordCommand_eq (w₁.project ws) key
        { commandType := .grantAllowance, workspaceId := ws, resultRef := lot }
      simp only [hcommands]
      rfl
    unfold fundings
    rw [hr]
    rw [AiWallet.allowanceLot, get_bind] at hlot
    cases hfind : w.lots.rows.find? fun r => r.2.workspaceId = ws ∧
        r.2.sourceType = .planAllowance ∧ (some cycle).isSome ∧
        r.2.billingCycleId = some cycle ∧ r.2.allowanceSource = some source with
    | some found =>
      simp only [Option.getD_some, hfind] at hlot
      cases pure_ok.mp hlot
      exact .inl rfl
    | none =>
      simp only [Option.getD_some, hfind] at hlot
      obtain ⟨_, w₂, hfund, hlot⟩ := bind_ok.mp hlot
      cases pure_ok.mp hlot
      obtain ⟨entry, -, -, hw₂⟩ := AiWallet.fundLot_ok hfund
      have hfresh : w.lots.get w.nextId = none := by
        cases hget : w.lots.get w.nextId with
        | none => rfl
        | some lot => exact absurd (hw.lots_old _ _ hget) (lt_irrefl _)
      cases hw₂
      simp only [Wallet.withLot, put_rows_new hfresh, List.countP_append]
      by_cases hsame : (ws', cycle', source') = (ws, cycle, source)
      · cases hsame
        refine .inr ⟨rfl, ?_, ?_⟩
        all_goals
          have hzero : w.lots.rows.countP (funds ws cycle source) = 0 := by
            refine List.countP_eq_zero.mpr fun r hr hfunds => ?_
            have := List.find?_eq_none.mp hfind r hr
            simp_all [funds]
          simp [hzero, funds, Lot.fresh]
      · refine .inl ?_
        have hnot : funds ws' cycle' source' (w.nextId,
            { Lot.fresh ws .planAllowance (AiWallet.asked amount) now with
              allowanceSource := some source, billingCycleId := some cycle
              expiresAt := expires }) = false := by
          simp only [funds, Lot.fresh, Option.some.injEq, true_and, decide_eq_false_iff_not]
          rintro ⟨rfl, rfl, rfl⟩
          exact hsame rfl
        simp [hnot]

end Fundings

def cycleId (start at_ : Timestamp) : String := "cycle:account:" ++ stampText (cycleStart start at_)

/-- A call funds at most the month it is made in, from its source, where that has no lot. -/
theorem grantMonth_fundings (hw : Filed 0 db.wallet) {planId : Id} {source : String} {r : Int × Db}
    (h : grantMonth now ws planId (some start) stop source amount db = .ok r)
    (cycle' source' : String) :
    fundings r.2.wallet ws cycle' source' = fundings db.wallet ws cycle' source' ∨
      (start ≤ now ∧ now < stop ∧ cycle' = cycleId start now ∧ source' = source) ∧
        fundings db.wallet ws cycle' source' = 0 ∧ fundings r.2.wallet ws cycle' source' = 1 := by
  rcases ite_ok.mp h with ⟨-, h⟩ | ⟨hin, h⟩
  · rw [pure_ok.mp h]
    exact .inl rfl
  rw [get_bind] at h
  rcases ite_ok.mp h with ⟨-, h⟩ | ⟨-, h⟩
  · rw [pure_ok.mp h]
    exact .inl rfl
  rcases ite_ok.mp h with ⟨-, h⟩ | ⟨-, h⟩
  · rw [pure_ok.mp h]
    exact .inl rfl
  obtain ⟨_, db₁, hwallet, h⟩ := bind_ok.mp h
  rw [pure_ok.mp h]
  obtain ⟨w₃, hgrant, hdb₁⟩ := onWallet_ok hwallet
  have hdb₁ : db₁ = { db with wallet := w₃ } := hdb₁
  rw [hdb₁]
  simp only [not_or, not_lt, not_le] at hin
  have hgranted : ∀ {w₁ : Wallet}, Filed 0 w₁ →
      fundings w₁ ws cycle' source' = fundings db.wallet ws cycle' source' → ∀ {a : Id} {w₂ : Wallet}
      {expires : Option Timestamp} {amount : Option Int} {key : Option String},
      AiWallet.aiGrantAllowance now ws amount (some (cycleId start now)) (some source) expires key
        w₁ = .ok (a, w₂) →
      fundings w₂ ws cycle' source' = fundings db.wallet ws cycle' source' ∨
        (start ≤ now ∧ now < stop ∧ cycle' = cycleId start now ∧ source' = source) ∧
          fundings db.wallet ws cycle' source' = 0 ∧ fundings w₂ ws cycle' source' = 1 := by
    intro w₁ hw₁ hsame a w₂ expires amount key h
    rcases aiGrantAllowance_fundings hw₁ h ws cycle' source' with h | ⟨heq, hzero, hone⟩
    · exact .inl (h.trans hsame)
    · cases heq
      exact .inr ⟨⟨hin.1, hin.2, rfl, rfl⟩, hsame ▸ hzero, hone⟩
  rcases ite_ok.mp hgrant with ⟨-, hgrant⟩ | ⟨-, hgrant⟩
  · obtain ⟨_, w₁, hretire, hgrant⟩ := bind_ok.mp hgrant
    obtain ⟨_, w₂, hallow, hgrant⟩ := bind_ok.mp hgrant
    cases pure_ok.mp hgrant
    exact hgranted (retireCalendarLots_files _ _ _ _ hw hretire) (retireCalendarLots_fundings hretire)
      hallow
  · obtain ⟨_, w₂, hallow, hgrant⟩ := bind_ok.mp hgrant
    cases pure_ok.mp hgrant
    exact hgranted hw rfl hallow

/-- A call of `billing_account_grant_month` for the period. -/
structure GrantCall where
  now : Timestamp
  planId : Id
  source : String
  amount : Option Int

def grantStep (ws : Id) (start stop : Timestamp) (db : Db) (c : GrantCall) : Db :=
  commit (grantMonth c.now ws c.planId (some start) stop c.source c.amount) db

def funded (ws : Id) (start stop : Timestamp) (cycle source : String) (db : Db) (c : GrantCall) :
    Nat :=
  fundings (grantStep ws start stop db c).wallet ws cycle source - fundings db.wallet ws cycle source

def unfunded (ws : Id) (cycle source : String) (db : Db) : Nat :=
  1 - fundings db.wallet ws cycle source

theorem grantStep_filed (hw : Filed 0 db.wallet) (c : GrantCall) :
    Filed 0 (grantStep ws start stop db c).wallet := by
  have hstep : ∀ db db', MoneyStatement (fun _ => True) db db' → Filed 0 db.wallet →
      Filed 0 db'.wallet := fun _ _ h => h.walletFiled
  exact grantMonth_made.keeps hstep hw

theorem grantStep_fundings (hw : Filed 0 db.wallet) (c : GrantCall) (cycle source : String) :
    fundings (grantStep ws start stop db c).wallet ws cycle source =
        fundings db.wallet ws cycle source ∨ fundings db.wallet ws cycle source = 0 ∧
        fundings (grantStep ws start stop db c).wallet ws cycle source = 1 := by
  unfold grantStep commit
  cases h : grantMonth c.now ws c.planId (some start) stop c.source c.amount db with
  | error e => exact .inl rfl
  | ok r => exact (grantMonth_fundings hw h cycle source).imp_right And.right

theorem funded_at_most_once (hw : Filed 0 db.wallet) (calls : List GrantCall)
    (cycle source : String) :
    tally (grantStep ws start stop) (funded ws start stop cycle source) db calls ≤ 1 := by
  have hfiled : ∀ db c, Filed 0 db.wallet → Filed 0 (grantStep ws start stop db c).wallet :=
    fun _ c hw => grantStep_filed hw c
  have hdraw : ∀ db c, Filed 0 db.wallet → funded ws start stop cycle source db c +
      unfunded ws cycle source (grantStep ws start stop db c) ≤ unfunded ws cycle source db := by
    intro db c hw
    have hcase : fundings (grantStep ws start stop db c).wallet ws cycle source =
        fundings db.wallet ws cycle source ∨
      fundings db.wallet ws cycle source = 0 ∧
        fundings (grantStep ws start stop db c).wallet ws cycle source = 1 :=
      grantStep_fundings hw c cycle source
    unfold funded unfunded
    omega
  have hbudget : tally (grantStep ws start stop) (funded ws start stop cycle source) db calls ≤
      unfunded ws cycle source db :=
    tally_le_budget hfiled hdraw hw calls
  exact hbudget.trans (Nat.sub_le _ _)

end Kindred.Billing
