import Kindred.Billing.Run
import Kindred.AiWallet.Effects

/-! How often the next period is charged, and what the due moment does. -/

namespace Kindred.Billing
open Lib (Table run run_cons run_nil Meets)
open Lib.Tx

variable {now : Timestamp} {ws : Id} {db : Db} {spends : Prop} {db' : Db} {key : Key}
  {acc : Account} {actor : Option Id} {r : DueResult × Db} {sub : PaidSubscription}
  {card : Option (Id × Card)} {amount : Int} {f : Account → Option Account}
  {start : Option Timestamp} {reason : Option CancelReason}

/-- The period ends at `e`, and the call leaves it and its prepayment to the
renewals. -/
def Renewing (ws : Id) (e : Timestamp) (db : Db) (c : Timestamp × Operation) : Prop :=
  db.period ws = some e ∧ c.2.reprices db ws = false

instance (ws : Id) (e : Timestamp) (db : Db) (c : Timestamp × Operation) :
    Decidable (Renewing ws e db c) :=
  inferInstanceAs (Decidable (_ ∧ _))

variable {e stop : Timestamp} {planId cardId : Id} {balance : Int} {α : Type}

theorem renewing_counted (hkeys : KeysSound db) {c : Timestamp × Operation} (h : Renewing ws e db c)
    : Counted ws c.1 e (db.book ws) ((db.step c).book ws) := by
  have hmoves := (step_steps hkeys c).moves ws
  simp only [h.2, Bool.false_eq_true] at hmoves
  exact hmoves.counted h.1

theorem run_counted {b₀ : Book} (hkeys : KeysSound db)
    (hb : (db.book ws).charges ws e + b₀.heldFor e + b₀.returns e =
      b₀.charges ws e + (db.book ws).returns e + (db.book ws).heldFor e)
    {calls : List (Timestamp × Operation)} (h : Meets Db.step (Renewing ws e) db calls) :
    ((run Db.step db calls).book ws).charges ws e + b₀.heldFor e + b₀.returns e ≤
      b₀.charges ws e + ((run Db.step db calls).book ws).returns e + 1 := by
  induction calls generalizing db with
  | nil =>
    have := (db.book ws).heldFor_le e
    rw [run_nil]
    omega
  | cons c calls ih =>
    obtain ⟨hc, h⟩ := h
    rw [run_cons]
    rcases renewing_counted hkeys hc with ⟨-, hsame⟩ | ⟨-, hlater, hmoved⟩
    · exact ih (step_steps hkeys c).keys (by omega) h
    · cases calls with
      | nil =>
        rw [run_nil]
        omega
      | cons c' calls =>
        -- The period has moved on, so the run is over.
        have := hlater e h.1.1
        have := day_pos
        lia

/-- Rows under keys that were made; money is taken only where `spends`. -/
structure Appends (spends : Prop) (db db' : Db) : Prop where
  ids : db.nextId ≤ db'.nextId
  rows : ∃ new, db'.ledger.rows = db.ledger.rows ++ new ∧
    ∀ e ∈ new, (∀ u ∈ e.1.uuid, u < db'.nextId) ∧ (spends ∨ 0 < e.2.amountMinor)

theorem Appends.frame (hid : db.nextId ≤ db'.nextId) (hledger : db'.ledger = db.ledger) :
    Appends spends db db' :=
  ⟨hid, [], by rw [hledger, List.append_nil], by simp⟩

theorem Appends.refl (db : Db) : Appends spends db db := .frame le_rfl rfl

theorem Appends.trans {db'' : Db} (h : Appends spends db db') (h' : Appends spends db' db'') :
    Appends spends db db'' := by
  obtain ⟨hid, new, hrows, hnew⟩ := h
  obtain ⟨hid', new', hrows', hnew'⟩ := h'
  refine ⟨hid.trans hid', new ++ new', by rw [hrows', hrows, List.append_assoc], fun e he => ?_⟩
  rcases List.mem_append.mp he with he | he
  · exact ⟨fun u hu => lt_of_lt_of_le ((hnew e he).1 u hu) hid', (hnew e he).2⟩
  · exact hnew' e he

theorem Appends.posted {row : LedgerRow} (hnew : db.drawn.ledger.get key = none)
    (hkey : key.uuid = some db.nextId) (hamount : spends ∨ 0 < row.amountMinor) :
    Appends spends db (db.drawn.posted ws key row acc) := by
  refine ⟨Nat.le_add_right _ 2, [(key, row)], put_rows_new hnew, fun e he => ?_⟩
  cases List.mem_singleton.mp he
  refine ⟨fun u hu => ?_, hamount⟩
  rw [hkey] at hu
  cases hu
  exact Nat.lt_add_of_pos_right Nat.two_pos

theorem creditBack_appends (hkey : key.uuid = some db.nextId) {r : Unit × Db}
    (h : creditBack now ws amount actor key db.drawn = .ok r) : Appends spends db r.2 := by
  rcases creditBack_ok h with ⟨row, -, -, hdb⟩ | ⟨-, hdb⟩ | ⟨acc, acc', hnew, hpos, -, -, hdb⟩
  · rw [hdb]
    exact .frame (Nat.le_succ _) rfl
  · rw [hdb]
    exact .frame (Nat.le_succ _) rfl
  · rw [hdb]
    exact .posted hnew hkey (.inr hpos)

theorem updateAccount_appends {r : Unit × Db} (h : updateAccount ws f db = .ok r) :
    Appends spends db r.2 := by
  rcases updateAccount_ok h with ⟨-, hdb⟩ | ⟨_, _, -, -, hdb⟩
  · rw [hdb]
    exact .refl db
  · rw [hdb]
    exact .frame le_rfl rfl

theorem lock_appends {r : Account × Db} (h : lock ws db = .ok r) : Appends spends db r.2 := by
  unfold lock at h
  rw [get_bind] at h
  obtain ⟨_, db₁, hensure, h⟩ := bind_ok.mp h
  rw [(readAccount_ok.mp h).2]
  rcases ensure_ok hensure with ⟨hdb, -⟩ | ⟨-, hdb⟩
  · rw [show db₁ = db from hdb]
    exact .refl db
  · rw [show db₁ = _ from hdb]
    exact .frame le_rfl rfl

theorem releaseStale_appends {r : Int × Db} (h : releaseStalePrepaid now ws db = .ok r) :
    Appends spends db r.2 := by
  unfold releaseStalePrepaid at h
  rw [get_bind] at h
  cases hacc : db.accounts.get ws with
  | none =>
    simp only [hacc] at h
    rw [pure_ok.mp h]
    exact .refl db
  | some acc =>
    simp only [hacc] at h
    cases hp : acc.nextPeriodPrepaidMinor with
    | none =>
      simp only [hp] at h
      rw [pure_ok.mp h]
      exact .refl db
    | some p =>
      simp only [hp] at h
      rcases ite_ok.mp h with ⟨-, h⟩ | ⟨-, h⟩
      · rw [pure_ok.mp h]
        exact .refl db
      · rw [randomUuid_bind] at h
        obtain ⟨_, _, hback, h⟩ := bind_ok.mp h
        obtain ⟨_, _, hup, h⟩ := bind_ok.mp h
        rw [pure_ok.mp h]
        exact (creditBack_appends rfl hback).trans (updateAccount_appends hup)

theorem grantMonth_appends {source : String} {amount : Option Int} {r : Int × Db}
    (h : grantMonth now ws planId start stop source amount db = .ok r) : Appends spends db r.2 := by
  obtain ⟨w, hdb⟩ := grantMonth_ok h
  rw [hdb]
  exact .frame le_rfl rfl

theorem writeSubscription_appends {interval : Option Interval} {status : SubscriptionStatus}
    {changeType : ChangeType} {details : ChangeDetails} {r : PUnit × Db}
    (h : writeSubscription ws planId interval start stop status changeType actor details db =
      .ok r) : Appends spends db r.2 := by
  rw [modify_ok.mp h]
  exact .frame le_rfl rfl

theorem startPrepaid_appends {prepaid : Int} (h : startPrepaid now ws acc sub prepaid db = .ok r) :
    Appends spends db r.2 := by
  obtain ⟨_, _, hup, h⟩ := bind_ok.mp h
  obtain ⟨_, _, hwrite, h⟩ := bind_ok.mp h
  obtain ⟨_, _, hgrant, h⟩ := bind_ok.mp h
  rw [pure_ok.mp h]
  exact (updateAccount_appends hup).trans
    ((writeSubscription_appends hwrite).trans (grantMonth_appends hgrant))

theorem cardSetStatus_appends {status : CardStatus} {r : Bool × Db}
    (h : cardSetStatus cardId status reason db = .ok r) : Appends spends db r.2 := by
  unfold cardSetStatus at h
  rw [get_bind] at h
  cases hcard : db.cards.get cardId with
  | none =>
    simp only [hcard] at h
    exact (throw_ok.mp h).elim
  | some card =>
    simp only [hcard] at h
    rcases ite_ok.mp h with ⟨-, h⟩ | ⟨-, h⟩
    · rw [pure_ok.mp h]
      exact .refl db
    · obtain ⟨-, h⟩ := require_bind_ok.mp h
      obtain ⟨-, h⟩ := require_bind_ok.mp h
      rw [set_bind] at h
      rcases ite_ok.mp h with ⟨-, h⟩ | ⟨-, h⟩
      · obtain ⟨_, _, hup, h⟩ := bind_ok.mp h
        rw [pure_ok.mp h]
        have hset : ∀ cards, Appends spends db { db with cards := cards } :=
          fun _ => .frame le_rfl rfl
        exact (hset _).trans (updateAccount_appends hup)
      · rw [pure_ok.mp h]
        exact .frame le_rfl rfl

theorem expire_appends {reason : DueReason} (h : expire now ws acc sub card reason db = .ok r) :
    Appends spends db r.2 := by
  obtain ⟨_, db₁, hstop, h⟩ := bind_ok.mp h
  obtain ⟨_, db₂, hback, h⟩ := bind_ok.mp h
  obtain ⟨_, db₃, hup, h⟩ := bind_ok.mp h
  obtain ⟨_, db₄, hwrite, h⟩ := bind_ok.mp h
  rw [pure_ok.mp h]
  have hstop' : Appends spends db db₁ := by
    cases card with
    | none =>
      rw [show db₁ = db from congrArg Prod.snd (pure_ok.mp hstop)]
      exact .refl db
    | some card =>
      obtain ⟨_, _, hset, h⟩ := bind_ok.mp hstop
      rw [show db₁ = _ from congrArg Prod.snd (pure_ok.mp h)]
      exact cardSetStatus_appends hset
  have hback' : Appends spends db₁ db₂ := by
    cases hp : acc.nextPeriodPrepaidMinor with
    | none =>
      rw [hp] at hback
      rw [show db₂ = _ from congrArg Prod.snd (pure_ok.mp hback)]
      exact .refl db₁
    | some p =>
      rw [hp] at hback
      simp only [returnAtDue] at hback
      rw [randomUuid_bind] at hback
      exact creditBack_appends rfl hback
  exact (hstop'.trans hback').trans
    ((updateAccount_appends hup).trans (writeSubscription_appends hwrite))

theorem renew_appends (hspends : spends) {expectedEnd : Option Timestamp}
    {expectedPrice override : Option Int} {r : PlanResult × Db}
    (h : renew now ws actor expectedEnd expectedPrice override db = .ok r) :
    Appends spends db r.2 := by
  obtain ⟨⟨_, db₁⟩, ⟨_, db₂⟩, acc, sub, price, hlock, hrelease, -, -, -, h⟩ := renew_ok h
  have hbefore : Appends spends db db₂ := (lock_appends hlock).trans (releaseStale_appends hrelease)
  unfold payRenewal at h
  rw [randomUuid_bind] at h
  obtain ⟨row, db₃, hdebit, h⟩ := bind_ok.mp h
  have hdebit' : Appends spends db₂ db₃ := by
    rcases debit_ok hdebit with ⟨-, -, -, -, hdb⟩ | ⟨_, _, hnew, -, -, -, -, -, hdb⟩
    · rw [show db₃ = _ from hdb]
      exact .frame (Nat.le_succ _) rfl
    · rw [show db₃ = _ from hdb]
      exact .posted hnew rfl (.inl hspends)
  refine (hbefore.trans hdebit').trans ?_
  rcases ite_ok.mp h with ⟨-, h⟩ | ⟨-, h⟩
  · obtain ⟨_, _, hup, h⟩ := bind_ok.mp h
    rw [pure_ok.mp h]
    exact updateAccount_appends hup
  · obtain ⟨_, _, hup, h⟩ := bind_ok.mp h
    obtain ⟨_, _, hwrite, h⟩ := bind_ok.mp h
    obtain ⟨_, _, hgrant, h⟩ := bind_ok.mp h
    rw [pure_ok.mp h]
    exact (updateAccount_appends hup).trans
      ((writeSubscription_appends hwrite).trans (grantMonth_appends hgrant))

def Db.spendsAtDue (db : Db) (ws : Id) : Prop :=
  db.liveCard ws = none ∧ ∃ acc ∈ db.accounts.get ws, acc.autoRenew

instance (db : Db) (ws : Id) : Decidable (db.spendsAtDue ws) :=
  inferInstanceAs (Decidable (_ ∧ _))

theorem dueStep_renew (h : db.dueStep acc sub card = .renew) :
    card = none ∧ acc.autoRenew ∧ acc.nextPeriodPrepaidMinor = none ∧
      (db.plans.get (acc.target sub)).bind (·.isFree) ≠ some true ∧
      ∃ price, db.planPrice (acc.target sub) acc.currency (acc.nextInterval sub).text = some price ∧
        0 < price ∧ price ≤ acc.balanceMinor := by
  unfold Db.dueStep at h
  have hfree : ∀ free : Option Bool, free.getD true = false → free ≠ some true := by
    rintro (_ | _ | _) <;> simp
  generalize Option.bind _ _ = free at h ⊢
  have hpaid := hfree free
  generalize free.getD true = f at h hpaid
  cases hp : acc.nextPeriodPrepaidMinor <;> cases f <;>
    simp only [hp, reduceIte, Bool.false_eq_true] at h
  case some.false => cases h
  case none.false =>
    split at h
    · cases h
    rename_i hcard
    split at h
    swap
    · cases h
    rename_i hauto
    split at h
    · cases h
    rename_i price hprice
    split at h
    · cases h
    rename_i hpos
    split at h
    · rename_i henough
      exact ⟨by simpa using hcard, hauto, rfl, hpaid rfl, price, hprice, by omega, henough⟩
    · cases h
  all_goals
    split at h
    all_goals cases h

theorem withBalance_autoRenew {a a' : Account} (h : a.withBalance balance = some a')
    : a'.autoRenew = a.autoRenew := by
  unfold Account.withBalance at h
  split at h
  · cases h
    rfl
  · cases h

theorem releaseStale_autoRenew (hacc : db.accounts.get ws = some acc) {r : Int × Db}
    (h : releaseStalePrepaid now ws db = .ok r) :
    ∃ acc', r.2.accounts.get ws = some acc' ∧ acc'.autoRenew = acc.autoRenew := by
  unfold releaseStalePrepaid at h
  rw [get_bind] at h
  simp only [hacc] at h
  cases hp : acc.nextPeriodPrepaidMinor with
  | none =>
    simp only [hp] at h
    rw [pure_ok.mp h]
    exact ⟨acc, hacc, rfl⟩
  | some p =>
    simp only [hp] at h
    rcases ite_ok.mp h with ⟨-, h⟩ | ⟨-, h⟩
    · rw [pure_ok.mp h]
      exact ⟨acc, hacc, rfl⟩
    · rw [randomUuid_bind] at h
      obtain ⟨_, db₁, hback, h⟩ := bind_ok.mp h
      obtain ⟨_, db₂, hup, h⟩ := bind_ok.mp h
      rw [pure_ok.mp h]
      have hback' : ∃ acc', db₁.accounts.get ws = some acc' ∧ acc'.autoRenew = acc.autoRenew := by
        rcases creditBack_ok hback with ⟨_, -, -, hdb⟩ | ⟨-, hdb⟩ | ⟨a, acc', -, -, ha, hbal, hdb⟩
        · rw [show db₁ = _ from hdb]
          exact ⟨acc, hacc, rfl⟩
        · rw [show db₁ = _ from hdb]
          exact ⟨acc, hacc, rfl⟩
        · cases hacc.symm.trans ha
          rw [show db₁ = _ from hdb]
          exact ⟨acc', Table.get_put_self _ _ _, withBalance_autoRenew hbal⟩
      obtain ⟨acc₁, hacc₁, hauto⟩ := hback'
      rcases updateAccount_ok hup with ⟨hn, -⟩ | ⟨a, acc₂, ha, hf, hdb⟩
      · exact absurd (hacc₁.symm.trans hn) (Option.some_ne_none _)
      · cases hacc₁.symm.trans ha
        cases hf
        rw [show db₂ = _ from hdb]
        exact ⟨_, Table.get_put_self _ _ _, hauto⟩

theorem lock_autoRenew {r : Account × Db} (h : lock ws db = .ok r) :
    r.2.accounts.get ws = some r.1 ∧
      (r.1.autoRenew → ∃ acc, db.accounts.get ws = some acc ∧ acc.autoRenew) := by
  unfold lock at h
  rw [get_bind] at h
  obtain ⟨_, db₁, hensure, h⟩ := bind_ok.mp h
  obtain ⟨hacc, hdb⟩ := readAccount_ok.mp h
  rw [hdb]
  refine ⟨hacc, fun hauto => ?_⟩
  rcases ensure_ok hensure with ⟨hdb, -⟩ | ⟨-, hdb⟩
  · rw [show db₁ = db from hdb] at hacc
    exact ⟨_, hacc, hauto⟩
  · rw [show db₁ = _ from hdb, Table.get_put_self] at hacc
    rw [← Option.some.inj hacc] at hauto
    cases hauto

theorem MoneyOnly.liveCard (h : MoneyOnly db db') (ws : Id) : db'.liveCard ws = db.liveCard ws := by
  rw [h]
  rfl

theorem processDue_appends (hkeys : KeysSound db) (h : processDue now ws db = .ok r) :
    Appends (db.spendsAtDue ws) db r.2 := by
  obtain ⟨acc₀, db₁, hlock, h⟩ := bind_ok.mp h
  have ⟨hdoes, hmoney₁, _⟩ : Does ws now False db db₁ ∧ _ := lock_does False hkeys hlock
  obtain ⟨hacc₀, hauto₀⟩ := lock_autoRenew hlock
  rw [get_bind] at h
  generalize db₁.due now ws = due at h
  cases due with
  | none =>
    rw [pure_ok.mp h]
    exact lock_appends hlock
  | some sub =>
    refine (lock_appends hlock).trans ?_
    obtain ⟨_, db₂, hrelease, h⟩ := bind_ok.mp h
    obtain ⟨acc, hacc, h⟩ := readAccount_bind_ok.mp h
    rw [get_bind] at h
    refine (releaseStale_appends hrelease).trans ?_
    cases hstep : db₂.dueStep acc sub (db₂.liveCard ws) with
    | start prepaid =>
      simp only [hstep] at h
      exact startPrepaid_appends h
    | renew =>
      simp only [hstep] at h
      obtain ⟨_, _, hrenew, h⟩ := bind_ok.mp h
      rw [pure_ok.mp h]
      obtain ⟨hcard, hauto, -⟩ := dueStep_renew hstep
      obtain ⟨-, hmoney₂, -⟩ := releaseStale_does False hdoes.keys hrelease
      obtain ⟨acc', hacc', hsame⟩ := releaseStale_autoRenew hacc₀ hrelease
      cases hacc.symm.trans hacc'
      refine renew_appends ⟨?_, hauto₀ (hsame.symm.trans hauto)⟩ hrenew
      rw [← hmoney₁.liveCard, ← hmoney₂.liveCard]
      exact hcard
    | expire reason =>
      simp only [hstep] at h
      exact expire_appends h

theorem retireCalendarLots_succeeds (workspaceId : Id) (w : AiWallet.Wallet) :
    Succeeds (retireCalendarLots workspaceId) w := by
  refine .modify_bind (.get_bind ?_)
  refine .bind (AiWallet.retireLots_succeed _ _ (fun x hx => ?_) ?_) fun r _ =>
    .ite (fun _ => .pure _ _) fun _ => .modify _ _
  · exact Table.get_eq_some_iff_mem.mpr (List.mem_filter.mp hx).1
  · exact (w.lock workspaceId).lots.keys_nodup.sublist (List.filter_sublist.map _)

theorem onWallet_succeeds {m : AiWallet.WalletTx α} (h : Succeeds m db.wallet) :
    Succeeds (onWallet m) db := by
  obtain ⟨⟨a, w⟩, hm⟩ := h
  refine .get_bind ?_
  simp only [hm]
  exact ⟨_, rfl⟩

theorem grantMonth_succeeds (now : Timestamp) (ws planId : Id) (start : Option Timestamp)
    (stop : Timestamp) (source : String) (amount : Option Int) (db : Db) :
    Succeeds (grantMonth now ws planId start stop source amount) db := by
  cases start with
  | none => exact .pure _ _
  | some start =>
    refine .ite (fun _ => .pure _ _) fun _ => .get_bind ?_
    refine .ite (fun _ => .pure _ _) fun _ => .ite (fun _ => .pure _ _) fun _ => ?_
    refine .bind (onWallet_succeeds ?_) fun _ _ => .pure _ _
    refine .ite (fun _ => ?_) fun _ => ?_
    · exact .bind (retireCalendarLots_succeeds ws _) fun _ _ =>
        .bind (AiWallet.aiGrantAllowance_succeeds ..) fun _ _ => .pure _ _
    · exact .bind (AiWallet.aiGrantAllowance_succeeds ..) fun _ _ => .pure _ _

/-- No key ends in a `uuid` that is still to be made. -/
def KeysMade (db : Db) : Prop :=
  ∀ e ∈ db.ledger.rows, ∀ u ∈ e.1.uuid, u < db.nextId

instance (db : Db) : Decidable (KeysMade db) := inferInstanceAs (Decidable (∀ _ ∈ _, _))

theorem KeysMade.absent (h : KeysMade db) (hkey : key.uuid = some db.nextId) :
    db.ledger.get key = none := by
  cases hget : db.ledger.get key with
  | none => rfl
  | some row => exact absurd (h _ (Table.get_eq_some_iff_mem.mp hget) _ hkey) (lt_irrefl _)

theorem Appends.keysMade (h : Appends spends db db') (hmade : KeysMade db) : KeysMade db' := by
  obtain ⟨hid, new, hrows, hnew⟩ := h
  intro e hmem u hu
  rw [hrows] at hmem
  rcases List.mem_append.mp hmem with hmem | hmem
  · exact lt_of_lt_of_le (hmade e hmem u hu) hid
  · exact (hnew _ hmem).1 u hu

theorem readAccount_bind_succeeds {f : Account → BillingTx α} (hacc : db.accounts.get ws = some acc)
    (hf : Succeeds (f acc) db) : Succeeds (readAccount ws >>= f) db := by
  obtain ⟨r, hr⟩ := hf
  exact ⟨r, readAccount_bind_ok.mpr ⟨acc, hacc, hr⟩⟩

theorem readAccount_succeeds (hacc : db.accounts.get ws = some acc) :
    Succeeds (readAccount ws) db := by
  refine .get_bind ?_
  simp only [hacc]
  exact .pure _ _

theorem updateAccount_succeeds {acc' : Account} (hacc : db.accounts.get ws = some acc)
    (hf : f acc = some acc') : Succeeds (updateAccount ws f) db := by
  refine .get_bind ?_
  simp only [hacc, hf]
  exact ⟨_, rfl⟩

theorem insertLedger_succeeds {row : Id → LedgerRow} (hnew : db.ledger.get key = none)
    (hamount : (row db.nextId).amountMinor ≠ 0) (hafter : 0 ≤ (row db.nextId).balanceAfter) :
    Succeeds (insertLedger key row) db := by
  exact .bind ⟨_, rfl⟩ fun r hr => by
    cases hr
    exact .get_bind (.require_bind ⟨hamount, hafter⟩
      (.require_bind hnew (.set_bind (.pure _ _))))

theorem withBalance_succeeds (acc : Account) (h : 0 ≤ balance) :
    ∃ acc', acc.withBalance balance = some acc' := by
  unfold Account.withBalance
  rw [dif_pos h]
  exact ⟨_, rfl⟩

theorem creditBack_succeeds (hacc : db.accounts.get ws = some acc)
    (hnew : db.ledger.get key = none) : Succeeds (creditBack now ws amount actor key) db := by
  have hbalance := acc.balance_check
  refine .get_bind ?_
  simp only [hnew]
  refine .ite (fun hpos => ?_) fun _ => .pure _ _
  refine readAccount_bind_succeeds hacc (.bind (insertLedger_succeeds hnew (by simp only; omega)
    (by simp only; omega)) fun r hr => ?_)
  have hafter : 0 ≤ acc.balanceMinor + amount := by omega
  obtain ⟨acc', hf⟩ := withBalance_succeeds acc hafter
  refine updateAccount_succeeds ?_ hf
  rw [(insertLedger_ok hr).2.2]
  exact hacc

theorem debit_succeeds {charge : Charge} (hacc : db.accounts.get ws = some acc)
    (hnew : db.ledger.get key = none) (hpos : 0 < amount) (henough : amount ≤ acc.balanceMinor) :
    Succeeds (debit now ws amount charge key) db := by
  refine .get_bind ?_
  simp only [hnew]
  refine .require_bind hpos (readAccount_bind_succeeds hacc (.require_bind henough ?_))
  have hafter : 0 ≤ acc.balanceMinor - amount := by omega
  refine .bind (insertLedger_succeeds hnew (by simp only; omega) hafter) fun r hr =>
    .bind ?_ fun _ _ => .pure _ _
  obtain ⟨acc', hf⟩ := withBalance_succeeds acc hafter
  refine updateAccount_succeeds ?_ hf
  rw [(insertLedger_ok hr).2.2]
  exact hacc

theorem updateAccount_some_succeeds (f : Account → Account) :
    Succeeds (updateAccount ws fun a => some (f a)) db := by
  refine .get_bind ?_
  cases db.accounts.get ws with
  | none => exact .pure _ _
  | some acc => exact ⟨_, rfl⟩

theorem region_currency_valid (region : Region) : validCurrency region.currency.toUpper := by
  cases region <;> decide +kernel

theorem lock_succeeds (db : Db) (ws : Id) : Succeeds (lock ws) db := by
  refine .get_bind (.bind ?_ fun r hr => ?_)
  · exact .require_bind (region_currency_valid _) (.modify _ _)
  · rcases ensure_ok hr with ⟨hdb, hsome⟩ | ⟨-, hdb⟩
    · obtain ⟨acc, hacc⟩ := Option.isSome_iff_exists.mp hsome
      rw [hdb]
      exact readAccount_succeeds hacc
    · rw [hdb]
      exact readAccount_succeeds (Table.get_put_self _ _ _)

theorem releaseStale_succeeds (hmade : KeysMade db) : Succeeds (releaseStalePrepaid now ws) db := by
  refine .get_bind ?_
  cases hacc : db.accounts.get ws with
  | none => exact .pure _ _
  | some acc =>
    simp only
    cases hp : acc.nextPeriodPrepaidMinor with
    | none => exact .pure _ _
    | some p =>
      refine .ite (fun _ => .pure _ _) fun _ => .bind ⟨_, rfl⟩ fun r hr => ?_
      cases hr
      refine .bind (creditBack_succeeds hacc (hmade.absent rfl)) fun _ _ => ?_
      exact .bind (updateAccount_some_succeeds Account.withoutPrepaid) fun _ _ => .pure _ _

theorem startPrepaid_succeeds (acc : Account) (sub : PaidSubscription) (prepaid : Int) :
    Succeeds (startPrepaid now ws acc sub prepaid) db := by
  refine .bind (updateAccount_some_succeeds Account.clearNext) fun _ _ => ?_
  refine .bind (.modify _ _) fun _ _ => ?_
  exact .bind (grantMonth_succeeds ..) fun _ _ => .pure _ _

theorem cardSetStatus_succeeds {card : Card} (hcard : db.cards.get cardId = some card) :
    Succeeds (cardSetStatus cardId .canceling reason) db := by
  refine .get_bind ?_
  simp only [hcard]
  refine .ite (fun _ => .pure _ _) fun _ => ?_
  refine .require_bind (by simp [CardStatus.live]) (.require_bind (by simp [CardStatus.live])
    (.set_bind ?_))
  refine .ite (fun _ => ?_) fun _ => .pure _ _
  exact .bind (updateAccount_some_succeeds fun a => a.dropCard card) fun _ _ => .pure _ _

theorem stopCard_succeeds (reason : DueReason) :
    Succeeds (stopCard reason (db.liveCard ws)) db := by
  cases hcard : db.liveCard ws with
  | none => exact .pure _ _
  | some c =>
    have hget : db.cards.get c.1 = some c.2 :=
      Table.get_eq_some_iff_mem.mpr (List.mem_of_find?_eq_some hcard)
    exact .bind (cardSetStatus_succeeds hget) fun _ _ => .pure _ _

theorem stopCard_appends {reason : DueReason} {r : Unit × Db}
    (h : stopCard reason card db = .ok r) : Appends spends db r.2 := by
  cases card with
  | none =>
    rw [pure_ok.mp h]
    exact .refl db
  | some card =>
    obtain ⟨_, _, hset, h⟩ := bind_ok.mp h
    rw [pure_ok.mp h]
    exact cardSetStatus_appends hset

theorem expire_succeeds (hkeys : KeysSound db) (hmade : KeysMade db)
    (hacc : db.accounts.get ws = some acc) (sub : PaidSubscription) (reason : DueReason) :
    Succeeds (expire now ws acc sub (db.liveCard ws) reason) db := by
  refine .bind (stopCard_succeeds reason) fun r hr => .bind ?_ fun _ _ => ?_
  · obtain ⟨-, hbook, -⟩ := stopCard_does hkeys hr
    obtain ⟨acc', hacc', -⟩ := money_of_book (hbook ws) hacc
    have hstop : Appends False db r.2 := stopCard_appends hr
    have hmade' := hstop.keysMade hmade
    cases acc.nextPeriodPrepaidMinor with
    | none => exact .pure _ _
    | some p =>
      refine .bind ⟨_, rfl⟩ fun r' hr' => ?_
      cases hr'
      exact creditBack_succeeds hacc' (hmade'.absent rfl)
  · refine .bind (updateAccount_some_succeeds Account.clearNext) fun _ _ => ?_
    exact .bind (.modify _ _) fun _ _ => .pure _ _

theorem renew_succeeds (hmade : KeysMade db) (hacc : db.accounts.get ws = some acc)
    (hsub : db.paidSubscription ws = some sub) (hdue : sub.currentPeriodEnd ≤ now)
    (hstep : db.dueStep acc sub card = .renew) :
    Succeeds (renew now ws none (some sub.currentPeriodEnd) none none) db := by
  obtain ⟨-, -, hnone, hfree, price, hprice, hpos, henough⟩ := dueStep_renew hstep
  have hnothing : NothingPrepaid ws db := fun a ha => by
    cases hacc.symm.trans ha
    exact hnone
  refine .bind (lock_succeeds db ws) fun r hr => ?_
  have hlock : r.2 = db := by
    unfold lock at hr
    rw [get_bind] at hr
    obtain ⟨_, db₁, hensure, hr⟩ := bind_ok.mp hr
    rw [(readAccount_ok.mp hr).2]
    rcases ensure_ok hensure with ⟨hdb, -⟩ | ⟨hn, -⟩
    · exact hdb
    · exact absurd (hacc.symm.trans hn) (Option.some_ne_none _)
  rw [hlock]
  refine .bind (releaseStale_succeeds hmade) fun r hr => ?_
  rw [releaseStale_nothing hnothing hr]
  refine readAccount_bind_succeeds hacc (.get_bind ?_)
  simp only [hsub]
  refine .require_bind (by simp [Lib.Calendar.second]) (.require_bind hnone
    (.require_bind hfree ?_))
  simp only [hprice, Option.none_or]
  refine .require_bind hpos (.require_bind (by simp) ?_)
  refine .bind ⟨_, rfl⟩ fun r hr => ?_
  cases hr
  refine .bind (debit_succeeds hacc (hmade.absent rfl) hpos henough) fun r _ => ?_
  refine .ite (fun hearly => absurd hdue (not_le.mpr hearly)) fun _ => ?_
  refine .bind (updateAccount_some_succeeds Account.clearNext) fun _ _ => ?_
  refine .bind (.modify _ _) fun _ _ => ?_
  exact .bind (grantMonth_succeeds ..) fun _ _ => .pure _ _

theorem processDue_succeeds (hkeys : KeysSound db) (hmade : KeysMade db) :
    Succeeds (processDue now ws) db := by
  refine .bind (lock_succeeds db ws) fun r hr => .get_bind ?_
  have hlocked : Appends False db r.2 := lock_appends hr
  have hmade₁ := hlocked.keysMade hmade
  have ⟨hdoes, _, hacc₁⟩ : Does ws now False db r.2 ∧ _ := lock_does False hkeys hr
  cases hdue : r.2.due now ws with
  | none => exact .pure _ _
  | some sub =>
    obtain ⟨hsub, hend⟩ := due_some hdue
    refine .bind (releaseStale_succeeds hmade₁) fun r' hr' => ?_
    have hreleased : Appends False r.2 r'.2 := releaseStale_appends hr'
    have hmade₂ := hreleased.keysMade hmade₁
    obtain ⟨hdoes₂, hmoney₂, -⟩ := releaseStale_does False hdoes.keys hr'
    obtain ⟨acc, hacc, -⟩ := releaseStale_autoRenew hacc₁ hr'
    refine readAccount_bind_succeeds hacc (.get_bind ?_)
    cases hstep : r'.2.dueStep acc sub (r'.2.liveCard ws) with
    | start prepaid =>
      simp only [hstep]
      exact startPrepaid_succeeds acc sub prepaid
    | renew =>
      simp only [hstep]
      exact .bind (renew_succeeds hmade₂ hacc ((hmoney₂.paid ws).trans hsub) hend hstep)
        fun _ _ => .pure _ _
    | expire reason =>
      simp only [hstep]
      exact expire_succeeds hdoes₂.keys hmade₂ hacc sub reason

theorem due_none_of_notDue (h : NotDue now ws db) : db.due now ws = none := by
  cases hdue : db.due now ws with
  | none => rfl
  | some sub =>
    obtain ⟨hsub, hend⟩ := due_some hdue
    exact absurd hend (not_le.mpr (h _ (period_of_paid hsub)))

theorem processDue_twice (hkeys : KeysSound db) (hmade : KeysMade db) :
    (run Db.step db [(now, .processDue ws), (now, .processDue ws)]).due now ws = none := by
  have hcall : ∀ db : Db, Succeeds (processDue now ws) db →
      ∃ a, processDue now ws db = .ok (a, db.step (now, .processDue ws)) := by
    intro db hsucceeds
    obtain ⟨a, hstep⟩ := commit_of_succeeds hsucceeds.discard
    exact discard_ok hstep
  obtain ⟨a₁, h₁⟩ := hcall db (processDue_succeeds hkeys hmade)
  obtain ⟨hdoes, hnothing, hnotDue⟩ := processDue_does False hkeys h₁
  have hmade₁ := (processDue_appends hkeys h₁).keysMade hmade
  obtain ⟨a₂, h₂⟩ := hcall _ (processDue_succeeds hdoes.keys hmade₁)
  obtain ⟨-, -, hnotDue₂⟩ := processDue_does False hdoes.keys h₂
  refine due_none_of_notDue (hnotDue₂ ?_)
  cases hdue : db.due now ws with
  | none => exact .inr (due_none_of_notDue (hnotDue (.inr hdue)))
  | some sub => exact .inl (hnothing (by simp [hdue]))

theorem processDue_step_appends (hkeys : KeysSound db) :
    Appends (db.spendsAtDue ws) db (db.step (now, .processDue ws)) := by
  unfold Db.step commit
  split
  · rename_i h
    obtain ⟨a, h⟩ := discard_ok h
    exact processDue_appends hkeys h
  · exact .refl db

theorem Sound.balanceOf_mono (h : Sound db) (h' : Sound db') {new : List Entry}
    (hrows : db'.ledger.rows = db.ledger.rows ++ new) (hnew : ∀ e ∈ new, 0 < e.2.amountMinor)
    (ws : Id) : db.balanceOf ws ≤ db'.balanceOf ws := by
  rw [h.balanceOf, h'.balanceOf]
  simp only [Db.ledgerOf, hrows, List.filter_append, List.map_append, List.sum_append,
    List.map_map]
  have hpos : 0 ≤ ((new.filter fun e => e.2.workspaceId = ws).map
      ((·.amountMinor) ∘ Prod.snd)).sum := by
    refine List.sum_nonneg fun x hx => ?_
    obtain ⟨e, he, rfl⟩ := List.mem_map.mp hx
    exact (hnew e (List.mem_filter.mp he).1).le
  exact le_add_of_nonneg_right hpos

/-- While the period ends at `e` and until the call that changes it, the period
after it is charged once more than it is returned, a payment held from before
counted in; the due moment spends nothing while a card is live or auto-renewal
is off; and two due moments in a row leave the workspace not due, as a `uuid`
just made is in no key yet. -/
theorem next_period_charged_once (past : List (Timestamp × Operation)) (ws : Id) :
    let db := run Db.step .empty past
    (∀ e calls, Meets Db.step (Renewing ws e) db calls →
      ((run Db.step db calls).book ws).charges ws e + (db.book ws).heldFor e +
          (db.book ws).returns e ≤
        (db.book ws).charges ws e + ((run Db.step db calls).book ws).returns e + 1) ∧
    (∀ now, ¬db.spendsAtDue ws →
      db.balanceOf ws ≤ (db.step (now, .processDue ws)).balanceOf ws ∧
        ∃ new, (db.step (now, .processDue ws)).ledger.rows = db.ledger.rows ++ new ∧
          ∀ e ∈ new, 0 < e.2.amountMinor) ∧
    ∀ now, KeysMade db →
      (run Db.step db [(now, .processDue ws), (now, .processDue ws)]).due now ws = none := by
  intro db
  have hsound : Sound db := sound_run past
  refine ⟨fun e calls hmeets => ?_, fun now hspends => ?_, fun now hmade => ?_⟩
  · exact run_counted hsound.keys (by omega) hmeets
  · have happends : Appends (db.spendsAtDue ws) db (db.step (now, .processDue ws)) :=
      processDue_step_appends hsound.keys
    obtain ⟨-, new, hrows, hnew⟩ := happends
    have hpos : ∀ e ∈ new, 0 < e.2.amountMinor := fun e he => (hnew e he).2.resolve_left hspends
    exact ⟨hsound.balanceOf_mono (hsound.step _) hrows hpos ws, new, hrows, hpos⟩
  · exact processDue_twice hsound.keys hmade

/-- A month of 1000, renewed twice with the same expected end and then due. -/
theorem next_period_charged_once_month :
    let past : List (Timestamp × Operation) :=
      [(0, .editSettings { region := .iran }),
       (0, .editPlan 7 { prices := Table.empty.put ("IRR", "monthly") (.number 1000 0) }),
       (0, .adminAdjust 1 (some 5000) (some "IRR") (some "opening") none (some "k") (some "test")
         none),
       (0, .purchasePlan 1 7 (some "monthly") "p" none), (0, .setAutoRenew 1 true)]
    let db := run Db.step .empty past
    let monthEnd : Timestamp := 31 * Lib.Calendar.day
    let calls : List (Timestamp × Operation) :=
      [(1, .renew 1 none (some monthEnd) none none), (2, .renew 1 none (some monthEnd) none none),
       (monthEnd, .processDue 1)]
    (((run Db.step db calls).book 1).charges 1 monthEnd + (db.book 1).heldFor monthEnd +
        (db.book 1).returns monthEnd ≤
      (db.book 1).charges 1 monthEnd + ((run Db.step db calls).book 1).returns monthEnd + 1) ∧
    db.balanceOf 2 ≤ (db.step (monthEnd, .processDue 2)).balanceOf 2 ∧
    (run Db.step db [(monthEnd, .processDue 1), (monthEnd, .processDue 1)]).due monthEnd 1 =
      none := by
  intro past db monthEnd calls
  exact ⟨(next_period_charged_once past 1).1 monthEnd calls (by decide +kernel),
    ((next_period_charged_once past 2).2.1 monthEnd (by decide +kernel)).1,
    (next_period_charged_once past 1).2.2 monthEnd (by decide +kernel)⟩

end Kindred.Billing
