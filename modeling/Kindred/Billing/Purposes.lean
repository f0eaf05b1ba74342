import Kindred.Billing.Statements
import Mathlib.Algebra.Order.Group.Multiset

/-! What the money of a payment buys, and what is left when its purpose fails. -/

namespace Kindred.Billing
open Lib (Table)
open Lib.Tx
open Relation (ReflTransGen)

variable {now : Timestamp} {ws : Id} {db db' db'' : Db} {start : Option Timestamp}
  {actor : Option Id} {planId : Id} {stop : Timestamp} {interval : Option Interval}
  {status : SubscriptionStatus} {changeType : ChangeType} {details : ChangeDetails}
  {sub : PaidSubscription}

inductive Good where
  | plan | renewal | upgrade | pack

/-- What a row of the key charges for. A scheduled change is no purpose. -/
def Key.charges : Key → Option Good
  | plan _ => some .plan
  | renewal _ _ _ => some .renewal
  | upgrade _ _ _ => some .upgrade
  | renewalReprice _ _ _ _ => some .upgrade
  | aiPack _ => some .pack
  | _ => none

def Key.buys : Key → Option Good
  | plan _ => some .plan
  | renewal _ _ _ => some .renewal
  | aiPack _ => some .pack
  | _ => none

def ChangeType.buys : ChangeType → Option Good
  | upgrade => some .upgrade
  | _ => none

def boughtIn (rows : List (Key × LedgerRow)) : Multiset Good := rows.filterMap fun r => r.1.buys

def boughtBy (log : List PlanChange) : Multiset Good := log.filterMap fun c => c.changeType.buys

def Db.bought (db : Db) : Multiset Good := boughtIn db.ledger.rows + boughtBy db.planChangeLog

theorem boughtIn_append (rows rows' : List (Key × LedgerRow)) :
    boughtIn (rows ++ rows') = boughtIn rows + boughtIn rows' := by
  unfold boughtIn
  rw [List.filterMap_append]
  rfl

theorem boughtBy_append (log log' : List PlanChange) :
    boughtBy (log ++ log') = boughtBy log + boughtBy log' := by
  unfold boughtBy
  rw [List.filterMap_append]
  rfl

/-- The call buys `goods`, charges for what it `may`, and besides only returns
money. -/
structure Spends (may : Good → Prop) (goods : Multiset Good) (db db' : Db) : Prop where
  bought : db'.bought = db.bought + goods
  kept : db.ledger.rows <+: db'.ledger.rows
  charged : ∀ r ∈ db'.ledger.rows, r ∈ db.ledger.rows ∨
    (r.1.charges = none ∧ 0 < r.2.amountMinor) ∨ ∃ g, r.1.charges = some g ∧ may g

abbrev Quiet : Db → Db → Prop := Spends (fun _ => False) 0

/-- One `good` is bought, and nothing else is charged for. -/
abbrev Buys (good : Good) : Db → Db → Prop := Spends (· = good) {good}

variable {key : Key} {α : Type} {acc : Account}

section Spends
variable {may : Good → Prop} {goods goods' : Multiset Good}

theorem Spends.trans (h : Spends may goods db db') (h' : Spends may goods' db' db'') :
    Spends may (goods + goods') db db'' where
  bought := by rw [h'.bought, h.bought, add_assoc]
  kept := h.kept.trans h'.kept
  charged r hr := by
    rcases h'.charged r hr with hr | hnew
    · exact h.charged r hr
    · exact .inr hnew

theorem Spends.mono {may' : Good → Prop} (h : Spends may goods db db') (hmay : ∀ g, may g → may' g) :
    Spends may' goods db db' where
  bought := h.bought
  kept := h.kept
  charged r hr := by
    rcases h.charged r hr with hr | hback | ⟨g, hg, hm⟩
    · exact .inl hr
    · exact .inr (.inl hback)
    · exact .inr (.inr ⟨g, hg, hmay g hm⟩)

theorem Quiet.then (h : Quiet db db') (h' : Spends may goods db' db'') :
    Spends may goods db db'' := by
  simpa using (h.mono nofun).trans h'

theorem Spends.quiet (h : Spends may goods db db') (h' : Quiet db' db'') :
    Spends may goods db db'' := by
  simpa using h.trans (h'.mono nofun)

theorem Quiet.same (hledger : db'.ledger = db.ledger) (hlog : db'.planChangeLog = db.planChangeLog) :
    Quiet db db' where
  bought := by rw [Db.bought, hledger, hlog, add_zero, Db.bought]
  kept := hledger ▸ List.prefix_refl _
  charged r hr := .inl (by rwa [← hledger])

theorem Quiet.of_made (h : ReflTransGen Quiet db db') : Quiet db db' := by
  induction h with
  | refl => exact .same rfl rfl
  | tail _ hstep ih => exact ih.then hstep

theorem Spends.posted {row : LedgerRow} (hnew : db.ledger.get key = none)
    (hledger : db'.ledger = db.ledger.put key row) (hlog : db'.planChangeLog = db.planChangeLog)
    (hcharge : (key.charges = none ∧ 0 < row.amountMinor) ∨ ∃ g, key.charges = some g ∧ may g) :
    Spends may (boughtIn [(key, row)]) db db' := by
  have hrows : db'.ledger.rows = db.ledger.rows ++ [(key, row)] := by
    rw [hledger]
    exact put_rows_new hnew
  refine ⟨?_, ?_, fun r hr => ?_⟩
  · rw [Db.bought, Db.bought, hlog, hrows, boughtIn_append, add_right_comm]
  · rw [hrows]
    exact List.prefix_append _ _
  · rw [hrows] at hr
    rcases List.mem_append.mp hr with hr | hr
    · exact .inl hr
    · cases List.mem_singleton.mp hr
      exact .inr hcharge

theorem Quiet.absent (h : Quiet db db') (hkey : key.charges.isSome)
    (hnone : db.ledger.get key = none) : db'.ledger.get key = none := by
  cases hrow : db'.ledger.get key with
  | none => rfl
  | some row =>
    rcases h.charged _ (Table.get_eq_some_iff_mem.mp hrow) with hold | ⟨hcharges, -⟩ | ⟨_, -, hmay⟩
    · rw [Table.get_eq_some_iff_mem.mpr hold] at hnone
      cases hnone
    · rw [hcharges] at hkey
      cases hkey
    · exact hmay.elim

end Spends

abbrev QuietTx {α : Type} (m : BillingTx α) (db : Db) : Prop := MadeOf Quiet m db

theorem quiet_of {m : BillingTx α} {r : α × Db} (hm : QuietTx m db) (h : m db = .ok r) :
    Quiet db r.2 :=
  .of_made (hm r h)

theorem randomUuid_quiet : QuietTx randomUuid db := by
  intro r h
  cases h
  exact .single (.same rfl rfl)

theorem readAccount_quiet : QuietTx (readAccount ws) db := by
  intro r h
  rw [(readAccount_ok.mp h).2]

theorem updateAccount_quiet {f : Account → Option Account} : QuietTx (updateAccount ws f) db := by
  intro r h
  rcases updateAccount_ok h with ⟨-, hdb⟩ | ⟨_, _, -, -, hdb⟩
  · rw [hdb]
  · rw [hdb]
    exact .single (.same rfl rfl)

theorem ensure_quiet {currency : String} : QuietTx (ensure ws currency) db := by
  intro r h
  rcases ensure_ok h with ⟨hdb, -⟩ | ⟨-, hdb⟩
  · rw [hdb]
  · rw [hdb]
    exact .single (.same rfl rfl)

theorem lock_quiet : QuietTx (lock ws) db := by
  exact .get_bind (ensure_quiet.bind fun _ _ => readAccount_quiet)

theorem onWallet_quiet {m : AiWallet.WalletTx α} : QuietTx (onWallet m) db := by
  intro r h
  obtain ⟨_, -, hdb⟩ := onWallet_ok h
  rw [hdb]
  exact .single (.same rfl rfl)

theorem grantMonth_quiet {source : String} {amount : Option Int} :
    QuietTx (grantMonth now ws planId start stop source amount) db := by
  intro r h
  obtain ⟨_, hdb⟩ := grantMonth_ok h
  rw [hdb]
  exact .single (.same rfl rfl)

theorem creditBack_quiet {amount : Int} (hkey : key.charges = none) (hbuys : key.buys = none)
    : QuietTx (creditBack now ws amount actor key) db := by
  intro r h
  rcases creditBack_ok h with ⟨_, -, -, hdb⟩ | ⟨-, hdb⟩ | ⟨acc, acc', hnew, hpos, -, -, hdb⟩
  · rw [hdb]
  · rw [hdb]
  · refine .single ?_
    have hposted : Spends (fun _ => False) _ db r.2 := .posted hnew (by rw [hdb]; rfl)
      (by rw [hdb]; rfl) (.inl ⟨hkey, hpos⟩)
    simpa [boughtIn, hbuys] using hposted

theorem releaseStale_quiet : QuietTx (releaseStalePrepaid now ws) db := by
  refine .get_bind ?_
  split
  · exact .pure _
  · split
    · exact .pure _
    · refine .ite (fun _ => .pure _) fun _ => randomUuid_quiet.bind fun _ _ => ?_
      exact (creditBack_quiet rfl rfl).bind fun _ _ => updateAccount_quiet.bind fun _ _ => .pure _

theorem writeSubscription_spends {r : Unit × Db}
    (h : writeSubscription ws planId interval start stop status changeType actor details db = .ok r)
    : Spends (fun _ => False) (changeType.buys.elim 0 ({·})) db r.2 := by
  cases modify_ok.mp h
  refine ⟨?_, List.prefix_refl _, fun _ hr => .inl hr⟩
  rw [Db.bought, Db.bought, boughtBy_append, ← add_assoc]
  cases hbuys : changeType.buys <;> simp [boughtBy, hbuys]

theorem writeSubscription_quiet (hbuys : changeType.buys = none) :
    QuietTx (writeSubscription ws planId interval start stop status changeType actor details) db := by
  intro r h
  have hspends := writeSubscription_spends h
  rw [hbuys] at hspends
  exact .single hspends

theorem startPrepaid_quiet {prepaid : Int} : QuietTx (startPrepaid now ws acc sub prepaid) db := by
  have hchange : (renewalChange sub (acc.target sub)).buys = none := by
    unfold renewalChange
    split <;> rfl
  refine updateAccount_quiet.bind fun _ _ => (writeSubscription_quiet hchange).bind fun _ _ => ?_
  exact grantMonth_quiet.bind fun _ _ => .pure _

theorem cardSetStatus_quiet {cardId : Id} {status : CardStatus} {reason : Option CancelReason} :
    QuietTx (cardSetStatus cardId status reason) db := by
  refine .get_bind ?_
  split
  · exact .throw _
  · refine .ite (fun _ => .pure _) fun _ => .require_bind fun _ => .require_bind fun _ => ?_
    refine .set_bind (.single (.same rfl rfl)) (.ite (fun _ => ?_) fun _ => .pure _)
    exact updateAccount_quiet.bind fun _ _ => .pure _

theorem expire_quiet {card : Option (Id × Card)} {reason : DueReason} :
    QuietTx (expire now ws acc sub card reason) db := by
  have hstop : ∀ {db : Db}, QuietTx (stopCard reason card) db := fun {_} => by
    cases card with
    | none => exact .pure _
    | some card => exact cardSetStatus_quiet.bind fun _ _ => .pure _
  have hreturn : ∀ {db : Db}, QuietTx (returnAtDue now ws acc.nextPeriodPrepaidMinor) db :=
    fun {_} => by
      cases acc.nextPeriodPrepaidMinor with
      | none => exact .pure _
      | some prepaid => exact randomUuid_quiet.bind fun _ _ => creditBack_quiet rfl rfl
  refine hstop.bind fun _ _ => hreturn.bind fun _ _ => updateAccount_quiet.bind fun _ _ => ?_
  exact (writeSubscription_quiet rfl).bind fun _ _ => .pure _

end Kindred.Billing
