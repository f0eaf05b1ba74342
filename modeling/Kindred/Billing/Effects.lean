import Kindred.Billing.Cards

namespace Kindred.Billing
open Lib (Table)
open Lib.Tx

/-! The book of a workspace, as the tables have it. -/

def Account.next (a : Account) : NextPeriod := ⟨a.nextPeriodPrepaidMinor, a.nextPeriodStart⟩

def Account.money (a : Account) : Money := ⟨a.currency, a.balanceMinor, a.next⟩

def Db.period (db : Db) (workspaceId : Id) : Option Timestamp :=
  (db.paidSubscription workspaceId).map (·.currentPeriodEnd)

def Db.book (db : Db) (workspaceId : Id) : Book where
  account := (db.accounts.get workspaceId).map Account.money
  rows := db.ledger.rows.filter fun e => e.2.workspaceId = workspaceId
  consumed := db.planChangeLog.filter fun c => c.workspaceId = workspaceId ∧ c.prepaidMinor.isSome
  period := db.period workspaceId

variable {α : Type} {f : Account → Option Account} {r : LedgerRow × Db} {key : Key}
  {row : LedgerRow} {acc a a' : Account} {amount : Int} {db' : Db} {ws' : Id}

section Statements
variable {db : Db} {ws : Id}

/-- After a `uuid` was made. -/
def Db.drawn (db : Db) : Db := { db with nextId := db.nextId + 1 }

theorem randomUuid_bind (f : Id → BillingTx α) : (randomUuid >>= f) db = f db.nextId db.drawn := rfl

theorem readAccount_ok {r : Account × Db} :
    readAccount ws db = .ok r ↔ db.accounts.get ws = some r.1 ∧ r.2 = db := by
  unfold readAccount
  rw [get_bind]
  cases h : db.accounts.get ws with
  | none => simpa using throw_ok
  | some acc =>
    refine pure_ok.trans ⟨fun hr => by rw [hr]; exact ⟨rfl, rfl⟩, fun hr => ?_⟩
    obtain ⟨ha, hd⟩ := hr
    cases ha
    exact Prod.ext rfl hd

theorem readAccount_bind_ok {f : Account → BillingTx α} {r : α × Db} :
    (readAccount ws >>= f) db = .ok r ↔ ∃ acc, db.accounts.get ws = some acc ∧ f acc db = .ok r := by
  rw [bind_ok]
  constructor
  · rintro ⟨acc, t, h, hf⟩
    obtain ⟨hacc, ht⟩ := readAccount_ok.mp h
    subst ht
    exact ⟨acc, hacc, hf⟩
  · rintro ⟨acc, hacc, hf⟩
    exact ⟨acc, db, readAccount_ok.mpr ⟨hacc, rfl⟩, hf⟩

theorem updateAccount_ok {r : Unit × Db} (h : updateAccount ws f db = .ok r) :
    db.accounts.get ws = none ∧ r.2 = db ∨
      ∃ acc acc', db.accounts.get ws = some acc ∧ f acc = some acc' ∧
        r.2 = { db with accounts := db.accounts.put ws acc' } := by
  unfold updateAccount at h
  rw [get_bind] at h
  cases hacc : db.accounts.get ws with
  | none =>
    simp only [hacc] at h
    rw [pure_ok.mp h]
    exact .inl ⟨rfl, rfl⟩
  | some acc =>
    simp only [hacc] at h
    cases hf : f acc with
    | none =>
      simp only [hf] at h
      exact (throw_ok.mp h).elim
    | some acc' =>
      simp only [hf] at h
      cases set_ok.mp h
      exact .inr ⟨acc, acc', rfl, hf, rfl⟩

theorem insertLedger_ok {row : Id → LedgerRow} (h : insertLedger key row db = .ok r) :
    db.ledger.get key = none ∧ r.1 = row db.nextId ∧
      r.2 = { db with nextId := db.nextId + 1, ledger := db.ledger.put key (row db.nextId) } := by
  unfold insertLedger at h
  rw [randomUuid_bind, get_bind] at h
  obtain ⟨-, h⟩ := require_bind_ok.mp h
  obtain ⟨hnew, h⟩ := require_bind_ok.mp h
  rw [set_bind] at h
  cases pure_ok.mp h
  exact ⟨hnew, rfl, rfl⟩

def Db.posted (db : Db) (ws : Id) (key : Key) (row : LedgerRow) (acc : Account) : Db :=
  { db with
    nextId := db.nextId + 1, ledger := db.ledger.put key row, accounts := db.accounts.put ws acc }

@[simp] theorem drawn_nextId : db.drawn.nextId = db.nextId + 1 := rfl

@[simp] theorem posted_nextId : (db.posted ws key row acc).nextId = db.nextId + 1 := rfl

theorem post_ok {row : Id → LedgerRow} {r' : Unit × Db} (hacc : db.accounts.get ws = some acc)
    (h : insertLedger key row db = .ok r) (h' : updateAccount ws f r.2 = .ok r') :
    ∃ acc', db.ledger.get key = none ∧ f acc = some acc' ∧ r.1 = row db.nextId ∧
      r'.2 = db.posted ws key r.1 acc' := by
  obtain ⟨hnew, hrow, hdb⟩ := insertLedger_ok h
  rw [hdb] at h'
  rcases updateAccount_ok h' with ⟨hnone, -⟩ | ⟨a, acc', ha, hf, hdb'⟩
  · rw [hacc] at hnone
    cases hnone
  · cases hacc.symm.trans ha
    exact ⟨acc', hnew, hf, hrow, by rw [hdb', hrow]; rfl⟩

theorem withBalance_ok {balance : Int} (h : a.withBalance balance = some a') :
    a'.money = { a.money with balance } ∧ 0 ≤ balance := by
  unfold Account.withBalance at h
  split at h
  · rename_i hb
    cases h
    exact ⟨rfl, hb⟩
  · cases h

theorem withPrepaid_ok {prepaid : Option Int} {start : Option Timestamp}
    (h : a.withPrepaid prepaid start = some a') :
    a'.money = { a.money with next := ⟨prepaid, start⟩ } := by
  unfold Account.withPrepaid at h
  split at h
  · cases h
    rfl
  · cases h

@[simp] theorem withoutPrepaid_money (a : Account) :
    a.withoutPrepaid.money = { a.money with next := .none } := rfl

@[simp] theorem withSchedule_money (a : Account) (planId : Option Id) (interval : Option Interval) :
    (a.withSchedule planId interval).money = a.money := rfl

@[simp] theorem clearNext_money (a : Account) : a.clearNext.money = { a.money with next := .none } :=
  rfl

end Statements

def debitRow (now : Timestamp) (ws : Id) (amount : Int) (charge : Charge) (acc : Account) (id : Id) :
    LedgerRow where
  id := id
  workspaceId := ws
  kind := charge.kind
  amountMinor := -amount
  balanceAfter := acc.balanceMinor - amount
  currency := acc.currency
  planId := charge.planId
  billingInterval := charge.billingInterval
  periodStart := charge.periodStart
  periodEnd := charge.periodEnd
  description := charge.description
  actorId := charge.actorId
  createdAt := now

section Money
variable {now : Timestamp} {db : Db} {ws : Id}

theorem debit_ok {charge : Charge} (h : debit now ws amount charge key db = .ok r) :
    db.ledger.get key = some r.1 ∧ r.1.workspaceId = ws ∧ r.1.kind = charge.kind ∧
        r.1.amountMinor = -amount ∧ r.2 = db ∨
      ∃ acc acc', db.ledger.get key = none ∧ 0 < amount ∧ db.accounts.get ws = some acc ∧
        amount ≤ acc.balanceMinor ∧ acc.withBalance (acc.balanceMinor - amount) = some acc' ∧
        r.1 = debitRow now ws amount charge acc db.nextId ∧ r.2 = db.posted ws key r.1 acc' := by
  unfold debit at h
  rw [get_bind] at h
  cases hkey : db.ledger.get key with
  | some row =>
    simp only [hkey] at h
    obtain ⟨⟨hws, hkind, hamount⟩, h⟩ := require_bind_ok.mp h
    cases pure_ok.mp h
    exact .inl ⟨rfl, hws, hkind, hamount, rfl⟩
  | none =>
    simp only [hkey] at h
    obtain ⟨hpos, h⟩ := require_bind_ok.mp h
    obtain ⟨acc, hacc, h⟩ := readAccount_bind_ok.mp h
    obtain ⟨henough, h⟩ := require_bind_ok.mp h
    obtain ⟨row, _, hrow, h⟩ := bind_ok.mp h
    obtain ⟨_, _, hup, h⟩ := bind_ok.mp h
    cases pure_ok.mp h
    obtain ⟨acc', hnew, hf, hid, hdb⟩ := post_ok hacc hrow hup
    exact .inr ⟨acc, acc', rfl, hpos, hacc, henough, hf, hid, hdb⟩

def returnRow (now : Timestamp) (ws : Id) (amount : Int) (actor : Option Id) (db : Db)
    (acc : Account) (id : Id) : LedgerRow where
  id := id
  workspaceId := ws
  kind := .prepaidReturn
  amountMinor := amount
  balanceAfter := acc.balanceMinor + amount
  currency := acc.currency
  planId := (db.prepaidPlan acc ws).1
  billingInterval := (db.prepaidPlan acc ws).2
  periodStart := acc.nextPeriodStart
  periodEnd := acc.nextPeriodStart.map fun start =>
    periodEnd start ((db.prepaidPlan acc ws).2.getD .monthly)
  actorId := actor
  createdAt := now

theorem creditBack_ok {actor : Option Id} {r : Unit × Db}
    (h : creditBack now ws amount actor key db = .ok r) :
    (∃ row, db.ledger.get key = some row ∧ row.kind = .prepaidReturn ∧ r.2 = db) ∨
      amount ≤ 0 ∧ r.2 = db ∨
      ∃ acc acc', db.ledger.get key = none ∧ 0 < amount ∧ db.accounts.get ws = some acc ∧
        acc.withBalance (acc.balanceMinor + amount) = some acc' ∧
        r.2 = db.posted ws key (returnRow now ws amount actor db acc db.nextId) acc' := by
  unfold creditBack at h
  rw [get_bind] at h
  cases hkey : db.ledger.get key with
  | some row =>
    simp only [hkey] at h
    obtain ⟨hsame, hr⟩ := require_ok.mp h
    exact .inl ⟨row, rfl, hsame.2.1, by rw [hr]⟩
  | none =>
    simp only [hkey] at h
    rcases ite_ok.mp h with ⟨hpos, h⟩ | ⟨hpos, h⟩
    · obtain ⟨acc, hacc, h⟩ := readAccount_bind_ok.mp h
      obtain ⟨row, _, hrow, hup⟩ := bind_ok.mp h
      obtain ⟨acc', hnew, hf, hid, hdb⟩ := post_ok hacc hrow hup
      exact .inr (.inr ⟨acc, acc', rfl, hpos, hacc, hf, by rw [hdb, hid]; rfl⟩)
    · cases pure_ok.mp h
      exact .inr (.inl ⟨not_lt.mp hpos, rfl⟩)

end Money

/-- The `uuid` just made that a key ends in. -/
def Key.uuid : Key → Option Id
  | renewal _ _ uuid => uuid
  | renewalReprice _ _ _ uuid => uuid
  | renewalChange _ uuid => uuid
  | prepaidReturn _ _ uuid => uuid
  | _ => none

/-- Only a pack's reversal, whose caller names its key, can have a key still to
be made; a prepayment that a refund returned has the refund's row beside it. -/
structure KeysSound (db : Db) : Prop where
  fresh : ∀ key row, db.ledger.get key = some row →
    row.kind ≠ .aiPackReturn → ∀ u ∈ key.uuid, u < db.nextId
  refund : ∀ key row, db.ledger.get (.prepaidReturnRefund key) = some row →
    row.kind = .prepaidReturn → (db.ledger.get (.refund key)).isSome

theorem keysSound_empty : KeysSound .empty :=
  ⟨fun _ _ h => by simp [Db.empty] at h, fun _ _ h => by simp [Db.empty] at h⟩

section Keys
variable {db : Db}

theorem KeysSound.frame (h : KeysSound db) (hledger : db'.ledger = db.ledger)
    (hid : db.nextId ≤ db'.nextId) : KeysSound db' := by
  refine ⟨fun key row hget hkind u hu => ?_, fun key row hget => ?_⟩
  · rw [hledger] at hget
    exact lt_of_lt_of_le (h.fresh key row hget hkind u hu) hid
  · rw [hledger] at hget ⊢
    exact h.refund key row hget

theorem KeysSound.posted (h : KeysSound db) (hledger : db'.ledger = db.ledger.put key row)
    (hid : db.nextId ≤ db'.nextId)
    (hkey : row.kind ≠ .aiPackReturn → ∀ u ∈ key.uuid, u < db'.nextId)
    (hrefund : row.kind = .prepaidReturn → ∀ k, key ≠ .prepaidReturnRefund k) : KeysSound db' := by
  refine ⟨fun k x hget hkind u hu => ?_, fun k x hget hkind => ?_⟩
  · rw [hledger, Table.get_put] at hget
    split at hget
    · rename_i hk
      cases hget
      rw [hk] at hu
      exact hkey hkind u hu
    · exact lt_of_lt_of_le (h.fresh k x hget hkind u hu) hid
  · rw [hledger, Table.get_put] at hget ⊢
    split at hget
    · rename_i hk
      cases hget
      exact (hrefund hkind k hk.symm).elim
    · have := h.refund k x hget hkind
      split
      · rfl
      · exact this

theorem KeysSound.absent (h : KeysSound db) (hget : db.ledger.get key = some row)
    (hkind : row.kind ≠ .aiPackReturn) : key.uuid ≠ some db.nextId := by
  intro hu
  exact lt_irrefl _ (h.fresh key row hget hkind _ hu)

end Keys

structure Does (ws : Id) (now : Timestamp) (reprices : Prop) (db db' : Db) : Prop where
  keys : KeysSound db'
  moves : Moves ws now reprices (db.book ws) (db'.book ws)
  others : ∀ ws' ≠ ws, db'.book ws' = db.book ws'

section Does
variable {ws : Id} {now : Timestamp} {reprices : Prop} {db db' db'' : Db} {acc acc' : Account}
  {rows : List Entry} {logs : List PlanChange}

theorem Does.refl (hkeys : KeysSound db) : Does ws now reprices db db :=
  ⟨hkeys, .refl, fun _ _ => rfl⟩

theorem Does.trans (h : Does ws now reprices db db') (h' : Does ws now reprices db' db'') :
    Does ws now reprices db db'' :=
  ⟨h'.keys, h.moves.trans h'.moves, fun ws' hne => (h'.others ws' hne).trans (h.others ws' hne)⟩

theorem Does.same (hkeys : KeysSound db') (hbook : ∀ ws', db'.book ws' = db.book ws') :
    Does ws now reprices db db' :=
  ⟨hkeys, by rw [hbook]; exact .refl, fun ws' _ => hbook ws'⟩

theorem period_eq (hsubs : db'.subscriptions = db.subscriptions) (hplans : db'.plans = db.plans)
    : db'.period ws' = db.period ws' := by
  have : db'.asPaid = db.asPaid := by
    funext s
    simp only [Db.asPaid, hplans]
  simp only [Db.period, Db.paidSubscription, hsubs, this]

theorem book_eq (haccounts : db'.accounts = db.accounts) (hledger : db'.ledger = db.ledger)
    (hlog : db'.planChangeLog = db.planChangeLog) (hsubs : db'.subscriptions = db.subscriptions)
    (hplans : db'.plans = db.plans) : db'.book ws' = db.book ws' := by
  simp only [Db.book, haccounts, hledger, hlog, period_eq hsubs hplans]

theorem Does.frame (hkeys : KeysSound db) (hid : db.nextId ≤ db'.nextId)
    (haccounts : db'.accounts = db.accounts) (hledger : db'.ledger = db.ledger)
    (hlog : db'.planChangeLog = db.planChangeLog) (hsubs : db'.subscriptions = db.subscriptions)
    (hplans : db'.plans = db.plans) : Does ws now reprices db db' :=
  .same (hkeys.frame hledger hid) fun _ => book_eq haccounts hledger hlog hsubs hplans

theorem book_put (hacc : db.accounts.get ws = some acc) (hmoney : acc'.money = acc.money)
    (ws' : Id) : Db.book { db with accounts := db.accounts.put ws acc' } ws' = db.book ws' := by
  simp only [Db.book, Db.period, Table.get_put]
  by_cases h : ws' = ws
  · simp [h, hacc, hmoney]
    rfl
  · simp [h]
    rfl

theorem Does.account (hkeys : KeysSound db) (hacc : db.accounts.get ws = some acc)
    (hmoney : acc'.money = acc.money) :
    Does ws now reprices db { db with accounts := db.accounts.put ws acc' } :=
  .same (hkeys.frame rfl le_rfl) (book_put hacc hmoney)

theorem put_rows_new {κ : Type} [DecidableEq κ] {t : Table κ α} {k : κ} {v : α} (h : t.get k = none)
    : (t.put k v).rows = t.rows ++ [(k, v)] := by
  have hk := Table.get_eq_none_iff.mp h
  simp [Table.put, hk]

structure Wrote (ws : Id) (acc acc' : Account) (rows : List Entry) (logs : List PlanChange)
    (db db' : Db) : Prop where
  before : db.accounts.get ws = some acc
  after : db'.accounts.get ws = some acc'
  accounts : ∀ ws' ≠ ws, db'.accounts.get ws' = db.accounts.get ws'
  ledger : db'.ledger.rows = db.ledger.rows ++ rows
  rows_ws : ∀ e ∈ rows, e.2.workspaceId = ws
  log : db'.planChangeLog = db.planChangeLog ++ logs
  logs_ws : ∀ c ∈ logs, c.workspaceId = ws
  periods : ∀ ws' ≠ ws, db'.period ws' = db.period ws'

theorem Wrote.trans {a'' : Account} {rows' : List Entry} {logs' : List PlanChange}
    (h : Wrote ws a a' rows logs db db') (h' : Wrote ws a' a'' rows' logs' db' db'') :
    Wrote ws a a'' (rows ++ rows') (logs ++ logs') db db'' where
  before := h.before
  after := h'.after
  accounts ws' hne := (h'.accounts ws' hne).trans (h.accounts ws' hne)
  ledger := by rw [h'.ledger, h.ledger, List.append_assoc]
  rows_ws e he := (List.mem_append.mp he).elim (h.rows_ws e) (h'.rows_ws e)
  log := by rw [h'.log, h.log, List.append_assoc]
  logs_ws c hc := (List.mem_append.mp hc).elim (h.logs_ws c) (h'.logs_ws c)
  periods ws' hne := (h'.periods ws' hne).trans (h.periods ws' hne)

theorem put_wrote (acc' : Account) (hacc : db.accounts.get ws = some acc) :
    Wrote ws acc acc' [] [] db { db with accounts := db.accounts.put ws acc' } where
  before := hacc
  after := Table.get_put_self _ _ _
  accounts _ hne := Table.get_put_ne _ _ hne
  ledger := (List.append_nil _).symm
  rows_ws := by simp
  log := (List.append_nil _).symm
  logs_ws := by simp
  periods _ _ := rfl

theorem uuid_wrote (hacc : db.accounts.get ws = some acc) : Wrote ws acc acc [] [] db db.drawn where
  before := hacc
  after := hacc
  accounts _ _ := rfl
  ledger := (List.append_nil _).symm
  rows_ws := by simp
  log := (List.append_nil _).symm
  logs_ws := by simp
  periods _ _ := rfl

theorem posted_wrote (acc' : Account) (hacc : db.accounts.get ws = some acc)
    (hnew : db.ledger.get key = none) (hws : row.workspaceId = ws) :
    Wrote ws acc acc' [(key, row)] [] db (db.posted ws key row acc') where
  before := hacc
  after := Table.get_put_self _ _ _
  accounts _ hne := Table.get_put_ne _ _ hne
  ledger := put_rows_new hnew
  rows_ws := by simpa using hws
  log := (List.append_nil _).symm
  logs_ws := by simp
  periods _ _ := rfl

theorem Wrote.moves (h : Wrote ws acc acc' rows logs db db') (hkeys : KeysSound db')
    (hmoves : ∀ old used, Moves ws now reprices ⟨some acc.money, old, used, db.period ws⟩
      ⟨some acc'.money, old ++ rows, used ++ logs.filter fun c => c.prepaidMinor.isSome,
        db'.period ws⟩) : Does ws now reprices db db' := by
  refine ⟨hkeys, ?_, fun ws' hne => ?_⟩
  · have hbook : db'.book ws = ⟨some acc'.money, (db.book ws).rows ++ rows,
        (db.book ws).consumed ++ logs.filter fun c => c.prepaidMinor.isSome, db'.period ws⟩ := by
      have h₁ : (rows.filter fun e => e.2.workspaceId = ws) = rows :=
        List.filter_eq_self.mpr fun e he => by simpa using h.rows_ws e he
      have h₂ : (logs.filter fun c => c.workspaceId = ws ∧ c.prepaidMinor.isSome) =
          logs.filter fun c => c.prepaidMinor.isSome :=
        List.filter_congr fun c hc => by simp [h.logs_ws c hc]
      simp only [Db.book, h.after, h.ledger, h.log, List.filter_append, h₁, h₂, Option.map_some]
    have hbefore : db.book ws =
        ⟨some acc.money, (db.book ws).rows, (db.book ws).consumed, db.period ws⟩ := by
      simp [Db.book, h.before]
    rw [hbook]
    nth_rewrite 1 [hbefore]
    exact hmoves _ _
  · have h₁ : (rows.filter fun e => e.2.workspaceId = ws') = [] :=
      List.filter_eq_nil_iff.mpr fun e he => by simpa [h.rows_ws e he] using Ne.symm hne
    have h₂ : (logs.filter fun c => c.workspaceId = ws' ∧ c.prepaidMinor.isSome) = [] :=
      List.filter_eq_nil_iff.mpr fun c hc hws => by
        simp only [decide_eq_true_eq] at hws
        exact hne (hws.1.symm.trans (h.logs_ws c hc))
    simp only [Db.book, h.accounts ws' hne, h.ledger, h.log, List.filter_append, h₁, h₂,
      List.append_nil, h.periods ws' hne]

theorem Wrote.does (h : Wrote ws acc acc' rows logs db db') (hkeys : KeysSound db')
    (hbooks : acc.money.Books rows acc'.money)
    (hevent : Event ws now reprices (db.period ws) acc.next rows
      (logs.filter fun c => c.prepaidMinor.isSome) (db'.period ws) acc'.next) :
    Does ws now reprices db db' :=
  h.moves hkeys fun _ _ => .single (.wrote rfl hbooks hevent)

end Does

section Calls
variable {now : Timestamp} {ws planId : Id} {actor : Option Id} {db : Db}

theorem renew_ok {expectedEnd : Option Timestamp} {expectedPrice override : Option Int}
    {r : PlanResult × Db} (h : renew now ws actor expectedEnd expectedPrice override db = .ok r) :
    ∃ a p acc sub price, lock ws db = .ok a ∧ releaseStalePrepaid now ws a.2 = .ok p ∧
      p.2.accounts.get ws = some acc ∧ p.2.paidSubscription ws = some sub ∧
      acc.nextPeriodPrepaidMinor = none ∧ payRenewal now ws actor acc sub price p.2 = .ok r := by
  obtain ⟨a, db₁, hlock, h⟩ := bind_ok.mp h
  obtain ⟨p, db₂, hrelease, h⟩ := bind_ok.mp h
  obtain ⟨acc, hacc, h⟩ := readAccount_bind_ok.mp h
  rw [get_bind] at h
  cases hsub : db₂.paidSubscription ws with
  | none =>
    simp only [hsub] at h
    exact (throw_ok.mp h).elim
  | some sub =>
    simp only [hsub] at h
    obtain ⟨-, h⟩ := require_bind_ok.mp h
    obtain ⟨hnone, h⟩ := require_bind_ok.mp h
    obtain ⟨-, h⟩ := require_bind_ok.mp h
    generalize Option.or override _ = price at h
    cases price with
    | none => exact (throw_ok.mp h).elim
    | some price =>
      obtain ⟨-, h⟩ := require_bind_ok.mp h
      obtain ⟨-, h⟩ := require_bind_ok.mp h
      exact ⟨(a, db₁), (p, db₂), acc, sub, price, hlock, hrelease, hacc, hsub, hnone, h⟩

/-- The plan is there already, or it is sold and quoted. -/
theorem upgrade_ok {r : PlanResult × Db} (h : upgrade now ws planId actor db = .ok r) :
    ∃ a p acc sub, lock ws db = .ok a ∧ releaseStalePrepaid now ws a.2 = .ok p ∧
      p.2.accounts.get ws = some acc ∧ p.2.paidSubscription ws = some sub ∧
      now < sub.currentPeriodEnd ∧
      (sub.planId = planId ∧ r.1.replayed = true ∧ r.2 = p.2 ∨ sub.planId ≠ planId ∧ ∃ cost,
        p.2.upgradeCost now ws planId = some (.yes cost) ∧
          applyUpgrade now ws planId actor acc sub cost p.2 = .ok r) := by
  obtain ⟨a, db₁, hlock, h⟩ := bind_ok.mp h
  obtain ⟨p, db₂, hrelease, h⟩ := bind_ok.mp h
  obtain ⟨acc, hacc, h⟩ := readAccount_bind_ok.mp h
  rw [get_bind] at h
  cases hsub : db₂.paidSubscription ws with
  | none =>
    simp only [hsub] at h
    exact (throw_ok.mp h).elim
  | some sub =>
    simp only [hsub] at h
    obtain ⟨hnow, h⟩ := require_bind_ok.mp h
    refine ⟨(a, db₁), (p, db₂), acc, sub, hlock, hrelease, hacc, hsub, hnow, ?_⟩
    rcases ite_ok.mp h with ⟨hsame, h⟩ | ⟨hother, h⟩
    · rw [pure_ok.mp h]
      exact .inl ⟨hsame, rfl, rfl⟩
    · obtain ⟨-, h⟩ := require_bind_ok.mp h
      match hquote : db₂.upgradeCost now ws planId with
      | none =>
        simp only [hquote] at h
        exact (throw_ok.mp h).elim
      | some (.no _ _) =>
        simp only [hquote] at h
        exact (throw_ok.mp h).elim
      | some (.yes cost) =>
        simp only [hquote] at h
        exact .inr ⟨hother, cost, rfl, h⟩

/-- The key is taken by a pack of the workspace, or a pack is paid under it. -/
theorem buyAiPack_ok {packId : Option String} {expected : Option Int} {key : String}
    {r : PackResult × Db} (h : buyAiPack now ws packId expected key actor db = .ok r) :
    ∃ a, lock ws db = .ok a ∧
      ((∃ row, a.2.ledger.get (.aiPack key) = some row ∧ row.workspaceId = ws ∧
          row.kind = .aiPack ∧ r.1.packLedgerId = row.id ∧ r.2 = a.2) ∨
        a.2.ledger.get (.aiPack key) = none ∧ ∃ pack price credit wallet,
          payPack now ws pack price credit wallet key actor a.2 = .ok r) := by
  obtain ⟨-, h⟩ := require_bind_ok.mp h
  obtain ⟨acc, db₁, hlock, h⟩ := bind_ok.mp h
  refine ⟨(acc, db₁), hlock, ?_⟩
  rw [get_bind] at h
  cases hrow : db₁.ledger.get (.aiPack key) with
  | some row =>
    simp only [hrow] at h
    obtain ⟨⟨hws, hkind⟩, h⟩ := require_bind_ok.mp h
    rw [pure_ok.mp h]
    exact .inl ⟨row, rfl, hws, hkind, rfl, rfl⟩
  | none =>
    simp only [hrow] at h
    cases hpack : db₁.settings.packFind acc.currency packId with
    | none =>
      simp only [hpack] at h
      exact (throw_ok.mp h).elim
    | some pack =>
      simp only [hpack] at h
      obtain ⟨-, h⟩ := require_bind_ok.mp h
      cases hrate : db₁.settings.walletRate acc.currency with
      | none =>
        simp only [hrate] at h
        exact (throw_ok.mp h).elim
      | some rate =>
        simp only [hrate] at h
        obtain ⟨-, h⟩ := require_bind_ok.mp h
        obtain ⟨-, h⟩ := require_bind_ok.mp h
        exact .inr ⟨rfl, _, _, _, _, h⟩

end Calls

end Kindred.Billing
