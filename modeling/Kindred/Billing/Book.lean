import Kindred.Billing.Schema
import Kindred.Lib.Totals

/-!
What the billing functions do to the money of one workspace, without their
bookkeeping: the account, the rows written for it, the prepayments used up, and
the end of the paid period that runs.
-/

namespace Kindred.Billing
open Lib (total total_nil total_cons total_append)
open Lib.Calendar (day second)

/-- `to_char(t, 'YYYYMMDD"T"HH24MISS')` drops what is below the second. -/
def stamp (t : Timestamp) : Int := t / second

abbrev Entry := Key × LedgerRow

structure NextPeriod where
  prepaid : Option Int
  start : Option Timestamp

def NextPeriod.none : NextPeriod := ⟨.none, .none⟩

structure Money where
  currency : String
  balance : Int
  next : NextPeriod

structure Book where
  account : Option Money
  rows : List Entry
  consumed : List PlanChange
  period : Option Timestamp

structure Money.Books (m : Money) (rows : List Entry) (m' : Money) : Prop where
  currency : m'.currency = m.currency
  balance : m'.balance = m.balance + (rows.map fun e => e.2.amountMinor).sum
  row : rows = [] ∨ ∃ e, rows = [e] ∧ e.2.balanceAfter = m'.balance ∧ e.2.currency = m.currency

/-- The period after one that ended at `e` is at least a month long. -/
def Later (e : Timestamp) (period : Option Timestamp) : Prop := ∀ e' ∈ period, e + 28 * day ≤ e'

def LedgerRow.isNext (row : LedgerRow) (kind : Kind) (amount : Int) (start : Option Timestamp)
    (now : Timestamp) : Prop :=
  row.kind = kind ∧ row.amountMinor = amount ∧ row.periodStart = start ∧ row.createdAt = now

/-- What can happen to the next period's money and to the period that runs.
`reprices` allows what only an upgrade, a change or an edit by others does. -/
inductive Event (workspaceId : Id) (now : Timestamp) (reprices : Prop) :
    Option Timestamp → NextPeriod → List Entry → List PlanChange → Option Timestamp → NextPeriod →
    Prop where
  | booked {period next key row} (hkind : row.kind ≠ .renewal) (hkind' : row.kind ≠ .prepaidReturn) :
    Event workspaceId now reprices period next [(key, row)] [] period next
  | cleared {period start} :
    Event workspaceId now reprices period ⟨none, start⟩ [] [] period .none
  | prepaid {e start price uuid row} (hnow : now < e) (hprice : 0 < price)
      (hrow : row.isNext .renewal (-price) (some e) now) :
    Event workspaceId now reprices (some e) ⟨none, start⟩
      [(.renewal workspaceId (stamp e) uuid, row)] [] (some e) ⟨some price, some e⟩
  | renewed {e start price uuid row s period} (hnow : e ≤ now) (hs : s ≤ now)
      (hrow : row.isNext .renewal price (some s) now) (hlater : Later e period) :
    Event workspaceId now reprices (some e) ⟨none, start⟩
      [(.renewal workspaceId (stamp e) uuid, row)] [] period .none
  | returned {period p start key row} (hp : 0 < p) (hrow : row.isNext .prepaidReturn p start now) :
    Event workspaceId now reprices period ⟨some p, start⟩ [(key, row)] [] period .none
  | forgotten {period p start} (hp : p = 0) :
    Event workspaceId now reprices period ⟨some p, start⟩ [] [] period .none
  | lowered {e p p' key row} (hr : reprices) (hnow : now < e) (hp : p' < p)
      (hrow : row.isNext .prepaidReturn (p - p') (some e) now) :
    Event workspaceId now reprices (some e) ⟨some p, some e⟩ [(key, row)] [] (some e)
      ⟨some p', some e⟩
  | raised {e p p' key row} (hr : reprices) (hnow : now < e)
      (hrow : row.isNext .renewal (-(p' - p)) (some e) now) :
    Event workspaceId now reprices (some e) ⟨some p, some e⟩ [(key, row)] [] (some e)
      ⟨some p', some e⟩
  | consumed {e p log period} (hnow : e ≤ now) (hlater : Later e period)
      (hprepaid : log.prepaidMinor = some p) (hstart : log.periodStart = some e) :
    Event workspaceId now reprices (some e) ⟨some p, some e⟩ [] [log] period .none
  | ended {e next} (hnow : e ≤ now) :
    Event workspaceId now reprices (some e) next [] [] none next
  | bought {period period' next} (hold : ∀ e ∈ period, e ≤ now) (hlater : Later now period') :
    Event workspaceId now reprices period next [] [] period' next

inductive Move (workspaceId : Id) (now : Timestamp) (reprices : Prop) : Book → Book → Prop where
  | opened {b : Book} (currency : String) (h : b.account = none) :
    Move workspaceId now reprices b { b with account := some ⟨currency, 0, .none⟩ }
  | recurrency {b : Book} {m : Money} (currency : String) (h : b.account = some m)
      (hzero : m.balance = 0) (hrows : b.rows = []) :
    Move workspaceId now reprices b { b with account := some { m with currency } }
  | wrote {b : Book} {m m' : Money} {rows : List Entry} {logs : List PlanChange}
      {period : Option Timestamp} (h : b.account = some m) (hbooks : m.Books rows m')
      (hevent : Event workspaceId now reprices b.period m.next rows logs period m'.next) :
    Move workspaceId now reprices b
      ⟨some m', b.rows ++ rows, b.consumed ++ logs, period⟩

  | edited {b : Book} (period : Option Timestamp) (hr : reprices) :
    Move workspaceId now reprices b { b with period }

def Moves (workspaceId : Id) (now : Timestamp) (reprices : Prop) : Book → Book → Prop :=
  Relation.ReflTransGen (Move workspaceId now reprices)

/-- `balance_after` of the row written last. -/
def lastBalance (rows : List Entry) : Int := (rows.getLast?.map (·.2.balanceAfter)).getD 0

structure Money.Backed (m : Money) (rows : List Entry) : Prop where
  sum : m.balance = (rows.map fun e => e.2.amountMinor).sum
  last : m.balance = lastBalance rows
  currency : ∀ e ∈ rows, e.2.currency = m.currency

structure Book.Balanced (b : Book) : Prop where
  empty : b.account = none → b.rows = []
  backed : ∀ m, b.account = some m → m.Backed b.rows

variable {rows : List Entry} {workspaceId : Id} {now : Timestamp} {reprices : Prop} {b b' : Book}

theorem Money.Backed.books {m m' : Money} {new : List Entry} (hm : m.Backed rows)
    (h : m.Books new m') : m'.Backed (rows ++ new) := by
  obtain ⟨hcurrency, hbalance, rfl | ⟨e, rfl, hafter, hrow⟩⟩ := h
  · simp only [List.map_nil, List.sum_nil, Int.add_zero] at hbalance
    rw [List.append_nil]
    exact ⟨hbalance.trans hm.sum, hbalance.trans hm.last, by rw [hcurrency]; exact hm.currency⟩
  · refine ⟨?_, ?_, fun e' he' => ?_⟩
    · have := hm.sum
      simp only [List.map_append, List.sum_append]
      omega
    · simp [lastBalance, hafter]
    · rw [hcurrency]
      rcases List.mem_append.mp he' with he' | he'
      · exact hm.currency e' he'
      · rw [List.mem_singleton.mp he']
        exact hrow

theorem Move.balanced (h : Move workspaceId now reprices b b') (hb : b.Balanced) : b'.Balanced := by
  cases h with
  | opened currency h =>
    refine ⟨by simp, fun m hm => ?_⟩
    cases hm
    simp only [hb.empty h]
    exact ⟨rfl, rfl, by simp⟩
  | recurrency currency h hzero hrows =>
    refine ⟨by simp, fun m' hm' => ?_⟩
    cases hm'
    simp only [hrows]
    exact ⟨hzero, hzero, by simp⟩
  | wrote h hbooks hevent =>
    refine ⟨by simp, fun m' hm' => ?_⟩
    cases hm'
    exact (hb.backed _ h).books hbooks
  | edited period hr => exact ⟨hb.empty, hb.backed⟩

theorem Moves.balanced (h : Moves workspaceId now reprices b b') (hb : b.Balanced) :
    b'.Balanced := by
  induction h with
  | refl => exact hb
  | tail _ hmove ih => exact hmove.balanced ih

def LedgerRow.paidAhead (row : LedgerRow) : Bool :=
  row.kind = .renewal ∧ row.periodStart.any (row.createdAt < ·)

variable (P : Option Timestamp → Bool) {period period' : Option Timestamp} {next next' : NextPeriod}
  {logs : List PlanChange} {e : Timestamp}

/-- Debited for next periods before they began, of the periods `P`. -/
def Book.debited (b : Book) : Int :=
  total (fun e : Entry => e.2.paidAhead ∧ P e.2.periodStart) (fun e => -e.2.amountMinor) b.rows

def Book.returned (b : Book) : Int :=
  total (fun e : Entry => e.2.kind = .prepaidReturn ∧ P e.2.periodStart)
    (fun e => e.2.amountMinor) b.rows

def Book.used (b : Book) : Int :=
  total (fun log : PlanChange => P log.periodStart) (fun log => log.prepaidMinor.getD 0) b.consumed

def NextPeriod.held (next : NextPeriod) : Int := if P next.start then next.prepaid.getD 0 else 0

def Book.held (b : Book) : Int := (b.account.map fun m => m.next.held P).getD 0

structure Book.Conserved (b : Book) : Prop where
  together : ∀ m, b.account = some m → (m.next.prepaid.isSome ↔ m.next.start.isSome)
  conserved : ∀ P, b.debited P = b.returned P + b.used P + b.held P

@[simp] theorem NextPeriod.held_none (start : Option Timestamp) :
    (NextPeriod.mk .none start).held P = 0 := by
  unfold held
  split <;> rfl

theorem Event.conserves (h : Event workspaceId now reprices period next rows logs period' next') :
    total (fun e : Entry => e.2.paidAhead ∧ P e.2.periodStart) (fun e => -e.2.amountMinor) rows +
        next.held P = total (fun e : Entry => e.2.kind = .prepaidReturn ∧ P e.2.periodStart)
          (fun e => e.2.amountMinor) rows +
        total (fun log : PlanChange => P log.periodStart) (fun log => log.prepaidMinor.getD 0) logs +
        next'.held P := by
  cases h with
  | booked hkind hkind' => simp [LedgerRow.paidAhead, hkind, hkind']
  | cleared => simp [NextPeriod.none]
  | prepaid hnow hprice hrow =>
    obtain ⟨hkind, hamount, hstart, hat⟩ := hrow
    simp [LedgerRow.paidAhead, hkind, hamount, hstart, hat, hnow]
    simp [NextPeriod.held]
  | renewed hnow hs hrow hlater =>
    obtain ⟨hkind, hamount, hstart, hat⟩ := hrow
    have hs' : ¬ now < _ := not_lt.mpr hs
    simp [LedgerRow.paidAhead, NextPeriod.none, hkind, hstart, hat, hs']
  | returned hp hrow =>
    obtain ⟨hkind, hamount, hstart, hat⟩ := hrow
    simp [LedgerRow.paidAhead, NextPeriod.none, hkind, hamount, hstart]
    simp [NextPeriod.held]
  | forgotten hp =>
    simp [NextPeriod.none]
    simp [NextPeriod.held, hp]
  | lowered hr hnow hp hrow =>
    obtain ⟨hkind, hamount, hstart, hat⟩ := hrow
    simp only [LedgerRow.paidAhead, NextPeriod.held, hkind, hamount, hstart, total_cons, total_nil]
    split <;> simp_all
  | @raised e p p' key row hr hnow hrow =>
    obtain ⟨hkind, hamount, hstart, hat⟩ := hrow
    have hahead : row.paidAhead := by simp [LedgerRow.paidAhead, hkind, hstart, hat, hnow]
    simp only [NextPeriod.held, hahead, hkind, hamount, hstart, total_cons, total_nil]
    cases P (some e) <;> simp
  | consumed hnow hlater hprepaid hstart =>
    simp [NextPeriod.none, hprepaid, hstart]
    simp [NextPeriod.held]
  | ended hnow => simp
  | bought hold hlater => simp

theorem Event.together (h : Event workspaceId now reprices period next rows logs period' next')
    (hnext : next.prepaid.isSome ↔ next.start.isSome) :
    next'.prepaid.isSome ↔ next'.start.isSome := by
  cases h <;> first | exact hnext | simp [NextPeriod.none]

theorem Move.conserved (h : Move workspaceId now reprices b b') (hb : b.Conserved) :
    b'.Conserved := by
  cases h with
  | opened currency h =>
    refine ⟨fun m hm => ?_, fun P => ?_⟩
    · cases hm
      simp [NextPeriod.none]
    · simpa [Book.debited, Book.returned, Book.used, Book.held, h, NextPeriod.none]
        using hb.conserved P
  | recurrency currency h hzero hrows =>
    refine ⟨fun m' hm' => ?_, fun P => ?_⟩
    · cases hm'
      have := hb.together _ h
      exact this
    · simpa [Book.debited, Book.returned, Book.used, Book.held, h] using hb.conserved P
  | wrote h hbooks hevent =>
    refine ⟨fun m' hm' => ?_, fun P => ?_⟩
    · cases hm'
      exact hevent.together (hb.together _ h)
    · have hold := hb.conserved P
      have hnew := hevent.conserves P
      simp only [Book.debited, Book.returned, Book.used, Book.held, h, total_append,
        Option.map_some, Option.getD_some] at hold ⊢
      omega
  | edited period hr => exact ⟨hb.together, hb.conserved⟩

theorem Moves.conserved (h : Moves workspaceId now reprices b b') (hb : b.Conserved) :
    b'.Conserved := by
  induction h with
  | refl => exact hb
  | tail _ hmove ih => exact hmove.conserved ih

def Book.Holds (b : Book) (p : Int) (e : Timestamp) : Prop :=
  ∃ m, b.account = some m ∧ m.next = ⟨some p, some e⟩

/-- What was used up was held, for the period that starts and not before. -/
def Book.Uses (now : Timestamp) (b b' : Book) : Prop :=
  b'.consumed = b.consumed ∨ ∃ log p e, b'.consumed = b.consumed ++ [log] ∧ b.Holds p e ∧
    e ≤ now ∧ log.prepaidMinor = some p ∧ log.periodStart = some e

def Using (now : Timestamp) (b₀ b : Book) : Prop :=
  b.consumed = b₀.consumed ∧ (∀ p e, b.Holds p e → b₀.Holds p e ∨ now < e) ∨
    (∃ log p e, b.consumed = b₀.consumed ++ [log] ∧ b₀.Holds p e ∧ e ≤ now ∧
      log.prepaidMinor = some p ∧ log.periodStart = some e) ∧ ∀ p e, b.Holds p e → now < e

theorem Event.uses (h : Event workspaceId now reprices period next rows logs period' next') :
    logs = [] ∧ (∀ p e, next' = ⟨some p, some e⟩ → next = next' ∨ now < e) ∨
      ∃ log p e, logs = [log] ∧ next = ⟨some p, some e⟩ ∧ e ≤ now ∧ log.prepaidMinor = some p ∧
        log.periodStart = some e ∧ next' = .none := by
  cases h with
  | consumed hnow hlater hprepaid hstart =>
    exact .inr ⟨_, _, _, rfl, rfl, hnow, hprepaid, hstart, rfl⟩
  | booked | ended | bought => exact .inl ⟨rfl, fun _ _ _ => .inl rfl⟩
  | cleared | renewed | returned | forgotten =>
    exact .inl ⟨rfl, fun _ _ hnext => by simp [NextPeriod.none] at hnext⟩
  | prepaid hnow | lowered _ hnow | raised _ hnow =>
    refine .inl ⟨rfl, fun _ _ hnext => .inr ?_⟩
    cases hnext
    exact hnow

variable {b₀ : Book}

theorem Move.using (h : Move workspaceId now reprices b b') (hb : Using now b₀ b) :
    Using now b₀ b' := by
  have hsame : b'.consumed = b.consumed → (∀ p e, b'.Holds p e → b.Holds p e) →
      Using now b₀ b' := by
    intro hconsumed hholds
    rcases hb with ⟨hnone, hheld⟩ | ⟨hused, hheld⟩
    · exact .inl ⟨hconsumed.trans hnone, fun p e hp => hheld p e (hholds p e hp)⟩
    · rw [← hconsumed] at hused
      exact .inr ⟨hused, fun p e hp => hheld p e (hholds p e hp)⟩
  cases h with
  | opened currency h =>
    refine hsame rfl fun p e ⟨m, hm, hnext⟩ => ?_
    cases hm
    simp [NextPeriod.none] at hnext
  | recurrency currency h hzero hrows =>
    refine hsame rfl fun p e ⟨m, hm, hnext⟩ => ⟨_, h, ?_⟩
    cases hm
    exact hnext
  | edited period hr => exact hsame rfl fun p e hp => hp
  | @wrote m m' rows _ period h hbooks hevent =>
    rcases hevent.uses with ⟨rfl, hnext⟩ | ⟨log, p, e, rfl, hnext, hnow, hprepaid, hstart, hnone⟩
    · have hheld : ∀ p e, Book.Holds ⟨some m', b.rows ++ rows, b.consumed ++ [], period⟩ p e →
          b.Holds p e ∨ now < e := by
        rintro p e ⟨x, hx, hp⟩
        cases hx
        rcases hnext p e hp with hsame | hlater
        · exact .inl ⟨_, h, hsame.trans hp⟩
        · exact .inr hlater
      rcases hb with ⟨hconsumed, hb⟩ | ⟨hused, hb⟩
      · refine .inl ⟨by simpa using hconsumed, fun p e hp => ?_⟩
        exact (hheld p e hp).elim (hb p e) .inr
      · refine .inr ⟨by simpa using hused, fun p e hp => ?_⟩
        exact (hheld p e hp).elim (hb p e) id
    · have hgone : ∀ p e, ¬Book.Holds ⟨some m', b.rows ++ rows, b.consumed ++ [log], period⟩ p e := by
        rintro p e ⟨x, hx, hp⟩
        cases hx
        rw [hnone] at hp
        simp [NextPeriod.none] at hp
      have hb' : b.Holds p e := ⟨_, h, hnext⟩
      rcases hb with ⟨hconsumed, hb⟩ | ⟨-, hb⟩
      · rcases hb p e hb' with hb₀ | hlater
        · refine .inr ⟨⟨log, p, e, ?_, hb₀, hnow, hprepaid, hstart⟩, fun p e hp => ?_⟩
          · rw [hconsumed]
          · exact (hgone p e hp).elim
        · exact absurd hnow (not_le.mpr hlater)
      · exact absurd hnow (not_le.mpr (hb p e hb'))

theorem Moves.uses (h : Moves workspaceId now reprices b b') : b.Uses now b' := by
  have husing : Using now b b' := by
    induction h with
    | refl => exact .inl ⟨rfl, fun _ _ hp => .inl hp⟩
    | tail _ hmove ih => exact hmove.using ih
  exact husing.imp And.left And.left

/-- A charge for the period after the one that ends at `e`. -/
def Entry.charges (workspaceId : Id) (e : Timestamp) (entry : Entry) : Bool :=
  match entry.1 with
  | .renewal ws s _ => entry.2.kind = .renewal ∧ ws = workspaceId ∧ s = stamp e
  | _ => false

def Entry.returns (e : Timestamp) (entry : Entry) : Bool :=
  entry.2.kind = .prepaidReturn ∧ entry.2.periodStart = some e

/-- How often the period after `e` was charged. -/
def Book.charges (workspaceId : Id) (e : Timestamp) (b : Book) : Nat :=
  b.rows.countP (Entry.charges workspaceId e)

def Book.returns (e : Timestamp) (b : Book) : Nat := b.rows.countP (Entry.returns e)

def NextPeriod.heldFor (e : Timestamp) (next : NextPeriod) : Nat :=
  if next.start = some e ∧ next.prepaid.any (0 < ·) then 1 else 0

def Book.heldFor (e : Timestamp) (b : Book) : Nat :=
  (b.account.map fun m => m.next.heldFor e).getD 0

theorem NextPeriod.heldFor_le (e : Timestamp) (next : NextPeriod) : next.heldFor e ≤ 1 := by
  unfold heldFor
  split <;> omega

theorem Book.heldFor_le (e : Timestamp) (b : Book) : b.heldFor e ≤ 1 := by
  unfold heldFor
  cases b.account with
  | none => simp
  | some m => exact m.next.heldFor_le e

@[simp] theorem NextPeriod.heldFor_none (e : Timestamp) (start : Option Timestamp) :
    (NextPeriod.mk .none start).heldFor e = 0 := by
  simp [heldFor]

theorem stamp_ne {e e' : Int} (h : e + 28 * day ≤ e') : stamp e' ≠ stamp e := by
  have hday : day = 86400000000 := by decide
  have hsecond : second = 1000000 := by decide
  unfold stamp
  rw [hsecond]
  omega

/-- Since `b₀`, with the period still ending at `e`, every charge is held or was
returned; once the period has moved on, all but one. -/
def Counted (workspaceId : Id) (now e : Timestamp) (b₀ b : Book) : Prop :=
  b.period = some e ∧ b.charges workspaceId e + b₀.heldFor e + b₀.returns e =
      b₀.charges workspaceId e + b.returns e + b.heldFor e ∨
    e ≤ now ∧ Later e b.period ∧ b.charges workspaceId e + b₀.heldFor e + b₀.returns e ≤
      b₀.charges workspaceId e + b.returns e + 1

theorem Later.trans {e' : Timestamp} (h : e ≤ e') (hlater : Later e' period) : Later e period := by
  intro x hx
  have := hlater x hx
  lia

theorem day_pos : (0 : Int) < day := by decide

theorem Event.counts (h : Event workspaceId now False (some e) next rows logs period' next') :
    period' = some e ∧ rows.countP (Entry.charges workspaceId e) + next.heldFor e =
        rows.countP (Entry.returns e) + next'.heldFor e ∨ e ≤ now ∧ Later e period' ∧
        rows.countP (Entry.charges workspaceId e) + next.heldFor e ≤ 1 := by
  cases h with
  | @booked _ _ key row hkind hkind' =>
    left
    cases key <;> simp [Entry.charges, Entry.returns, hkind, hkind']
  | cleared => exact .inl ⟨rfl, by simp [NextPeriod.none]⟩
  | prepaid hnow hprice hrow =>
    left
    obtain ⟨hkind, -, hstart, -⟩ := hrow
    simp [Entry.charges, Entry.returns, NextPeriod.heldFor, hkind, hprice]
  | renewed hnow hs hrow hlater =>
    right
    obtain ⟨hkind, -⟩ := hrow
    simp [Entry.charges, hkind, hnow, hlater]
  | @returned _ p start key row hp hrow =>
    left
    obtain ⟨hkind, -, hstart, -⟩ := hrow
    by_cases hs : start = some e <;> cases key <;>
      simp [Entry.charges, Entry.returns, NextPeriod.heldFor, NextPeriod.none, hkind, hstart, hs, hp]
  | forgotten hp => exact .inl ⟨rfl, by simp [NextPeriod.heldFor, NextPeriod.none, hp]⟩
  | lowered hr => exact hr.elim
  | raised hr => exact hr.elim
  | consumed hnow hlater hprepaid hstart =>
    exact .inr ⟨hnow, hlater, by simpa using NextPeriod.heldFor_le e _⟩
  | ended hnow =>
    exact .inr ⟨hnow, by simp [Later], by simpa using NextPeriod.heldFor_le e _⟩
  | bought hold hlater =>
    exact .inr ⟨hold e rfl, hlater.trans (hold e rfl), by simpa using NextPeriod.heldFor_le e _⟩

theorem Event.counts_later (h : Event workspaceId now False period next rows logs period' next')
    (he : e ≤ now) (hperiod : Later e period) :
    Later e period' ∧ rows.countP (Entry.charges workspaceId e) = 0 := by
  have hday := day_pos
  cases h with
  | @booked _ _ key row hkind hkind' =>
    refine ⟨hperiod, ?_⟩
    cases key <;> simp [Entry.charges, hkind]
  | cleared => exact ⟨hperiod, rfl⟩
  | prepaid hnow hprice hrow =>
    refine ⟨hperiod, ?_⟩
    simp [Entry.charges, stamp_ne (hperiod _ rfl)]
  | renewed hnow hs hrow hlater =>
    have := hperiod _ rfl
    refine ⟨Later.trans (by lia) hlater, ?_⟩
    simp [Entry.charges, stamp_ne this]
  | @returned _ _ _ key row hp hrow =>
    refine ⟨hperiod, ?_⟩
    cases key <;> simp [Entry.charges, hrow.1]
  | forgotten hp => exact ⟨hperiod, rfl⟩
  | lowered hr => exact hr.elim
  | raised hr => exact hr.elim
  | consumed hnow hlater hprepaid hstart =>
    have := hperiod _ rfl
    exact ⟨Later.trans (by lia) hlater, rfl⟩
  | ended hnow => exact ⟨by simp [Later], rfl⟩
  | bought hold hlater => exact ⟨hlater.trans he, rfl⟩

theorem Move.counted (h : Move workspaceId now False b b') (hb : Counted workspaceId now e b₀ b)
    : Counted workspaceId now e b₀ b' := by
  cases h with
  | opened currency h =>
    simpa [Counted, Book.charges, Book.returns, Book.heldFor, h, NextPeriod.none] using hb
  | recurrency currency h hzero hrows =>
    simpa [Counted, Book.charges, Book.returns, Book.heldFor, h] using hb
  | wrote h hbooks hevent =>
    rcases hb with ⟨hperiod, hcount⟩ | ⟨he, hperiod, hcount⟩
    · rw [hperiod] at hevent
      rcases hevent.counts with ⟨hperiod', hnew⟩ | ⟨he, hperiod', hnew⟩
      · refine .inl ⟨hperiod', ?_⟩
        simp only [Book.charges, Book.returns, Book.heldFor, h, List.countP_append,
          Option.map_some, Option.getD_some] at hcount ⊢
        omega
      · refine .inr ⟨he, hperiod', ?_⟩
        simp only [Book.charges, Book.returns, Book.heldFor, h, List.countP_append,
          Option.map_some, Option.getD_some] at hcount ⊢
        omega
    · obtain ⟨hperiod', hnew⟩ := hevent.counts_later he hperiod
      refine .inr ⟨he, hperiod', ?_⟩
      simp only [Book.charges, Book.returns, Book.heldFor, List.countP_append] at hcount ⊢
      omega
  | edited period hr => exact hr.elim

theorem Moves.counted (h : Moves workspaceId now False b b') (hb : b.period = some e) :
    Counted workspaceId now e b b' := by
  induction h with
  | refl => exact .inl ⟨hb, by omega⟩
  | tail _ hmove ih => exact hmove.counted ih

end Kindred.Billing
