import Kindred.Database
import Mathlib.Data.List.MinMax

/-!
The occupied bytes of one workspace, one row a month. A new month's row starts
from the month before, whoever creates it; the log's trigger adds to the row of
the month in which its transaction began.
-/

namespace Kindred.Storage
open Lib (Table run Meets)

inductive LogOperation where
  | upload | delete | other (name : String)

/-- A row of `storage_usage_logs`. -/
structure UsageLog where
  success : Bool
  fileSize : Option ℤ
  operation : LogOperation

/-- What `apply_storage_usage_log` makes of a row, if it is counted at all. -/
def UsageLog.delta (l : UsageLog) : Option ℤ :=
  if l.success then
    match l.fileSize with
    | none => none
    | some size =>
      if size ≤ 0 then none
      else
        match l.operation with
        | .upload => some size
        | .delete => some (-size)
        | .other _ => none
  else none

/-- `GREATEST(storage_bytes + v_delta, 0)` -/
def applyDelta (bytes delta : ℤ) : ℤ := max (bytes + delta) 0

def occupancy (deltas : List ℤ) : ℤ := deltas.foldl applyDelta 0

theorem applyDelta_nonneg (bytes delta : ℤ) : 0 ≤ applyDelta bytes delta := Int.le_max_right _ _

variable {bytes delta : ℤ} {period t : ℕ}

theorem applyDelta_zero (h : 0 ≤ bytes) : applyDelta bytes 0 = bytes := by
  simp [applyDelta, h]

theorem foldl_nonneg (h : 0 ≤ bytes) (deltas : List ℤ) : 0 ≤ deltas.foldl applyDelta bytes := by
  induction deltas generalizing bytes with
  | nil => exact h
  | cons delta deltas ih => exact ih (applyDelta_nonneg bytes delta)

theorem occupancy_nonneg (deltas : List ℤ) : 0 ≤ occupancy deltas := foldl_nonneg le_rfl deltas

theorem occupancy_append (deltas more : List ℤ) :
    occupancy (deltas ++ more) = more.foldl applyDelta (occupancy deltas) := by
  simp [occupancy]

/-- `storage_bytes` of the rows that are committed, by month. -/
abbrev Counters := Table ℕ ℤ

/-- The row of the latest month before `period`. -/
def Counters.prior (t : Counters) (period : ℕ) : Option (ℕ × ℤ) :=
  (t.rows.filter fun r => r.1 < period).argmax Prod.fst

def Counters.seed (t : Counters) (period : ℕ) : ℤ := ((t.prior period).map Prod.snd).getD 0

/-- A write to the counters: of the log's trigger, or of any other counter. -/
inductive Statement where
  | log (row : UsageLog)
  | counter

/-- What a statement inserts into `storage_bytes`, if it inserts a row. -/
def Statement.inserted : Statement → Option ℤ
  | .log row => row.delta
  | .counter => some 0

/-- A statement whose trigger has read the month before; `seen` counts what was committed then. -/
structure Insert where
  statement : Statement
  seed : ℤ
  seen : ℕ

/-- `bytes`: the month's row as the transaction left it; `created`: what was committed when its own
insert read the month before; `deltas` are its counted log rows. -/
structure Transaction where
  period : ℕ
  waiting : Option Insert := none
  bytes : Option ℤ := none
  created : Option ℕ := none
  deltas : List ℤ := []

/-- `log`: the counted log rows in the order in which they were committed. -/
structure Workspace where
  counters : Counters := .empty
  transactions : Table ℕ Transaction := .empty
  month : ℕ := 0
  log : List ℤ := []

inductive Event where
  | nextMonth
  | start (t : ℕ)
  | fire (t : ℕ) (statement : Statement)
  | place (t : ℕ)
  | commit (t : ℕ)
  | rollback (t : ℕ)

def Workspace.locked (s : Workspace) (t period : ℕ) : Bool :=
  s.transactions.rows.any fun r => r.1 ≠ t && r.2.period = period && r.2.bytes.isSome

/-- `INSERT ... ON CONFLICT`: `current` is the row that there is, if any. -/
def Transaction.place (x : Transaction) (i : Insert) (current : Option ℤ) : Transaction :=
  match i.statement.inserted, current with
  | none, _ => { x with waiting := none }
  | some delta, none =>
    { x with
      waiting := none
      bytes := some (applyDelta i.seed delta)
      created := some i.seen
      deltas := match i.statement with
        | .log _ => x.deltas ++ [delta]
        | .counter => x.deltas }
  | some delta, some bytes =>
    match i.statement with
    | .log _ =>
      { x with
        waiting := none
        bytes := some (applyDelta bytes delta)
        deltas := x.deltas ++ [delta] }
    | .counter => { x with waiting := none }

namespace Workspace

def step (s : Workspace) : Event → Workspace
  | .nextMonth => { s with month := s.month + 1 }
  | .start t =>
    if (s.transactions.get t).isSome then s
    else { s with transactions := s.transactions.put t { period := s.month } }
  | .fire t statement =>
    match s.transactions.get t with
    | none => s
    | some x =>
      if x.waiting.isSome then s
      else
        let waiting : Insert := ⟨statement, s.counters.seed x.period, s.log.length⟩
        { s with transactions := s.transactions.put t { x with waiting } }
  | .place t =>
    match s.transactions.get t with
    | none => s
    | some x =>
      match x.waiting with
      | none => s
      | some i =>
        if s.locked t x.period then s
        else
          { s with transactions :=
              s.transactions.put t (x.place i (x.bytes.or (s.counters.get x.period))) }
  | .commit t =>
    match s.transactions.get t with
    | none => s
    | some x =>
      if x.waiting.isSome then s
      else
        { s with
          counters := match x.bytes with
            | none => s.counters
            | some bytes => s.counters.put x.period bytes
          transactions := s.transactions.erase t
          log := s.log ++ x.deltas }
  | .rollback t => { s with transactions := s.transactions.erase t }

/-- The newest month says what the committed log rows amount to. -/
structure Carried (s : Workspace) : Prop where
  newest : ∀ period bytes, s.counters.get period = some bytes →
    (∀ p, (s.counters.get p).isSome → p ≤ period) → bytes = occupancy s.log
  empty : (∀ p, s.counters.get p = none) → s.log = []

/-- A counted log row is not committed once there is a later month, and the row of a new month not
after log rows that its trigger has not seen. -/
def Careful (s : Workspace) : Event → Prop
  | .commit t => ∀ x ∈ s.transactions.get t, x.waiting = none →
      (x.deltas ≠ [] → ∀ r ∈ s.counters.rows, r.1 ≤ x.period) ∧
      ∀ seen ∈ x.created, (∀ r ∈ s.counters.rows, r.1 ≤ x.period) → seen = s.log.length
  | _ => True

instance (s : Workspace) : (e : Event) → Decidable (s.Careful e)
  | .commit _ => by unfold Careful; infer_instance
  | .nextMonth | .start _ | .fire .. | .place _ | .rollback _ => .isTrue trivial

end Workspace

def Counters.Before (t : Counters) (period : ℕ) : Prop := ∀ p, (t.get p).isSome → p < period

structure Transaction.Fits (counters : Counters) (log : List ℤ) (x : Transaction) : Prop where
  waiting : ∀ i, x.waiting = some i → i.seen ≤ log.length ∧
    (counters.Before x.period → i.seed = occupancy (log.take i.seen))
  created : ∀ seen, x.created = some seen → seen ≤ log.length ∧
    counters.get x.period = none ∧ ∃ bytes, x.bytes = some bytes ∧
      (counters.Before x.period → bytes = x.deltas.foldl applyDelta (occupancy (log.take seen)))
  updated : ∀ bytes, x.created = none → x.bytes = some bytes →
    ∃ before, counters.get x.period = some before ∧ bytes = x.deltas.foldl applyDelta before
  unwritten : x.bytes = none → x.deltas = []

variable {s : Workspace} {x : Transaction}

namespace Workspace

structure Sound (s : Workspace) : Prop where
  carried : s.Carried
  fits : ∀ t x, s.transactions.get t = some x → x.Fits s.counters s.log
  alone : ∀ t t' x x', s.transactions.get t = some x → s.transactions.get t' = some x' →
    x.period = x'.period → x.bytes.isSome → x'.bytes.isSome → t = t'

theorem sound_start : Sound {} := by
  refine ⟨⟨?_, fun _ => rfl⟩, ?_, ?_⟩ <;> intros <;> simp_all

theorem seed_eq (h : s.Carried) (hb : s.counters.Before period) :
    s.counters.seed period = occupancy s.log := by
  have hall : (s.counters.rows.filter fun r => r.1 < period) = s.counters.rows := by
    refine List.filter_eq_self.mpr fun r hr => decide_eq_true (hb r.1 ?_)
    rw [Table.get_eq_some_iff_mem.mpr hr]
    rfl
  rw [Counters.seed, Counters.prior, hall]
  cases hmax : s.counters.rows.argmax Prod.fst with
  | none =>
    have hnil := List.argmax_eq_none.mp hmax
    have hlog : s.log = [] := h.empty fun p => by simp [Table.get, hnil]
    simp [hlog, occupancy]
  | some r =>
    have hr : s.counters.get r.1 = some r.2 :=
      Table.get_eq_some_iff_mem.mpr (List.argmax_mem hmax)
    refine h.newest r.1 r.2 hr fun p hp => ?_
    obtain ⟨bytes, hbytes⟩ := Option.isSome_iff_exists.mp hp
    exact List.le_of_mem_argmax (f := Prod.fst) (Table.get_eq_some_iff_mem.mp hbytes) hmax

theorem Sound.put (h : s.Sound) (hx : x.Fits s.counters s.log)
    (halone : ∀ t' x', t' ≠ t → s.transactions.get t' = some x' → x'.period = x.period →
      x.bytes.isSome → x'.bytes = none) :
    Sound { s with transactions := s.transactions.put t x } := by
  refine ⟨⟨h.carried.newest, h.carried.empty⟩, fun t' x' hx' => ?_,
    fun t₁ t₂ x₁ x₂ h₁ h₂ hp hb₁ hb₂ => ?_⟩
  · rw [Table.get_put] at hx'
    split at hx'
    · cases hx'
      exact hx
    · exact h.fits t' x' hx'
  · rw [Table.get_put] at h₁ h₂
    split at h₁ <;> split at h₂
    · simp_all
    · cases h₁
      rw [halone t₂ x₂ ‹_› h₂ hp.symm hb₁] at hb₂
      cases hb₂
    · cases h₂
      rw [halone t₁ x₁ ‹_› h₁ hp hb₂] at hb₁
      cases hb₁
    · exact h.alone t₁ t₂ x₁ x₂ h₁ h₂ hp hb₁ hb₂

end Workspace

section Place
variable {counters : Counters} {log : List ℤ} {x : Transaction} {i : Insert}

theorem Transaction.place_period (x : Transaction) (i : Insert) (current : Option ℤ) :
    (x.place i current).period = x.period := by
  unfold place
  split
  · rfl
  · rfl
  · split <;> rfl

theorem Transaction.Fits.served (h : x.Fits counters log) :
    Transaction.Fits counters log { x with waiting := none } :=
  ⟨nofun, h.created, h.updated, h.unwritten⟩

theorem Transaction.Fits.insert (h : x.Fits counters log) (hi : x.waiting = some i)
    {deltas : List ℤ} (hdeltas : deltas = [delta] ∨ delta = 0 ∧ deltas = [])
    (hrow : counters.get x.period = none) : Transaction.Fits counters log { x with
        waiting := none
        bytes := some (applyDelta i.seed delta)
        created := some i.seen
        deltas } := by
  obtain ⟨hseen, hseed⟩ := h.waiting i hi
  refine ⟨nofun, fun seen hcreated => ?_, nofun, nofun⟩
  cases hcreated
  refine ⟨hseen, hrow, _, rfl, fun hb => ?_⟩
  rw [hseed hb]
  obtain rfl | ⟨rfl, rfl⟩ := hdeltas
  · rfl
  · exact applyDelta_zero (occupancy_nonneg _)

theorem Transaction.Fits.change (h : x.Fits counters log)
    (hbytes : x.bytes.or (counters.get x.period) = some bytes) : Transaction.Fits counters log
      { x with
        waiting := none
        bytes := some (applyDelta bytes delta)
        deltas := x.deltas ++ [delta] } := by
  refine ⟨nofun, fun seen hcreated => ?_, fun bytes' hcreated hbytes' => ?_, nofun⟩
  · obtain ⟨hseen, hrow, own, hown, hfold⟩ := h.created seen hcreated
    refine ⟨hseen, hrow, _, rfl, fun hb => ?_⟩
    rw [hown, Option.some_or, Option.some.injEq] at hbytes
    rw [List.foldl_append, ← hfold hb, hbytes]
    rfl
  · cases hbytes'
    cases hown : x.bytes with
    | some own =>
      obtain ⟨before, hrow, hfold⟩ := h.updated own hcreated hown
      rw [hown, Option.some_or, Option.some.injEq] at hbytes
      refine ⟨before, hrow, ?_⟩
      rw [List.foldl_append, ← hfold, hbytes]
      rfl
    | none =>
      rw [hown, Option.none_or] at hbytes
      refine ⟨bytes, hbytes, ?_⟩
      rw [h.unwritten hown]
      rfl

theorem Transaction.Fits.place (h : x.Fits counters log) (hi : x.waiting = some i) :
    (x.place i (x.bytes.or (counters.get x.period))).Fits counters log := by
  unfold Transaction.place
  split
  · exact h.served
  · rename_i delta hdelta hnone
    obtain ⟨hbytes, hrow⟩ := Option.or_eq_none_iff.mp hnone
    refine h.insert hi ?_ hrow
    rw [h.unwritten hbytes]
    cases hs : i.statement with
    | log row => exact .inl rfl
    | counter =>
      rw [hs] at hdelta
      cases hdelta
      exact .inr ⟨rfl, rfl⟩
  · rename_i delta bytes hdelta hbytes
    split
    · exact h.change hbytes
    · exact h.served

theorem Transaction.Fits.commit (h : x.Fits counters log) (hne : x.bytes.isSome → x.period ≠ period)
    (more : List ℤ) : x.Fits (counters.put period bytes) (log ++ more) := by
  have hbefore (hb : Counters.Before (counters.put period bytes) x.period) :
      counters.Before x.period := by
    intro p hp
    refine hb p ?_
    rw [Table.get_put]
    split
    · rfl
    · exact hp
  have hrow (hsome : x.bytes.isSome) :
      (counters.put period bytes).get x.period = counters.get x.period :=
    Table.get_put_ne _ _ (hne hsome)
  refine ⟨fun i hi => ?_, fun seen hcreated => ?_, fun bytes' hcreated hbytes => ?_, h.unwritten⟩
  · obtain ⟨hseen, hseed⟩ := h.waiting i hi
    refine ⟨by simp; omega, fun hb => ?_⟩
    rw [List.take_append_of_le_length hseen]
    exact hseed (hbefore hb)
  · obtain ⟨hseen, hnone, own, hown, hfold⟩ := h.created seen hcreated
    refine ⟨by simp; omega, ?_, own, hown, fun hb => ?_⟩
    · rw [hrow (by rw [hown]; rfl), hnone]
    · rw [List.take_append_of_le_length hseen]
      exact hfold (hbefore hb)
  · obtain ⟨before, hget, hfold⟩ := h.updated bytes' hcreated hbytes
    exact ⟨before, by rw [hrow (by rw [hbytes]; rfl), hget], hfold⟩

end Place

namespace Workspace
variable {s : Workspace}

theorem le_of_rows {t : Counters} (h : ∀ r ∈ t.rows, r.1 ≤ period) {p : ℕ} (hp : (t.get p).isSome)
    : p ≤ period := by
  obtain ⟨bytes, hbytes⟩ := Option.isSome_iff_exists.mp hp
  exact h (p, bytes) (Table.get_eq_some_iff_mem.mp hbytes)

theorem bytes_eq (h : s.Sound) (hx : s.transactions.get t = some x) (hbytes : x.bytes = some bytes)
    (hlatest : ∀ p, (s.counters.get p).isSome → p ≤ x.period)
    (hseen : ∀ seen, x.created = some seen → seen = s.log.length) :
    bytes = occupancy (s.log ++ x.deltas) := by
  have hfits := h.fits t x hx
  rw [occupancy_append]
  cases hcreated : x.created with
  | none =>
    obtain ⟨before, hrow, hfold⟩ := hfits.updated bytes hcreated hbytes
    rw [hfold, h.carried.newest x.period before hrow hlatest]
  | some seen =>
    obtain ⟨-, hnone, own, hown, hfold⟩ := hfits.created seen hcreated
    have hbefore : s.counters.Before x.period := by
      intro p hp
      refine Nat.lt_of_le_of_ne (hlatest p hp) fun he => ?_
      rw [he, hnone] at hp
      cases hp
    cases hbytes.symm.trans hown
    rw [hfold hbefore, hseen seen hcreated, List.take_length]

/-- Of two months, both committed, the later one counts. -/
theorem carried_commit (h : s.Sound) (hx : s.transactions.get t = some x)
    (hbytes : x.bytes = some bytes)
    (hdeltas : x.deltas ≠ [] → ∀ r ∈ s.counters.rows, r.1 ≤ x.period)
    (hseen : ∀ seen ∈ x.created, (∀ r ∈ s.counters.rows, r.1 ≤ x.period) → seen = s.log.length)
    {transactions : Table ℕ Transaction} : Carried { s with
      counters := s.counters.put x.period bytes, transactions, log := s.log ++ x.deltas } := by
  constructor
  · intro period b hb hnewest
    have hlatest (hperiod : x.period = period) : ∀ p, (s.counters.get p).isSome → p ≤ x.period := by
      intro p hp
      rw [hperiod]
      refine hnewest p ?_
      rw [Table.get_put]
      split
      · rfl
      · exact hp
    rw [Table.get_put] at hb
    split at hb
    · rename_i hperiod
      cases hb
      have hle := hlatest hperiod.symm
      refine bytes_eq h hx hbytes hle fun seen hc => hseen seen hc fun r hr => hle r.1 ?_
      rw [Table.get_eq_some_iff_mem.mpr hr]
      rfl
    · rename_i hne
      have hmine : x.period ≤ period := hnewest x.period (by rw [Table.get_put_self]; rfl)
      have hnil : x.deltas = [] := by
        by_contra hsome
        have hle := le_of_rows (hdeltas hsome) (p := period) (by rw [hb]; rfl)
        exact hne (Nat.le_antisymm hle hmine)
      rw [hnil, List.append_nil]
      refine h.carried.newest period b hb fun p hp => hnewest p ?_
      rw [Table.get_put]
      split
      · rfl
      · exact hp
  · intro hnone
    have hrow := hnone x.period
    rw [Table.get_put_self] at hrow
    cases hrow

theorem Sound.erase (h : s.Sound) (t : ℕ) :
    Sound { s with transactions := s.transactions.erase t } := by
  refine ⟨⟨h.carried.newest, h.carried.empty⟩, fun t' x hx => ?_, fun t₁ t₂ x₁ x₂ h₁ h₂ => ?_⟩
  · rw [Table.get_erase] at hx
    split at hx
    · cases hx
    · exact h.fits t' x hx
  · rw [Table.get_erase] at h₁ h₂
    split at h₁
    · cases h₁
    · split at h₂
      · cases h₂
      · exact h.alone t₁ t₂ x₁ x₂ h₁ h₂

theorem Sound.step (h : s.Sound) (e : Event) (hcareful : s.Careful e) : (s.step e).Sound := by
  cases e with
  | nextMonth => exact ⟨⟨h.carried.newest, h.carried.empty⟩, h.fits, h.alone⟩
  | start t =>
    simp only [Workspace.step]
    split
    · exact h
    · exact h.put ⟨nofun, nofun, nofun, fun _ => rfl⟩ nofun
  | fire t statement =>
    simp only [Workspace.step]
    split
    · exact h
    · rename_i x hx
      split
      · exact h
      · have hfits := h.fits t x hx
        refine h.put ⟨fun i hi => ?_, hfits.created, hfits.updated, hfits.unwritten⟩
          fun t' x' hne hx' hp hb => ?_
        · cases hi
          refine ⟨le_rfl, fun hb => ?_⟩
          rw [List.take_length]
          exact seed_eq h.carried hb
        · by_contra hsome
          exact hne (h.alone t' t x' x hx' hx hp (Option.isSome_iff_ne_none.mpr hsome) hb)
  | place t =>
    simp only [Workspace.step]
    split
    · exact h
    · rename_i x hx
      split
      · exact h
      · rename_i i hi
        split
        · exact h
        · rename_i hfree
          refine h.put ((h.fits t x hx).place hi) fun t' x' hne hx' hp _ => ?_
          rw [Transaction.place_period] at hp
          by_contra hsome
          refine hfree ?_
          simp only [locked, List.any_eq_true]
          exact ⟨(t', x'), Table.get_eq_some_iff_mem.mp hx',
            by simp [hne, hp, Option.isSome_iff_ne_none.mpr hsome]⟩
  | commit t =>
    simp only [Workspace.step]
    split
    · exact h
    · rename_i x hx
      split
      · exact h
      · rename_i hidle
        obtain ⟨hdeltas, hseen⟩ := hcareful x hx (by simpa using hidle)
        have herased := h.erase t
        cases hbytes : x.bytes with
        | none =>
          rw [(h.fits t x hx).unwritten hbytes, List.append_nil]
          exact herased
        | some bytes =>
          refine ⟨carried_commit h hx hbytes hdeltas hseen, fun t' x' hx' => ?_, herased.alone⟩
          refine (herased.fits t' x' hx').commit (fun hsome he => ?_) x.deltas
          rw [Table.get_erase] at hx'
          split at hx'
          · cases hx'
          · rename_i hne
            exact hne (h.alone t' t x' x hx' hx he hsome (by rw [hbytes]; rfl))
  | rollback t => exact h.erase t

/-- In every run in which no counted log row comes after a later month, and no month is opened over
log rows that it has not seen, the newest month's row is what the committed log rows amount to. -/
theorem storage_carried (es : List Event) (h : Meets Workspace.step Careful {} es) :
    (run Workspace.step {} es).Carried :=
  (Lib.run_keeps (I := Sound) (C := Careful) (fun _ e hs hc => hs.step e hc) sound_start h).carried

def lateUpload : List Event :=
  [.start 0, .fire 0 (.log ⟨true, some 7, .upload⟩), .place 0, .nextMonth, .start 1,
    .fire 1 .counter, .place 1, .commit 1, .commit 0]

theorem lateUpload_carried : ¬(run Workspace.step {} lateUpload).Carried := by
  intro h
  have hlatest := h.newest 1 0 (by decide) fun p hp => le_of_rows (by decide) hp
  exact absurd hlatest (by decide)

def uploadInTime : List Event :=
  [.start 0, .fire 0 (.log ⟨true, some 7, .upload⟩), .place 0, .commit 0, .nextMonth, .start 1,
    .fire 1 .counter, .place 1, .commit 1, .start 2, .fire 2 (.log ⟨true, some 9, .delete⟩),
    .place 2, .commit 2]

theorem uploadInTime_carried : (run Workspace.step {} uploadInTime).Carried :=
  storage_carried uploadInTime (by decide)

end Workspace

end Kindred.Storage
