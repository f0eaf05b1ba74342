import Kindred.Lib.Table
import Kindred.Lib.Transaction

/-! The email outbox: mails that are queued, and the workers that claim them under a lease, hand them
to the provider and record what came of it. Every statement is a transaction of its own. -/

namespace Kindred.Email
open Lib (Table run run_append Meets run_invariant run_keeps)

inductive Status where
  | pending | sending | sent | failed | expired | cancelled
  deriving DecidableEq

def Status.final (s : Status) : Bool :=
  s == .sent || s == .failed || s == .expired || s == .cancelled

/-- A row of `email_outbox`; times are in milliseconds. `claims`, which is no column, counts the
times it was claimed. -/
structure Row where
  payload : Option String
  dedupeKey : Option String
  supersedeKey : Option String
  supersedeRank : Option Int
  status : Status := .pending
  attempts : ℕ
  maxAttempts : ℕ
  nextAttemptAt : Int
  giveUpAt : Int
  claimToken : Option ℕ := none
  claimedBy : Option String := none
  leaseExpiresAt : Option Int := none
  provider : Option String := none
  providerMessageId : Option String := none
  lastErrorCode : Option String := none
  lastError : Option String := none
  createdAt : Int
  finishedAt : Option Int := none
  claims : ℕ := 0

structure SendResult where
  success : Bool
  provider : Option String := none
  id : Option String := none
  permanent : Bool := false
  errorCode : Option String := none
  error : Option String := none

def SendResult.retryable (r : SendResult) : Bool := !r.success && !r.permanent

def emailRetryDelayMs (attempts : ℕ) : Int :=
  ([1, 5, 15, 60, 180][min (max attempts 1) 5 - 1]?.getD 180) * 60000

def emailRetryWindowMs : Int := 24 * 60 * 60000

inductive Outcome where
  | finish (status : Status) (provider messageId errorCode error : Option String)
  | retryLater (at_ : Int) (provider : Option String) (errorCode error : String)
  deriving DecidableEq

inductive Stage where
  | claimed
  | handed
  | recording (attempt : ℕ) (o : Outcome)
  | ending (o : Outcome)
  | givingBack
  | done
  deriving DecidableEq

structure Held where
  id : ℕ
  claimToken : ℕ
  attempts : ℕ
  maxAttempts : ℕ
  giveUpAt : Int
  lastErrorCode : Option String
  lastError : Option String
  stage : Stage := .claimed

/-- `made`: the rows there ever were; the claim tokens are the places in `held`. -/
structure Outbox where
  rows : Table ℕ Row := .empty
  made : ℕ := 0
  held : List Held := []

/-- How a statement ends: its answer may be lost after it took effect. -/
inductive Fault where
  | none | lost | refused
  deriving DecidableEq

inductive Older where
  | rankBelow (rank : Int)
  | unrankedBefore (createdAt : Int)
  | before (createdAt : Int)

def Older.has (older : Older) (r : Row) : Bool :=
  match older with
  | .rankBelow rank => r.supersedeRank.any fun own => own < rank
  | .unrankedBefore createdAt => r.supersedeRank.isNone && r.createdAt < createdAt
  | .before createdAt => r.createdAt < createdAt

structure NewMail where
  payload : String
  dedupeKey : Option String := none
  supersedeKey : Option String := none
  supersedeRank : Option Int := none
  maxAttempts : Option Int := none
  expiresAt : Option Int := none
  attempts : ℕ := 0
  startedAt : Int
  nextAttemptAt : Int
  provider : Option String := none
  lastErrorCode : Option String := none
  lastError : Option String := none

def slice (n : ℕ) (s : String) : String := String.ofList (s.toList.take n)

def truthy (s : Option String) : Option String := s.filter fun s => s ≠ ""

def oneLine (s : String) : String :=
  String.ofList ((s.toList.splitBy fun a b => (a == '\r' || a == '\n') == (b == '\r' || b == '\n')).flatMap
    fun run => if run.head?.any fun c => c == '\r' || c == '\n' then [' '] else run)

namespace Outbox

/-- The insert of `insertRow`, for a request that is valid and could be sealed. -/
def insertRow (mail : NewMail) (now : Int) (s : Outbox) : Outbox :=
  let windowEnd := mail.startedAt + emailRetryWindowMs
  let giveUpAt := min windowEnd (mail.expiresAt.getD windowEnd)
  if giveUpAt ≤ max now mail.nextAttemptAt then s
  else if mail.dedupeKey.any fun key => s.rows.rows.any fun r => r.2.dedupeKey = some key then s
  else
    let maxAttempts := (min (max (mail.maxAttempts.getD 12) 1) 50).toNat
    { s with
      made := s.made + 1
      rows := s.rows.put s.made {
        payload := some mail.payload
        dedupeKey := mail.dedupeKey
        supersedeKey := mail.supersedeKey
        supersedeRank := mail.supersedeRank
        attempts := mail.attempts
        maxAttempts := max maxAttempts (mail.attempts + 1)
        nextAttemptAt := mail.nextAttemptAt
        giveUpAt
        provider := mail.provider
        lastErrorCode := mail.lastErrorCode
        lastError := mail.lastError
        createdAt := now } }

def superseded (now : Int) (r : Row) : Row :=
  if r.status = .pending then
    { r with
      status := .cancelled
      payload := none
      finishedAt := some now
      lastErrorCode := some "superseded"
      lastError := some "superseded: a newer mail of the same kind replaced it" }
  else r

/-- One update of `cancelSuperseded`. -/
def cancelSuperseded (key : String) (older : Older) (exceptId : Option ℕ) (now : Int)
    (s : Outbox) : Outbox :=
  { s with rows := s.rows.mapKeyed fun id r =>
      if r.supersedeKey = some key ∧ exceptId ≠ some id ∧ older.has r then superseded now r
      else r }

def cancelOutranked (id : ℕ) (now : Int) (s : Outbox) : Outbox :=
  { s with rows := s.rows.update id (superseded now) }

def due (now : Int) (r : Row) : Bool :=
  r.status == .pending && r.nextAttemptAt ≤ now ||
    r.status == .sending && r.leaseExpiresAt.any fun expires => expires ≤ now

/-- One row of a call of `email_outbox_claim`, which passes over the rows that are locked. -/
def claim (id : ℕ) (worker : String) (leaseSeconds : Option Int) (now : Int) (s : Outbox) :
    Outbox :=
  match s.rows.get id with
  | none => s
  | some r =>
    if due now r then
      { s with
        rows := s.rows.put id { r with
          status := .sending
          claimToken := some s.held.length
          claimedBy := some (slice 128 worker)
          leaseExpiresAt := some (now + max (leaseSeconds.getD 120) 30 * 1000)
          attempts := r.attempts + 1
          claims := r.claims + 1 }
        held := s.held ++ [{
          id, claimToken := s.held.length, attempts := r.attempts + 1, maxAttempts := r.maxAttempts,
          giveUpAt := r.giveUpAt, lastErrorCode := r.lastErrorCode, lastError := r.lastError }] }
    else s

def Outcome.apply (now : Int) (r : Row) : Outcome → Row
  | .finish status provider messageId errorCode error =>
    { r with
      status, payload := none, finishedAt := some now, claimToken := none, leaseExpiresAt := none,
      provider := (truthy provider).or r.provider
      providerMessageId := ((truthy messageId).map (slice 300)).or r.providerMessageId
      lastErrorCode := errorCode
      lastError := (truthy error).map (slice 300) }
  | .retryLater at_ provider errorCode error =>
    { r with
      status := .pending, nextAttemptAt := at_, claimToken := none, leaseExpiresAt := none,
      provider := (truthy provider).or r.provider
      lastErrorCode := some errorCode
      lastError := some (slice 300 error) }

def complete (h : Held) (o : Outcome) (now : Int) (s : Outbox) : Outbox :=
  { s with rows := s.rows.update h.id fun r =>
      if r.claimToken = some h.claimToken ∧ r.status = .sending then Outcome.apply now r o else r }

def setStage (k : ℕ) (stage : Stage) (s : Outbox) : Outbox :=
  { s with held := s.held.modify k fun h => { h with stage } }

/-- `processRow` up to the hand-over; `readable`: the sealed request could be opened. -/
def process (h : Held) (readable : Bool) (now : Int) : Stage :=
  if h.giveUpAt ≤ now then
    .ending (.finish .expired none none (some (h.lastErrorCode.getD "expired"))
      (some (h.lastError.getD "expired: the mail was not sent before its deadline")))
  else if !readable then
    .ending (.finish .failed none none (some "payload_unreadable")
      (some "payload_unreadable: the queued mail could not be read (PLUGIN_SECRETS_MASTER_KEY missing or changed)"))
  else .handed

/-- `processRow` from the provider's answer on; without one the call threw. -/
def answered (h : Held) (result : Option SendResult) (now : Int) : Stage :=
  match result with
  | none => .givingBack
  | some result =>
    if result.success then .recording 1 (.finish .sent result.provider result.id none none)
    else
      let errorCode := result.errorCode.getD "provider_error"
      let error := ((truthy result.error).map fun e => slice 300 (oneLine e)).getD
        s!"{errorCode}: the attempt failed"
      let next := now + emailRetryDelayMs h.attempts
      if !result.retryable ∨ h.attempts ≥ h.maxAttempts ∨ next > h.giveUpAt then
        .ending (.finish .failed result.provider none (some errorCode) (some error))
      else .ending (.retryLater next result.provider errorCode error)

def Held.outcome (h : Held) (now : Int) : Option Outcome :=
  match h.stage with
  | .recording _ o => some o
  | .ending o => some o
  | .givingBack => some (.retryLater (now + emailRetryDelayMs h.attempts) none "provider_error"
      "provider_error: the attempt could not be recorded")
  | _ => none

def Held.wrote (h : Held) (fault : Fault) : Stage :=
  match h.stage, fault with
  | .recording attempt o, .lost | .recording attempt o, .refused =>
    if attempt ≥ 3 then .done else .recording (attempt + 1) o
  | .ending _, .lost | .ending _, .refused => .givingBack
  | _, _ => .done

def write (k : ℕ) (h : Held) (fault : Fault) (now : Int) (s : Outbox) : Outbox :=
  match Held.outcome h now with
  | none => s
  | some o =>
    (if fault = .refused then s else s.complete h o now).setStage k (Held.wrote h fault)

def purgeFinished (now : Int) (s : Outbox) : Outbox :=
  { s with rows := s.rows.keep fun _ r =>
      !(r.status.final && r.finishedAt.any fun finished => finished < now - 7 * 24 * 60 * 60000) }

end Outbox

/-- What is done to the outbox; `k` is a worker's place in `held`. -/
inductive Action where
  | insertRow (mail : NewMail) (now : Int)
  | cancelSuperseded (key : String) (older : Older) (exceptId : Option ℕ) (now : Int)
  | cancelOutranked (id : ℕ) (now : Int)
  | claim (id : ℕ) (worker : String) (leaseSeconds : Option Int) (now : Int)
  | process (k : ℕ) (readable : Bool) (now : Int)
  | answered (k : ℕ) (result : Option SendResult) (now : Int)
  | write (k : ℕ) (fault : Fault) (now : Int)
  | purgeFinished (now : Int)

variable {s' s : Outbox} {a : Action} {r : Row}

variable {now : Int} {p : Option String} {id : ℕ}

namespace Outbox

def step (s : Outbox) : Action → Outbox
  | .insertRow mail now => s.insertRow mail now
  | .cancelSuperseded key older exceptId now => s.cancelSuperseded key older exceptId now
  | .cancelOutranked id now => s.cancelOutranked id now
  | .claim id worker leaseSeconds now => s.claim id worker leaseSeconds now
  | .process k readable now =>
    match s.held[k]? with
    | some h => if h.stage = .claimed then s.setStage k (process h readable now) else s
    | none => s
  | .answered k result now =>
    match s.held[k]? with
    | some h => if h.stage = .handed then s.setStage k (answered h result now) else s
    | none => s
  | .write k fault now =>
    match s.held[k]? with
    | some h => s.write k h fault now
    | none => s
  | .purgeFinished now => s.purgeFinished now

inductive Change (s : Outbox) (a : Action) (id : ℕ) : Option Row → Option Row → Prop where
  | same (o : Option Row) : Change s a id o o
  | made (r : Row) (hnew : s.made ≤ id) (hid : id < (s.step a).made) (hp : r.status = .pending) (ht : r.claimToken = none)
      (hc : r.claims = 0) (hlt : r.attempts < r.maxAttempts) : Change s a id none (some r)
  | cancelled (r : Row) (now : Int) (hp : r.status = .pending) :
      Change s a id (some r) (some (superseded now r))
  | claimed (r r' : Row) (worker : String) (leaseSeconds : Option Int) (now : Int)
      (ha : a = .claim id worker leaseSeconds now) (hdue : due now r = true)
      (hs : r'.status = .sending) (ht : r'.claimToken = some s.held.length)
      (hatt : r'.attempts = r.attempts + 1) (hc : r'.claims = r.claims + 1)
      (hmax : r'.maxAttempts = r.maxAttempts)
      (hw : ∃ w : Held, (s.step a).held[s.held.length]? = some w ∧ w.id = id ∧
        w.attempts = r'.attempts ∧ w.maxAttempts = r'.maxAttempts) : Change s a id (some r) (some r')
  | completed (r : Row) (h : Held) (k : ℕ) (fault : Fault) (o : Outcome) (now : Int)
      (ha : a = .write k fault now) (hk : s.held[k]? = some h) (hid : h.id = id)
      (ho : Held.outcome h now = some o) (hfault : fault ≠ .refused)
      (ht : r.claimToken = some h.claimToken)
      (hs : r.status = .sending) : Change s a id (some r) (some (Outcome.apply now r o))
  | purged (r : Row) (hf : r.status.final = true) : Change s a id (some r) none

@[simp] theorem rows_setStage (k : ℕ) (stage : Stage) (s : Outbox) :
    (s.setStage k stage).rows = s.rows := rfl

theorem change_superseded (s : Outbox) (a : Action) (id : ℕ) (now : Int) (r : Row) :
    Change s a id (some r) (some (superseded now r)) := by
  by_cases hp : r.status = .pending
  · exact .cancelled r now hp
  · rw [show superseded now r = r from if_neg hp]
    exact .same _

variable {s : Outbox} {h : Held}

theorem change_cases (hmade : s.rows.get s.made = none) (a : Action) (id : ℕ) :
    Change s a id (s.rows.get id) ((s.step a).rows.get id) := by
  cases a with
  | insertRow mail now =>
    simp only [step, insertRow]
    split
    · exact .same _
    · rename_i hlate
      split
      · exact .same _
      · rename_i hdup
        rw [Table.get_put]
        split
        · rename_i hid
          subst hid
          rw [hmade]
          refine .made _ (Nat.le_refl _) ?_ rfl rfl rfl ?_
          · simp only [step, insertRow]
            rw [if_neg hlate, if_neg hdup]
            exact Nat.lt_succ_self _
          · dsimp only
            omega
        · exact .same _
  | cancelSuperseded key older exceptId now =>
    simp only [step, cancelSuperseded, Table.get_mapKeyed]
    cases s.rows.get id with
    | none => exact .same _
    | some r =>
      simp only [Option.map_some]
      split
      · exact change_superseded s _ id now r
      · exact .same _
  | cancelOutranked k now =>
    simp only [step, cancelOutranked, Table.get_update]
    split
    · rename_i hk
      subst hk
      cases s.rows.get id with
      | none => exact .same _
      | some r => exact change_superseded s _ id now r
    · exact .same _
  | claim k worker leaseSeconds now =>
    simp only [step, claim]
    cases hr : s.rows.get k with
    | none => exact .same _
    | some r =>
      dsimp only
      split
      · rename_i hdue
        rw [Table.get_put]
        split
        · rename_i hk
          subst hk
          rw [hr]
          refine .claimed r _ worker leaseSeconds now rfl hdue rfl rfl rfl rfl rfl ?_
          simp only [step, claim, hr]
          rw [if_pos hdue]
          exact ⟨_, List.getElem?_concat_length, rfl, rfl, rfl⟩
        · exact .same _
      · exact .same _
  | process k readable now =>
    simp only [step]
    split
    · split <;> exact .same _
    · exact .same _
  | answered k result now =>
    simp only [step]
    split
    · split <;> exact .same _
    · exact .same _
  | write k fault now =>
    simp only [step]
    split
    · rename_i h hk
      unfold write
      cases ho : Held.outcome h now with
      | none => exact .same _
      | some o =>
        rw [rows_setStage]
        split
        · exact .same _
        · rename_i hfault
          simp only [complete, Table.get_update]
          split
          · rename_i hid
            subst hid
            cases s.rows.get h.id with
            | none => exact .same _
            | some r =>
              rw [Option.map_some]
              split
              · rename_i hheld
                exact .completed r h k fault o now rfl hk rfl ho hfault hheld.1 hheld.2
              · exact .same _
          · exact .same _
    · exact .same _
  | purgeFinished now =>
    simp only [step, purgeFinished, Table.get_keep]
    cases s.rows.get id with
    | none => exact .same _
    | some r =>
      rw [Option.filter_some]
      split
      · exact .same _
      · rename_i hold
        refine .purged r ?_
        cases hf : r.status.final with
        | true => rfl
        | false => simp [hf] at hold

def Sane (h : Held) : Prop :=
  match h.stage with
  | .recording _ o => ∃ p m c e, o = .finish .sent p m c e
  | .ending (.finish status _ _ _ _) => status.final
  | .ending (.retryLater _ _ _ _) => h.attempts < h.maxAttempts
  | _ => True

structure Follows (s s' : Outbox) (a : Action) : Prop where
  kept : ∀ (k : ℕ) (h : Held), s.held[k]? = some h →
    ∃ stage, s'.held[k]? = some { h with stage } ∧ (Sane h → Sane { h with stage })
  new : ∀ (k : ℕ) (h' : Held), s'.held[k]? = some h' → s.held[k]? = none →
    k = s.held.length ∧ h'.claimToken = k ∧ h'.stage = .claimed ∧ ∃ r r' worker leaseSeconds now,
      a = .claim h'.id worker leaseSeconds now ∧ s.rows.get h'.id = some r ∧
      s'.rows.get h'.id = some r' ∧ r'.claimToken = some k ∧ h'.attempts = r'.attempts ∧
      h'.maxAttempts = r'.maxAttempts

theorem follows_of_held (h : s'.held = s.held) : Follows s s' a := by
  refine ⟨fun k w hw => ⟨w.stage, by rw [h, hw], fun hs => hs⟩, fun k w hw hn => ?_⟩
  rw [h, hn] at hw
  cases hw

theorem follows_setStage {k : ℕ} {stage : Stage} (hk : s.held[k]? = some h)
    (hs : Sane h → Sane { h with stage })
    (hheld : s'.held = s.held.modify k fun h => { h with stage }) : Follows s s' a := by
  refine ⟨fun j w hw => ?_, fun j w hw hn => ?_⟩
  · rw [hheld, List.getElem?_modify, hw]
    by_cases hj : k = j
    · subst hj
      rw [hk] at hw
      cases hw
      exact ⟨stage, by simp, hs⟩
    · exact ⟨w.stage, by simp [hj], fun hs => hs⟩
  · rw [hheld, List.getElem?_modify, hn] at hw
    cases hw

theorem sane_process (readable : Bool) (now : Int) :
    Sane { h with stage := process h readable now } := by
  unfold process
  split
  · rfl
  · split
    · rfl
    · trivial

theorem sane_answered (result : Option SendResult) (now : Int) :
    Sane { h with stage := answered h result now } := by
  unfold answered
  cases result with
  | none => trivial
  | some result =>
    dsimp only
    split
    · exact ⟨_, _, _, _, rfl⟩
    · split
      · rfl
      · rename_i hno
        rw [not_or, not_or] at hno
        exact Nat.lt_of_not_le hno.2.1

theorem sane_wrote (hs : Sane h) (fault : Fault) : Sane { h with stage := Held.wrote h fault } := by
  obtain ⟨id, token, attempts, maxAttempts, giveUpAt, code, error, stage⟩ := h
  unfold Held.wrote
  cases stage <;> cases fault <;> try trivial
  all_goals
    dsimp only
    split
    · trivial
    · exact hs

theorem Sane.final (hs : Sane h) {status : Status} {m c e : Option String}
    (ho : Held.outcome h now = some (.finish status p m c e)) : status.final = true := by
  unfold Held.outcome at ho
  unfold Sane at hs
  cases hstage : h.stage with
  | claimed => simp [hstage] at ho
  | handed => simp [hstage] at ho
  | recording attempt o =>
    simp only [hstage, Option.some.injEq] at ho hs
    obtain ⟨_, _, _, _, rfl⟩ := hs
    cases ho
    rfl
  | ending o =>
    simp only [hstage, Option.some.injEq] at ho hs
    subst ho
    exact hs
  | givingBack => simp [hstage] at ho
  | done => simp [hstage] at ho

theorem Sane.retry (hs : Sane h) {at_ : Int} {c e : String}
    (ho : Held.outcome h now = some (.retryLater at_ p c e)) :
    h.attempts < h.maxAttempts ∨ h.stage = .givingBack := by
  unfold Held.outcome at ho
  unfold Sane at hs
  cases hstage : h.stage with
  | claimed => simp [hstage] at ho
  | handed => simp [hstage] at ho
  | recording attempt o =>
    simp only [hstage, Option.some.injEq] at ho hs
    obtain ⟨_, _, _, _, rfl⟩ := hs
    cases ho
  | ending o =>
    simp only [hstage, Option.some.injEq] at ho hs
    subst ho
    exact .inl hs
  | givingBack => exact .inr rfl
  | done => simp [hstage] at ho

theorem follows_step (s : Outbox) (a : Action) : Follows s (s.step a) a := by
  cases a with
  | insertRow mail now =>
    refine follows_of_held ?_
    simp only [step, insertRow]
    split
    · rfl
    · split <;> rfl
  | cancelSuperseded key older exceptId now => exact follows_of_held rfl
  | cancelOutranked id now => exact follows_of_held rfl
  | claim id worker leaseSeconds now =>
    simp only [step, claim]
    cases hr : s.rows.get id with
    | none => exact follows_of_held rfl
    | some r =>
      dsimp only
      split
      · refine ⟨fun k h hk => ⟨h.stage, ?_, fun hs => hs⟩, fun k h' hk hn => ?_⟩
        · exact (List.getElem?_append_left (List.getElem?_eq_some_iff.mp hk).1).trans hk
        · have hlen : s.held.length ≤ k := List.getElem?_eq_none_iff.mp hn
          rw [List.getElem?_append_right hlen] at hk
          have hzero : k - s.held.length = 0 := by
            have := (List.getElem?_eq_some_iff.mp hk).1
            simp only [List.length_singleton] at this
            omega
          rw [hzero] at hk
          cases hk
          have hk' : k = s.held.length := by omega
          exact ⟨hk', hk'.symm, rfl, r, _, worker, leaseSeconds, now, rfl, hr,
            Table.get_put_self _ _ _, by rw [hk'], rfl, rfl⟩
      · exact follows_of_held rfl
  | process k readable now =>
    simp only [step]
    split
    · rename_i h hk
      split
      · exact follows_setStage hk (fun _ => sane_process readable now) rfl
      · exact follows_of_held rfl
    · exact follows_of_held rfl
  | answered k result now =>
    simp only [step]
    split
    · rename_i h hk
      split
      · exact follows_setStage hk (fun _ => sane_answered result now) rfl
      · exact follows_of_held rfl
    · exact follows_of_held rfl
  | write k fault now =>
    simp only [step]
    split
    · rename_i h hk
      unfold write
      split
      · exact follows_of_held rfl
      · refine follows_setStage hk (fun hs => sane_wrote hs fault) ?_
        split <;> rfl
    · exact follows_of_held rfl
  | purgeFinished now => exact follows_of_held rfl

structure RowInv (s : Outbox) (id : ℕ) (r : Row) : Prop where
  claims : r.claims ≤ r.attempts
  free : r.status ≠ .sending → r.claimToken = none
  held : r.status = .sending → ∃ (k : ℕ) (h : Held), r.claimToken = some k ∧
    s.held[k]? = some h ∧ h.id = id ∧ h.attempts = r.attempts ∧ h.maxAttempts = r.maxAttempts

structure Inv (s : Outbox) : Prop where
  made : ∀ id r, s.rows.get id = some r → id < s.made
  tokens : ∀ (k : ℕ) (h : Held), s.held[k]? = some h → h.claimToken = k ∧ Sane h
  rows : ∀ id r, s.rows.get id = some r → RowInv s id r

theorem Inv.get_made (h : s.Inv) : s.rows.get s.made = none := by
  refine Option.eq_none_iff_forall_ne_some.mpr fun r hr => ?_
  exact Nat.lt_irrefl _ (h.made _ r hr)

theorem made_le_step (s : Outbox) (a : Action) : s.made ≤ (s.step a).made := by
  cases a with
  | insertRow mail now =>
    simp only [step, insertRow]
    split
    · exact Nat.le_refl _
    · split
      · exact Nat.le_refl _
      · exact Nat.le_succ _
  | cancelSuperseded => exact Nat.le_refl _
  | cancelOutranked => exact Nat.le_refl _
  | claim id worker leaseSeconds now =>
    simp only [step, claim]
    split
    · exact Nat.le_refl _
    · split <;> exact Nat.le_refl _
  | process k readable now =>
    simp only [step]
    split
    · split <;> exact Nat.le_refl _
    · exact Nat.le_refl _
  | answered k result now =>
    simp only [step]
    split
    · split <;> exact Nat.le_refl _
    · exact Nat.le_refl _
  | write k fault now =>
    simp only [step]
    split
    · unfold write
      split
      · exact Nat.le_refl _
      · split <;> exact Nat.le_refl _
    · exact Nat.le_refl _
  | purgeFinished now => exact Nat.le_refl _

theorem Inv.step (h : s.Inv) (a : Action) : (s.step a).Inv := by
  have hfollows := follows_step s a
  -- the worker of a row, once more
  have hheld : ∀ {id : ℕ} {r : Row} (r' : Row), RowInv s id r → r.status = .sending →
      r'.claimToken = r.claimToken → r'.attempts = r.attempts → r'.maxAttempts = r.maxAttempts →
      ∃ (k : ℕ) (w : Held), r'.claimToken = some k ∧ (s.step a).held[k]? = some w ∧ w.id = id ∧
        w.attempts = r'.attempts ∧ w.maxAttempts = r'.maxAttempts := by
    intro id r r' hr hs ht hatt hmax
    obtain ⟨k, w, htoken, hk, hid, hatt', hmax'⟩ := hr.held hs
    obtain ⟨stage, hk', -⟩ := hfollows.kept k w hk
    exact ⟨k, _, ht.trans htoken, hk', hid, hatt'.trans hatt.symm, hmax'.trans hmax.symm⟩
  refine ⟨fun id r' hr' => ?_, fun k w hw => ?_, fun id r' hr' => ?_⟩
  · have hch := change_cases h.get_made a id
    rw [hr'] at hch
    generalize hget : s.rows.get id = o at hch
    cases hch with
    | same => exact Nat.lt_of_lt_of_le (h.made id r' hget) (made_le_step s a)
    | made _ _ hid => exact hid
    | cancelled r => exact Nat.lt_of_lt_of_le (h.made id r hget) (made_le_step s a)
    | claimed r => exact Nat.lt_of_lt_of_le (h.made id r hget) (made_le_step s a)
    | completed r => exact Nat.lt_of_lt_of_le (h.made id r hget) (made_le_step s a)
  · cases hk : s.held[k]? with
    | some w' =>
      obtain ⟨stage, hw', hsane⟩ := hfollows.kept k w' hk
      obtain ⟨htoken, hs⟩ := h.tokens k w' hk
      rw [hw] at hw'
      cases hw'
      exact ⟨htoken, hsane hs⟩
    | none =>
      obtain ⟨-, htoken, hstage, -⟩ := hfollows.new k w hw hk
      exact ⟨htoken, by simp [Sane, hstage]⟩
  · have hch := change_cases h.get_made a id
    rw [hr'] at hch
    generalize hget : s.rows.get id = o at hch
    cases hch with
    | same =>
      have hr := h.rows id r' hget
      exact ⟨hr.claims, hr.free, fun hs => hheld r' hr hs rfl rfl rfl⟩
    | made _ _ _ hp ht hc =>
      refine ⟨?_, fun _ => ht, fun hs => ?_⟩
      · rw [hc]
        exact Nat.zero_le _
      · rw [hp] at hs
        cases hs
    | cancelled r now hp =>
      have hr := h.rows id r hget
      unfold superseded
      rw [if_pos hp]
      refine ⟨hr.claims, fun _ => hr.free ?_, fun hs => ?_⟩
      · rw [hp]
        decide
      · cases hs
    | claimed r _ worker leaseSeconds now ha hdue hs ht hatt hc hmax hw =>
      have hr := h.rows id r hget
      refine ⟨?_, fun hno => absurd hs hno, fun _ => ?_⟩
      · rw [hc, hatt]
        exact Nat.succ_le_succ hr.claims
      · obtain ⟨w, hw, hid, hatt', hmax'⟩ := hw
        exact ⟨_, w, ht, hw, hid, hatt', hmax'⟩
    | completed r w k fault o now ha hk hid ho _ ht hs =>
      have hr := h.rows id r hget
      cases o with
      | finish status p m c e =>
        have hfinal := (h.tokens k w hk).2.final ho
        refine ⟨hr.claims, fun _ => rfl, fun hsending => ?_⟩
        change status = .sending at hsending
        rw [hsending] at hfinal
        cases hfinal
      | retryLater at_ p c e => exact ⟨hr.claims, fun _ => rfl, fun hsending => nomatch hsending⟩

/-- What a row is while the attempts are within their limit: one that waits has one left. -/
def Capped (s : Outbox) : Prop :=
  ∀ id r, s.rows.get id = some r →
    r.attempts ≤ r.maxAttempts ∧ (r.status = .pending → r.attempts < r.maxAttempts)

end Outbox

/-- A claim that takes a lease over, and a row that is given back after a fault, find an attempt left;
a mail is handed over by the worker that the row's token names. -/
def Heeds (s : Outbox) : Action → Prop
  | .claim id _ _ now => ∀ r ∈ s.rows.get id, r.status = .sending → Outbox.due now r →
      r.attempts < r.maxAttempts
  | .write k fault _ => ∀ h ∈ s.held[k]?, h.stage = .givingBack → fault ≠ .refused →
      ∀ r ∈ s.rows.get h.id, r.claimToken = some k → h.attempts < h.maxAttempts
  | .process k readable now => ∀ h ∈ s.held[k]?, h.stage = .claimed → now < h.giveUpAt → readable →
      (s.rows.get h.id).any fun r => r.claimToken = some k
  | _ => True

instance (s : Outbox) : (a : Action) → Decidable (Heeds s a)
  | .claim _ _ _ _ => inferInstanceAs (Decidable (∀ r ∈ _, _ → _ → _))
  | .write _ _ _ => inferInstanceAs (Decidable (∀ h ∈ _, _ → _ → ∀ r ∈ _, _ → _))
  | .process _ _ _ => inferInstanceAs (Decidable (∀ h ∈ _, _ → _ → _ → _))
  | .insertRow _ _ => isTrue trivial
  | .cancelSuperseded _ _ _ _ => isTrue trivial
  | .cancelOutranked _ _ => isTrue trivial
  | .answered _ _ _ => isTrue trivial
  | .purgeFinished _ => isTrue trivial

namespace Outbox

theorem Capped.step (h : s.Capped) (hi : s.Inv) (ha : Heeds s a) : (s.step a).Capped := by
  intro id r' hr'
  have hch := change_cases hi.get_made a id
  rw [hr'] at hch
  generalize hget : s.rows.get id = o at hch
  cases hch with
  | same => exact h id r' hget
  | made _ _ _ _ _ _ hlt => exact ⟨Nat.le_of_lt hlt, fun _ => hlt⟩
  | cancelled r now hp =>
    unfold superseded
    rw [if_pos hp]
    exact ⟨(h id r hget).1, fun hs => nomatch hs⟩
  | claimed r _ worker leaseSeconds now ha' hdue hs ht hatt hc hmax =>
    subst ha'
    have hlt : r.attempts < r.maxAttempts := by
      by_cases hp : r.status = .pending
      · exact (h id r hget).2 hp
      · refine ha r hget ?_ hdue
        revert hp hdue
        unfold due
        cases r.status <;> simp
    refine ⟨by omega, fun hp => ?_⟩
    rw [hs] at hp
    cases hp
  | completed r w k fault o now ha' hk hid ho hfault ht hs =>
    subst ha'
    obtain ⟨htoken, hsane⟩ := hi.tokens k w hk
    have hr := h id r hget
    cases o with
    | finish status p m c e =>
      have hfinal := hsane.final ho
      refine ⟨hr.1, fun hp => ?_⟩
      change status = .pending at hp
      rw [hp] at hfinal
      cases hfinal
    | retryLater at_ p c e =>
      have hlt : w.attempts < w.maxAttempts := by
        rcases hsane.retry ho with hlt | hback
        · exact hlt
        · exact ha w hk hback hfault r (hid ▸ hget) (htoken ▸ ht)
      -- the token names the one worker that has the row
      obtain ⟨k', w', ht', hk', -, hatt, hmax⟩ := (hi.rows id r hget).held hs
      rw [ht, htoken] at ht'
      cases ht'
      rw [hk] at hk'
      cases hk'
      exact ⟨hr.1, fun _ => show r.attempts < r.maxAttempts by omega⟩

def Stays (id : ℕ) (r : Row) (s : Outbox) : Prop :=
  id < s.made ∧ (s.rows.get id = some r ∨ s.rows.get id = none)

theorem Stays.step (hf : r.status.final = true) (hi : s.Inv) (h : Stays id r s) (a : Action)
    : Stays id r (s.step a) := by
  refine ⟨Nat.lt_of_lt_of_le h.1 (made_le_step s a), ?_⟩
  have hch := change_cases hi.get_made a id
  rcases h.2 with hget | hget
  · rw [hget] at hch
    generalize hget' : (s.step a).rows.get id = o at hch
    cases hch with
    | same => exact .inl rfl
    | cancelled _ _ hp => simp [hp, Status.final] at hf
    | claimed _ _ _ _ _ _ hdue =>
      revert hf hdue
      unfold due Status.final
      cases r.status <;> simp
    | completed _ _ _ _ _ _ _ _ _ _ _ _ hs => simp [hs, Status.final] at hf
    | purged => exact .inr rfl
  · rw [hget] at hch
    generalize hget' : (s.step a).rows.get id = o at hch
    cases hch with
    | same => exact .inr rfl
    | made _ hnew => exact absurd h.1 (Nat.not_lt.mpr hnew)

end Outbox

def reached (as : List Action) : Outbox := run Outbox.step {} as

def HandsOver (s : Outbox) (a : Action) (id : ℕ) : Prop :=
  ∃ (k : ℕ) (readable : Bool) (now : Int) (h : Held), a = .process k readable now ∧
    s.held[k]? = some h ∧ h.id = id ∧ h.stage = .claimed ∧ Outbox.process h readable now = .handed

/-- A row with a claim is written by the worker that holds it, or claimed when the lease ran out. -/
def WrittenByHolder (as : List Action) : Prop :=
  ∀ bs a cs id r t, as = bs ++ a :: cs → (reached bs).rows.get id = some r →
    r.claimToken = some t → (reached (bs ++ [a])).rows.get id ≠ some r →
    (∃ fault now h, a = .write t fault now ∧ (reached bs).held[t]? = some h ∧ h.id = id) ∨
      ∃ worker leaseSeconds now, a = .claim id worker leaseSeconds now ∧ Outbox.due now r

def FinalStays (as : List Action) : Prop :=
  ∀ bs cs ds id r, as = bs ++ cs ++ ds → (reached bs).rows.get id = some r → r.status.final →
    (reached (bs ++ cs)).rows.get id = some r ∨ (reached (bs ++ cs)).rows.get id = none

def HandedOnce (as : List Action) : Prop :=
  ∀ bs cs a ds id r, as = bs ++ cs ++ a :: ds → (reached bs).rows.get id = some r →
    r.status = .sent → ¬HandsOver (reached (bs ++ cs)) a id

def ClaimsWithin (as : List Action) : Prop :=
  ∀ id r, (reached as).rows.get id = some r → r.claims ≤ r.maxAttempts

theorem inv_reached (as : List Action) : (reached as).Inv :=
  run_invariant (I := Outbox.Inv) (fun _ a h => h.step a)
    ⟨by simp, by simp, by simp⟩ as

theorem reached_append (as bs : List Action) :
    reached (as ++ bs) = run Outbox.step (reached as) bs := run_append _ _ _ _

theorem stays_reached {bs : List Action} (hget : (reached bs).rows.get id = some r)
    (hf : r.status.final = true) (cs : List Action) : Outbox.Stays id r (reached (bs ++ cs)) := by
  rw [reached_append]
  refine (run_invariant (I := fun s : Outbox => s.Inv ∧ Outbox.Stays id r s)
    (fun s a h => ⟨h.1.step a, h.2.step hf h.1 a⟩) ?_ cs).2
  exact ⟨inv_reached bs, (inv_reached bs).made id r hget, .inl hget⟩

theorem capped_reached {as : List Action} (h : Meets Outbox.step Heeds {} as) :
    (reached as).Capped := by
  refine (run_keeps (I := fun s : Outbox => s.Inv ∧ s.Capped) (C := Heeds)
    (fun s a h ha => ⟨h.1.step a, h.2.step h.1 ha⟩) ?_ h).2
  exact ⟨inv_reached [], fun id r hr => by simp at hr⟩

theorem outbox_sends_once (as : List Action) (h : Meets Outbox.step Heeds {} as) :
    WrittenByHolder as ∧ FinalStays as ∧ ClaimsWithin as ∧ HandedOnce as := by
  refine ⟨?_, ?_, ?_, ?_⟩
  · rintro bs a cs id r t rfl hget ht hne
    have hi := inv_reached bs
    have hr := hi.rows id r hget
    have hch := Outbox.change_cases hi.get_made a id
    rw [reached_append] at hne
    change ((reached bs).step a).rows.get id ≠ some r at hne
    rw [hget] at hch
    generalize hget' : ((reached bs).step a).rows.get id = o at hch hne
    cases hch with
    | same => exact absurd rfl hne
    | cancelled _ _ hp =>
      have hnone := hr.free (by rw [hp]; decide)
      rw [hnone] at ht
      cases ht
    | claimed _ _ worker leaseSeconds now ha hdue => exact .inr ⟨worker, leaseSeconds, now, ha, hdue⟩
    | completed _ w k fault o now ha hk hid ho hfault ht' hs =>
      have htoken := (hi.tokens k w hk).1
      rw [ht, htoken] at ht'
      cases ht'
      exact .inl ⟨fault, now, w, ha, hk, hid⟩
    | purged _ hf =>
      have hnone := hr.free fun hs => by simp [hs, Status.final] at hf
      rw [hnone] at ht
      cases ht
  · rintro bs cs ds id r rfl hget hf
    exact (stays_reached hget hf cs).2
  · intro id r hget
    exact Nat.le_trans ((inv_reached as).rows id r hget).claims (capped_reached h id r hget).1
  · rintro bs cs a ds id r rfl hget hs ⟨k, readable, now, w, rfl, hk, rfl, hstage, hhanded⟩
    have hf : r.status.final = true := by
      rw [hs]
      rfl
    have hheeds : Heeds (reached (bs ++ cs)) (.process k readable now) := h.append_right.1
    have hgoes : now < w.giveUpAt ∧ readable = true := by
      unfold Outbox.process at hhanded
      split at hhanded
      · cases hhanded
      · rename_i hlate
        split at hhanded
        · cases hhanded
        · rename_i hreadable
          exact ⟨Int.not_le.mp hlate, by simpa using hreadable⟩
    obtain ⟨r', hget', ht⟩ := (Option.any_eq_true _ _).mp (hheeds w hk hstage hgoes.1 hgoes.2)
    rcases (stays_reached hget hf cs).2 with hsame | hnone
    · rw [hsame] at hget'
      cases hget'
      have hfree := ((inv_reached (bs ++ cs)).rows _ _ hsame).free (by rw [hs]; decide)
      simp [hfree] at ht
    · rw [hnone] at hget'
      cases hget'

def receipt : NewMail :=
  { payload := "sealed", maxAttempts := some 1, startedAt := 0, nextAttemptAt := 0 }

def taken : SendResult := { success := true, provider := some "relay" }

theorem outbox_sends_once_receipt :
    let as : List Action := [.insertRow receipt 0, .claim 0 "worker-a" none 0, .process 0 true 1000,
      .answered 0 (some taken) 2000, .write 0 .none 3000]
    WrittenByHolder as ∧ FinalStays as ∧ ClaimsWithin as ∧ HandedOnce as :=
  outbox_sends_once _ (by decide +kernel)

def claimedTwice : List Action :=
  [.insertRow receipt 0, .claim 0 "worker-a" none 0, .claim 0 "worker-b" none 130000]

def sentBySecond : List Action :=
  [.process 1 true 131000, .answered 1 (some taken) 132000, .write 1 .none 133000]

/-- It is claimed more often than it may be tried, and the first worker hands it over although the
second one has recorded that it is sent. -/
theorem claimed_and_handed_again :
    ¬ClaimsWithin claimedTwice ∧
    ¬HandedOnce (claimedTwice ++ sentBySecond ++ [.process 0 true 134000]) := by
  constructor
  · intro h
    have hclaims : ((reached claimedTwice).rows.get 0).any fun r => r.maxAttempts < r.claims := by
      decide +kernel
    obtain ⟨r, hr, hlt⟩ := (Option.any_eq_true _ _).mp hclaims
    have hle := h 0 r hr
    simp only [decide_eq_true_eq] at hlt
    omega
  · intro h
    have hsent : ((reached (claimedTwice ++ sentBySecond)).rows.get 0).any fun r =>
        r.status = .sent := by decide +kernel
    obtain ⟨r, hr, hs⟩ := (Option.any_eq_true _ _).mp hsent
    have hheld : ((reached (claimedTwice ++ sentBySecond)).held[0]?).any fun w =>
        w.id = 0 ∧ w.stage = .claimed ∧ Outbox.process w true 134000 = .handed := by decide +kernel
    obtain ⟨w, hw, hfacts⟩ := (Option.any_eq_true _ _).mp hheld
    obtain ⟨hid, hstage, hhanded⟩ := of_decide_eq_true hfacts
    refine h (claimedTwice ++ sentBySecond) [] (.process 0 true 134000) [] 0 r (by simp) hr (by simpa using hs) ?_
    rw [List.append_nil]
    exact ⟨0, true, 134000, w, rfl, hw, hid, hstage, hhanded⟩

end Kindred.Email
