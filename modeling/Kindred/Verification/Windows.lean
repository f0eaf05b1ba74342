import Kindred.Verification.OneLive
import Mathlib.Algebra.Order.BigOperators.Group.List

/-! How many challenges are made in a window, with any number of transactions under way. Every
statement sees what is committed; an advisory lock is kept until its transaction ends. -/

namespace Kindred.Verification
open Lib (Table run run_invariant)
open Lib.Tx

structure PurposePolicy where
  resendCooldownSeconds : ℕ
  maxSendsPerWindow : ℕ
  rateWindowSeconds : ℕ
  maxVerificationAttempts : ℕ

def clampPolicy (p : PurposePolicy) : PurposePolicy where
  resendCooldownSeconds := max p.resendCooldownSeconds 30
  maxSendsPerWindow := min p.maxSendsPerWindow 5
  rateWindowSeconds := min p.rateWindowSeconds 3600
  maxVerificationAttempts := min p.maxVerificationAttempts 8

def rawPolicies : List (String × PurposePolicy) := [
  ("signup_email", ⟨60, 5, 3600, 5⟩), ("signup_phone", ⟨60, 5, 3600, 5⟩),
  ("password_reset", ⟨60, 3, 3600, 5⟩), ("login_step_up", ⟨45, 5, 1800, 5⟩),
  ("change_email", ⟨60, 5, 3600, 5⟩), ("change_phone", ⟨60, 5, 3600, 5⟩),
  ("sensitive_action", ⟨60, 3, 1800, 5⟩), ("workspace_invitation", ⟨60, 5, 3600, 5⟩),
  ("commerce_order_lookup", ⟨60, 3, 1800, 5⟩)]

def getPurposePolicy (purpose : String) : Option PurposePolicy :=
  (rawPolicies.lookup purpose).map clampPolicy

def NewChallenge.under (p : PurposePolicy) (r : NewChallenge) : NewChallenge :=
  { r with
    maxAttempts := some p.maxVerificationAttempts
    maxSends := some p.maxSendsPerWindow
    resendCooldownSeconds := some p.resendCooldownSeconds
    rateWindowSeconds := some p.rateWindowSeconds
    maxPerWindow := some p.maxSendsPerWindow }

/-- A bucket, which is also what its advisory lock is of. -/
inductive Bucket where
  | purpose (purpose channel : Option String)
  | destination (destinationHash purpose channel : Option String)
  | ip (requestIpHash : Option String)
  | subject (subjectRefHash purpose : Option String)
  | workspace (workspaceId : Option Id) (purpose : Option String)
  deriving DecidableEq

def Bucket.holds : Bucket → Challenge → Bool
  | .purpose p ch => fun c => some c.purpose == p && some c.channel == ch
  | .destination hash p ch => fun c =>
    some c.destinationHash == hash && some c.purpose == p && some c.channel == ch
  | .ip hash => fun c => c.requestIpHash == hash
  | .subject hash p => fun c => c.subjectRefHash == hash && some c.purpose == p
  | .workspace id p => fun c => c.workspaceId == id && some c.purpose == p

namespace NewChallenge

def destinationBucket (r : NewChallenge) : Bucket :=
  .destination r.destinationHash r.purpose r.channel

def subjectBucket (r : NewChallenge) : List Bucket :=
  if r.subjectRefHash.isSome then [.subject r.subjectRefHash r.purpose] else []

def buckets (r : NewChallenge) : List Bucket :=
  (if r.globalMaxPerWindow.isSome then [.purpose r.purpose r.channel] else []) ++
    (r.destinationBucket :: (if r.requestIpHash.isSome then [.ip r.requestIpHash] else []) ++
      r.subjectBucket ++
      if r.workspaceId.isSome then [.workspace r.workspaceId r.purpose] else [])

def admits (r : NewChallenge) (now : Timestamp) (db : Db) (b : Bucket) : Except Err Unit :=
  match b with
  | .purpose .. => rateLimit (db.recent now r.globalWindowSeconds b.holds) r.globalMaxPerWindow
  | .destination .. => do
    let sent := db.recent now r.rateWindowSeconds b.holds
    if sent.any fun c => r.resendCooldownSeconds.any fun s => now - seconds s < c.createdAt then
      throw .verificationRateLimited
    rateLimit sent r.maxPerWindow
  | .ip _ => do
    rateLimit (db.recent now r.rateWindowSeconds b.holds) (← r.maxPerWindow.mapM (times · 10))
  | .subject .. => rateLimit (db.recent now r.rateWindowSeconds b.holds) r.maxPerWindow
  | .workspace .. => do
    rateLimit (db.recent now r.rateWindowSeconds b.holds) (← r.maxPerWindow.mapM (times · 5))

theorem rateLimits_eq (r : NewChallenge) (now : Timestamp) (db : Db) :
    r.rateLimits now db = r.buckets.forM (r.admits now db) := by
  unfold rateLimits buckets destinationBucket subjectBucket
  by_cases hg : r.globalMaxPerWindow.isSome <;> by_cases hi : r.requestIpHash.isSome <;>
    by_cases hs : r.subjectRefHash.isSome <;> by_cases hw : r.workspaceId.isSome <;>
    simp only [hg, hi, hs, hw, admits, Bucket.holds, List.forM_eq_forM, List.forM_cons,
      List.forM_nil, List.cons_append, List.nil_append, List.append_nil, if_true, if_false,
      bind_assoc, bind_pure_unit, Bool.false_eq_true] <;>
    split <;> rename_i hsent <;> simp only [hsent, if_true, if_false, Bool.false_eq_true] <;> rfl

def checked (r : NewChallenge) : NewChallenge :=
  { r with globalMaxPerWindow := none, rateWindowSeconds := none, maxPerWindow := none }

theorem rateLimits_checked (r : NewChallenge) (now : Timestamp) (db : Db) :
    r.checked.rateLimits now db = .ok () := by
  have hnone : ∀ bucket, db.recent now none bucket = [] := by simp [Db.recent]
  unfold rateLimits
  by_cases hi : r.requestIpHash.isSome <;> by_cases hs : r.subjectRefHash.isSome <;>
    by_cases hw : r.workspaceId.isSome <;>
    simp only [checked, hnone, hi, hs, hw, List.any_nil, if_true, if_false, Bool.false_eq_true] <;>
    rfl

end NewChallenge

theorem gvCreateChallengeRow_eq (now : Timestamp) (r : NewChallenge) (db : Db) :
    gvCreateChallengeRow now r db =
      (r.buckets.forM (r.admits now db) >>= fun _ => gvCreateChallengeRow now r.checked db) := by
  rw [← r.rateLimits_eq]
  unfold gvCreateChallengeRow
  rw [get_bind, get_bind, r.rateLimits_checked]
  cases r.rateLimits now db <;> rfl

structure Making where
  now : Timestamp
  row : NewChallenge
  left : List Bucket
  held : List Bucket

structure Sessions where
  db : Db
  making : Table ℕ Making := .empty

inductive Event where
  | begin (k : ℕ) (now : Timestamp) (row : NewChallenge)
  | lock (k : ℕ)
  | count (k : ℕ)
  | commit (k : ℕ) (revoked : List Id)
  | abort (k : ℕ)
  | call (ledger : Table String LedgerRow) (c : Call)

def Call.isPrepare : Call → Bool
  | .prepare .. => true
  | _ => false

def Sessions.free (s : Sessions) (k : ℕ) (b : Bucket) : Bool :=
  s.making.rows.all fun r => r.1 = k || !r.2.held.contains b

def Db.revoke (db : Db) (ids : List Id) : Db :=
  { db with challenges := db.challenges.mapKeyed fun id c =>
      if ids.contains id && c.status.resendable then { c with status := .revoked } else c }

def Sessions.next (policy : String → Option PurposePolicy) (s : Sessions) :
    Event → Option Sessions
  | .begin k now row => do
    let p ← row.purpose.bind policy
    guard ((s.making.get k).isNone)
    let row := row.under p
    return { s with making := s.making.put k { now, row, left := row.buckets, held := [] } }
  | .lock k => do
    let m ← s.making.get k
    let b ← m.left.head?
    guard (s.free k b)
    return { s with making := s.making.put k { m with held := b :: m.held } }
  | .count k => do
    let m ← s.making.get k
    let b ← m.left.head?
    guard (m.held.contains b)
    match m.row.admits m.now s.db b with
    | .ok () => return { s with making := s.making.put k { m with left := m.left.tail } }
    | .error _ => return { s with making := s.making.erase k }
  | .commit k revoked => do
    let m ← s.making.get k
    guard m.left.isEmpty
    return { db := commit (modify (Db.revoke · revoked) >>= fun _ =>
        gvCreateChallengeRow m.now m.row.checked) s.db, making := s.making.erase k }
  | .abort k => return { s with making := s.making.erase k }
  | .call ledger c => do
    guard (!c.isPrepare)
    return { s with db := { s.db with idempotency := ledger }.step c }

def Sessions.step (policy : String → Option PurposePolicy) (s : Sessions) (e : Event) : Sessions :=
  (s.next policy e).getD s

def Bucket.policy (policy : String → Option PurposePolicy) : Bucket → Option PurposePolicy
  | .destination _ kind _ | .subject (some _) kind => kind.bind policy
  | _ => none

/-- What is in the bucket of the window that begins at `start`. -/
def Bucket.window (b : Bucket) (p : PurposePolicy) (start : Timestamp) (r : Id × Challenge) : Bool :=
  b.holds r.2 && start ≤ r.2.createdAt && r.2.createdAt < start + seconds p.rateWindowSeconds

structure RateLimited (policy : String → Option PurposePolicy) (t : Table Id Challenge) :
    Prop where
  apart : ∀ hash purpose channel p id id' c c', purpose.bind policy = some p →
    p.resendCooldownSeconds ≤ p.rateWindowSeconds →
    t.get id = some c → t.get id' = some c' → id ≠ id' →
    (Bucket.destination hash purpose channel).holds c →
    (Bucket.destination hash purpose channel).holds c' →
      c.createdAt + seconds p.resendCooldownSeconds ≤ c'.createdAt ∨
        c'.createdAt + seconds p.resendCooldownSeconds ≤ c.createdAt
  window : ∀ (b : Bucket) (p : PurposePolicy) start, b.policy policy = some p →
    t.rows.countP (b.window p start) ≤ p.maxSendsPerWindow
  attempts : ∀ id c p, t.get id = some c → policy c.purpose = some p →
    c.maxAttempts = p.maxVerificationAttempts

structure Room (p : PurposePolicy) (now : Timestamp) (t : Table Id Challenge) (b : Bucket) :
    Prop where
  count : (t.rows.countP fun r => b.holds r.2 && now - seconds p.rateWindowSeconds < r.2.createdAt) <
    p.maxSendsPerWindow
  rested : ∀ hash purpose channel id c, b = .destination hash purpose channel →
    p.resendCooldownSeconds ≤ p.rateWindowSeconds → t.get id = some c → b.holds c →
      c.createdAt + seconds p.resendCooldownSeconds ≤ now

variable {policy : String → Option PurposePolicy} {db db' : Db} {p : PurposePolicy}
  {now : Timestamp} {b : Bucket} {t : Table Id Challenge} {c : Challenge} {u : Table Id Challenge}
  {s : Sessions} {k : ℕ} {m : Making}

theorem Bucket.holds_of_made {c' : Challenge} (h : c'.made = c.made) : b.holds c' = b.holds c := by
  have hholds : ∀ c : Challenge, b.holds c.made = b.holds c := by
    cases b <;> exact fun _ => rfl
  rw [← hholds c', h, hholds]

variable {r : NewChallenge}

theorem Bucket.mem_buckets (hc : r.Makes now c) (hb : b.policy policy = some p) (hholds : b.holds c)
    : b ∈ r.buckets ∧ r.purpose.bind policy = some p := by
  cases b with
  | destination hash purpose channel =>
    simp only [holds, Bool.and_eq_true, beq_iff_eq] at hholds
    obtain ⟨⟨hhash, hpurpose⟩, hchannel⟩ := hholds
    rw [Bucket.policy, ← hpurpose, ← hc.purpose] at hb
    refine ⟨?_, hb⟩
    rw [← hhash, ← hpurpose, ← hchannel, ← hc.destinationHash, ← hc.purpose, ← hc.channel]
    simp [NewChallenge.buckets, NewChallenge.destinationBucket]
  | subject hash purpose =>
    simp only [holds, Bool.and_eq_true, beq_iff_eq] at hholds
    obtain ⟨hhash, hpurpose⟩ := hholds
    cases hash with
    | none => cases hb
    | some hash =>
      rw [Bucket.policy, ← hpurpose, ← hc.purpose] at hb
      refine ⟨?_, hb⟩
      have hsubject := hc.subjectRefHash.trans hhash
      rw [← hpurpose, ← hc.purpose]
      simp [NewChallenge.buckets, NewChallenge.subjectBucket, hsubject]
  | _ => cases hb

theorem Room.mono (h : Room p now t b)
    (hu : ∀ id c', u.get id = some c' → b.holds c' → ∃ c, t.get id = some c ∧ c'.made = c.made) :
    Room p now u b := by
  refine ⟨(Table.countP_le_countP fun id c' hc' hp => ?_).trans_lt h.count,
    fun hash purpose channel id c' hb hfits hc' hholds => ?_⟩
  · simp only [Bool.and_eq_true] at hp ⊢
    obtain ⟨c, hc, hmade⟩ := hu id c' hc' hp.1
    have hcreated : c'.createdAt = c.createdAt := congrArg (·.createdAt) hmade
    rw [Bucket.holds_of_made hmade, hcreated] at hp
    exact ⟨c, hc, hp⟩
  · obtain ⟨c, hc, hmade⟩ := hu id c' hc' hholds
    have hcreated : c'.createdAt = c.createdAt := congrArg (·.createdAt) hmade
    rw [Bucket.holds_of_made hmade] at hholds
    rw [hcreated]
    exact h.rested hash purpose channel id c hb hfits hc hholds

theorem length_recent (db : Db) (now : Timestamp) (w : Int) (bucket : Challenge → Bool) :
    (db.recent now (some w) bucket).length =
      db.challenges.rows.countP fun r => bucket r.2 && now - seconds w < r.2.createdAt := by
  simp only [Db.recent, List.countP_eq_length_filter, List.filter_map, List.length_map,
    Option.any_some]
  rfl

theorem rateLimit_ok {recent : List Challenge} {n : ℕ}
    (h : rateLimit recent (some (n : Int)) = .ok ()) : recent.length < n := by
  unfold rateLimit at h
  split at h
  · cases h
  · rename_i hless
    simpa using hless

theorem room_of_admits (hunder : r.under p = r) (hb : (b.policy policy).isSome)
    (h : r.admits now db b = .ok ()) : Room p now db.challenges b := by
  have hwindow : r.rateWindowSeconds = some (p.rateWindowSeconds : Int) := by rw [← hunder]; rfl
  have hmax : r.maxPerWindow = some (p.maxSendsPerWindow : Int) := by rw [← hunder]; rfl
  have hcooldown : r.resendCooldownSeconds = some (p.resendCooldownSeconds : Int) := by
    rw [← hunder]; rfl
  cases b with
  | destination hash purpose channel =>
    simp only [NewChallenge.admits, hwindow, hmax, hcooldown, Option.any_some] at h
    split at h
    · cases h
    · rename_i hsent
      have hcount := rateLimit_ok h
      rw [length_recent] at hcount
      refine ⟨hcount, fun _ _ _ id c _ hfits hc hholds => ?_⟩
      by_contra hlate
      refine hsent (List.any_eq_true.mpr ⟨c, ?_, ?_⟩)
      · simp only [Db.recent, List.mem_filter, List.mem_map, hholds, Bool.true_and,
          Option.any_some, decide_eq_true_eq]
        have hle : seconds p.resendCooldownSeconds ≤ seconds p.rateWindowSeconds := by
          unfold seconds
          omega
        exact ⟨⟨(id, c), Table.get_eq_some_iff_mem.mp hc, rfl⟩,
          sub_lt_iff_lt_add.mpr ((not_le.mp hlate).trans_le (add_le_add_right hle _))⟩
      · exact decide_eq_true (sub_lt_iff_lt_add.mpr (not_le.mp hlate))
  | subject hash purpose =>
    simp only [NewChallenge.admits, hwindow, hmax] at h
    have hcount := rateLimit_ok h
    rw [length_recent] at hcount
    exact ⟨hcount, fun _ _ _ _ _ heq => nomatch heq⟩
  | _ => cases hb

theorem RateLimited.aged (h : RateLimited policy t) (ht : Aged t u) : RateLimited policy u := by
  refine ⟨fun hash purpose channel p id id' c c' hp hfits hc hc' hne hb hb' => ?_,
    fun b p start hb => ?_, fun id c p hc hp => ?_⟩
  · obtain ⟨o, ho, hages⟩ := ht id c hc
    obtain ⟨o', ho', hages'⟩ := ht id' c' hc'
    rw [Bucket.holds_of_made hages.1] at hb
    rw [Bucket.holds_of_made hages'.1] at hb'
    have hcreated : c.createdAt = o.createdAt := congrArg (·.createdAt) hages.1
    have hcreated' : c'.createdAt = o'.createdAt := congrArg (·.createdAt) hages'.1
    rw [hcreated, hcreated']
    exact h.apart hash purpose channel p id id' o o' hp hfits ho ho' hne hb hb'
  · refine (Table.countP_le_countP fun id c hc hin => ?_).trans (h.window b p start hb)
    obtain ⟨o, ho, hages⟩ := ht id c hc
    have hcreated : c.createdAt = o.createdAt := congrArg (·.createdAt) hages.1
    rw [Bucket.window, Bucket.holds_of_made hages.1, hcreated] at hin
    exact ⟨o, ho, hin⟩
  · obtain ⟨o, ho, hages⟩ := ht id c hc
    have hmax : c.maxAttempts = o.maxAttempts := congrArg (·.maxAttempts) hages.1
    have hpurpose : c.purpose = o.purpose := congrArg (·.purpose) hages.1
    rw [hmax]
    exact h.attempts id o p ho (hpurpose ▸ hp)

/-- A challenge is put where there is room for it. -/
theorem RateLimited.put {id : Id} (h : RateLimited policy t)
    (hroom : ∀ b p, b.policy policy = some p → b.holds c → Room p c.createdAt t b)
    (hattempts : ∀ p, policy c.purpose = some p → c.maxAttempts = p.maxVerificationAttempts) :
    RateLimited policy (t.put id c) := by
  refine ⟨fun hash purpose channel p k k' o o' hp hfits ho ho' hne hb hb' => ?_,
    fun b p start hb => ?_, fun k o p ho hp => ?_⟩
  · rw [Table.get_put] at ho ho'
    split at ho <;> split at ho'
    · rename_i hk hk'
      exact absurd (hk.trans hk'.symm) hne
    · cases ho
      exact .inr ((hroom (.destination hash purpose channel) p hp hb).rested _ _ _ k' o' rfl hfits
        ho' hb')
    · cases ho'
      exact .inl ((hroom (.destination hash purpose channel) p hp hb').rested _ _ _ k o rfl hfits
        ho hb)
    · exact h.apart hash purpose channel p k k' o o' hp hfits ho ho' hne hb hb'
  · have hold : ∀ k o, k ≠ id → (t.put id c).get k = some o → t.get k = some o := by
      intro k o hk ho
      rwa [Table.get_put_ne _ _ hk] at ho
    rw [Table.countP_split _ id]
    by_cases hin : b.window p start (id, c)
    · have hone := (t.put id c).countP_key_le id (b.window p start)
      simp only [Bucket.window, Bool.and_eq_true, decide_eq_true_eq] at hin
      -- the others in the window are all younger than the reach of the one that counted them
      have hothers := (Table.countP_le_countP (t := t) (u := (t.put id c))
        (p := fun r => b.window p start r && decide (r.1 ≠ id)) fun k o ho hp => by
          simp only [Bucket.window, Bool.and_eq_true, decide_eq_true_eq] at hp ⊢
          exact ⟨o, hold k o hp.2 ho, hp.1.1.1,
            (sub_lt_iff_lt_add.mpr hin.2).trans_le hp.1.1.2⟩).trans_lt
        (hroom b p hb hin.1.1).count
      omega
    · have hnone : ((t.put id c).rows.countP fun r => b.window p start r && r.1 = id) = 0 := by
        rw [List.countP_eq_zero]
        intro r hr hp
        simp only [Bool.and_eq_true, decide_eq_true_eq] at hp
        have hget := Table.get_eq_some_iff_mem.mpr hr
        rw [hp.2, Table.get_put_self] at hget
        cases hget
        exact hin (hp.2 ▸ hp.1)
      rw [hnone]
      refine (Table.countP_le_countP fun k o ho hp => ?_).trans (h.window b p start hb)
      simp only [Bool.and_eq_true, decide_eq_true_eq] at hp
      exact ⟨o, hold k o hp.2 ho, hp.1⟩
  · rw [Table.get_put] at ho
    split at ho
    · cases ho
      exact hattempts p hp
    · exact h.attempts k o p ho hp

/-- A transaction holds the lock of each bucket that it has counted, and there is room in it. -/
def Making.Sound (policy : String → Option PurposePolicy) (t : Table Id Challenge) (m : Making) :
    Prop :=
  ∃ p, m.row.purpose.bind policy = some p ∧ m.row.under p = m.row ∧
    ∀ b ∈ m.row.buckets, (b.policy policy).isSome → b ∈ m.left ∨ b ∈ m.held ∧ Room p m.now t b

structure Sessions.Sound (policy : String → Option PurposePolicy) (s : Sessions) : Prop where
  consistent : s.db.Consistent
  limited : RateLimited policy s.db.challenges
  alone : ∀ k k' m m' b, s.making.get k = some m → s.making.get k' = some m' →
    b ∈ m.held → b ∈ m'.held → k = k'
  making : ∀ k m, s.making.get k = some m → m.Sound policy s.db.challenges

theorem Sessions.Sound.put (h : s.Sound policy) (hm : m.Sound policy s.db.challenges)
    (hfree : ∀ k' m' b, k' ≠ k → s.making.get k' = some m' → b ∈ m.held → b ∉ m'.held) :
    Sessions.Sound policy { s with making := s.making.put k m } := by
  refine ⟨h.consistent, h.limited, fun k₁ k₂ m₁ m₂ b h₁ h₂ hb₁ hb₂ => ?_, fun k' m' hm' => ?_⟩
  · rw [Table.get_put] at h₁ h₂
    split at h₁ <;> split at h₂
    · rename_i hk₁ hk₂
      exact hk₁.trans hk₂.symm
    · rename_i hk₂
      cases h₁
      exact absurd hb₂ (hfree k₂ m₂ b hk₂ h₂ hb₁)
    · rename_i hk₁ _
      cases h₂
      exact absurd hb₁ (hfree k₁ m₁ b hk₁ h₁ hb₂)
    · exact h.alone k₁ k₂ m₁ m₂ b h₁ h₂ hb₁ hb₂
  · rw [Table.get_put] at hm'
    split at hm'
    · cases hm'
      exact hm
    · exact h.making k' m' hm'

theorem Sessions.of_erase {k' : ℕ} {m' : Making} (h : (s.making.erase k).get k' = some m') :
    k' ≠ k ∧ s.making.get k' = some m' := by
  rw [Table.get_erase] at h
  split at h
  · cases h
  · exact ⟨‹_›, h⟩

theorem Sessions.Sound.erase (h : s.Sound policy) :
    Sessions.Sound policy { s with making := s.making.erase k } :=
  ⟨h.consistent, h.limited,
    fun k₁ k₂ m₁ m₂ b h₁ h₂ => h.alone k₁ k₂ m₁ m₂ b (of_erase h₁).2 (of_erase h₂).2,
    fun k' m' hm' => h.making k' m' (of_erase hm').2⟩

theorem Making.Sound.mono (h : m.Sound policy t)
    (hu : ∀ b ∈ m.held, (b.policy policy).isSome → ∀ id c', u.get id = some c' → b.holds c' →
      ∃ c, t.get id = some c ∧ c'.made = c.made) : m.Sound policy u := by
  obtain ⟨p, hp, hunder, hbuckets⟩ := h
  exact ⟨p, hp, hunder, fun b hb hpolicy => (hbuckets b hb hpolicy).imp_right fun hheld =>
    ⟨hheld.1, hheld.2.mono (hu b hheld.1 hpolicy)⟩⟩

theorem guard_bind_some {α : Type} {c : Prop} [Decidable c] {f : Unit → Option α} {a : α} :
    (guard c >>= f) = some a ↔ c ∧ f () = some a := by
  by_cases hc : c <;> simp [guard, hc]

theorem Sessions.Sound.call (h : s.Sound policy) (hconsistent : db'.Consistent)
    (haged : Aged s.db.challenges db'.challenges) : Sessions.Sound policy { s with db := db' } :=
  ⟨hconsistent, h.limited.aged haged, h.alone, fun k m hm => (h.making k m hm).mono
    fun _ _ _ id c' hc' _ => (haged id c' hc').imp fun _ hages => ⟨hages.1, hages.2.1⟩⟩

theorem Db.revoke_moved (db : Db) (ids : List Id) :
    Moved db.challenges (db.revoke ids).challenges := by
  intro id
  simp only [Db.revoke, Table.get_mapKeyed]
  cases db.challenges.get id with
  | none => exact .none
  | some c =>
    refine .some ?_
    dsimp only
    split
    · exact .to_status (by decide) rfl
    · exact .refl c

theorem Sessions.Sound.commit (h : s.Sound policy) (hm : s.making.get k = some m)
    (hleft : m.left = []) {revoked : List Id} {created : Created}
    (hok : gvCreateChallengeRow m.now m.row.checked (s.db.revoke revoked) = .ok (created, db')) :
    Sessions.Sound policy { db := db', making := s.making.erase k } := by
  obtain ⟨c, hchecked, -, rfl⟩ := gvCreateChallengeRow_ok hok
  have hmakes : m.row.Makes m.now c :=
    ⟨hchecked.status, hchecked.attemptCount, hchecked.createdAt, hchecked.destinationHash,
      hchecked.purpose, hchecked.channel, hchecked.workspaceId, hchecked.subjectRefHash,
      hchecked.maxAttempts⟩
  have hmoved := s.db.revoke_moved revoked
  have haged := hmoved.aged
  obtain ⟨p, hp, hunder, hbuckets⟩ := h.making k m hm
  have hheld : ∀ b p', b.policy policy = some p' → b.holds c →
      b ∈ m.held ∧ Room p m.now s.db.challenges b ∧ p' = p := by
    intro b p' hpolicy hholds
    obtain ⟨hb, hp'⟩ := Bucket.mem_buckets hmakes hpolicy hholds
    rcases hbuckets b hb (by simp [hpolicy]) with hin | hin
    · rw [hleft] at hin
      cases hin
    · exact ⟨hin.1, hin.2, Option.some.inj (hp'.symm.trans hp)⟩
  refine ⟨h.consistent.adds ⟨rfl, hmakes.status, hmakes.attemptCount, hmoved, rfl,
    Nat.lt_succ_self _, rfl, rfl⟩, (h.limited.aged haged).put (fun b p' hpolicy hholds => ?_)
      fun p' hp' => ?_, h.erase.alone, fun k' m' hm' => (h.erase.making k' m' hm').mono
      fun b hb hpolicy id c' hc' hholds => ?_⟩
  · obtain ⟨-, hroom, rfl⟩ := hheld b p' hpolicy hholds
    rw [hmakes.createdAt]
    exact hroom.mono fun id c' hc' _ => (haged id c' hc').imp fun _ hages => ⟨hages.1, hages.2.1⟩
  · have hpurpose : some p' = some p := by rw [← hp', ← hp, hmakes.purpose]; rfl
    have hmax : m.row.maxAttempts = some (p.maxVerificationAttempts : Int) := by rw [← hunder]; rfl
    rw [Option.some.inj hpurpose]
    exact Option.some.inj (hmakes.maxAttempts.symm.trans hmax)
  · rw [Table.get_put] at hc'
    split at hc'
    · -- its bucket is the other's, who would hold the lock
      cases hc'
      obtain ⟨p', hpolicy⟩ := Option.isSome_iff_exists.mp hpolicy
      obtain ⟨hne, hm'⟩ := Sessions.of_erase hm'
      exact absurd (h.alone k k' m m' b hm hm' (hheld b p' hpolicy hholds).1 hb) hne.symm
    · exact (haged id c' hc').imp fun _ hages => ⟨hages.1, hages.2.1⟩

theorem Sessions.sound_step (s : Sessions) (e : Event) (h : s.Sound policy) :
    (s.step policy e).Sound policy := by
  unfold Sessions.step
  cases hnext : s.next policy e with
  | none => exact h
  | some s' =>
    rw [Option.getD_some]
    cases e with
    | begin k now row =>
      obtain ⟨p, hp, hnext⟩ := Option.bind_eq_some_iff.mp hnext
      obtain ⟨-, hnext⟩ := guard_bind_some.mp hnext
      cases hnext
      exact h.put ⟨p, hp, rfl, fun b hb _ => .inl hb⟩
        fun _ _ b _ _ hb => absurd hb List.not_mem_nil
    | lock k =>
      obtain ⟨m, hm, hnext⟩ := Option.bind_eq_some_iff.mp hnext
      obtain ⟨b, -, hnext⟩ := Option.bind_eq_some_iff.mp hnext
      obtain ⟨hfree, hnext⟩ := guard_bind_some.mp hnext
      cases hnext
      obtain ⟨p, hp, hunder, hbuckets⟩ := h.making k m hm
      refine h.put ⟨p, hp, hunder, fun b' hb' hpolicy => (hbuckets b' hb' hpolicy).imp_right
        fun hheld => ⟨List.mem_cons_of_mem _ hheld.1, hheld.2⟩⟩ fun k' m' b' hne hm' hb' hheld => ?_
      rcases List.mem_cons.mp hb' with rfl | hb'
      · have hfree := List.all_eq_true.mp hfree _ (Table.get_eq_some_iff_mem.mp hm')
        simp [hne, hheld] at hfree
      · exact hne (h.alone k' k m' m b' hm' hm hheld hb')
    | count k =>
      obtain ⟨m, hm, hnext⟩ := Option.bind_eq_some_iff.mp hnext
      obtain ⟨b, hb, hnext⟩ := Option.bind_eq_some_iff.mp hnext
      obtain ⟨hheld, hnext⟩ := guard_bind_some.mp hnext
      cases hadmits : m.row.admits m.now s.db b with
      | error e =>
        rw [hadmits] at hnext
        cases hnext
        exact h.erase
      | ok u =>
        rw [hadmits] at hnext
        cases hnext
        obtain ⟨p, hp, hunder, hbuckets⟩ := h.making k m hm
        refine h.put ⟨p, hp, hunder, fun b' hb' hpolicy => ?_⟩ fun k' m' b' hne hm' hb' hheld =>
          hne (h.alone k' k m' m b' hm' hm hheld hb')
        rcases hbuckets b' hb' hpolicy with hin | hin
        · rcases List.mem_cons.mp (List.eq_cons_of_mem_head? hb ▸ hin) with rfl | hin
          · exact .inr ⟨by simpa using hheld, room_of_admits hunder hpolicy hadmits⟩
          · exact .inl hin
        · exact .inr hin
    | commit k revoked =>
      obtain ⟨m, hm, hnext⟩ := Option.bind_eq_some_iff.mp hnext
      obtain ⟨hleft, hnext⟩ := guard_bind_some.mp hnext
      cases hnext
      unfold commit
      rw [modify_bind]
      cases hmade : gvCreateChallengeRow m.now m.row.checked (s.db.revoke revoked) with
      | error e => exact h.erase
      | ok r => exact h.commit hm (List.isEmpty_iff.mp hleft) hmade
    | abort k =>
      cases hnext
      exact h.erase
    | call ledger c =>
      obtain ⟨hother, hnext⟩ := guard_bind_some.mp hnext
      cases hnext
      have hconsistent : Db.Consistent { s.db with idempotency := ledger } :=
        h.consistent.quiet (.refl _) rfl (fun _ p hp => ⟨p, hp, rfl⟩) le_rfl
      refine h.call (consistent_step hconsistent c) ((aged_step _ c).resolve_right ?_)
      rintro ⟨now, k, args, -, -, -, rfl, -⟩
      cases hother

theorem sessions_sound (policy : String → Option PurposePolicy) (workspaces : List Id)
    (es : List Event) : (run (Sessions.step policy) { db := { workspaces } } es).Sound policy := by
  refine run_invariant (I := Sessions.Sound policy) Sessions.sound_step
    ⟨consistent_start workspaces, ⟨?_, fun _ _ _ _ => Nat.zero_le _, ?_⟩, ?_, ?_⟩ es
  · intro _ _ _ _ _ _ _ _ _ _ hc
    cases hc
  · intro _ _ _ hc
    cases hc
  · intro _ _ _ _ _ hm
    cases hm
  · intro _ _ hm
    cases hm

theorem Bucket.policy_purpose (hb : b.policy policy = some p) (hholds : b.holds c) :
    policy c.purpose = some p := by
  cases b with
  | destination _ purpose _ =>
    simp only [holds, Bool.and_eq_true, beq_iff_eq] at hholds
    rwa [Bucket.policy, ← hholds.1.2] at hb
  | subject hash purpose =>
    simp only [holds, Bool.and_eq_true, beq_iff_eq] at hholds
    cases hash with
    | none => cases hb
    | some hash => rwa [Bucket.policy, ← hholds.2] at hb
  | _ => cases hb

/-- Whatever waits for whatever: the challenges of a destination are the cooldown apart, no window
holds more of them, or of those of a subject, than the policy says, and so no more candidates are
compared with those of a window than it has room for. -/
theorem rate_window (policy : String → Option PurposePolicy) (workspaces : List Id)
    (es : List Event) :
    let db := (run (Sessions.step policy) { db := { workspaces } } es).db
    RateLimited policy db.challenges ∧
      (∀ (b : Bucket) p start, b.policy policy = some p →
        ((db.challenges.rows.filter (b.window p start)).map fun r => db.compared r.1).sum ≤
          p.maxSendsPerWindow * p.maxVerificationAttempts) ∧
      ∀ purpose p, getPurposePolicy purpose = some p →
        p.resendCooldownSeconds ≤ p.rateWindowSeconds := by
  intro db
  have h := sessions_sound policy workspaces es
  refine ⟨h.limited, fun b p start hb => ?_, fun purpose p hp => ?_⟩
  · have heach : ∀ n ∈ (db.challenges.rows.filter (b.window p start)).map
        fun r => db.compared r.1, n ≤ p.maxVerificationAttempts := by
      intro n hn
      obtain ⟨r, hr, rfl⟩ := List.mem_map.mp hn
      obtain ⟨hmem, hin⟩ := List.mem_filter.mp hr
      simp only [Bucket.window, Bool.and_eq_true] at hin
      have hget := Table.get_eq_some_iff_mem.mpr hmem
      have hmax := h.limited.attempts r.1 r.2 p hget (Bucket.policy_purpose hb hin.1.1)
      have hcounted := h.consistent.counted r.1 r.2 hget
      have hbounded := h.consistent.bounded r.1 r.2 hget
      rw [← hcounted, hmax, max_eq_right (Int.natCast_nonneg _)] at hbounded
      exact Int.ofNat_le.mp hbounded
    have hsum := List.sum_le_card_nsmul _ _ heach
    rw [List.length_map, ← List.countP_eq_length_filter] at hsum
    exact hsum.trans (Nat.mul_le_mul_right _ (h.limited.window b p start hb))
  · have hfits : ∀ r ∈ rawPolicies,
        (clampPolicy r.2).resendCooldownSeconds ≤ (clampPolicy r.2).rateWindowSeconds := by
      decide
    obtain ⟨raw, hraw, rfl⟩ := Option.map_eq_some_iff.mp hp
    obtain ⟨before, after, hrows, -⟩ := List.lookup_eq_some_iff.mp hraw
    exact hfits (purpose, raw) (by simp [hrows])

end Kindred.Verification
