import Kindred.Lib.Transaction
import Mathlib.Data.List.Induction
import Mathlib.Data.Rat.Floor

/-! The realtime failover engine: a pure decision from the policy, the health of the providers, the
persisted state and the time. -/

namespace Kindred.Realtime
open Lib (run run_cons run_append Meets)

inductive Provider where
  | centrifugo | supabaseRealtime | pollingBuiltin
  deriving DecidableEq

def Provider.id : Provider → String
  | .centrifugo => "centrifugo"
  | .supabaseRealtime => "supabase_realtime"
  | .pollingBuiltin => "polling_builtin"

inductive HealthStatus where
  | healthy | degraded | unhealthy | unknown
  deriving DecidableEq

abbrev Health := Provider → Option HealthStatus

structure Policy where
  providerLock : Option Provider := none
  failoverEnabled : Bool := false
  failbackEnabled : Bool := true
  cooldownSeconds : ℚ := 300
  stableWindowSeconds : ℚ := 600
  providerOrder : List Provider := [.centrifugo, .supabaseRealtime, .pollingBuiltin]

/-- Times are in milliseconds. -/
structure FailoverState where
  effectiveProvider : Provider := .centrifugo
  lastFailoverAt : Option Int := none
  lastFailoverReason : Option String := none
  candidateRecoveryProvider : Option Provider := none
  candidateRecoverySince : Option Int := none
  failbackEligibleAt : Option Int := none
  cooldownUntil : Option Int := none
  lastEvaluatedAt : Option Int := none

inductive TransitionKind where
  | failover | failback | lastResort | lockApplied | lockCleared
  deriving DecidableEq

structure Transition where
  kind : TransitionKind
  fromProvider : Provider
  toProvider : Provider
  deriving DecidableEq

structure Decision where
  next : FailoverState
  transition : Option Transition

def requiresProbe (p : Provider) : Bool := p == .centrifugo

def isUsable (status : HealthStatus) : Bool := status != .unhealthy

def pickFirstUsable (order : List Provider) (health : Health) : Provider × Bool :=
  match order.find? fun p => (health p).any fun status =>
      !(requiresProbe p && status == .unknown) && isUsable status with
  | some p => (p, false)
  | none => (.pollingBuiltin, true)

def priorityIndex (order : List Provider) (p : Provider) : ℕ :=
  (order.idxOf? p).getD 9007199254740991

/-- `new Date(ms).toISOString()` has no part of a millisecond. -/
def isoMs (ms : ℚ) : Int := ms.num.tdiv ms.den

def decideFailover (policy : Policy) (health : Health) (prev : FailoverState) (now : Int) :
    Decision :=
  let baseNext := { prev with lastEvaluatedAt := some now }
  match policy.providerLock with
  | some locked =>
    if prev.effectiveProvider ≠ locked then
      { next := { baseNext with
          effectiveProvider := locked
          lastFailoverAt := some now
          lastFailoverReason := some s!"lock_applied:{locked.id}"
          candidateRecoveryProvider := none
          candidateRecoverySince := none
          failbackEligibleAt := none
          cooldownUntil := none }
        transition := some ⟨.lockApplied, prev.effectiveProvider, locked⟩ }
    else
      { next := { baseNext with
          candidateRecoveryProvider := none
          candidateRecoverySince := none
          failbackEligibleAt := none }
        transition := none }
  | none =>
    if !policy.failoverEnabled then
      let desired := policy.providerOrder.head?.getD .centrifugo
      if prev.effectiveProvider ≠ desired ∧ (health desired).all isUsable then
        { next := { baseNext with
            effectiveProvider := desired
            lastFailoverAt := some now
            lastFailoverReason := some "failover_disabled_realigned"
            candidateRecoveryProvider := none
            candidateRecoverySince := none
            failbackEligibleAt := none
            cooldownUntil := none }
          transition := some ⟨.lockCleared, prev.effectiveProvider, desired⟩ }
      else { next := baseNext, transition := none }
    else
      let order := policy.providerOrder
      let pick := pickFirstUsable order health
      if pick.1 = prev.effectiveProvider then
        { next := { baseNext with
            candidateRecoveryProvider := none
            candidateRecoverySince := none
            failbackEligibleAt := none }
          transition := none }
      else if priorityIndex order pick.1 > priorityIndex order prev.effectiveProvider then
        if prev.cooldownUntil.getD 0 > now then
          { next := { baseNext with
              candidateRecoveryProvider := none
              candidateRecoverySince := none }
            transition := none }
        else
          { next := { baseNext with
              effectiveProvider := pick.1
              lastFailoverAt := some now
              lastFailoverReason :=
                if pick.2 then some "all_providers_unhealthy_last_resort"
                else some s!"primary_unhealthy:{prev.effectiveProvider.id}"
              cooldownUntil := some (isoMs (now + policy.cooldownSeconds * 1000))
              candidateRecoveryProvider := none
              candidateRecoverySince := none
              failbackEligibleAt := none }
            transition := some ⟨if pick.2 then .lastResort else .failover,
              prev.effectiveProvider, pick.1⟩ }
      else if !policy.failbackEnabled then { next := baseNext, transition := none }
      else
        let candidate := pick.1
        let warmingUp := if prev.candidateRecoveryProvider = some candidate then
          prev.candidateRecoverySince else none
        match warmingUp with
        | some since =>
          if (now : ℚ) ≥ since + policy.stableWindowSeconds * 1000 then
            { next := { baseNext with
                effectiveProvider := candidate
                lastFailoverAt := some now
                lastFailoverReason := some s!"failback_to:{candidate.id}"
                cooldownUntil := some (isoMs (now + policy.cooldownSeconds * 1000))
                candidateRecoveryProvider := none
                candidateRecoverySince := none
                failbackEligibleAt := none }
              transition := some ⟨.failback, prev.effectiveProvider, candidate⟩ }
          else
            { next := { baseNext with
                failbackEligibleAt := some (isoMs (since + policy.stableWindowSeconds * 1000)) }
              transition := none }
        | none =>
          { next := { baseNext with
              candidateRecoveryProvider := some candidate
              candidateRecoverySince := some now
              failbackEligibleAt := some (isoMs (now + policy.stableWindowSeconds * 1000)) }
            transition := none }

structure Evaluation where
  policy : Policy
  health : Health
  now : Int

namespace Evaluation

def pick (e : Evaluation) : Provider := (pickFirstUsable e.policy.providerOrder e.health).1

def automatic (e : Evaluation) : Prop :=
  e.policy.providerLock = none ∧ e.policy.failoverEnabled = true

instance (e : Evaluation) : Decidable e.automatic := inferInstanceAs (Decidable (_ ∧ _))

def decided (s : FailoverState) (e : Evaluation) : Decision :=
  decideFailover e.policy e.health s e.now

def switches (s : FailoverState) (e : Evaluation) : Bool :=
  (e.decided s).transition.any fun t =>
    t.kind == .failover || t.kind == .failback || t.kind == .lastResort

def goesBack (s : FailoverState) (e : Evaluation) : Prop :=
  e.automatic ∧ e.pick ≠ s.effectiveProvider ∧
    priorityIndex e.policy.providerOrder e.pick ≤
      priorityIndex e.policy.providerOrder s.effectiveProvider

/-- The pick is the candidate, and its stable window is over. -/
def failbackDue (s : FailoverState) (e : Evaluation) : Prop :=
  e.goesBack s ∧ e.policy.failbackEnabled = true ∧
    s.candidateRecoveryProvider = some e.pick ∧
    s.candidateRecoverySince.any fun since : Int =>
      (since : ℚ) + e.policy.stableWindowSeconds * 1000 ≤ (e.now : ℚ)

def leavesTimer (s : FailoverState) (e : Evaluation) : Prop :=
  e.policy.providerLock = none ∧ e.policy.failoverEnabled = false ∧
      (s.effectiveProvider = e.policy.providerOrder.head?.getD .centrifugo ∨
        (e.health (e.policy.providerOrder.head?.getD .centrifugo)).any fun status =>
          !isUsable status) ∨
    e.goesBack s ∧ e.policy.failbackEnabled = false

end Evaluation

open Evaluation

def after (s : FailoverState) (es : List Evaluation) : FailoverState :=
  run (fun s e => (e.decided s).next) s es

inductive Decides (s : FailoverState) (e : Evaluation) (d : Decision) : Prop where
  | byHand (ha : ¬e.automatic) (ht : d.transition.all fun t =>
      t.kind == .lockApplied || t.kind == .lockCleared)
      (hc : d.next.candidateRecoveryProvider = none)
  | left (ht : d.transition = none) (hl : e.leavesTimer s)
      (hcool : d.next.cooldownUntil = s.cooldownUntil)
      (hp : d.next.candidateRecoveryProvider = s.candidateRecoveryProvider)
      (hs : d.next.candidateRecoverySince = s.candidateRecoverySince)
  | cleared (ha : e.automatic) (ht : d.transition = none)
      (hcool : d.next.cooldownUntil = s.cooldownUntil)
      (hc : d.next.candidateRecoveryProvider = none)
  | failover (k : TransitionKind) (ha : e.automatic) (hne : e.pick ≠ s.effectiveProvider)
      (hk : k = .failover ∨ k = .lastResort)
      (ht : d.transition = some ⟨k, s.effectiveProvider, e.pick⟩)
      (hover : s.cooldownUntil.getD 0 ≤ e.now)
      (hcool : d.next.cooldownUntil = some (isoMs (e.now + e.policy.cooldownSeconds * 1000)))
      (hc : d.next.candidateRecoveryProvider = none)
  | failback (hdue : e.failbackDue s)
      (ht : d.transition = some ⟨.failback, s.effectiveProvider, e.pick⟩)
      (hcool : d.next.cooldownUntil = some (isoMs (e.now + e.policy.cooldownSeconds * 1000)))
      (hc : d.next.candidateRecoveryProvider = none)
  | warming (ha : e.automatic) (ht : d.transition = none)
      (hcool : d.next.cooldownUntil = s.cooldownUntil)
      (hp : s.candidateRecoveryProvider = some e.pick)
      (hp' : d.next.candidateRecoveryProvider = some e.pick)
      (hs : d.next.candidateRecoverySince = s.candidateRecoverySince)
  | started (ha : e.automatic) (ht : d.transition = none)
      (hcool : d.next.cooldownUntil = s.cooldownUntil)
      (hp : d.next.candidateRecoveryProvider = some e.pick)
      (hs : d.next.candidateRecoverySince = some e.now)

theorem decides_cases (s : FailoverState) (e : Evaluation) : Decides s e (e.decided s) := by
  unfold Evaluation.decided decideFailover
  cases hlock : e.policy.providerLock with
  | some locked =>
    have ha : ¬e.automatic := by simp [automatic, hlock]
    dsimp only
    split <;> exact .byHand ha rfl rfl
  | none =>
    cases hon : e.policy.failoverEnabled with
    | false =>
      have ha : ¬e.automatic := by simp [automatic, hon]
      simp only [Bool.not_false, if_true]
      split
      · exact .byHand ha rfl rfl
      · rename_i hstays
        refine .left rfl (.inl ⟨hlock, hon, ?_⟩) rfl rfl rfl
        by_cases heff : s.effectiveProvider = e.policy.providerOrder.head?.getD .centrifugo
        · exact .inl heff
        · refine .inr ?_
          cases hh : e.health (e.policy.providerOrder.head?.getD .centrifugo) with
          | none => simp [heff, hh] at hstays
          | some status => simpa [heff, hh] using hstays
    | true =>
      have ha : e.automatic := ⟨hlock, hon⟩
      simp only [Bool.not_true, Bool.false_eq_true, if_false]
      split
      · exact .cleared ha rfl rfl rfl
      · rename_i hne
        split
        · split
          · exact .cleared ha rfl rfl rfl
          · rename_i hcool
            refine .failover (if (pickFirstUsable e.policy.providerOrder e.health).2
              then .lastResort else .failover) ha hne ?_ rfl (Int.not_lt.mp hcool) rfl rfl
            split
            · exact .inr rfl
            · exact .inl rfl
        · rename_i hidx
          have hback : e.goesBack s := ⟨ha, hne, Nat.le_of_not_lt hidx⟩
          cases hfb : e.policy.failbackEnabled with
          | false => exact .left rfl (.inr ⟨hback, hfb⟩) rfl rfl rfl
          | true =>
            simp only [Bool.not_true, Bool.false_eq_true, if_false]
            split
            · rename_i since hsince
              split at hsince
              · rename_i hcand
                split
                · rename_i hover
                  exact .failback ⟨hback, hfb, hcand, by simpa [hsince] using hover⟩ rfl rfl rfl
                · exact .warming ha rfl rfl hcand hcand rfl
              · cases hsince
            · exact .started ha rfl rfl rfl rfl

theorem lastEvaluatedAt_decided (s : FailoverState) (e : Evaluation) :
    (e.decided s).next.lastEvaluatedAt = some e.now := by
  unfold Evaluation.decided decideFailover
  dsimp only
  repeat' split
  all_goals rfl

/-- What an evaluation has to meet: a failback that is due finds no cooldown, a timer that is left
alone belongs to the pick, the clock is not set back, and a cooldown ends on a millisecond. -/
def Sound (s : FailoverState) (e : Evaluation) : Prop :=
  (e.failbackDue s → s.cooldownUntil.getD 0 ≤ e.now) ∧
    (e.leavesTimer s → s.candidateRecoveryProvider.all (· == e.pick)) ∧
    (s.lastEvaluatedAt.all fun last => last ≤ e.now) ∧
    (e.automatic → e.pick ≠ s.effectiveProvider → (e.policy.cooldownSeconds * 1000).den = 1)

theorem isoMs_of_whole {now : Int} {q : ℚ} (h : q.den = 1) :
    ((isoMs (now + q) : Int) : ℚ) = now + q := by
  have hq : ((q.num : Int) : ℚ) = q := Rat.coe_int_num_of_den_eq_one h
  have hsum : (now : ℚ) + q = ((now + q.num : Int) : ℚ) := by
    rw [Int.cast_add, hq]
  unfold isoMs
  rw [hsum, Rat.num_intCast, Rat.den_intCast, Nat.cast_one, Int.tdiv_one]

variable {s : FailoverState} {e : Evaluation} {es : List Evaluation}

theorem switches_spec (h : e.switches s = true) : e.automatic ∧ e.pick ≠ s.effectiveProvider ∧
      (e.decided s).next.cooldownUntil = some (isoMs (e.now + e.policy.cooldownSeconds * 1000)) ∧
      (s.cooldownUntil.getD 0 ≤ e.now ∨ e.failbackDue s) := by
  unfold Evaluation.switches at h
  cases decides_cases s e with
  | byHand _ ht =>
    obtain ⟨t, htr, hk⟩ := (Option.any_eq_true _ _).mp h
    rw [htr] at ht
    cases hkind : t.kind <;> simp [hkind] at ht hk
  | left ht => simp [ht] at h
  | cleared _ ht => simp [ht] at h
  | failover k ha hne hk ht hover hcool => exact ⟨ha, hne, hcool, .inl hover⟩
  | failback hdue ht hcool => exact ⟨hdue.1.1, hdue.1.2.1, hcool, .inr hdue⟩
  | warming _ ht => simp [ht] at h
  | started _ ht => simp [ht] at h

theorem cooldownUntil_of_not_switches (ha : e.automatic) (h : ¬e.switches s = true) :
    (e.decided s).next.cooldownUntil = s.cooldownUntil := by
  unfold Evaluation.switches at h
  cases decides_cases s e with
  | byHand hno => exact absurd ha hno
  | left _ _ hcool => exact hcool
  | cleared _ _ hcool => exact hcool
  | failover k _ _ hk ht => rcases hk with rfl | rfl <;> simp [ht] at h
  | failback _ ht => simp [ht] at h
  | warming _ _ hcool => exact hcool
  | started _ _ hcool => exact hcool

theorem cooldownUntil_after
    (h : ∀ bs e ds, es = bs ++ e :: ds → e.automatic ∧ ¬e.switches (after s bs) = true) :
    (after s es).cooldownUntil = s.cooldownUntil := by
  induction es generalizing s with
  | nil => rfl
  | cons e es ih =>
    have he := h [] e es rfl
    refine (ih fun bs e' ds hes => h (e :: bs) e' ds (by rw [hes]; rfl)).trans ?_
    exact cooldownUntil_of_not_switches he.1 he.2

/-- Every evaluation since the timer began, after the moment it began at, picked its candidate. -/
structure Watched (es : List Evaluation) (s : FailoverState) : Prop where
  clock : ∀ e ∈ es, s.lastEvaluatedAt.any fun last => e.now ≤ last
  candidate : ∀ p since, s.candidateRecoveryProvider = some p →
    s.candidateRecoverySince = some since → ∀ e ∈ es, since < e.now → e.pick = p

theorem Watched.decided (h : Watched es s) (he : Sound s e) :
    Watched (es ++ [e]) (e.decided s).next := by
  obtain ⟨-, htimer, hclock, -⟩ := he
  have hle : ∀ b ∈ es, b.now ≤ e.now := by
    intro b hb
    obtain ⟨last, hlast, hb⟩ := (Option.any_eq_true _ _).mp (h.clock b hb)
    rw [hlast] at hclock
    simp only [Option.all_some, decide_eq_true_eq] at hb hclock
    exact Int.le_trans hb hclock
  -- a timer that was kept, of a candidate that was picked again
  have hkept : ∀ p since, s.candidateRecoveryProvider = some p → p = e.pick →
      s.candidateRecoverySince = some since → ∀ b ∈ es ++ [e], since < b.now → b.pick = p := by
    intro p since hp hpick hs b hb hlt
    rcases List.mem_append.mp hb with hb | hb
    · exact h.candidate p since hp hs b hb hlt
    · rw [List.mem_singleton.mp hb, hpick]
  refine ⟨?_, ?_⟩
  · intro b hb
    rw [lastEvaluatedAt_decided]
    rcases List.mem_append.mp hb with hb | hb
    · simpa using hle b hb
    · simp [List.mem_singleton.mp hb]
  · intro p since hp hs
    cases decides_cases s e with
    | byHand _ _ hc => simp [hc] at hp
    | left _ hl _ hp' hs' =>
      rw [hp'] at hp
      have hpick := htimer hl
      rw [hp] at hpick
      exact hkept p since hp (by simpa using hpick) (hs' ▸ hs)
    | cleared _ _ _ hc => simp [hc] at hp
    | failover _ _ _ _ _ _ _ hc => simp [hc] at hp
    | failback _ _ _ hc => simp [hc] at hp
    | warming _ _ _ hp₀ hp' hs' =>
      rw [hp'] at hp
      cases hp
      exact hkept _ since hp₀ rfl (hs' ▸ hs)
    | started _ _ _ hp' hs' =>
      rw [hp'] at hp
      rw [hs'] at hs
      cases hp
      cases hs
      intro b hb hlt
      rcases List.mem_append.mp hb with hb | hb
      · exact absurd hlt (Int.not_lt.mpr (hle b hb))
      · rw [List.mem_singleton.mp hb]

theorem watched_after (h : Meets (fun s e => (e.decided s).next) Sound s es) :
    Watched es (after s es) := by
  induction es using List.reverseRecOn with
  | nil => exact ⟨by simp, by simp⟩
  | append_singleton es e ih =>
    unfold after
    rw [run_append]
    exact (ih h.append_left).decided h.append_right.1

/-- Two switches with no other between them, nor a lock, nor the failover off, are the cooldown of
the first one apart. -/
def SwitchesApart (s : FailoverState) (es : List Evaluation) : Prop :=
  ∀ bs e cs e' ds, es = bs ++ e :: (cs ++ e' :: ds) → e.switches (after s bs) →
    (∀ cs₁ c cs₂, cs = cs₁ ++ c :: cs₂ → c.automatic ∧ ¬c.switches (after s (bs ++ e :: cs₁))) →
    e'.switches (after s (bs ++ e :: cs)) →
    (e.now : ℚ) + e.policy.cooldownSeconds * 1000 ≤ e'.now

def FailsBackStable (s : FailoverState) (es : List Evaluation) : Prop :=
  ∀ bs e ds t, es = bs ++ e :: ds → (e.decided (after s bs)).transition = some t →
    t.kind = .failback → ∀ b ∈ bs ++ [e],
      (e.now : ℚ) - e.policy.stableWindowSeconds * 1000 < b.now → b.pick = t.toProvider

theorem failover_never_flaps (s : FailoverState) (es : List Evaluation)
    (h : Meets (fun s e => (e.decided s).next) Sound s es) :
    SwitchesApart s es ∧ FailsBackStable s es := by
  constructor
  · rintro bs e cs e' ds rfl hswitch hcs hswitch'
    obtain ⟨ha, hne, hcool, -⟩ := switches_spec hswitch
    have hsound : Sound (after s bs) e := h.append_right.1
    have hsound' : Sound (after s (bs ++ e :: cs)) e' := by
      have h' : Meets (fun s e => (e.decided s).next) Sound s ((bs ++ e :: cs) ++ e' :: ds) := by
        simpa using h
      exact h'.append_right.1
    have hkept : (after s (bs ++ e :: cs)).cooldownUntil =
        some (isoMs (e.now + e.policy.cooldownSeconds * 1000)) := by
      unfold after at hcs ⊢
      rw [run_append, run_cons, ← hcool]
      refine cooldownUntil_after (s := _) fun cs₁ c cs₂ hc => ?_
      have := hcs cs₁ c cs₂ hc
      rwa [run_append, run_cons] at this
    have hover : isoMs (e.now + e.policy.cooldownSeconds * 1000) ≤ e'.now := by
      obtain ⟨-, -, -, hover | hdue⟩ := switches_spec hswitch'
      · simpa [hkept] using hover
      · simpa [hkept] using hsound'.1 hdue
    rw [← isoMs_of_whole (hsound.2.2.2 ha hne)]
    exact_mod_cast hover
  · rintro bs e ds t rfl ht hk b hb hlt
    have hw := watched_after h.append_left
    have hsound : Sound (after s bs) e := h.append_right.1
    cases decides_cases (after s bs) e with
    | byHand _ ht' => simp [ht, hk] at ht'
    | left ht' => simp [ht'] at ht
    | cleared _ ht' => simp [ht'] at ht
    | failover k _ _ hk' ht' =>
      rw [ht] at ht'
      cases ht'
      rcases hk' with rfl | rfl <;> cases hk
    | failback hdue ht' =>
      rw [ht] at ht'
      cases ht'
      obtain ⟨-, -, hp, hs⟩ := hdue
      obtain ⟨since, hs, hover⟩ := (Option.any_eq_true _ _).mp hs
      simp only [decide_eq_true_eq] at hover
      rcases List.mem_append.mp hb with hb | hb
      · refine hw.candidate _ since hp hs b hb ?_
        have : (since : ℚ) < b.now := by linarith
        exact_mod_cast this
      · rw [List.mem_singleton.mp hb]
    | warming _ ht' => simp [ht'] at ht
    | started _ ht' => simp [ht'] at ht

instance (s : FailoverState) (e : Evaluation) : Decidable (e.goesBack s) :=
  inferInstanceAs (Decidable (_ ∧ _))

instance (s : FailoverState) (e : Evaluation) : Decidable (e.failbackDue s) :=
  inferInstanceAs (Decidable (_ ∧ _))

instance (s : FailoverState) (e : Evaluation) : Decidable (e.leavesTimer s) :=
  inferInstanceAs (Decidable (_ ∨ _))

instance (s : FailoverState) (e : Evaluation) : Decidable (Sound s e) :=
  inferInstanceAs (Decidable (_ ∧ _))

def quick : Policy := { failoverEnabled := true, stableWindowSeconds := 30 }

def unhealthyAre (down : List Provider) : Health := fun p =>
  some (if p ∈ down then .unhealthy else .healthy)

def outage (back : Int) : List Evaluation :=
  [⟨quick, unhealthyAre [.centrifugo], 0⟩, ⟨quick, unhealthyAre [], 10000⟩,
    ⟨quick, unhealthyAre [], back⟩]

theorem failover_never_flaps_outage :
    SwitchesApart {} (outage 300000) ∧ FailsBackStable {} (outage 300000) :=
  failover_never_flaps {} (outage 300000) (by decide +kernel)

def edited : List Evaluation :=
  [⟨quick, unhealthyAre [.centrifugo], 0⟩,
    ⟨{ quick with failbackEnabled := false }, unhealthyAre [], 10000⟩,
    ⟨quick, unhealthyAre [.centrifugo], 30000⟩]

theorem flaps : ¬SwitchesApart {} (outage 40000) ∧
    ¬FailsBackStable { effectiveProvider := .pollingBuiltin } edited := by
  constructor
  · intro h
    have hapart := h [] _ [_] _ [] rfl (by decide +kernel) ?_ (by decide +kernel)
    · revert hapart
      decide +kernel
    · rintro (_ | ⟨b, bs⟩) c ds hcs
      · cases hcs
        decide +kernel
      · simp at hcs
  · intro h
    have hpick := h (edited.take 2) (edited.get ⟨2, by decide⟩) []
      ⟨.failback, .pollingBuiltin, .supabaseRealtime⟩ rfl (by decide +kernel) rfl
      (edited.get ⟨1, by decide⟩) (by simp [edited]) (by decide +kernel)
    revert hpick
    decide +kernel

def Evaluation.down (e : Evaluation) (p : Provider) : Bool :=
  (e.health p).any fun status => !isUsable status || requiresProbe p && status == .unknown

def Evaluation.lastResort (e : Evaluation) : Bool :=
  (pickFirstUsable e.policy.providerOrder e.health).2

theorem lastResort_of_pick {p : Provider} (hdown : e.down p = true) (hpick : e.pick = p) :
    e.lastResort = true ∧ p = .pollingBuiltin := by
  unfold Evaluation.pick pickFirstUsable at hpick
  unfold Evaluation.lastResort pickFirstUsable
  cases hfind : e.policy.providerOrder.find? fun p => (e.health p).any fun status =>
      !(requiresProbe p && status == .unknown) && isUsable status with
  | none =>
    rw [hfind] at hpick
    exact ⟨rfl, hpick.symm⟩
  | some q =>
    rw [hfind] at hpick
    obtain rfl : q = p := hpick
    have hworks := List.find?_some hfind
    unfold Evaluation.down at hdown
    cases hstatus : e.health q <;> simp_all

theorem effectiveProvider_decided (ha : e.automatic) (hover : s.cooldownUntil.getD 0 ≤ e.now) :
    (e.decided s).next.effectiveProvider =
      if priorityIndex e.policy.providerOrder s.effectiveProvider <
          priorityIndex e.policy.providerOrder e.pick ∨ e.failbackDue s then e.pick
      else s.effectiveProvider := by
  have hcool : ¬s.cooldownUntil.getD 0 > e.now := Int.not_lt.mpr hover
  unfold Evaluation.decided decideFailover
  rw [ha.1]
  have hpick : (pickFirstUsable e.policy.providerOrder e.health).1 = e.pick := rfl
  simp only [ha.2, Bool.not_true, Bool.false_eq_true, if_false, hpick]
  by_cases hne : e.pick = s.effectiveProvider
  · rw [if_pos hne, hne, ite_self]
  rw [if_neg hne]
  by_cases hidx : priorityIndex e.policy.providerOrder s.effectiveProvider <
      priorityIndex e.policy.providerOrder e.pick
  · rw [if_pos (show _ > _ from hidx), if_neg hcool]
    exact (if_pos (Or.inl hidx)).symm
  rw [if_neg (show ¬_ > _ from hidx)]
  have hback : e.goesBack s := ⟨ha, hne, Nat.le_of_not_lt hidx⟩
  cases hfb : e.policy.failbackEnabled with
  | false => simp [hidx, failbackDue, hfb]
  | true =>
    simp only [Bool.not_true, Bool.false_eq_true, if_false, hidx, false_or]
    by_cases hcand : s.candidateRecoveryProvider = some e.pick
    · rw [if_pos hcand]
      cases hsince : s.candidateRecoverySince with
      | none => simp [failbackDue, hsince]
      | some since =>
        simp only [ge_iff_le]
        by_cases hwindow : (since : ℚ) + e.policy.stableWindowSeconds * 1000 ≤ (e.now : ℚ)
        · have hdue : e.failbackDue s := ⟨hback, hfb, hcand, by simpa [hsince] using hwindow⟩
          rw [if_pos hwindow, if_pos hdue]
        · have hnot : ¬e.failbackDue s := by
            simpa [failbackDue, hsince] using fun _ _ _ => lt_of_not_ge hwindow
          rw [if_neg hwindow, if_neg hnot]
    · have hnot : ¬e.failbackDue s := fun h => hcand h.2.2.1
      rw [if_neg hcand, if_neg hnot]

/-- Where the cooldown is over, a provider that is down is left at once for the first that works
just where that one comes after it in the order, or is a candidate whose stable window is over. -/
theorem decided_leaves_iff (s : FailoverState) (e : Evaluation) (ha : e.automatic)
    (hover : s.cooldownUntil.getD 0 ≤ e.now) (hdown : e.down s.effectiveProvider = true) :
    (e.decided s).next.effectiveProvider = e.pick ↔
      e.lastResort = true ∧ s.effectiveProvider = .pollingBuiltin ∨
        priorityIndex e.policy.providerOrder s.effectiveProvider <
          priorityIndex e.policy.providerOrder e.pick ∨ e.failbackDue s := by
  rw [effectiveProvider_decided ha hover]
  constructor
  · intro h
    split at h
    · rename_i hleaves
      exact .inr hleaves
    · exact .inl (lastResort_of_pick hdown h.symm)
  · rintro (⟨hlast, hpolling⟩ | hleaves)
    · have hpick : e.pick = .pollingBuiltin := by
        unfold Evaluation.lastResort pickFirstUsable at hlast
        unfold Evaluation.pick pickFirstUsable
        split at hlast
        · cases hlast
        · rfl
      rw [hpick, hpolling, ite_self]
    · rw [if_pos hleaves]

/-- The second provider is in effect and down, and so is the first one. -/
theorem decided_leaves_outage :
    (Evaluation.decided { effectiveProvider := .supabaseRealtime }
      ⟨quick, unhealthyAre [.centrifugo, .supabaseRealtime], 0⟩).next.effectiveProvider =
        .pollingBuiltin :=
  (decided_leaves_iff _ _ (by decide) (by decide) (by decide)).mpr (.inr (.inl (by decide)))

/-- The first provider works again and the second goes down: nothing is left at once. -/
theorem not_decided_leaves :
    ¬∀ (s : FailoverState) (e : Evaluation), e.automatic → s.cooldownUntil.getD 0 ≤ e.now →
      e.down s.effectiveProvider = true → (e.decided s).next.effectiveProvider = e.pick := by
  intro h
  have hleft := h { effectiveProvider := .supabaseRealtime }
    ⟨quick, unhealthyAre [.supabaseRealtime], 0⟩ (by decide) (by decide) (by decide)
  revert hleft
  decide +kernel

end Kindred.Realtime
