import Kindred.Verification.Effects
import Mathlib.Data.List.Induction

/-! Who owns the delivery of a code: the attempts of one key, between the call that makes the
challenge and the call that records what the provider did. -/

namespace Kindred.Verification
open Lib (Table run run_append run_invariant tally tally_le_budget)
open Lib.Tx

def reached (workspaces : List Id) (cs : List Call) : Db := run Db.step { workspaces } cs

namespace Call

def prepares (key : String) : Call → Bool
  | .prepare _ k _ => k.key = some key
  | _ => false

def finalizes (key : String) : Call → Bool
  | .finalize k _ _ => k = some key
  | _ => false

def token : Call → Option Id
  | .finalize _ t _ => t
  | _ => none

def repeats : Call → Call → Prop
  | .prepare _ k _, .prepare _ k' _ => k' = k
  | _, _ => False

end Call

namespace Db

def issued (key : String) (db : Db) (c : Call) : Option Id :=
  if c.prepares key then
    match db.answer c with
    | .ok (.prepared (.fresh _ t)) => some t
    | .ok (.prepared (.resume _ t)) => some t
    | _ => none
  else none

def tokens (key : String) : Db → List Call → List Id
  | _, [] => []
  | db, c :: cs => (db.issued key c).toList ++ tokens key (db.step c) cs

def created (key : String) (db : Db) (c : Call) : ℕ :=
  if c.prepares key then (db.step c).challenges.rows.length - db.challenges.rows.length else 0

abbrev TakesEffect (key : String) (db : Db) (c : Call) : Prop :=
  c.finalizes key ∧ db.step c ≠ db

def effects (key : String) (db : Db) (c : Call) : ℕ := if db.TakesEffect key c then 1 else 0

end Db

structure DeliveryOwned (workspaces : List Id) (cs : List Call) (key : String) : Prop where
  created_once : tally Db.step (Db.created key) { workspaces } cs ≤ 1
  finalized_once : tally Db.step (Db.effects key) { workspaces } cs ≤ 1
  newest : ∀ bs c ds, cs = bs ++ c :: ds → (reached workspaces bs).TakesEffect key c →
    ∃ t, c.token = some t ∧ (Db.tokens key { workspaces } bs).getLast? = some t
  rotated : ∀ bs c ds, cs = bs ++ c :: ds → c.finalizes key →
    c.token ≠ (Db.tokens key { workspaces } bs).getLast? →
    (reached workspaces bs).step c = reached workspaces bs
  replays : ∀ bs p ds f es p' fs, cs = bs ++ p :: ds ++ f :: es ++ p' :: fs →
    ((reached workspaces bs).issued key p).isSome →
    (reached workspaces (bs ++ p :: ds)).TakesEffect key f → p.repeats p' →
    ∃ result, (reached workspaces (bs ++ p :: ds)).answer f = .ok (.finalized (.applied result)) ∧
      (reached workspaces (bs ++ p :: ds ++ f :: es)).answer p' =
        .ok (.prepared (.replayed result))
  raises : ∀ bs c ds e, cs = bs ++ c :: ds → c.prepares key →
    (reached workspaces bs).answer c = .error e →
    (reached workspaces bs).step c = reached workspaces bs

variable {key : String} {db db' : Db} {c : Call} {a : Answer} {workspaces : List Id} {k : Keyed}
  {args : Except Err DeliveryArgs} {row : LedgerRow}

structure LedgerRow.Open (row : LedgerRow) : Prop where
  delivery : row.operation = .request ∨ row.operation = .resend
  preparedAt : row.preparedAt.isSome
  attemptToken : row.attemptToken.isSome

def Db.Sound (db : Db) : Prop :=
  ∀ key row, db.idempotency.get key = some row → row.resultState = .prepared → row.Open

def LedgerRow.request (row : LedgerRow) : String × Operation × String :=
  (row.scopeKind, row.operation, row.requestFingerprint)

inductive KeyStep (key : String) (db db' : Db) (c : Call) : Prop where
  | kept (row : db'.idempotency.get key = db.idempotency.get key)
      (issued : db.issued key c = none) (created : db.created key c = 0)
      (effect : ¬db.TakesEffect key c)
  | settled {row : LedgerRow} (absent : db.idempotency.get key = none)
      (held : db'.idempotency.get key = some row) (settled : row.resultState ≠ .prepared)
      (issued : db.issued key c = none) (created : db.created key c = 0)
      (effect : ¬db.TakesEffect key c)
  | begun {row : LedgerRow} (absent : db.idempotency.get key = none)
      (held : db'.idempotency.get key = some row) (prepared : row.resultState = .prepared)
      (rowOpen : row.Open) (issued : db.issued key c = row.attemptToken)
      (created : db.created key c ≤ 1) (effect : ¬db.TakesEffect key c)
  | resumed {row row' : LedgerRow} (before : db.idempotency.get key = some row)
      (held : db'.idempotency.get key = some row') (prepared : row.resultState = .prepared)
      (prepared' : row'.resultState = .prepared) (request : row'.request = row.request)
      (rowOpen : row'.Open) (issued : db.issued key c = row'.attemptToken)
      (created : db.created key c = 0) (effect : ¬db.TakesEffect key c)
  | applied {row row' : LedgerRow} (before : db.idempotency.get key = some row)
      (held : db'.idempotency.get key = some row') (prepared : row.resultState = .prepared)
      (committed : row'.resultState = .committed) (request : row'.request = row.request)
      (token : row.attemptToken = c.token)
      (answer : db.answer c = .ok (.finalized (.applied row'.safeResult)))
      (issued : db.issued key c = none) (created : db.created key c = 0)

theorem Db.issued_of_not_prepares (h : c.prepares key = false) : db.issued key c = none := by
  simp [Db.issued, h]

theorem not_takesEffect_of_same (h : db.step c = db) : ¬db.TakesEffect key c :=
  fun he => he.2 h

theorem created_eq_zero (h : (db.step c).challenges.rows.length ≤ db.challenges.rows.length) :
    db.created key c = 0 := by
  unfold Db.created
  split
  · omega
  · rfl

theorem created_of_same (h : db.step c = db) : db.created key c = 0 :=
  created_eq_zero (by rw [h])

variable {now : Timestamp} {p : PrepareAnswer} {d d' : Db}

theorem prepares_eq_false {key' : String} (hnames : k.Names key' row) (h : key ≠ key')
    : (Call.prepare now k args).prepares key = false := by
  simp [Call.prepares, hnames.key, Ne.symm h]

theorem KeyStep.elsewhere (hrow : db'.idempotency.get key = db.idempotency.get key)
    (hp : c.prepares key = false) (hf : c.finalizes key = false) : KeyStep key db db' c := by
  exact .kept hrow (Db.issued_of_not_prepares hp) (by simp [Db.created, hp])
    fun h => Bool.false_ne_true (hf.symm.trans h.1)

theorem prepare_keyStep (hsound : db.Sound)
    (ha : db.answer (.prepare now k args) = .ok (.prepared p))
    (h : Prepares now k args db (db.step (.prepare now k args)) p) :
    KeyStep key db (db.step (.prepare now k args)) (.prepare now k args) := by
  have heffect : ∀ {key}, ¬db.TakesEffect key (.prepare now k args) := fun h => by cases h.1
  have habsent : ∀ {key row}, row.resultState = .prepared →
      (db.idempotency.get key = none ∨ db.idempotency.get key = some row ∧
        row.preparedAt = none) → db.idempotency.get key = none := by
    rintro key row hprepared (hnone | ⟨hheld, hat⟩)
    · exact hnone
    · have hopen := (hsound key row hheld hprepared).preparedAt
      rw [hat] at hopen
      cases hopen
  cases h with
  | replayed hnames hheld hcommitted hsame =>
    refine .kept (by rw [hsame]) ?_ (created_of_same hsame) heffect
    simp [Db.issued, ha]
  | resumed hnames hheld hprepared hat hstale hwrites honly =>
    rename_i key' row preparedAt
    by_cases hkey : key = key'
    · subst hkey
      obtain ⟨t, honly⟩ := honly
      refine .resumed hheld hwrites.row hprepared hprepared rfl ⟨?_, rfl, rfl⟩ ?_ ?_ heffect
      · exact (hsound key row hheld hprepared).delivery
      · simp [Db.issued, ha, Call.prepares, hnames.key]
      · exact created_eq_zero (by rw [honly])
    · exact .elsewhere (hwrites.others key hkey) (prepares_eq_false hnames hkey) rfl
  | failed hnames hbegun hprepared hwrites honly =>
    rename_i key' row e
    by_cases hkey : key = key'
    · subst hkey
      obtain ⟨t, honly⟩ := honly
      refine .settled (habsent hprepared hbegun) hwrites.row (fun h => by cases h) ?_ ?_ heffect
      · simp [Db.issued, ha]
      · exact created_eq_zero (by rw [honly])
    · exact .elsewhere (hwrites.others key hkey) (prepares_eq_false hnames hkey) rfl
  | fresh hnames hbegun hprepared hdelivery hopens hwrites hnext =>
    rename_i key' row created challenge
    by_cases hkey : key = key'
    · subst hkey
      refine .begun (habsent hprepared hbegun) hwrites.row hprepared ⟨hdelivery, rfl, rfl⟩ ?_ ?_
        heffect
      · simp [Db.issued, ha, Call.prepares, hnames.key]
      · obtain ⟨t, _, hadds, hlength, -⟩ := hopens.adds
        have hle := Table.length_put_le t created.challengeId challenge
        unfold Db.created
        rw [hadds.put]
        split
        · omega
        · exact Nat.zero_le 1
    · exact .elsewhere (hwrites.others key hkey) (prepares_eq_false hnames hkey) rfl

theorem finalize_keyStep {k : Option String} {token : Option Id} {s : Sent} {f : FinalizeAnswer}
    (ha : db.answer (.finalize k token s) = .ok (.finalized f))
    (h : Finalizes k token s db (db.step (.finalize k token s)) f) :
    KeyStep key db (db.step (.finalize k token s)) (.finalize k token s) := by
  have hcreated : ∀ {key}, db.created key (.finalize k token s) = 0 := rfl
  cases h with
  | already _ _ _ hsame | stale _ _ _ _ hsame =>
    exact .kept (by rw [hsame]) rfl hcreated (not_takesEffect_of_same hsame)
  | applied hnamed hheld hprepared htoken hchallenge hwrites honly =>
    rename_i key' row id outcome t
    by_cases hkey : key = key'
    · subst hkey
      exact .applied hheld hwrites.row hprepared rfl rfl htoken ha rfl hcreated
    · refine .elsewhere (hwrites.others key hkey) rfl ?_
      simp [Call.finalizes, hnamed, Ne.symm hkey]

theorem keyStep (key : String) (hsound : db.Sound) (c : Call) : KeyStep key db (db.step c) c := by
  cases ha : db.answer c with
  | error e =>
    have hsame := step_of_error ha
    refine .kept (by rw [hsame]) ?_ (created_of_same hsame) (not_takesEffect_of_same hsame)
    simp [Db.issued, ha]
  | ok a =>
    have hsteps := steps_of_ok ha
    generalize hdb : db.step c = db' at hsteps
    cases hsteps with
    | prepare did => exact hdb ▸ prepare_keyStep hsound ha (hdb ▸ did)
    | finalize did => exact hdb ▸ finalize_keyStep ha (hdb ▸ did)
    | execute did =>
      cases did with
      | replayed _ _ _ hsame => exact .elsewhere (by rw [hsame]) rfl rfl
      | executed hnames hcode hbegun hprepared hcast hjudges hwrites =>
        rename_i key' row args v
        by_cases hkey : key = key'
        · subst hkey
          have habsent : db.idempotency.get key = none := by
            rcases hbegun with hnone | hheld
            · exact hnone
            · have hdelivery := (hsound key row hheld hprepared).delivery
              rcases hcode with hcode | hcode <;> simp [hcode] at hdelivery
          exact .settled habsent hwrites.row (fun h => by cases h) rfl rfl fun h => by cases h.1
        · exact .elsewhere (hwrites.others key hkey) rfl rfl
    | consume did =>
      cases did with
      | refused _ honly =>
        obtain ⟨t, rfl⟩ := honly
        exact .elsewhere rfl rfl rfl
      | consumed _ honly =>
        subst honly
        exact .elsewhere rfl rfl rfl

theorem sound_step (hsound : db.Sound) (c : Call) : (db.step c).Sound := by
  intro key row hrow hprepared
  have hstep := keyStep key hsound c
  cases hstep with
  | kept hkept => exact hsound key row (hkept ▸ hrow) hprepared
  | settled _ hheld hsettled =>
    cases hheld.symm.trans hrow
    exact absurd hprepared hsettled
  | begun _ hheld _ hopen =>
    cases hheld.symm.trans hrow
    exact hopen
  | resumed _ hheld _ _ _ hopen =>
    cases hheld.symm.trans hrow
    exact hopen
  | applied _ hheld _ hcommitted =>
    cases hheld.symm.trans hrow
    exact absurd hprepared (by rw [hcommitted]; decide)

theorem sound_start (workspaces : List Id) : Db.Sound { workspaces } := by
  intro key row hrow
  cases hrow

theorem sound_reached (workspaces : List Id) (cs : List Call) : (reached workspaces cs).Sound :=
  run_invariant (I := Db.Sound) (fun _ c h => sound_step h c) (sound_start workspaces) cs

def creationsLeft (key : String) (db : Db) : ℕ := if (db.idempotency.get key).isNone then 1 else 0

def effectsLeft (key : String) (db : Db) : ℕ :=
  match db.idempotency.get key with
  | none => 1
  | some row => if row.resultState = .prepared then 1 else 0

theorem created_le (key : String) (hsound : db.Sound) (c : Call) :
    db.created key c + creationsLeft key (db.step c) ≤ creationsLeft key db := by
  have hstep := keyStep key hsound c
  unfold creationsLeft
  cases hstep with
  | kept hkept _ hcreated => rw [hcreated, hkept, Nat.zero_add]
  | settled habsent hheld _ _ hcreated => simp [habsent, hheld, hcreated]
  | begun habsent hheld _ _ _ hcreated => simpa [habsent, hheld] using hcreated
  | resumed hbefore hheld _ _ _ _ _ hcreated => simp [hbefore, hheld, hcreated]
  | applied hbefore hheld _ _ _ _ _ _ hcreated => simp [hbefore, hheld, hcreated]

theorem effects_le (key : String) (hsound : db.Sound) (c : Call) :
    db.effects key c + effectsLeft key (db.step c) ≤ effectsLeft key db := by
  have hstep := keyStep key hsound c
  unfold effectsLeft Db.effects
  cases hstep with
  | kept hkept _ _ heffect => rw [if_neg heffect, hkept, Nat.zero_add]
  | settled habsent hheld hsettled _ _ heffect =>
    simp [habsent, hheld, hsettled, if_neg heffect]
  | begun habsent hheld hprepared _ _ _ heffect =>
    simp [habsent, hheld, hprepared, if_neg heffect]
  | resumed hbefore hheld hprepared hprepared' _ _ _ _ heffect =>
    simp [hbefore, hheld, hprepared, hprepared', if_neg heffect]
  | applied hbefore hheld hprepared hcommitted =>
    simp only [hbefore, hheld, hprepared, hcommitted]
    split <;> simp

theorem tokens_snoc (db : Db) (cs : List Call) (c : Call) : Db.tokens key db (cs ++ [c]) =
      Db.tokens key db cs ++ ((run Db.step db cs).issued key c).toList := by
  induction cs generalizing db with
  | nil => simp [Db.tokens]
  | cons d cs ih => simp [Db.tokens, ih]

theorem reached_snoc (workspaces : List Id) (cs : List Call) (c : Call) :
    reached workspaces (cs ++ [c]) = (reached workspaces cs).step c := by
  simp [reached, run_append]

theorem newest_token (cs : List Call)
    (hrow : (reached workspaces cs).idempotency.get key = some row)
    (hprepared : row.resultState = .prepared) : row.attemptToken.isSome ∧
      (Db.tokens key { workspaces } cs).getLast? = row.attemptToken := by
  refine ⟨(sound_reached workspaces cs key row hrow hprepared).attemptToken, ?_⟩
  induction cs using List.reverseRecOn generalizing row with
  | nil => cases hrow
  | append_singleton cs c ih =>
    have hstep := keyStep key (sound_reached workspaces cs) c
    rw [reached_snoc] at hrow
    rw [tokens_snoc]
    have hissued : ∀ {t : Option Id}, t.isSome → (reached workspaces cs).issued key c = t →
        (Db.tokens key { workspaces } cs ++
          ((run Db.step { workspaces } cs).issued key c).toList).getLast? = t := by
      intro t ht hi
      obtain ⟨t, rfl⟩ := Option.isSome_iff_exists.mp ht
      rw [show (run Db.step { workspaces } cs).issued key c = some t from hi]
      simp
    cases hstep with
    | kept hkept hnone =>
      rw [show (run Db.step { workspaces } cs).issued key c = none from hnone]
      simpa using ih (hkept ▸ hrow) hprepared
    | settled _ hheld hsettled =>
      cases hheld.symm.trans hrow
      exact absurd hprepared hsettled
    | begun _ hheld _ hopen hi =>
      cases hheld.symm.trans hrow
      exact hissued hopen.attemptToken hi
    | resumed _ hheld _ _ _ hopen hi =>
      cases hheld.symm.trans hrow
      exact hissued hopen.attemptToken hi
    | applied _ hheld _ hcommitted =>
      cases hheld.symm.trans hrow
      exact absurd hprepared (by rw [hcommitted]; decide)

theorem settled_kept (hsound : db.Sound) (hrow : db.idempotency.get key = some row)
    (hsettled : row.resultState ≠ .prepared) (cs : List Call) :
    (run Db.step db cs).idempotency.get key = some row := by
  refine (run_invariant (I := fun db : Db => db.Sound ∧ db.idempotency.get key = some row)
    (fun db c h => ⟨sound_step h.1 c, ?_⟩) ⟨hsound, hrow⟩ cs).2
  have hstep := keyStep key h.1 c
  cases hstep with
  | kept hkept => rw [hkept, h.2]
  | settled habsent | begun habsent =>
    rw [h.2] at habsent
    cases habsent
  | resumed hbefore _ hprepared | applied hbefore _ hprepared =>
    cases hbefore.symm.trans h.2
    exact absurd hprepared hsettled

theorem request_kept (hsound : db.Sound) (hrow : db.idempotency.get key = some row)
    (cs : List Call) : ∃ row', (run Db.step db cs).idempotency.get key = some row' ∧
      row'.request = row.request := by
  refine (run_invariant
    (I := fun db : Db => db.Sound ∧ ∃ row', db.idempotency.get key = some row' ∧
      row'.request = row.request)
    (fun db c h => ⟨sound_step h.1 c, ?_⟩) ⟨hsound, row, hrow, rfl⟩ cs).2
  obtain ⟨hsound, row', hrow', hrequest⟩ := h
  have hstep := keyStep key hsound c
  cases hstep with
  | kept hkept => exact ⟨row', hkept ▸ hrow', hrequest⟩
  | settled habsent | begun habsent =>
    rw [hrow'] at habsent
    cases habsent
  | resumed hbefore hheld _ _ hsame | applied hbefore hheld _ _ hsame =>
    cases hbefore.symm.trans hrow'
    exact ⟨_, hheld, hsame.trans hrequest⟩

theorem claimKey_again {operations : List Operation} {r : String × LedgerRow}
    (h : claimKey operations k d = .ok (r, d')) (hnames : k.Names key row)
    (hrow : db.idempotency.get key = some row) :
    claimKey operations k db = .ok ((key, row), db) := by
  unfold claimKey at h ⊢
  obtain ⟨hkey, h⟩ := require_bind_ok.mp h
  obtain ⟨hoperation, h⟩ := require_bind_ok.mp h
  obtain ⟨hpurpose, -⟩ := require_bind_ok.mp h
  refine require_bind_ok.mpr ⟨hkey, require_bind_ok.mpr ⟨hoperation,
    require_bind_ok.mpr ⟨hpurpose, ?_⟩⟩⟩
  rw [hnames.key, hnames.scopeKind, hnames.operation, hnames.requestFingerprint]
  refine bind_ok.mpr ⟨key, db, rfl, bind_ok.mpr ⟨_, db, rfl, bind_ok.mpr ⟨_, db, rfl,
    bind_ok.mpr ⟨_, db, rfl, ?_⟩⟩⟩⟩
  rw [get_bind, hrow]
  exact require_bind_ok.mpr ⟨⟨rfl, rfl, rfl⟩, rfl⟩

theorem prepare_replays {now' : Timestamp} {args' : Except Err DeliveryArgs}
    (h : gvPrepareVerificationDelivery now k args d = .ok (p, d')) (hnames : k.Names key row)
    (hrow : db.idempotency.get key = some row) (hcommitted : row.resultState = .committed) :
    db.answer (.prepare now' k args') = .ok (.prepared (.replayed row.safeResult)) := by
  obtain ⟨r, d, hclaim, -⟩ := bind_ok.mp h
  have hagain := claimKey_again hclaim hnames hrow
  have hrun : gvPrepareVerificationDelivery now' k args' db =
      .ok (.replayed row.safeResult, db) := by
    refine bind_ok.mpr ⟨_, _, hagain, ?_⟩
    simp only [hcommitted]
    rfl
  have hcall : (Call.prepare now' k args').run db =
      .ok (.prepared (.replayed row.safeResult), db) := bind_ok.mpr ⟨_, _, hrun, rfl⟩
  rw [Db.answer, hcall]
  rfl

theorem Keyed.Names.of_request {row' : LedgerRow} (h : k.Names key row)
    (hrequest : row'.request = row.request) : k.Names key row' := by
  simp only [LedgerRow.request, Prod.mk.injEq] at hrequest
  obtain ⟨hscope, hoperation, hfingerprint⟩ := hrequest
  exact ⟨h.key, hoperation ▸ h.operation, hscope ▸ h.scopeKind,
    hfingerprint ▸ h.requestFingerprint⟩

theorem names_of_issued (h : (db.issued key c).isSome) :
    ∃ now k args p d row, c = .prepare now k args ∧
      gvPrepareVerificationDelivery now k args db = .ok (p, d) ∧ k.Names key row ∧
      (db.step c).idempotency.get key = some row := by
  unfold Db.issued at h
  split at h
  · rename_i hprepares
    have hanswer : ∃ p, db.answer c = .ok (.prepared p) := by
      split at h
      · exact ⟨_, by assumption⟩
      · exact ⟨_, by assumption⟩
      · cases h
    obtain ⟨p, hp⟩ := hanswer
    cases c with
    | prepare now k args =>
      obtain ⟨p', d, hrun, hpure⟩ := bind_ok.mp (run_of_ok hp)
      cases pure_ok.mp hpure
      refine ⟨now, k, args, p, db.step (.prepare now k args), ?_⟩
      cases steps_of_ok hp with
      | prepare did =>
        rw [hp] at h
        cases did with
        | replayed | failed => cases h
        | resumed hnames _ _ _ _ hwrites | fresh hnames _ _ _ _ hwrites =>
          have hkey := hnames.key
          rw [show k.key = some key by simpa [Call.prepares] using hprepares] at hkey
          cases hkey
          refine ⟨_, rfl, hrun, ?_, hwrites.row⟩
          exact hnames.of_request rfl
    | finalize | execute | consume => cases hprepares
  · cases h

theorem delivery_owned (workspaces : List Id) (cs : List Call) (key : String) :
    DeliveryOwned workspaces cs key := by
  have heffect : ∀ bs c, (reached workspaces bs).TakesEffect key c →
      ∃ row row', (reached workspaces bs).idempotency.get key = some row ∧
        row.resultState = .prepared ∧ row.attemptToken = c.token ∧
        ((reached workspaces bs).step c).idempotency.get key = some row' ∧
        row'.resultState = .committed ∧ row'.request = row.request ∧
        (reached workspaces bs).answer c = .ok (.finalized (.applied row'.safeResult)) := by
    intro bs c hc
    cases keyStep key (sound_reached workspaces bs) c with
    | kept _ _ _ hno | settled _ _ _ _ _ hno | begun _ _ _ _ _ _ hno | resumed _ _ _ _ _ _ _ _ hno =>
      exact absurd hc hno
    | applied hbefore hheld hprepared hcommitted hrequest htoken hanswer =>
      exact ⟨_, _, hbefore, hprepared, htoken, hheld, hcommitted, hrequest, hanswer⟩
  constructor
  · refine (tally_le_budget (I := Db.Sound) (fun _ c h => sound_step h c)
      (fun _ c h => created_le key h c) (sound_start workspaces) cs).trans ?_
    simp [creationsLeft]
  · refine (tally_le_budget (I := Db.Sound) (fun _ c h => sound_step h c)
      (fun _ c h => effects_le key h c) (sound_start workspaces) cs).trans ?_
    simp [effectsLeft]
  · intro bs c ds _ hc
    obtain ⟨row, _, hrow, hprepared, htoken, -⟩ := heffect bs c hc
    obtain ⟨hsome, hlast⟩ := newest_token bs hrow hprepared
    obtain ⟨t, ht⟩ := Option.isSome_iff_exists.mp hsome
    exact ⟨t, htoken.symm.trans ht, hlast.trans ht⟩
  · intro bs c ds _ hf htoken
    by_contra hne
    obtain ⟨row, _, hrow, hprepared, hpresented, -⟩ := heffect bs c ⟨hf, hne⟩
    exact htoken (hpresented.symm.trans (newest_token bs hrow hprepared).2.symm)
  · intro bs p ds f es p' fs _ hissued hf hrepeats
    obtain ⟨now, k, args, a, d, row, rfl, hrun, hnames, hrow⟩ := names_of_issued hissued
    obtain ⟨row₁, row₂, hrow₁, -, -, hrow₂, hcommitted, hrequest, hanswer⟩ := heffect _ f hf
    refine ⟨row₂.safeResult, hanswer, ?_⟩
    -- the row is the request's when it takes effect, and then it stays
    have hsound := sound_step (sound_reached workspaces bs) (.prepare now k args)
    obtain ⟨row', hrow', hsame⟩ := request_kept hsound hrow ds
    have hbs : reached workspaces (bs ++ .prepare now k args :: ds) =
        run Db.step ((reached workspaces bs).step (.prepare now k args)) ds := by
      simp [reached, run_append]
    rw [← hbs] at hrow'
    cases hrow'.symm.trans hrow₁
    have hstays := settled_kept (sound_step (sound_reached workspaces _) f) hrow₂
      (by rw [hcommitted]; decide) es
    have hes : reached workspaces (bs ++ .prepare now k args :: ds ++ f :: es) =
        run Db.step ((reached workspaces (bs ++ .prepare now k args :: ds)).step f) es := by
      simp [reached, run_append]
    rw [← hes] at hstays
    cases p' with
    | prepare now' k' args' =>
      cases hrepeats
      exact prepare_replays hrun (hnames.of_request (hrequest.trans hsame)) hstays hcommitted
    | finalize | execute | consume => cases hrepeats
  · exact fun bs c ds e _ _ h => step_of_error h

end Kindred.Verification
