import Kindred.Email.Outbox

/-! Mails under one supersede key: a newer one, or one of a higher rank, replaces those that wait.
What follows an insert or a hand-over is a few statements, and anything may happen between two of
them. -/

namespace Kindred.Email
open Lib (Table run Meets run_keeps run_invariant)

inductive Next where
  | lower | unranked | older | look | cancelOwn | done
  deriving DecidableEq

/-- A mail that was queued, and may then find itself outranked (`own`), or that was handed over. -/
structure Sweep where
  id : ℕ
  key : String
  rank : Option Int
  createdAt : Int
  own : Bool
  next : Next

structure Queued where
  id : ℕ
  key : String
  rank : Int
  sending : List ℕ
  deriving DecidableEq

/-- `taken`: the rows as the claims in `box.held` returned them. -/
structure Scene where
  box : Outbox := {}
  taken : List Row := []
  sweeps : List Sweep := []
  queued : List Queued := []

def Row.mark (r : Row) : Option String × Option Int := (r.supersedeKey, r.supersedeRank)

def Sweep.mark (w : Sweep) : Option String × Option Int := (some w.key, w.rank)

def Queued.mark (q : Queued) : Option String × Option Int := (some q.key, some q.rank)

namespace Outbox

def sending (s : Outbox) : List ℕ :=
  (s.rows.rows.filter fun r => r.2.status = .sending).map fun r => r.1

def outranked (key : String) (rank : Int) (s : Outbox) : Bool :=
  s.rows.rows.any fun r => r.2.supersedeKey = some key ∧
    (r.2.status = .pending ∨ r.2.status = .sending ∨ r.2.status = .sent) ∧
    r.2.supersedeRank.any fun other => rank < other

end Outbox

namespace Sweep

def start (id : ℕ) (key : String) (rank : Option Int) (createdAt : Int) (own : Bool) : Sweep :=
  { id, key, rank, createdAt, own, next := if rank.isSome then .lower else .older }

def write (w : Sweep) (now : Int) (s : Outbox) : Outbox :=
  match w.next, w.rank with
  | .lower, some rank => s.cancelSuperseded w.key (.rankBelow rank) (some w.id) now
  | .unranked, _ => s.cancelSuperseded w.key (.unrankedBefore w.createdAt) (some w.id) now
  | .older, _ => s.cancelSuperseded w.key (.before w.createdAt) (some w.id) now
  | .cancelOwn, _ => s.cancelOutranked w.id now
  | _, _ => s

/-- `cancelSuperseded` is through: a mail that was just queued looks for one that outranks it. -/
def cancelled (w : Sweep) : Next := if w.own ∧ w.rank.isSome then .look else .done

/-- What comes after the next statement; one that fails is passed over with a warning. -/
def after (w : Sweep) (fault : Fault) (s : Outbox) : Next :=
  match w.next, w.rank with
  | .lower, some _ => if fault = .none then .unranked else w.cancelled
  | .unranked, _ => w.cancelled
  | .older, _ => w.cancelled
  | .look, some rank => if fault = .none ∧ s.outranked w.key rank then .cancelOwn else .done
  | _, _ => .done

end Sweep

/-- What is done: a mail is queued, the next statement of a sweep is run, or the worker goes on. -/
inductive Move where
  | enqueue (mail : NewMail) (now : Int)
  | sweep (j : ℕ) (fault : Fault) (now : Int)
  | claim (id : ℕ) (worker : String) (leaseSeconds : Option Int) (now : Int)
  | process (k : ℕ) (readable : Bool) (now : Int)
  | answered (k : ℕ) (result : Option SendResult) (now : Int)
  | write (k : ℕ) (fault : Fault) (now : Int)
  | purgeFinished (now : Int)

def Outbox.recorded (k : ℕ) (s s' : Outbox) : Bool :=
  ((s.held[k]?).any fun h => match h.stage with | .recording _ _ => true | _ => false) &&
    (s'.held[k]?).any fun h => h.stage = .done

namespace Scene

/-- `afterHandOver` for a row that a worker had claimed. -/
def handedOver (k : ℕ) (s : Scene) : List Sweep :=
  match s.box.held[k]?, s.taken[k]? with
  | some h, some r =>
    r.supersedeKey.toList.map fun key => Sweep.start h.id key r.supersedeRank r.createdAt false
  | _, _ => []

def step (s : Scene) : Move → Scene
  | .enqueue mail now =>
    let box := s.box.insertRow mail now
    if box.made = s.box.made then s
    else
      { s with
        box
        sweeps := s.sweeps ++ mail.supersedeKey.toList.map fun key =>
          Sweep.start s.box.made key mail.supersedeRank now true
        queued := s.queued ++ match mail.supersedeKey, mail.supersedeRank with
          | some key, some rank => [{ id := s.box.made, key, rank, sending := s.box.sending }]
          | _, _ => [] }
  | .sweep j fault now =>
    match s.sweeps[j]? with
    | none => s
    | some w =>
      { s with
        box := if fault = .refused then s.box else w.write now s.box
        sweeps := s.sweeps.set j { w with next := w.after fault s.box } }
  | .claim id worker leaseSeconds now =>
    let box := s.box.claim id worker leaseSeconds now
    { s with
      box
      taken := if box.held.length = s.box.held.length then s.taken
        else s.taken ++ (box.rows.get id).toList }
  | .process k readable now => { s with box := s.box.step (.process k readable now) }
  | .answered k result now => { s with box := s.box.step (.answered k result now) }
  | .write k fault now =>
    let box := s.box.step (.write k fault now)
    { s with
      box
      sweeps := s.sweeps ++ if Outbox.recorded k s.box box then s.handedOver k else [] }
  | .purgeFinished now => { s with box := s.box.purgeFinished now }

end Scene

/-- What a worker records never is that a row was cancelled. -/
def Outcome.status : Outcome → Status
  | .finish status _ _ _ _ => status
  | .retryLater _ _ _ _ => .pending

def Held.Honest (h : Held) : Prop := ∀ now, ∀ o ∈ Outbox.Held.outcome h now, o.status ≠ .cancelled

namespace Outbox

@[simp] theorem mark_superseded (now : Int) (r : Row) : (superseded now r).mark = r.mark := by
  unfold superseded
  split <;> rfl

@[simp] theorem mark_apply (now : Int) (r : Row) (o : Outcome) :
    (Outcome.apply now r o).mark = r.mark := by
  cases o <;> rfl

@[simp] theorem status_apply (now : Int) (r : Row) (o : Outcome) :
    (Outcome.apply now r o).status = o.status := by
  cases o <;> rfl

theorem insertRow_spec (mail : NewMail) (now : Int) (s : Outbox) :
    s.insertRow mail now = s ∨ ∃ r : Row, r.mark = (mail.supersedeKey, mail.supersedeRank) ∧
      r.status = .pending ∧ (s.insertRow mail now).rows = s.rows.put s.made r ∧
      (s.insertRow mail now).made = s.made + 1 ∧ (s.insertRow mail now).held = s.held := by
  unfold insertRow
  dsimp only
  split
  · exact .inl rfl
  · split
    · exact .inl rfl
    · exact .inr ⟨_, rfl, rfl, rfl, rfl, rfl⟩

theorem claim_spec (id : ℕ) (worker : String) (leaseSeconds : Option Int) (now : Int) (s : Outbox) :
    s.claim id worker leaseSeconds now = s ∨ ∃ (r r' : Row) (h : Held), s.rows.get id = some r ∧
      (r.status = .pending ∨ r.status = .sending) ∧
      (s.claim id worker leaseSeconds now).rows = s.rows.put id r' ∧ r'.mark = r.mark ∧
      r'.status = .sending ∧ (s.claim id worker leaseSeconds now).made = s.made ∧
      (s.claim id worker leaseSeconds now).held = s.held ++ [h] ∧ h.stage = .claimed := by
  unfold claim
  cases hr : s.rows.get id with
  | none => exact .inl rfl
  | some r =>
    dsimp only
    split
    · rename_i hdue
      refine .inr ⟨r, _, _, rfl, ?_, rfl, rfl, rfl, rfl, rfl, rfl⟩
      unfold due at hdue
      cases hs : r.status <;> simp [hs] at hdue ⊢
    · exact .inl rfl

/-- What a worker writes is what its stage says, and it goes into a row that is being sent. -/
theorem write_spec (k : ℕ) (fault : Fault) (now : Int) (s : Outbox) (id : ℕ) :
    (s.step (.write k fault now)).rows.get id = s.rows.get id ∨
      ∃ (h : Held) (o : Outcome) (r : Row), h ∈ s.held ∧ Held.outcome h now = some o ∧
        s.rows.get id = some r ∧ r.status = .sending ∧
        (s.step (.write k fault now)).rows.get id = some (Outcome.apply now r o) := by
  simp only [step]
  split
  · rename_i h hk
    unfold write
    cases ho : Held.outcome h now with
    | none => exact .inl rfl
    | some o =>
      rw [rows_setStage]
      split
      · exact .inl rfl
      · simp only [complete, Table.get_update]
        split
        · rename_i hid
          subst hid
          cases hr : s.rows.get h.id with
          | none => exact .inl rfl
          | some r =>
            rw [Option.map_some]
            split
            · rename_i hheld
              exact .inr ⟨h, o, r, List.mem_of_getElem? hk, ho, rfl, hheld.2, rfl⟩
            · exact .inl rfl
        · exact .inl rfl
  · exact .inl rfl

end Outbox

def Sweep.Cancels (w : Sweep) (id : ℕ) (r : Row) : Prop :=
  match w.next with
  | .lower => id ≠ w.id ∧ r.supersedeKey = some w.key ∧
      (w.rank.any fun rank => r.supersedeRank.any fun own => own < rank) = true
  | .unranked => r.supersedeKey = some w.key ∧ r.supersedeRank = none
  | .older => r.supersedeKey = some w.key
  | .cancelOwn => id = w.id
  | _ => False

namespace Outbox

theorem cancelSuperseded_spec (key : String) (older : Older) (exceptId : Option ℕ) (now : Int)
    (s : Outbox) (id : ℕ) :
    (s.cancelSuperseded key older exceptId now).rows.get id = s.rows.get id ∨
      ∃ r, s.rows.get id = some r ∧ r.status = .pending ∧
        (r.supersedeKey = some key ∧ exceptId ≠ some id ∧ older.has r) ∧
        (s.cancelSuperseded key older exceptId now).rows.get id = some (superseded now r) := by
  simp only [cancelSuperseded, Table.get_mapKeyed]
  cases s.rows.get id with
  | none => exact .inl rfl
  | some r =>
    rw [Option.map_some]
    split
    · rename_i hc
      by_cases hp : r.status = .pending
      · exact .inr ⟨r, rfl, hp, hc, rfl⟩
      · exact .inl (by rw [show superseded now r = r from if_neg hp])
    · exact .inl rfl

end Outbox

theorem Sweep.write_spec (w : Sweep) (now : Int) (s : Outbox) (id : ℕ) :
    (w.write now s).rows.get id = s.rows.get id ∨
      ∃ r, s.rows.get id = some r ∧ r.status = .pending ∧ w.Cancels id r ∧
        (w.write now s).rows.get id = some (Outbox.superseded now r) := by
  unfold Sweep.write Sweep.Cancels
  cases hnext : w.next with
  | lower =>
    cases hrank : w.rank with
    | none => exact .inl rfl
    | some rank =>
      rcases Outbox.cancelSuperseded_spec w.key (.rankBelow rank) (some w.id) now s id with
        hsame | ⟨r, hr, hp, ⟨hkey, hid, hlow⟩, hget⟩
      · exact .inl hsame
      · exact .inr ⟨r, hr, hp, ⟨fun he => hid (by rw [he]), hkey, hlow⟩, hget⟩
  | unranked =>
    have hspec := Outbox.cancelSuperseded_spec w.key (.unrankedBefore w.createdAt) (some w.id) now
      s id
    rcases hspec with hsame | ⟨r, hr, hp, ⟨hkey, -, hnone⟩, hget⟩
    · exact .inl hsame
    · simp only [Older.has, Bool.and_eq_true, Option.isNone_iff_eq_none] at hnone
      exact .inr ⟨r, hr, hp, ⟨hkey, hnone.1⟩, hget⟩
  | older =>
    rcases Outbox.cancelSuperseded_spec w.key (.before w.createdAt) (some w.id) now s id with
      hsame | ⟨r, hr, hp, ⟨hkey, -⟩, hget⟩
    · exact .inl hsame
    · exact .inr ⟨r, hr, hp, hkey, hget⟩
  | cancelOwn =>
    simp only [Outbox.cancelOutranked, Table.get_update]
    split
    · rename_i hid
      subst hid
      cases s.rows.get w.id with
      | none => exact .inl rfl
      | some r =>
        by_cases hp : r.status = .pending
        · exact .inr ⟨r, rfl, hp, rfl, rfl⟩
        · exact .inl (by rw [Option.map_some, show Outbox.superseded now r = r from if_neg hp])
    · exact .inl rfl
  | look => exact .inl (by cases w.rank <;> rfl)
  | done => exact .inl (by cases w.rank <;> rfl)

variable {w : Sweep} {r : Row} {id : ℕ}

theorem Sweep.write_cancels {s : Outbox} (hw : w.next = .lower ∨ w.next = .cancelOwn)
    (hr : s.rows.get id = some r) (hc : w.Cancels id r) (now : Int) :
    (w.write now s).rows.get id = some (Outbox.superseded now r) := by
  unfold Sweep.Cancels at hc
  unfold Sweep.write
  rcases hw with hnext | hnext
  · simp only [hnext] at hc ⊢
    obtain ⟨hid, hkey, hany⟩ := hc
    obtain ⟨rank, hrank, hlow⟩ := (Option.any_eq_true _ _).mp hany
    have hne : some w.id ≠ some id := fun he => hid (Option.some.inj he).symm
    simp only [show w.rank = some rank from hrank, Outbox.cancelSuperseded, Table.get_mapKeyed, hr,
      Option.map_some]
    rw [if_pos ⟨hkey, hne, hlow⟩]
  · simp only [hnext] at hc ⊢
    subst hc
    simp [Outbox.cancelOutranked, hr]

inductive RowMove (s : Scene) (m : Move) (id : ℕ) : Option Row → Option Row → Prop where
  | same (o : Option Row) : RowMove s m id o o
  | queued (mail : NewMail) (now : Int) (r : Row) (hm : m = .enqueue mail now)
      (hid : id = s.box.made) (hmark : r.mark = (mail.supersedeKey, mail.supersedeRank))
      (hp : r.status = .pending) : RowMove s m id none (some r)
  | cancelled (r : Row) (j : ℕ) (fault : Fault) (now : Int) (w : Sweep)
      (hm : m = .sweep j fault now) (hw : s.sweeps[j]? = some w) (hp : r.status = .pending)
      (hc : w.Cancels id r) :
      RowMove s m id (some r) (some (Outbox.superseded now r))
  | claimed (r r' : Row) (worker : String) (leaseSeconds : Option Int) (now : Int)
      (hm : m = .claim id worker leaseSeconds now) (hs : r.status = .pending ∨ r.status = .sending)
      (hmark : r'.mark = r.mark) (hs' : r'.status = .sending) : RowMove s m id (some r) (some r')
  | written (r : Row) (k : ℕ) (fault : Fault) (h : Held) (o : Outcome) (now : Int)
      (hm : m = .write k fault now) (hh : h ∈ s.box.held)
      (ho : Outbox.Held.outcome h now = some o) (hs : r.status = .sending) :
      RowMove s m id (some r) (some (Outbox.Outcome.apply now r o))
  | purged (r : Row) (hf : r.status.final = true) : RowMove s m id (some r) none

variable {q : Queued} {mark : Option String × Option Int} {m : Move} {r' : Row} {rank now : Int}
  {mail : NewMail} {key : String} {s : Scene}

namespace Scene

variable {s : Scene} {key : String} {h : Held}

theorem row_cases (hi : s.box.Inv) (m : Move) (id : ℕ) :
    RowMove s m id (s.box.rows.get id) ((s.step m).box.rows.get id) := by
  cases m with
  | enqueue mail now =>
    simp only [step]
    split
    · exact .same _
    · rename_i hmade
      rcases Outbox.insertRow_spec mail now s.box with hsame | ⟨r, hmark, hp, hrows, -, -⟩
      · exact absurd (by rw [hsame]) hmade
      · dsimp only
        rw [hrows, Table.get_put]
        split
        · rename_i hid
          rw [hid, hi.get_made]
          exact .queued mail now r rfl rfl hmark hp
        · exact .same _
  | sweep j fault now =>
    simp only [step]
    cases hw : s.sweeps[j]? with
    | none => exact .same _
    | some w =>
      dsimp only
      split
      · exact .same _
      · rcases w.write_spec now s.box id with hsame | ⟨r, hr, hp, hc, hget⟩
        · rw [hsame]
          exact .same _
        · rw [hr, hget]
          exact .cancelled r j fault now w rfl hw hp hc
  | claim k worker leaseSeconds now =>
    simp only [step]
    rcases Outbox.claim_spec k worker leaseSeconds now s.box with
      hsame | ⟨r, r', h, hr, hs, hrows, hmark, hs', -⟩
    · rw [hsame]
      exact .same _
    · rw [hrows, Table.get_put]
      split
      · rename_i hid
        rw [hid, hr]
        exact .claimed r r' worker leaseSeconds now rfl hs hmark hs'
      · exact .same _
  | process k readable now =>
    simp only [step, Outbox.step]
    split
    · split <;> exact .same _
    · exact .same _
  | answered k result now =>
    simp only [step, Outbox.step]
    split
    · split <;> exact .same _
    · exact .same _
  | write k fault now =>
    rcases Outbox.write_spec k fault now s.box id with hsame | ⟨h, o, r, hh, ho, hr, hs, hget⟩
    · simp only [step, hsame]
      exact .same _
    · simp only [step, hget, hr]
      exact .written r k fault h o now rfl hh ho hs
  | purgeFinished now =>
    simp only [step, Outbox.purgeFinished, Table.get_keep]
    cases s.box.rows.get id with
    | none => exact .same _
    | some r =>
      rw [Option.filter_some]
      split
      · exact .same _
      · rename_i hold
        refine .purged r ?_
        cases hf : r.status.final with
        | true => rfl
        | false => simp [hf] at hold

theorem box_step (s : Scene) (m : Move) :
    (s.step m).box = s.box ∨ ∃ a, (s.step m).box = s.box.step a := by
  cases m with
  | enqueue mail now =>
    simp only [step]
    split
    · exact .inl rfl
    · exact .inr ⟨.insertRow mail now, rfl⟩
  | sweep j fault now =>
    simp only [step]
    cases s.sweeps[j]? with
    | none => exact .inl rfl
    | some w =>
      dsimp only
      split
      · exact .inl rfl
      · unfold Sweep.write
        split
        · exact .inr ⟨.cancelSuperseded _ _ _ now, rfl⟩
        · exact .inr ⟨.cancelSuperseded _ _ _ now, rfl⟩
        · exact .inr ⟨.cancelSuperseded _ _ _ now, rfl⟩
        · exact .inr ⟨.cancelOutranked _ now, rfl⟩
        · exact .inl rfl
  | claim id worker leaseSeconds now => exact .inr ⟨.claim id worker leaseSeconds now, rfl⟩
  | process k readable now => exact .inr ⟨.process k readable now, rfl⟩
  | answered k result now => exact .inr ⟨.answered k result now, rfl⟩
  | write k fault now => exact .inr ⟨.write k fault now, rfl⟩
  | purgeFinished now => exact .inr ⟨.purgeFinished now, rfl⟩

theorem inv_step (hi : s.box.Inv) (m : Move) : (s.step m).box.Inv := by
  rcases box_step s m with hsame | ⟨a, ha⟩
  · rwa [hsame]
  · rw [ha]
    exact hi.step a

theorem made_step (s : Scene) (m : Move) : s.box.made ≤ (s.step m).box.made := by
  rcases box_step s m with hsame | ⟨a, ha⟩
  · exact Nat.le_of_eq (by rw [hsame])
  · rw [ha]
    exact Outbox.made_le_step s.box a

def Honest (s : Scene) : Prop := ∀ h ∈ s.box.held, h.Honest

theorem honest_modify {s : Outbox} {k : ℕ} {stage : Stage} (hs : ∀ h ∈ s.held, h.Honest)
    (hk : s.held[k]? = some h) (hstage : Held.Honest { h with stage }) :
    ∀ h ∈ (s.setStage k stage).held, h.Honest := by
  intro h' hh'
  obtain ⟨j, hj⟩ := List.mem_iff_getElem?.mp hh'
  rw [show (s.setStage k stage).held[j]? = _ from List.getElem?_modify ..] at hj
  by_cases hkj : k = j
  · subst hkj
    rw [hk] at hj
    simp only [if_pos] at hj
    cases hj
    exact hstage
  · simp only [hkj, if_false, Option.map_eq_map, Option.map_id'] at hj
    exact hs _ (List.mem_of_getElem? hj)

theorem honest_process (readable : Bool) (now : Int) :
    Held.Honest { h with stage := Outbox.process h readable now } := by
  intro at_ o ho
  unfold Outbox.process at ho
  split at ho
  · cases ho
    nofun
  · split at ho
    · cases ho
      nofun
    · cases ho

theorem honest_answered (result : Option SendResult) (now : Int) :
    Held.Honest { h with stage := Outbox.answered h result now } := by
  intro at_ o ho
  unfold Outbox.answered at ho
  cases result with
  | none =>
    cases ho
    nofun
  | some result =>
    dsimp only at ho
    split at ho
    · cases ho
      nofun
    · split at ho <;> cases ho <;> nofun

theorem honest_wrote (hh : h.Honest) (fault : Fault) :
    Held.Honest { h with stage := Outbox.Held.wrote h fault } := by
  intro at_ o ho
  have hkeep := hh at_ o
  obtain ⟨id, token, attempts, maxAttempts, giveUpAt, code, error, stage⟩ := h
  unfold Outbox.Held.wrote at ho
  cases stage with
  | recording attempt kept =>
    cases fault <;> simp only at ho
    · cases ho
    all_goals
      split at ho
      · cases ho
      · exact hkeep ho
  | ending kept =>
    cases fault <;> cases ho <;> nofun
  | claimed => cases fault <;> cases ho
  | handed => cases fault <;> cases ho
  | givingBack => cases fault <;> cases ho
  | done => cases fault <;> cases ho

theorem Honest.step (h : s.Honest) (m : Move) : (s.step m).Honest := by
  unfold Honest at *
  cases m with
  | enqueue mail now =>
    simp only [Scene.step]
    split
    · exact h
    · rcases Outbox.insertRow_spec mail now s.box with hsame | ⟨r, -, -, -, -, hheld⟩
      · simpa only [hsame] using h
      · simpa only [hheld] using h
  | sweep j fault now =>
    simp only [Scene.step]
    cases s.sweeps[j]? with
    | none => exact h
    | some w =>
      dsimp only
      split
      · exact h
      · unfold Sweep.write
        split <;> exact h
  | claim id worker leaseSeconds now =>
    simp only [Scene.step]
    rcases Outbox.claim_spec id worker leaseSeconds now s.box with
      hsame | ⟨-, -, w, -, -, -, -, -, -, hheld, hstage⟩
    · simpa only [hsame] using h
    · rw [hheld]
      intro h' hh'
      rcases List.mem_append.mp hh' with hold | hnew
      · exact h h' hold
      · rw [List.mem_singleton.mp hnew]
        intro at_ o ho
        simp [Outbox.Held.outcome, hstage] at ho
  | process k readable now =>
    simp only [Scene.step, Outbox.step]
    cases hk : s.box.held[k]? with
    | none => exact h
    | some w =>
      dsimp only
      split
      · exact honest_modify h hk (honest_process readable now)
      · exact h
  | answered k result now =>
    simp only [Scene.step, Outbox.step]
    cases hk : s.box.held[k]? with
    | none => exact h
    | some w =>
      dsimp only
      split
      · exact honest_modify h hk (honest_answered result now)
      · exact h
  | write k fault now =>
    simp only [Scene.step, Outbox.step]
    cases hk : s.box.held[k]? with
    | none => exact h
    | some w =>
      dsimp only
      unfold Outbox.write
      cases Outbox.Held.outcome w now with
      | none => exact h
      | some o =>
        have hmod := honest_wrote (h w (List.mem_of_getElem? hk)) fault
        dsimp only
        split
        · exact honest_modify h hk hmod
        · exact honest_modify (s := s.box.complete w o now) h hk hmod
  | purgeFinished now => exact h

def higher (s : Scene) (key : String) (rank : Option Int) : Bool :=
  s.queued.any fun q => q.key = key ∧ rank.any fun rank => rank < q.rank

def Known (s : Scene) (mark : Option String × Option Int) : Prop :=
  ∀ key rank, mark = (some key, some rank) → ∃ q ∈ s.queued, q.mark = mark

theorem queued_step (s : Scene) (m : Move) : ∃ more, (s.step m).queued = s.queued ++ more ∧
    ∀ q ∈ more, ∃ mail now, m = .enqueue mail now ∧ q.id = s.box.made ∧
      q.mark = (mail.supersedeKey, mail.supersedeRank) ∧ q.sending = s.box.sending ∧
      s.box.made < (s.step m).box.made := by
  cases m with
  | enqueue mail now =>
    simp only [step]
    split
    · exact ⟨[], by simp, by simp⟩
    · rename_i hmade
      refine ⟨_, rfl, fun q hq => ⟨mail, now, rfl, ?_⟩⟩
      have hlt : s.box.made < (s.box.insertRow mail now).made := by
        rcases Outbox.insertRow_spec mail now s.box with hsame | ⟨r, -, -, -, hsucc, -⟩
        · exact absurd (by rw [hsame]) hmade
        · rw [hsucc]
          exact Nat.lt_succ_self _
      cases hkey : mail.supersedeKey with
      | none => simp [hkey] at hq
      | some key =>
        cases hrank : mail.supersedeRank with
        | none => simp [hkey, hrank] at hq
        | some rank =>
          simp only [hkey, hrank, List.mem_singleton] at hq
          subst hq
          exact ⟨rfl, rfl, rfl, hlt⟩
  | sweep j fault now =>
    simp only [step]
    cases s.sweeps[j]? with
    | none => exact ⟨[], by simp, by simp⟩
    | some w => exact ⟨[], by simp, by simp⟩
  | claim => exact ⟨[], by simp [step], by simp⟩
  | process => exact ⟨[], by simp [step], by simp⟩
  | answered => exact ⟨[], by simp [step], by simp⟩
  | write => exact ⟨[], by simp [step], by simp⟩
  | purgeFinished => exact ⟨[], by simp [step], by simp⟩

theorem mem_queued_step (hq : q ∈ s.queued) (m : Move) : q ∈ (s.step m).queued := by
  obtain ⟨more, hmore, -⟩ := queued_step s m
  rw [hmore]
  exact List.mem_append_left _ hq

theorem Known.step (h : s.Known mark) (m : Move) : (s.step m).Known mark := by
  intro key rank hmark
  obtain ⟨q, hq, hqm⟩ := h key rank hmark
  exact ⟨q, mem_queued_step hq m, hqm⟩

theorem higher_step {rank : Option Int} (h : s.higher key rank = true) (m : Move) :
    (s.step m).higher key rank = true := by
  obtain ⟨q, hq, hqr⟩ := List.any_eq_true.mp h
  exact List.any_eq_true.mpr ⟨q, mem_queued_step hq m, hqr⟩

/-- Where a sweep is from. -/
theorem sweeps_step (hw : w ∈ (s.step m).sweeps) : w ∈ s.sweeps ∨
      (∃ mail now key, m = .enqueue mail now ∧ s.box.made < (s.step m).box.made ∧
        mail.supersedeKey = some key ∧ w = Sweep.start s.box.made key mail.supersedeRank now true) ∨
      (∃ j fault now v, m = .sweep j fault now ∧ s.sweeps[j]? = some v ∧
        w = { v with next := v.after fault s.box }) ∨
      ∃ k fault now, m = .write k fault now ∧ w ∈ s.handedOver k := by
  cases m with
  | enqueue mail now =>
    simp only [step] at hw ⊢
    split at hw
    · exact .inl hw
    · rename_i hmade
      rcases List.mem_append.mp hw with hold | hnew
      · exact .inl hold
      · obtain ⟨key, hkey, rfl⟩ := List.mem_map.mp hnew
        refine .inr (.inl ⟨mail, now, key, rfl, ?_, by simpa using hkey, rfl⟩)
        rw [if_neg hmade]
        exact Nat.lt_of_le_of_ne (Outbox.made_le_step s.box (.insertRow mail now)) (Ne.symm hmade)
  | sweep j fault now =>
    simp only [step] at hw
    cases hv : s.sweeps[j]? with
    | none =>
      rw [hv] at hw
      exact .inl hw
    | some v =>
      rw [hv] at hw
      rcases List.mem_or_eq_of_mem_set hw with hold | hnew
      · exact .inl hold
      · exact .inr (.inr (.inl ⟨j, fault, now, v, rfl, hv, hnew⟩))
  | claim => exact .inl hw
  | process => exact .inl hw
  | answered => exact .inl hw
  | write k fault now =>
    rcases List.mem_append.mp hw with hold | hnew
    · exact .inl hold
    · split at hnew
      · exact .inr (.inr (.inr ⟨k, fault, now, rfl, hnew⟩))
      · cases hnew
  | purgeFinished => exact .inl hw

structure Traced (s : Scene) (w : Sweep) : Prop where
  known : s.Known w.mark
  own : w.own = true → w.id < s.box.made ∧ ∀ r, s.box.rows.get w.id = some r → r.mark = w.mark
  looks : w.next = .look ∨ w.next = .cancelOwn → w.own = true
  outranked : w.next = .cancelOwn → s.higher w.key w.rank = true
  older : w.next = .older → w.rank = none

structure Booked (s : Scene) : Prop where
  queued : ∀ q ∈ s.queued, q.id < s.box.made ∧
    ∀ r, s.box.rows.get q.id = some r → r.mark = q.mark
  rows : ∀ id r, s.box.rows.get id = some r → ∀ key rank, r.mark = (some key, some rank) →
    ∃ q ∈ s.queued, q.id = id ∧ q.mark = r.mark
  taken : ∀ r ∈ s.taken, s.Known r.mark
  sweeps : ∀ w ∈ s.sweeps, s.Traced w

theorem mark_step (hi : s.box.Inv) (hr' : (s.step m).box.rows.get id = some r') :
    (∃ r, s.box.rows.get id = some r ∧ r'.mark = r.mark) ∨
      ∃ mail now, m = .enqueue mail now ∧ id = s.box.made ∧
        r'.mark = (mail.supersedeKey, mail.supersedeRank) := by
  have hch := row_cases hi m id
  rw [hr'] at hch
  generalize hget : s.box.rows.get id = o at hch
  cases hch with
  | same => exact .inl ⟨r', rfl, rfl⟩
  | queued mail now _ hm hid hmark => exact .inr ⟨mail, now, hm, hid, hmark⟩
  | cancelled r => exact .inl ⟨r, rfl, Outbox.mark_superseded _ _⟩
  | claimed r _ _ _ _ _ _ hmark => exact .inl ⟨r, rfl, hmark⟩
  | written r => exact .inl ⟨r, rfl, Outbox.mark_apply _ _ _⟩

theorem own_mark_step (hi : s.box.Inv) (m : Move) (hid : id < s.box.made)
    (h : ∀ r, s.box.rows.get id = some r → r.mark = mark) :
    id < (s.step m).box.made ∧ ∀ r, (s.step m).box.rows.get id = some r → r.mark = mark := by
  refine ⟨Nat.lt_of_lt_of_le hid (made_step s m), fun r' hr' => ?_⟩
  rcases mark_step hi hr' with ⟨r, hr, hmark⟩ | ⟨_, _, _, hnew, _⟩
  · rw [hmark, h r hr]
  · omega

theorem Traced.step (hi : s.box.Inv) (h : s.Traced w) (m : Move) : (s.step m).Traced w :=
  ⟨h.known.step m, fun ho => own_mark_step hi m (h.own ho).1 (h.own ho).2, h.looks,
    fun hc => higher_step (h.outranked hc) m, h.older⟩

theorem Booked.higher_of_outranked (h : s.Booked) (ho : s.box.outranked key rank = true)
    : s.higher key (some rank) = true := by
  obtain ⟨⟨id, r⟩, hmem, hr⟩ := List.any_eq_true.mp ho
  obtain ⟨hkey, -, hrank⟩ := of_decide_eq_true hr
  obtain ⟨other, hother, hlt⟩ := (Option.any_eq_true _ _).mp hrank
  have hmark : r.mark = (some key, some other) := by
    unfold Row.mark
    rw [hkey, show r.supersedeRank = some other from hother]
  obtain ⟨q, hq, -, hqm⟩ := h.rows id r (Table.get_eq_some_iff_mem.mpr hmem) key other hmark
  rw [hmark] at hqm
  simp only [Queued.mark, Prod.mk.injEq, Option.some.injEq] at hqm
  refine List.any_eq_true.mpr ⟨q, hq, ?_⟩
  simp only [Option.any_some, decide_eq_true_eq] at hlt ⊢
  exact ⟨hqm.1, by rw [hqm.2]; exact hlt⟩

theorem queued_of_made (hmade : s.box.made < (s.step (.enqueue mail now)).box.made)
    (hmark : (mail.supersedeKey, mail.supersedeRank) = (some key, some rank)) :
    { id := s.box.made, key, rank, sending := s.box.sending } ∈
      (s.step (.enqueue mail now)).queued := by
  simp only [Prod.mk.injEq] at hmark
  simp only [step] at hmade ⊢
  split at hmade
  · exact absurd hmade (Nat.lt_irrefl _)
  · rename_i hne
    rw [if_neg hne]
    simp [hmark.1, hmark.2]

theorem sweep_of_made (hmade : s.box.made < (s.step (.enqueue mail now)).box.made)
    (hkey : mail.supersedeKey = some key) : Sweep.start s.box.made key mail.supersedeRank now true ∈
      (s.step (.enqueue mail now)).sweeps := by
  simp only [step] at hmade ⊢
  split at hmade
  · exact absurd hmade (Nat.lt_irrefl _)
  · rename_i hne
    rw [if_neg hne]
    simp [hkey]

theorem Booked.known (h : s.Booked) (hr : s.box.rows.get id = some r) : s.Known r.mark := by
  intro key rank hmark
  obtain ⟨q, hq, -, hqm⟩ := h.rows id r hr key rank hmark
  exact ⟨q, hq, hqm⟩

theorem start_next (id : ℕ) (key : String) (rank : Option Int) (createdAt : Int) (own : Bool) :
    (Sweep.start id key rank createdAt own).next = .lower ∧ rank.isSome = true ∨
      (Sweep.start id key rank createdAt own).next = .older ∧ rank = none := by
  cases rank with
  | none => exact .inr ⟨rfl, rfl⟩
  | some rank => exact .inl ⟨rfl, rfl⟩

theorem cancelled_cases (w : Sweep) : w.cancelled = .look ∧ w.own = true ∨ w.cancelled = .done := by
  unfold Sweep.cancelled
  split
  · rename_i h
    exact .inl ⟨rfl, h.1⟩
  · exact .inr rfl

theorem after_cases (w : Sweep) (fault : Fault) (s : Outbox) :
    (w.after fault s = .look ∧ w.own = true) ∨ w.after fault s = .unranked ∨
      w.after fault s = .done ∨ (w.after fault s = .cancelOwn ∧ w.next = .look ∧ fault = .none ∧
        ∃ rank, w.rank = some rank ∧ s.outranked w.key rank = true) := by
  unfold Sweep.after
  split
  · split
    · exact .inr (.inl rfl)
    · rcases cancelled_cases w with hl | hd
      · exact .inl hl
      · exact .inr (.inr (.inl hd))
  · rcases cancelled_cases w with hl | hd
    · exact .inl hl
    · exact .inr (.inr (.inl hd))
  · rcases cancelled_cases w with hl | hd
    · exact .inl hl
    · exact .inr (.inr (.inl hd))
  · rename_i rank hnext hrank
    split
    · rename_i ho
      exact .inr (.inr (.inr ⟨rfl, hnext, ho.1, rank, hrank, ho.2⟩))
    · exact .inr (.inr (.inl rfl))
  · exact .inr (.inr (.inl rfl))

theorem Traced.after (hb : s.Booked) (h : s.Traced w) (fault : Fault) :
    s.Traced { w with next := w.after fault s.box } := by
  refine ⟨h.known, h.own, fun hn => ?_, fun hn => ?_, fun hn => ?_⟩
  · rcases after_cases w fault s.box with hl | hu | hd | ⟨-, hlook, -⟩
    · exact hl.2
    · simp [hu] at hn
    · simp [hd] at hn
    · exact h.looks (.inl hlook)
  · rcases after_cases w fault s.box with hl | hu | hd | ⟨-, -, -, rank, hrank, ho⟩
    · simp [hl.1] at hn
    · simp [hu] at hn
    · simp [hd] at hn
    · change s.higher w.key w.rank = true
      rw [hrank]
      exact hb.higher_of_outranked ho
  · rcases after_cases w fault s.box with hl | hu | hd | ⟨hc, -⟩
    · simp [hl.1] at hn
    · simp [hu] at hn
    · simp [hd] at hn
    · simp [hc] at hn

theorem Booked.step (h : s.Booked) (hi : s.box.Inv) (m : Move) : (s.step m).Booked := by
  refine ⟨fun q hq => ?_, fun id r' hr' key rank hmark => ?_, fun r hr => ?_, fun w hw => ?_⟩
  · obtain ⟨more, hmore, hnew⟩ := queued_step s m
    rw [hmore] at hq
    rcases List.mem_append.mp hq with hold | hmem
    · obtain ⟨hlt, hrow⟩ := h.queued q hold
      exact own_mark_step hi m hlt hrow
    · obtain ⟨mail, now, hm, hid, hqm, -, hlt⟩ := hnew q hmem
      refine ⟨hid ▸ hlt, fun r' hr' => ?_⟩
      rcases mark_step hi hr' with ⟨r, hr, -⟩ | ⟨mail', now', hm', -, hmark⟩
      · rw [hid, hi.get_made] at hr
        cases hr
      · rw [hm] at hm'
        cases hm'
        rw [hmark, hqm]
  · rcases mark_step hi hr' with ⟨r, hr, hsame⟩ | ⟨mail, now, hm, hid, hnew⟩
    · obtain ⟨q, hq, hqid, hqm⟩ := h.rows id r hr key rank (by rw [← hsame, hmark])
      exact ⟨q, mem_queued_step hq m, hqid, by rw [hqm, hsame]⟩
    · subst hm
      have hlt := (inv_step hi (.enqueue mail now)).made id r' hr'
      rw [hid] at hlt
      exact ⟨_, queued_of_made hlt (hnew.symm.trans hmark), hid.symm, hmark.symm⟩
  · cases m with
    | claim id worker leaseSeconds now =>
      simp only [Scene.step] at hr
      split at hr
      · exact h.taken r hr
      · rcases List.mem_append.mp hr with hold | hnew
        · exact h.taken r hold
        · simp only [Option.mem_toList] at hnew
          rcases mark_step hi (m := .claim id worker leaseSeconds now) hnew with
            ⟨r', hr', hmark⟩ | ⟨_, _, hm, _⟩
          · rw [hmark]
            exact (h.known hr').step _
          · cases hm
    | enqueue mail now =>
      simp only [Scene.step] at hr
      refine (h.taken r ?_).step _
      split at hr <;> exact hr
    | sweep j fault now =>
      simp only [Scene.step] at hr
      refine (h.taken r ?_).step _
      split at hr <;> exact hr
    | process => exact h.taken r hr
    | answered => exact h.taken r hr
    | write => exact h.taken r hr
    | purgeFinished => exact h.taken r hr
  · rcases sweeps_step hw with hold | ⟨mail, now, key, rfl, hlt, hkey, rfl⟩ |
      ⟨j, fault, now, v, rfl, hv, rfl⟩ | ⟨k, fault, now, rfl, hnew⟩
    · exact (h.sweeps w hold).step hi m
    · refine ⟨fun key' rank hmark => ?_, fun _ => ⟨hlt, fun r' hr' => ?_⟩, fun _ => rfl,
        fun hn => ?_, fun hn => ?_⟩
      · simp only [Sweep.mark, Sweep.start, Prod.mk.injEq, Option.some.injEq] at hmark
        have hq := queued_of_made hlt (show (mail.supersedeKey, mail.supersedeRank) =
          (some key, some rank) by rw [hkey, hmark.2])
        refine ⟨_, hq, ?_⟩
        simp [Queued.mark, Sweep.mark, Sweep.start, hmark.2]
      · rcases mark_step hi hr' with ⟨r, hr, -⟩ | ⟨mail', now', hm', -, hmark⟩
        · have hold : s.box.rows.get s.box.made = some r := hr
          rw [hi.get_made] at hold
          cases hold
        · cases hm'
          rw [hmark, hkey]
          rfl
      · rcases start_next s.box.made key mail.supersedeRank now true with hs | hs
        · simp [hs.1] at hn
        · simp [hs.1] at hn
      · rcases start_next s.box.made key mail.supersedeRank now true with hs | hs
        · simp [hs.1] at hn
        · exact hs.2
    · exact ((h.sweeps v (List.mem_of_getElem? hv)).after h fault).step hi _
    · unfold handedOver at hnew
      split at hnew
      · rename_i held r hheld hr
        obtain ⟨key, hkey, rfl⟩ := List.mem_map.mp hnew
        have hkey' : r.supersedeKey = some key := by simpa using hkey
        have hs := start_next held.id key r.supersedeRank r.createdAt false
        refine ⟨?_, nofun, fun hn => ?_, fun hn => ?_, fun hn => ?_⟩
        · have hknown := h.taken r (List.mem_of_getElem? hr)
          unfold Row.mark at hknown
          rw [hkey'] at hknown
          exact hknown.step _
        · rcases hs with hs | hs <;> simp [hs.1] at hn
        · rcases hs with hs | hs <;> simp [hs.1] at hn
        · rcases hs with hs | hs
          · simp [hs.1] at hn
          · exact hs.2
      · cases hnew

end Scene

instance (w : Sweep) (id : ℕ) (r : Row) : Decidable (w.Cancels id r) := by
  unfold Sweep.Cancels
  split <;> infer_instance

/-- A waiting mail is claimed when no enqueue is still to cancel it; a cancel that fails had nothing
to cancel; a mail that was queued after one of a higher rank finds such a one; a mail is handed over
by the worker that the row's token names. -/
def Timely (s : Scene) : Move → Prop
  | .claim id _ _ _ => ∀ r ∈ s.box.rows.get id, r.status = .pending → ∀ w ∈ s.sweeps,
      w.own = true → ¬(w.next = .lower ∧ w.Cancels id r) ∧
        ¬(w.id = id ∧ w.next ≠ .done ∧ s.higher w.key w.rank = true)
  | .sweep j fault _ => ∀ w ∈ s.sweeps[j]?, w.own = true →
      (w.next = .lower ∨ w.next = .cancelOwn → fault = .refused →
        ∀ e ∈ s.box.rows.rows, e.2.status = .pending → ¬w.Cancels e.1 e.2) ∧
      (w.next = .look → s.higher w.key w.rank = true →
        ((s.box.rows.get w.id).any fun r => r.status = .pending) = true →
        fault = .none ∧ (w.rank.all fun rank => s.box.outranked w.key rank) = true)
  | .process k readable now => Heeds s.box (.process k readable now)
  | _ => True

instance (s : Scene) : (m : Move) → Decidable (Timely s m)
  | .claim _ _ _ _ => inferInstanceAs (Decidable (∀ r ∈ _, _ → ∀ w ∈ _, _ → _))
  | .sweep _ _ _ => inferInstanceAs (Decidable (∀ w ∈ _, _ → (_ ∧ _)))
  | .process k readable now => inferInstanceAs (Decidable (Heeds _ (.process k readable now)))
  | .enqueue _ _ => isTrue trivial
  | .answered _ _ _ => isTrue trivial
  | .write _ _ _ => isTrue trivial
  | .purgeFinished _ => isTrue trivial

namespace Scene

def Pends (s : Scene) (q q' : Queued) : Prop :=
  ∃ w ∈ s.sweeps, w.own = true ∧ w.key = q.key ∧
    ((w.id = q'.id ∧ w.rank = some q'.rank ∧ w.next = .lower) ∨
      (w.id = q.id ∧ w.rank = some q.rank ∧ w.next ≠ .done))

/-- A mail that waits or is being sent though one of a higher rank was queued: it was being sent at
that moment, or it waits for its cancelling. -/
def Settled (s : Scene) : Prop :=
  ∀ q ∈ s.queued, ∀ q' ∈ s.queued, q'.key = q.key → q.rank < q'.rank →
    ∀ r, s.box.rows.get q.id = some r → r.status = .pending ∨ r.status = .sending →
      q.id ∈ q'.sending ∨ (r.status = .pending ∧ s.Pends q q')

variable {s : Scene} {q q' : Queued}

theorem higher_of_mem (hq' : q' ∈ s.queued) (hkey : q'.key = q.key) (hlt : q.rank < q'.rank) :
    s.higher q.key (some q.rank) = true :=
  List.any_eq_true.mpr ⟨q', hq', by simp [hkey, hlt]⟩

theorem mem_sweeps_step (hw : w ∈ s.sweeps) (m : Move) :
    w ∈ (s.step m).sweeps ∨ ∃ j fault now, m = .sweep j fault now ∧ s.sweeps[j]? = some w ∧
      { w with next := w.after fault s.box } ∈ (s.step m).sweeps := by
  cases m with
  | enqueue mail now =>
    simp only [step]
    split
    · exact .inl hw
    · exact .inl (List.mem_append_left _ hw)
  | sweep j fault now =>
    simp only [step]
    cases hv : s.sweeps[j]? with
    | none => exact .inl hw
    | some v =>
      obtain ⟨i, hi⟩ := List.mem_iff_getElem?.mp hw
      by_cases hij : j = i
      · subst hij
        rw [hv] at hi
        cases hi
        refine .inr ⟨j, fault, now, rfl, hv, ?_⟩
        exact List.mem_iff_getElem?.mpr
          ⟨j, List.getElem?_set_self (List.getElem?_eq_some_iff.mp hv).1⟩
      · refine .inl (List.mem_iff_getElem?.mpr ⟨i, ?_⟩)
        rw [List.getElem?_set_ne hij, hi]
  | claim => exact .inl hw
  | process => exact .inl hw
  | answered => exact .inl hw
  | write => exact .inl (List.mem_append_left _ hw)
  | purgeFinished => exact .inl hw

theorem mark_eq (h : r.mark = q.mark) :
    r.supersedeKey = some q.key ∧ r.supersedeRank = some q.rank := by
  simpa [Row.mark, Queued.mark] using h

/-- What was to come for a waiting mail is still to come, or the mail waits no more. -/
theorem Pends.step (hb : s.Booked) (hm : Timely s m) (hq : q ∈ s.queued) (hq' : q' ∈ s.queued)
    (hkey : q'.key = q.key) (hlt : q.rank < q'.rank) (hr : s.box.rows.get q.id = some r)
    (hp : r.status = .pending) (h : s.Pends q q') (hr' : (s.step m).box.rows.get q.id = some r')
    (hs : r'.status = .pending ∨ r'.status = .sending) : (s.step m).Pends q q' := by
  obtain ⟨w, hw, hown, hwkey, hwhich⟩ := h
  rcases mem_sweeps_step hw m with hold | ⟨j, fault, now, rfl, hj, hnew⟩
  · exact ⟨w, hold, hown, hwkey, hwhich⟩
  obtain ⟨hrkey, hrrank⟩ := mark_eq ((hb.queued q hq).2 r hr)
  obtain ⟨hcancel, hlook⟩ := hm w hj hown
  -- a sweep that has to cancel the row does
  have hgone : w.next = .lower ∨ w.next = .cancelOwn → w.Cancels q.id r → False := by
    intro hn hc
    by_cases hfault : fault = .refused
    · exact hcancel hn hfault (q.id, r) (Table.get_eq_some_iff_mem.mp hr) hp hc
    · simp only [Scene.step, hj, if_neg hfault, Sweep.write_cancels hn hr hc] at hr'
      cases hr'
      simp [Outbox.superseded, hp] at hs
  rcases hwhich with ⟨hid, hrank, hnext⟩ | ⟨hid, hrank, hnext⟩
  · refine absurd ?_ (hgone (.inl hnext))
    simp only [Sweep.Cancels, hnext]
    refine ⟨fun he => ?_, by rw [hrkey, hwkey], by simp [hrank, hrrank, hlt]⟩
    have hsame := mark_eq ((hb.queued q' hq').2 r (by rw [← hid, ← he]; exact hr))
    rw [hrrank] at hsame
    have := Option.some.inj hsame.2
    omega
  · refine ⟨_, hnew, hown, hwkey, .inr ⟨hid, hrank, ?_⟩⟩
    have hseen : w.cancelled = .look := by simp [Sweep.cancelled, hown, hrank]
    unfold Sweep.after
    cases hn : w.next with
    | lower =>
      rw [hrank]
      dsimp only
      split
      · nofun
      · rw [hseen]
        nofun
    | unranked =>
      rw [hseen]
      nofun
    | older =>
      rw [hseen]
      nofun
    | look =>
      have hhigher := higher_of_mem hq' hkey hlt
      rw [← hwkey, ← hrank] at hhigher
      obtain ⟨hf, hall⟩ := hlook hn hhigher (by rw [hid, hr]; simpa using hp)
      rw [hrank] at hall ⊢
      simp only [Option.all_some] at hall
      simp [hf, hall]
    | cancelOwn =>
      refine absurd ?_ (hgone (.inr hn))
      simp only [Sweep.Cancels, hn]
      exact hid.symm
    | done => exact absurd hn hnext

theorem Pends.cancels (hb : s.Booked) (hq : q ∈ s.queued) (hq' : q' ∈ s.queued)
    (hkey : q'.key = q.key) (hlt : q.rank < q'.rank) (hr : s.box.rows.get q.id = some r)
    (h : s.Pends q q') : ∃ w ∈ s.sweeps, w.own = true ∧ ((w.next = .lower ∧ w.Cancels q.id r) ∨
      (w.id = q.id ∧ w.next ≠ .done ∧ s.higher w.key w.rank = true)) := by
  obtain ⟨hrkey, hrrank⟩ := mark_eq ((hb.queued q hq).2 r hr)
  obtain ⟨w, hw, hown, hwkey, ⟨hid, hrank, hnext⟩ | ⟨hid, hrank, hnext⟩⟩ := h
  · refine ⟨w, hw, hown, .inl ⟨hnext, ?_⟩⟩
    simp only [Sweep.Cancels, hnext]
    refine ⟨fun he => ?_, by rw [hrkey, hwkey], by simp [hrank, hrrank, hlt]⟩
    have hsame := mark_eq ((hb.queued q' hq').2 r (by rw [← hid, ← he]; exact hr))
    rw [hrrank] at hsame
    have := Option.some.inj hsame.2
    omega
  · refine ⟨w, hw, hown, .inr ⟨hid, hnext, ?_⟩⟩
    rw [hwkey, hrank]
    exact higher_of_mem hq' hkey hlt

theorem Settled.step (h : s.Settled) (hi : s.box.Inv) (hb : s.Booked) (hm : Timely s m) :
    (s.step m).Settled := by
  intro q hq q' hq' hkey hlt r' hr' hs
  obtain ⟨more, hmore, hnew⟩ := queued_step s m
  have hch := row_cases hi m q.id
  rw [hr'] at hch
  generalize hget : s.box.rows.get q.id = o at hch
  rw [hmore] at hq hq'
  rcases List.mem_append.mp hq with hqold | hqnew
  · rcases List.mem_append.mp hq' with hqold' | hqnew'
    · cases hch with
      | same =>
        rcases h q hqold q' hqold' hkey hlt r' hget hs with hin | ⟨hp, hpends⟩
        · exact .inl hin
        · exact .inr ⟨hp, hpends.step hb hm hqold hqold' hkey hlt hget hp hr' hs⟩
      | queued mail now _ _ hid => exact absurd (hb.queued q hqold).1 (by omega)
      | cancelled r _ _ now w _ _ hp => simp [Outbox.superseded, hp] at hs
      | claimed r _ worker leaseSeconds now hclaim hwas _ hsends =>
        rcases h q hqold q' hqold' hkey hlt r hget hwas with hin | ⟨hp, hpends⟩
        · exact .inl hin
        · subst hclaim
          obtain ⟨w, hw, hown, hwhich⟩ := hpends.cancels hb hqold hqold' hkey hlt hget
          have hfree := hm r hget hp w hw hown
          exact absurd hwhich (not_or.mpr hfree)
      | written r _ _ _ _ _ _ _ _ hsends =>
        rcases h q hqold q' hqold' hkey hlt r hget (.inr hsends) with hin | ⟨hp, -⟩
        · exact .inl hin
        · rw [hsends] at hp
          cases hp
    · -- the higher one is queued now
      obtain ⟨mail, now, rfl, hid, hmark, hsending, hmade⟩ := hnew q' hqnew'
      cases hch with
      | same =>
        rcases hs with hp | hsends
        · refine .inr ⟨hp, _, sweep_of_made hmade (Prod.mk.inj hmark).1.symm, rfl, hkey, .inl ?_⟩
          rw [← (Prod.mk.inj hmark).2]
          exact ⟨hid.symm, rfl, rfl⟩
        · refine .inl ?_
          rw [hsending]
          refine List.mem_map.mpr ⟨(q.id, r'), List.mem_filter.mpr ⟨?_, by simpa using hsends⟩, rfl⟩
          exact Table.get_eq_some_iff_mem.mp hget
      | queued _ _ _ _ hid' => exact absurd (hb.queued q hqold).1 (by omega)
      | cancelled _ _ _ _ _ hm' => cases hm'
      | claimed _ _ _ _ _ hm' => cases hm'
      | written _ _ _ _ _ _ hm' => cases hm'
  · obtain ⟨mail, now, rfl, hid, hmark, hsending, hmade⟩ := hnew q hqnew
    have hnone : s.box.rows.get q.id = none := by rw [hid, hi.get_made]
    rw [hnone] at hget
    subst hget
    cases hch with
    | queued _ _ _ _ _ _ hp =>
      refine .inr ⟨hp, _, sweep_of_made hmade (Prod.mk.inj hmark).1.symm, rfl, rfl, .inr ?_⟩
      rw [← (Prod.mk.inj hmark).2]
      exact ⟨hid.symm, rfl, nofun⟩

end Scene

def Move.Ranks (key : String) : Move → Prop
  | .enqueue mail _ => mail.supersedeKey = some key → mail.supersedeRank.isSome = true
  | _ => True

namespace Scene

def Marked (key : String) (mark : Option String × Option Int) : Prop :=
  mark.1 = some key → mark.2.isSome = true

structure AllRanked (key : String) (s : Scene) : Prop where
  rows : ∀ id r, s.box.rows.get id = some r → Marked key r.mark
  taken : ∀ r ∈ s.taken, Marked key r.mark
  sweeps : ∀ w ∈ s.sweeps, Marked key w.mark

theorem AllRanked.step (h : s.AllRanked key) (hi : s.box.Inv) (hm : m.Ranks key)
    : (s.step m).AllRanked key := by
  have hrows : ∀ id r, (s.step m).box.rows.get id = some r → Marked key r.mark := by
    intro id r' hr'
    rcases mark_step hi hr' with ⟨r, hr, hmark⟩ | ⟨mail, now, rfl, -, hmark⟩
    · rw [hmark]
      exact h.rows id r hr
    · rw [hmark]
      exact hm
  refine ⟨hrows, fun r hr => ?_, fun w hw => ?_⟩
  · cases m with
    | claim id worker leaseSeconds now =>
      simp only [Scene.step] at hr
      split at hr
      · exact h.taken r hr
      · rcases List.mem_append.mp hr with hold | hnew
        · exact h.taken r hold
        · exact hrows id r (Option.mem_toList.mp hnew)
    | enqueue mail now =>
      refine h.taken r ?_
      simp only [Scene.step] at hr
      split at hr <;> exact hr
    | sweep j fault now =>
      refine h.taken r ?_
      simp only [Scene.step] at hr
      split at hr <;> exact hr
    | process => exact h.taken r hr
    | answered => exact h.taken r hr
    | write => exact h.taken r hr
    | purgeFinished => exact h.taken r hr
  · rcases sweeps_step hw with hold | ⟨mail, now, key', rfl, -, hkey, rfl⟩ |
      ⟨j, fault, now, v, rfl, hv, rfl⟩ | ⟨k, fault, now, rfl, hnew⟩
    · exact h.sweeps w hold
    · intro hmark
      exact hm (by rw [hkey]; exact hmark)
    · exact h.sweeps v (List.mem_of_getElem? hv)
    · unfold handedOver at hnew
      split at hnew
      · rename_i held r hheld hr
        obtain ⟨key', hkey, rfl⟩ := List.mem_map.mp hnew
        have hkey' : r.supersedeKey = some key' := by simpa using hkey
        intro hmark
        exact h.taken r (List.mem_of_getElem? hr) (by rw [← hmark]; exact hkey')
      · cases hnew

def Highest (s : Scene) (key : String) (q : Queued) : Prop :=
  q ∈ s.queued ∧ q.key = key ∧ ∀ q' ∈ s.queued, q'.key = key → q'.rank ≤ q.rank

def HighestKept (key : String) (s : Scene) : Prop :=
  ∀ q, s.Highest key q → ∀ r, s.box.rows.get q.id = some r → r.status ≠ .cancelled

/-- What a sweep cancels is outranked. -/
theorem outranked_of_cancels (hb : s.Booked) (ha : s.AllRanked key) (hw : w ∈ s.sweeps)
    (hq : s.Highest key q) (hr : s.box.rows.get q.id = some r) (hc : w.Cancels q.id r) : False := by
  obtain ⟨hmem, hkey, hmax⟩ := hq
  have hmark := (hb.queued q hmem).2 r hr
  obtain ⟨hrkey, hrrank⟩ := mark_eq hmark
  have htraced := hb.sweeps w hw
  unfold Sweep.Cancels at hc
  cases hn : w.next with
  | lower =>
    simp only [hn] at hc
    obtain ⟨-, hwkey, hany⟩ := hc
    obtain ⟨rank, hrank, hlow⟩ := (Option.any_eq_true _ _).mp hany
    simp only [hrrank, Option.any_some, decide_eq_true_eq] at hlow
    obtain ⟨q', hq', hqm⟩ := htraced.known w.key rank
      (by rw [Sweep.mark, show w.rank = _ from hrank])
    simp only [Queued.mark, Sweep.mark, show w.rank = some rank from hrank, Prod.mk.injEq,
      Option.some.injEq] at hqm
    have hle := hmax q' hq' (by rw [hqm.1, ← hkey]; exact Option.some.inj (hwkey.symm.trans hrkey))
    omega
  | unranked =>
    simp only [hn] at hc
    rw [hrrank] at hc
    cases hc.2
  | older =>
    simp only [hn] at hc
    have hwkey : w.mark.1 = some key := by
      rw [← hkey, ← hrkey, hc]
      rfl
    have hsome := ha.sweeps w hw hwkey
    rw [Sweep.mark, htraced.older hn] at hsome
    cases hsome
  | cancelOwn =>
    simp only [hn] at hc
    have hwmark := (htraced.own (htraced.looks (.inr hn))).2 r (hc ▸ hr)
    have hhigher := htraced.outranked hn
    rw [hmark] at hwmark
    simp only [Queued.mark, Sweep.mark, Prod.mk.injEq, Option.some.injEq] at hwmark
    rw [← hwmark.1, ← hwmark.2] at hhigher
    obtain ⟨q', hq', hlt⟩ := List.any_eq_true.mp hhigher
    simp only [Option.any_some, decide_eq_true_eq] at hlt
    have hle := hmax q' hq' (hlt.1.trans hkey)
    omega
  | look => simp [hn] at hc
  | done => simp [hn] at hc

theorem HighestKept.step (h : s.HighestKept key) (hi : s.box.Inv) (hh : s.Honest) (hb : s.Booked)
    (ha : s.AllRanked key) (m : Move) : (s.step m).HighestKept key := by
  intro q ⟨hq, hkey, hmax⟩ r' hr'
  have hch := row_cases hi m q.id
  rw [hr'] at hch
  generalize hget : s.box.rows.get q.id = o at hch
  have hold : q.id < s.box.made → s.Highest key q := by
    intro hlt
    obtain ⟨more, hmore, hnew⟩ := queued_step s m
    rw [hmore] at hq
    rcases List.mem_append.mp hq with hmem | hmem
    · exact ⟨hmem, hkey, fun q' hq' => hmax q' (mem_queued_step hq' m)⟩
    · obtain ⟨_, _, _, hid, _⟩ := hnew q hmem
      omega
  cases hch with
  | same => exact h q (hold (hi.made _ _ hget)) r' hget
  | queued _ _ _ _ _ _ hp =>
    rw [hp]
    nofun
  | cancelled r j _ now w _ hw hp hc =>
    have hhighest := hold (hi.made _ _ hget)
    exact (outranked_of_cancels hb ha (List.mem_of_getElem? hw) hhighest hget hc).elim
  | claimed _ _ _ _ _ _ _ _ hsends =>
    rw [hsends]
    nofun
  | written r k fault w o now _ hheld ho =>
    rw [Outbox.status_apply]
    exact hh w hheld now o ho

def HandsOver (s : Scene) (m : Move) (id : ℕ) : Prop :=
  ∃ (k : ℕ) (readable : Bool) (now : Int) (h : Held), m = .process k readable now ∧
    s.box.held[k]? = some h ∧ h.id = id ∧ h.stage = .claimed ∧
    Outbox.process h readable now = .handed

end Scene

def scene (ms : List Move) : Scene := run Scene.step {} ms

/-- A mail is handed over after one of a higher rank was queued only if it was being sent at that
moment. -/
def LowerStays (ms : List Move) : Prop :=
  ∀ bs m cs id, ms = bs ++ m :: cs → (scene bs).HandsOver m id →
    ∀ q ∈ (scene bs).queued, q.id = id → ∀ q' ∈ (scene bs).queued, q'.key = q.key →
      q.rank < q'.rank → id ∈ q'.sending

def HighestStays (ms : List Move) : Prop :=
  ∀ key bs cs, ms = bs ++ cs → (∀ m ∈ ms, m.Ranks key) → (scene bs).HighestKept key

theorem inv_scene (ms : List Move) : (scene ms).box.Inv ∧ (scene ms).Booked := by
  refine run_invariant (I := fun s : Scene => s.box.Inv ∧ s.Booked)
    (fun s m h => ⟨Scene.inv_step h.1 m, h.2.step h.1 m⟩) ⟨inv_reached [], ?_⟩ ms
  exact ⟨fun q hq => (List.not_mem_nil hq).elim, fun id r hr => by simp at hr,
    fun r hr => (List.not_mem_nil hr).elim, fun w hw => (List.not_mem_nil hw).elim⟩

theorem settled_scene {ms : List Move} (h : Meets Scene.step Timely {} ms) :
    (scene ms).Settled := by
  refine (run_keeps (I := fun s : Scene => (s.box.Inv ∧ s.Booked) ∧ s.Settled) (C := Timely)
    (fun s m h hm => ⟨⟨Scene.inv_step h.1.1 m, h.1.2.step h.1.1 m⟩, h.2.step h.1.1 h.1.2 hm⟩)
    ?_ h).2
  exact ⟨inv_scene [], fun q hq => (List.not_mem_nil hq).elim⟩

theorem highest_stays (ms : List Move) : HighestStays ms := by
  rintro key bs cs rfl hranks
  have hmeets : Meets Scene.step (fun _ m => m.Ranks key) {} bs :=
    Lib.meets_of_forall (fun m hm => hranks m (List.mem_append_left _ hm)) _
  refine (run_keeps (I := fun s : Scene => (s.box.Inv ∧ s.Booked) ∧ (s.Honest ∧ s.AllRanked key) ∧
    s.HighestKept key) (C := fun _ m => m.Ranks key) (fun s m h hm => ?_) ?_ hmeets).2.2
  · obtain ⟨⟨hi, hb⟩, ⟨hh, ha⟩, hk⟩ := h
    exact ⟨⟨Scene.inv_step hi m, hb.step hi m⟩, ⟨hh.step m, ha.step hi hm⟩, hk.step hi hh hb ha m⟩
  · exact ⟨inv_scene [], ⟨fun w hw => (List.not_mem_nil hw).elim, fun id r hr => by simp at hr,
      fun r hr => (List.not_mem_nil hr).elim, fun w hw => (List.not_mem_nil hw).elim⟩,
      fun q hq => (List.not_mem_nil hq.1).elim⟩

theorem superseded_mails (ms : List Move) (h : Meets Scene.step Timely {} ms) :
    LowerStays ms ∧ HighestStays ms := by
  refine ⟨?_, highest_stays ms⟩
  rintro bs m cs id rfl ⟨k, readable, now, w, rfl, hk, rfl, hstage, hhanded⟩
  intro q hq hid q' hq' hkey hlt
  have hsettled := settled_scene (Meets.append_left h)
  have hheeds : Heeds (scene bs).box (.process k readable now) := (Meets.append_right h).1
  have hgoes : now < w.giveUpAt ∧ readable = true := by
    unfold Outbox.process at hhanded
    split at hhanded
    · cases hhanded
    · rename_i hlate
      split at hhanded
      · cases hhanded
      · rename_i hreadable
        exact ⟨Int.not_le.mp hlate, by simpa using hreadable⟩
  obtain ⟨r, hr, ht⟩ := (Option.any_eq_true _ _).mp (hheeds w hk hstage hgoes.1 hgoes.2)
  have hsends : r.status = .sending := by
    by_contra hno
    simp [((inv_scene bs).1.rows _ _ hr).free hno] at ht
  rcases hsettled q hq q' hq' hkey hlt r (by rw [hid]; exact hr) (.inr hsends) with hin | ⟨hp, -⟩
  · rw [← hid]
    exact hin
  · rw [hsends] at hp
    cases hp

def summary (count : Int) : NewMail :=
  { payload := "sealed", supersedeKey := some "summary", supersedeRank := some count,
    startedAt := 0, nextAttemptAt := 0 }

theorem superseded_mails_summaries :
    let ms : List Move := [.enqueue (summary 1) 0, .sweep 0 .none 1, .enqueue (summary 2) 2,
      .sweep 1 .none 3, .sweep 1 .none 4, .sweep 0 .none 5, .sweep 0 .none 6, .sweep 1 .none 7,
      .claim 1 "worker-a" none 8, .process 0 true 9]
    LowerStays ms ∧ HighestStays ms :=
  superseded_mails _ (by decide +kernel)

def crossed : List Move :=
  [.enqueue (summary 2) 0, .sweep 0 .none 1, .sweep 0 .none 2, .sweep 0 .none 3,
    .claim 0 "worker-a" none 4, .enqueue (summary 1) 5, .claim 1 "worker-b" none 6]

theorem lower_handed_over : ¬LowerStays (crossed ++ [.process 1 true 7]) := by
  intro h
  have hqueued : (scene crossed).queued =
      [⟨0, "summary", 2, []⟩, ⟨1, "summary", 1, [0]⟩] := by decide +kernel
  have hheld : ((scene crossed).box.held[1]?).any fun w =>
      w.id = 1 ∧ w.stage = .claimed ∧ Outbox.process w true 7 = .handed := by decide +kernel
  obtain ⟨w, hw, hfacts⟩ := (Option.any_eq_true _ _).mp hheld
  obtain ⟨hid, hstage, hhanded⟩ := of_decide_eq_true hfacts
  have hin := h crossed (.process 1 true 7) [] 1 rfl
    ⟨1, true, 7, w, rfl, hw, hid, hstage, hhanded⟩ ⟨1, "summary", 1, [0]⟩
    (by rw [hqueued]; decide) rfl ⟨0, "summary", 2, []⟩ (by rw [hqueued]; decide) rfl (by decide)
  cases hin

end Kindred.Email
