import Mathlib.Logic.Relation

namespace Kindred.Lib

/-- A stored procedure over a database state: it answers and writes, or raises
and leaves nothing of what it wrote. A `try` block is a savepoint: its handler
starts from the state the block started from. -/
abbrev Tx (σ ε : Type) := StateT σ (Except ε)

namespace Tx
variable {σ ε α β : Type} {P : σ → Prop} {m : Tx σ ε α} {f : α → Tx σ ε β} {r : α × σ} {e : ε}
  {n : Tx σ ε α} {t : σ} {c : Prop}

def commit (m : Tx σ ε α) (s : σ) : σ :=
  match m s with
  | .ok (_, s') => s'
  | .error _ => s

/-- Raise `e` unless `c` holds. -/
def require (c : Prop) [Decidable c] (e : ε) : Tx σ ε Unit :=
  if c then pure () else throw e

/-- A call that starts in `P` and does not raise ends in `Q`. -/
def Triple (P : σ → Prop) (m : Tx σ ε α) (Q : α → σ → Prop) : Prop :=
  ∀ s a s', P s → m s = .ok (a, s') → Q a s'

theorem commit_of_triple (h : Triple P m fun _ => P) {s : σ} (hs : P s) : P (commit m s) := by
  unfold commit
  cases hm : m s with
  | error e => exact hs
  | ok r => exact h s r.1 r.2 hs hm

theorem bind_ok {s : σ} {r : β × σ} :
    (m >>= f) s = .ok r ↔ ∃ a t, m s = .ok (a, t) ∧ f a t = .ok r := by
  show (m s >>= fun p => f p.1 p.2) = .ok r ↔ _
  cases hm : m s with
  | error e =>
    constructor
    · intro h; cases h
    · rintro ⟨_, _, h, _⟩; cases h
  | ok p =>
    obtain ⟨a, t⟩ := p
    constructor
    · exact fun h => ⟨a, t, rfl, h⟩
    · rintro ⟨a', t', h, h'⟩
      cases h
      exact h'

theorem pure_ok {a : α} {s : σ} : (pure a : Tx σ ε α) s = .ok r ↔ r = (a, s) :=
  ⟨fun h => by cases h; rfl, fun h => by rw [h]; rfl⟩

theorem throw_ok {s : σ} : (throw e : Tx σ ε α) s = .ok r ↔ False := by
  constructor
  · intro h; cases h
  · exact False.elim

theorem set_ok {s : σ} {r : PUnit × σ} : (set t : Tx σ ε PUnit) s = .ok r ↔ r = (⟨⟩, t) :=
  ⟨fun h => by cases h; rfl, fun h => by rw [h]; rfl⟩

theorem modify_ok {f : σ → σ} {s : σ} {r : PUnit × σ} :
    (modify f : Tx σ ε PUnit) s = .ok r ↔ r = (⟨⟩, f s) :=
  ⟨fun h => by cases h; rfl, fun h => by rw [h]; rfl⟩

theorem require_ok [Decidable c] {s : σ} {r : Unit × σ} :
    (require c e : Tx σ ε Unit) s = .ok r ↔ c ∧ r = ((), s) := by
  unfold require
  by_cases h : c
  · rw [if_pos h]
    exact pure_ok.trans ⟨fun hr => ⟨h, hr⟩, And.right⟩
  · rw [if_neg h]
    exact throw_ok.trans ⟨False.elim, fun hr => h hr.1⟩

theorem ite_ok [Decidable c] {s : σ} :
    (if c then m else n) s = .ok r ↔ c ∧ m s = .ok r ∨ ¬c ∧ n s = .ok r := by
  by_cases h : c <;> simp [h]

theorem get_bind (f : σ → Tx σ ε α) (s : σ) : ((get : Tx σ ε σ) >>= f) s = f s s := rfl

theorem set_bind (t : σ) (f : PUnit → Tx σ ε α) (s : σ) :
    ((set t : Tx σ ε PUnit) >>= f) s = f ⟨⟩ t := rfl

theorem modify_bind (g : σ → σ) (f : PUnit → Tx σ ε α) (s : σ) :
    ((modify g : Tx σ ε PUnit) >>= f) s = f ⟨⟩ (g s) := rfl

theorem require_bind_ok [Decidable c] {f : Unit → Tx σ ε α} {s : σ} :
    (require c e >>= f) s = .ok r ↔ c ∧ f () s = .ok r := by
  rw [bind_ok]
  constructor
  · rintro ⟨_, _, h, hf⟩
    obtain ⟨hc, hr⟩ := require_ok.mp h
    cases hr
    exact ⟨hc, hf⟩
  · exact fun h => ⟨(), s, require_ok.mpr ⟨h.1, rfl⟩, h.2⟩

theorem discard_ok {s : σ} {r : Unit × σ} (h : (discard m : Tx σ ε Unit) s = .ok r) :
    ∃ a, m s = .ok (a, r.2) := by
  obtain ⟨a, t, hm, h⟩ := bind_ok.mp (show (m >>= fun _ => pure ()) s = .ok r from h)
  cases pure_ok.mp h
  exact ⟨a, hm⟩

/-- A savepoint ends as its block does, or as its handler from the state the
block started in. -/
theorem tryCatch_ok {h : ε → Tx σ ε α} {s : σ} :
    (tryCatch m h : Tx σ ε α) s = .ok r ↔ m s = .ok r ∨ ∃ e, m s = .error e ∧ h e s = .ok r := by
  have hd : (tryCatch m h : Tx σ ε α) s =
      match m s with
      | .ok r => .ok r
      | .error e => h e s := by
    change Except.tryCatch (m s) (fun e => h e s) = _
    cases m s <;> rfl
  rw [hd]
  cases hm : m s with
  | error e =>
    constructor
    · exact fun hr => .inr ⟨e, rfl, hr⟩
    · rintro (hr | ⟨e', he, hr⟩)
      · cases hr
      · cases he
        exact hr
  | ok p =>
    constructor
    · exact fun hr => .inl hr
    · rintro (hr | ⟨e', he, _⟩)
      · exact hr
      · cases he

def Succeeds (m : Tx σ ε α) (s : σ) : Prop := ∃ r, m s = .ok r

namespace Succeeds
variable {s : σ}

theorem pure (a : α) (s : σ) : Succeeds (Pure.pure a : Tx σ ε α) s := ⟨_, rfl⟩

theorem get_bind {f : σ → Tx σ ε α} (hf : Succeeds (f s) s) : Succeeds (get >>= f) s := hf

theorem set_bind {f : PUnit → Tx σ ε α} (hf : Succeeds (f ⟨⟩) t) :
    Succeeds ((set t : Tx σ ε PUnit) >>= f) s := hf

theorem modify_bind {g : σ → σ} {f : PUnit → Tx σ ε α} (hf : Succeeds (f ⟨⟩) (g s)) :
    Succeeds ((modify g : Tx σ ε PUnit) >>= f) s := hf

theorem modify (f : σ → σ) (s : σ) : Succeeds (modify f : Tx σ ε PUnit) s := ⟨_, rfl⟩

theorem bind (hm : Succeeds m s) (hf : ∀ r, m s = .ok r → Succeeds (f r.1) r.2) :
    Succeeds (m >>= f) s := by
  obtain ⟨r, hr⟩ := hm
  obtain ⟨r', hr'⟩ := hf r hr
  exact ⟨r', bind_ok.mpr ⟨r.1, r.2, hr, hr'⟩⟩

theorem discard (hm : Succeeds m s) : Succeeds (discard m : Tx σ ε Unit) s :=
  show Succeeds (m >>= fun _ => Pure.pure ()) s from hm.bind fun _ _ => pure _ _

theorem require_bind [Decidable c] {f : Unit → Tx σ ε α} (hc : c) (hf : Succeeds (f ()) s) :
    Succeeds (require c e >>= f) s := by
  obtain ⟨r, hr⟩ := hf
  exact ⟨r, require_bind_ok.mpr ⟨hc, hr⟩⟩

theorem ite [Decidable c] (hm : c → Succeeds m s) (hn : ¬c → Succeeds n s) :
    Succeeds (if c then m else n) s := by
  by_cases h : c
  · rw [if_pos h]; exact hm h
  · rw [if_neg h]; exact hn h

/-- A block whose handler never raises does not raise. -/
theorem tryCatch {k : ε → Tx σ ε α} (hk : ∀ e, Succeeds (k e) s) :
    Succeeds (MonadExcept.tryCatch m k) s := by
  cases hm : m s with
  | ok r => exact ⟨r, tryCatch_ok.mpr (.inl hm)⟩
  | error e =>
    obtain ⟨r, hr⟩ := hk e
    exact ⟨r, tryCatch_ok.mpr (.inr ⟨e, hm, hr⟩)⟩

end Succeeds

theorem commit_of_succeeds {s : σ} (h : Succeeds m s) : ∃ a, m s = .ok (a, commit m s) := by
  obtain ⟨⟨a, t⟩, hr⟩ := h
  exact ⟨a, by rw [hr]; simp [commit, hr]⟩

/-- A call that does not raise is made of steps of `S`. -/
def MadeOf (S : σ → σ → Prop) (m : Tx σ ε α) (s : σ) : Prop :=
  ∀ r, m s = .ok r → Relation.ReflTransGen S s r.2

namespace MadeOf
variable {S : σ → σ → Prop} {s : σ}

theorem pure (a : α) : MadeOf S (Pure.pure a : Tx σ ε α) s := by
  intro r h
  cases pure_ok.mp h
  exact .refl

theorem throw (e : ε) : MadeOf S (MonadExcept.throw e : Tx σ ε α) s :=
  fun _ h => (throw_ok.mp h).elim

theorem bind (hm : MadeOf S m s) (hf : ∀ r, m s = .ok r → MadeOf S (f r.1) r.2) :
    MadeOf S (m >>= f) s := by
  intro r h
  obtain ⟨a, t, ha, h⟩ := bind_ok.mp h
  exact (hm _ ha).trans (hf _ ha r h)

theorem get_bind {f : σ → Tx σ ε α} (hf : MadeOf S (f s) s) : MadeOf S (get >>= f) s := hf

theorem set (ht : Relation.ReflTransGen S s t) : MadeOf S (MonadState.set t : Tx σ ε PUnit) s := by
  intro r h
  cases set_ok.mp h
  exact ht

theorem set_bind {f : PUnit → Tx σ ε α} (ht : Relation.ReflTransGen S s t)
    (hf : MadeOf S (f ⟨⟩) t) : MadeOf S ((MonadState.set t : Tx σ ε PUnit) >>= f) s :=
  (set ht).bind fun _ h => by
    cases set_ok.mp h
    exact hf

theorem modify {g : σ → σ} (hg : Relation.ReflTransGen S s (g s)) :
    MadeOf S (modify g : Tx σ ε PUnit) s := by
  intro r h
  cases modify_ok.mp h
  exact hg

theorem mono {S' : σ → σ → Prop} (h : MadeOf S m s) (hS : ∀ s t, S s t → S' s t) : MadeOf S' m s :=
  fun r hr => Relation.ReflTransGen.mono hS _ _ (h r hr)

theorem require [Decidable c] : MadeOf S (Tx.require c e : Tx σ ε Unit) s := by
  intro r h
  obtain ⟨-, h⟩ := require_ok.mp h
  rw [h]

theorem require_bind [Decidable c] {f : Unit → Tx σ ε α} (hf : c → MadeOf S (f ()) s) :
    MadeOf S (Tx.require c e >>= f) s := by
  intro r h
  obtain ⟨hc, h⟩ := require_bind_ok.mp h
  exact hf hc r h

theorem ite [Decidable c] (hm : c → MadeOf S m s) (hn : ¬c → MadeOf S n s) :
    MadeOf S (if c then m else n) s := by
  by_cases h : c
  · rw [if_pos h]; exact hm h
  · rw [if_neg h]; exact hn h

/-- What the block wrote before it raised is no step. -/
theorem tryCatch {k : ε → Tx σ ε α} (hm : MadeOf S m s) (hk : ∀ e, MadeOf S (k e) s) :
    MadeOf S (MonadExcept.tryCatch m k) s := by
  intro r h
  rcases tryCatch_ok.mp h with h | ⟨e, -, h⟩
  · exact hm r h
  · exact hk e r h

theorem discard (hm : MadeOf S m s) : MadeOf S (discard m : Tx σ ε Unit) s :=
  show MadeOf S (m >>= fun _ => Pure.pure ()) s from hm.bind fun _ _ => pure _

theorem forM {f : β → Tx σ ε PUnit} {l : List β} (h : ∀ b ∈ l, ∀ s, MadeOf S (f b) s) (s : σ) :
    MadeOf S (l.forM f) s := by
  induction l generalizing s with
  | nil => exact pure _
  | cons b l ih =>
    exact (h b List.mem_cons_self s).bind fun r _ =>
      ih (fun c hc => h c (List.mem_cons_of_mem b hc)) r.2

/-- What every step keeps, the call keeps, and so does one that raises. -/
theorem keeps {I : σ → Prop} (h : MadeOf S m s) (hI : ∀ s t, S s t → I s → I t) (hs : I s) :
    I (commit m s) := by
  unfold commit
  cases hm : m s with
  | error e => exact hs
  | ok r =>
    obtain ⟨a, t⟩ := r
    have hrun : Relation.ReflTransGen S s t := h _ hm
    clear hm
    induction hrun with
    | refl => exact hs
    | tail _ hstep ih => exact hI _ _ hstep ih

end MadeOf

namespace Triple

theorem pure {a : α} {Q : α → σ → Prop} (h : ∀ s, P s → Q a s) :
    Triple P (Pure.pure a : Tx σ ε α) Q := by
  intro s b s' hs hm
  cases pure_ok.mp hm
  exact h s hs

theorem bind {Q : α → σ → Prop} {R : β → σ → Prop} (hm : Triple P m Q)
    (hf : ∀ a, Triple (Q a) (f a) R) : Triple P (m >>= f) R := by
  intro s b s' hs h
  obtain ⟨a, t, ha, hb⟩ := bind_ok.mp h
  exact hf a t b s' (hm s a t hs ha) hb

theorem throw {Q : α → σ → Prop} : Triple P (MonadExcept.throw e : Tx σ ε α) Q :=
  fun _ _ _ _ h => (throw_ok.mp h).elim

theorem modify {f : σ → σ} {Q : PUnit → σ → Prop} (h : ∀ s, P s → Q ⟨⟩ (f s)) :
    Triple P (modify f : Tx σ ε PUnit) Q := by
  intro s a s' hs hm
  cases modify_ok.mp hm
  exact h s hs

theorem ite [Decidable c] {Q : α → σ → Prop} (hm : c → Triple P m Q) (hn : ¬c → Triple P n Q) :
    Triple P (if c then m else n) Q := by
  by_cases h : c
  · rw [if_pos h]; exact hm h
  · rw [if_neg h]; exact hn h

theorem require [Decidable c] {Q : Unit → σ → Prop} (h : ∀ s, c → P s → Q () s) :
    Triple P (Tx.require c e : Tx σ ε Unit) Q := by
  intro s a s' hs hm
  obtain ⟨hc, hr⟩ := require_ok.mp hm
  cases hr
  exact h s hc hs

/-- A loop keeps what each of its rounds keeps. -/
theorem forM {f : β → Tx σ ε PUnit} {l : List β} (h : ∀ b ∈ l, Triple P (f b) fun _ => P) :
    Triple P (l.forM f) fun _ => P := by
  induction l with
  | nil => exact Triple.pure fun _ hs => hs
  | cons b l ih =>
    exact Triple.bind (h b List.mem_cons_self) fun _ =>
      ih fun c hc => h c (List.mem_cons_of_mem b hc)

end Triple

/-- The call ends in `Q`, or raises an error in `E`. -/
def Runs (E : ε → Prop) (m : Tx σ ε α) (s : σ) (Q : α → σ → Prop) : Prop :=
  match m s with
  | .ok r => Q r.1 r.2
  | .error e => E e

namespace Runs
variable {E : ε → Prop} {s : σ} {Q : α → σ → Prop}

theorem mono {R : α → σ → Prop} (h : Runs E m s Q) (hQ : ∀ a t, Q a t → R a t) : Runs E m s R := by
  unfold Runs at h ⊢
  cases hm : m s with
  | ok r => rw [hm] at h; exact hQ _ _ h
  | error e => rw [hm] at h; exact h

theorem pure {a : α} (h : Q a s) : Runs E (Pure.pure a : Tx σ ε α) s Q := h

theorem throw (h : E e) : Runs E (MonadExcept.throw e : Tx σ ε α) s Q := h

theorem get {Q : σ → σ → Prop} (h : Q s s) : Runs E (MonadState.get : Tx σ ε σ) s Q := h

theorem set {Q : PUnit → σ → Prop} (h : Q ⟨⟩ t) : Runs E (MonadState.set t : Tx σ ε PUnit) s Q := h

theorem modify {g : σ → σ} {Q : PUnit → σ → Prop} (h : Q ⟨⟩ (g s)) :
    Runs E (modify g : Tx σ ε PUnit) s Q := h

theorem bind {R : β → σ → Prop} (h : Runs E m s fun a t => Runs E (f a) t R) :
    Runs E (m >>= f) s R := by
  unfold Runs at h ⊢
  cases hm : m s with
  | ok r =>
    rw [hm] at h
    rw [show (m >>= f) s = f r.1 r.2 from by
      show (m s >>= fun p => f p.1 p.2) = _
      rw [hm]
      rfl]
    exact h
  | error e =>
    rw [hm] at h
    rw [show (m >>= f) s = .error e from by
      show (m s >>= fun p => f p.1 p.2) = _
      rw [hm]
      rfl]
    exact h

theorem succeeds (h : Runs (fun _ => False) m s Q) : Succeeds m s := by
  unfold Runs at h
  cases hm : m s with
  | ok r => exact ⟨r, hm⟩
  | error e =>
    rw [hm] at h
    exact h.elim

theorem ite [Decidable c] (hm : c → Runs E m s Q) (hn : ¬c → Runs E n s Q) :
    Runs E (if c then m else n) s Q := by
  by_cases h : c
  · rw [if_pos h]; exact hm h
  · rw [if_neg h]; exact hn h

end Runs

end Tx

section Runs
variable {σ κ : Type} (step : σ → κ → σ) {C : σ → κ → Prop} {cs : List κ} {I : σ → Prop}
  {ds : List κ}

def run (s : σ) (cs : List κ) : σ := cs.foldl step s

@[simp] theorem run_nil (s : σ) : run step s [] = s := rfl

@[simp] theorem run_cons (s : σ) (c : κ) (cs : List κ) :
    run step s (c :: cs) = run step (step s c) cs := rfl

theorem run_append (s : σ) (cs ds : List κ) :
    run step s (cs ++ ds) = run step (run step s cs) ds := by
  simp [run]

/-- Every command of the run meets `C` in the state it starts from. -/
def Meets (C : σ → κ → Prop) : σ → List κ → Prop
  | _, [] => True
  | s, c :: cs => C s c ∧ Meets C (step s c) cs

instance decidableMeets {C : σ → κ → Prop} [h : ∀ s c, Decidable (C s c)] :
    (s : σ) → (cs : List κ) → Decidable (Meets step C s cs)
  | _, [] => isTrue trivial
  | s, c :: cs => @instDecidableAnd _ _ (h s c) (decidableMeets (step s c) cs)

/-- What the commands of a run weigh together, each in the state it starts from. -/
def tally (w : σ → κ → Nat) : σ → List κ → Nat
  | _, [] => 0
  | s, c :: cs => w s c + tally w (step s c) cs

def replies {β : Type} (ask : σ → κ → Option β) : σ → List κ → List β
  | _, [] => []
  | s, c :: cs => (ask s c).toList ++ replies ask (step s c) cs

variable {step}

/-- What holds of a state and of all that was answered until then. -/
theorem replies_keeps {β : Type} {ask : σ → κ → Option β} {I : σ → List β → Prop}
    (hstep : ∀ s l c, I s l → I (step s c) (l ++ (ask s c).toList)) {s : σ} {l : List β} (hs : I s l)
    (cs : List κ) : I (run step s cs) (l ++ replies step ask s cs) := by
  induction cs generalizing s l with
  | nil => simpa [replies] using hs
  | cons c cs ih =>
    have hrest := ih (hstep s l c hs)
    rwa [List.append_assoc] at hrest

/-- The commands weigh no more than the budget that each of them draws on. -/
theorem tally_le_budget {w : σ → κ → Nat} {budget : σ → Nat} (hI : ∀ s c, I s → I (step s c))
    (hdraw : ∀ s c, I s → w s c + budget (step s c) ≤ budget s) {s : σ} (hs : I s) (cs : List κ) :
    tally step w s cs ≤ budget s := by
  induction cs generalizing s with
  | nil => exact Nat.zero_le _
  | cons c cs ih =>
    have hrest := ih (hI s c hs)
    have hfirst := hdraw s c hs
    simp only [tally]
    omega

theorem Meets.append_left {s : σ} (h : Meets step C s (cs ++ ds)) : Meets step C s cs := by
  induction cs generalizing s with
  | nil => trivial
  | cons c cs ih => exact ⟨h.1, ih h.2⟩

theorem Meets.append_right {s : σ} (h : Meets step C s (cs ++ ds)) :
    Meets step C (run step s cs) ds := by
  induction cs generalizing s with
  | nil => exact h
  | cons c cs ih => exact ih h.2

theorem Meets.append {s : σ} (hc : Meets step C s cs) (hd : Meets step C (run step s cs) ds) :
    Meets step C s (cs ++ ds) := by
  induction cs generalizing s with
  | nil => exact hd
  | cons c cs ih => exact ⟨hc.1, ih hc.2 hd⟩

theorem meets_of_forall {C : κ → Prop} (h : ∀ c ∈ cs, C c) (s : σ) :
    Meets step (fun _ c => C c) s cs := by
  induction cs generalizing s with
  | nil => trivial
  | cons c cs ih =>
    exact ⟨h c List.mem_cons_self, ih (fun d hd => h d (List.mem_cons_of_mem c hd)) _⟩

theorem Meets.and {D : σ → κ → Prop} {s : σ} (hC : Meets step C s cs) (hD : Meets step D s cs) :
    Meets step (fun s c => C s c ∧ D s c) s cs := by
  induction cs generalizing s with
  | nil => trivial
  | cons c cs ih => exact ⟨⟨hC.1, hD.1⟩, ih hC.2 hD.2⟩

/-- What each command that meets `C` keeps holds after a run that meets `C`. -/
theorem run_keeps (hstep : ∀ s c, I s → C s c → I (step s c)) {s : σ} (hs : I s)
    (hC : Meets step C s cs) : I (run step s cs) := by
  induction cs generalizing s with
  | nil => exact hs
  | cons c cs ih => exact ih (hstep s c hs hC.1) hC.2

/-- What every command keeps holds after every run. -/
theorem run_invariant (hstep : ∀ s c, I s → I (step s c)) {s : σ} (hs : I s) (cs : List κ) :
    I (run step s cs) := by
  induction cs generalizing s with
  | nil => exact hs
  | cons c cs ih => exact ih (hstep s c hs)

end Runs

end Kindred.Lib
