import Mathlib.Init

/-!
Programs that put one question after the other to a world that others change
meanwhile, and what holds of them whatever they are answered.
-/

namespace Kindred.Lib

inductive Dialogue (Q : Type) (A : Q → Type) (α : Type) where
  | done (a : α)
  | ask (q : Q) (k : A q → Dialogue Q A α)

variable {Q' : Type}

namespace Dialogue
variable {Q : Type} {A : Q → Type} {α β ε σ : Type}

def bind (f : α → Dialogue Q A β) : Dialogue Q A α → Dialogue Q A β
  | .done a => f a
  | .ask q k => .ask q fun a => (k a).bind f

instance : Monad (Dialogue Q A) where
  pure := .done
  bind d f := d.bind f

def query (q : Q) : Dialogue Q A (A q) := .ask q .done

/-- The program with every question put as `h` puts it. -/
def handle {Q' : Type} {A' : Q' → Type} (h : (q : Q) → Dialogue Q' A' (A q)) :
    Dialogue Q A α → Dialogue Q' A' α
  | .done a => .done a
  | .ask q k => (h q).bind fun a => (k a).handle h

@[simp] theorem pure_eq (a : α) : (pure a : Dialogue Q A α) = .done a := rfl

@[simp] theorem done_bind (a : α) (f : α → Dialogue Q A β) : (.done a : Dialogue Q A α) >>= f = f a :=
  rfl

@[simp] theorem ask_bind (q : Q) (k : A q → Dialogue Q A α) (f : α → Dialogue Q A β) :
    .ask q k >>= f = .ask q fun a => k a >>= f := rfl

@[simp] theorem query_bind (q : Q) (f : A q → Dialogue Q A β) : query q >>= f = .ask q f := rfl

structure Setting (Q : Type) (A : Q → Type) (σ : Type) where
  may : σ → Q → Prop
  fair : σ → (q : Q) → A q → Prop
  after : σ → (q : Q) → A q → σ

def Obeys (S : Setting Q A σ) (post : σ → α → Prop) : σ → Dialogue Q A α → Prop
  | s, .done a => post s a
  | s, .ask q k => S.may s q ∧ ∀ a, S.fair s q a → (k a).Obeys S post (S.after s q a)

variable {S : Setting Q A σ} {post : σ → α → Prop} {s : σ} {post' : σ → β → Prop}
  {d : Dialogue Q A α} {f : α → ExceptT ε (Dialogue Q A) β} {P : Q → Prop} {thrown : σ → ε → Prop}

@[simp] theorem obeys_done {a : α} : (done a : Dialogue Q A α).Obeys S post s ↔ post s a := Iff.rfl

@[simp] theorem obeys_ask {q : Q} {k : A q → Dialogue Q A α} : (ask q k).Obeys S post s ↔
      S.may s q ∧ ∀ a, S.fair s q a → (k a).Obeys S post (S.after s q a) := Iff.rfl

theorem Obeys.bind {f : α → Dialogue Q A β} (h : d.Obeys S post s)
    (hf : ∀ s a, post s a → (f a).Obeys S post' s) : (d >>= f).Obeys S post' s := by
  induction d generalizing s with
  | done a => exact hf s a h
  | ask q k ih => exact ⟨h.1, fun a ha => ih a (h.2 a ha)⟩

theorem Obeys.mono {post' : σ → α → Prop} (h : d.Obeys S post s)
    (hpost : ∀ s a, post s a → post' s a) : d.Obeys S post' s := by
  induction d generalizing s with
  | done a => exact hpost s a h
  | ask q k ih => exact ⟨h.1, fun a ha => ih a (h.2 a ha)⟩

def Asks (P : Q → Prop) : Dialogue Q A α → Prop
  | .done _ => True
  | .ask q k => P q ∧ ∀ a, (k a).Asks P

theorem Asks.bind {f : α → Dialogue Q A β} (h : d.Asks P) (hf : ∀ a, (f a).Asks P) :
    (d >>= f).Asks P := by
  induction d with
  | done a => exact hf a
  | ask q k ih => exact ⟨h.1, fun a => ih a (h.2 a)⟩

theorem Asks.bindExcept {d : ExceptT ε (Dialogue Q A) α} (h : Asks P d.run)
    (hf : ∀ a, Asks P (f a).run) : Asks P (d >>= f).run := by
  refine Asks.bind h ?_
  rintro (e | a)
  · exact trivial
  · exact hf a

theorem Asks.handle {A' : Q' → Type} {P : Q' → Prop} {h : (q : Q) → Dialogue Q' A' (A q)}
    (hq : ∀ q, (h q).Asks P) (d : Dialogue Q A α) : (d.handle h).Asks P := by
  induction d with
  | done a => trivial
  | ask q k ih => exact Asks.bind (hq q) ih

/-- What such questions keep holds at the end. -/
theorem Asks.obeys {I : σ → Prop} (h : d.Asks P) (hs : I s) (hmay : ∀ s q, I s → P q → S.may s q)
    (hafter : ∀ s q a, I s → P q → S.fair s q a → I (S.after s q a)) :
    d.Obeys S (fun s _ => I s) s := by
  induction d generalizing s with
  | done a => exact hs
  | ask q k ih =>
    exact ⟨hmay s q hs h.1, fun a ha => ih a (h.2 a) (hafter s q a hs h.1 ha)⟩

/-- A program in terms of another's questions: what its own setting says of it holds, when each
question is put in a way that agrees with it. -/
theorem Obeys.handle {A' : Q' → Type} {σ' : Type} {S' : Setting Q' A' σ'}
    {h : (q : Q) → Dialogue Q' A' (A q)} {R : σ → σ' → Prop} {s' : σ'} (hd : d.Obeys S post s)
    (hR : R s s') (hq : ∀ s s' q, R s s' → S.may s q →
      (h q).Obeys S' (fun t' a => S.fair s q a ∧ R (S.after s q a) t') s') :
    (d.handle h).Obeys S' (fun t' a => ∃ t, R t t' ∧ post t a) s' := by
  induction d generalizing s s' with
  | done a => exact ⟨s, hR, hd⟩
  | ask q k ih =>
    refine Obeys.bind (hq s s' q hR hd.1) ?_
    rintro t' a ⟨hfair, hR'⟩
    exact ih a (hd.2 a hfair) hR'

def upon (thrown : σ → ε → Prop) (post : σ → α → Prop) : σ → Except ε α → Prop
  | s, .error e => thrown s e
  | s, .ok a => post s a

/-- A program that may throw, step by step. -/
theorem Obeys.bindExcept {d : ExceptT ε (Dialogue Q A) α} (h : Obeys S (upon thrown post) s d.run)
    (hf : ∀ s a, post s a → Obeys S (upon thrown post') s (f a).run) :
    Obeys S (upon thrown post') s (d >>= f).run := by
  refine Obeys.bind h ?_
  rintro s (e | a) hpost
  · exact hpost
  · exact hf s a hpost

theorem run_lift_bind (d : Dialogue Q A α) (f : α → ExceptT ε (Dialogue Q A) β) :
    (ExceptT.lift d >>= f).run = d >>= fun a => (f a).run := by
  induction d with
  | done a => rfl
  | ask q k ih => exact congrArg (Dialogue.ask q) (funext ih)

theorem Obeys.bindLift {post' : σ → Except ε β → Prop} (h : d.Obeys S post s)
    (hf : ∀ s a, post s a → Obeys S post' s (f a).run) :
    Obeys S post' s (ExceptT.lift d >>= f).run := by
  rw [run_lift_bind]
  exact h.bind hf

def play {ω : Type} (answer : σ → ω → (q : Q) → σ × A q) : σ → List ω → Dialogue Q A α → σ × Option α
  | s, _, .done a => (s, some a)
  | s, [], .ask _ _ => (s, none)
  | s, w :: ws, .ask q k => play answer (answer s w q).1 ws (k (answer s w q).2)

/-- Whatever it is answered, `I` holds before each question and in the end, and then `post` does. -/
def Upholds {ω : Type} (answer : σ → ω → (q : Q) → σ × A q) (I : σ → Prop) (post : σ → α → Prop) :
    σ → Dialogue Q A α → Prop
  | s, .done a => I s ∧ post s a
  | s, .ask q k => I s ∧ ∀ w, (k (answer s w q).2).Upholds answer I post (answer s w q).1

section Upholds
variable {ω : Type} {answer : σ → ω → (q : Q) → σ × A q} {I : σ → Prop}

theorem Upholds.play (h : d.Upholds answer I post s) (ws : List ω) : I (d.play answer s ws).1 ∧
      ∀ a, (d.play answer s ws).2 = some a → post (d.play answer s ws).1 a := by
  induction ws generalizing s d with
  | nil =>
    cases d with
    | done a => exact ⟨h.1, fun _ ha => Option.some.inj ha ▸ h.2⟩
    | ask q k => exact ⟨h.1, nofun⟩
  | cons w ws ih =>
    cases d with
    | done a => exact ⟨h.1, fun _ ha => Option.some.inj ha ▸ h.2⟩
    | ask q k => exact ih (h.2 w)

theorem Upholds.bind {f : α → Dialogue Q A β} (h : d.Upholds answer I post s)
    (hf : ∀ s a, I s → post s a → (f a).Upholds answer I post' s) :
    (d >>= f).Upholds answer I post' s := by
  induction d generalizing s with
  | done a => exact hf s a h.1 h.2
  | ask q k ih => exact ⟨h.1, fun w => ih _ (h.2 w)⟩

theorem Upholds.mono {post' : σ → α → Prop} (h : d.Upholds answer I post s)
    (hpost : ∀ s a, I s → post s a → post' s a) : d.Upholds answer I post' s := by
  induction d generalizing s with
  | done a => exact ⟨h.1, hpost s a h.1 h.2⟩
  | ask q k ih => exact ⟨h.1, fun w => ih _ (h.2 w)⟩

theorem Upholds.bindExcept {d : ExceptT ε (Dialogue Q A) α}
    (h : Upholds answer I (upon thrown post) s d.run)
    (hf : ∀ s a, I s → post s a → Upholds answer I (upon thrown post') s (f a).run) :
    Upholds answer I (upon thrown post') s (d >>= f).run := by
  refine Upholds.bind h ?_
  rintro s (e | a) hI hpost
  · exact ⟨hI, hpost⟩
  · exact hf s a hI hpost

theorem Upholds.bindLift {post' : σ → Except ε β → Prop} (h : d.Upholds answer I post s)
    (hf : ∀ s a, I s → post s a → Upholds answer I post' s (f a).run) :
    Upholds answer I post' s (ExceptT.lift d >>= f).run := by
  rw [run_lift_bind]
  exact h.bind hf

/-- An attempt of which only the invariant is known. -/
theorem Upholds.bindAttempt {post' : σ → Except ε β → Prop} {d : ExceptT ε (Dialogue Q A) α}
    (h : Upholds answer I (fun _ _ => True) s d.run) (hthrown : ∀ s e, I s → post' s (.error e))
    (hf : ∀ s a, I s → Upholds answer I post' s (f a).run) :
    Upholds answer I post' s (d >>= f).run := by
  refine Upholds.bind h ?_
  rintro s (e | a) hI -
  · exact ⟨hI, hthrown s e hI⟩
  · exact hf s a hI

/-- What every statement keeps holds whatever is done. -/
theorem play_keeps {answer : σ → ω → (q : Q) → σ × A q} (hI : ∀ s w q, I s → I (answer s w q).1)
    (d : Dialogue Q A α) (ws : List ω) (hs : I s) : I (d.play answer s ws).1 := by
  induction ws generalizing s d with
  | nil => cases d <;> exact hs
  | cons w ws ih =>
    cases d with
    | done a => exact hs
    | ask q k => exact ih _ (hI s w q hs)

theorem Upholds.weaken {I' : σ → Prop} (h : d.Upholds answer I post s) (hI : ∀ s, I s → I' s) :
    d.Upholds answer I' post s := by
  induction d generalizing s with
  | done a => exact ⟨hI s h.1, h.2⟩
  | ask q k ih => exact ⟨hI s h.1, fun w => ih _ (h.2 w)⟩

end Upholds

end Dialogue

end Kindred.Lib
