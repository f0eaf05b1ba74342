import Kindred.Lib.Transaction

/-! Which errors a computation may raise, and which it does. -/

namespace Kindred.Lib
variable {σ ε α β : Type}

/-- Every error it raises is in `E`. -/
def Raises (E : ε → Prop) (m : Except ε α) : Prop := ∀ e, m = .error e → E e

variable {m : Except ε α} {f : α → Tx σ ε β} {l : List α} {E : ε → Prop}

variable {e : ε} {s : σ}

namespace Raises
variable {E : ε → Prop}

theorem pure (a : α) : Raises E (Pure.pure a : Except ε α) := fun _ h => nomatch h

theorem error (h : E e) : Raises E (.error e : Except ε α) := by
  rintro _ ⟨⟩
  exact h

theorem bind {f : α → Except ε β} (hm : Raises E m) (hf : ∀ a, m = .ok a → Raises E (f a))
    : Raises E (m >>= f) := by
  intro e h
  cases hr : m with
  | error e' =>
    rw [hr] at h
    cases h
    exact hm _ hr
  | ok a =>
    rw [hr] at h
    exact hf a hr e h

theorem ite {c : Prop} [Decidable c] {n : Except ε α} (hm : c → Raises E m) (hn : ¬c → Raises E n)
    : Raises E (if c then m else n) := by
  by_cases h : c
  · rw [if_pos h]; exact hm h
  · rw [if_neg h]; exact hn h

theorem mapM {f : α → Except ε β} (h : ∀ a ∈ l, Raises E (f a)) : Raises E (l.mapM f) := by
  induction l with
  | nil => exact pure _
  | cons a l ih =>
    rw [List.mapM_cons]
    refine (h a List.mem_cons_self).bind fun _ _ => ?_
    exact (ih fun b hb => h b (List.mem_cons_of_mem a hb)).bind fun _ _ => pure _

theorem foldlM {f : β → α → Except ε β} (h : ∀ b, ∀ a ∈ l, Raises E (f b a)) (b : β) :
    Raises E (l.foldlM f b) := by
  induction l generalizing b with
  | nil => exact pure b
  | cons a l ih =>
    rw [List.foldlM_cons]
    exact (h b a List.mem_cons_self).bind fun c _ =>
      ih (fun b c hc => h b c (List.mem_cons_of_mem a hc)) c

/-- What a computation that raises nothing went through. -/
theorem bind_ok {f : α → Except ε β} {b : β} (h : (m >>= f) = .ok b) :
    ∃ a, m = .ok a ∧ f a = .ok b := by
  cases hm : m with
  | error e =>
    rw [hm] at h
    cases h
  | ok a =>
    rw [hm] at h
    exact ⟨a, rfl, h⟩

/-- A call and what follows it. -/
theorem run_bind {m : Tx σ ε α} (hm : Raises E (m s)) (hf : ∀ a t, Raises E (f a t))
    : Raises E ((m >>= f) s) := by
  have hbind : (m >>= f) s = m s >>= fun p => f p.1 p.2 := rfl
  rw [hbind]
  exact hm.bind fun p _ => hf p.1 p.2

/-- A call's run. -/
theorem of_runs {m : Tx σ ε α} {Q : α → σ → Prop} (h : Tx.Runs E m s Q) : Raises E (m s) := by
  intro e he
  unfold Tx.Runs at h
  rw [he] at h
  exact h

end Raises

/-- The call raises the first of `errors`, from any state; where there is none,
it raises nothing. -/
def Fails (m : Tx σ ε α) : List ε → Prop
  | [] => ∀ s, ∃ r, m s = .ok r
  | e :: _ => ∀ s, m s = .error e

namespace Fails

theorem pure (a : α) : Fails (Pure.pure a : Tx σ ε α) [] := fun _ => ⟨_, rfl⟩

variable {m : Tx σ ε α} {errors : List ε}

theorem bind {more : List ε} (hm : Fails m errors) (hf : ∀ a, Fails (f a) more) :
    Fails (m >>= f) (errors ++ more) := by
  have hbind : ∀ s, (m >>= f) s = m s >>= fun p => f p.1 p.2 := fun _ => rfl
  cases errors with
  | nil =>
    have hrun : ∀ s, ∃ r : α × σ, (m >>= f) s = f r.1 r.2 := by
      intro s
      obtain ⟨r, hr⟩ := hm s
      exact ⟨r, by rw [hbind, hr]; rfl⟩
    rw [List.nil_append]
    cases more with
    | nil =>
      intro s
      obtain ⟨r, hr⟩ := hrun s
      rw [hr]
      exact hf r.1 r.2
    | cons e more =>
      intro s
      obtain ⟨r, hr⟩ := hrun s
      rw [hr]
      exact hf r.1 r.2
  | cons e errors =>
    intro s
    rw [hbind, hm s]
    rfl

theorem bind_pure {f : α → β} (hm : Fails m errors) :
    Fails (m >>= fun a => Pure.pure (f a)) errors := by
  have h := hm.bind fun a => pure (f a)
  rwa [List.append_nil] at h

theorem mapM {f : β → Tx σ ε α} {errors : β → List ε} {l : List β}
    (h : ∀ b ∈ l, Fails (f b) (errors b)) : Fails (l.mapM f) (l.flatMap errors) := by
  induction l with
  | nil => exact pure _
  | cons b l ih =>
    rw [List.mapM_cons, List.flatMap_cons]
    refine (h b List.mem_cons_self).bind fun _ => ?_
    exact bind_pure (ih fun c hc => h c (List.mem_cons_of_mem b hc))

theorem mapM_nil {f : β → Tx σ ε α} {l : List β} (h : ∀ b ∈ l, Fails (f b) []) :
    Fails (l.mapM f) [] := by
  have hall : Fails (l.mapM f) (l.flatMap fun _ => ([] : List ε)) := mapM h
  rwa [List.flatMap_eq_nil_iff.mpr fun _ _ => rfl] at hall

theorem lift_ok (a : α) : Fails (liftM (Except.ok a : Except ε α) : Tx σ ε α) [] :=
  fun _ => ⟨_, rfl⟩

theorem lift_error (e : ε) : Fails (liftM (Except.error e : Except ε α) : Tx σ ε α) [e] :=
  fun _ => rfl

theorem bind_error (h : Fails m (e :: errors)) (s : σ) : (m >>= f) s = .error e := by
  show (m s >>= fun p => f p.1 p.2) = _
  rw [h s]
  rfl

/-- Where its first error is in `E`, and what follows raises only those. -/
theorem bind_raises (h : Fails m errors) (hE : ∀ e ∈ errors.head?, E e)
    (hf : ∀ a t, Raises E (f a t)) (s : σ) : Raises E ((m >>= f) s) := by
  cases errors with
  | cons e errors =>
    intro e' he
    cases (bind_error h s).symm.trans he
    exact hE _ rfl
  | nil =>
    obtain ⟨r, hr⟩ := h s
    have hrun : (m >>= f) s = f r.1 r.2 := by
      show (m s >>= fun p => f p.1 p.2) = _
      rw [hr]
      rfl
    rw [hrun]
    exact hf r.1 r.2

theorem raises (h : Fails m errors) (hE : ∀ e ∈ errors.head?, E e) (s : σ) : Raises E (m s) := by
  intro e he
  cases errors with
  | nil =>
    obtain ⟨r, hr⟩ := h s
    cases hr.symm.trans he
  | cons e' errors =>
    cases (h s).symm.trans he
    exact hE _ rfl

end Fails

end Kindred.Lib
