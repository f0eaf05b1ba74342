import Kindred.Lib.Transaction

/-! Two machines that are to give the same answers. -/

namespace Kindred.Lib

variable {σ σ' κ ω : Type}

def answers (step : σ → κ → σ × ω) : σ → List κ → List ω
  | _, [] => []
  | s, c :: cs => (step s c).2 :: answers step (step s c).1 cs

/-- States in a relation that every call keeps answer every run alike. -/
theorem answers_eq {step : σ → κ → σ × ω} {step' : σ' → κ → σ' × ω} {R : σ → σ' → Prop}
    {C : σ → κ → Prop} (hstep : ∀ s t c, R s t → C s c →
      R (step s c).1 (step' t c).1 ∧ (step s c).2 = (step' t c).2)
    {s : σ} {t : σ'} (hst : R s t) {cs : List κ} (hc : Meets (fun s c => (step s c).1) C s cs) :
    answers step s cs = answers step' t cs := by
  induction cs generalizing s t with
  | nil => rfl
  | cons c cs ih =>
    obtain ⟨hnext, heq⟩ := hstep s t c hst hc.1
    rw [answers, answers, heq, ih hnext hc.2]

end Kindred.Lib
