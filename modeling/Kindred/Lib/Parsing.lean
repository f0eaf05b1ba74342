import Kindred.Lib.Transaction

/-! Parsers that take characters off the front of a text. -/

namespace Kindred.Lib
open Tx

inductive ParseFault where
  | stop (why : String) (rest : List Char)
  | outOfFuel

abbrev Parser (α : Type) := Tx (List Char) ParseFault α

namespace Parser
variable {α β : Type} {cs : List Char}

def fail (why : String) : Parser α := fun cs => .error (.stop why cs)

def done : Parser Bool := fun cs => .ok (cs.isEmpty, cs)

def startsWith (s : String) : Parser Bool := fun cs => .ok (s.toList.isPrefixOf cs, cs)

def eat (s : String) : Parser Bool := fun cs =>
  if s.toList.isPrefixOf cs then .ok (true, cs.drop s.toList.length) else .ok (false, cs)

def expect (s : String) : Parser Unit := do
  if ← eat s then return () else fail s!"expecting \"{s}\""

/-- The characters up to the first that is not in `p`. -/
def takeWhile (p : Char → Bool) : Parser (List Char) := fun cs =>
  .ok (cs.takeWhile p, cs.dropWhile p)

def rest : Parser String := fun cs => .ok (.ofList cs, [])

/-- What `p` reads, or nothing where it stops. -/
def attempt (p : Parser α) : Parser (Option α) := fun cs =>
  match p cs with
  | .ok (a, cs') => .ok (some a, cs')
  | .error (.stop _ _) => .ok (none, cs)
  | .error .outOfFuel => .error .outOfFuel

def manyFuel (step : Parser (Option α)) : Nat → Parser (List α)
  | 0 => throw .outOfFuel
  | fuel + 1 => do
    match ← step with
    | none => return []
    | some a => return a :: (← manyFuel step fuel)

def many (step : Parser (Option α)) : Parser (List α) := fun cs =>
  manyFuel step (cs.length + 1) cs

/-- The parser ends on characters in `Q`, or stops; its fuel lasts. -/
abbrev Reads (p : Parser α) (cs : List Char) (Q : α → List Char → Prop) : Prop :=
  Runs (· ≠ .outOfFuel) p cs Q

theorem fail_reads {why : String} {Q : α → List Char → Prop} : Reads (fail why) cs Q := by
  simp [Reads, Runs, fail]

theorem done_reads {Q : Bool → List Char → Prop} (h : Q cs.isEmpty cs) : Reads done cs Q := h

/-- What it reads, it takes off. -/
theorem eat_reads {s : String} {Q : Bool → List Char → Prop}
    (htrue : ∀ cs', cs'.length + s.toList.length = cs.length → Q true cs') (hfalse : Q false cs) :
    Reads (eat s) cs Q := by
  unfold Reads Runs eat
  by_cases hprefix : s.toList.isPrefixOf cs
  · have hle : s.toList.length ≤ cs.length := (List.isPrefixOf_iff_prefix.mp hprefix).length_le
    rw [if_pos hprefix]
    exact htrue _ (by simp only [List.length_drop]; omega)
  · rw [if_neg hprefix]
    exact hfalse

theorem eat_bind_reads {s : String} {p q : Parser α} {Q : α → List Char → Prop}
    (htrue : ∀ cs', cs'.length + s.toList.length = cs.length → Reads p cs' Q)
    (hfalse : Reads q cs Q) : Reads (do if ← eat s then p else q) cs Q := by
  refine Runs.bind (eat_reads (fun cs' h => ?_) ?_)
  · exact htrue cs' h
  · exact hfalse

theorem expect_reads {s : String} :
    Reads (expect s) cs fun _ cs' => cs'.length + s.toList.length = cs.length :=
  eat_bind_reads (fun _ h => Runs.pure h) fail_reads

theorem takeWhile_reads {p : Char → Bool} :
    Reads (takeWhile p) cs fun a cs' => cs'.length + a.length = cs.length := by
  show (cs.dropWhile p).length + (cs.takeWhile p).length = cs.length
  rw [Nat.add_comm, ← List.length_append, List.takeWhile_append_dropWhile]

theorem rest_reads {Q : String → List Char → Prop} (h : Q (.ofList cs) []) : Reads rest cs Q := h

theorem attempt_reads {p : Parser α} {Q : Option α → List Char → Prop}
    (h : Reads p cs fun a cs' => Q (some a) cs') (hnone : Q none cs) : Reads (attempt p) cs Q := by
  unfold Reads Runs attempt at *
  cases hp : p cs with
  | ok r => rw [hp] at h; exact h
  | error e =>
    rw [hp] at h
    cases e with
    | stop => exact hnone
    | outOfFuel => exact absurd rfl h

/-- Where each step takes a character off, the fuel lasts. -/
theorem many_reads {step : Parser (Option α)}
    (h : ∀ ds, ds.length ≤ cs.length → Reads step ds fun a ds' =>
      ds'.length + (if a.isSome then 1 else 0) ≤ ds.length) :
    Reads (many step) cs fun _ cs' => cs'.length ≤ cs.length := by
  have hfuel : ∀ fuel ds, ds.length < fuel → ds.length ≤ cs.length →
      Reads (manyFuel step fuel) ds fun _ ds' => ds'.length ≤ ds.length := by
    intro fuel
    induction fuel with
    | zero => intro ds hlt; omega
    | succ fuel ih =>
      intro ds hlt hle
      refine Runs.bind ((h ds hle).mono fun a ds' ha => ?_)
      cases a with
      | none => exact Runs.pure (by simpa using ha)
      | some a =>
        simp only [Option.isSome_some, if_true] at ha
        refine Runs.bind ((ih ds' (by omega) (by omega)).mono fun _ ds'' hds => ?_)
        exact Runs.pure (by omega)
  exact hfuel (cs.length + 1) cs (by omega) (Nat.le_refl _)

end Parser

end Kindred.Lib
