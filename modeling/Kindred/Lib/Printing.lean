import Mathlib.Data.List.Forall2
import Mathlib.Data.List.TakeWhile
import Kindred.Lib.Parsing

/-! Parsers that read back what was printed. -/

namespace Kindred.Lib.Parser
open Tx

variable {α β : Type} {p : Parser α} {text text' : List Char} {a : α} {b : β}
  {next next' : List Char → Prop} {Q : α → Prop} {R : β → Prop}

/-- Of `text`, and of what may stand next, it takes `text` and reads `a`. -/
def Yields (p : Parser α) (text : List Char) (a : α) (next : List Char → Prop) : Prop :=
  ∀ rest, next rest → p (text ++ rest) = .ok (a, rest)

/-- Whatever follows `text`, it stops. -/
def Rejects (p : Parser α) (text : List Char) : Prop :=
  ∀ rest, ∃ why at_, p (text ++ rest) = .error (.stop why at_)

theorem Yields.pure (a : α) : Yields (Pure.pure a) [] a next := fun _ _ => rfl

theorem Yields.bind {f : α → Parser β} (hp : Yields p text a next)
    (hf : Yields (f a) text' b next') (hnext : ∀ rest, next' rest → next (text' ++ rest)) :
    Yields (p >>= f) (text ++ text') b next' := by
  intro rest hrest
  rw [List.append_assoc]
  exact bind_ok.mpr ⟨a, text' ++ rest, hp _ (hnext rest hrest), hf rest hrest⟩

/-- The last step only makes the value. -/
theorem Yields.map {f : α → β} (hp : Yields p text a next) :
    Yields (do return f (← p)) text (f a) next := by
  have h : Yields (p >>= fun x => Pure.pure (f x)) (text ++ []) (f a) next :=
    hp.bind (Yields.pure _) fun _ hrest => hrest
  rwa [List.append_nil] at h

theorem intercalate_cons (c : Char) (text : List Char) (texts : List (List Char)) :
    [c].intercalate (text :: texts) = text ++ (texts.map (c :: ·)).flatten := by
  induction texts generalizing text with
  | nil => simp
  | cons text' texts ih => simp [List.intercalate_cons_cons, ih]

theorem eat_append (s : String) (rest : List Char) :
    eat s (s.toList ++ rest) = .ok (true, rest) := by
  unfold eat
  rw [if_pos (List.isPrefixOf_iff_prefix.mpr (List.prefix_append _ _)), List.drop_left]

theorem eat_misses {s : String} (h : ∀ rest, next rest → s.toList.isPrefixOf rest = false) :
    Yields (eat s) [] false next := by
  intro rest hrest
  unfold eat
  rw [List.nil_append, if_neg (by simp [h rest hrest])]

theorem expect_append (s : String) (rest : List Char) :
    expect s (s.toList ++ rest) = .ok ((), rest) :=
  bind_ok.mpr ⟨true, rest, eat_append s rest, rfl⟩

theorem takeWhile_yields {q : Char → Bool} (h : ∀ c ∈ text, q c = true)
    (hnext : ∀ rest, next rest → ∀ c ∈ rest.head?, q c = false) :
    Yields (takeWhile q) text text next := by
  intro rest hrest
  have hstop := hnext rest hrest
  unfold takeWhile
  rw [List.takeWhile_append_of_pos h, List.dropWhile_append_of_pos h]
  cases rest with
  | nil => simp
  | cons c cs =>
    have hc : q c = false := hstop c rfl
    simp [hc]

theorem attempt_yields (h : Yields p text a next) : Yields (attempt p) text (some a) next := by
  intro rest hrest
  unfold attempt
  rw [h rest hrest]

theorem attempt_rejects (h : Rejects p text) (rest : List Char) :
    attempt p (text ++ rest) = .ok (none, text ++ rest) := by
  obtain ⟨why, at_, he⟩ := h rest
  unfold attempt
  rw [he]

/-- A text read by `step`, and what follows it may be the next. -/
def Part (step : Parser (Option α)) (next : List Char → Prop) (text : List Char) (a : α) : Prop :=
  text ≠ [] ∧ Yields step text (some a) next ∧ ∀ rest, next (text ++ rest)

variable {step : Parser (Option α)} {texts : List (List Char)} {as : List α}

theorem parts_start {rest : List Char} (h : List.Forall₂ (Part step next) texts as)
    (hrest : next rest) : next (texts.flatten ++ rest) := by
  cases h with
  | nil => exact hrest
  | cons hpart _ =>
    rw [List.flatten_cons, List.append_assoc]
    exact hpart.2.2 _

/-- The steps read one text after the other; each is at least a character, so
the fuel lasts. -/
theorem many_yields (h : List.Forall₂ (Part step next) texts as) (hend : Yields step [] none next')
    (hnext : ∀ rest, next' rest → next rest) : Yields (many step) texts.flatten as next' := by
  have hfuel : ∀ fuel rest, (texts.flatten ++ rest).length < fuel → next' rest →
      manyFuel step fuel (texts.flatten ++ rest) = .ok (as, rest) := by
    induction h with
    | nil =>
      intro fuel rest hlt hrest
      cases fuel with
      | zero => omega
      | succ fuel => exact bind_ok.mpr ⟨none, rest, hend rest hrest, rfl⟩
    | @cons text a texts as hpart hparts ih =>
      intro fuel rest hlt hrest
      obtain ⟨hne, hread, hstart⟩ := hpart
      rw [List.flatten_cons, List.append_assoc] at hlt ⊢
      have hpos := List.length_pos_iff.mpr hne
      cases fuel with
      | zero => omega
      | succ fuel =>
        have hfollows := parts_start hparts (hnext rest hrest)
        refine bind_ok.mpr ⟨some a, _, hread _ hfollows, ?_⟩
        rw [List.length_append] at hlt
        exact bind_ok.mpr ⟨as, rest, ih fuel rest (by omega) hrest, rfl⟩
  exact fun rest hrest => hfuel _ rest (Nat.lt_succ_self _) hrest

/-- All it reads is in `Q`. -/
def Gives (p : Parser α) (Q : α → Prop) : Prop := ∀ cs a rest, p cs = .ok (a, rest) → Q a

end Kindred.Lib.Parser
