import Mathlib.Data.List.Sort

/-! Lists as queries give them: in the order of a key, or gathered over the chunks of a list of
keys. -/

namespace Kindred.Lib

variable {α ε κ : Type}

def orderBy [LinearOrder κ] (f : α → κ) (l : List α) : List α :=
  l.insertionSort fun a b => f a ≤ f b

variable {l l' : List α} {n : ℕ}

section
variable [LinearOrder κ] (f : α → κ)

instance total_of_key : Std.Total fun a b : α => f a ≤ f b := ⟨fun a b => le_total (f a) (f b)⟩

instance trans_of_key : IsTrans α fun a b => f a ≤ f b := ⟨fun _ _ _ => le_trans⟩

theorem orderBy_perm (l : List α) : (orderBy f l).Perm l := List.perm_insertionSort _ l

theorem orderBy_sorted (l : List α) : (orderBy f l).Pairwise fun a b => f a ≤ f b :=
  List.pairwise_insertionSort _ l

/-- Two keys that rank the rows in one way, and tell any two apart, order them in one way. -/
theorem orderBy_congr {κ' : Type} [LinearOrder κ'] {f : α → κ} {g : α → κ'} (h : l.Perm l')
    (hinj : ∀ a ∈ l, ∀ b ∈ l, f a = f b → a = b) (hle : ∀ a ∈ l, ∀ b ∈ l, f a ≤ f b ↔ g a ≤ g b)
    : orderBy f l = orderBy g l' := by
  have hf := orderBy_perm f l
  have hg := orderBy_perm g l'
  have hperm : (orderBy f l).Perm (orderBy g l') := (hf.trans h).trans hg.symm
  have hsorted : (orderBy g l').Pairwise fun a b => f a ≤ f b := by
    refine (orderBy_sorted g l').imp_of_mem fun {a b} ha hb hab => ?_
    exact (hle a (h.mem_iff.mpr (hg.mem_iff.mp ha)) b (h.mem_iff.mpr (hg.mem_iff.mp hb))).mpr hab
  refine List.Perm.eq_of_pairwise ?_ (orderBy_sorted f l) hsorted hperm
  intro a b ha hb hab hba
  exact hinj a (hf.mem_iff.mp ha) b (h.mem_iff.mpr (hg.mem_iff.mp hb)) (le_antisymm hab hba)

theorem orderBy_of_nodup (h : l.Perm l') (hn : (l.map f).Nodup) : orderBy f l = orderBy f l' :=
  orderBy_congr h (fun _ ha _ hb => List.inj_on_of_nodup_map hn ha hb) fun _ _ _ _ => .rfl

end

/-- A list cut in pieces of at most `n`, by recursion on a bound of its length. -/
def cut (n : ℕ) : ℕ → List α → List (List α)
  | 0, _ => []
  | _ + 1, [] => []
  | m + 1, a :: l => (a :: l).take n :: cut n m ((a :: l).drop n)

def chunked (n : ℕ) (l : List α) : List (List α) := cut n l.length l

theorem flatten_cut (hn : 0 < n) (m : ℕ) (l : List α) (h : l.length ≤ m) :
    (cut n m l).flatten = l := by
  induction m generalizing l with
  | zero => simp [cut, List.eq_nil_of_length_eq_zero (Nat.le_zero.mp h)]
  | succ m ih =>
    cases l with
    | nil => rfl
    | cons a l =>
      have hd : ((a :: l).drop n).length ≤ m := by
        rw [List.length_drop]
        omega
      rw [cut, List.flatten_cons, ih _ hd, List.take_append_drop]

theorem flatten_chunked (hn : 0 < n) (l : List α) : (chunked n l).flatten = l :=
  flatten_cut hn _ l (Nat.le_refl _)

/-- What one or the other takes, where nothing is taken by both. -/
theorem filter_append_perm {p q : ε → Bool} {l : List ε} (h : ∀ r ∈ l, p r = true → q r = false) :
    (l.filter p ++ l.filter q).Perm (l.filter fun r => p r || q r) := by
  induction l with
  | nil => exact .nil
  | cons r l ih =>
    have ih := ih fun r hr => h r (List.mem_cons_of_mem _ hr)
    have hr := h r List.mem_cons_self
    cases hp : p r
    · cases hq : q r
      · simpa [hp, hq] using ih
      · simpa [hp, hq] using List.perm_middle.trans (ih.cons r)
    · simpa [hp, hr hp] using ih.cons r

variable [DecidableEq κ] (key : ε → Option κ)

def keyIn (ks : List κ) (l : List ε) : List ε := l.filter fun r => (key r).any (· ∈ ks)

/-- Looking keys up chunk by chunk finds what looking them up at once does. -/
theorem keyIn_flatten (cs : List (List κ)) (l : List ε) (h : cs.flatten.Nodup) :
    (cs.flatMap fun c => keyIn key c l).Perm (keyIn key cs.flatten l) := by
  induction cs with
  | nil => simp [keyIn]
  | cons c cs ih =>
    rw [List.flatten_cons] at h ⊢
    obtain ⟨-, htail, hdis⟩ := List.nodup_append'.mp h
    refine ((ih htail).append_left _).trans ?_
    refine (filter_append_perm ?_).trans (.of_eq (List.filter_congr fun r _ => ?_))
    · intro r _ hc
      cases hk : key r with
      | none => rfl
      | some k => simpa [hk] using hdis (by simpa [hk] using hc)
    · cases key r <;> simp

theorem keyIn_chunked (hn : 0 < n) {ks : List κ} (h : ks.Nodup) (l : List ε) :
    ((chunked n ks).flatMap fun c => keyIn key c l).Perm (keyIn key ks l) := by
  have hf := flatten_chunked hn ks
  have hp := keyIn_flatten key (chunked n ks) l (hf.symm ▸ h)
  rwa [hf] at hp

def keyOut (ks : List κ) (l : List ε) : List ε := l.filter fun r => !(key r).any (· ∈ ks)

theorem keyOut_flatten (cs : List (List κ)) (l : List ε) :
    cs.foldl (fun rows c => keyOut key c rows) l = keyOut key cs.flatten l := by
  induction cs generalizing l with
  | nil => simp [keyOut]
  | cons c cs ih =>
    rw [List.foldl_cons, ih, keyOut, keyOut, keyOut, List.filter_filter, List.flatten_cons]
    refine List.filter_congr fun r _ => ?_
    cases key r <;> simp [Bool.and_comm]

theorem keyOut_chunked (hn : 0 < n) (ks : List κ) (l : List ε) :
    (chunked n ks).foldl (fun rows c => keyOut key c rows) l = keyOut key ks l := by
  rw [keyOut_flatten, flatten_chunked hn]

end Kindred.Lib
