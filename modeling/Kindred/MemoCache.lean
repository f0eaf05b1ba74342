import Kindred.Lib.Table
import Kindred.Lib.Transaction

/-! A memo for hot read paths: single flight, stale while it revalidates, bounded. -/

namespace Kindred.MemoCache
open Lib (Table run run_invariant run_keeps meets_of_forall)

structure Options (V : Type) where
  ttlMs : V → Int
  max : ℕ
  isNegative : V → Bool := fun _ => false
  negativeMax : Option ℕ := none
  keepPrevious : V → V → Bool := fun _ _ => false
  serveStale : V → Bool := fun _ => true
  enabled : Bool := true
  maxStaleMs : Int := 600000
  retryAfterMs : Int := 5000

/-- `load`: the load that brought the value. -/
structure Entry (V : Type) where
  value : V
  at_ : Int
  retryAt : Int
  expired : Bool
  load : ℕ

/-- A load that was begun, whether it is over or not. -/
structure Load where
  key : String
  background : Bool
  invalidated : Bool := false
  ended : Bool := false

def Load.disown (l : Load) : Load := { l with invalidated := true }

/-- `flights`: the load that each key's requests join. -/
structure Memo (V : Type) where
  entries : Table String (Entry V) := .empty
  negatives : Table String (Entry V) := .empty
  flights : Table String ℕ := .empty
  loads : List Load := []

namespace Memo
variable {V : Type}

def touch (map : Table String (Entry V)) (key : String) (entry : Entry V) :
    Table String (Entry V) :=
  (map.erase key).put key entry

def stored (m : Memo V) (key : String) : Option (Entry V) :=
  (m.entries.get key).or (m.negatives.get key)

def load (m : Memo V) (key : String) (background : Bool) : ℕ × Memo V :=
  match m.flights.get key with
  | some running => (running, m)
  | none => (m.loads.length, { m with
      flights := m.flights.put key m.loads.length
      loads := m.loads ++ [{ key, background }] })

/-- The load whose value a request is answered with. -/
def get (o : Options V) (now : Int) (key : String) (m : Memo V) : ℕ × Memo V :=
  if !o.enabled then
    { m with entries := .empty, negatives := .empty }.load key false
  else
    match m.stored key with
    | none => m.load key false
    | some hit =>
      let touched := fun m : Memo V =>
        if (m.entries.get key).isSome then { m with entries := touch m.entries key hit }
        else { m with negatives := touch m.negatives key hit }
      let age := now - hit.at_
      if !hit.expired ∧ age < o.ttlMs hit.value then (hit.load, touched m)
      else if age ≤ o.maxStaleMs ∧ o.serveStale hit.value then
        let m := if hit.retryAt ≤ now ∧ m.flights.get key = none then (m.load key true).2 else m
        (hit.load, touched m)
      else m.load key false

def abandonFlights (m : Memo V) : Memo V :=
  { m with
    flights := .empty
    loads := m.loads.zipIdx.map fun r =>
      if m.flights.get r.1.key = some r.2 then Load.disown r.1 else r.1 }

def invalidate (key : String) (m : Memo V) : Memo V :=
  { m with
    entries := m.entries.erase key
    negatives := m.negatives.erase key
    flights := m.flights.erase key
    loads := m.loads.zipIdx.map fun r =>
      if r.1.key = key ∧ m.flights.get key = some r.2 then Load.disown r.1 else r.1 }

def invalidateWhere (select : V → Bool) (m : Memo V) : Memo V :=
  { m with
    entries := m.entries.keep fun _ e => !select e.value
    negatives := m.negatives.keep fun _ e => !select e.value }.abandonFlights

def clear (m : Memo V) : Memo V :=
  { m with entries := .empty, negatives := .empty }.abandonFlights

def expireAll (m : Memo V) : Memo V :=
  { m with
    entries := m.entries.mapValues fun e => { e with expired := true, retryAt := 0 }
    negatives := m.negatives.mapValues fun e => { e with expired := true, retryAt := 0 } }.abandonFlights

/-- The next background load of the key waits until `retryAt`. -/
def delay (key : String) (retryAt : Int) (m : Memo V) : Memo V :=
  if (m.entries.get key).isSome then
    { m with entries := m.entries.update key fun e => { e with retryAt } }
  else { m with negatives := m.negatives.update key fun e => { e with retryAt } }

def store (o : Options V) (now : Int) (key : String) (value : V) (load : ℕ) (m : Memo V) : Memo V :=
  if (m.stored key).any fun previous => now - previous.at_ ≤ o.maxStaleMs ∧
      o.serveStale previous.value ∧ o.keepPrevious previous.value value then
    m.delay key (now + o.retryAfterMs)
  else
    let m := { m with entries := m.entries.erase key, negatives := m.negatives.erase key }
    if !o.enabled ∨ o.ttlMs value ≤ 0 then m
    else
      let entry : Entry V := { value, at_ := now, retryAt := 0, expired := false, load }
      if o.isNegative value then
        { m with negatives :=
            (m.negatives.put key entry).newest (Nat.max 1 (o.negativeMax.getD o.max)) }
      else { m with entries := (m.entries.put key entry).newest (Nat.max 1 o.max) }

def settle (o : Options V) (now : Int) (i : ℕ) (l : Load) (result : Option V) (m : Memo V) :
    Memo V :=
  let m := match result with
    | some value => if l.invalidated then m else m.store o now l.key value i
    | none => m
  { m with
    flights := if m.flights.get l.key = some i then m.flights.erase l.key else m.flights
    loads := m.loads.set i { l with ended := true } }

end Memo

/-- What happens to a cache. A failed background load is caught after it is over. -/
inductive Action (V : Type) where
  | get (o : Options V) (now : Int) (key : String)
  | settle (o : Options V) (now : Int) (i : ℕ) (result : Option V)
  | caught (o : Options V) (now : Int) (key : String)
  | invalidate (key : String)
  | invalidateWhere (select : V → Bool)
  | clear
  | expireAll

def Memo.step {V : Type} (m : Memo V) : Action V → Memo V
  | .get o now key => (m.get o now key).2
  | .settle o now i result =>
    match m.loads[i]? with
    | some l => if l.ended then m else m.settle o now i l result
    | none => m
  | .caught o now key => m.delay key (now + o.retryAfterMs)
  | .invalidate key => m.invalidate key
  | .invalidateWhere select => m.invalidateWhere select
  | .clear => m.clear
  | .expireAll => m.expireAll

/-- What the options answer in the step is `M` and `N` at most. -/
def Action.Bounded {V : Type} (M N : ℕ) : Action V → Prop
  | .settle o _ _ _ => o.max ≤ M ∧ o.negativeMax.getD o.max ≤ N
  | _ => True

section Tables
variable {V : Type} {t t' t'' : Table String (Entry V)}

structure Shrinks (t t' : Table String (Entry V)) : Prop where
  entry : ∀ k e, t'.get k = some e → ∃ e', t.get k = some e' ∧ e'.load = e.load ∧ e'.value = e.value
  length : t'.rows.length ≤ t.rows.length

namespace Shrinks

theorem refl (t : Table String (Entry V)) : Shrinks t t :=
  ⟨fun _ e h => ⟨e, h, rfl, rfl⟩, Nat.le_refl _⟩

theorem trans (h : Shrinks t t') (h' : Shrinks t' t'') : Shrinks t t'' := by
  refine ⟨fun k e hget => ?_, Nat.le_trans h'.length h.length⟩
  obtain ⟨e', hget', hload', hvalue'⟩ := h'.entry k e hget
  obtain ⟨e'', hget'', hload'', hvalue''⟩ := h.entry k e' hget'
  exact ⟨e'', hget'', hload''.trans hload', hvalue''.trans hvalue'⟩

theorem empty (t : Table String (Entry V)) : Shrinks t .empty :=
  ⟨fun k e h => by simp at h, Nat.zero_le _⟩

theorem erase (t : Table String (Entry V)) (k : String) : Shrinks t (t.erase k) := by
  refine ⟨fun k' e h => ?_, t.length_erase_le k⟩
  rw [Table.get_erase] at h
  split at h
  · cases h
  · exact ⟨e, h, rfl, rfl⟩

theorem keep (t : Table String (Entry V)) (p : String → Entry V → Bool) : Shrinks t (t.keep p) := by
  refine ⟨fun k e h => ?_, t.length_keep_le p⟩
  rw [Table.get_keep, Option.filter_eq_some_iff] at h
  exact ⟨e, h.1, rfl, rfl⟩

variable {f : Entry V → Entry V}

theorem update (t : Table String (Entry V)) (k : String)
    (hf : ∀ e, (f e).load = e.load ∧ (f e).value = e.value) : Shrinks t (t.update k f) := by
  refine ⟨fun k' e h => ?_, Nat.le_of_eq (t.length_update k f)⟩
  rw [Table.get_update] at h
  split at h
  · rename_i hk
    subst hk
    obtain ⟨e', he', rfl⟩ := Option.map_eq_some_iff.mp h
    exact ⟨e', he', (hf e').1.symm, (hf e').2.symm⟩
  · exact ⟨e, h, rfl, rfl⟩

theorem mapValues (t : Table String (Entry V))
    (hf : ∀ e, (f e).load = e.load ∧ (f e).value = e.value) : Shrinks t (t.mapValues f) := by
  refine ⟨fun k e h => ?_, by simp [Table.mapValues]⟩
  rw [Table.get_mapValues] at h
  obtain ⟨e', he', rfl⟩ := Option.map_eq_some_iff.mp h
  exact ⟨e', he', (hf e').1.symm, (hf e').2.symm⟩

theorem touch {k : String} {e : Entry V} (h : t.get k = some e) : Shrinks t (Memo.touch t k e) := by
  refine ⟨fun k' e' h' => ?_, ?_⟩
  · unfold Memo.touch at h'
    rw [Table.get_put] at h'
    split at h'
    · rename_i hk
      cases h'
      exact ⟨e, hk ▸ h, rfl, rfl⟩
    · rename_i hk
      rw [Table.get_erase, if_neg hk] at h'
      exact ⟨e', h', rfl, rfl⟩
  · have hput := (t.erase k).length_put_le k e
    have herase := Table.length_erase_lt (t := t) (k := k) (by simp [h])
    unfold Memo.touch
    omega

end Shrinks

end Tables

section Loads
variable {V : Type}

def Load.wanted (l : Load) : Bool := !l.invalidated && !l.ended

@[simp] theorem Load.wanted_disown (l : Load) : l.disown.wanted = false := rfl

@[simp] theorem Load.key_disown (l : Load) : l.disown.key = l.key := rfl

namespace Memo
variable {m : Memo V} {i : ℕ} {key : String} {l : Load}

/-- A value that load `i` brought is stored. -/
def Holds (m : Memo V) (i : ℕ) : Prop :=
  ∃ k e, (m.entries.get k = some e ∨ m.negatives.get k = some e) ∧ e.load = i

theorem getElem?_abandonFlights (m : Memo V) (i : ℕ) :
    m.abandonFlights.loads[i]? = m.loads[i]?.map fun l =>
      if m.flights.get l.key = some i then l.disown else l := by
  simp only [abandonFlights, List.getElem?_map, List.getElem?_zipIdx, Option.map_map]
  cases m.loads[i]? with
  | none => rfl
  | some l => simp

theorem getElem?_invalidate (m : Memo V) (key : String) (i : ℕ) :
    (m.invalidate key).loads[i]? = m.loads[i]?.map fun l =>
      if l.key = key ∧ m.flights.get key = some i then l.disown else l := by
  simp only [invalidate, List.getElem?_map, List.getElem?_zipIdx, Option.map_map]
  cases m.loads[i]? with
  | none => rfl
  | some l => simp

/-- The maps of values hold no more than those of `m`. -/
structure Fewer (m m' : Memo V) : Prop where
  entries : Shrinks m.entries m'.entries
  negatives : Shrinks m.negatives m'.negatives

namespace Fewer
variable {m' m'' : Memo V}

theorem refl (m : Memo V) : Fewer m m := ⟨.refl _, .refl _⟩

theorem trans (h : Fewer m m') (h' : Fewer m' m'') : Fewer m m'' :=
  ⟨h.entries.trans h'.entries, h.negatives.trans h'.negatives⟩

theorem holds (h : Fewer m m') (hi : m'.Holds i) : m.Holds i := by
  obtain ⟨k, e, hget | hget, rfl⟩ := hi
  · obtain ⟨e', hget', hload, -⟩ := h.entries.entry k e hget
    exact ⟨k, e', .inl hget', hload⟩
  · obtain ⟨e', hget', hload, -⟩ := h.negatives.entry k e hget
    exact ⟨k, e', .inr hget', hload⟩

end Fewer

theorem fewer_load (m : Memo V) (key : String) (background : Bool) :
    Fewer m (m.load key background).2 := by
  unfold load
  cases m.flights.get key with
  | some running => exact .refl m
  | none => exact ⟨.refl _, .refl _⟩

theorem fewer_emptied (m : Memo V) : Fewer m { m with entries := .empty, negatives := .empty } :=
  ⟨.empty _, .empty _⟩

theorem fewer_invalidate (m : Memo V) (key : String) : Fewer m (m.invalidate key) :=
  ⟨.erase _ key, .erase _ key⟩

theorem fewer_invalidateWhere (m : Memo V) (select : V → Bool) :
    Fewer m (m.invalidateWhere select) :=
  ⟨.keep m.entries fun _ e => !select e.value, .keep m.negatives fun _ e => !select e.value⟩

theorem fewer_clear (m : Memo V) : Fewer m m.clear := ⟨.empty _, .empty _⟩

theorem fewer_expireAll (m : Memo V) : Fewer m m.expireAll := by
  have hf : ∀ e : Entry V, ({ e with expired := true, retryAt := 0 } : Entry V).load = e.load ∧
      ({ e with expired := true, retryAt := 0 } : Entry V).value = e.value := fun _ => ⟨rfl, rfl⟩
  exact ⟨.mapValues m.entries hf, .mapValues m.negatives hf⟩

theorem fewer_delay (m : Memo V) (key : String) (retryAt : Int) :
    Fewer m (m.delay key retryAt) := by
  unfold delay
  split
  · refine ⟨.update m.entries key ?_, .refl _⟩
    exact fun _ => ⟨rfl, rfl⟩
  · refine ⟨.refl _, .update m.negatives key ?_⟩
    exact fun _ => ⟨rfl, rfl⟩

/-- Its flights and its loads are those of `m`. -/
structure Settled (m m' : Memo V) : Prop extends Fewer m m' where
  flights : m'.flights = m.flights
  loads : m'.loads = m.loads

theorem Settled.refl (m : Memo V) : Settled m m := ⟨.refl m, rfl, rfl⟩

theorem settled_touch {hit : Entry V} (h : m.stored key = some hit) :
    Settled m (if (m.entries.get key).isSome then { m with entries := touch m.entries key hit }
      else { m with negatives := touch m.negatives key hit }) := by
  unfold stored at h
  cases he : m.entries.get key with
  | some e =>
    simp only [he, Option.some_or, Option.some.injEq] at h
    subst h
    exact ⟨⟨.touch he, .refl _⟩, rfl, rfl⟩
  | none =>
    simp only [he, Option.none_or] at h
    exact ⟨⟨.refl _, .touch h⟩, rfl, rfl⟩

@[simp] theorem stored_load (m : Memo V) (key k : String) (b : Bool) :
    (m.load key b).2.stored k = m.stored k := by
  unfold load
  cases m.flights.get key <;> rfl

theorem holds_of_stored {hit : Entry V} (h : m.stored key = some hit) : m.Holds hit.load := by
  unfold stored at h
  cases he : m.entries.get key with
  | some e =>
    simp only [he, Option.some_or, Option.some.injEq] at h
    exact ⟨key, hit, .inl (h ▸ he), rfl⟩
  | none =>
    simp only [he, Option.none_or] at h
    exact ⟨key, hit, .inr h, rfl⟩

theorem get_cases (o : Options V) (now : Int) (key : String) (m : Memo V) :
    (m.Holds (m.get o now key).1 ∧ Settled m (m.get o now key).2) ∨
    ∃ m' b, Settled m m' ∧ Settled (m'.load key b).2 (m.get o now key).2 ∧
      (m.Holds (m.get o now key).1 ∨ (m.get o now key).1 = (m'.load key b).1) := by
  unfold get
  split
  · exact .inr ⟨_, false, ⟨fewer_emptied m, rfl, rfl⟩, .refl _, .inr rfl⟩
  · cases h : m.stored key with
    | none => exact .inr ⟨m, false, .refl m, .refl _, .inr rfl⟩
    | some hit =>
      dsimp only
      split
      · exact .inl ⟨holds_of_stored h, settled_touch h⟩
      · split
        · by_cases hr : hit.retryAt ≤ now ∧ m.flights.get key = none
          · simp only [hr, and_self, if_true]
            exact .inr ⟨m, true, .refl m, settled_touch (by simpa using h),
              .inl (holds_of_stored h)⟩
          · simp only [hr, if_false]
            exact .inl ⟨holds_of_stored h, settled_touch h⟩
        · exact .inr ⟨m, false, .refl m, .refl _, .inr rfl⟩

theorem settled_delay (m : Memo V) (key : String) (retryAt : Int) :
    Settled m (m.delay key retryAt) := by
  refine ⟨fewer_delay m key retryAt, ?_, ?_⟩ <;> unfold delay <;> split <;> rfl

theorem store_cases (o : Options V) (now : Int) (key : String) (value : V) (i : ℕ) (m : Memo V) :
    Settled m (m.store o now key value i) ∨ ∃ e : Entry V, e.load = i ∧
      (m.store o now key value i = { m with
        entries := ((m.entries.erase key).put key e).newest (Nat.max 1 o.max)
        negatives := m.negatives.erase key } ∨
      m.store o now key value i = { m with
        entries := m.entries.erase key
        negatives := ((m.negatives.erase key).put key e).newest
          (Nat.max 1 (o.negativeMax.getD o.max)) }) := by
  unfold store
  split
  · exact .inl (settled_delay m key _)
  · dsimp only
    split
    · exact .inl ⟨⟨.erase _ _, .erase _ _⟩, rfl, rfl⟩
    · split
      · exact .inr ⟨_, rfl, .inr rfl⟩
      · exact .inr ⟨_, rfl, .inl rfl⟩

theorem store_flights_loads (o : Options V) (now : Int) (key : String) (value : V) (i : ℕ)
    (m : Memo V) : (m.store o now key value i).flights = m.flights ∧
      (m.store o now key value i).loads = m.loads := by
  rcases store_cases o now key value i m with h | ⟨e, -, h | h⟩
  · exact ⟨h.flights, h.loads⟩
  · rw [h]
    exact ⟨rfl, rfl⟩
  · rw [h]
    exact ⟨rfl, rfl⟩

theorem settle_cases (o : Options V) (now : Int) (i : ℕ) (l : Load) (result : Option V)
    (m : Memo V) :
    ∃ m', (m' = m ∨ l.invalidated = false ∧ ∃ value, m' = m.store o now l.key value i) ∧
      m.settle o now i l result = { m' with
        flights := if m.flights.get l.key = some i then m.flights.erase l.key else m.flights
        loads := m.loads.set i { l with ended := true } } := by
  unfold settle
  cases result with
  | none => exact ⟨m, .inl rfl, rfl⟩
  | some value =>
    cases hw : l.invalidated with
    | true => exact ⟨m, .inl rfl, by simp⟩
    | false =>
      obtain ⟨hflights, hloads⟩ := store_flights_loads o now l.key value i m
      exact ⟨_, .inr ⟨rfl, value, rfl⟩, by simp [hflights, hloads]⟩

def Flying (m : Memo V) : Prop :=
  ∀ key i, m.flights.get key = some i ↔ ∃ l, m.loads[i]? = some l ∧ l.key = key ∧ l.wanted

theorem Flying.settled {m' : Memo V} (h : m.Flying) (hs : Settled m m') : m'.Flying := by
  intro key i
  rw [hs.flights, hs.loads]
  exact h key i

theorem Flying.load (h : m.Flying) (key : String) (b : Bool) : (m.load key b).2.Flying := by
  unfold Memo.load
  cases hf : m.flights.get key with
  | some running => exact h
  | none =>
    intro k i
    rw [Table.get_put]
    by_cases hi : i = m.loads.length
    · subst hi
      have hnot : ¬m.flights.get k = some m.loads.length := by
        rw [h k]
        simp
      by_cases hk : k = key
      · simp [hk, Load.wanted]
      · simp [hk, Ne.symm hk, hnot]
    · have hget : (m.loads ++ [{ key, background := b }])[i]? = m.loads[i]? := by
        rcases Nat.lt_or_gt_of_ne hi with hlt | hgt
        · exact List.getElem?_append_left hlt
        · rw [List.getElem?_eq_none (by simp; omega), List.getElem?_eq_none (by omega)]
      rw [hget, ← h k]
      by_cases hk : k = key
      · subst hk
        simp [hf, Ne.symm hi]
      · simp [hk]

theorem Flying.abandonFlights (h : m.Flying) : m.abandonFlights.Flying := by
  intro key i
  rw [getElem?_abandonFlights]
  constructor
  · intro hk
    simp [Memo.abandonFlights] at hk
  · rintro ⟨l', hl', rfl, hw⟩
    obtain ⟨l, hl, rfl⟩ := Option.map_eq_some_iff.mp hl'
    -- a wanted load flies, so it was disowned
    split at hw
    · simp at hw
    · rename_i hno
      exact absurd ((h l.key i).mpr ⟨l, hl, rfl, hw⟩) hno

theorem Flying.invalidate (h : m.Flying) (key : String) : (m.invalidate key).Flying := by
  intro k i
  rw [getElem?_invalidate]
  simp only [Memo.invalidate, Table.get_erase]
  by_cases hk : k = key
  · subst hk
    simp only [if_true, reduceCtorEq, false_iff]
    rintro ⟨l', hl', hkey, hw⟩
    obtain ⟨l, hl, rfl⟩ := Option.map_eq_some_iff.mp hl'
    split at hw
    · simp at hw
    · rename_i hno
      rw [if_neg hno] at hkey
      exact hno ⟨hkey, (h k i).mpr ⟨l, hl, hkey, hw⟩⟩
  · rw [if_neg hk, h k i]
    constructor
    · rintro ⟨l, hl, rfl, hw⟩
      exact ⟨l, by simp [hl, hk], rfl, hw⟩
    · rintro ⟨l', hl', rfl, hw⟩
      obtain ⟨l, hl, rfl⟩ := Option.map_eq_some_iff.mp hl'
      split at hw
      · simp at hw
      · rename_i hno
        exact ⟨l, hl, by rw [if_neg hno], hw⟩

theorem Flying.settle (h : m.Flying) (o : Options V) (now : Int) (hl : m.loads[i]? = some l)
    (result : Option V) : (m.settle o now i l result).Flying := by
  obtain ⟨m', -, hm⟩ := settle_cases o now i l result m
  rw [hm]
  intro key j
  rw [List.getElem?_set]
  by_cases hj : i = j
  · -- the load that is over
    subst hj
    have hlt : i < m.loads.length := (List.getElem?_eq_some_iff.mp hl).1
    have hflies : m.flights.get key = some i → l.key = key := by
      intro hk
      obtain ⟨l', hl', hkey, -⟩ := (h key i).mp hk
      rw [hl] at hl'
      cases hl'
      exact hkey
    simp only [if_true, if_pos hlt, Option.some.injEq, exists_eq_left', Load.wanted]
    by_cases hf : m.flights.get l.key = some i
    · by_cases hk : key = l.key
      · simp [hf, Table.get_erase, hk]
      · have hno : ¬m.flights.get key = some i := fun h => hk (hflies h).symm
        simp [hf, Table.get_erase, hk, hno]
    · simp only [hf, if_false, Bool.not_true, Bool.and_false, Bool.false_eq_true, and_false,
        iff_false]
      intro hk
      exact hf (hflies hk ▸ hk)
  · rw [if_neg hj, ← h key j]
    split
    · rename_i hf
      rw [Table.get_erase]
      by_cases hk : key = l.key
      · subst hk
        simp [hf, hj]
      · simp [hk]
    · rfl

theorem step_settle (o : Options V) (now : Int) (i : ℕ) (result : Option V) (m : Memo V) :
    m.step (.settle o now i result) = m ∨ ∃ l, m.loads[i]? = some l ∧ l.ended = false ∧
      m.step (.settle o now i result) = m.settle o now i l result := by
  simp only [step]
  cases hl : m.loads[i]? with
  | none => exact .inl rfl
  | some l =>
    cases ho : l.ended with
    | true => exact .inl (by simp [ho])
    | false => exact .inr ⟨l, rfl, ho, by simp [ho]⟩

theorem Flying.step (h : m.Flying) (a : Action V) : (m.step a).Flying := by
  cases a with
  | get o now key =>
    rcases get_cases o now key m with ⟨-, hs⟩ | ⟨m', b, hs, hs', -⟩
    · exact h.settled hs
    · exact ((h.settled hs).load key b).settled hs'
  | settle o now i result =>
    rcases step_settle o now i result m with hm | ⟨l, hl, -, hm⟩
    · rw [hm]
      exact h
    · rw [hm]
      exact h.settle o now hl result
  | caught o now key => exact h.settled (settled_delay m key _)
  | invalidate key => exact h.invalidate key
  | invalidateWhere select => exact Flying.abandonFlights (m := { m with entries := _, negatives := _ }) h
  | clear => exact Flying.abandonFlights (m := { m with entries := _, negatives := _ }) h
  | expireAll => exact Flying.abandonFlights (m := { m with entries := _, negatives := _ }) h

structure Moves (m m' : Memo V) : Prop where
  loads : ∀ (i : ℕ) (l : Load), m.loads[i]? = some l →
    ∃ l' : Load, m'.loads[i]? = some l' ∧ l'.key = l.key ∧ (l'.wanted → l.wanted)
  stored : ∀ k e, m'.entries.get k = some e ∨ m'.negatives.get k = some e →
    (∃ e', (m.entries.get k = some e' ∨ m.negatives.get k = some e') ∧ e'.load = e.load) ∨
    ∃ l, m.loads[e.load]? = some l ∧ l.key = k ∧ l.wanted ∧
      ∃ l', m'.loads[e.load]? = some l' ∧ ¬l'.wanted

theorem Fewer.stored {m' : Memo V} (h : Fewer m m') {k : String} {e : Entry V}
    (hget : m'.entries.get k = some e ∨ m'.negatives.get k = some e) :
    ∃ e', (m.entries.get k = some e' ∨ m.negatives.get k = some e') ∧ e'.load = e.load := by
  rcases hget with hget | hget
  · obtain ⟨e', hget', hload, -⟩ := h.entries.entry k e hget
    exact ⟨e', .inl hget', hload⟩
  · obtain ⟨e', hget', hload, -⟩ := h.negatives.entry k e hget
    exact ⟨e', .inr hget', hload⟩

theorem Settled.moves {m' : Memo V} (h : Settled m m') : Moves m m' :=
  ⟨fun i l hl => ⟨l, by rw [h.loads, hl], rfl, fun hw => hw⟩, fun _ _ hget => .inl (h.stored hget)⟩

theorem moves_of_disown {m' : Memo V} (h : Fewer m m') {c : ℕ → Load → Prop}
    [∀ i l, Decidable (c i l)]
    (hloads : ∀ i, m'.loads[i]? = m.loads[i]?.map fun l => if c i l then l.disown else l) :
    Moves m m' := by
  refine ⟨fun i l hl => ?_, fun _ _ hget => .inl (h.stored hget)⟩
  refine ⟨if c i l then l.disown else l, by rw [hloads, hl]; rfl, ?_, ?_⟩
  · split <;> rfl
  · split
    · simp
    · exact fun hw => hw

theorem getElem?_load (hl : m.loads[i]? = some l) (key : String) (b : Bool) :
    (m.load key b).2.loads[i]? = some l := by
  unfold load
  cases m.flights.get key with
  | some running => exact hl
  | none => exact (List.getElem?_append_left (List.getElem?_eq_some_iff.mp hl).1).trans hl

theorem moves_get (o : Options V) (now : Int) (key : String) (m : Memo V) :
    Moves m (m.get o now key).2 := by
  rcases get_cases o now key m with ⟨-, hs⟩ | ⟨m', b, hs, hs', -⟩
  · exact hs.moves
  · have hfewer : Fewer m (m.get o now key).2 :=
      (hs.toFewer.trans (fewer_load m' key b)).trans hs'.toFewer
    refine ⟨fun i l hl => ⟨l, ?_, rfl, fun hw => hw⟩, fun _ _ hget => .inl (hfewer.stored hget)⟩
    rw [hs'.loads]
    exact getElem?_load (hs.loads ▸ hl) key b

theorem store_stored (o : Options V) (now : Int) (value : V) {k : String} {e : Entry V}
    (hget : (m.store o now key value i).entries.get k = some e ∨
      (m.store o now key value i).negatives.get k = some e) :
    (∃ e', (m.entries.get k = some e' ∨ m.negatives.get k = some e') ∧ e'.load = e.load) ∨
      k = key ∧ e.load = i := by
  have hput : ∀ {t : Table String (Entry V)} {e' : Entry V} {n : ℕ}, e'.load = i →
      (((t.erase key).put key e').newest n).get k = some e →
      t.get k = some e ∨ k = key ∧ e.load = i := by
    intro t e' n he' h
    have h := Table.get_newest h
    rw [Table.get_put, Table.get_erase] at h
    by_cases hk : k = key
    · rw [if_pos hk] at h
      cases h
      exact .inr ⟨hk, he'⟩
    · rw [if_neg hk, if_neg hk] at h
      exact .inl h
  rcases store_cases o now key value i m with h | ⟨e', he', h | h⟩
  · exact .inl (h.stored hget)
  all_goals
    rw [h] at hget
    rcases hget with hget | hget
  · exact (hput he' hget).imp_left fun h => ⟨e, .inl h, rfl⟩
  · obtain ⟨e'', h'', hload, -⟩ := (Shrinks.erase m.negatives key).entry k e hget
    exact .inl ⟨e'', .inr h'', hload⟩
  · obtain ⟨e'', h'', hload, -⟩ := (Shrinks.erase m.entries key).entry k e hget
    exact .inl ⟨e'', .inl h'', hload⟩
  · exact (hput he' hget).imp_left fun h => ⟨e, .inr h, rfl⟩

theorem moves_settle (o : Options V) (now : Int) (hl : m.loads[i]? = some l) (ho : l.ended = false)
    (result : Option V) : Moves m (m.settle o now i l result) := by
  obtain ⟨m', hm', hm⟩ := settle_cases o now i l result m
  rw [hm]
  constructor
  · intro j l' hl'
    by_cases hj : i = j
    · subst hj
      rw [hl] at hl'
      cases hl'
      have hlt : i < m.loads.length := (List.getElem?_eq_some_iff.mp hl).1
      exact ⟨{ l with ended := true }, by simp [hlt], rfl, by simp [Load.wanted]⟩
    · exact ⟨l', by simp [hj, hl'], rfl, fun hw => hw⟩
  · intro k e hget
    rcases hm' with rfl | ⟨hinv, value, rfl⟩
    · exact .inl ⟨e, hget, rfl⟩
    · refine (store_stored o now value hget).imp_right fun h => ?_
      have hlt : i < m.loads.length := (List.getElem?_eq_some_iff.mp hl).1
      exact ⟨l, by rw [h.2, hl], h.1.symm, by simp [Load.wanted, hinv, ho],
        { l with ended := true }, by simp [h.2, hlt], by simp [Load.wanted]⟩

theorem moves_step (a : Action V) (m : Memo V) : Moves m (m.step a) := by
  cases a with
  | get o now key => exact moves_get o now key m
  | settle o now i result =>
    rcases step_settle o now i result m with hm | ⟨l, hl, ho, hm⟩
    · rw [hm]
      exact (Settled.refl m).moves
    · rw [hm]
      exact moves_settle o now hl ho result
  | caught o now key => exact (settled_delay m key _).moves
  | invalidate key =>
    exact moves_of_disown (fewer_invalidate m key) (getElem?_invalidate m key)
  | invalidateWhere select =>
    exact moves_of_disown (fewer_invalidateWhere m select)
      (getElem?_abandonFlights { m with entries := _, negatives := _ })
  | clear =>
    exact moves_of_disown (fewer_clear m)
      (getElem?_abandonFlights { m with entries := _, negatives := _ })
  | expireAll =>
    exact moves_of_disown (fewer_expireAll m)
      (getElem?_abandonFlights { m with entries := _, negatives := _ })

def Homed (m : Memo V) : Prop :=
  ∀ k e, m.entries.get k = some e ∨ m.negatives.get k = some e →
    ∃ l, m.loads[e.load]? = some l ∧ l.key = k ∧ ¬l.wanted

theorem Homed.step (h : m.Homed) (a : Action V) : (m.step a).Homed := by
  intro k e hget
  have hm := moves_step a m
  rcases hm.stored k e hget with ⟨e', hget', hload⟩ | ⟨l, hl, hkey, -, l', hl', hw'⟩
  · obtain ⟨l, hl, hkey, hw⟩ := h k e' hget'
    obtain ⟨l', hl', hkey', hw'⟩ := hm.loads _ l hl
    exact ⟨l', hload ▸ hl', hkey'.trans hkey, fun h => hw (hw' h)⟩
  · obtain ⟨l'', hl'', hkey'', -⟩ := hm.loads _ l hl
    rw [hl'] at hl''
    cases hl''
    exact ⟨l', hl', hkey''.trans hkey, hw'⟩

def Apart (m : Memo V) : Prop := ∀ k, m.entries.get k = none ∨ m.negatives.get k = none

theorem Apart.fewer {m' : Memo V} (h : m.Apart) (hf : Fewer m m') : m'.Apart := by
  intro k
  refine (h k).imp (fun hn => ?_) (fun hn => ?_)
  · refine Option.eq_none_iff_forall_ne_some.mpr fun e he => ?_
    obtain ⟨e', he', -⟩ := hf.entries.entry k e he
    simp [hn] at he'
  · refine Option.eq_none_iff_forall_ne_some.mpr fun e he => ?_
    obtain ⟨e', he', -⟩ := hf.negatives.entry k e he
    simp [hn] at he'

theorem Apart.store (h : m.Apart) (o : Options V) (now : Int) (key : String) (value : V) (i : ℕ) :
    (m.store o now key value i).Apart := by
  have hput : ∀ {t : Table String (Entry V)} {e : Entry V} {n : ℕ} {k : String}, k ≠ key →
      t.get k = none → (((t.erase key).put key e).newest n).get k = none := by
    intro t e n k hk hn
    refine Option.eq_none_iff_forall_ne_some.mpr fun e' he' => ?_
    have he' := Table.get_newest he'
    rw [Table.get_put_ne _ _ hk, Table.get_erase, if_neg hk, hn] at he'
    cases he'
  have herase : ∀ {t : Table String (Entry V)} {k : String}, t.get k = none →
      (t.erase key).get k = none := by
    intro t k hn
    rw [Table.get_erase, hn, ite_self]
  rcases store_cases o now key value i m with hs | ⟨e, -, hs | hs⟩
  · exact h.fewer hs.toFewer
  · rw [hs]
    intro k
    by_cases hk : k = key
    · exact .inr (by simp [hk, Table.get_erase])
    · exact (h k).imp (hput hk) herase
  · rw [hs]
    intro k
    by_cases hk : k = key
    · exact .inl (by simp [hk, Table.get_erase])
    · exact (h k).imp herase (hput hk)

theorem step_maps (a : Action V) (m : Memo V) :
    Fewer m (m.step a) ∨ ∃ o now key value i, a = .settle o now i (some value) ∧
      (m.step a).entries = (m.store o now key value i).entries ∧
      (m.step a).negatives = (m.store o now key value i).negatives := by
  cases a with
  | get o now key =>
    rcases get_cases o now key m with ⟨-, hs⟩ | ⟨m', b, hs, hs', -⟩
    · exact .inl hs.toFewer
    · exact .inl ((hs.toFewer.trans (fewer_load m' key b)).trans hs'.toFewer)
  | settle o now i result =>
    rcases step_settle o now i result m with hm | ⟨l, -, -, hm⟩
    · rw [hm]
      exact .inl (.refl m)
    · rw [hm]
      obtain ⟨m', hm', hs⟩ := settle_cases o now i l result m
      cases result with
      | none => exact .inl ⟨.refl _, .refl _⟩
      | some value =>
        cases hw : l.invalidated with
        | true =>
          refine .inl ?_
          unfold settle
          simp only [hw, if_true]
          exact ⟨.refl _, .refl _⟩
        | false =>
          refine .inr ⟨o, now, l.key, value, i, rfl, ?_, ?_⟩ <;> simp [settle, hw]
  | caught o now key => exact .inl (fewer_delay m key _)
  | invalidate key => exact .inl (fewer_invalidate m key)
  | invalidateWhere select => exact .inl (fewer_invalidateWhere m select)
  | clear => exact .inl (fewer_clear m)
  | expireAll => exact .inl (fewer_expireAll m)

theorem Apart.step (h : m.Apart) (a : Action V) : (m.step a).Apart := by
  rcases step_maps a m with hf | ⟨o, now, key, value, i, -, he, hn⟩
  · exact h.fewer hf
  · have hs := h.store o now key value i
    intro k
    rw [he, hn]
    exact hs k

/-- The main map holds `M` values at most, the negative one `N`; at least one each. -/
def Within (M N : ℕ) (m : Memo V) : Prop :=
  m.entries.rows.length ≤ Nat.max 1 M ∧ m.negatives.rows.length ≤ Nat.max 1 N

theorem Within.fewer {M N : ℕ} {m' : Memo V} (h : m.Within M N) (hf : Fewer m m') : m'.Within M N :=
  ⟨Nat.le_trans hf.entries.length h.1, Nat.le_trans hf.negatives.length h.2⟩

theorem Within.step {M N : ℕ} (h : m.Within M N) {a : Action V} (ha : a.Bounded M N) :
    (m.step a).Within M N := by
  rcases step_maps a m with hf | ⟨o, now, key, value, i, rfl, he, hn⟩
  · exact h.fewer hf
  · obtain ⟨hM, hN⟩ := ha
    have hmax : Nat.max 1 o.max ≤ Nat.max 1 M ∧
        Nat.max 1 (o.negativeMax.getD o.max) ≤ Nat.max 1 N := by
      constructor <;> simp only [Nat.max_def] <;> split <;> split <;> omega
    unfold Within
    rw [he, hn]
    rcases store_cases o now key value i m with hs | ⟨e, -, hs | hs⟩
    · exact h.fewer hs.toFewer
    · rw [hs]
      exact ⟨Nat.le_trans (Table.length_newest_le _ _) hmax.1,
        Nat.le_trans (Table.length_erase_le _ _) h.2⟩
    · rw [hs]
      exact ⟨Nat.le_trans (Table.length_erase_le _ _) h.1,
        Nat.le_trans (Table.length_newest_le _ _) hmax.2⟩

/-- Load `i` was begun, its value is not stored and will not be. -/
structure Gone (m : Memo V) (i : ℕ) : Prop where
  begun : ∃ l, m.loads[i]? = some l ∧ ¬l.wanted
  held : ¬m.Holds i

theorem Gone.step (h : m.Gone i) (a : Action V) : (m.step a).Gone i := by
  have hm := moves_step a m
  obtain ⟨l, hl, hw⟩ := h.begun
  refine ⟨?_, ?_⟩
  · obtain ⟨l', hl', -, hw'⟩ := hm.loads i l hl
    exact ⟨l', hl', fun h => hw (hw' h)⟩
  · rintro ⟨k, e, hget, rfl⟩
    rcases hm.stored k e hget with ⟨e', hget', hload⟩ | ⟨l', hl', -, hw', -⟩
    · exact h.held ⟨k, e', hget', hload⟩
    · rw [hl] at hl'
      cases hl'
      exact hw hw'

theorem Gone.get (h : m.Gone i) (hf : m.Flying) (o : Options V) (now : Int) (key : String) :
    (m.get o now key).1 ≠ i := by
  rintro rfl
  have hload : ∀ {m' : Memo V} {b : Bool}, Settled m m' → (m'.load key b).1 ≠ (m.get o now key).1 := by
    intro m' b hs he
    obtain ⟨l, hl, hw⟩ := h.begun
    unfold load at he
    cases hr : m'.flights.get key with
    | some running =>
      rw [hs.flights] at hr
      obtain ⟨l', hl', -, hw'⟩ := (hf key running).mp hr
      simp only [hs.flights, hr] at he
      rw [← he, hl'] at hl
      cases hl
      exact hw hw'
    | none =>
      simp only [hr, hs.loads] at he
      rw [← he] at hl
      simp at hl
  rcases get_cases o now key m with ⟨hh, -⟩ | ⟨m', b, hs, -, hh | hh⟩
  · exact h.held hh
  · exact h.held hh
  · exact hload hs hh.symm

/-- The step says of load `i`'s value that it is out of date. -/
def Forgets (m : Memo V) (i : ℕ) : Action V → Prop
  | .invalidate key => ∃ l, m.loads[i]? = some l ∧ l.key = key
  | .invalidateWhere select => ∀ k e, m.entries.get k = some e ∨ m.negatives.get k = some e →
      e.load = i → select e.value
  | .clear => True
  | .expireAll => ¬m.Holds i
  | _ => False

theorem not_wanted_abandonFlights (h : m.Flying) (hl : m.abandonFlights.loads[i]? = some l) :
    ¬l.wanted := by
  intro hw
  have hf := (h.abandonFlights l.key i).mpr ⟨l, hl, rfl, hw⟩
  simp [abandonFlights] at hf

theorem gone_of_abandonFlights (h : m.Flying) (hi : i < m.loads.length) (hheld : ¬m.Holds i) :
    m.abandonFlights.Gone i := by
  have hlt : i < m.abandonFlights.loads.length := by simpa [abandonFlights] using hi
  have hl := List.getElem?_eq_getElem hlt
  exact ⟨⟨_, hl, not_wanted_abandonFlights h hl⟩, hheld⟩

theorem gone_of_forgets (hf : m.Flying) (hh : m.Homed) (hi : i < m.loads.length) {a : Action V}
    (ha : m.Forgets i a) : (m.step a).Gone i := by
  cases a with
  | get o now key => exact ha.elim
  | settle o now i result => exact ha.elim
  | caught o now key => exact ha.elim
  | invalidate key =>
    obtain ⟨l, hl, rfl⟩ := ha
    refine ⟨?_, ?_⟩
    · refine ⟨if l.key = l.key ∧ m.flights.get l.key = some i then l.disown else l, ?_, ?_⟩
      · exact (getElem?_invalidate m l.key i).trans (by rw [hl]; rfl)
      · split
        · simp
        · rename_i hno
          exact fun hw => hno ⟨rfl, (hf l.key i).mpr ⟨l, hl, rfl, hw⟩⟩
    · rintro ⟨k, e, hget, rfl⟩
      obtain ⟨e', hget', hload⟩ := (fewer_invalidate m l.key).stored hget
      obtain ⟨l', hl', hkey, -⟩ := hh k e' hget'
      rw [hload, hl] at hl'
      cases hl'
      subst hkey
      simp [Memo.step, invalidate, Table.get_erase] at hget
  | invalidateWhere select =>
    refine gone_of_abandonFlights (m := { m with
      entries := m.entries.keep fun _ e => !select e.value
      negatives := m.negatives.keep fun _ e => !select e.value }) hf hi ?_
    rintro ⟨k, e, hget, he⟩
    simp only [Table.get_keep, Option.filter_eq_some_iff] at hget
    rcases hget with ⟨hget, hsel⟩ | ⟨hget, hsel⟩
    · simp [ha k e (.inl hget) he] at hsel
    · simp [ha k e (.inr hget) he] at hsel
  | clear =>
    refine gone_of_abandonFlights (m := { m with entries := .empty, negatives := .empty }) hf hi ?_
    rintro ⟨k, e, hget, -⟩
    simp at hget
  | expireAll =>
    have hgone := gone_of_abandonFlights hf hi ha
    exact ⟨hgone.begun, fun h => ha ((fewer_expireAll m).holds h)⟩

end Memo

def reached {V : Type} (as : List (Action V)) : Memo V := run Memo.step {} as

theorem flying_reached (as : List (Action V)) : (reached as).Flying :=
  run_invariant (I := Memo.Flying) (fun _ a h => h.step a) (fun key i => by simp) as

theorem homed_reached (as : List (Action V)) : (reached as).Homed :=
  run_invariant (I := Memo.Homed) (fun _ a h => h.step a) (fun k e h => by simp at h) as

theorem gone_reached {m : Memo V} {i : ℕ} (h : m.Gone i) (as : List (Action V)) :
    (run Memo.step m as).Gone i :=
  run_invariant (I := fun m : Memo V => m.Gone i) (fun _ a h => h.step a) h as

end Loads

/-- Once a value's load is out of date it is neither stored nor served, whatever follows; no key
has a value in both maps, no map is larger than its bound, and each key has one load at most
that is wanted. -/
theorem memo_fresh {V : Type} (as : List (Action V)) :
    (∀ bs a cs i, as = bs ++ a :: cs → i < (reached bs).loads.length → (reached bs).Forgets i a →
      ¬(reached as).Holds i ∧ ∀ o now key, ((reached as).get o now key).1 ≠ i) ∧
    (reached as).Apart ∧
    (∀ M N, (∀ a ∈ as, a.Bounded M N) → (reached as).Within M N) ∧
    (∀ (i j : ℕ) (l l' : Load), (reached as).loads[i]? = some l → (reached as).loads[j]? = some l' →
      l.key = l'.key → l.wanted → l'.wanted → i = j) ∧
    ∀ (i : ℕ) (l : Load), (reached as).loads[i]? = some l → l.wanted → ¬(reached as).Holds i := by
  have hf := flying_reached as
  refine ⟨?_, ?_, ?_, ?_, ?_⟩
  · rintro bs a cs i rfl hi ha
    have hgone : (reached (bs ++ a :: cs)).Gone i := by
      unfold reached
      rw [Lib.run_append]
      exact gone_reached (Memo.gone_of_forgets (flying_reached bs) (homed_reached bs) hi ha) cs
    exact ⟨hgone.held, fun o now key => hgone.get hf o now key⟩
  · exact run_invariant (I := Memo.Apart) (fun _ a h => h.step a) (fun k => by simp) as
  · intro M N hbound
    exact run_keeps (I := Memo.Within M N) (C := fun _ a => a.Bounded M N) (fun _ _ h ha => h.step ha)
      ⟨Nat.zero_le _, Nat.zero_le _⟩ (meets_of_forall hbound _)
  · intro i j l l' hl hl' hkey hw hw'
    have hi := (hf l.key i).mpr ⟨l, hl, rfl, hw⟩
    have hj := (hf l.key j).mpr ⟨l', hl', hkey.symm, hw'⟩
    rw [hi] at hj
    exact Option.some.inj hj
  · rintro i l hl hw ⟨k, e, hget, rfl⟩
    obtain ⟨l', hl', -, hw'⟩ := homed_reached as k e hget
    rw [hl] at hl'
    cases hl'
    exact hw' hw

def brief : Options ℕ := { ttlMs := fun _ => 10, max := 5 }

theorem memo_fresh_clear :
    ¬(reached [.get brief 0 "a", .clear, .settle brief 1 0 (some 7)]).Holds 0 ∧
      ((reached [.get brief 0 "a", .clear, .settle brief 1 0 (some 7)]).get brief 2 "a").1 ≠ 0 := by
  have h := (memo_fresh [.get brief 0 "a", .clear, .settle brief 1 0 (some 7)]).1
    [.get brief 0 "a"] .clear [.settle brief 1 0 (some 7)] 0 rfl (by decide) trivial
  exact ⟨h.1, h.2 brief 2 "a"⟩

/-- A key that is served stale has a value and a running load at once, and what `expireAll` was
told of is served after it. -/
theorem served_stale :
    let stale := reached [.get brief 0 "a", .settle brief 1 0 (some 7), .get brief 20 "a"]
    let expired := reached [.get brief 0 "a", .settle brief 1 0 (some 7), .expireAll]
    (stale.entries.get "a").isSome ∧ (stale.flights.get "a").isSome ∧
      (expired.get brief 2 "a").1 = 0 := by
  decide +kernel

end Kindred.MemoCache
