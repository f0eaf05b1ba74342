import Kindred.Rest.Grammar

/-! The parsers' fuel lasts: what they read, they take off the text. -/

namespace Kindred.Rest
open Lib Lib.Tx Lib.Parser

variable {u : Unicode} {cs : List Char} {α β : Type} {p : Parser α}
  {forest : Parser (List SelectItem)} {src : String} {e : Fault} {s : String}
  {Q : α → List Char → Prop}

abbrev Shrinks (p : Parser α) (cs : List Char) : Prop :=
  Reads p cs fun _ cs' => cs'.length ≤ cs.length

abbrev Consumes (p : Parser α) (cs : List Char) : Prop :=
  Reads p cs fun _ cs' => cs'.length < cs.length

abbrev Offers (p : Parser (Option α)) (cs : List Char) : Prop :=
  Reads p cs fun a cs' => cs'.length + (if a.isSome then 1 else 0) ≤ cs.length

theorem Consumes.shrinks (h : Consumes p cs) : Shrinks p cs :=
  h.mono fun _ _ hlt => Nat.le_of_lt hlt

theorem Offers.shrinks {p : Parser (Option α)} (h : Offers p cs) : Shrinks p cs :=
  h.mono fun _ _ hle => by omega

variable {f : α → Parser β} {item : Parser α} {why : String} {mode : ValueMode}

theorem Shrinks.bind (hp : Shrinks p cs) (hf : ∀ a ds, ds.length ≤ cs.length → Shrinks (f a) ds)
    : Shrinks (p >>= f) cs :=
  Runs.bind (hp.mono fun a ds hle => (hf a ds hle).mono fun _ _ hle' => by omega)

theorem Consumes.bind (hp : Consumes p cs) (hf : ∀ a ds, ds.length < cs.length → Shrinks (f a) ds)
    : Consumes (p >>= f) cs :=
  Runs.bind (hp.mono fun a ds hlt => (hf a ds hlt).mono fun _ _ hle => by omega)

theorem pure_shrinks {a : α} : Shrinks (pure a) cs := Runs.pure (Nat.le_refl _)

theorem eat_shrinks : Shrinks (eat s) cs :=
  eat_reads (fun _ h => by omega) (Nat.le_refl _)

theorem ite_eat_shrinks {q : Parser α} (hp : ∀ ds, ds.length ≤ cs.length → Shrinks p ds)
    (hq : Shrinks q cs) : Shrinks (do if ← eat s then p else q) cs :=
  eat_bind_reads (fun ds h => (hp ds (by omega)).mono fun _ _ hle => by omega) hq

theorem ite_eat_offers (hs : 0 < s.toList.length)
    (hp : ∀ ds, ds.length < cs.length → Shrinks p ds) :
    Offers (do if ← eat s then return some (← p) else return none) cs := by
  refine eat_bind_reads (fun ds h => ?_) (Runs.pure (by simp))
  refine Runs.bind ((hp ds (by omega)).mono fun _ ds' hle => Runs.pure ?_)
  simp only [Option.isSome_some, if_true]
  omega

theorem expect_shrinks : Shrinks (expect s) cs :=
  expect_reads.mono fun _ _ h => by omega

theorem many_shrinks {step : Parser (Option α)}
    (h : ∀ ds, ds.length ≤ cs.length → Offers step ds) : Shrinks (many step) cs :=
  many_reads h

theorem commaList_shrinks (h : ∀ ds, ds.length ≤ cs.length → Shrinks item ds)
    : Shrinks (commaList item) cs := by
  refine (h cs (Nat.le_refl _)).bind fun first ds hds => ?_
  have hmore : ∀ es, es.length ≤ ds.length → Offers
      (do if ← eat "," then return some (← item) else return none) es := by
    intro es hes
    exact ite_eat_offers (by decide) fun fs hfs => h fs (by omega)
  exact (many_shrinks hmore).bind fun _ _ _ => pure_shrinks

theorem commaListToEnd_shrinks (h : ∀ ds, ds.length ≤ cs.length → Shrinks item ds)
    : Shrinks (commaListToEnd item) cs := by
  refine (h cs (Nat.le_refl _)).bind fun first ds hds => ?_
  refine (many_shrinks fun es hes => ?_).bind fun _ _ _ => pure_shrinks
  refine Runs.bind (done_reads (Runs.ite (fun _ => Runs.pure (by simp)) fun _ => ?_))
  refine Runs.bind (expect_reads.mono fun _ fs hfs => ?_)
  have hcomma : ",".toList.length = 1 := by decide
  refine Runs.bind ((h fs (by omega)).mono fun _ gs hgs => Runs.pure ?_)
  simp only [Option.isSome_some, if_true]
  omega

theorem parenthesized_consumes {items : Parser α}
    (h : ∀ ds, ds.length < cs.length → Shrinks items ds) : Consumes (parenthesized items) cs := by
  have hopen : "(".toList.length = 1 := by decide
  refine Consumes.bind (expect_reads.mono fun _ _ hle => by omega) fun _ ds hds => ?_
  refine (h ds hds).bind fun _ es _ => ?_
  exact expect_shrinks.bind fun _ _ _ => pure_shrinks

theorem attempt_shrinks (h : Shrinks p cs) : Shrinks (attempt p) cs :=
  attempt_reads h (Nat.le_refl _)

theorem reads_of_eq {q : Parser β} {ds : List Char} (f : β → α)
    (h : p cs = (q ds).map fun r => (f r.1, r.2)) (hq : Reads q ds fun b cs' => Q (f b) cs') :
    Reads p cs Q := by
  unfold Reads Runs at *
  rw [h]
  cases hr : q ds with
  | ok r => rw [hr] at hq; exact hq
  | error e => rw [hr] at hq; exact hq

theorem reads_of_ok {r : α × List Char} (h : p cs = .ok r) (hr : Q r.1 r.2) : Reads p cs Q := by
  unfold Reads Runs
  rw [h]
  exact hr

theorem quotedTail_shrinks (cs : List Char) : Shrinks quotedTail cs := by
  have hstop : ∀ ds why rest, quotedTail ds = .error (.stop why rest) → Shrinks quotedTail ds := by
    intro ds why rest h
    simp [Shrinks, Reads, Runs, h]
  induction cs using quotedTail.induct with
  | case1 => exact hstop _ _ _ rfl
  | case2 ds => exact reads_of_ok (r := ([], ds)) rfl (by simp)
  | case3 => exact hstop _ _ _ rfl
  | case4 c ds ih =>
    have heq : quotedTail ('\\' :: c :: ds) = (quotedTail ds).map fun r => (c :: r.1, r.2) := by
      rw [quotedTail]
    exact reads_of_eq (c :: ·) heq (ih.mono fun _ _ hle => by simp only [List.length_cons]; omega)
  | case5 c ds hquote hlast hescape ih =>
    have heq : quotedTail (c :: ds) = (quotedTail ds).map fun r => (c :: r.1, r.2) := by
      rw [quotedTail]
      all_goals assumption
    exact reads_of_eq (c :: ·) heq (ih.mono fun _ _ hle => by simp only [List.length_cons]; omega)

theorem quoted_offers : Offers quoted cs := by
  cases cs with
  | nil => exact Nat.le_refl _
  | cons c ds =>
    by_cases hc : c = '"'
    · subst hc
      have heq : quoted ('"' :: ds) =
          (quotedTail ds).map fun r => (some (String.ofList r.1), r.2) := rfl
      refine reads_of_eq (fun r => some (String.ofList r)) heq ((quotedTail_shrinks ds).mono fun _ _ hle => ?_)
      simp only [Option.isSome_some, if_true, List.length_cons]
      omega
    · exact reads_of_ok (r := (none, c :: ds)) (by simp [quoted, hc]) (by simp)

theorem identifier_consumes : Consumes (identifier u) cs := by
  refine Runs.bind (takeWhile_reads.mono fun name ds h => Runs.ite (fun _ => fail_reads) fun hne => ?_)
  have hpos : 0 < name.length := List.length_pos_iff.mpr (by simpa using hne)
  exact Runs.pure (by omega)

theorem hyphenated_offers : Offers (hyphenated u) cs := by
  have hnone : hyphenated u cs = .ok (none, cs) → Offers (hyphenated u) cs :=
    fun h => reads_of_ok h (by simp)
  match cs with
  | [] => exact hnone rfl
  | [_] => exact hnone (by simp [hyphenated])
  | a :: c :: ds =>
    by_cases ha : a = '-'
    · subst ha
      by_cases hc : c ≠ '>' ∧ isIdentChar u c
      · have heq : hyphenated u ('-' :: c :: ds) =
            (identifier u (c :: ds)).map fun r => (some ("-" ++ r.1), r.2) := by
          simp only [hyphenated, if_pos hc, List.tail_cons]
          rfl
        refine reads_of_eq (fun r => some ("-" ++ r)) heq (identifier_consumes.mono fun _ _ hlt => ?_)
        simp only [Option.isSome_some, if_true, List.length_cons] at *
        omega
      · exact hnone (by simp only [hyphenated, if_neg hc])
    · exact hnone (by simp [hyphenated, ha])

theorem fieldName_consumes : Consumes (fieldName u) cs := by
  refine Runs.bind (quoted_offers.mono fun q ds hq => ?_)
  cases q with
  | some q =>
    simp only [Option.isSome_some, if_true] at hq
    exact Runs.pure (by omega)
  | none =>
    refine Runs.bind (identifier_consumes.mono fun name es hes => ?_)
    refine Runs.bind ((many_shrinks fun fs _ => hyphenated_offers).mono fun _ fs hfs => ?_)
    exact Runs.pure (by simp at hq; omega)

theorem integerPrefix_length {index after : List Char}
    (h : integerPrefix cs = some (index, after)) : after.length < cs.length := by
  have hdrop : ∀ ds : List Char, ¬(ds.takeWhile Char.isDigit).isEmpty →
      (ds.dropWhile Char.isDigit).length < ds.length := by
    intro ds hne
    have hsum := congrArg List.length (List.takeWhile_append_dropWhile (p := Char.isDigit) (l := ds))
    have hpos : 0 < (ds.takeWhile Char.isDigit).length :=
      List.length_pos_iff.mpr (by simpa using hne)
    simp only [List.length_append] at hsum
    omega
  unfold integerPrefix at h
  split at h
  rename_i sign ds hsign
  dsimp only at h
  split at h
  · cases h
  · rename_i hne
    cases h
    have hlt := hdrop ds hne
    split at hsign <;> cases hsign
    · simp only [List.length_cons]
      omega
    · exact hlt

theorem jsonKey_consumes {arrow : Arrow} : Consumes (jsonKey u arrow) cs := by
  have hname : Consumes (do return some (JsonOp.mk arrow (← fieldName u) false)) cs :=
    fieldName_consumes.bind fun _ _ _ => pure_shrinks
  refine Runs.bind (Runs.get ?_)
  split
  · rename_i index after h
    refine Runs.ite (fun _ => ?_) fun _ => hname
    exact Runs.bind (Runs.set (Runs.pure (integerPrefix_length h)))
  · exact hname

theorem jsonOp_offers : Offers (jsonOp u) cs := by
  have hkey : ∀ arrow ds, ds.length < cs.length →
      Reads (jsonKey u arrow) ds fun a cs' =>
        cs'.length + (if a.isSome then 1 else 0) ≤ cs.length := by
    intro arrow ds hds
    exact jsonKey_consumes.mono fun a es hes => by split <;> omega
  have htext : "->>".toList.length = 3 := by decide
  have hjson : "->".toList.length = 2 := by decide
  refine eat_bind_reads (fun ds hds => hkey _ ds (by omega)) ?_
  exact eat_bind_reads (fun ds hds => hkey _ ds (by omega)) (Runs.pure (by simp))

theorem jsonPath_shrinks : Shrinks (jsonPath u) cs := many_shrinks fun _ _ => jsonOp_offers

theorem field_consumes : Consumes (field u) cs :=
  fieldName_consumes.bind fun _ _ _ => jsonPath_shrinks.bind fun _ _ _ => pure_shrinks

theorem castType_shrinks : Shrinks (castType u) cs := by
  refine ite_eat_shrinks (fun ds _ => ?_) pure_shrinks
  refine Runs.bind (takeWhile_reads.mono fun name es hes => ?_)
  exact Runs.ite (fun _ => fail_reads) fun _ => Runs.pure (by omega)

theorem optionalAlias_shrinks : Shrinks (optionalAlias u) cs := by
  have h : Shrinks (attempt (fieldName u)) cs := attempt_shrinks fieldName_consumes.shrinks
  unfold Shrinks Reads Runs at h ⊢
  unfold optionalAlias
  cases hr : attempt (fieldName u) cs with
  | error e =>
    rw [hr] at h
    exact h
  | ok r =>
    obtain ⟨name, ds⟩ := r
    rw [hr] at h
    cases name with
    | none => simp
    | some name =>
      match ds with
      | [] => simp
      | c :: es =>
        by_cases hc : c = ':'
        · subst hc
          simp only [List.length_cons] at h
          simp only
          split
          · rename_i hsplit
            split at hsplit <;> cases hsplit <;> simp <;> omega
          · rename_i hsplit
            split at hsplit <;> cases hsplit
        · simp [hc]

theorem expectItemEnd_shrinks : Shrinks (expectItemEnd why) cs :=
  Runs.bind (Runs.get (Runs.ite (fun _ => pure_shrinks) fun _ => fail_reads))

theorem eatWord_shrinks {word : String} : Shrinks (eatWord u word) cs := by
  unfold Shrinks Reads Runs eatWord
  dsimp only
  split
  · rename_i h
    split at h <;> cases h
    · simp
    · simp
  · rename_i h
    split at h <;> cases h

theorem embedParam_shrinks {out : EmbedParams} : Shrinks (embedParam u out) cs := by
  refine eatWord_shrinks.bind fun _ ds _ => Runs.ite (fun _ => pure_shrinks) fun _ => ?_
  refine eatWord_shrinks.bind fun _ es _ => Runs.ite (fun _ => pure_shrinks) fun _ => ?_
  exact fieldName_consumes.shrinks.bind fun _ _ _ => pure_shrinks

theorem embedParams_shrinks : Shrinks (embedParams u) cs := by
  refine ite_eat_shrinks (fun ds _ => embedParam_shrinks.bind fun _ es _ => ?_) pure_shrinks
  exact ite_eat_shrinks (fun fs _ => embedParam_shrinks) pure_shrinks

theorem aggregateSuffix_shrinks : Shrinks aggregateSuffix cs := by
  have hrest : ∀ (s : String) (a : AggregateFn) {q : Parser (Option AggregateFn)}, Shrinks q cs →
      Shrinks (do if ← eat s then return some a else q) cs :=
    fun s a q hq => ite_eat_shrinks (fun _ _ => pure_shrinks) hq
  exact hrest _ _ (hrest _ _ (hrest _ _ (hrest _ _ (hrest _ _ pure_shrinks))))

theorem spreadItem_consumes (h : ∀ ds, ds.length < cs.length → Shrinks forest ds) :
    Consumes (spreadItem u forest) cs := by
  refine fieldName_consumes.bind fun _ ds hds => embedParams_shrinks.bind fun _ es hes => ?_
  exact (parenthesized_consumes fun fs hfs => h fs (by omega)).shrinks.bind fun _ _ _ => pure_shrinks

theorem relationItem_offers (h : ∀ ds, ds.length < cs.length → Shrinks forest ds) :
    Offers (relationItem u forest) cs := by
  have hback : ∀ ds, Reads (do set cs; return none : Parser (Option SelectItem)) ds fun a cs' =>
      cs'.length + (if a.isSome then 1 else 0) ≤ cs.length :=
    fun ds => Runs.bind (Runs.set (Runs.pure (by simp)))
  refine Runs.bind (Runs.get (Runs.bind (optionalAlias_shrinks.mono fun _ ds hds => ?_)))
  refine Runs.bind ((attempt_shrinks fieldName_consumes.shrinks).mono fun name es hes => ?_)
  cases name with
  | none => exact hback es
  | some name =>
    refine Runs.ite (fun _ => hback es) fun _ => ?_
    refine Runs.bind (embedParams_shrinks.mono fun _ fs hfs => Runs.bind (Runs.get ?_))
    refine Runs.ite (fun _ => ?_) fun _ => hback fs
    refine Runs.bind ((parenthesized_consumes fun gs hgs => h gs (by omega)).mono ?_)
    intro _ gs hgs
    refine Runs.pure ?_
    simp only [Option.isSome_some, if_true]
    omega

theorem fieldItem_shrinks : Shrinks (fieldItem u) cs := by
  refine optionalAlias_shrinks.bind fun _ ds _ => ite_eat_shrinks (fun es _ => ?_) ?_
  · refine castType_shrinks.bind fun _ _ _ => expectItemEnd_shrinks.bind fun _ _ _ => pure_shrinks
  · refine field_consumes.shrinks.bind fun _ es _ => castType_shrinks.bind fun _ fs _ => ?_
    refine aggregateSuffix_shrinks.bind fun _ gs _ => Shrinks.bind ?_ fun _ hs _ => ?_
    · exact Runs.ite (fun _ => castType_shrinks) fun _ => pure_shrinks
    · exact expectItemEnd_shrinks.bind fun _ _ _ => pure_shrinks

theorem selectTree_shrinks (h : ∀ ds, ds.length < cs.length → Shrinks forest ds) :
    Shrinks (selectTree u forest) cs := by
  have hspread : "...".toList.length = 3 := by decide
  refine eat_bind_reads (fun ds hds => ?_) ?_
  · exact (spreadItem_consumes fun es hes => h es (by omega)).mono fun _ _ hlt => by omega
  · refine Runs.bind ((relationItem_offers h).mono fun item ds hds => ?_)
    cases item with
    | some item => exact Runs.pure (by omega)
    | none =>
      have hle : ds.length ≤ cs.length := by omega
      refine Runs.mono (Q := fun _ ds' => ds'.length ≤ ds.length) ?_ fun _ _ _ => by omega
      refine ite_eat_shrinks (fun _ _ => ?_) fieldItem_shrinks
      exact expectItemEnd_shrinks.bind fun _ _ _ => pure_shrinks

theorem selectForest_shrinks (fuel : ℕ) (cs : List Char) (h : cs.length < fuel) :
    Shrinks (selectForest u fuel) cs := by
  induction fuel generalizing cs with
  | zero => omega
  | succ fuel ih =>
    refine Runs.bind (Runs.get (Runs.ite (fun _ => pure_shrinks) fun _ => ?_))
    exact commaList_shrinks fun ds hds => selectTree_shrinks fun es hes => ih es (by omega)

theorem bareValue_shrinks : Shrinks bareValue cs :=
  Runs.bind (takeWhile_reads.mono fun _ ds h => Runs.pure (by omega))

theorem quotedUpTo_shrinks {ends : List Char → Bool} : Shrinks (quotedUpTo ends) cs := by
  have h : Shrinks quoted cs := quoted_offers.shrinks
  unfold Shrinks Reads Runs at h ⊢
  unfold quotedUpTo
  cases hr : quoted cs with
  | error e =>
    rw [hr] at h
    exact h
  | ok r =>
    rw [hr] at h
    obtain ⟨q, ds⟩ := r
    cases q with
    | none => simp
    | some q => by_cases hends : ends ds <;> simp_all

theorem arrayLiteral_shrinks : Shrinks arrayLiteral cs := by
  have hnone : arrayLiteral cs = .ok (none, cs) → Shrinks arrayLiteral cs :=
    fun h => reads_of_ok h (Nat.le_refl _)
  match cs with
  | [] => exact hnone rfl
  | c :: ds =>
    by_cases hc : c = '{'
    · subst hc
      have hsum := congrArg List.length
        (List.takeWhile_append_dropWhile (p := fun d => decide (d ≠ '}')) (l := ds))
      simp only [List.length_append] at hsum
      cases hafter : ds.dropWhile fun d => decide (d ≠ '}') with
      | nil => exact hnone (by simp only [arrayLiteral, hafter])
      | cons e es =>
        rw [hafter, List.length_cons] at hsum
        by_cases he : e = '}'
        · subst he
          by_cases hinner : '{' ∈ ds.takeWhile fun d => decide (d ≠ '}')
          · exact hnone (by simp only [arrayLiteral, hafter, if_pos hinner])
          · have hok : arrayLiteral ('{' :: ds) = .ok (some (.ofList
                ('{' :: ds.takeWhile (fun d => decide (d ≠ '}')) ++ ['}'])), es) := by
              simp only [arrayLiteral, hafter, if_neg hinner]
            refine reads_of_ok hok ?_
            simp only [List.length_cons]
            omega
        · have hbare : ∀ cs', e :: es ≠ '}' :: cs' := by simp [he]
          exact hnone (by simp only [arrayLiteral, hafter])
    · exact hnone (by simp [arrayLiteral, hc])

theorem singleValue_shrinks : Shrinks (singleValue mode) cs := by
  cases mode with
  | query => exact rest_reads (by simp)
  | logic =>
    refine quotedUpTo_shrinks.bind fun q ds _ => ?_
    cases q with
    | some q => exact pure_shrinks
    | none =>
      refine arrayLiteral_shrinks.bind fun a es _ => ?_
      cases a with
      | some a => exact pure_shrinks
      | none => exact bareValue_shrinks

theorem listValue_shrinks : Shrinks listValue cs := by
  have hitem : ∀ ds, Shrinks listItem ds := by
    intro ds
    refine quotedUpTo_shrinks.bind fun q es _ => ?_
    cases q with
    | some q => exact pure_shrinks
    | none => exact bareValue_shrinks
  refine expect_shrinks.bind fun _ ds _ => ite_eat_shrinks (fun _ _ => pure_shrinks) ?_
  refine (commaList_shrinks fun es _ => hitem es).bind fun _ _ _ => ?_
  exact expect_shrinks.bind fun _ _ _ => pure_shrinks

theorem textSearchLang_shrinks : Shrinks (textSearchLang u) cs := by
  refine ite_eat_shrinks (fun ds _ => ?_) (ite_eat_shrinks (fun _ _ => pure_shrinks) pure_shrinks)
  refine Runs.bind (takeWhile_reads.mono fun lang es hes => ?_)
  refine Runs.mono (Q := fun _ ds' => ds'.length ≤ es.length) ?_ fun _ _ _ => by omega
  exact ite_eat_shrinks (fun _ _ => pure_shrinks) pure_shrinks

theorem operatorEnd_shrinks {op : SimpleOp} : Shrinks (operatorEnd op) cs := by
  refine ite_eat_shrinks (fun _ _ => pure_shrinks) (Runs.ite (fun _ => ?_) fun _ => pure_shrinks)
  exact ite_eat_shrinks (fun _ _ => pure_shrinks)
    (ite_eat_shrinks (fun _ _ => pure_shrinks) pure_shrinks)

theorem firstWord_shrinks {name : α → String} {after : α → Parser (Option β)} {words : List α}
    (h : ∀ word ds, Shrinks (after word) ds) : Shrinks (firstWord name after words) cs := by
  induction words with
  | nil => exact pure_shrinks
  | cons word words ih =>
    refine Runs.bind (Runs.get (eat_bind_reads (fun ds hds => ?_) ih))
    refine Runs.bind ((h word ds).mono fun b es hes => ?_)
    cases b with
    | some b => exact Runs.pure (by omega)
    | none => exact Runs.bind (Runs.set ih)

theorem operationAt_shrinks : Shrinks (operationAt u mode) cs := by
  have hvalue : ∀ {f : String → Operation} ds, Shrinks (do return f (← singleValue mode)) ds :=
    fun _ => singleValue_shrinks.bind fun _ _ _ => pure_shrinks
  refine ite_eat_shrinks (fun _ _ => listValue_shrinks.bind fun _ _ _ => pure_shrinks) ?_
  refine ite_eat_shrinks (fun _ _ => singleValue_shrinks.bind fun raw _ _ => ?_) ?_
  · cases isValue (lower raw) with
    | some v => exact pure_shrinks
    | none => exact fail_reads
  refine ite_eat_shrinks (fun ds _ => hvalue ds) ?_
  refine (firstWord_shrinks fun _ _ => textSearchLang_shrinks).bind fun op ds _ => ?_
  cases op with
  | some op => exact hvalue ds
  | none =>
    refine (firstWord_shrinks fun _ _ => operatorEnd_shrinks).bind fun op es _ => ?_
    cases op with
    | some op => exact hvalue es
    | none => exact fail_reads

theorem logicFilter_shrinks : Shrinks (logicFilter u) cs := by
  refine field_consumes.shrinks.bind fun _ _ _ => expect_shrinks.bind fun _ _ _ => ?_
  refine eat_shrinks.bind fun _ _ _ => operationAt_shrinks.bind fun _ _ _ => ?_
  exact expectItemEnd_shrinks.bind fun _ _ _ => pure_shrinks

theorem logicTree_shrinks {forest : Parser (List LogicTree)}
    (h : ∀ ds, ds.length < cs.length → Shrinks forest ds) : Shrinks (logicTree u forest) cs := by
  refine (attempt_shrinks logicFilter_shrinks).bind fun tree ds hds => ?_
  cases tree with
  | some tree => exact pure_shrinks
  | none =>
    have hforest : ∀ es, es.length ≤ ds.length → ∀ {f : List LogicTree → LogicTree},
        Shrinks (do return f (← parenthesized forest)) es := fun es hes _ =>
      (parenthesized_consumes fun fs hfs => h fs (by omega)).shrinks.bind fun _ _ _ => pure_shrinks
    refine eat_shrinks.bind fun negate es hes => ?_
    refine ite_eat_shrinks (fun fs hfs => hforest fs (by omega)) ?_
    exact ite_eat_shrinks (fun fs hfs => hforest fs (by omega)) fail_reads

theorem logicForest_shrinks (fuel : ℕ) (cs : List Char) (h : cs.length < fuel) :
    Shrinks (logicForest u fuel) cs := by
  induction fuel generalizing cs with
  | zero => omega
  | succ fuel ih =>
    exact commaList_shrinks fun ds hds => logicTree_shrinks fun es hes => ih es (by omega)

theorem orderTerm_shrinks : Shrinks (orderTerm u) cs := by
  have hcolumn : Shrinks (orderColumn u) cs := by
    have hrelation : Shrinks (orderRelation u) cs :=
      fieldName_consumes.shrinks.bind fun _ _ _ =>
        (parenthesized_consumes fun _ _ => field_consumes.shrinks).shrinks.bind
          fun _ _ _ => pure_shrinks
    refine (attempt_shrinks hrelation).bind fun term _ _ => ?_
    cases term with
    | some term => exact pure_shrinks
    | none => exact field_consumes.shrinks.bind fun _ _ _ => pure_shrinks
  have hdirection : ∀ ds, Shrinks orderDirection ds := fun _ =>
    ite_eat_shrinks (fun _ _ => pure_shrinks) (ite_eat_shrinks (fun _ _ => pure_shrinks) pure_shrinks)
  have hnulls : ∀ ds, Shrinks orderNulls ds := fun _ =>
    ite_eat_shrinks (fun _ _ => pure_shrinks) (ite_eat_shrinks (fun _ _ => pure_shrinks) pure_shrinks)
  refine hcolumn.bind fun _ ds _ => (hdirection ds).bind fun _ es _ => ?_
  exact (hnulls es).bind fun _ _ _ => pure_shrinks

def Fault.Pgrst : Fault → Prop
  | .pgrst _ => True
  | _ => False

theorem parse_fault {what : String} (h : Shrinks p src.toList) (he : parse what src p = .error e) :
    e.Pgrst := by
  unfold Shrinks Reads Runs at h
  unfold parse at he
  cases hp : p src.toList with
  | ok r => simp [hp] at he
  | error f =>
    rw [hp] at h
    cases f with
    | outOfFuel => exact absurd rfl h
    | stop why rest =>
      simp only [hp] at he
      cases he
      trivial

theorem expectDone_shrinks : Shrinks (expectDone why) cs :=
  Runs.bind (done_reads (Runs.ite (fun _ => pure_shrinks) fun _ => fail_reads))

theorem parseSelect_fault (h : parseSelect u src = .error e) : e.Pgrst := by
  refine parse_fault ((selectForest_shrinks _ _ ?_).bind fun _ _ _ => ?_) h
  · exact Nat.lt_succ_of_le (Nat.le_of_eq String.length_toList)
  · exact expectDone_shrinks.bind fun _ _ _ => pure_shrinks

theorem parseFilterKey_fault (h : parseFilterKey u src = .error e) : e.Pgrst := by
  refine parse_fault (fieldName_consumes.shrinks.bind fun _ ds _ => ?_) h
  have hdot : ∀ es : List Char, Offers (dotName u) es := fun _ =>
    ite_eat_offers (by decide) fun _ _ => fieldName_consumes.shrinks
  refine (many_shrinks fun es _ => hdot es).bind fun _ _ _ => jsonPath_shrinks.bind fun _ _ _ => ?_
  exact expectDone_shrinks.bind fun _ _ _ => pure_shrinks

theorem parseOpExpr_fault {column : String} (h : parseOpExpr u src column = .error e) : e.Pgrst :=
  parse_fault (eat_shrinks.bind fun _ _ _ => operationAt_shrinks.bind fun _ _ _ => pure_shrinks) h

theorem parseLogicValue_fault {op : LogicOp} {negate : Bool} {key : String}
    (h : parseLogicValue u op negate src key = .error e) : e.Pgrst := by
  refine parse_fault (Shrinks.bind ?_ fun _ _ _ => ?_) h
  · refine (parenthesized_consumes fun ds hds => logicForest_shrinks _ _ ?_).shrinks
    have hlen : src.toList.length = src.length := String.length_toList
    omega
  · exact expectDone_shrinks.bind fun _ _ _ => pure_shrinks

theorem parseOrder_fault (h : parseOrder u src = .error e) : e.Pgrst :=
  parse_fault (commaListToEnd_shrinks fun _ _ => orderTerm_shrinks) h

theorem parseColumns_fault (h : parseColumns u src = .error e) : e.Pgrst :=
  parse_fault (commaListToEnd_shrinks fun _ _ => fieldName_consumes.shrinks) h

end Kindred.Rest
