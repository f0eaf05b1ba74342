import Kindred.Rest.Faults

/-! Which alias a relation goes by. A FROM has one relation, so that a name is looked for among
those around it. -/

namespace Kindred.Rest
open Lib (Table Tx)
open Lib.Tx

/-- No node goes by the alias of another around it; `above` are those of the nodes around. -/
def Embeds.Apart (above : List String) : Embeds → Prop
  | nil => True
  | cons _ node children siblings =>
    node.alias_ ∉ above ∧ children.Apart (node.alias_ :: above) ∧ siblings.Apart above

def ReadTree.Apart (tree : ReadTree) : Prop := tree.embeds.Apart [tree.root.alias_]

mutual

def Planner.relatedOf (planner : Planner) (t : TableInfo) : SelectItem → List String
  | .embed name _ hint _ _ items =>
    match planner.relationship t name hint with
    | .ok rel => rel.to.name :: planner.related rel.to items
    | .error _ => []
  | _ => []

def Planner.related (planner : Planner) (t : TableInfo) : List SelectItem → List String
  | [] => []
  | item :: items => planner.relatedOf t item ++ planner.related t items

end

/-- The `n`th table that is embedded is named with its number. -/
def Planner.KeepsApart (planner : Planner) (t : TableInfo) (select : List SelectItem)
    (topAlias : String) : Prop :=
  ∀ n name, (planner.related t select)[n]? = some name → topAlias ≠ s!"{name}_{n + 1}"

/-- The names, numbered after `n`. -/
def numbered (n : ℕ) (names : List String) : List String :=
  (names.zipIdx (n + 1)).map fun r => s!"{r.1}_{r.2}"

theorem numbered_append (n : ℕ) (names others : List String) :
    numbered n (names ++ others) = numbered n names ++ numbered (n + names.length) others := by
  simp [numbered, List.zipIdx_append, Nat.add_right_comm]

theorem mem_numbered {a : String} {names : List String} :
    a ∈ numbered 0 names ↔ ∃ n name, names[n]? = some name ∧ a = s!"{name}_{n + 1}" := by
  simp only [numbered, List.mem_map, Prod.exists, List.mk_mem_zipIdx_iff_le_and_getElem?_sub]
  constructor
  · rintro ⟨name, i, ⟨hle, hname⟩, rfl⟩
    exact ⟨i - 1, name, hname, by rw [Nat.sub_add_cancel hle]⟩
  · rintro ⟨n, name, hname, rfl⟩
    exact ⟨name, n + 1, ⟨Nat.le_add_left _ _, hname⟩, rfl⟩

theorem numbered_nodup (n : ℕ) (names : List String) : (numbered n names).Nodup := by
  have hnumber : ∀ (name : String) (i : ℕ),
      (s!"{name}_{i}".toList.reverse.takeWhile (· ≠ '_')).reverse = Nat.toDigits 10 i := by
    intro name i
    have hdigits : ∀ c ∈ (Nat.toDigits 10 i).reverse, decide (c ≠ '_') = true := by
      intro c hc
      refine decide_eq_true fun hunder => ?_
      rw [hunder, List.mem_reverse] at hc
      exact Nat.underscore_not_in_toDigits hc
    have htext : s!"{name}_{i}".toList = name.toList ++ '_' :: Nat.toDigits 10 i := by
      simp [toString, Nat.repr]
    rw [htext, List.reverse_append, List.reverse_cons, List.append_assoc,
      List.takeWhile_append_of_pos hdigits]
    simp
  refine List.Nodup.of_map (fun a => (a.toList.reverse.takeWhile (· ≠ '_')).reverse) ?_
  have hmap : (numbered n names).map (fun a => (a.toList.reverse.takeWhile (· ≠ '_')).reverse) =
      ((names.zipIdx (n + 1)).map Prod.snd).map (Nat.toDigits 10) := by
    simp only [numbered, List.map_map, Function.comp_def, hnumber]
  rw [hmap, List.zipIdx_map_snd]
  refine List.Nodup.map (fun i j h => ?_) List.nodup_range'
  rw [← Nat.ofDigitChars_toDigits (b := 10) (n := i) (by decide) (by decide), h,
    Nat.ofDigitChars_toDigits (by decide) (by decide)]

def Embeds.aliases : Embeds → List String
  | nil => []
  | cons _ node children siblings => node.alias_ :: (children.aliases ++ siblings.aliases)

theorem Embeds.apart_iff (embeds : Embeds) (above : List String) (h : embeds.aliases.Nodup) :
    embeds.Apart above ↔ ∀ a ∈ embeds.aliases, a ∉ above := by
  induction embeds generalizing above with
  | nil => simp [Apart, aliases]
  | cons embed node children siblings ihc ihs =>
    obtain ⟨hnode, hrest⟩ := List.nodup_cons.mp h
    obtain ⟨hchildren, hsiblings, -⟩ := List.nodup_append.mp hrest
    have hown : ∀ a ∈ children.aliases, a ≠ node.alias_ := by
      rintro a ha rfl
      exact hnode (List.mem_append_left _ ha)
    simp only [Apart, aliases, ihc _ hchildren, ihs _ hsiblings, List.mem_cons, List.mem_append,
      not_or, or_imp, forall_and, forall_eq]
    exact ⟨fun h => ⟨h.1, h.2.1.2, h.2.2⟩, fun h => ⟨h.1, ⟨hown, h.2.1⟩, h.2.2⟩⟩

namespace Planner
variable {planner : Planner}

mutual

theorem planItem_numbers (t : TableInfo) : ∀ (item : SelectItem) (n : ℕ),
    Runs (fun _ => True) (planner.planItem t item) n fun r n' => ∀ rest, (r.2 rest).aliases =
      numbered n (planner.relatedOf t item) ++ rest.aliases ∧
        n' = n + (planner.relatedOf t item).length
  | .star, n => by
    exact Runs.pure fun rest => by simp [relatedOf, numbered]
  | .field field alias_ cast aggregate _, n => by
    exact Runs.ite (fun _ => Runs.throw trivial) fun _ =>
      Runs.pure fun rest => by simp [relatedOf, numbered]
  | .embed name alias_ hint joinType spread items, n => by
    unfold planItem relatedOf
    refine Runs.ite (fun _ => Runs.throw trivial) fun _ => Runs.bind ?_
    cases hrel : planner.relationship t name hint with
    | error e => exact trivial
    | ok rel =>
      have hlift : ∀ Q : Relationship → ℕ → Prop, Q rel n → Runs (fun _ => True)
          (liftM (Except.ok rel : Except Fault Relationship) : Tx ℕ Fault _) n Q := fun _ h => h
      have hnext : ∀ Q : ℕ → ℕ → Prop, Q (n + 1) (n + 1) →
          Runs (fun _ => True) nextAlias n Q := fun _ h => h
      refine hlift _ (Runs.bind (hnext _ (Runs.bind ?_)))
      refine (planItems_numbers rel.to items (n + 1)).mono fun r n' hr => Runs.pure fun rest => ?_
      simp only [Embeds.aliases, hr.1, numbered, List.zipIdx_cons, List.map_cons, List.cons_append,
        List.length_cons, hr.2]
      exact ⟨trivial, by omega⟩

theorem planItems_numbers (t : TableInfo) : ∀ (items : List SelectItem) (n : ℕ),
    Runs (fun _ => True) (planner.planItems t items) n fun r n' =>
      r.2.aliases = numbered n (planner.related t items) ∧
        n' = n + (planner.related t items).length
  | [], n => by
    exact Runs.pure ⟨rfl, rfl⟩
  | item :: items, n => by
    unfold planItems related
    refine Runs.bind ((planItem_numbers t item n).mono fun r n' hr => ?_)
    refine Runs.bind ((planItems_numbers t items n').mono fun r' n'' hr' => ?_)
    refine Runs.pure ?_
    rw [(hr _).1, hr'.1, hr'.2, (hr .nil).2, numbered_append, List.length_append]
    exact ⟨rfl, Nat.add_assoc _ _ _⟩

end

end Planner

theorem Embeds.apart_modify {id : ℕ} {f : ReadNode → Embeds → ReadNode}
    (hf : ∀ node children, (f node children).alias_ = node.alias_) (embeds : Embeds)
    (above : List String) : (embeds.modify id f).Apart above ↔ embeds.Apart above := by
  induction embeds generalizing above with
  | nil => exact .rfl
  | cons embed node children siblings ihc ihs =>
    have halias : (if node.id = id then f node children else node).alias_ = node.alias_ := by
      split
      · exact hf node children
      · rfl
    simp only [modify, Apart, halias, ihc, ihs]

theorem ReadTree.apart_attach {α : Type} {values : ByPath α}
    {add : α → ReadNode → Embeds → ReadNode} {tree tree' : ReadTree}
    (h : tree.attach values add = .ok tree')
    (hadd : ∀ v node children, (add v node children).alias_ = node.alias_) :
    tree'.Apart ↔ tree.Apart := by
  unfold attach at h
  induction values generalizing tree with
  | nil =>
    cases h
    exact .rfl
  | cons r values ih =>
    rw [List.foldlM_cons] at h
    cases hpath : tree.atPath r.1 with
    | error e =>
      rw [hpath] at h
      cases h
    | ok id =>
      rw [hpath] at h
      rw [ih h]
      have halias : (tree.modify id (add r.2)).root.alias_ = tree.root.alias_ := by
        unfold modify
        split
        · exact hadd r.2 tree.root tree.embeds
        · rfl
      rw [Apart, halias]
      exact Embeds.apart_modify (hadd r.2) _ _

theorem addFilter_alias (children : Embeds) (node : ReadNode) (f : Filter) :
    (node.addFilter children f).alias_ = node.alias_ := by
  unfold ReadNode.addFilter
  dsimp only
  split <;> rfl

/-- A read tree has other aliases all the way up if and only if its top level does not go by the
name of a table that it embeds, with an underscore and the number of that embed. -/
theorem aliases_apart (planner : Planner) (t : TableInfo) (select : Option (List SelectItem))
    (params : QueryParams) (topAlias : String) (tree : ReadTree)
    (h : planner.readTree t select params topAlias = .ok tree) :
    tree.Apart ↔ planner.KeepsApart t (select.getD [.star]) topAlias := by
  unfold Planner.readTree at h
  obtain ⟨⟨⟨items, embeds⟩, n⟩, hplan, h⟩ := Lib.Raises.bind_ok h
  obtain ⟨filtered, hfiltered, h⟩ := Lib.Raises.bind_ok h
  obtain ⟨sifted, hsifted, h⟩ := Lib.Raises.bind_ok h
  obtain ⟨ordered, hordered, h⟩ := Lib.Raises.bind_ok h
  obtain ⟨limited, hlimited, h⟩ := Lib.Raises.bind_ok h
  have hadd : ∀ (fs : List Filter) (node : ReadNode) (children : Embeds),
      (fs.foldl (ReadNode.addFilter children) node).alias_ = node.alias_ := by
    intro fs node children
    induction fs generalizing node with
    | nil => rfl
    | cons f fs ih => rw [List.foldl_cons, ih, addFilter_alias]
  have hkeeps : tree.Apart ↔ ReadTree.Apart
      { root := { id := 0, table := t, alias_ := topAlias, items }, embeds } := by
    rw [ReadTree.apart_attach h fun _ _ _ => rfl, ReadTree.apart_attach hlimited fun _ _ _ => rfl,
      ReadTree.apart_attach hordered fun _ _ _ => rfl,
      ReadTree.apart_attach hsifted fun _ _ _ => rfl, ReadTree.apart_attach hfiltered hadd]
  have hnumbers := planner.planItems_numbers t (select.getD [.star]) 0
  unfold Runs at hnumbers
  rw [hplan] at hnumbers
  have haliases : embeds.aliases = numbered 0 (planner.related t (select.getD [.star])) :=
    hnumbers.1
  have hnodup := numbered_nodup 0 (planner.related t (select.getD [.star]))
  rw [hkeeps, ReadTree.Apart, Embeds.apart_iff _ _ (haliases ▸ hnodup), haliases]
  simp only [List.mem_singleton, mem_numbered]
  constructor
  · rintro h n name hname rfl
    exact h _ ⟨n, name, hname, rfl⟩ rfl
  · rintro h _ ⟨n, name, hname, rfl⟩ htop
    exact h n name hname htop.symm

def noteTable (oid : ℕ) (name : String) : TableInfo :=
  { oid := some oid, schema := "public", name, columns := .empty, pk := ["id"] }

/-- The rows of `note_1` are of a `note` each. -/
def ofNote : Relationship where
  constraint := "note_1_note_id_fkey"
  «from» := noteTable 1 "note_1"
  «to» := noteTable 2 "note"
  fromCols := ["note_id"]
  toCols := ["id"]
  paired := rfl
  forward := true
  toOne := true
  cardinality := .manyToOne
  fkCols := ["note_id"]

def notePlanner : Planner where
  snapshot := {
    schemas := ["public"]
    tables := (Table.empty.put ("public", "note_1") (noteTable 1 "note_1")).put ("public", "note")
      (noteTable 2 "note")
    relationships := [ofNote]
    functions := .empty }
  schema := "public"
  closest := fun _ _ => none

/-- `select=note(*)` -/
def selectNote : Option (List SelectItem) := some [.embed "note" none none none false []]

/-- The rows of a function `latest` that returns rows of `note_1`. -/
theorem aliases_apart_latest : ∃ tree, notePlanner.readTree (noteTable 1 "note_1") selectNote {}
    "latest" = .ok tree ∧ tree.Apart := by
  refine ⟨_, rfl, (aliases_apart notePlanner (noteTable 1 "note_1") selectNote {} "latest" _
    rfl).mpr ?_⟩
  intro n name hname
  have hrelated : notePlanner.related (noteTable 1 "note_1") (selectNote.getD [.star]) =
      ["note"] := rfl
  rw [hrelated] at hname
  cases n with
  | zero =>
    cases hname
    decide
  | succ n => cases hname

/-- The rows of `note_1` and their notes both go by `note_1`. -/
theorem aliases_meet : ∃ tree, notePlanner.readTree (noteTable 1 "note_1") selectNote {}
    "note_1" = .ok tree ∧ ¬tree.Apart :=
  ⟨_, rfl, fun h => h.1 (by decide)⟩

end Kindred.Rest
