import Kindred.Rest.Faults

/-! Which value each placeholder of a statement stands for. -/

namespace Kindred.Rest
open Lib Lib.Tx

/-- The numbers of the placeholders, in the order of the text. -/
def Sql.params (sql : Sql) : List ℕ :=
  sql.filterMap fun piece => match piece with
    | .param n => some n
    | _ => none

@[simp] theorem params_nil : Sql.params [] = [] := rfl

@[simp] theorem params_append (a b : Sql) : Sql.params (a ++ b) = a.params ++ b.params :=
  List.filterMap_append

@[simp] theorem params_raw (sql : String) : (raw sql).params = [] := rfl

@[simp] theorem params_ql (value : String) : (ql value).params = [] := rfl

@[simp] theorem params_qi (name : String) : (qi name).params = [] := rfl

@[simp] theorem params_qtable (schema name : String) : (qtable schema name).params = [] := rfl

@[simp] theorem params_number (n : JsNumber) (sql : Sql) :
    Sql.params (.number n :: sql) = sql.params := rfl

@[simp] theorem params_catalog (text : String) (sql : Sql) :
    Sql.params (.catalog text :: sql) = sql.params := rfl

@[simp] theorem params_join (separator : String) (parts : List Sql) :
    (Sql.join separator parts).params = parts.flatMap Sql.params := by
  unfold Sql.join
  induction parts with
  | nil => rfl
  | cons first rest ih =>
    cases rest with
    | nil => simp [List.intercalate]
    | cons second rest =>
      rw [List.intercalate_cons_cons, params_append, params_append, ih]
      exact congrArg (· ++ _) (List.append_nil _)

@[simp] theorem params_clause (word separator : String) (parts : List Sql) :
    (if parts.isEmpty then [] else raw word ++ Sql.join separator parts : Sql).params =
      parts.flatMap Sql.params := by
  cases parts <;> simp

@[simp] theorem params_fieldExpr (alias_ : String) (field : FieldRef) (t : TableInfo) :
    (fieldExpr alias_ field t).params = [] := by
  have hfold : ∀ (ops : List JsonOp) (expr : Sql), expr.params = [] →
      (ops.foldl (fun expr op => expr ++ raw op.arrow.sql ++
        (if op.index then [.index op.key] else ql op.key)) expr).params = [] := by
    intro ops
    induction ops with
    | nil => exact fun _ h => h
    | cons op ops ih =>
      refine fun expr h => ih _ ?_
      have hop : (if op.index then [Piece.index op.key] else ql op.key : Sql).params = [] := by
        split <;> rfl
      simp [h, hop]
  refine hfold _ _ ?_
  split <;> simp

@[simp] theorem params_starSql (node : ReadNode) : (starSql node).params = [] := by
  unfold starSql
  split <;> simp [List.flatMap_map]

@[simp] theorem params_joinSql (parent : String) (embed : EmbedPlan) (node : ReadNode) :
    (joinSql parent embed node).params = [] := by
  simp [joinSql, List.flatMap_map]

structure Placed (before after binds : List Bind) (params : List ℕ) : Prop where
  grows : before <+: after
  numbers : params.Perm (List.range' (before.length + 1) (after.length - before.length))
  values : ∀ more, after <+: more → params.map (fun n => more[n - 1]?) = binds.map some

namespace Placed
variable {before between after binds more : List Bind} {params others : List ℕ}

theorem none : Placed before before [] [] where
  grows := List.prefix_rfl
  numbers := by simp
  values _ _ := rfl

theorem one (value : Bind) : Placed before (before ++ [value]) [value] [before.length + 1] where
  grows := List.prefix_append _ _
  numbers := by simp
  values := by
    rintro _ ⟨rest, rfl⟩
    simp

theorem append (h : Placed before between binds params) (h' : Placed between after more others) :
    Placed before after (binds ++ more) (params ++ others) where
  grows := h.grows.trans h'.grows
  numbers := by
    refine (h.numbers.append h'.numbers).trans (List.Perm.of_eq ?_)
    obtain ⟨⟨added, rfl⟩, ⟨rest, rfl⟩⟩ := h.grows, h'.grows
    simp [Nat.add_assoc, Nat.add_sub_add_left, ← List.range'_append_1, Nat.add_comm 1]
  values l hl := by
    rw [List.map_append, List.map_append, h.values l (h'.grows.trans hl), h'.values l hl]

theorem prepend (h : Placed before between binds params) (h' : Placed between after more others) :
    Placed before after (more ++ binds) (others ++ params) where
  grows := (h.append h').grows
  numbers := List.perm_append_comm.trans (h.append h').numbers
  values l hl := by
    rw [List.map_append, List.map_append, h.values l (h'.grows.trans hl), h'.values l hl]

end Placed

def Places {α : Type} (m : Emit α) (Q : α → List Bind → List ℕ → Prop) : Prop :=
  ∀ before a after, m before = .ok (a, after) →
    ∃ binds params, Placed before after binds params ∧ Q a binds params

namespace Places
variable {α β : Type} {m : Emit α} {f : α → Emit β} {P : α → List Bind → List ℕ → Prop}
  {Q : β → List Bind → List ℕ → Prop}

theorem pure {b : β} (h : Q b [] []) : Places (Pure.pure b) Q := by
  rintro before _ _ ⟨⟩
  exact ⟨[], [], .none, h⟩

theorem throw {e : Fault} : Places (MonadExcept.throw e) Q := nofun

theorem mono {P' : α → List Bind → List ℕ → Prop} (hm : Places m P)
    (h : ∀ a binds params, P a binds params → P' a binds params) : Places m P' := by
  intro before a after ha
  obtain ⟨binds, params, hplaced, hP⟩ := hm _ _ _ ha
  exact ⟨binds, params, hplaced, h a binds params hP⟩

theorem bind (hm : Places m P) (hf : ∀ a binds params, P a binds params →
    Places (f a) fun b more others => Q b (binds ++ more) (params ++ others)) :
    Places (m >>= f) Q := by
  intro before b after h
  obtain ⟨a, between, ha, hb⟩ := bind_ok.mp h
  obtain ⟨binds, params, hplaced, hP⟩ := hm _ _ _ ha
  obtain ⟨more, others, hplaced', hQ⟩ := hf a binds params hP _ _ _ hb
  exact ⟨_, _, hplaced.append hplaced', hQ⟩

theorem bind_last (hm : Places m P) (hf : ∀ a binds params, P a binds params →
    Places (f a) fun b more others => Q b (more ++ binds) (others ++ params)) :
    Places (m >>= f) Q := by
  intro before b after h
  obtain ⟨a, between, ha, hb⟩ := bind_ok.mp h
  obtain ⟨binds, params, hplaced, hP⟩ := hm _ _ _ ha
  obtain ⟨more, others, hplaced', hQ⟩ := hf a binds params hP _ _ _ hb
  exact ⟨_, _, hplaced.prepend hplaced', hQ⟩

theorem map {g : α → β} (hm : Places m P) (hg : ∀ a binds params, P a binds params →
    Q (g a) binds params) : Places (do return g (← m)) Q :=
  hm.bind fun a binds params h => pure (by simpa using hg a binds params h)

theorem lift {m : Except Fault α} (h : ∀ a, m = .ok a → P a [] []) :
    Places (liftM m : Emit α) P := by
  intro before a after hm
  cases hr : m with
  | error e =>
    rw [hr] at hm
    cases hm
  | ok b =>
    rw [hr] at hm
    cases hm
    exact ⟨[], [], .none, h a hr⟩

end Places

/-- A text whose placeholders stand for `values`, in its order. -/
abbrev Shows (values : List Bind) (sql : Sql) (binds : List Bind) (params : List ℕ) : Prop :=
  binds = values ∧ params = sql.params

abbrev ShowAll (values : List Bind) (sqls : List Sql) (binds : List Bind) (params : List ℕ) : Prop :=
  binds = values ∧ params = sqls.flatMap Sql.params

theorem Places.shows {m : Emit Sql} {g : Sql → Sql} {values : List Bind}
    (h : Places m (Shows values)) (hg : ∀ sql, (g sql).params = sql.params) :
    Places (do return g (← m)) (Shows values) := by
  refine h.map ?_
  rintro sql _ _ ⟨rfl, rfl⟩
  exact ⟨rfl, (hg sql).symm⟩

theorem addParam_places (value : Bind) : Places (addParam value) (Shows [value]) := by
  rintro before _ _ ⟨⟩
  exact ⟨_, _, .one value, rfl, rfl⟩

section Lists
variable {α : Type} {f : α → Emit Sql} {values : α → List Bind} {all : List Bind}

theorem Places.cons {a : α} {l : List α} {first : List Bind} (h : Places (f a) (Shows first))
    (hl : Places (l.mapM f) (ShowAll all)) : Places ((a :: l).mapM f) (ShowAll (first ++ all)) := by
  rw [List.mapM_cons]
  refine h.bind ?_
  rintro sql _ _ ⟨rfl, rfl⟩
  refine hl.map ?_
  rintro sqls _ _ ⟨rfl, rfl⟩
  exact ⟨rfl, rfl⟩

theorem Places.mapM {l : List α} (h : ∀ a ∈ l, Places (f a) (Shows (values a))) :
    Places (l.mapM f) (ShowAll (l.flatMap values)) := by
  induction l with
  | nil => exact Places.pure ⟨rfl, rfl⟩
  | cons a l ih => exact (h a List.mem_cons_self).cons (ih fun b hb => h b (List.mem_cons_of_mem a hb))

end Lists

def Operation.binds : Operation → List Bind
  | in_ values => [.texts values]
  | is _ => []
  | isdistinct value | textSearch _ _ value => [.text value]
  | simple op _ value => [.text (if op = .like ∨ op = .ilike then
      value.map fun c => if c = '*' then '%' else c else value)]

def Filter.binds (f : Filter) : List Bind := f.expr.operation.binds

mutual

def LogicTree.binds : LogicTree → List Bind
  | .filter f => f.binds
  | .expr _ _ children => logicBinds children

def logicBinds : List LogicTree → List Bind
  | [] => []
  | t :: ts => t.binds ++ logicBinds ts

end

structure EmbedBinds where
  id : ℕ
  inner : Bool
  select : List Bind
  exists_ : List Bind

section Node
variable (node : ReadNode) (embeds : List EmbedBinds)

def existenceBinds (existence : List (ℕ × Bool)) : List Bind :=
  existence.flatMap fun x => ((embeds.find? (·.id = x.1)).map (·.exists_)).getD []

def ReadNode.whereBinds : List Bind :=
  node.filters.flatMap Filter.binds ++ (logicBinds node.logic ++
    ((embeds.filter (·.inner)).flatMap (·.exists_) ++ existenceBinds embeds node.existence))

def PlannedItem.binds : PlannedItem → List Bind
  | .embed id => ((embeds.find? (·.id = id)).map (·.select)).getD []
  | _ => []

def ReadNode.itemBinds : List Bind := node.items.flatMap (PlannedItem.binds embeds)

end Node

def Embeds.binds : Embeds → List EmbedBinds
  | nil => []
  | cons embed node children siblings =>
    { id := node.id, inner := embed.inner
      select := node.itemBinds children.binds ++ node.whereBinds children.binds
      exists_ := node.whereBinds children.binds } :: siblings.binds

namespace ReadTree
variable (tree : ReadTree)

def whereBinds : List Bind := tree.root.whereBinds tree.embeds.binds

def selectBinds : List Bind := tree.root.itemBinds tree.embeds.binds ++ tree.whereBinds

def targetBinds : List Bind :=
  tree.whereBinds ++ if tree.root.limit.isSome ∨ tree.root.offset.isSome then tree.whereBinds else []

end ReadTree

theorem operationSql_places {expr : Sql} {isTsvector : Bool} (h : expr.params = [])
    (op : Operation) : Places (operationSql expr isTsvector op) (Shows op.binds) := by
  cases op with
  | is value => exact Places.pure ⟨rfl, by simp [h]⟩
  | in_ values => exact (addParam_places _).shows fun sql => by simp [h]
  | isdistinct value => exact (addParam_places _).shows fun sql => by simp [h]
  | textSearch op lang value =>
    cases lang <;> cases isTsvector <;> exact (addParam_places _).shows fun sql => by simp [h]
  | simple op quantifier value =>
    cases quantifier <;> exact (addParam_places _).shows fun sql => by simp [h]

theorem filterSql_places (node : ReadNode) (f : Filter) :
    Places (filterSql node f) (Shows f.binds) :=
  (operationSql_places (params_fieldExpr _ _ _) f.expr.operation).shows fun sql => by
    split <;> simp

mutual

theorem logicSql_places (node : ReadNode) :
    ∀ tree : LogicTree, Places (logicSql node tree) (Shows tree.binds)
  | .filter f => by
    unfold logicSql LogicTree.binds
    exact filterSql_places node f
  | .expr negate op children => by
    unfold logicSql LogicTree.binds
    refine (logicSqls_places node children).map ?_
    rintro sqls _ _ ⟨rfl, rfl⟩
    cases negate <;> exact ⟨rfl, by simp⟩

theorem logicSqls_places (node : ReadNode) :
    ∀ trees : List LogicTree, Places (logicSqls node trees) (ShowAll (logicBinds trees))
  | [] => Places.pure ⟨rfl, rfl⟩
  | tree :: trees => by
    unfold logicSqls logicBinds
    refine (logicSql_places node tree).bind ?_
    rintro sql _ _ ⟨rfl, rfl⟩
    refine (logicSqls_places node trees).map ?_
    rintro sqls _ _ ⟨rfl, rfl⟩
    exact ⟨rfl, rfl⟩

end

structure Emitter.Binds (e : Emitter) (b : EmbedBinds) : Prop where
  id : e.node.id = b.id
  inner : e.embed.inner = b.inner
  select : ∀ parent, Places (e.select parent) (Shows b.select)
  exists_ : ∀ parent, Places (e.exists_ parent) (Shows b.exists_)

section Emitters
variable {node : ReadNode} {emitters : List Emitter} {embeds : List EmbedBinds}

theorem existsPart_places {e : Emitter} {b : EmbedBinds} (h : e.Binds b) (exists_ : Bool) :
    Places (existsPart node exists_ e) (Shows b.exists_) :=
  (h.exists_ node.alias_).shows fun sql => by cases exists_ <;> simp

theorem orderTermSql_params {term : OrderTerm} {sql : Sql}
    (h : orderTermSql node term = .ok sql) : sql.params = [] := by
  unfold orderTermSql at h
  split at h
  · cases h
  · cases h
    split <;> split <;> simp

variable (h : List.Forall₂ Emitter.Binds emitters embeds)

include h

theorem find_binds (id : ℕ) :
    Option.Rel Emitter.Binds (emitters.find? (·.node.id = id)) (embeds.find? (·.id = id)) := by
  induction h with
  | nil => exact .none
  | @cons e b _ _ he _ ih =>
    simp only [List.find?_cons, he.id]
    cases decide (b.id = id)
    · exact ih
    · exact .some he

theorem innerParts_places : Places ((emitters.filter (·.embed.inner)).mapM (existsPart node true))
      (ShowAll ((embeds.filter (·.inner)).flatMap (·.exists_))) := by
  induction h with
  | nil => exact Places.pure ⟨rfl, rfl⟩
  | @cons e b _ _ he _ ih =>
    simp only [List.filter_cons, he.inner]
    cases b.inner
    · exact ih
    · exact (existsPart_places he true).cons ih

theorem existenceParts_places (existence : List (ℕ × Bool)) : Places ((existence.filterMap fun x =>
        (emitters.find? (·.node.id = x.1)).map fun e => (e, x.2)).mapM
          fun x => existsPart node x.2 x.1)
      (ShowAll (existenceBinds embeds existence)) := by
  induction existence with
  | nil => exact Places.pure ⟨rfl, rfl⟩
  | cons x existence ih =>
    have hfound := find_binds h x.1
    simp only [existenceBinds, List.flatMap_cons, List.filterMap_cons] at ih ⊢
    revert hfound
    cases emitters.find? (·.node.id = x.1) <;> cases embeds.find? (·.id = x.1)
    · exact fun _ => ih
    · rintro ⟨⟩
    · rintro ⟨⟩
    · rintro ⟨he⟩
      exact Places.cons (f := fun x : Emitter × Bool => existsPart node x.2 x.1) (a := (_, x.2))
        (existsPart_places he x.2) ih

theorem whereParts_places :
    Places (whereParts node emitters) (ShowAll (node.whereBinds embeds)) := by
  refine (Places.mapM fun f _ => filterSql_places node f).bind ?_
  rintro filters _ _ ⟨rfl, rfl⟩
  refine (logicSqls_places node node.logic).bind ?_
  rintro logic _ _ ⟨rfl, rfl⟩
  refine (innerParts_places h).bind ?_
  rintro inner _ _ ⟨rfl, rfl⟩
  refine (existenceParts_places h node.existence).map ?_
  rintro existence _ _ ⟨rfl, rfl⟩
  exact ⟨rfl, by simp⟩

theorem itemSql_places (item : PlannedItem) :
    Places (itemSql node emitters item) (Shows (item.binds embeds)) := by
  cases item with
  | star => exact Places.pure ⟨rfl, by simp⟩
  | field field output cast =>
    simp only [itemSql]
    cases cast.filter (· ≠ "") with
    | none => exact Places.pure ⟨rfl, by simp⟩
    | some name =>
      refine (Places.lift (P := fun _ binds params => binds = [] ∧ params = [])
        fun _ _ => ⟨rfl, rfl⟩).map ?_
      rintro name _ _ ⟨rfl, rfl⟩
      exact ⟨rfl, by simp; rfl⟩
  | embed id =>
    have hfound := find_binds h id
    simp only [itemSql, PlannedItem.binds]
    revert hfound
    cases emitters.find? (·.node.id = id) <;> cases embeds.find? (·.id = id)
    · exact fun _ => Places.pure ⟨rfl, rfl⟩
    · rintro ⟨⟩
    · rintro ⟨⟩
    · rintro ⟨he⟩
      exact (he.select node.alias_).shows fun sql => by split <;> simp

theorem selectSql_places {opts : SelectOptions}
    (hfrom : ∀ sql ∈ opts.from, sql.params = []) (hjoin : ∀ sql ∈ opts.join, sql.params = [])
    (hcolumns : ∀ sql ∈ opts.columns, sql.params = []) : Places (selectSql node emitters opts)
      (Shows ((if opts.columns.isSome then [] else node.itemBinds embeds) ++
        node.whereBinds embeds)) := by
  have hitems : Places (itemsSql node emitters opts.columns)
      (ShowAll (if opts.columns.isSome then [] else node.itemBinds embeds)) := by
    cases hc : opts.columns with
    | some columns => exact Places.pure ⟨rfl, by simp [hcolumns columns hc]⟩
    | none => exact Places.mapM fun item _ => itemSql_places h item
  have hsource : (opts.from.getD (qtable node.table.schema node.table.name)).params = [] := by
    cases hf : opts.from with
    | none => rfl
    | some source => exact hfrom source hf
  have hjoined : opts.join.toList.flatMap Sql.params = [] := by
    simpa using hjoin
  refine hitems.bind ?_
  rintro cols _ _ ⟨rfl, rfl⟩
  refine (whereParts_places h).bind ?_
  rintro parts _ _ ⟨rfl, rfl⟩
  have horder : Places (node.order.mapM fun t => (orderTermSql node t : Emit Sql))
      (ShowAll (node.order.flatMap fun _ => [])) :=
    Places.mapM fun t _ => Places.lift fun sql hsql => ⟨rfl, (orderTermSql_params hsql).symm⟩
  refine horder.map ?_
  rintro order _ _ ⟨rfl, rfl⟩
  refine ⟨by simp, ?_⟩
  simp only [params_append, params_join, params_raw, params_qi, params_clause, hsource,
    List.flatMap_append, hjoined, List.nil_append, List.append_nil]
  cases effectiveLimit node.limit opts.maxRows <;>
    cases node.offset.filter (¬isZero ·) <;> simp

theorem existsSql_places {join : Sql} (hjoin : join.params = []) :
    Places (existsSql node emitters join) (Shows (node.whereBinds embeds)) := by
  refine (whereParts_places h).map ?_
  rintro parts _ _ ⟨rfl, rfl⟩
  exact ⟨rfl, by simp [hjoin]⟩

end Emitters

theorem Embeds.emitters_bind (embeds : Embeds) :
    List.Forall₂ Emitter.Binds embeds.emitters embeds.binds := by
  induction embeds with
  | nil => exact .nil
  | cons embed node children siblings ihc ihs =>
    refine .cons ⟨rfl, rfl, fun parent => ?_, fun parent => ?_⟩ ihs
    · exact selectSql_places ihc nofun (by simp) nofun
    · exact existsSql_places ihc (params_joinSql _ _ _)

section Tree
variable (tree : ReadTree)

theorem ReadTree.whereParts_places : Places tree.whereParts (ShowAll tree.whereBinds) :=
  Rest.whereParts_places tree.embeds.emitters_bind

theorem ReadTree.selectSql_places {opts : SelectOptions}
    (hfrom : ∀ sql ∈ opts.from, sql.params = []) (hjoin : opts.join = none)
    (hcolumns : opts.columns = none) : Places (tree.selectSql opts) (Shows tree.selectBinds) := by
  have hplaces : Places (Rest.selectSql tree.root tree.embeds.emitters opts) _ :=
    Rest.selectSql_places tree.embeds.emitters_bind hfrom (by simp [hjoin]) (by simp [hcolumns])
  simp only [hcolumns, Option.isSome_none, Bool.false_eq_true, if_false] at hplaces
  exact hplaces

end Tree

namespace PostgrestEngine

def countBinds (prefer : Prefer) (tree : ReadTree) : List Bind :=
  if prefer.count then tree.whereBinds else []

def shapeBinds (shape : Option ReadTree) : List Bind := (shape.map (·.selectBinds)).getD []

def insertBinds (cols : List String) (rows : List Fields) (missingDefault : Bool) : List Bind :=
  if rows.isEmpty ∨ cols.isEmpty then []
  else (if missingDefault then cols.map .text else []) ++ [.json (.array (rows.map .object))]

def callBinds (fn : FunctionInfo) (args : Fields) : List Bind :=
  if ¬singleJson fn ∧ args.isEmpty then [] else [.json (.object args)]

def rowBinds (fn : FunctionInfo) (prefer : Prefer) : Option ReadTree → List Bind
  | some tree =>
    if fn.returnShape = .setofComposite then countBinds prefer tree ++ tree.selectBinds else []
  | none => []

/-- The values that a mutation binds, in the order of the places that its text
has for them. -/
inductive Writes : MutationSql → List Bind → Prop where
  | insert (t cols rows conflict missingDefault) :
    Writes (insertSql t cols rows conflict missingDefault) (insertBinds cols rows missingDefault)
  | nothing {planner t params} : Writes (updateSql planner t params []) []
  | update {planner t params payload target} (hne : payload ≠ [])
      (h : planner.readTree t (some [.star]) params t.name = .ok target) :
    Writes (updateSql planner t params payload) (.json (.object payload) :: target.targetBinds)
  | delete {planner t params target}
      (h : planner.readTree t (some [.star]) params t.name = .ok target) :
    Writes (deleteSql planner t params) target.targetBinds

/-- The values that a plan binds, in the order of its statement's places. -/
inductive Plan.Binds : Plan → List Bind → Prop where
  | read {t tree prefer single head} :
    Binds (.read t tree prefer single head) (countBinds prefer tree ++ tree.selectBinds)
  | mutate {t shape mutation prefer single kind written} (h : Writes mutation written) :
    Binds (.mutate t shape mutation prefer single kind) (written ++ shapeBinds shape)
  | rpc {fn args params tree prefer single head} :
    Binds (.rpc fn args params tree prefer single head)
      (callBinds fn args ++ rowBinds fn prefer tree)

variable {engine : PostgrestEngine} {snapshot : SchemaSnapshot} {req : EngineRequest}
  {t : TableInfo} {prefer : Prefer} {single head : Bool} {planner : Planner} {params : QueryParams}

theorem totalSql_places {tree : ReadTree} {source : Sql} (h : source.params = []) :
    Places (totalSql prefer tree source) fun sql binds params =>
      binds = countBinds prefer tree ∧ params = sql.params ∧
        sql.params = if prefer.count then sql.params else [] := by
  unfold totalSql countBinds
  split
  · refine tree.whereParts_places.map ?_
    rintro parts _ _ ⟨rfl, rfl⟩
    refine ⟨rfl, ?_, rfl⟩
    rw [params_append, params_append, params_clause]
    simp [h]
  · exact Places.pure ⟨rfl, rfl, rfl⟩

@[simp] theorem params_pageBody : (pageBody head single).params = [] := by
  cases head <;> cases single <;> rfl

theorem read_places {tree : ReadTree} :
    Places (engine.read t tree prefer single head) fun prepared binds params =>
      (Plan.read t tree prefer single head).Binds binds ∧ params = prepared.sql.params := by
  refine (tree.selectSql_places (by simp) rfl rfl).bind_last ?_
  rintro top _ _ ⟨rfl, rfl⟩
  refine (totalSql_places rfl).map ?_
  rintro count _ _ ⟨rfl, rfl, -⟩
  exact ⟨.read, by simp⟩

theorem limitedPart_places (tree : ReadTree) : Places (limitedPart tree)
    (ShowAll (if tree.root.limit.isSome ∨ tree.root.offset.isSome then tree.whereBinds else [])) := by
  unfold limitedPart
  split
  · have hinner : Places (tree.selectSql { columns := some (qi tree.root.alias_ ++ raw ".ctid") })
        (Shows tree.whereBinds) :=
      Rest.selectSql_places tree.embeds.emitters_bind (by simp) (by simp) (by simp)
    refine hinner.map ?_
    rintro sql _ _ ⟨rfl, rfl⟩
    exact ⟨rfl, by simp⟩
  · exact Places.pure ⟨rfl, rfl⟩

theorem targetWhere_places (tree : ReadTree) :
    Places (targetWhere tree) (Shows tree.targetBinds) := by
  refine tree.whereParts_places.bind ?_
  rintro parts _ _ ⟨rfl, rfl⟩
  refine (limitedPart_places tree).map ?_
  rintro limited _ _ ⟨rfl, rfl⟩
  exact ⟨rfl, by rw [params_clause, List.flatMap_append]⟩

theorem defaultedSql_places (c : String) : Places (defaultedSql t c) (Shows [.text c]) := by
  refine (addParam_places _).shows fun sql => ?_
  cases (t.columns.get c).bind (·.defaultExpr) with
  | none => simp
  | some expr => simp

theorem params_namesSql (names : List String) : (namesSql names).params = [] := by
  simp [namesSql, List.flatMap_map]

theorem params_conflictSql (cols : List String) (conflict : Option (List String × Resolution)) :
    (conflictSql cols conflict).params = [] := by
  cases conflict with
  | none => rfl
  | some conflict =>
    simp only [conflictSql]
    split <;> simp [params_namesSql, List.flatMap_map]

abbrev MutationSql.Placed (mutation : MutationSql) : Prop :=
  ∀ returning : Sql, returning.params = [] → Places (mutation returning) fun r binds params =>
    Writes mutation binds ∧ params = r.1.params

theorem insertSql_places {cols : List String} {rows : List Fields}
    {conflict : Option (List String × Resolution)} {missingDefault : Bool} :
    (insertSql t cols rows conflict missingDefault).Placed := by
  intro returning hr
  have hplaces : Places (insertSql t cols rows conflict missingDefault returning)
      fun r binds params =>
        binds = insertBinds cols rows missingDefault ∧ params = r.1.params := by
    unfold insertSql insertBinds
    by_cases hrows : rows.isEmpty
    · simp only [hrows, if_true, true_or]
      exact Places.pure ⟨rfl, by simp [selectNone, hr]⟩
    by_cases hcols : cols.isEmpty
    · simp only [hrows, hcols, if_true, or_true]
      exact Places.pure ⟨rfl, by simp [hr]⟩
    simp only [hrows, hcols, or_self]
    refine (addParam_places _).bind_last ?_
    rintro body _ _ ⟨rfl, rfl⟩
    cases missingDefault with
    | false => exact Places.pure ⟨rfl, by simp [hr, params_namesSql, params_conflictSql]⟩
    | true =>
      refine (Places.mapM fun c _ => defaultedSql_places c).map ?_
      rintro values _ _ ⟨rfl, rfl⟩
      refine ⟨by simp [← List.map_eq_flatMap], ?_⟩
      simp [hr, params_namesSql, params_conflictSql]
  refine hplaces.mono ?_
  rintro r _ params ⟨rfl, hparams⟩
  exact ⟨.insert t cols rows conflict missingDefault, hparams⟩

theorem deleteSql_places : (deleteSql planner t params).Placed := by
  intro returning hr
  refine (Places.lift (P := fun target binds params =>
    planner.readTree t (some [.star]) _ t.name = .ok target ∧ binds = [] ∧ params = [])
      fun _ h => ⟨h, rfl, rfl⟩).bind ?_
  rintro target _ _ ⟨htarget, rfl, rfl⟩
  refine (targetWhere_places target).map ?_
  rintro sql _ _ ⟨rfl, rfl⟩
  exact ⟨.delete htarget, by simp [hr]⟩

theorem updateSql_places {payload : Fields} : (updateSql planner t params payload).Placed := by
  intro returning hr
  cases payload with
  | nil => exact Places.pure ⟨.nothing, by simp [selectNone, hr]⟩
  | cons field payload =>
    refine (addParam_places _).bind ?_
    rintro body _ _ ⟨rfl, rfl⟩
    refine (Places.lift (P := fun target binds params =>
      planner.readTree t (some [.star]) _ t.name = .ok target ∧ binds = [] ∧ params = [])
        fun _ h => ⟨h, rfl, rfl⟩).bind ?_
    rintro target _ _ ⟨htarget, rfl, rfl⟩
    refine (targetWhere_places target).map ?_
    rintro sql _ _ ⟨rfl, rfl⟩
    exact ⟨.update (List.cons_ne_nil _ _) htarget, by simp [hr, List.flatMap_map]⟩

theorem mutate_places {shape : Option ReadTree} {mutation : MutationSql} {kind : WriteKind}
    (h : mutation.Placed) :
    Places (mutate t shape mutation prefer single kind) fun prepared binds params =>
      (Plan.mutate t shape mutation prefer single kind).Binds binds ∧
        params = prepared.sql.params := by
  have hflag : (insertedFlag t).params = [] := rfl
  cases shape with
  | some tree =>
    refine (tree.selectSql_places (by rintro _ ⟨⟩; rfl) rfl rfl).bind_last ?_
    rintro shaped _ _ ⟨rfl, rfl⟩
    refine (h _ (by split <;> simp [hflag])).map ?_
    rintro ⟨source, what⟩ binds _ ⟨hwrites, rfl⟩
    refine ⟨.mutate hwrites, ?_⟩
    by_cases hs : single <;> by_cases hk : kind = .upsert <;> simp [hs, hk]
  | none =>
    refine (h _ (by split <;> simp [hflag])).map ?_
    rintro ⟨source, what⟩ binds _ ⟨hwrites, rfl⟩
    refine ⟨List.append_nil binds ▸ .mutate hwrites, ?_⟩
    by_cases hs : single <;> by_cases hk : kind = .upsert <;> simp [hs, hk]

def recordParams (record : Option Sql) : List ℕ := (record.map Sql.params).getD []

@[simp] theorem params_fromList (record extra : Option Sql) :
    (fromList record extra).params = recordParams record ++ recordParams extra := by
  cases record <;> cases extra <;> simp [fromList, recordParams]

theorem callSql_places (fn : FunctionInfo) (args : Fields) :
    Places (callSql fn args) fun r binds params => binds = callBinds fn args ∧
      params = r.1.params ++ recordParams r.2 ∧ params = recordParams r.2 ++ r.1.params := by
  unfold callSql callBinds
  by_cases hjson : singleJson fn
  · simp only [hjson, if_true, not_true_eq_false, false_and, if_false]
    refine (addParam_places _).map ?_
    rintro value _ _ ⟨rfl, rfl⟩
    exact ⟨rfl, by simp [recordParams]⟩
  by_cases hargs : args.isEmpty
  · simp only [hjson, hargs]
    exact Places.pure ⟨rfl, by simp [recordParams]⟩
  simp only [hjson, hargs]
  refine Places.bind_last (P := ShowAll (args.flatMap fun _ => [])) (Places.mapM fun r _ => ?_) ?_
  · cases fn.args.reverse.find? (·.name = r.1) with
    | none => exact Places.throw
    | some a => exact Places.pure ⟨rfl, by simp⟩
  rintro cols _ _ ⟨rfl, rfl⟩
  refine (addParam_places _).map ?_
  rintro value _ _ ⟨rfl, rfl⟩
  exact ⟨by simp, by simp [recordParams, List.flatMap_map]⟩

@[simp] theorem params_responseGuard (offset : JsNumber) (counted : Bool) :
    (responseGuard single offset counted).params = [] := by
  unfold responseGuard
  split <;> split <;> simp

theorem params_runSetRpc {call total page : Sql} {record : Option Sql} {columns : String}
    {offset : JsNumber} :
    (runSetRpc (setCallSql call record columns) total page prefer single head offset).sql.params =
      recordParams record ++ call.params ++
        ((if prefer.count then total.params else []) ++ page.params) := by
  cases hc : prefer.count <;> simp [runSetRpc, setCallSql, recordParams, hc]

theorem callStatement_places {fn : FunctionInfo} {args : Fields} {tree : Option ReadTree} :
    Places (engine.callStatement fn args params tree prefer single head) fun prepared binds places =>
      (Plan.rpc fn args params tree prefer single head).Binds binds ∧
        places = prepared.sql.params := by
  suffices h : Places (engine.callStatement fn args params tree prefer single head)
      fun prepared binds places =>
        binds = callBinds fn args ++ rowBinds fn prefer tree ∧ places = prepared.sql.params by
    refine h.mono ?_
    rintro prepared _ _ ⟨rfl, hplaces⟩
    exact ⟨.rpc, hplaces⟩
  have hother : (∀ rows, fn.returnShape = .setofComposite → tree = some rows → False) →
      rowBinds fn prefer tree = [] := by
    intro h
    cases tree with
    | none => rfl
    | some rows => exact if_neg fun hshape => h rows hshape rfl
  refine (callSql_places fn args).bind ?_
  rintro ⟨call, record⟩ _ places ⟨rfl, hcall, hrecord⟩
  dsimp only at hcall hrecord ⊢
  split
  · rename_i hshape
    exact Places.pure ⟨by rw [hother (by simp [hshape])], by simp [hcall, recordParams]⟩
  · rename_i hshape
    exact Places.pure ⟨by rw [hother (by simp [hshape])], by simp [hcall, recordParams]⟩
  · rename_i tree hshape
    refine (tree.selectSql_places (by rintro _ ⟨⟩; rfl) rfl rfl).bind_last ?_
    rintro top _ _ ⟨rfl, rfl⟩
    refine (totalSql_places rfl).map ?_
    rintro total _ _ ⟨rfl, rfl, htotal⟩
    refine ⟨by simp [rowBinds, hshape], ?_⟩
    rw [params_runSetRpc, hrecord, ← htotal]
    simp [pageSql]
  · rename_i hshape
    refine Places.pure ⟨by rw [hother (by simp [hshape])], ?_⟩
    rw [params_runSetRpc, hrecord]
    cases effectiveLimit (params.limit.get "") engine.maxRows <;> cases head <;> cases single <;>
      cases isZero ((params.offset.get "").getD (.finite 0)) <;> simp [pageSql]
  · rename_i hnone
    exact Places.pure ⟨by rw [hother hnone], by simp [hrecord, recordParams]⟩

theorem emit_places {plan : Plan} (h : plan.Planned) :
    Places (engine.emit plan) fun prepared binds params =>
      plan.Binds binds ∧ params = prepared.sql.params := by
  cases h with
  | read => exact read_places
  | mutate h =>
    cases h with
    | insert => exact mutate_places insertSql_places
    | update => exact mutate_places updateSql_places
    | delete => exact mutate_places deleteSql_places
  | rpc => exact callStatement_places

/-- The placeholders of a request's statement are `$1` to `$k` for its `k` values, each
once, and each stands for the value that the plan binds there. -/
theorem dispatch_binds {statement : Statement}
    {respond : List ResultRow → Except Fault EngineResponse}
    (h : engine.dispatch snapshot req = .ok (statement, respond)) :
    statement.sql.params.Perm (List.range' 1 statement.values.length) ∧
      ∃ plan binds, engine.plan snapshot req = .ok plan ∧ plan.Binds binds ∧
        statement.sql.params.map (fun n => statement.values[n - 1]?) = binds.map some := by
  obtain ⟨plan, hplan, h⟩ := Raises.bind_ok h
  obtain ⟨⟨prepared, values⟩, hemit, h⟩ := Raises.bind_ok h
  cases h
  obtain ⟨binds, params, hplaced, hbinds, rfl⟩ := emit_places (plan_planned hplan) _ _ _ hemit
  exact ⟨hplaced.numbers, plan, binds, hplan, hbinds, hplaced.values values List.prefix_rfl⟩

def defaulted : EngineRequest where
  method := "POST"
  path := "/t"
  query := []
  header name := if name = "prefer" then some "missing=default" else none
  body := .json (.object [("id", .null)])

/-- The key that is looked for stands before the rows, and is bound after them. -/
theorem dispatch_binds_default : ∃ statement respond,
    onAscii.dispatch oneTable defaulted = .ok (statement, respond) ∧
      statement.sql.params = [2, 1] ∧
      statement.sql.params.Perm (List.range' 1 statement.values.length) := by
  have hrun : (onAscii.dispatch oneTable defaulted).toOption.any
      fun r => r.1.sql.params = [2, 1] := by decide +kernel
  cases hdispatch : onAscii.dispatch oneTable defaulted with
  | error e =>
    rw [hdispatch] at hrun
    cases hrun
  | ok r =>
    rw [hdispatch] at hrun
    exact ⟨r.1, r.2, rfl, of_decide_eq_true hrun, (dispatch_binds hdispatch).1⟩

end PostgrestEngine

end Kindred.Rest
