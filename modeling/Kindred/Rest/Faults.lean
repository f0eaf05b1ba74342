import Kindred.Lib.Raising
import Kindred.Rest.Engine
import Kindred.Rest.Reading

/-! Which errors a request may end in, and which it does. -/

namespace Kindred.Rest
open Lib Lib.Tx

/-- One that `handle` turns into a response. -/
def Fault.Answered : Fault → Prop
  | .pgrst _ | .schemaMiss _ | .sql _ => True
  | _ => False

variable {e : Fault} {names : List String}

theorem Fault.Pgrst.answered (h : e.Pgrst) : e.Answered := by
  cases e <;> first | exact h | trivial

abbrev Answers {α : Type} (m : Except Fault α) : Prop := Raises Fault.Answered m

theorem parseQueryParam_answers {u : Unicode} {out : QueryParams} {key value : String} :
    Answers (parseQueryParam u names out key value) := by
  have hbind : ∀ {α : Type} {m : Except Fault α} {f : α → QueryParams},
      (∀ e, m = .error e → e.Pgrst) → Answers (do return f (← m)) :=
    fun h => Raises.bind (fun e he => (h e he).answered) fun _ _ => Raises.pure _
  have hint : ∀ {f : JsNumber → QueryParams}, Answers (do return f (← intParam value key)) := by
    intro f
    refine hbind fun e he => ?_
    unfold intParam at he
    split at he <;> cases he
    trivial
  refine Raises.ite (fun _ => hbind fun _ h => parseSelect_fault h) fun _ => ?_
  refine Raises.ite (fun _ => hbind fun _ h => parseColumns_fault h) fun _ => ?_
  refine Raises.ite (fun _ => Raises.pure _) fun _ => ?_
  split
  · exact hbind fun _ h => parseOrder_fault h
  split
  · exact hint
  split
  · exact hint
  split
  · exact hbind fun _ h => parseLogicValue_fault h
  refine Raises.ite (fun _ => Raises.pure _) fun _ => ?_
  refine Raises.bind (fun e he => (parseFilterKey_fault he).answered) fun _ _ => ?_
  exact hbind fun _ h => parseOpExpr_fault h

theorem parseQueryParams_answers {u : Unicode} {query : List (String × String)} :
    Answers (parseQueryParams u query names) :=
  Raises.foldlM (fun _ _ _ => parseQueryParam_answers) _

namespace Planner
variable {planner : Planner}

theorem table_answers {name : String} : Answers (planner.table name) := by
  unfold table
  split
  · exact Raises.pure _
  · exact Raises.error trivial

theorem relationship_answers {t : TableInfo} {name : String} {hint : Option String} :
    Answers (planner.relationship t name hint) := by
  unfold relationship
  dsimp only
  split
  · exact Raises.pure _
  · split <;> exact Raises.error trivial
  · exact Raises.error trivial

abbrev PlansSafely {α : Type} (m : Tx ℕ Fault α) : Prop :=
  ∀ n, Runs Fault.Answered m n fun _ _ => True

theorem PlansSafely.bind {α β : Type} {m : Tx ℕ Fault α} {f : α → Tx ℕ Fault β}
    (hm : PlansSafely m) (hf : ∀ a, PlansSafely (f a)) : PlansSafely (m >>= f) :=
  fun n => Runs.bind ((hm n).mono fun a n' _ => hf a n')

theorem PlansSafely.pure {α : Type} {a : α} : PlansSafely (Pure.pure a) := fun _ => trivial

mutual

theorem planItem_safe (t : TableInfo) : ∀ item : SelectItem, PlansSafely (planner.planItem t item)
  | .star => by
    exact PlansSafely.pure
  | .field field alias_ cast aggregate _ => fun n => by
    exact Runs.ite (fun _ => Runs.throw trivial) fun _ => Runs.pure trivial
  | .embed name alias_ hint joinType spread items => fun n => by
    refine Runs.ite (fun _ => Runs.throw trivial) fun _ => ?_
    have hrel : PlansSafely (liftM (planner.relationship t name hint) : Tx ℕ Fault Relationship) := by
      intro n
      have hanswers : Answers (planner.relationship t name hint) := relationship_answers
      cases h : planner.relationship t name hint with
      | ok rel => trivial
      | error e => exact hanswers e h
    refine (hrel.bind fun rel => ?_) n
    have hnext : PlansSafely nextAlias := fun _ => trivial
    refine hnext.bind fun id => ?_
    exact (planItems_safe rel.to items).bind fun _ => PlansSafely.pure

theorem planItems_safe (t : TableInfo) :
    ∀ items : List SelectItem, PlansSafely (planner.planItems t items)
  | [] => by
    exact PlansSafely.pure
  | item :: items => by
    refine (planItem_safe t item).bind fun _ => ?_
    exact (planItems_safe t items).bind fun _ => PlansSafely.pure

end

theorem readTree_answers {t : TableInfo} {select : Option (List SelectItem)} {params : QueryParams}
    {topAlias : String} : Answers (planner.readTree t select params topAlias) := by
  have hpath : ∀ {tree : ReadTree} {path : String}, Answers (tree.atPath path) := by
    intro tree path
    unfold ReadTree.atPath
    split
    · exact Raises.pure _
    · exact Raises.error trivial
  have hattach : ∀ {α : Type} {values : ByPath α} {add : α → ReadNode → Embeds → ReadNode}
      {tree : ReadTree}, Answers (tree.attach values add) :=
    Raises.foldlM (fun _ _ _ => hpath.bind fun _ _ => Raises.pure _) _
  refine Raises.bind (Raises.of_runs (planItems_safe t _ 0)) fun _ _ => ?_
  exact hattach.bind fun _ _ => hattach.bind fun _ _ => hattach.bind fun _ _ =>
    hattach.bind fun _ _ => hattach

theorem checkColumns_answers {t : TableInfo} {cols : List String} :
    Answers (checkColumns t cols) := by
  unfold checkColumns
  split
  · exact Raises.error trivial
  · exact Raises.pure _

end Planner

namespace PostgrestEngine
variable {engine : PostgrestEngine} {snapshot : SchemaSnapshot} {req : EngineRequest}
  {t : TableInfo} {prefer : Prefer} {single : Bool} {name schema : String}

theorem schemaFor_answers : Answers (schemaFor req snapshot) := by
  unfold schemaFor schemaFor.notOne
  dsimp only
  split
  · split
    · exact Raises.pure _
    · exact Raises.error trivial
  · exact Raises.error trivial

theorem shapeTree_answers {planner : Planner} {params : QueryParams} {kind : WriteKind} :
    Answers (shapeTree planner t params prefer single kind) := by
  refine Raises.ite (fun _ => ?_) fun _ => Raises.pure _
  exact Planner.readTree_answers.bind fun _ _ => Raises.pure _

theorem parseBody_answers : Answers (parseBody req) := by
  unfold parseBody
  split
  · exact Raises.pure _
  · exact Raises.error trivial
  · exact Raises.pure _

theorem payloadRows_answers {payload : Json} : Answers (payloadRows payload) := by
  refine Raises.mapM fun r _ => ?_
  split
  · exact Raises.pure _
  · exact Raises.error trivial

theorem insert_answers {planner : Planner} :
    Answers (engine.insert planner t req prefer single) := by
  refine parseQueryParams_answers.bind fun params _ => parseBody_answers.bind fun payload _ => ?_
  refine payloadRows_answers.bind fun rows _ => Planner.checkColumns_answers.bind fun _ _ => ?_
  refine Planner.checkColumns_answers.bind fun _ _ => ?_
  refine Raises.ite (fun _ => Raises.error trivial) fun _ => ?_
  exact shapeTree_answers.bind fun _ _ => Raises.pure _

theorem update_answers {planner : Planner} :
    Answers (engine.update planner t req prefer single) := by
  refine parseQueryParams_answers.bind fun params _ => parseBody_answers.bind fun payload _ => ?_
  split
  · refine Planner.checkColumns_answers.bind fun _ _ => ?_
    exact shapeTree_answers.bind fun _ _ => Raises.pure _
  · exact Raises.error trivial

theorem remove_answers {planner : Planner} :
    Answers (engine.remove planner t req prefer single) := by
  refine parseQueryParams_answers.bind fun params _ => ?_
  exact shapeTree_answers.bind fun _ _ => Raises.pure _

theorem rpcArgs_answers : Answers (rpcArgs snapshot schema name req) := by
  refine Raises.ite (fun _ => parseBody_answers.bind fun _ _ => ?_) fun _ => ?_
  · split
    · exact Raises.pure _
    · exact Raises.error trivial
  · exact Raises.ite (fun _ => Raises.pure _) fun _ => Raises.error trivial

theorem resolveFunction_answers {keys : List String} :
    Answers (engine.resolveFunction snapshot schema name keys) := by
  unfold resolveFunction
  dsimp only
  split
  · exact Raises.pure _
  · exact Raises.error trivial
  · split <;> exact Raises.error trivial

theorem rowTree_answers {planner : Planner} {fn : FunctionInfo} {params : QueryParams} :
    Answers (rowTree planner fn params) := by
  refine Raises.ite (fun _ => ?_) fun _ => Raises.pure _
  exact Planner.readTree_answers.bind fun _ _ => Raises.pure _

theorem rpc_answers : Answers (engine.rpc snapshot schema name req prefer single) := by
  refine rpcArgs_answers.bind fun args _ => resolveFunction_answers.bind fun fn _ => ?_
  refine parseQueryParams_answers.bind fun params _ => ?_
  exact rowTree_answers.bind fun _ _ => Raises.pure _

def Decodes (snapshot : SchemaSnapshot) (req : EngineRequest) : Prop :=
  (schemaFor req snapshot).isOk → (segments req.path).isOk

theorem segments_error {path : String} (h : segments path = .error e) : e = .uriError := by
  have hall : Raises (· = .uriError) (segments path) := by
    refine Raises.mapM fun s _ => ?_
    split
    · exact Raises.pure _
    · exact Raises.error rfl
  exact hall e h

theorem plan_answers (h : Decodes snapshot req) : Answers (engine.plan snapshot req) := by
  refine schemaFor_answers.bind fun schema hschema => ?_
  have hdecodes : (segments req.path).isOk := h (by rw [hschema]; rfl)
  refine Raises.bind (fun e he => by simp [he, Except.isOk, Except.toBool] at hdecodes) fun parts _ => ?_
  split
  · exact rpc_answers
  · refine Planner.table_answers.bind fun t _ => ?_
    refine Raises.ite (fun _ => ?_) fun _ => ?_
    · refine parseQueryParams_answers.bind fun _ _ => ?_
      exact Planner.readTree_answers.bind fun _ _ => Raises.pure _
    refine Raises.ite (fun _ => insert_answers) fun _ => ?_
    refine Raises.ite (fun _ => update_answers) fun _ => ?_
    exact Raises.ite (fun _ => remove_answers) fun _ => Raises.error trivial
  · exact Raises.error trivial

theorem plan_uriError (h : ¬Decodes snapshot req) : engine.plan snapshot req = .error .uriError := by
  unfold Decodes at h
  push Not at h
  obtain ⟨hschema, hsegments⟩ := h
  unfold plan
  cases hs : schemaFor req snapshot with
  | error e => simp [hs, Except.isOk, Except.toBool] at hschema
  | ok schema =>
    cases hp : segments req.path with
    | ok parts => simp [hp, Except.isOk, Except.toBool] at hsegments
    | error e =>
      rw [segments_error hp]
      rfl

end PostgrestEngine

def exceptFaults {α : Type} : Except Fault α → List Fault
  | .ok _ => []
  | .error e => [e]

def castFaults (cast : Option String) : List Fault :=
  match cast.filter (· ≠ "") with
  | some t => exceptFaults (safeTypeName t)
  | none => []

def itemFaults (embeds : List (ℕ × List Fault)) : PlannedItem → List Fault
  | .star => []
  | .field _ _ cast => castFaults cast
  | .embed id => ((embeds.find? (·.1 = id)).map (·.2)).getD []

def orderFaults (node : ReadNode) : List Fault :=
  node.order.flatMap fun t => exceptFaults (orderTermSql node t)

def ReadNode.faults (node : ReadNode) (embeds : List (ℕ × List Fault)) : List Fault :=
  node.items.flatMap (itemFaults embeds) ++ orderFaults node

def Embeds.faults : Embeds → List (ℕ × List Fault)
  | nil => []
  | cons _ node children siblings => (node.id, node.faults children.faults) :: siblings.faults

def ReadTree.faults (tree : ReadTree) : List Fault := tree.root.faults tree.embeds.faults

theorem lift_fails {α : Type} (m : Except Fault α) : Fails (liftM m : Emit α) (exceptFaults m) := by
  cases m with
  | ok a => exact Fails.lift_ok a
  | error e => exact Fails.lift_error e

theorem addParam_fails {value : Bind} : Fails (addParam value) [] := fun _ => ⟨_, rfl⟩

theorem filterSql_fails {node : ReadNode} {f : Filter} : Fails (filterSql node f) [] := by
  unfold filterSql opSql
  refine Fails.bind_pure ?_
  unfold operationSql
  split
  · exact Fails.bind_pure addParam_fails
  · exact Fails.pure _
  · exact Fails.bind_pure addParam_fails
  · exact Fails.bind_pure addParam_fails
  · refine Fails.bind addParam_fails fun _ => ?_
    split <;> exact Fails.pure _

mutual

theorem logicSql_fails (node : ReadNode) : ∀ tree : LogicTree, Fails (logicSql node tree) []
  | .filter f => by
    exact filterSql_fails
  | .expr negate op children => by
    exact Fails.bind_pure (logicSqls_fails node children)

theorem logicSqls_fails (node : ReadNode) :
    ∀ trees : List LogicTree, Fails (logicSqls node trees) []
  | [] => Fails.pure _
  | tree :: trees => by
    exact (logicSql_fails node tree).bind fun _ => Fails.bind_pure (logicSqls_fails node trees)

end

def Accounted (emitters : List Emitter) (faults : List (ℕ × List Fault)) : Prop :=
  (∀ e ∈ emitters, ∀ parent, Fails (e.exists_ parent) []) ∧
    ∀ id, match emitters.find? (·.node.id = id) with
      | some e => ∀ parent,
        Fails (e.select parent) (((faults.find? (·.1 = id)).map (·.2)).getD [])
      | none => ((faults.find? (·.1 = id)).map (·.2)).getD [] = []

section Node
variable {node : ReadNode} {emitters : List Emitter} {faults : List (ℕ × List Fault)}

theorem whereParts_fails (h : Accounted emitters faults) : Fails (whereParts node emitters) [] := by
  have hexists : ∀ e ∈ emitters, ∀ b, Fails (existsPart node b e) [] :=
    fun e he b => Fails.bind_pure (h.1 e he node.alias_)
  refine Fails.bind (Fails.mapM_nil fun f _ => filterSql_fails) fun _ => ?_
  refine Fails.bind (logicSqls_fails node node.logic) fun _ => ?_
  refine Fails.bind (Fails.mapM_nil fun e he => hexists e (List.mem_of_mem_filter he) true) fun _ => ?_
  refine Fails.bind_pure (Fails.mapM_nil fun x hx => ?_)
  obtain ⟨y, -, hy⟩ := List.mem_filterMap.mp hx
  obtain ⟨e, he, rfl⟩ := Option.map_eq_some_iff.mp hy
  exact hexists e (List.mem_of_find?_eq_some he) y.2

theorem itemSql_fails (h : Accounted emitters faults) (item : PlannedItem) :
    Fails (itemSql node emitters item) (itemFaults faults item) := by
  cases item with
  | star => exact Fails.pure _
  | field field output cast =>
    simp only [itemSql, itemFaults, castFaults]
    cases cast.filter (· ≠ "") with
    | some name => exact Fails.bind_pure (lift_fails _)
    | none => exact Fails.pure _
  | embed id =>
    have hid := h.2 id
    simp only [itemSql, itemFaults]
    split
    · rename_i hnone
      rw [hnone] at hid
      rw [hid]
      exact Fails.pure _
    · rename_i e he
      rw [he] at hid
      exact Fails.bind_pure (hid node.alias_)

theorem selectSql_fails (h : Accounted emitters faults) (opts : SelectOptions) :
    Fails (selectSql node emitters opts)
      ((if opts.columns.isSome then [] else node.items.flatMap (itemFaults faults)) ++
        orderFaults node) := by
  have hitems : Fails (itemsSql node emitters opts.columns)
      (if opts.columns.isSome then [] else node.items.flatMap (itemFaults faults)) := by
    cases opts.columns with
    | some columns => exact Fails.pure _
    | none => exact Fails.mapM fun item _ => itemSql_fails h item
  refine hitems.bind fun _ => ?_
  rw [← List.nil_append (orderFaults node)]
  refine (whereParts_fails h).bind fun _ => ?_
  exact Fails.bind_pure (Fails.mapM fun t _ => lift_fails _)

end Node

theorem Embeds.accounted (embeds : Embeds) : Accounted embeds.emitters embeds.faults := by
  induction embeds with
  | nil => exact ⟨by simp [emitters], by simp [emitters, faults]⟩
  | cons embed node children siblings ihc ihs =>
    have hexists : ∀ parent, Fails
        (existsSql node children.emitters (joinSql parent embed node)) [] :=
      fun parent => Fails.bind_pure (whereParts_fails ihc)
    constructor
    · intro e he
      rcases List.mem_cons.mp he with rfl | he
      · exact hexists
      · exact ihs.1 e he
    · intro id
      by_cases hid : node.id = id
      · simp only [emitters, faults, List.find?_cons, hid, decide_true, Option.map_some,
          Option.getD_some]
        intro parent
        exact selectSql_fails ihc _
      · simpa only [emitters, faults, List.find?_cons, hid, decide_false] using ihs.2 id

theorem ReadTree.selectSql_fails (tree : ReadTree) {opts : SelectOptions}
    (h : opts.columns = none) : Fails (tree.selectSql opts) tree.faults := by
  have hfails : Fails (tree.selectSql opts) _ := Rest.selectSql_fails tree.embeds.accounted opts
  simpa [h, faults, ReadNode.faults] using hfails

theorem orderFaults_answered (node : ReadNode) : ∀ e ∈ orderFaults node, e.Answered := by
  intro e he
  obtain ⟨term, -, he⟩ := List.mem_flatMap.mp he
  unfold orderTermSql at he
  split at he
  · simp only [exceptFaults, List.mem_singleton] at he
    rw [he]
    trivial
  · simp [exceptFaults] at he

def Prepared.Responds (prepared : Prepared) : Prop :=
  ∀ rows, (prepared.effect ≠ .call → rows ≠ []) → Answers (prepared.respond rows)

namespace PostgrestEngine
variable {engine : PostgrestEngine} {snapshot : SchemaSnapshot} {req : EngineRequest}
  {prefer : Prefer} {t : TableInfo} {single head : Bool} {params : QueryParams} {fn : FunctionInfo}
  {args : Fields} {plan : Plan} {shape : Option ReadTree} {mutation : MutationSql}

theorem countSql_fails {tree : ReadTree} {source : Sql} : Fails (countSql tree source) [] :=
  Fails.bind_pure (whereParts_fails tree.embeds.accounted)

theorem totalSql_fails {tree : ReadTree} {source : Sql} :
    Fails (totalSql prefer tree source) [] := by
  unfold totalSql
  split
  · exact countSql_fails
  · exact Fails.pure _

theorem read_fails {tree : ReadTree} :
    Fails (engine.read t tree prefer single head) tree.faults := by
  rw [← List.append_nil tree.faults]
  exact (tree.selectSql_fails rfl).bind fun top => Fails.bind_pure totalSql_fails

def Plan.tree : Plan → Option ReadTree
  | .read _ tree _ _ _ => some tree
  | .mutate _ shape _ _ _ _ => shape
  | .rpc _ _ _ tree _ _ _ => tree

/-- What is planned raises no error of its own after its tree is written. -/
def Plan.Sound : Plan → Prop
  | .read _ _ _ _ _ => True
  | .mutate _ _ mutation _ _ _ => ∀ returning values, Answers (mutation returning values)
  | .rpc fn args _ tree _ _ _ => takes (args.map (·.1)) fn ∧
      (tree.isSome → fn.returnShape = .setofComposite)

theorem insertSql_answers {cols : List String} {rows : List Fields}
    {conflict : Option (List String × Resolution)} {missingDefault : Bool} (returning : Sql)
    (values : List Bind) :
    Answers (insertSql t cols rows conflict missingDefault returning values) := by
  have hfails : Fails (insertSql t cols rows conflict missingDefault returning) [] := by
    unfold insertSql
    split
    · exact Fails.pure _
    split
    · exact Fails.pure _
    refine Fails.bind addParam_fails fun _ => ?_
    split
    · exact Fails.bind_pure (Fails.mapM_nil fun c _ => Fails.bind_pure addParam_fails)
    · exact Fails.pure _
  exact hfails.raises (by simp) values

theorem targetWhere_answers (tree : ReadTree) (values : List Bind) :
    Answers (targetWhere tree values) := by
  have hlimited : Fails (limitedPart tree)
      (if tree.root.limit.isSome ∨ tree.root.offset.isSome then orderFaults tree.root else []) := by
    unfold limitedPart
    split
    · exact Fails.bind_pure (Rest.selectSql_fails tree.embeds.accounted _)
    · exact Fails.pure _
  have hfails : Fails (targetWhere tree) _ :=
    (whereParts_fails tree.embeds.accounted).bind fun _ => Fails.bind_pure hlimited
  refine hfails.raises (fun e he => orderFaults_answered tree.root e ?_) values
  have hmem : e ∈ if tree.root.limit.isSome ∨ tree.root.offset.isSome then orderFaults tree.root
      else [] := List.mem_of_mem_head? he
  split at hmem
  · exact hmem
  · cases hmem

theorem mutationSql_answers {m : Emit (Sql × Mutation)} {planner : Planner}
    {f : ReadTree → Sql → Sql × Mutation} (h : m = do
      let tree ← planner.readTree t (some [.star]) params t.name let where_ ← targetWhere tree
      return f tree where_) (values : List Bind) : Answers (m values) := by
  subst h
  have hfails := lift_fails (planner.readTree t (some [.star]) params t.name)
  refine hfails.bind_raises (fun e he => ?_) (fun tree s => ?_) values
  · have hanswers : Answers (planner.readTree t (some [.star]) params t.name) :=
      Planner.readTree_answers
    cases hr : planner.readTree t (some [.star]) params t.name with
    | ok tree => simp [hr, exceptFaults] at he
    | error e' =>
      simp only [hr, exceptFaults, List.head?_cons, Option.mem_def, Option.some.injEq] at he
      exact hanswers e (by rw [hr, he])
  · have hwhere := targetWhere_answers tree s
    intro e he
    refine hwhere e ?_
    have hbind : (targetWhere tree >>= fun where_ => pure (f tree where_)) s =
        targetWhere tree s >>= fun p => .ok (f tree p.1, p.2) := rfl
    cases hw : targetWhere tree s with
    | ok p =>
      rw [hbind, hw] at he
      cases he
    | error e' =>
      rw [hbind, hw] at he
      cases he
      rfl

theorem updateSql_answers {planner : Planner} {payload : Fields} (returning : Sql)
    (values : List Bind) : Answers (updateSql planner t params payload returning values) := by
  unfold updateSql
  split
  · exact Raises.pure _
  · exact addParam_fails.bind_raises (by simp) (fun _ s => mutationSql_answers rfl s) values

theorem deleteSql_answers {planner : Planner} (returning : Sql) (values : List Bind) :
    Answers (deleteSql planner t params returning values) :=
  mutationSql_answers rfl values

theorem resolveFunction_takes {schema name : String} {keys : List String}
    (h : engine.resolveFunction snapshot schema name keys = .ok fn) : takes keys fn := by
  unfold resolveFunction at h
  dsimp only at h
  have hmem : fn ∈ ((snapshot.functions.get (schema, name)).getD []).filter (takes keys) := by
    split at h
    · rename_i hfound
      cases h
      have hf : fn ∈ [fn] := List.mem_singleton_self fn
      rw [← hfound] at hf
      split at hf
      · exact List.mem_of_mem_filter hf
      · exact hf
    · cases h
    · split at h <;> cases h
  exact (List.mem_filter.mp hmem).2

theorem callSql_fails (h : takes (args.map (·.1)) fn) : Fails (callSql fn args) [] := by
  unfold callSql
  split
  · exact Fails.bind_pure addParam_fails
  split
  · exact Fails.pure _
  rename_i hjson _
  rw [← List.nil_append ([] : List Fault)]
  refine Fails.bind (Fails.mapM_nil fun r hr => ?_) fun _ => Fails.bind_pure addParam_fails
  have hname : fn.args.any (·.name = r.1) := by
    simp only [takes, Bool.or_eq_true, Bool.and_eq_true, List.all_eq_true] at h
    have hall := (h.resolve_left hjson).1.2
    exact hall r.1 (List.mem_map_of_mem hr)
  split
  · exact Fails.pure _
  · rename_i hnone
    obtain ⟨a, ha, heq⟩ := List.any_eq_true.mp hname
    have hfalse := List.find?_eq_none.mp hnone a (List.mem_reverse.mpr ha)
    exact absurd heq hfalse

theorem callStatement_fails {tree : Option ReadTree} (h : takes (args.map (·.1)) fn)
    (hshape : tree.isSome → fn.returnShape = .setofComposite) :
    Fails (engine.callStatement fn args params tree prefer single head)
      ((tree.map (·.faults)).getD []) := by
  rw [← List.nil_append ((tree.map (·.faults)).getD [])]
  refine (callSql_fails h).bind fun r => ?_
  obtain ⟨call, record⟩ := r
  cases tree with
  | some tree =>
    rw [hshape rfl]
    dsimp only [Option.map_some, Option.getD_some]
    rw [← List.append_nil tree.faults]
    exact (tree.selectSql_fails rfl).bind fun top => Fails.bind_pure totalSql_fails
  | none => cases fn.returnShape <;> exact Fails.pure _

theorem rowTree_shape {planner : Planner} {tree : Option ReadTree}
    (h : rowTree planner fn params = .ok tree) (hsome : tree.isSome) :
    fn.returnShape = .setofComposite := by
  unfold rowTree at h
  split at h
  · assumption
  · cases h
    cases hsome

inductive PlannedMutation : MutationSql → Prop where
  | insert (t cols rows conflict missingDefault) :
    PlannedMutation (insertSql t cols rows conflict missingDefault)
  | update (planner t params payload) : PlannedMutation (updateSql planner t params payload)
  | delete (planner t params) : PlannedMutation (deleteSql planner t params)

inductive Plan.Planned : Plan → Prop where
  | read {t tree prefer single head} : Planned (.read t tree prefer single head)
  | mutate {t shape mutation prefer single kind} (h : PlannedMutation mutation) :
    Planned (.mutate t shape mutation prefer single kind)
  | rpc {fn args params tree prefer single head} (htakes : takes (args.map (·.1)) fn)
      (hshape : tree.isSome → fn.returnShape = .setofComposite) :
    Planned (.rpc fn args params tree prefer single head)

theorem plan_planned (h : engine.plan snapshot req = .ok plan) : plan.Planned := by
  obtain ⟨schema, -, h⟩ := Raises.bind_ok h
  obtain ⟨parts, -, h⟩ := Raises.bind_ok h
  split at h
  · obtain ⟨args, -, h⟩ := Raises.bind_ok h
    obtain ⟨fn, hfn, h⟩ := Raises.bind_ok h
    obtain ⟨params, -, h⟩ := Raises.bind_ok h
    obtain ⟨tree, htree, h⟩ := Raises.bind_ok h
    cases h
    exact .rpc (resolveFunction_takes hfn) (rowTree_shape htree)
  · obtain ⟨t, -, h⟩ := Raises.bind_ok h
    split at h
    · obtain ⟨params, -, h⟩ := Raises.bind_ok h
      obtain ⟨tree, -, h⟩ := Raises.bind_ok h
      cases h
      exact .read
    split at h
    · obtain ⟨params, -, h⟩ := Raises.bind_ok h
      obtain ⟨payload, -, h⟩ := Raises.bind_ok h
      obtain ⟨rows, -, h⟩ := Raises.bind_ok h
      obtain ⟨_, -, h⟩ := Raises.bind_ok h
      obtain ⟨_, -, h⟩ := Raises.bind_ok h
      split at h
      · cases h
      · obtain ⟨shape, -, h⟩ := Raises.bind_ok h
        cases h
        exact .mutate (.insert _ _ _ _ _)
    split at h
    · obtain ⟨params, -, h⟩ := Raises.bind_ok h
      obtain ⟨payload, -, h⟩ := Raises.bind_ok h
      split at h
      · obtain ⟨_, -, h⟩ := Raises.bind_ok h
        obtain ⟨shape, -, h⟩ := Raises.bind_ok h
        cases h
        exact .mutate (.update _ _ _ _)
      · cases h
    split at h
    · obtain ⟨params, -, h⟩ := Raises.bind_ok h
      obtain ⟨shape, -, h⟩ := Raises.bind_ok h
      cases h
      exact .mutate (.delete _ _ _)
    · cases h
  · cases h

theorem plan_sound (h : engine.plan snapshot req = .ok plan) : plan.Sound := by
  cases plan_planned h with
  | read => trivial
  | mutate hm =>
    cases hm with
    | insert => exact insertSql_answers
    | update => exact updateSql_answers
    | delete => exact deleteSql_answers
  | rpc htakes hshape => exact ⟨htakes, hshape⟩

theorem mutate_answers {kind : WriteKind}
    (hmutation : ∀ returning values, Answers (mutation returning values))
    (hshape : ∀ tree ∈ shape, ∀ e ∈ tree.faults.head?, e.Answered) (values : List Bind) :
    Answers (mutate t shape mutation prefer single kind values) := by
  cases shape with
  | some tree =>
    have hfails : Fails (tree.selectSql { «from» := some (raw "pgrst_source") }) tree.faults :=
      tree.selectSql_fails rfl
    refine hfails.bind_raises (hshape tree rfl) (fun shaped s => ?_) values
    exact Raises.run_bind (hmutation _ s) fun _ _ => Raises.pure _
  | none => exact Raises.run_bind (hmutation _ values) fun _ _ => Raises.pure _

def Plan.CastsToTypes (plan : Plan) : Prop :=
  ∀ tree ∈ plan.tree, ∀ e ∈ tree.faults.head?, e.Answered

theorem emit_answers (hsound : plan.Sound) (hcasts : plan.CastsToTypes) (values : List Bind) :
    Answers (engine.emit plan values) := by
  cases plan with
  | read t tree prefer single head =>
    exact read_fails.raises (hcasts tree rfl) values
  | mutate t shape mutation prefer single kind =>
    exact mutate_answers hsound hcasts values
  | rpc fn args params tree prefer single head =>
    refine (callStatement_fails hsound.1 hsound.2).raises ?_ values
    cases tree with
    | none => simp
    | some tree => exact hcasts tree rfl

theorem emit_error (hsound : plan.Sound) {tree : ReadTree} (htree : plan.tree = some tree)
    (he : tree.faults.head? = some e) (values : List Bind) :
    engine.emit plan values = .error e := by
  obtain ⟨faults, hfaults⟩ : ∃ faults, tree.faults = e :: faults := by
    cases h : tree.faults with
    | nil => simp [h] at he
    | cons e' faults =>
      simp only [h, List.head?_cons, Option.some.injEq] at he
      exact ⟨faults, by rw [he]⟩
  cases plan with
  | read t tree' prefer single head =>
    cases htree
    have hfails : Fails (engine.read t tree prefer single head) tree.faults := read_fails
    rw [hfaults] at hfails
    exact hfails values
  | mutate t shape mutation prefer single kind =>
    subst htree
    have hfails : Fails (tree.selectSql { «from» := some (raw "pgrst_source") }) tree.faults :=
      tree.selectSql_fails rfl
    rw [hfaults] at hfails
    exact hfails.bind_error values
  | rpc fn args params tree' prefer single head =>
    subst htree
    have hfails : Fails (engine.callStatement fn args params (some tree) prefer single head)
        tree.faults := callStatement_fails hsound.1 hsound.2
    rw [hfaults] at hfails
    exact hfails values

def Database.Answers (db : Database) : Prop :=
  ∀ statement rows, db statement = .ok rows → statement.effect ≠ .call → rows ≠ []

theorem firstRow_bind {α : Type} {rows : List ResultRow} {f : ResultRow → Except Fault α}
    (h : rows ≠ []) (hf : ∀ row, Answers (f row)) : Answers (firstRow rows >>= f) := by
  cases rows with
  | nil => exact absurd rfl h
  | cons row rows => exact hf row

abbrev Prepares (m : Emit Prepared) : Prop :=
  ∀ values, Runs (fun _ => True) m values fun prepared _ => prepared.Responds

theorem Prepares.bind {α : Type} {m : Emit α} {f : α → Emit Prepared} (hf : ∀ a, Prepares (f a)) :
    Prepares (m >>= f) := by
  intro values
  refine Runs.bind ?_
  unfold Runs
  split
  · exact hf _ _
  · trivial

theorem Prepares.pure {prepared : Prepared} (h : prepared.Responds) : Prepares (Pure.pure prepared) :=
  fun _ => h

theorem read_prepares {tree : ReadTree} : Prepares (engine.read t tree prefer single head) := by
  refine Prepares.bind fun top => Prepares.bind fun count => Prepares.pure ?_
  intro rows hrows
  refine firstRow_bind (hrows nofun) fun row => ?_
  refine Raises.ite (fun _ => Raises.error trivial) fun _ => ?_
  exact Raises.ite (fun _ => Raises.error trivial) fun _ => Raises.pure _

theorem mutate_prepares {kind : WriteKind} :
    Prepares (mutate t shape mutation prefer single kind) := by
  have hresponds : ∀ {sql : Sql} {what : Mutation}, Prepared.Responds {
      sql, effect := .mutate what shape single
      respond := fun rows => do
        let row ← firstRow rows
        if single ∧ row.page ≠ 1 then throw (.pgrst (singularityError (toString row.page)))
        else return mutateResponse prefer single kind row } := by
    intro sql what rows hrows
    refine firstRow_bind (hrows nofun) fun row => ?_
    exact Raises.ite (fun _ => Raises.error trivial) fun _ => Raises.pure _
  cases shape with
  | some tree =>
    exact Prepares.bind fun shaped => Prepares.bind fun _ => Prepares.pure hresponds
  | none => exact Prepares.bind fun _ => Prepares.pure hresponds

theorem runSetRpc_responds {withSource total page : Sql} {offset : JsNumber} :
    (runSetRpc withSource total page prefer single head offset).Responds :=
  fun _ hrows => firstRow_bind (hrows nofun) fun _ => Raises.pure _

theorem callStatement_prepares {tree : Option ReadTree} :
    Prepares (engine.callStatement fn args params tree prefer single head) := by
  refine Prepares.bind fun r => ?_
  obtain ⟨call, record⟩ := r
  dsimp only
  split
  · exact Prepares.pure fun _ _ => Raises.pure _
  · exact Prepares.pure fun _ _ => Raises.pure _
  · exact Prepares.bind fun top => Prepares.bind fun total => Prepares.pure runSetRpc_responds
  · exact Prepares.pure runSetRpc_responds
  · refine Prepares.pure fun rows _ => ?_
    exact Raises.ite (fun _ => Raises.error trivial) fun _ => Raises.pure _

theorem emit_prepares (plan : Plan) : Prepares (engine.emit plan) := by
  cases plan with
  | read => exact read_prepares
  | mutate => exact mutate_prepares
  | rpc => exact callStatement_prepares

def Takes (engine : PostgrestEngine) (snapshot : SchemaSnapshot) (req : EngineRequest) : Prop :=
  Decodes snapshot req ∧ ∀ plan, engine.plan snapshot req = .ok plan → plan.CastsToTypes

theorem attempt_answers {db : Database} (hdb : db.Answers) (h : engine.Takes snapshot req) :
    Answers (engine.attempt db snapshot req) := by
  have hdispatch : Answers (engine.dispatch snapshot req) := by
    refine (plan_answers h.1).bind fun plan hplan => ?_
    exact (emit_answers (plan_sound hplan) (h.2 plan hplan) []).bind fun _ _ => Raises.pure _
  refine hdispatch.bind fun r hr => ?_
  obtain ⟨plan, -, hr⟩ := Raises.bind_ok hr
  obtain ⟨⟨prepared, values⟩, hemit, hr⟩ := Raises.bind_ok hr
  cases hr
  have hprepared : prepared.Responds := by
    have hrun : Runs _ (engine.emit plan) [] _ := emit_prepares plan []
    unfold Runs at hrun
    rw [hemit] at hrun
    exact hrun
  dsimp only
  split
  · rename_i rows hrows
    exact hprepared rows (hdb _ rows hrows)
  · exact Raises.error trivial

theorem attempt_unanswered (db : Database) (h : ¬engine.Takes snapshot req) :
    ∃ e, engine.attempt db snapshot req = .error e ∧ ¬e.Answered := by
  have hdispatch : ∃ e, engine.dispatch snapshot req = .error e ∧ ¬e.Answered := by
    by_cases hdecodes : Decodes snapshot req
    · have hplan : ∃ plan, engine.plan snapshot req = .ok plan ∧ ¬plan.CastsToTypes := by
        simpa [Takes, hdecodes] using h
      obtain ⟨plan, hplan, hcasts⟩ := hplan
      unfold Plan.CastsToTypes at hcasts
      push Not at hcasts
      obtain ⟨tree, htree, e, he, hown⟩ := hcasts
      refine ⟨e, ?_, hown⟩
      unfold dispatch
      rw [hplan]
      show (engine.emit plan [] >>= _) = _
      rw [emit_error (plan_sound hplan) htree he]
      rfl
    · refine ⟨.uriError, ?_, id⟩
      unfold dispatch
      rw [plan_uriError hdecodes]
      rfl
  obtain ⟨e, he, hown⟩ := hdispatch
  refine ⟨e, ?_, hown⟩
  unfold attempt
  rw [he]
  rfl

theorem answerFault_ok (fault : Fault) :
    (∃ response, answerFault fault = .ok response) ↔ fault.Answered := by
  cases fault <;> simp [answerFault, Fault.Answered]
  split
  · simp
  · split <;> simp

def Misses (engine : PostgrestEngine) (db : Database) (snapshot : SchemaSnapshot)
    (req : EngineRequest) : Prop :=
  ∃ fault, engine.attempt db snapshot req = .error fault ∧ isStale req fault

theorem isStale_answered {fault : Fault} (h : isStale req fault) : fault.Answered := by
  cases fault <;> trivial

/-- A request is answered if the snapshots it is planned with take it. -/
theorem handle_answers (cache : SchemaCache) (db : ℕ → Database) (req : EngineRequest)
    (hdb : ∀ n, (db n).Answers) :
    (∃ response, engine.handle cache db req = .ok response) ↔
      engine.Takes cache.current req ∧
        ∀ snapshot ∈ cache.refreshed, engine.Misses (db 0) cache.current req →
          engine.Takes snapshot req := by
  have hattempt : ∀ n snapshot,
      (∀ fault, engine.attempt (db n) snapshot req = .error fault → fault.Answered) ↔
        engine.Takes snapshot req := by
    intro n snapshot
    constructor
    · intro hanswers
      by_contra hnot
      obtain ⟨e, he, hown⟩ := attempt_unanswered (db n) hnot
      exact hown (hanswers e he)
    · intro htakes
      exact attempt_answers (hdb n) htakes
  rw [← hattempt 0]
  unfold handle Misses
  cases hfirst : engine.attempt (db 0) cache.current req with
  | ok response => simp
  | error fault =>
    by_cases hstale : isStale req fault
    · have hanswered := isStale_answered hstale
      cases hnew : cache.refreshed with
      | none => simp [hstale, hanswered, answerFault_ok]
      | some snapshot =>
        have hsecond := hattempt 1 snapshot
        cases ha : engine.attempt (db 1) snapshot req with
        | ok response => simp [hstale, hanswered, ha, ← hsecond]
        | error fault => simp [hstale, hanswered, ha, ← hsecond, answerFault_ok]
    · simp [hstale, answerFault_ok]

def ascii : Unicode := ⟨Char.isAlphanum, fun _ _ => rfl⟩

def onAscii : PostgrestEngine := { unicode := ascii, closest := fun _ _ => none, maxRows := 1000 }

def oneTable : SchemaSnapshot where
  schemas := ["public"]
  tables := Table.empty.put ("public", "t") {
    oid := some 1, schema := "public", name := "t"
    columns := Table.empty.put "id" { typname := "int4", defaultExpr := none }, pk := ["id"] }
  relationships := []
  functions := .empty

def get (path : String) (query : List (String × String)) : EngineRequest :=
  { method := "GET", path, query, header := fun _ => none, body := .absent }

def oneRow (_ : ℕ) : Database := fun _ => .ok [{ page := 1, body := some "[]" }]

theorem oneRow_answers (n : ℕ) : (oneRow n).Answers := by
  rintro statement rows ⟨⟩ -
  simp

/-- A cast to a name that a type has. -/
theorem handle_answers_cast :
    onAscii.Takes oneTable (get "/t" [("select", "id::text")]) := by
  have hok : ∃ response,
      onAscii.handle ⟨oneTable, none⟩ oneRow (get "/t" [("select", "id::text")]) = .ok response := by
    refine ⟨{ status := 200, contentRange := some "0-0/*", body := .text "[]" }, ?_⟩
    decide +kernel
  exact ((handle_answers ⟨oneTable, none⟩ oneRow _ oneRow_answers).mp hok).1

/-- The grammar takes casts that `safeTypeName` does not, and paths that do not decode. -/
theorem cast_to_number_thrown :
    (∀ n, (oneRow n).Answers) ∧
      onAscii.handle ⟨oneTable, none⟩ oneRow (get "/t" [("select", "id::1")]) =
        .error (.error "invalid cast type: 1") ∧
      onAscii.handle ⟨oneTable, none⟩ oneRow (get "/%" []) = .error .uriError :=
  ⟨oneRow_answers, by decide +kernel, by decide +kernel⟩

end PostgrestEngine

end Kindred.Rest
