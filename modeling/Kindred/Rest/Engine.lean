import Kindred.Rest.Plan

/-! An in-process PostgREST: a request becomes one statement, and its rows the
response. -/

namespace Kindred.Rest

/-- The text of a request's body, as `JSON.parse` takes it. -/
inductive Body where
  | absent
  | invalid
  | json (j : Json)

structure EngineRequest where
  method : String
  path : String
  query : List (String × String)
  header : String → Option String
  body : Body

inductive ResponseBody where
  | text (s : String)
  | error (e : PgrstError)
  deriving DecidableEq

structure EngineResponse where
  status : ℕ
  contentRange : Option String := none
  body : ResponseBody
  deriving DecidableEq

inductive Resolution where
  | merge | ignore
  deriving DecidableEq

structure Prefer where
  representation : Bool := false
  count : Bool := false
  resolution : Option Resolution := none
  missingDefault : Bool := false

def parsePrefer (header : String → Option String) : Prefer :=
  let tokens := ((split ',' ((header "prefer").getD "")).map trim).filter (· ≠ "")
  tokens.foldl (fun prefer t =>
    if t = "return=representation" then { prefer with representation := true }
    else if t = "return=minimal" ∨ t = "return=headers-only" then
      { prefer with representation := false }
    else if "count=".toList.isPrefixOf t.toList then { prefer with count := true }
    else if t = "resolution=merge-duplicates" then { prefer with resolution := some .merge }
    else if t = "resolution=ignore-duplicates" then { prefer with resolution := some .ignore }
    else if t = "missing=default" then { prefer with missingDefault := true }
    else prefer) {}

/-- The fields of a JSON object, in the order of `Object.keys`. -/
abbrev Fields := List (String × Json)

inductive Mutation where
  | nothing
  | insert (t : TableInfo) (cols : List String) (rows : List Fields)
      (conflict : Option (List String × Resolution)) (missingDefault : Bool)
  | update (t : TableInfo) (payload : Fields) (target : ReadTree)
  | delete (t : TableInfo) (target : ReadTree)

inductive Effect where
  | read
  | mutate (mutation : Mutation) (shape : Option ReadTree) (guard : Bool)
  | call
  | setCall

structure Statement where
  sql : Sql
  values : List Bind
  effect : Effect

structure ResultRow where
  total : Option ℕ := none
  page : ℕ := 0
  body : Option String := none
  inserted : Bool := true

structure Prepared where
  sql : Sql
  effect : Effect
  respond : List ResultRow → Except Fault EngineResponse

/-- `rows[0]` -/
def firstRow : List ResultRow → Except Fault ResultRow
  | r :: _ => .ok r
  | [] => .error (.error "Cannot read properties of undefined (reading 'page')")

def JsNumber.isAfter : JsNumber → ℕ → Bool
  | finite d, n => n < d
  | infinity, _ => true

/-- `offset + rows - 1` -/
def JsNumber.lastOf (rows : ℕ) : JsNumber → JsNumber
  | finite d =>
    match ofNat (d + rows) with
    | finite n => ofNat (n - 1)
    | infinity => infinity
  | infinity => infinity

def contentRange (offset : JsNumber) (rows : ℕ) (total : Option ℕ) : String :=
  let t := (total.map toString).getD "*"
  if 0 < rows then s!"{offset.text}-{(offset.lastOf rows).text}/{t}" else s!"*/{t}"

def isPartial (offset : JsNumber) (page : ℕ) (total : Option ℕ) : Bool :=
  total.any fun n => !isZero offset || (match offset with
    | .finite d => decide (d + page < n)
    | .infinity => false)

def SINGULAR_GUARD : String := "pgrst_singular:"

def RANGE_GUARD : String := "pgrst_range:"

def responseGuard (single : Bool) (offset : JsNumber) (counted : Bool) : Sql :=
  let one : List Sql := if single then
      [raw "WHEN pgrst_page.page <> 1 THEN (" ++ ql SINGULAR_GUARD ++
        raw " || pgrst_page.page)::int"]
    else []
  let range : List Sql := if counted ∧ ¬isZero offset then
      [raw "WHEN pgrst_page.total IS NOT NULL AND " ++ [.number offset] ++
        raw " > pgrst_page.total THEN (" ++ ql (RANGE_GUARD ++ offset.text ++ ":") ++
        raw " || pgrst_page.total)::int"]
    else []
  let branches := one ++ range
  if branches.isEmpty then raw "0"
  else raw "CASE " ++ Sql.join " " branches ++ raw " ELSE 0 END"

structure PostgrestEngine where
  unicode : Unicode
  closest : String → List String → Option String
  /-- PostgREST `db-max-rows`; 0 = unlimited. -/
  maxRows : ℕ

namespace PostgrestEngine
variable (engine : PostgrestEngine)

def schemaFor (req : EngineRequest) (snapshot : SchemaSnapshot) : Except Fault String :=
  let isRead := req.method = "GET" ∨ req.method = "HEAD"
  let requested := req.header (if isRead then "accept-profile" else "content-profile")
  match requested.or snapshot.schemas.head? with
  | some schema =>
    if schema ∈ snapshot.schemas then .ok schema else notOne
  | none => notOne
where
  notOne : Except Fault String :=
    let names := ", ".intercalate snapshot.schemas
    .error (.pgrst {
      status := 406, code := "PGRST106"
      message := s!"The schema must be one of the following: {names}" })

def pageBody (head single : Bool) : Sql :=
  if head then raw "''"
  else if single then raw "(json_agg(_pgrst_t) -> 0)::text"
  else raw "coalesce(json_agg(_pgrst_t), '[]')::text"

def countSql (tree : ReadTree) (source : Sql) : Emit Sql := do
  let parts ← tree.whereParts
  return raw "(SELECT pg_catalog.count(*) FROM " ++ source ++ raw " AS " ++ qi tree.root.alias_ ++
    (if parts.isEmpty then [] else raw " WHERE " ++ Sql.join " AND " parts) ++ raw ")"

def totalSql (prefer : Prefer) (tree : ReadTree) (source : Sql) : Emit Sql :=
  if prefer.count then countSql tree source else return raw "NULL::bigint"

def read (t : TableInfo) (tree : ReadTree) (prefer : Prefer) (single head : Bool) :
    Emit Prepared := do
  let top ← tree.selectSql { maxRows := engine.maxRows }
  let count ← totalSql prefer tree (qtable t.schema t.name)
  let sql := raw "SELECT " ++ count ++ raw " AS total, pg_catalog.count(*) AS page, " ++
    pageBody head single ++ raw " AS body FROM (" ++ top ++ raw ") AS _pgrst_t"
  let offset := tree.root.offset.getD (.finite 0)
  return { sql, effect := .read, respond := fun rows => do
    let row ← firstRow rows
    if single ∧ row.page ≠ 1 then throw (.pgrst (singularityError (toString row.page)))
    else if row.total.any fun n => offset.isAfter n then
      throw (.pgrst (rangeNotSatisfiable offset.text (toString (row.total.getD 0))))
    else return {
      status := if isPartial offset row.page row.total then 206 else 200
      contentRange := some (contentRange offset row.page row.total)
      body := .text (if head then "" else row.body.getD "") } }

inductive WriteKind where
  | insert | upsert | update | delete
  deriving DecidableEq

def shapeParams (params : QueryParams) : QueryParams :=
  { params with filters := [], logic := [], order := [], limit := [], offset := [] }

abbrev MutationSql := Sql → Emit (Sql × Mutation)

def insertedFlag (t : TableInfo) : Sql :=
  raw "(" ++ qi t.name ++ raw ".xmax = 0) AS pgrst_inserted"

def mutateResponse (prefer : Prefer) (single : Bool) (kind : WriteKind) (row : ResultRow) :
    EngineResponse :=
  let representation := prefer.representation || single
  let total := if prefer.count then some row.page else none
  let created := kind = .insert ∨ kind = .upsert ∧ (row.page = 0 ∨ row.inserted)
  let writesRows := kind = .insert ∨ kind = .upsert
  let written := "*/" ++ (total.map toString).getD "*"
  if representation then
    { status := if created then 201 else 200
      contentRange := some (if writesRows then written else contentRange (.finite 0) row.page total)
      body := .text (row.body.getD "") }
  else
    { status := if writesRows then (if created then 201 else 200) else 204
      contentRange := some (if writesRows then written
        else contentRange (.finite 0) (total.getD 0) total)
      body := .text "" }

def shapeTree (planner : Planner) (t : TableInfo) (params : QueryParams) (prefer : Prefer)
    (single : Bool) (kind : WriteKind) : Except Fault (Option ReadTree) :=
  if prefer.representation ∨ single then do
    let tree ← planner.readTree t params.select (shapeParams params) t.name
    return some { tree with root := { tree.root with explicitStar := kind = .upsert } }
  else return none

/-- `WITH pgrst_source AS (<mutation> RETURNING ...)`, and the representation from it. -/
def mutate (t : TableInfo) (shape : Option ReadTree) (mutation : MutationSql) (prefer : Prefer)
    (single : Bool) (kind : WriteKind) : Emit Prepared := do
  let guard := if single then
      raw "CASE WHEN pg_catalog.count(*) > 1 THEN (" ++ ql SINGULAR_GUARD ++
        raw " || pg_catalog.count(*))::int ELSE 0 END"
    else raw "0"
  let inserted := if kind = .upsert then
      raw "(SELECT coalesce(bool_or(pgrst_inserted), true) FROM pgrst_source)"
    else raw "true"
  let respond : List ResultRow → Except Fault EngineResponse := fun rows => do
    let row ← firstRow rows
    if single ∧ row.page ≠ 1 then throw (.pgrst (singularityError (toString row.page)))
    else return mutateResponse prefer single kind row
  match shape with
  | some tree =>
    let shaped ← tree.selectSql { «from» := some (raw "pgrst_source") }
    let (source, what) ← mutation (qi t.name ++ raw ".*" ++
      (if kind = .upsert then raw ", " ++ insertedFlag t else []))
    let sql := raw "WITH pgrst_source AS (" ++ source ++ raw ") SELECT " ++ guard ++
      raw " AS guard, pg_catalog.count(*) AS page, " ++ pageBody false single ++ raw " AS body, " ++
      inserted ++ raw " AS inserted FROM (" ++ shaped ++ raw ") AS _pgrst_t"
    return { sql, effect := .mutate what shape single, respond }
  | none =>
    let (source, what) ← mutation (if kind = .upsert then insertedFlag t else raw "1")
    let sql := raw "WITH pgrst_source AS (" ++ source ++ raw ") SELECT " ++ guard ++
      raw " AS guard, pg_catalog.count(*) AS page, '' AS body, " ++ inserted ++
      raw " AS inserted FROM pgrst_source"
    return { sql, effect := .mutate what none single, respond }

inductive Plan where
  | read (t : TableInfo) (tree : ReadTree) (prefer : Prefer) (single head : Bool)
  | mutate (t : TableInfo) (shape : Option ReadTree) (mutation : MutationSql) (prefer : Prefer)
      (single : Bool) (kind : WriteKind)
  | rpc (fn : FunctionInfo) (args : Fields) (params : QueryParams) (tree : Option ReadTree)
      (prefer : Prefer) (single head : Bool)

def parseBody (req : EngineRequest) : Except Fault Json :=
  match req.body with
  | .absent => .ok (.object [])
  | .invalid => .error (.pgrst (badRequest "PGRST102" "Empty or invalid json"))
  | .json j => .ok j

def selectNone (t : TableInfo) (returning : Sql) : Sql :=
  raw "SELECT " ++ returning ++ raw " FROM " ++ qtable t.schema t.name ++ raw " AS " ++
    qi t.name ++ raw " WHERE false"

def payloadRows (payload : Json) : Except Fault (List Fields) :=
  (match payload with
    | .array items => items
    | j => [j]).mapM fun (r : Json) =>
      match r with
      | .object fields => .ok fields
      | _ => .error (.pgrst (badRequest "PGRST102" "All object keys must match"))

def namesSql (names : List String) : Sql := Sql.join ", " (names.map qi)

def conflictSql (cols : List String) : Option (List String × Resolution) → Sql
  | none => []
  | some (keys, resolution) =>
    if resolution = .ignore ∨ cols.isEmpty then
      raw " ON CONFLICT (" ++ namesSql keys ++ raw ") DO NOTHING"
    else
      raw " ON CONFLICT (" ++ namesSql keys ++ raw ") DO UPDATE SET " ++
        Sql.join ", " (cols.map fun c => qi c ++ raw " = EXCLUDED." ++ qi c)

def defaultedSql (t : TableInfo) (c : String) : Emit Sql := do
  let default := ((t.columns.get c).bind (·.defaultExpr)).map fun d => [Piece.catalog d]
  let key ← addParam (.text c)
  return raw "CASE WHEN pgrst_elem.value ? " ++ key ++ raw " THEN pgrst_row." ++ qi c ++
    raw " ELSE " ++ default.getD (raw "NULL") ++ raw " END"

def insertSql (t : TableInfo) (cols : List String) (rows : List Fields)
    (conflict : Option (List String × Resolution)) (missingDefault : Bool) : MutationSql :=
  fun returning => do
    let target := qtable t.schema t.name
    let into := raw "INSERT INTO " ++ target ++ raw " AS " ++ qi t.name
    if rows.isEmpty then return (selectNone t returning, .nothing)
    else if cols.isEmpty then
      return (into ++ raw " DEFAULT VALUES RETURNING " ++ returning,
        .insert t cols rows none missingDefault)
    else
      let body ← addParam (.json (.array (rows.map Json.object)))
      let end_ := conflictSql cols conflict ++ raw " RETURNING " ++ returning
      let what := Mutation.insert t cols rows conflict missingDefault
      if missingDefault then
        let values ← cols.mapM (defaultedSql t)
        return (into ++ raw " (" ++ namesSql cols ++ raw ") SELECT " ++ Sql.join ", " values ++
          raw " FROM jsonb_array_elements(" ++ body ++
          raw "::jsonb) WITH ORDINALITY AS pgrst_elem(value, ord), LATERAL " ++
          raw "jsonb_populate_record(NULL::" ++ target ++
          raw ", pgrst_elem.value) AS pgrst_row ORDER BY pgrst_elem.ord" ++ end_, what)
      else
        return (into ++ raw " (" ++ namesSql cols ++ raw ") SELECT " ++ namesSql cols ++
          raw " FROM json_populate_recordset(NULL::" ++ target ++ raw ", " ++ body ++
          raw "::json) AS pgrst_body" ++ end_, what)

def insert (planner : Planner) (t : TableInfo) (req : EngineRequest) (prefer : Prefer)
    (single : Bool) : Except Fault Plan := do
  let params ← parseQueryParams engine.unicode req.query []
  let payload ← parseBody req
  let rows ← payloadRows payload
  let cols := params.columns.getD ((rows.head?.getD []).map (·.1))
  Planner.checkColumns t cols
  let conflict := prefer.resolution.bind fun resolution =>
    let keys := params.onConflict.getD t.pk
    if keys.isEmpty then none else some (keys, resolution)
  Planner.checkColumns t ((conflict.map (·.1)).getD [])
  if 1 < rows.length ∧ cols.isEmpty then
    throw (.pgrst (badRequest "PGRST102" "All object keys must match"))
  else
    let kind := if prefer.resolution.isSome then WriteKind.upsert else .insert
    return .mutate t (← shapeTree planner t params prefer single kind)
      (insertSql t cols rows conflict prefer.missingDefault) prefer single kind

/-- Only the rows that `limit` and `order` select. -/
def limitedPart (tree : ReadTree) : Emit (List Sql) :=
  if tree.root.limit.isSome ∨ tree.root.offset.isSome then do
    let ctid := qi tree.root.alias_ ++ raw ".ctid"
    let inner ← tree.selectSql { columns := some ctid }
    return [ctid ++ raw " = ANY(ARRAY(" ++ inner ++ raw "))"]
  else return []

def targetWhere (tree : ReadTree) : Emit Sql := do
  let parts := (← tree.whereParts) ++ (← limitedPart tree)
  return if parts.isEmpty then [] else raw " WHERE " ++ Sql.join " AND " parts

def updateSql (planner : Planner) (t : TableInfo) (params : QueryParams) (payload : Fields) :
    MutationSql := fun returning => do
  let cols := payload.map (·.1)
  if cols.isEmpty then return (selectNone t returning, .nothing)
  else
    let target := qtable t.schema t.name
    let body ← addParam (.json (Json.object payload))
    let tree ← planner.readTree t (some [.star]) params t.name
    let where_ ← targetWhere tree
    return (raw "UPDATE " ++ target ++ raw " AS " ++ qi t.name ++ raw " SET " ++
      Sql.join ", " (cols.map fun c => qi c ++ raw " = pgrst_body." ++ qi c) ++
      raw " FROM (SELECT * FROM json_populate_record(NULL::" ++ target ++ raw ", " ++ body ++
      raw "::json)) AS pgrst_body" ++ where_ ++ raw " RETURNING " ++ returning,
      .update t payload tree)

def update (planner : Planner) (t : TableInfo) (req : EngineRequest) (prefer : Prefer)
    (single : Bool) : Except Fault Plan := do
  let params ← parseQueryParams engine.unicode req.query []
  match ← parseBody req with
  | .object payload =>
    Planner.checkColumns t (payload.map (·.1))
    return .mutate t (← shapeTree planner t params prefer single .update)
      (updateSql planner t params payload) prefer single .update
  | _ => throw (.pgrst (badRequest "PGRST102" "Empty or invalid json"))

def deleteSql (planner : Planner) (t : TableInfo) (params : QueryParams) : MutationSql :=
  fun returning => do
    let tree ← planner.readTree t (some [.star]) params t.name
    let where_ ← targetWhere tree
    return (raw "DELETE FROM " ++ qtable t.schema t.name ++ raw " AS " ++ qi t.name ++ where_ ++
      raw " RETURNING " ++ returning, .delete t tree)

def remove (planner : Planner) (t : TableInfo) (req : EngineRequest) (prefer : Prefer)
    (single : Bool) : Except Fault Plan := do
  let params ← parseQueryParams engine.unicode req.query []
  return .mutate t (← shapeTree planner t params prefer single .delete)
    (deleteSql planner t params) prefer single .delete

def isJsonType (type : String) : Bool := type = "json" || type = "jsonb"

def singleJson (f : FunctionInfo) : Bool :=
  match f.args with
  | [a] => a.name = "" && isJsonType a.type
  | _ => false

def takes (keys : List String) (f : FunctionInfo) : Bool :=
  singleJson f ||
    f.allNamed && keys.all (fun k => f.args.any (·.name = k)) &&
      f.args.all fun a => a.hasDefault || a.name ∈ keys

def signature (f : FunctionInfo) : String :=
  ", ".intercalate (f.args.map fun a => s!"{a.name} => {a.type}")

def resolveFunction (snapshot : SchemaSnapshot) (schema name : String) (keys : List String) :
    Except Fault FunctionInfo :=
  let candidates := (snapshot.functions.get (schema, name)).getD []
  let found := candidates.filter (takes keys)
  let exact := found.filter fun f => !singleJson f && f.args.length = keys.length
  let found := if 1 < found.length ∧ exact.length = 1 then exact else found
  match found with
  | [f] => .ok f
  | _ :: _ => .error (.pgrst (ambiguousFunction schema name (found.map signature)))
  | [] =>
    let suggestion := match candidates with
      | f :: _ => some (name ++ "(" ++ ", ".intercalate (f.args.map (·.name)) ++ ")")
      | [] =>
        let all := (snapshot.functions.rows.flatMap (·.2)).filter (·.schema = schema)
        engine.closest name (all.map (·.name))
    .error (.schemaMiss (functionNotFound schema name keys suggestion))

def setField (args : Fields) (key : String) (value : Json) : Fields :=
  ByPath.set key value args

def rpcArgs (snapshot : SchemaSnapshot) (schema name : String) (req : EngineRequest) :
    Except Fault Fields :=
  if req.method = "POST" then do
    match ← parseBody req with
    | .object fields => .ok fields
    | _ => .error (.pgrst (badRequest "PGRST102" "Bulk RPC calls are not supported by this server"))
  else if req.method = "GET" ∨ req.method = "HEAD" then
    let fnArgs := ((snapshot.functions.get (schema, name)).getD []).flatMap fun f =>
      f.args.map (·.name)
    .ok (req.query.foldl
      (fun args r => if r.1 ∈ fnArgs then setField args r.1 (.string r.2) else args) [])
  else
    .error (.pgrst {
      status := 405, code := "PGRST101"
      message := "Only GET, HEAD and POST are allowed for RPC" })

/-- The call, and the record its arguments come from. -/
def callSql (fn : FunctionInfo) (args : Fields) : Emit (Sql × Option Sql) := do
  let qfn := qtable fn.schema fn.name
  if singleJson fn then
    let value ← addParam (.json (Json.object args))
    let type := (fn.args.head?.map (·.type)).getD ""
    return (qfn ++ raw "(" ++ value ++ raw "::" ++ [.catalog type] ++ raw ")", none)
  else if args.isEmpty then return (qfn ++ raw "()", none)
  else
    let cols ← args.mapM fun r => do
      match fn.args.reverse.find? (·.name = r.1) with
      | some a => pure (qi r.1 ++ raw " " ++ [.catalog a.type])
      | none => throw (.error "Cannot read properties of undefined (reading 'type')")
    let call := qfn ++ raw "(" ++
      Sql.join ", " (args.map fun r => qi r.1 ++ raw " := pgrst_args." ++ qi r.1) ++ raw ")"
    let value ← addParam (.json (Json.object args))
    return (call, some (raw "json_to_record(" ++ value ++ raw "::json) AS pgrst_args(" ++
      Sql.join ", " cols ++ raw ")"))

def fromList (record extra : Option Sql) : Sql :=
  match record, extra with
  | some r, some e => raw "FROM " ++ r ++ raw ", LATERAL " ++ e
  | some r, none => raw "FROM " ++ r
  | none, some e => raw "FROM " ++ e
  | none, none => []

def rowTable (snapshot : SchemaSnapshot) (schema : String) (fn : FunctionInfo) : TableInfo :=
  let bare := String.ofList <|
    ((fn.returnType.toList.reverse.takeWhile (· ≠ '.')).reverse).filter (· ≠ '"')
  (snapshot.tables.get (schema, bare)).getD
    { oid := none, schema, name := fn.name, columns := .empty, pk := [] }

def runSetRpc (withSource total page : Sql) (prefer : Prefer) (single head : Bool)
    (offset : JsNumber) : Prepared :=
  let total := if prefer.count then total else raw "NULL::bigint"
  let guard := responseGuard single offset prefer.count
  let sql := withSource ++ raw " SELECT pgrst_page.total, pgrst_page.page, pgrst_page.body, " ++
    guard ++ raw " AS guard FROM (SELECT " ++ total ++
    raw " AS total, _pgrst_p.page, _pgrst_p.body FROM (" ++ page ++
    raw ") AS _pgrst_p) AS pgrst_page"
  { sql, effect := .setCall, respond := fun rows => do
      let row ← firstRow rows
      return {
        status := if isPartial offset row.page row.total then 206 else 200
        contentRange := some (contentRange offset row.page row.total)
        body := .text (if head then "" else row.body.getD "") } }

def callResponse (body : String) : EngineResponse where
  status := 200
  contentRange := some "0-0/*"
  body := .text body

def rowTree (planner : Planner) (fn : FunctionInfo) (params : QueryParams) :
    Except Fault (Option ReadTree) :=
  if fn.returnShape = .setofComposite then do
    let rowType := rowTable planner.snapshot planner.schema fn
    return some (← planner.readTree rowType params.select params fn.name)
  else return none

def rpc (snapshot : SchemaSnapshot) (schema name : String) (req : EngineRequest)
    (prefer : Prefer) (single : Bool) : Except Fault Plan := do
  let args ← rpcArgs snapshot schema name req
  let keys := args.map (·.1)
  let fn ← engine.resolveFunction snapshot schema name keys
  let params ← parseQueryParams engine.unicode req.query (if req.method = "POST" then [] else keys)
  let planner : Planner := { snapshot, schema, closest := engine.closest }
  let tree ← rowTree planner fn params
  return .rpc fn args params tree prefer single (req.method = "HEAD")

def setCallSql (call : Sql) (record : Option Sql) (columns : String) : Sql :=
  raw "WITH pgrst_source AS MATERIALIZED (SELECT " ++ raw columns ++ raw " " ++
    fromList record (some (call ++ raw " AS pgrst_call")) ++ raw ")"

def pageSql (body page : Sql) : Sql :=
  raw "SELECT pg_catalog.count(*) AS page, " ++ body ++ raw " AS body FROM (" ++ page ++
    raw ") AS _pgrst_t"

def callStatement (fn : FunctionInfo) (args : Fields) (params : QueryParams)
    (tree : Option ReadTree) (prefer : Prefer) (single head : Bool) : Emit Prepared := do
  let (call, record) ← callSql fn args
  let firstBody := fun (rows : List ResultRow) => (rows.head?.bind (·.body)).getD "null"
  match fn.returnShape, tree with
  | .void, _ =>
    return {
      sql := raw "SELECT " ++ call ++ raw " " ++ fromList record none, effect := .call
      respond := fun _ => .ok { callResponse "" with status := 204 } }
  | .scalar, _ =>
    return {
      sql := raw "SELECT to_json(" ++ call ++ raw ")::text AS body " ++ fromList record none
      effect := .call, respond := fun rows => .ok (callResponse (firstBody rows)) }
  | .setofComposite, some tree =>
    let top ← tree.selectSql { «from» := some (raw "pgrst_source"), maxRows := engine.maxRows }
    let total ← totalSql prefer tree (raw "pgrst_source")
    return runSetRpc (setCallSql call record "pgrst_call.*") total
      (pageSql (pageBody head single) top) prefer single head
      (tree.root.offset.getD (.finite 0))
  | .setofScalar, _ =>
    let limit := effectiveLimit (params.limit.get "") engine.maxRows
    let offset := (params.offset.get "").getD (.finite 0)
    let page := raw "SELECT pgrst_scalar FROM pgrst_source" ++
      (match limit with
        | some n => raw " LIMIT " ++ [.number n]
        | none => []) ++
      (if isZero offset then [] else raw " OFFSET " ++ [.number offset])
    let body := if head then raw "''"
      else if single then raw "(json_agg(_pgrst_t.pgrst_scalar) -> 0)::text"
      else raw "coalesce(json_agg(_pgrst_t.pgrst_scalar), '[]')::text"
    return runSetRpc (setCallSql call record "pgrst_call AS pgrst_scalar")
      (raw "(SELECT pg_catalog.count(*) FROM pgrst_source)") (pageSql body page) prefer single head
      offset
  | _, _ =>
    return {
      sql := raw "SELECT to_json(pgrst_call)::text AS body " ++
        fromList record (some (call ++ raw " AS pgrst_call"))
      effect := .call
      respond := fun rows =>
        if single ∧ rows.length ≠ 1 then
          .error (.pgrst (singularityError (toString rows.length)))
        else .ok (callResponse (firstBody rows)) }

def segments (path : String) : Except Fault (List String) :=
  ((split '/' path).filter (· ≠ "")).mapM fun s =>
    match decodeURIComponent s with
    | some s => .ok s
    | none => .error .uriError

def plan (snapshot : SchemaSnapshot) (req : EngineRequest) : Except Fault Plan := do
  let schema ← schemaFor req snapshot
  let single := includes ((req.header "accept").getD "") "application/vnd.pgrst.object+json"
  let prefer := parsePrefer req.header
  match ← segments req.path with
  | ["rpc", name] => engine.rpc snapshot schema name req prefer single
  | [name] =>
    let planner : Planner := { snapshot, schema, closest := engine.closest }
    let t ← planner.table name
    if req.method = "GET" ∨ req.method = "HEAD" then
      let params ← parseQueryParams engine.unicode req.query []
      let tree ← planner.readTree t params.select params t.name
      return .read t tree prefer single (req.method = "HEAD")
    else if req.method = "POST" then engine.insert planner t req prefer single
    else if req.method = "PATCH" then engine.update planner t req prefer single
    else if req.method = "DELETE" then engine.remove planner t req prefer single
    else throw (.pgrst {
      status := 405, code := "PGRST117", message := s!"Unsupported HTTP method: {req.method}" })
  | _ => throw (.pgrst (badRequest "PGRST100" s!"unsupported path: {req.path}"))

def emit : Plan → Emit Prepared
  | .read t tree prefer single head => engine.read t tree prefer single head
  | .mutate t shape mutation prefer single kind => mutate t shape mutation prefer single kind
  | .rpc fn args params tree prefer single head =>
    engine.callStatement fn args params tree prefer single head

/-- The one statement a request is run as, and the response its rows become. -/
def dispatch (snapshot : SchemaSnapshot) (req : EngineRequest) :
    Except Fault (Statement × (List ResultRow → Except Fault EngineResponse)) := do
  let plan ← engine.plan snapshot req
  let (prepared, values) ← engine.emit plan []
  return ({ sql := prepared.sql, values, effect := prepared.effect }, prepared.respond)

abbrev Database := Statement → Except PgError (List ResultRow)

def attempt (db : Database) (snapshot : SchemaSnapshot) (req : EngineRequest) :
    Except Fault EngineResponse := do
  let (statement, respond) ← engine.dispatch snapshot req
  match db statement with
  | .ok rows => respond rows
  | .error e => throw (.sql e)

def errorResponse (err : PgrstError) : EngineResponse :=
  { status := err.status, body := .error err }

def guardNumber (marker message : String) : String :=
  (JsNumber.ofNat (((digitsAfter marker message).map digitsValue).getD 0)).text

def answerFault : Fault → Except Fault EngineResponse
  | .schemaMiss e | .pgrst e => .ok (errorResponse e)
  | .sql e =>
    if e.code = "22P02" ∧ includes e.message SINGULAR_GUARD then
      .ok (errorResponse (singularityError (guardNumber SINGULAR_GUARD e.message)))
    else if e.code = "22P02" ∧ includes e.message RANGE_GUARD then
      let offset := digitsAfter RANGE_GUARD e.message
      let total := offset.bind fun digits =>
        digitsAfter (RANGE_GUARD ++ .ofList digits ++ ":") e.message
      let text := fun digits : Option (List Char) =>
        (JsNumber.ofNat (((total.bind fun _ => digits).map digitsValue).getD 0)).text
      .ok (errorResponse (rangeNotSatisfiable (text offset) (text total)))
    else .ok (errorResponse (fromPgError e))
  | fault => .error fault

def isStale (req : EngineRequest) : Fault → Bool
  | .schemaMiss _ => true
  | .sql e => e.code = "42883" && "/rpc/".toList.isPrefixOf req.path.toList
  | _ => false

structure SchemaCache where
  current : SchemaSnapshot
  refreshed : Option SchemaSnapshot

/-- The database answers each attempt anew. -/
def handle (cache : SchemaCache) (db : ℕ → Database) (req : EngineRequest) :
    Except Fault EngineResponse :=
  match engine.attempt (db 0) cache.current req with
  | .ok response => .ok response
  | .error fault =>
    match (if isStale req fault then cache.refreshed else none) with
    | none => answerFault fault
    | some snapshot =>
      match engine.attempt (db 1) snapshot req with
      | .ok response => .ok response
      | .error fault => answerFault fault

end PostgrestEngine

end Kindred.Rest
