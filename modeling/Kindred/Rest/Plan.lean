import Kindred.Rest.Sql

/-! Request → SQL. -/

namespace Kindred.Rest
open Lib (Tx)

/-- Values by the path of the embed they are for, `""` for the top level. -/
abbrev ByPath (α : Type) := List (String × α)

/-- `map.set(path, value)`: the path keeps its place. -/
def ByPath.set {α : Type} (path : String) (value : α) : ByPath α → ByPath α
  | [] => [(path, value)]
  | r :: rs => if r.1 = path then (path, value) :: rs else r :: ByPath.set path value rs

def ByPath.get {α : Type} (m : ByPath α) (path : String) : Option α :=
  (m.find? fun r => r.1 = path).map (·.2)

def ByPath.push {α : Type} (m : ByPath (List α)) (path : String) (values : List α) :
    ByPath (List α) :=
  m.set path ((m.get path).getD [] ++ values)

structure QueryParams where
  select : Option (List SelectItem) := none
  columns : Option (List String) := none
  onConflict : Option (List String) := none
  filters : ByPath (List Filter) := []
  logic : ByPath (List LogicTree) := []
  order : ByPath (List OrderTerm) := []
  limit : ByPath JsNumber := []
  offset : ByPath JsNumber := []

/-- `key`, or what stands before `.key` in it. -/
def pathBefore (name key : String) : Option String :=
  if key = name then some ""
  else if ("." ++ name).toList.isSuffixOf key.toList then
    some (.ofList (key.toList.take (key.length - (name.length + 1))))
  else none

def isLineEnd (c : Char) : Bool := c ∈ ['\n', '\r', '\u2028', '\u2029']

/-- `(not\.)?(or|and)$` -/
def logicWord (s : String) : Option (Bool × LogicOp) :=
  if s = "or" then some (false, .or)
  else if s = "and" then some (false, .and)
  else if s = "not.or" then some (true, .or)
  else if s = "not.and" then some (true, .and)
  else none

/-- `LOGIC_KEY`: the path is as long as it can be, so that `not.` before the word
is a path too. -/
def logicKey (key : String) : Option (String × Bool × LogicOp) :=
  let parts := split '.' key
  let splits := (List.range parts.length).reverse.map fun n =>
    (".".intercalate (parts.take n), ".".intercalate (parts.drop n))
  splits.findSome? fun (path, word) =>
    if path.any isLineEnd then none
    else (logicWord word).map fun (negate, op) => (path, negate, op)

def intParam (v key : String) : Except Fault JsNumber :=
  if v ≠ "" ∧ v.toList.all Char.isDigit then .ok (.ofNat (digitsValue v.toList))
  else .error (.pgrst (badRequest "PGRST100" s!"\"failed to parse {key} parameter ({v})\""))

/-- One parameter; `rpcArgNames` are those that are arguments of a function. -/
def parseQueryParam (u : Unicode) (rpcArgNames : List String) (out : QueryParams)
    (key value : String) : Except Fault QueryParams :=
  if key = "select" then do return { out with select := some (← parseSelect u value) }
  else if key = "columns" then do return { out with columns := some (← parseColumns u value) }
  else if key = "on_conflict" then .ok { out with onConflict := some (parseOnConflict value) }
  else
    match pathBefore "order" key with
    | some path => do return { out with order := out.order.push path (← parseOrder u value) }
    | none =>
      match pathBefore "limit" key with
      | some path => do return { out with limit := out.limit.set path (← intParam value key) }
      | none =>
        match pathBefore "offset" key with
        | some path => do return { out with offset := out.offset.set path (← intParam value key) }
        | none =>
          match logicKey key, value.toList.head? with
          | some (path, negate, op), some '(' => do
            return { out with logic := out.logic.push path [← parseLogicValue u op negate value key] }
          | _, _ =>
            if key ∈ rpcArgNames then .ok out
            else do
              let (path, field) ← parseFilterKey u key
              let expr ← parseOpExpr u value key
              return { out with filters := out.filters.push (".".intercalate path) [{ field, expr }] }

def parseQueryParams (u : Unicode) (query : List (String × String))
    (rpcArgNames : List String) : Except Fault QueryParams :=
  query.foldlM (fun out r => parseQueryParam u rpcArgNames out r.1 r.2) {}

inductive PlannedItem where
  | star
  | field (field : FieldRef) (output : String) (cast : Option String)
  | embed (id : ℕ)

structure ReadNode where
  id : ℕ
  table : TableInfo
  alias_ : String
  items : List PlannedItem
  filters : List Filter := []
  logic : List LogicTree := []
  order : List OrderTerm := []
  limit : Option JsNumber := none
  offset : Option JsNumber := none
  existence : List (ℕ × Bool) := []
  explicitStar : Bool := false

structure EmbedPlan where
  rel : Relationship
  output : String
  pathName : String
  inner : Bool

inductive Embeds where
  | nil
  | cons (embed : EmbedPlan) (node : ReadNode) (children siblings : Embeds)

structure ReadTree where
  root : ReadNode
  embeds : Embeds

def outputName (field : FieldRef) (alias_ : Option String) : String :=
  match alias_.filter (· ≠ "") with
  | some a => a
  | none =>
    match field.json.getLast? with
    | some last => if last.index then field.name else last.key
    | none => field.name

def aggregatesNotAllowed : PgrstError where
  status := 400
  code := "PGRST123"
  message := "Use of aggregate functions is not allowed"

def notEmbedded (name : String) : PgrstError where
  status := 400
  code := "PGRST108"
  message := s!"'{name}' is not an embedded resource in this request"
  hint := some s!"Verify that '{name}' is included in the 'select' query parameter."

/-- What a planner goes by. `closest` is the name that is most like a name. -/
structure Planner where
  snapshot : SchemaSnapshot
  schema : String
  closest : String → List String → Option String

namespace Planner
variable (planner : Planner)

def table (name : String) : Except Fault TableInfo :=
  match planner.snapshot.tables.get (planner.schema, name) with
  | some t => .ok t
  | none =>
    let names := (planner.snapshot.tables.rows.filter (·.2.schema = planner.schema)).map (·.2.name)
    .error (.schemaMiss (tableNotFound planner.schema name (planner.closest name names)))

/-- A relationship of the table `t` that `name` may stand for. -/
def named (t : TableInfo) (name : String) (r : Relationship) : Bool :=
  t.oid.isSome && r.from.oid = t.oid &&
    (r.to.name = name || r.forward && (r.constraint = name || r.fkCols = [name]))

def hinted (name hint : String) (r : Relationship) : Bool :=
  r.constraint = hint ||
    r.fkCols.length = 1 && (r.fromCols.head? = some hint || r.toCols.head? = some hint) ||
    r.to.name = hint && r.to.name ≠ name

def choice (t : TableInfo) (r : Relationship) : RelationshipChoice :=
  let side := fun (name : String) (cols : List String) =>
    name ++ "(" ++ ", ".intercalate cols ++ ")"
  { cardinality := r.cardinality.text
    embedding := s!"{t.name} with {r.to.name}"
    relationship := s!"{r.constraint} using " ++
      side r.from.name r.fromCols ++ " and " ++ side r.to.name r.toCols
    constraint := r.constraint }

def relationship (t : TableInfo) (name : String) (hint : Option String) :
    Except Fault Relationship :=
  let found := planner.snapshot.relationships.filter (named t name)
  let found := match hint with
    | some hint => found.filter (hinted name hint)
    | none => found
  match found with
  | [r] => .ok r
  | [] =>
    let err := relationshipNotFound t.name name planner.schema hint
    let reachable := (planner.snapshot.relationships.filter fun r =>
      t.oid.isSome && r.from.oid = t.oid).map (·.to.name)
    match planner.closest name reachable with
    | some guess =>
      .error (.schemaMiss { err with
        hint := some s!"Perhaps you meant '{guess}' instead of '{name}'." })
    | none => .error (.schemaMiss err)
  | _ =>
    let sorted := found.mergeSort (·.constraint ≤ ·.constraint)
    .error (.pgrst (ambiguousRelationship t.name name (sorted.map (choice t))))

def nextAlias : Tx ℕ Fault ℕ := do
  let n ← get
  set (n + 1)
  return n + 1

mutual

/-- An item, and the embed it adds to its node's. -/
def planItem (t : TableInfo) : SelectItem → Tx ℕ Fault (PlannedItem × (Embeds → Embeds))
  | .star => return (.star, id)
  | .field field alias_ cast aggregate _ =>
    if aggregate.isSome then throw (.pgrst aggregatesNotAllowed)
    else return (.field field (outputName field alias_) cast, id)
  | .embed name alias_ hint joinType spread items =>
    if spread then
      throw (.pgrst (badRequest "PGRST100"
        s!"spread embedding (\"...{name}\") is not supported by this server"))
    else do
      let rel ← planner.relationship t name hint
      let n ← nextAlias
      let (planned, children) ← planItems rel.to items
      let node := {
        id := n, table := rel.to, alias_ := s!"{rel.to.name}_{n}"
        items := if items.isEmpty then [.star] else planned }
      let embed := {
        rel, output := alias_.getD name, pathName := alias_.getD name
        inner := joinType = some .inner }
      return (.embed n, .cons embed node children)

def planItems (t : TableInfo) : List SelectItem → Tx ℕ Fault (List PlannedItem × Embeds)
  | [] => return ([], .nil)
  | item :: items => do
    let (planned, add) ← planItem t item
    let (rest, embeds) ← planItems t items
    return (planned :: rest, add embeds)

end

end Planner

def Embeds.paths (below : String) : Embeds → List (String × ℕ)
  | nil => []
  | cons embed node children siblings =>
    let path := if below = "" then embed.pathName else below ++ "." ++ embed.pathName
    (path, node.id) :: children.paths path ++ siblings.paths below

def Embeds.named (name : String) : Embeds → Option ℕ
  | nil => none
  | cons embed node _ siblings => if embed.pathName = name then some node.id else siblings.named name

def Embeds.modify (id : ℕ) (f : ReadNode → Embeds → ReadNode) : Embeds → Embeds
  | nil => nil
  | cons embed node children siblings =>
    cons embed (if node.id = id then f node children else node) (children.modify id f)
      (siblings.modify id f)

namespace ReadTree

def modify (tree : ReadTree) (id : ℕ) (f : ReadNode → Embeds → ReadNode) : ReadTree where
  root := if tree.root.id = id then f tree.root tree.embeds else tree.root
  embeds := tree.embeds.modify id f

def atPath (tree : ReadTree) (path : String) : Except Fault ℕ :=
  match ((("", 0) :: tree.embeds.paths "").reverse.find? fun r => r.1 = path).map (·.2) with
  | some id => .ok id
  | none => .error (.pgrst (notEmbedded ((split '.' path).getLastD "")))

end ReadTree

def ReadNode.addFilter (children : Embeds) (node : ReadNode) (f : Filter) : ReadNode :=
  let embed := if f.field.json.isEmpty then children.named f.field.name else none
  match embed, f.expr.operation with
  | some id, .is .null => { node with existence := node.existence ++ [(id, f.expr.negate)] }
  | some id, .is .not_null => { node with existence := node.existence ++ [(id, !f.expr.negate)] }
  | _, _ => { node with filters := node.filters ++ [f] }

def ReadTree.attach {α : Type} (values : ByPath α) (add : α → ReadNode → Embeds → ReadNode)
    (tree : ReadTree) : Except Fault ReadTree :=
  values.foldlM (fun (tree : ReadTree) r => do
    let id ← tree.atPath r.1
    return tree.modify id (add r.2)) tree

/-- Build the read tree for `t` and attach every filter to its node. The numbers
of a planner's aliases go on from tree to tree, but a request plans embeds once. -/
def Planner.readTree (planner : Planner) (t : TableInfo) (select : Option (List SelectItem))
    (params : QueryParams) (topAlias : String) : Except Fault ReadTree := do
  let ((items, embeds), _) ← planner.planItems t (select.getD [.star]) 0
  let tree : ReadTree := { root := { id := 0, table := t, alias_ := topAlias, items }, embeds }
  let tree ← tree.attach params.filters fun filters node children =>
    filters.foldl (ReadNode.addFilter children) node
  let tree ← tree.attach params.logic fun trees node _ => { node with logic := node.logic ++ trees }
  let tree ← tree.attach params.order fun terms node _ => { node with order := node.order ++ terms }
  let tree ← tree.attach params.limit fun n node _ => { node with limit := some n }
  tree.attach params.offset fun n node _ => { node with offset := some n }

def Planner.checkColumns (t : TableInfo) (cols : List String) : Except Fault Unit :=
  match cols.find? fun c => (t.columns.get c).isNone with
  | some c => .error (.schemaMiss (columnNotFound t.name c))
  | none => .ok ()

def effectiveLimit (limit : Option JsNumber) (maxRows : ℕ) : Option JsNumber :=
  if 0 < maxRows then some ((limit.map (·.min (.finite maxRows))).getD (.finite maxRows)) else limit

/-- `alias."col"` and its JSON path. -/
def fieldExpr (alias_ : String) (field : FieldRef) (t : TableInfo) : Sql :=
  let column := qi alias_ ++ raw "." ++ qi field.name
  let isArray := (t.columns.get field.name).any fun c => c.typname.toList.head? = some '_'
  let column := if field.json ≠ [] ∧ isArray then raw "to_jsonb(" ++ column ++ raw ")" else column
  field.json.foldl (fun expr op =>
    expr ++ raw op.arrow.sql ++ (if op.index then [.index op.key] else ql op.key)) column

def SimpleOp.sql : SimpleOp → String
  | eq => "=" | neq => "<>" | gt => ">" | gte => ">=" | lt => "<" | lte => "<="
  | like => "LIKE" | ilike => "ILIKE" | match_ => "~" | imatch => "~*"
  | cs => "@>" | cd => "<@" | ov => "&&" | sl => "<<" | sr => ">>" | nxr => "&<" | nxl => "&>"
  | adj => "-|-"

def TextSearch.sql : TextSearch → String
  | fts => "to_tsquery" | plfts => "plainto_tsquery" | phfts => "phraseto_tsquery"
  | wfts => "websearch_to_tsquery"

def IsValue.sql : IsValue → String
  | null => "NULL" | not_null => "NOT NULL" | true => "TRUE" | false => "FALSE"
  | unknown => "UNKNOWN"

def Quantifier.sql : Quantifier → String
  | any => "ANY" | all => "ALL"

def operationSql (expr : Sql) (isTsvector : Bool) : Operation → Emit Sql
  | .in_ values => do return expr ++ raw " = ANY(" ++ (← addParam (.texts values)) ++ raw ")"
  | .is value => return expr ++ raw " IS " ++ raw value.sql
  | .isdistinct value => do return expr ++ raw " IS DISTINCT FROM " ++ (← addParam (.text value))
  | .textSearch op lang value => do
    let lang : Sql := match lang with
      | some l => ql l ++ raw "::regconfig, "
      | none => []
    let doc := if isTsvector then expr else raw "to_tsvector(" ++ lang ++ expr ++ raw ")"
    let query ← addParam (.text value)
    return doc ++ raw " @@ " ++ raw op.sql ++ raw "(" ++ lang ++ query ++ raw ")"
  | .simple op quantifier value => do
    let param ← addParam (.text (if op = .like ∨ op = .ilike then
      value.map fun c => if c = '*' then '%' else c else value))
    let compared := expr ++ raw " " ++ raw op.sql ++ raw " "
    match quantifier with
    | some q => return compared ++ raw q.sql ++ raw "(" ++ param ++ raw ")"
    | none => return compared ++ param

def opSql (expr : Sql) (e : OpExpr) (isTsvector : Bool) : Emit Sql := do
  let cond ← operationSql expr isTsvector e.operation
  return if e.negate then raw "NOT " ++ cond else cond

def filterSql (node : ReadNode) (f : Filter) : Emit Sql :=
  let isTsvector := (node.table.columns.get f.field.name).any fun c => c.typname = "tsvector"
  opSql (fieldExpr node.alias_ f.field node.table) f.expr (isTsvector && f.field.json.isEmpty)

mutual

def logicSql (node : ReadNode) : LogicTree → Emit Sql
  | .filter f => filterSql node f
  | .expr negate op children => do
    let parts ← logicSqls node children
    let inner := Sql.join (if op = .and then " AND " else " OR ") parts
    return (if negate then raw "NOT " else []) ++ raw "(" ++ inner ++ raw ")"

def logicSqls (node : ReadNode) : List LogicTree → Emit (List Sql)
  | [] => return []
  | t :: ts => do
    let first ← logicSql node t
    return first :: (← logicSqls node ts)

end

def orderTermSql (node : ReadNode) (t : OrderTerm) : Except Fault Sql :=
  match t.relation.filter (· ≠ "") with
  | some relation => .error (.pgrst (badRequest "PGRST100" <|
      s!"ordering by an embedded resource (\"{relation}(...)\") is not supported by this server"))
  | none =>
    let direction := if t.direction = some .desc then raw " DESC" else raw " ASC"
    let nulls : Sql := match t.nulls with
      | some .first => raw " NULLS FIRST"
      | some .last => raw " NULLS LAST"
      | none => []
    .ok (fieldExpr node.alias_ t.field node.table ++ direction ++ nulls)

structure Emitter where
  embed : EmbedPlan
  node : ReadNode
  select : String → Emit Sql
  exists_ : String → Emit Sql

def joinSql (parent : String) (embed : EmbedPlan) (node : ReadNode) : Sql :=
  Sql.join " AND " <| (embed.rel.toCols.zip embed.rel.fromCols).map fun (c, d) =>
    qi node.alias_ ++ raw "." ++ qi c ++ raw " = " ++ qi parent ++ raw "." ++ qi d

def starSql (node : ReadNode) : Sql :=
  if node.explicitStar then
    Sql.join ", " (node.table.columns.rows.map fun r => qi node.alias_ ++ raw "." ++ qi r.1)
  else qi node.alias_ ++ raw ".*"

def itemSql (node : ReadNode) (embeds : List Emitter) : PlannedItem → Emit Sql
  | .star => return starSql node
  | .field field output cast => do
    let expr := fieldExpr node.alias_ field node.table
    match cast.filter (· ≠ "") with
    | some t =>
      let name ← safeTypeName t
      return raw "CAST(" ++ expr ++ raw " AS " ++ [.typeName name] ++ raw ") AS " ++ qi output
    | none => return expr ++ raw " AS " ++ qi output
  | .embed id =>
    match embeds.find? (·.node.id = id) with
    | none => return []
    | some e => do
      let sub ← e.select node.alias_
      let row := qi (e.node.alias_ ++ "_row")
      let value : Sql :=
        if e.embed.rel.toOne then
          raw "(SELECT to_jsonb(" ++ row ++ raw ") FROM (" ++ sub ++ raw ") AS " ++ row ++ raw ")"
        else
          raw "COALESCE((SELECT jsonb_agg(" ++ row ++ raw ") FROM (" ++ sub ++ raw ") AS " ++ row ++
            raw "), '[]'::jsonb)"
      return value ++ raw " AS " ++ qi e.embed.output

/-- `EXISTS (...)` -/
def existsPart (node : ReadNode) (exists_ : Bool) (e : Emitter) : Emit Sql := do
  let sub ← e.exists_ node.alias_
  return (if exists_ then [] else raw "NOT ") ++ raw "EXISTS (" ++ sub ++ raw ")"

/-- The WHERE of a node: filters, logic, `!inner` and existence. -/
def whereParts (node : ReadNode) (embeds : List Emitter) : Emit (List Sql) := do
  let filters ← node.filters.mapM (filterSql node)
  let logic ← logicSqls node node.logic
  let inner ← (embeds.filter (·.embed.inner)).mapM (existsPart node true)
  let existence ← (node.existence.filterMap fun x =>
    (embeds.find? (·.node.id = x.1)).map fun e => (e, x.2)).mapM fun x => existsPart node x.2 x.1
  return filters ++ logic ++ inner ++ existence

structure SelectOptions where
  «from» : Option Sql := none
  join : Option Sql := none
  maxRows : ℕ := 0
  columns : Option Sql := none

def isZero : JsNumber → Bool
  | .finite n => n = 0
  | .infinity => false

def itemsSql (node : ReadNode) (embeds : List Emitter) (columns : Option Sql) : Emit (List Sql) :=
  match columns with
  | some columns => return [columns]
  | none => node.items.mapM (itemSql node embeds)

/-- `SELECT <items> FROM <table> WHERE ... ORDER BY ... LIMIT ...` for one node. -/
def selectSql (node : ReadNode) (embeds : List Emitter) (opts : SelectOptions) : Emit Sql := do
  let cols ← itemsSql node embeds opts.columns
  let parts := opts.join.toList ++ (← whereParts node embeds)
  let source := opts.from.getD (qtable node.table.schema node.table.name)
  let order ← node.order.mapM fun t => (orderTermSql node t : Emit Sql)
  return raw "SELECT " ++ Sql.join ", " cols ++ raw " FROM " ++ source ++ raw " AS " ++
    qi node.alias_ ++
    (if parts.isEmpty then [] else raw " WHERE " ++ Sql.join " AND " parts) ++
    (if order.isEmpty then [] else raw " ORDER BY " ++ Sql.join ", " order) ++
    (match effectiveLimit node.limit opts.maxRows with
      | some n => raw " LIMIT " ++ [.number n]
      | none => []) ++
    (match node.offset.filter (¬isZero ·) with
      | some n => raw " OFFSET " ++ [.number n]
      | none => [])

def existsSql (node : ReadNode) (embeds : List Emitter) (join : Sql) : Emit Sql := do
  let parts := join :: (← whereParts node embeds)
  return raw "SELECT 1 FROM " ++ qtable node.table.schema node.table.name ++ raw " AS " ++
    qi node.alias_ ++ raw " WHERE " ++ Sql.join " AND " parts

def Embeds.emitters : Embeds → List Emitter
  | nil => []
  | cons embed node children siblings =>
    { embed, node
      select := fun parent =>
        selectSql node children.emitters { join := some (joinSql parent embed node) }
      exists_ := fun parent => existsSql node children.emitters (joinSql parent embed node) } ::
      siblings.emitters

def ReadTree.selectSql (tree : ReadTree) (opts : SelectOptions) : Emit Sql :=
  Rest.selectSql tree.root tree.embeds.emitters opts

def ReadTree.whereParts (tree : ReadTree) : Emit (List Sql) :=
  Rest.whereParts tree.root tree.embeds.emitters

end Kindred.Rest
