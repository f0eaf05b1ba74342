import Kindred.Lib.Parsing
import Kindred.Rest.Errors

/-! PostgREST's query-string grammar. -/

namespace Kindred.Rest
open Lib Lib.Tx Lib.Parser

inductive Arrow where
  | json | text

def Arrow.sql : Arrow → String
  | json => "->"
  | text => "->>"

structure JsonOp where
  arrow : Arrow
  key : String
  index : Bool

structure FieldRef where
  name : String
  json : List JsonOp

inductive AggregateFn where
  | count | sum | avg | max | min

inductive JoinType where
  | inner | left
  deriving DecidableEq

inductive SelectItem where
  | star
  | field (field : FieldRef) (alias_ cast : Option String) (aggregate : Option AggregateFn)
      (aggregateCast : Option String)
  | embed (name : String) (alias_ hint : Option String) (joinType : Option JoinType)
      (spread : Bool) (items : List SelectItem)

inductive Quantifier where
  | any | all

inductive SimpleOp where
  | eq | neq | gte | gt | lte | lt | like | ilike | imatch | match_
  | cs | cd | ov | sl | sr | nxr | nxl | adj
  deriving DecidableEq

def SimpleOp.name : SimpleOp → String
  | eq => "eq" | neq => "neq" | gte => "gte" | gt => "gt" | lte => "lte" | lt => "lt"
  | like => "like" | ilike => "ilike" | imatch => "imatch" | match_ => "match"
  | cs => "cs" | cd => "cd" | ov => "ov" | sl => "sl" | sr => "sr" | nxr => "nxr" | nxl => "nxl"
  | adj => "adj"

def SIMPLE_OPS : List SimpleOp :=
  [.eq, .neq, .gte, .gt, .lte, .lt, .like, .ilike, .imatch, .match_,
    .cs, .cd, .ov, .sl, .sr, .nxr, .nxl, .adj]

def QUANTIFIABLE : List SimpleOp :=
  [.eq, .gte, .gt, .lte, .lt, .like, .ilike, .match_, .imatch]

inductive IsValue where
  | null | not_null | true | false | unknown
  deriving DecidableEq

def IsValue.name : IsValue → String
  | null => "null" | not_null => "not_null" | true => "true" | false => "false"
  | unknown => "unknown"

inductive TextSearch where
  | fts | plfts | phfts | wfts

def TextSearch.name : TextSearch → String
  | fts => "fts" | plfts => "plfts" | phfts => "phfts" | wfts => "wfts"

inductive Operation where
  | in_ (values : List String)
  | is (value : IsValue)
  | isdistinct (value : String)
  | textSearch (op : TextSearch) (lang : Option String) (value : String)
  | simple (op : SimpleOp) (quantifier : Option Quantifier) (value : String)

structure OpExpr where
  negate : Bool
  operation : Operation

structure Filter where
  field : FieldRef
  expr : OpExpr

inductive LogicOp where
  | and | or
  deriving DecidableEq

inductive LogicTree where
  | filter (filter : Filter)
  | expr (negate : Bool) (op : LogicOp) (children : List LogicTree)

inductive Direction where
  | asc | desc
  deriving DecidableEq

inductive Nulls where
  | first | last

structure OrderTerm where
  relation : Option String := none
  field : FieldRef
  direction : Option Direction := none
  nulls : Option Nulls := none

section Parsers
variable (u : Unicode)

def letterOrNumberUnit (c : Char) : Bool := c.val < 0x10000 && u.letterOrNumber c

def isIdentChar (c : Char) : Bool :=
  letterOrNumberUnit u c || c = '_' || c = ' ' || c = '$'

def quotedTail : List Char → Except ParseFault (List Char × List Char)
  | [] => .error (.stop "expecting \"\"\"" [])
  | '"' :: cs => .ok ([], cs)
  | ['\\'] => .error (.stop "inside a quoted value" [])
  | '\\' :: c :: cs => (quotedTail cs).map fun r => (c :: r.1, r.2)
  | c :: cs => (quotedTail cs).map fun r => (c :: r.1, r.2)

def quoted : Parser (Option String)
  | '"' :: cs => (quotedTail cs).map fun r => (some (.ofList r.1), r.2)
  | cs => .ok (none, cs)

def identifier : Parser String := do
  let name ← takeWhile (isIdentChar u)
  if name.isEmpty then fail "expecting an identifier" else return .ofList name

/-- `-` and an identifier, not the `->` of a path. -/
def hyphenated : Parser (Option String) := fun cs =>
  match cs with
  | '-' :: c :: _ =>
    if c ≠ '>' ∧ isIdentChar u c then ((identifier u).map fun s => some ("-" ++ s)) cs.tail
    else .ok (none, cs)
  | _ => .ok (none, cs)

def fieldName : Parser String := do
  match ← quoted with
  | some q => return q
  | none =>
    let name ← identifier u
    return name ++ String.join (← many (hyphenated u))

/-- `-?\d+` -/
def integerPrefix (cs : List Char) : Option (List Char × List Char) :=
  let (sign, ds) := match cs with
    | '-' :: ds => (['-'], ds)
    | _ => ([], cs)
  let digits := ds.takeWhile Char.isDigit
  if digits.isEmpty then none else some (sign ++ digits, ds.dropWhile Char.isDigit)

def endsIndex (cs : List Char) : Bool :=
  cs.isEmpty || ["->", "::", ".", ",", ")", "(", "!"].any fun s => s.toList.isPrefixOf cs

def jsonKey (arrow : Arrow) : Parser (Option JsonOp) := do
  let cs ← get
  match integerPrefix cs with
  | some (index, after) =>
    if endsIndex after then
      set after
      return some { arrow, key := .ofList index, index := true }
    else return some { arrow, key := ← fieldName u, index := false }
  | none => return some { arrow, key := ← fieldName u, index := false }

def jsonOp : Parser (Option JsonOp) := do
  if ← eat "->>" then jsonKey u .text
  else if ← eat "->" then jsonKey u .json
  else return none

def jsonPath : Parser (List JsonOp) := many (jsonOp u)

def field : Parser FieldRef := do
  let name ← fieldName u
  return { name, json := ← jsonPath u }

def isTypeChar (c : Char) : Bool := letterOrNumberUnit u c || c = '_' || c = ' '

def castType : Parser (Option String) := do
  if ← eat "::" then
    let name ← takeWhile (isTypeChar u)
    if name.isEmpty then fail "expecting a type name" else return some (.ofList name)
  else return none

/-- `alias:`, not the `::` of a cast. -/
def optionalAlias : Parser (Option String) := fun cs =>
  match attempt (fieldName u) cs with
  | .ok (some name, ':' :: ds) =>
    match ds with
    | ':' :: _ => .ok (none, cs)
    | _ => .ok (some name, ds)
  | .ok _ => .ok (none, cs)
  | .error e => .error e

def atItemEnd (cs : List Char) : Bool :=
  cs.isEmpty || cs.head? = some ',' || cs.head? = some ')'

def expectItemEnd (why : String) : Parser Unit := do
  if atItemEnd (← get) then return () else fail why

def eatWord (word : String) : Parser Bool := fun cs =>
  let after := cs.drop word.toList.length
  if word.toList.isPrefixOf cs ∧ ¬(after.head?.any (isIdentChar u)) ∧ after.head? ≠ some '-' then
    .ok (true, after)
  else .ok (false, cs)

structure EmbedParams where
  hint : Option String := none
  joinType : Option JoinType := none

def embedParam (out : EmbedParams) : Parser EmbedParams := do
  if ← eatWord u "inner" then return { out with joinType := some .inner }
  else if ← eatWord u "left" then return { out with joinType := some .left }
  else return { out with hint := some (← fieldName u) }

def embedParams : Parser EmbedParams := do
  if ← eat "!" then
    let out ← embedParam u {}
    if ← eat "!" then embedParam u out else return out
  else return {}

def aggregateSuffix : Parser (Option AggregateFn) := do
  if ← eat ".count()" then return some .count
  else if ← eat ".sum()" then return some .sum
  else if ← eat ".avg()" then return some .avg
  else if ← eat ".max()" then return some .max
  else if ← eat ".min()" then return some .min
  else return none

/-- `(`, the items, `)`. -/
def parenthesized {α : Type} (items : Parser α) : Parser α := do
  expect "("
  let out ← items
  expect ")"
  return out

def spreadItem (forest : Parser (List SelectItem)) : Parser SelectItem := do
  let name ← fieldName u
  let params ← embedParams u
  return .embed name none params.hint params.joinType true (← parenthesized forest)

/-- A relation, where the text is one; `count` never is. -/
def relationItem (forest : Parser (List SelectItem)) : Parser (Option SelectItem) := do
  let save ← get
  let alias_ ← optionalAlias u
  match ← attempt (fieldName u) with
  | some name =>
    if name = "count" then
      set save
      return none
    else
      let params ← embedParams u
      if (← get).head? = some '(' then
        return some (.embed name alias_ params.hint params.joinType false (← parenthesized forest))
      else
        set save
        return none
  | none =>
    set save
    return none

def aggregateCast (aggregate : Option AggregateFn) : Parser (Option String) :=
  if aggregate.isSome then castType u else return none

def fieldItem : Parser SelectItem := do
  let alias_ ← optionalAlias u
  if ← eat "count()" then
    let aggCast ← castType u
    expectItemEnd "after \"count()\""
    return .field { name := "*", json := [] } alias_ none (some .count) aggCast
  else
    let f ← field u
    let cast ← castType u
    let aggregate ← aggregateSuffix
    let aggCast ← aggregateCast u aggregate
    expectItemEnd "expecting \",\" or \")\""
    return .field f alias_ cast aggregate aggCast

def selectTree (forest : Parser (List SelectItem)) : Parser SelectItem := do
  if ← eat "..." then spreadItem u forest
  else
    match ← relationItem u forest with
    | some item => return item
    | none =>
      if ← eat "*" then
        expectItemEnd "after \"*\""
        return .star
      else fieldItem u

def commaList {α : Type} (item : Parser α) : Parser (List α) := do
  let first ← item
  let more ← many do
    if ← eat "," then return some (← item) else return none
  return first :: more

def selectForest : ℕ → Parser (List SelectItem)
  | 0 => throw .outOfFuel
  | fuel + 1 => do
    let cs ← get
    if cs.isEmpty ∨ cs.head? = some ')' then return []
    else commaList (selectTree u (selectForest fuel))

inductive ValueMode where
  | query | logic

/-- Up to the next `,` or `)`. -/
def bareValue : Parser String := do
  return .ofList (← takeWhile fun c => c ≠ ',' ∧ c ≠ ')')

/-- `{`, no other `{`, `}`. -/
def arrayLiteral : Parser (Option String) := fun cs =>
  match cs with
  | '{' :: ds =>
    let inner := ds.takeWhile (· ≠ '}')
    match ds.dropWhile (· ≠ '}') with
    | '}' :: cs' =>
      if '{' ∈ inner then .ok (none, cs) else .ok (some (.ofList ('{' :: inner ++ ['}'])), cs')
    | _ => .ok (none, cs)
  | _ => .ok (none, cs)

/-- A quoted value that ends where `ends` holds. -/
def quotedUpTo (ends : List Char → Bool) : Parser (Option String) := fun cs =>
  match quoted cs with
  | .ok (some q, cs') => if ends cs' then .ok (some q, cs') else .ok (none, cs)
  | .ok (none, _) => .ok (none, cs)
  | .error e => .error e

def singleValue : ValueMode → Parser String
  | .query => rest
  | .logic => do
    match ← quotedUpTo atItemEnd with
    | some q => return q
    | none =>
      match ← arrayLiteral with
      | some a => return a
      | none => bareValue

def listItem : Parser String := do
  match ← quotedUpTo fun cs => cs.head? = some ',' || cs.head? = some ')' with
  | some q => return q
  | none => bareValue

/-- `(a,"b,c",d)` -/
def listValue : Parser (List String) := do
  expect "("
  if ← eat ")" then return []
  else
    let out ← commaList listItem
    expect ")"
    return out

def isValue (raw : String) : Option IsValue :=
  [.null, .not_null, .true, .false, .unknown].find? fun v : IsValue => v.name = raw

/-- `(lang)` where there is one, and the dot. -/
def textSearchLang : Parser (Option (Option String)) := do
  if ← eat "(" then
    let lang ← takeWhile fun c => u.letterOrNumber c || c = '_'
    if ← eat ")." then return some (if lang.isEmpty then none else some (.ofList lang))
    else return none
  else if ← eat "." then return some none
  else return none

/-- `(any)`, `(all)` where the operator takes one, and the dot. -/
def operatorEnd (op : SimpleOp) : Parser (Option (Option Quantifier)) := do
  if ← eat "." then return some none
  else if op ∈ QUANTIFIABLE then
    if ← eat "(any)." then return some (some .any)
    else if ← eat "(all)." then return some (some .all)
    else return none
  else return none

def firstWord {α β : Type} (name : α → String) (after : α → Parser (Option β)) :
    List α → Parser (Option (α × β))
  | [] => return none
  | word :: words => do
    let save ← get
    if ← eat (name word) then
      match ← after word with
      | some b => return some (word, b)
      | none =>
        set save
        firstWord name after words
    else firstWord name after words

def textSearchOp : Parser (Option (TextSearch × Option String)) :=
  firstWord TextSearch.name (fun _ => textSearchLang u) [.fts, .plfts, .phfts, .wfts]

def simpleOp : Parser (Option (SimpleOp × Option Quantifier)) :=
  firstWord SimpleOp.name operatorEnd SIMPLE_OPS

def operationAt (mode : ValueMode) : Parser Operation := do
  if ← eat "in." then return .in_ (← listValue)
  else if ← eat "is." then
    match isValue (lower (← singleValue mode)) with
    | some v => return .is v
    | none => fail "expecting null, not_null, true, false or unknown"
  else if ← eat "isdistinct." then return .isdistinct (← singleValue mode)
  else
    match ← textSearchOp u with
    | some (op, lang) => return .textSearch op lang (← singleValue mode)
    | none =>
      match ← simpleOp with
      | some (op, quantifier) => return .simple op quantifier (← singleValue mode)
      | none => fail "expecting an operator"

def logicFilter : Parser LogicTree := do
  let f ← field u
  expect "."
  let negate ← eat "not."
  let operation ← operationAt u .logic
  expectItemEnd ""
  return .filter { field := f, expr := { negate, operation } }

def logicTree (forest : Parser (List LogicTree)) : Parser LogicTree := do
  match ← attempt (logicFilter u) with
  | some tree => return tree
  | none =>
    let negate ← eat "not."
    if ← eat "and" then return .expr negate .and (← parenthesized forest)
    else if ← eat "or" then return .expr negate .or (← parenthesized forest)
    else fail "expecting a filter, \"and(\" or \"or(\""

def logicForest : ℕ → Parser (List LogicTree)
  | 0 => throw .outOfFuel
  | fuel + 1 => commaList (logicTree u (logicForest fuel))

/-- `rel(col)` -/
def orderRelation : Parser OrderTerm := do
  let relation ← fieldName u
  return { relation := some relation, field := ← parenthesized (field u) }

/-- `rel(col)`, or a column. -/
def orderColumn : Parser OrderTerm := do
  match ← attempt (orderRelation u) with
  | some term => return term
  | none => return { field := ← field u }

def orderDirection : Parser (Option Direction) := do
  if ← eat ".asc" then return some .asc
  else if ← eat ".desc" then return some .desc
  else return none

def orderNulls : Parser (Option Nulls) := do
  if ← eat ".nullsfirst" then return some .first
  else if ← eat ".nullslast" then return some .last
  else return none

def orderTerm : Parser OrderTerm := do
  let term ← orderColumn u
  let direction ← orderDirection
  return { term with direction, nulls := ← orderNulls }

def commaListToEnd {α : Type} (item : Parser α) : Parser (List α) := do
  let first ← item
  let more ← many do
    if ← done then return none
    else
      expect ","
      return some (← item)
  return first :: more

def failedToParse (what src why : String) (rest : List Char) : PgrstError where
  status := 400
  code := "PGRST100"
  message := s!"\"failed to parse {what} parameter ({src})\" (line 1, column " ++
    s!"{utf16Length src.toList - utf16Length rest + 1})"
  details := .text <| "unexpected " ++ (match rest with
    | [] => "end of input"
    | c :: _ => inQuotes c.toString) ++ s!" {why}"

def parse {α : Type} (what src : String) (p : Parser α) : Except Fault α :=
  match p src.toList with
  | .ok (a, _) => .ok a
  | .error (.stop why rest) => .error (.pgrst (failedToParse what src why rest))
  | .error .outOfFuel => .error .outOfFuel

def expectDone (why : String) : Parser Unit := do
  if ← done then return () else fail why

def parseSelect (src : String) : Except Fault (List SelectItem) :=
  parse "select" src do
    let items ← selectForest u (src.length + 1)
    expectDone "expecting \",\" or end of input"
    return items

def dotName : Parser (Option String) := do
  if ← eat "." then return some (← fieldName u) else return none

def parseFilterKey (src : String) : Except Fault (List String × FieldRef) :=
  parse "filter" src do
    let first ← fieldName u
    let names := first :: (← many (dotName u))
    let json ← jsonPath u
    expectDone "in a filter column"
    return (names.dropLast, { name := names.getLastD first, json })

def parseOpExpr (src column : String) : Except Fault OpExpr :=
  parse s!"filter \"{column}\"" src do
    let negate ← eat "not."
    return { negate, operation := ← operationAt u .query }

def parseLogicValue (op : LogicOp) (negate : Bool) (src key : String) : Except Fault LogicTree :=
  parse s!"logic tree \"{key}\"" src do
    let children ← parenthesized (logicForest u (src.length + 1))
    expectDone "after the closing \")\""
    return .expr negate op children

def parseOrder (src : String) : Except Fault (List OrderTerm) :=
  parse "order" src (commaListToEnd (orderTerm u))

def parseColumns (src : String) : Except Fault (List String) :=
  parse "columns" src (commaListToEnd (fieldName u))

def parseOnConflict (src : String) : List String :=
  let names := (split ',' src).map trim
  (names.filter (· ≠ "")).map fun s =>
    if s.toList.head? = some '"' ∧ s.toList.getLast? = some '"' then
      .ofList (s.toList.tail.dropLast)
    else s

end Parsers

end Kindred.Rest
