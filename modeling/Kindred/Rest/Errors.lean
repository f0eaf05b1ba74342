import Kindred.Rest.Text

/-! Errors in PostgREST's wire shape. -/

namespace Kindred.Rest

structure RelationshipChoice where
  cardinality : String
  embedding : String
  relationship : String
  constraint : String
  deriving DecidableEq

inductive Details where
  | none
  | text (s : String)
  | choices (rows : List RelationshipChoice)
  deriving DecidableEq

structure PgrstError where
  status : ℕ
  code : String
  message : String
  details : Details := .none
  hint : Option String := none
  deriving DecidableEq

structure PgError where
  code : String
  message : String
  detail : Option String
  hint : Option String
  deriving DecidableEq

/-- `Number` of three digits and capitals, where that is a whole number of three
digits: `404`, or `4E2`. -/
def threeDigits : List Char → Option ℕ
  | [a, 'E', b] =>
    if a.isDigit ∧ b.isDigit then some ((a.toNat - '0'.toNat) * 10 ^ (b.toNat - '0'.toNat))
    else none
  | cs => (String.ofList cs).toNat?

/-- What a request may end in: the engine's errors, those of the database, and
JavaScript's own. -/
inductive Fault where
  | pgrst (e : PgrstError)
  | schemaMiss (e : PgrstError)
  | sql (e : PgError)
  | error (message : String)
  | uriError
  | outOfFuel
  deriving DecidableEq

def statusForSqlState (code message : String) : ℕ :=
  match code with
  | "23503" | "23505" => 409
  | "25006" => 405
  | "21000" =>
    if "requires a WHERE clause".toList.isSuffixOf message.toList then 400 else 500
  | "53400" => 500
  | "57P01" => 503
  | "P0001" => 400
  | "42883" | "42P01" => 404
  | "42P17" => 500
  | "42501" => 403
  | _ =>
    match String.ofList (code.toList.take 2) with
    | "08" => 503
    | "09" => 500
    | "0L" | "0P" => 403
    | "25" | "2D" | "38" | "39" | "3B" | "40" => 500
    | "28" => 403
    | "53" => 503
    | "54" | "55" | "57" | "58" | "F0" | "HV" | "P0" | "XX" => 500
    | "PT" =>
      match threeDigits (code.toList.drop 2) with
      | some n => if 100 ≤ n ∧ n ≤ 599 then n else 500
      | none => 500
    | _ => 400

def fromPgError (err : PgError) : PgrstError where
  status := statusForSqlState err.code err.message
  code := err.code
  message := err.message
  details := match err.detail with
    | some s => .text s
    | none => .none
  hint := err.hint

def badRequest (code message : String) : PgrstError := { status := 400, code, message }

def singularityError (rows : String) : PgrstError where
  status := 406
  code := "PGRST116"
  message := "Cannot coerce the result to a single JSON object"
  details := .text s!"The result contains {rows} rows"

def rangeNotSatisfiable (offset total : String) : PgrstError where
  status := 416
  code := "PGRST103"
  message := "Requested range not satisfiable"
  details := .text s!"An offset of {offset} was requested, but there are only {total} rows."

def tableNotFound (schema table : String) (suggestion : Option String) : PgrstError where
  status := 404
  code := "PGRST205"
  message := s!"Could not find the table '{schema}.{table}' in the schema cache"
  hint := suggestion.map fun s => s!"Perhaps you meant the table '{schema}.{s}'"

def columnNotFound (table column : String) : PgrstError where
  status := 400
  code := "PGRST204"
  message := s!"Could not find the '{column}' column of '{table}' in the schema cache"

def functionNotFound (schema fn : String) (argNames : List String) (suggestion : Option String) :
    PgrstError :=
  let sorted := argNames.mergeSort (· ≤ ·)
  let names := ", ".intercalate sorted
  let plural := if 1 < sorted.length then "s" else ""
  let unnamed := "with a single unnamed json/jsonb parameter, but no matches were found in " ++
    "the schema cache."
  { status := 404
    code := "PGRST202"
    message := s!"Could not find the function {schema}.{fn}" ++
      (if sorted.isEmpty then " without parameters" else s!"({names})") ++ " in the schema cache"
    details := .text <| s!"Searched for the function {schema}.{fn} " ++
      (if sorted.isEmpty then "without parameters or " else
        s!"with parameter{plural} {names} or ") ++ unnamed
    hint := suggestion.map fun s => s!"Perhaps you meant to call the function {schema}.{s}" }

def ambiguousFunction (schema fn : String) (candidates : List String) : PgrstError where
  status := 300
  code := "PGRST203"
  message := "Could not choose the best candidate function between: " ++
    ", ".intercalate (candidates.map fun c => s!"{schema}.{fn}({c})")
  hint := some ("Try renaming the parameters or the function itself in the database so function " ++
    "overloading can be resolved")

def relationshipNotFound (parent child schema : String) (hint : Option String) : PgrstError where
  status := 400
  code := "PGRST200"
  message := s!"Could not find a relationship between '{parent}' and '{child}' in the schema cache"
  details := .text <|
    s!"Searched for a foreign key relationship between '{parent}' and '{child}' " ++
    (match hint with
      | some h => if h = "" then "" else s!"using the hint '{h}' "
      | none => "") ++ s!"in the schema '{schema}', but no matches were found."

def ambiguousRelationship (parent child : String) (choices : List RelationshipChoice) :
    PgrstError where
  status := 300
  code := "PGRST201"
  message := "Could not embed because more than one relationship was found for " ++
    s!"'{parent}' and '{child}'"
  details := .choices choices
  hint := some (s!"Try changing '{child}' to one of the following: " ++
    ", ".intercalate (choices.map fun c => s!"'{child}!{c.constraint}'") ++
    ". Find the desired relationship in the 'details' key.")

end Kindred.Rest
