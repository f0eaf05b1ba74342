import Kindred.Rest.Grammar
import Kindred.Rest.Schema

/-! SQL text, as the pieces it is put together from. -/

namespace Kindred.Rest
open Lib (Tx)

/-- What `JSON.parse` reads. -/
inductive Json where
  | null
  | bool (b : Bool)
  | number (text : String)
  | string (s : String)
  | array (items : List Json)
  | object (fields : List (String × Json))

inductive Bind where
  | text (s : String)
  | texts (values : List String)
  | json (j : Json)

inductive Piece where
  | raw (sql : String)
  /-- `qi` -/
  | ident (name : String)
  /-- `ql` -/
  | literal (value : String)
  | param (n : ℕ)
  | number (n : JsNumber)
  | index (key : String)
  | typeName (name : String)
  | catalog (sql : String)

abbrev Sql := List Piece

def raw (sql : String) : Sql := [.raw sql]

def qi (name : String) : Sql := [.ident name]

def ql (value : String) : Sql := [.literal value]

def qtable (schema name : String) : Sql := qi schema ++ raw "." ++ qi name

/-- `join` -/
def Sql.join (separator : String) (parts : List Sql) : Sql :=
  [Piece.raw separator].intercalate parts

abbrev Emit := Tx (List Bind) Fault

/-- `Params.add` -/
def addParam (value : Bind) : Emit Sql := do
  let values ← get
  set (values ++ [value])
  return [.param (values.length + 1)]

def isTypeNameChar (c : Char) : Bool := c.isAlphanum || c = '_' || c = ' '

/-- `[A-Za-z_][A-Za-z0-9_ ]*(\[\])?` -/
def isTypeName : List Char → Bool
  | [] => false
  | c :: cs =>
    (c.isAlpha || c = '_') &&
      (cs.all isTypeNameChar ||
        "[]".toList.isSuffixOf cs && (cs.take (cs.length - 2)).all isTypeNameChar)

/-- The name of a type to cast to; an `Error` that is not the engine's where it
cannot be one. -/
def safeTypeName (t : String) : Except Fault String :=
  let trimmed := trim t
  if isTypeName trimmed.toList then .ok trimmed else .error (.error s!"invalid cast type: {t}")

end Kindred.Rest
