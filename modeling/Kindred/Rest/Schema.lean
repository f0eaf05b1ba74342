import Kindred.Lib.Table
import Kindred.Rest.Errors

/-! What PostgREST calls its schema cache. -/

namespace Kindred.Rest
open Lib (Table)

structure ColumnInfo where
  /-- `pg_type.typname` of the column's type. -/
  typname : String
  /-- The SQL a missing value takes under `Prefer: missing=default`. -/
  defaultExpr : Option String

structure TableInfo where
  oid : Option ℕ
  schema : String
  name : String
  columns : Table String ColumnInfo
  pk : List String

inductive Cardinality where
  | manyToOne | oneToMany | oneToOne

def Cardinality.text : Cardinality → String
  | manyToOne => "many-to-one"
  | oneToMany => "one-to-many"
  | oneToOne => "one-to-one"

structure Relationship where
  constraint : String
  «from» : TableInfo
  «to» : TableInfo
  fromCols : List String
  toCols : List String
  paired : fromCols.length = toCols.length
  forward : Bool
  toOne : Bool
  cardinality : Cardinality
  fkCols : List String

structure FunctionArg where
  name : String
  type : String
  hasDefault : Bool

inductive ReturnShape where
  | void | scalar | composite | setofScalar | setofComposite
  deriving DecidableEq

structure FunctionInfo where
  schema : String
  name : String
  args : List FunctionArg
  returnShape : ReturnShape
  returnType : String
  allNamed : Bool

structure SchemaSnapshot where
  schemas : List String
  tables : Table (String × String) TableInfo
  relationships : List Relationship
  functions : Table (String × String) (List FunctionInfo)

end Kindred.Rest
