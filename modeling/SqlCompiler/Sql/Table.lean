import SqlCompiler.Sql.Expression

/-!
# Tables and fields

Main definitions:

- `ObjectName`, `TableKind`, `Subtype`, `Table`: a table instance and where its rows come from.
- `Field` and `FieldSpec`: a field of a table instance, and its description before it belongs
  to one.
-/

namespace SqlCompiler

/-- A possibly qualified physical name. -/
structure ObjectName where
  server : Option String := none
  database : Option String := none
  schema : Option String := none
  name : String
  deriving DecidableEq, Repr, Inhabited

/-- The qualifying parts that are present, outermost first. -/
def ObjectName.qualifiers (n : ObjectName) : List String :=
  [n.server, n.database, n.schema].filterMap id

/-- Where the rows of a table come from. -/
inductive TableKind where
  | physical
  | cte (cte : CteRef)
  /-- A text used as a table; `{0}`, `{1}`, ... stand for the arguments. -/
  | raw (sql : String) (args : List Scalar)
  /-- Rows written in place. -/
  | values (rows : List (List Scalar))
  /-- The new rows of a data modification. -/
  | inserted
  /-- The old rows of a data modification. -/
  | deleted
  deriving Inhabited

/-- The discriminator value of one mapped sub type. -/
structure Subtype where
  typeName : String
  discriminator : FieldRef
  code : Constant
  isDefault : Bool
  deriving Inhabited

/-- A table instance. -/
structure Table where
  name : ObjectName
  kind : TableKind := .physical
  fields : List FieldRef := []
  subtypes : List Subtype := []
  /-- The diagnostic id that deferred names refer to. -/
  tableId : Option String := none
  isTemporary : Bool := false
  deriving Inhabited

/-- A field of a table instance. -/
structure Field where
  table : TableRef
  /-- The member name in the mapped entity. -/
  name : String
  physicalName : String
  type : SqlType
  canBeNull : Bool
  isPrimaryKey : Bool
  primaryKeyOrder : Nat
  isIdentity : Bool
  skipOnInsert : Bool
  skipOnUpdate : Bool
  deriving Inhabited

/-- A field that does not belong to a table yet. -/
structure FieldSpec where
  name : String
  type : SqlType
  physicalName : Option String := none
  canBeNull : Bool := false
  isPrimaryKey : Bool := false
  primaryKeyOrder : Nat := 0
  isIdentity : Bool := false
  skipOnInsert : Bool := false
  skipOnUpdate : Bool := false
  deriving Inhabited

namespace FieldSpec

/-- Make the field part of the primary key, at the given position. -/
def withKey (spec : FieldSpec) (order : Nat) : FieldSpec :=
  { spec with isPrimaryKey := true, primaryKeyOrder := order }

/-- Make the field an identity, which no statement writes. -/
def withIdentity (spec : FieldSpec) : FieldSpec :=
  { spec with isIdentity := true, skipOnInsert := true, skipOnUpdate := true }

/-- The field as a part of a table; its physical name is its member name unless given. -/
def toField (spec : FieldSpec) (table : TableRef) : Field :=
  { table
    name := spec.name
    physicalName := spec.physicalName.getD spec.name
    type := spec.type
    canBeNull := spec.canBeNull
    isPrimaryKey := spec.isPrimaryKey
    primaryKeyOrder := spec.primaryKeyOrder
    isIdentity := spec.isIdentity
    skipOnInsert := spec.skipOnInsert
    skipOnUpdate := spec.skipOnUpdate }

end FieldSpec

end SqlCompiler
