import SqlCompiler.Store.Basic

/-!
# Mapping schemas

A mapping schema says which table holds the rows of an entity, and which column each of its
members.  Sub types live in the table of their entity, told apart by a discriminator.

Main definitions:

- `ColumnMapping`, `SubtypeMapping`, `EntityMapping`, `Schema`.
- `SchemaError`: why a schema is refused.
- `Schema.entity`, `Schema.resolve`: the entity that stores a type.
- `EntityMapping.instantiate`: a table for an entity in a store.
-/

namespace SqlCompiler

/-- How a member of an entity is stored. -/
structure ColumnMapping where
  member : String
  /-- The physical name, if it is not the name of the member. -/
  column : Option String := none
  kind : TypeKind
  length : Option Nat := none
  nullable : Bool := false
  /-- The position in the primary key. -/
  primaryKey : Option Nat := none
  identity : Bool := false
  skipOnInsert : Bool := false
  skipOnUpdate : Bool := false
  deriving Inhabited

/-- The discriminator value of a sub type. -/
inductive DiscriminatorCode where
  | integer (code : Int)
  | text (code : String)
  deriving DecidableEq, Repr, Inhabited

/-- The code as a constant. -/
def DiscriminatorCode.constant : DiscriminatorCode → Constant
  | integer code => .integer code
  | text code => .text code

/-- How a sub type is told apart. -/
structure SubtypeMapping where
  typeName : String
  /-- The member that holds the discriminator. -/
  discriminator : String
  code : DiscriminatorCode
  isDefault : Bool := false
  deriving Inhabited

/-- How an entity is stored. -/
structure EntityMapping where
  name : String
  /-- The physical name of the table, if it is not the name of the entity. -/
  table : Option String := none
  schema : Option String := none
  columns : List ColumnMapping
  subtypes : List SubtypeMapping := []
  deriving Inhabited

/-- How entities are stored. -/
structure Schema where
  entities : List EntityMapping := []
  deriving Inhabited

/-- Why a schema is refused. -/
inductive SchemaError where
  /-- It is not of the form of a schema. -/
  | malformed (expected : String)
  | duplicateEntity (name : String)
  deriving DecidableEq, Repr, Inhabited

/-- The wording of a schema error. -/
def SchemaError.message : SchemaError → String
  | malformed expected => "Invalid mapping schema: " ++ expected
  | duplicateEntity name => "Entity '" ++ name ++ "' is mapped more than once"

/-! ## Looking up types -/

namespace Schema

/-- The first entity whose name an earlier one has too. -/
def duplicate? (s : Schema) : Option String :=
  let rec go (seen : List String) : List EntityMapping → Option String
    | [] => none
    | e :: rest => if seen.contains e.name then some e.name else go (e.name :: seen) rest
  go [] s.entities

/-- Why a type cannot be looked up. -/
def notMapped (name : String) : SqlError := .resolution ("Entity '" ++ name ++ "' is not mapped.")

/-- The entity of a name. -/
def entity (s : Schema) (name : String) : Except SqlError EntityMapping :=
  match s.entities.find? (·.name == name) with
  | some e => .ok e
  | none => .error (notMapped name)

/-- The entity that stores a type: the entity of that name, or else the first one with a sub
type of that name. -/
def resolve (s : Schema) (name : String) :
    Except SqlError (EntityMapping × Option SubtypeMapping) :=
  match s.entities.find? (·.name == name) with
  | some e => .ok (e, none)
  | none =>
    let inEntity (e : EntityMapping) : Option (EntityMapping × Option SubtypeMapping) :=
      (e.subtypes.find? (·.typeName == name)).map fun subtype => (e, some subtype)
    match s.entities.findSome? inEntity with
    | some found => .ok found
    | none => .error (notMapped name)

end Schema

/-! ## Tables of entities -/

/-- The field that holds a member. -/
def ColumnMapping.fieldSpec (c : ColumnMapping) : FieldSpec :=
  let plain : FieldSpec :=
    { name := c.member
      type := { SqlType.plain c.kind with length := c.length }
      physicalName := c.column
      canBeNull := c.nullable }
  let keyed :=
    match c.primaryKey with
    | some order => plain.withKey order
    | none => plain
  let spec := if c.identity then keyed.withIdentity else keyed
  { spec with
    skipOnInsert := spec.skipOnInsert || c.skipOnInsert
    skipOnUpdate := spec.skipOnUpdate || c.skipOnUpdate }

namespace EntityMapping

/-- The physical name of the table. -/
def tableName (e : EntityMapping) : String := e.table.getD e.name

/-- A sub type in a table of the entity. -/
def subtypeIn (e : EntityMapping) (s : Store) (t : TableRef) (m : SubtypeMapping) :
    Except SqlError Subtype :=
  match s.fieldByName t m.discriminator with
  | some discriminator =>
    .ok { typeName := m.typeName, discriminator, code := m.code.constant, isDefault := m.isDefault }
  | none =>
    .error (.resolution
      ("Discriminator '" ++ m.discriminator ++ "' of '" ++ m.typeName ++ "' is not a column of '" ++
        e.name ++ "'."))

/-- Add a table for the entity to the store. -/
def instantiate (e : EntityMapping) : StoreM TableRef := do
  let table : Table := { name := { schema := e.schema, name := e.tableName } }
  let t ← modifyGet fun s : Store => s.addTable table (e.columns.map (·.fieldSpec))
  let s ← get
  let subtypes ← e.subtypes.mapM fun m => (e.subtypeIn s t m : Except SqlError Subtype)
  modify fun s : Store => s.modifyTable t fun table => { table with subtypes }
  return t

end EntityMapping

end SqlCompiler
