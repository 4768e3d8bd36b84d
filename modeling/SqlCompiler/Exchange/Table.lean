import SqlCompiler.Exchange.Expression
import SqlCompiler.Store.Basic

/-!
# Tables and fields as JSON

Main definitions:

- `readTableSpec`, `readFieldSpec`, `readSubtype`: tables and fields to be added to a store.
- `describeTable`: a table of a store with its fields.
-/

namespace SqlCompiler.Exchange

/-- A name, alone or with its qualifiers. -/
def readObjectName (j : Json) : Decode ObjectName := do
  match j with
  | .text name => return { name }
  | _ =>
    return {
      server := ← optional readText (j.item 0)
      database := ← optional readText (j.item 1)
      schema := ← optional readText (j.item 2)
      name := ← readText (j.item 3) }

/-- A name with its qualifiers. -/
def writeObjectName (n : ObjectName) : Json :=
  .list [Json.orNull .text n.server, Json.orNull .text n.database, Json.orNull .text n.schema,
    .text n.name]

/-- Where the rows of a table come from; physical unless given. -/
def readTableKind (j : Json) : Decode TableKind := do
  match j with
  | .null => return .physical
  | .text "inserted" => return .inserted
  | .text "deleted" => return .deleted
  | .object [("raw", raw)] =>
    return .raw (← readText (raw.item 0)) (← readList readScalar (raw.item 1))
  | .object [("values", rows)] => return .values (← readList (readList readScalar) rows)
  | _ => .error "kind of table expected"

/-- A field of a new table. -/
def readFieldSpec (j : Json) : Decode FieldSpec := do
  let plain : FieldSpec :=
    { name := ← readText (j.field "name")
      type := ← readType (j.field "type")
      physicalName := ← optional readText (j.field "phys")
      canBeNull := ← readFlag (j.field "null") }
  let keyed :=
    match ← optional readNat (j.field "pk") with
    | some order => plain.withKey order
    | none => plain
  let spec := if ← readFlag (j.field "identity") then keyed.withIdentity else keyed
  return {
    spec with
    skipOnInsert := spec.skipOnInsert || (← readFlag (j.field "skip_insert"))
    skipOnUpdate := spec.skipOnUpdate || (← readFlag (j.field "skip_update")) }

/-- A new table with its fields. -/
def readTableSpec (j : Json) : Decode (Table × List FieldSpec) := do
  let table : Table :=
    { name := ← readObjectName (j.field "name")
      kind := ← readTableKind (j.field "kind")
      tableId := ← optional readText (j.field "table_id")
      isTemporary := ← readFlag (j.field "temp") }
  return (table, ← readList readFieldSpec (j.field "fields"))

/-- A sub type. -/
def readSubtype (j : Json) : Decode Subtype :=
  return {
    typeName := ← readText (j.item 0)
    discriminator := ← readField (j.item 1)
    code := ← readConstant (j.item 2)
    isDefault := ← readFlag (j.item 3) }

/-- A sub type. -/
def writeSubtype (s : Subtype) : Json :=
  .list [.text s.typeName, writeField s.discriminator, writeConstant s.code, .bool s.isDefault]

/-- A field of a store. -/
def describeField (s : Store) (ref : FieldRef) : Json :=
  let f := s.field ref
  .object [
    ("id", writeField ref), ("table", writeTable f.table), ("name", .text f.name),
    ("phys", .text f.physicalName), ("type", writeType f.type), ("null", .bool f.canBeNull),
    ("pk", if f.isPrimaryKey then .nat f.primaryKeyOrder else .null),
    ("identity", .bool f.isIdentity), ("skip_insert", .bool f.skipOnInsert),
    ("skip_update", .bool f.skipOnUpdate)]

/-- The kind of a table. -/
def tableKindName : TableKind → String
  | .physical | .inserted | .deleted => "SqlTable"
  | .cte _ => "SqlCteTable"
  | .raw .. => "SqlRawSqlTable"
  | .values _ => "SqlValuesTable"

/-- A table of a store with its fields. -/
def describeTable (s : Store) (ref : TableRef) : Json :=
  let t := s.table ref
  .object [
    ("id", writeTable ref), ("name", writeObjectName t.name),
    ("type", .text (tableKindName t.kind)), ("table_id", Json.orNull .text t.tableId),
    ("temp", .bool t.isTemporary), ("fields", Json.listOf (describeField s) t.fields),
    ("inheritance", Json.listOf writeSubtype t.subtypes)]

end SqlCompiler.Exchange
