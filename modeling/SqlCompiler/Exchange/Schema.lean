import SqlCompiler.Exchange.Constant
import SqlCompiler.Exchange.Error
import SqlCompiler.Schema.Basic

/-!
# Mapping schemas as JSON

A schema is read strictly: a key may stand only once, a value must have the type of its field,
and `null` stands only for what is optional.  Keys that are not known are skipped.  A record may
be written as the list of its fields, the last of which may be missing if they have a value of
their own.

Main definitions:

- `Fields`: the fields of a record, looked up by key.
- `readSchema`: a schema, with the entities told apart by name.
- `describeSchema`: a schema with every field.
-/

namespace SqlCompiler.Exchange

/-! ## Records -/

/-- The fields of a record that are present. -/
abbrev Fields := List (String × Json)

/-- Whether no key of a list stands twice. -/
def allDistinct : List String → Bool
  | [] => true
  | key :: rest => !rest.contains key && allDistinct rest

/-- The fields of a record with the given keys. -/
def readFields (keys : List String) : Json → Decode Fields
  | .object members => do
    let known := members.filter fun (key, _) => keys.contains key
    if allDistinct (known.map (·.1)) then .ok known else .error "repeated key"
  | .list items =>
    if items.length ≤ keys.length then .ok (keys.zip items) else .error "too many fields"
  | _ => .error "record expected"

namespace Fields

/-- A field that must be present. -/
def required {α : Type} (fields : Fields) (read : Json → Decode α) (key : String) : Decode α :=
  match fields.lookup key with
  | some j => read j
  | none => .error ("missing " ++ key)

/-- A field that has a value of its own when it is missing. -/
def withDefault {α : Type} (fields : Fields) (read : Json → Decode α) (value : α) (key : String) :
    Decode α :=
  match fields.lookup key with
  | some j => read j
  | none => .ok value

/-- A field that may be missing or `null`. -/
def optional {α : Type} (fields : Fields) (read : Json → Decode α) (key : String) :
    Decode (Option α) :=
  fields.withDefault (Exchange.optional read) none key

end Fields

/-- A flag that is given. -/
def readGivenFlag : Json → Decode Bool
  | .bool b => .ok b
  | _ => .error "flag expected"

/-- A list that is given. -/
def readGivenList {α : Type} (read : Json → Decode α) : Json → Decode (List α)
  | .list items => items.mapM read
  | _ => .error "list expected"

/-- A whole number that is not negative and has at most the given number of bits. -/
def readBits (bits : Nat) (j : Json) : Decode Nat := do
  let n ← readNat j
  if n < Nat.pow 2 bits then .ok n else .error "number out of range"

/-! ## Reading schemas -/

/-- The name of a kind of types, alone or as the only key of an object. -/
def readSchemaKind : Json → Decode TypeKind
  | .object [(name, .null)] => readKind (.text name)
  | j => readKind j

/-- A column. -/
def readColumnMapping (j : Json) : Decode ColumnMapping := do
  let fields ← readFields ["member", "column", "data_type", "length", "nullable", "primary_key",
    "identity", "skip_on_insert", "skip_on_update"] j
  return {
    member := ← fields.required readText "member"
    column := ← fields.optional readText "column"
    kind := ← fields.required readSchemaKind "data_type"
    length := ← fields.optional (readBits 32) "length"
    nullable := ← fields.withDefault readGivenFlag false "nullable"
    primaryKey := ← fields.optional (readBits 64) "primary_key"
    identity := ← fields.withDefault readGivenFlag false "identity"
    skipOnInsert := ← fields.withDefault readGivenFlag false "skip_on_insert"
    skipOnUpdate := ← fields.withDefault readGivenFlag false "skip_on_update" }

/-- The discriminator value of a sub type: a signed number of 64 bits, or a text. -/
def readCode : Json → Decode DiscriminatorCode
  | .integer n => if n < Nat.pow 2 63 then .ok (.integer n) else .error "number out of range"
  | j => return .text (← readText j)

/-- A sub type. -/
def readSubtypeMapping (j : Json) : Decode SubtypeMapping := do
  let fields ← readFields ["type_name", "discriminator", "code", "is_default"] j
  return {
    typeName := ← fields.required readText "type_name"
    discriminator := ← fields.required readText "discriminator"
    code := ← fields.required readCode "code"
    isDefault := ← fields.withDefault readGivenFlag false "is_default" }

/-- An entity. -/
def readEntityMapping (j : Json) : Decode EntityMapping := do
  let fields ← readFields ["name", "table", "schema", "columns", "inheritance"] j
  return {
    name := ← fields.required readText "name"
    table := ← fields.optional readText "table"
    schema := ← fields.optional readText "schema"
    columns := ← fields.required (readGivenList readColumnMapping) "columns"
    subtypes := ← fields.withDefault (readGivenList readSubtypeMapping) [] "inheritance" }

/-- A schema whose entities may have equal names. -/
def readEntities (j : Json) : Decode Schema := do
  let fields ← readFields ["entities"] j
  return { entities := ← fields.required (readGivenList readEntityMapping) "entities" }

/-- A schema. -/
def readSchema (j : Json) : Except SchemaError Schema := do
  let s ← (readEntities j).mapError SchemaError.malformed
  match s.duplicate? with
  | some name => .error (.duplicateEntity name)
  | none => return s

/-! ## Writing schemas -/

/-- A column with every field. -/
def describeColumnMapping (c : ColumnMapping) : Json :=
  .object [
    ("member", .text c.member), ("column", Json.orNull .text c.column),
    ("data_type", .text c.kind.name), ("length", Json.orNull .nat c.length),
    ("nullable", .bool c.nullable), ("primary_key", Json.orNull .nat c.primaryKey),
    ("identity", .bool c.identity), ("skip_on_insert", .bool c.skipOnInsert),
    ("skip_on_update", .bool c.skipOnUpdate)]

/-- A sub type with every field. -/
def describeSubtypeMapping (m : SubtypeMapping) : Json :=
  .object [
    ("type_name", .text m.typeName), ("discriminator", .text m.discriminator),
    ("code", writeConstant m.code.constant), ("is_default", .bool m.isDefault)]

/-- An entity with every field. -/
def describeEntityMapping (e : EntityMapping) : Json :=
  .object [
    ("name", .text e.name), ("table", Json.orNull .text e.table),
    ("schema", Json.orNull .text e.schema),
    ("columns", Json.listOf describeColumnMapping e.columns),
    ("inheritance", Json.listOf describeSubtypeMapping e.subtypes)]

/-- A schema with every field. -/
def describeSchema (s : Schema) : Json :=
  .object [("entities", Json.listOf describeEntityMapping s.entities)]

/-- Why a schema is refused. -/
def describeSchemaError : SchemaError → Json
  | .malformed _ => .object [("error", .text "SchemaParse")]
  | .duplicateEntity name =>
    .object [("error", .text "DuplicateEntity"),
      ("message", .text (SchemaError.duplicateEntity name).message)]

end SqlCompiler.Exchange
