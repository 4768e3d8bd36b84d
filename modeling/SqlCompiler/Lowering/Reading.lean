import SqlCompiler.Lowering.Rule

/-!
# Tables, sub types and constant rows

Main definitions:

- `tableRule`: a mapped type as a sequence; a sub type is its table with a condition.
- `ofTypeRule`: the elements of a sub type.
- `valuesRule`: a list of records as a sequence.
- `subtypeCondition`: the rows of a table that are of a sub type.
-/

namespace SqlCompiler

namespace LowerM

/-- Add a condition to the `WHERE` clause of a query. -/
def addWhere (q : QueryRef) (condition : Condition) : LowerM Unit :=
  modifyQuery q fun query => { query with whereClause := query.whereClause.conjoinAll condition }

end LowerM

/-! ## Sub types -/

/-- The condition on a discriminator that holds on the rows of a sub type.  The default one also
owns the rows whose discriminator is of no other sub type. -/
def subtypeTest (s : Store) (subtypes : List Subtype) (subtype : Subtype) (discriminator : Scalar) :
    Condition :=
  if subtype.isDefault then
    let others := (subtypes.filter (·.typeName != subtype.typeName)).map fun other =>
      Scalar.constant other.code
    if others.isEmpty then .empty
    else
      let withNull := if (s.field subtype.discriminator).canBeNull then some true else none
      .ofPredicate (.inList discriminator others true withNull)
  else .ofPredicate (.equal discriminator (.constant subtype.code))

/-- The condition that holds on the rows of a table that are of a sub type, where the members
are read as the projection says. -/
def subtypeCondition (s : Store) (t : TableRef) (p : Projection) (typeName : String) :
    Except SqlError Condition := do
  let table := s.table t
  match table.subtypes.find? (·.typeName == typeName) with
  | none =>
    .error (.resolution ("'" ++ typeName ++ "' is not a sub type of '" ++ table.name.name ++ "'."))
  | some subtype =>
    let member ← p.member (s.field subtype.discriminator).name
    return subtypeTest s table.subtypes subtype
      (member.asScalar?.getD (.field subtype.discriminator))

/-- Narrow a sequence of entities to a sub type. -/
def LowerM.narrow (lowered : Lowered) (t : TableRef) (typeName : String) : LowerM Lowered := do
  let condition ← ofExcept (subtypeCondition (← store) t lowered.projection typeName)
  addWhere lowered.query condition
  match lowered.projection with
  | .entity _ table members => return { lowered with projection := .entity typeName table members }
  | _ => return lowered

/-! ## Tables -/

namespace LowerM

/-- A new query that reads a new table for an entity. -/
def readEntity (entity : EntityMapping) (parent : Option QueryRef) :
    LowerM (Lowered × TableRef) := do
  let t ← ofStoreM entity.instantiate
  let query ← newQuery parent
  addSource query (.ofTable t)
  return ({ query, projection := .ofTable (← store) entity.name t }, t)

/-- A new query that reads the rows of a mapped type. -/
def readType (name : String) (parent : Option QueryRef) : LowerM Lowered := do
  let schema := (← read).schema
  let (found, subtype) ← ofExcept (schema.resolve name)
  let entity ← ofExcept (schema.entity found.name)
  let (lowered, t) ← readEntity entity parent
  if subtype.isSome then narrow lowered t name else return lowered

end LowerM

/-- A mapped type as a sequence. -/
def tableRule : Rule where
  name := "Table"
  accepts
    | .table _ => true
    | _ => false
  lower _ t parent :=
    match t with
    | .table name => LowerM.readType name parent
    | other => LowerM.refuse other.text "expected a table"

/-- The elements of a sequence of entities that are of a sub type. -/
def lowerOfType (l : Lowerer) (c : CallSite) (typeName : String) : LowerM Lowered := do
  let lowered ← c.lowerSource l
  match lowered.projection with
  | .entity name (some t) _ =>
    if name == typeName then return lowered
    else LowerM.narrow (← LowerM.wrapIf Query.hasFixedRows lowered) t typeName
  | p => c.refuse (p.describe ++ " has no sub types")

/-- Sub types of an entity. -/
def ofTypeRule : Rule :=
  .ofCall "OfType"
    (fun operator _ =>
      match operator with
      | .ofType _ => true
      | _ => false)
    fun l c =>
      match c.operator with
      | .ofType typeName => lowerOfType l c typeName
      | _ => c.refuse "expected OfType"

/-! ## Constant rows -/

/-- The records of a list that is not empty and holds nothing else. -/
def Term.constantRecords? : Term → Option (List (Members Constant))
  | constant (.list []) => none
  | constant (.list items) => items.mapM fun item =>
    match item with
    | .record members => some members
    | _ => none
  | _ => none

/-- The field that holds a member of some records.  Its type is that of the first record with a
value. -/
def fieldOfRecords (records : List (Members Constant)) (name : String) : FieldSpec :=
  let values := records.map (Members.get? name)
  let isNull (value : Option Constant) : Bool := (value.map Constant.isNull).getD true
  let type := ((values.filterMap id).find? fun c => !c.isNull).map Constant.naturalType
  { name, type := type.getD .undefined, canBeNull := values.any isNull }

/-- Constant rows as a sequence.  The members are those of the first record; one that a later
record lacks is absent there. -/
def lowerValues (records : List (Members Constant)) (parent : Option QueryRef) :
    LowerM Lowered := do
  let names := (records.head?.map Members.names).getD []
  let row (record : Members Constant) : List Scalar :=
    names.map fun name => Scalar.constant ((Members.get? name record).getD .null)
  let table : Table := { name := { name := "Values" }, kind := .values (records.map row) }
  let t ← LowerM.allocate fun s => s.addTable table (names.map (fieldOfRecords records))
  let query ← LowerM.newQuery parent
  LowerM.addSource query (.ofTable t)
  let fields := ((← LowerM.store).table t).fields
  let members := names.zip (fields.map fun f => Projection.scalar (.field f))
  return { query, projection := .record (Members.ofList members) }

/-- A list of records as a sequence. -/
def valuesRule : Rule where
  name := "Values"
  isFallback := true
  accepts t := t.constantRecords?.isSome
  lower _ t parent :=
    match t.constantRecords? with
    | some records => lowerValues records parent
    | none => LowerM.refuse t.text "expected a list of records"

end SqlCompiler
