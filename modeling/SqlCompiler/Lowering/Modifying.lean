import SqlCompiler.Lowering.Basic
import SqlCompiler.Lowering.Clauses

/-!
# Data modification and definition

A setter is a function that makes a record; each member of the record is assigned to the field
of that name.

Main definitions:

- `assign`: one more assignment; the last one of a target counts, in the place of the first.
- `LowerM.settableField`: the field a member names.
- `Lowerer.assignments`: the assignments of a setter.
- `Term.memberOfFunction`: the member a function selects.
- `insertRule`, `insertOrUpdateRule`, `updateRule`, `deleteRule`: single statements, some of them
  written as a chain of assignments.
- `ddlRule`: creating, dropping and emptying tables.
-/

namespace SqlCompiler

/-! ## Setters -/

/-- Whether fields are written by an insert or by an update. -/
inductive WriteKind where
  | insert
  | update
  deriving DecidableEq, Repr, Inhabited

/-- Whether a field is left out of the statements of a kind. -/
def WriteKind.skips (kind : WriteKind) (f : Field) : Bool :=
  match kind with
  | insert => f.skipOnInsert
  | update => f.skipOnUpdate

/-- Assign to a field. -/
def Assignment.toField (f : FieldRef) (value : Scalar) : Assignment := ⟨.field f, some value⟩

/-- Add an assignment, in the place of an earlier one of the same target. -/
def assign (item : Assignment) : List Assignment → List Assignment
  | [] => [item]
  | first :: rest => if first.target == item.target then item :: rest else first :: assign item rest

/-- The member a function of one argument selects. -/
def Term.memberOfFunction (f : Term) : Except SqlError String := do
  let (params, body) ← f.functionOf 1
  let refused := .error (.untranslatable body.text "expected a member of the lambda parameter")
  match body with
  | .member (.bound name) found => if params.head? == some name then return found else refused
  | _ => refused

/-- The field of a table a member names, unless statements of that kind leave it out. -/
def LowerM.settableField (t : TableRef) (name : String) (kind : WriteKind) :
    LowerM (Option FieldRef) := do
  let s ← LowerM.store
  match s.fieldByName t name with
  | some f => return if kind.skips (s.field f) then none else some f
  | none =>
    throw (.resolution ("Member '" ++ name ++ "' is not mapped on table '" ++
      (s.table t).name.name ++ "'."))

namespace Lowerer

variable (l : Lowerer)

/-- One more assignment to a member, unless its field is left out. -/
def assignMember (t : TableRef) (kind : WriteKind) (q : QueryRef) (items : List Assignment)
    (name : String) (value : Term) : LowerM (List Assignment) := do
  match ← LowerM.settableField t name kind with
  | none => return items
  | some f => return assign (.toField f (← l.scalar value q)) items

/-- The assignments a setter makes to the fields of a table. -/
def assignments (setter : Term) (args : List Projection) (t : TableRef) (q : QueryRef)
    (kind : WriteKind) : LowerM (List Assignment) := do
  let (params, body) ← LowerM.ofExcept (setter.functionOf args.length)
  let members ←
    match body with
    | .record members | .entity _ members => pure members
    | other => LowerM.refuse other.text "a setter must assign members of a new record"
  LowerM.withVariables (params.zip args)
    (members.foldlM (fun items (name, value) => l.assignMember t kind q items name value) [])

end Lowerer

/-! ## Inserts -/

/-- A value in a chain of assignments: a term, or a function that makes it. -/
def isFunctionTerm : Term → Bool
  | .lambda .. | .quote _ => true
  | _ => false

/-- Begin a chain of values for a table. -/
def lowerInto (c : CallSite) : LowerM Lowered := do
  let (into, projection) ← LowerM.tableOf (← c.arg 0)
  return { query := ← LowerM.newQuery c.parent, projection, outcome := .insertValues into [] }

/-- One more value of a chain. -/
def lowerValue (l : Lowerer) (c : CallSite) : LowerM Lowered := do
  let lowered ← c.lowerFirst l
  match lowered.outcome with
  | .insertValues into items =>
    let member ← LowerM.ofExcept (← c.arg 1).memberOfFunction
    let given ← c.arg 2
    let term ←
      if isFunctionTerm given then do pure (← LowerM.ofExcept (given.functionOf 0)).2
      else pure given
    let value ← l.scalar term lowered.query
    let items :=
      match ← LowerM.settableField into member .insert with
      | some f => assign (.toField f value) items
      | none => items
    return { lowered with outcome := .insertValues into items }
  | _ => c.refuseWhole "Value must follow Into or another Value"

/-- A closed insert. -/
def Lowered.insert (lowered : Lowered) (c : CallSite) (into : TableRef) (items : List Assignment) :
    Lowered :=
  let clause : InsertClause :=
    { into := some into, items, withIdentity := c.operator == .insertWithIdentity }
  { lowered with outcome := .statement (.insert clause none) }

/-- Select nothing but the assigned values, in order. -/
def LowerM.selectValues (q : QueryRef) (items : List Assignment) : LowerM Unit := do
  modifyQuery q fun query => { query with columns := [] }
  for value in items.filterMap (·.value) do
    let _ ← allocate fun s => s.addFreshColumn q value none

/-- Close a chain of values, or insert what a setter makes: one row, or one for each element of a
sequence. -/
def lowerInsert (l : Lowerer) (c : CallSite) : LowerM Lowered := do
  match c.args with
  | [chain] =>
    let lowered ← l.sequence chain c.parent
    match lowered.outcome with
    | .insertValues into items => return lowered.insert c into items
    | _ => c.refuseWhole "expected Into(...).Value(...) before Insert"
  | [table, setter] =>
    let (into, projection) ← LowerM.tableOf table
    let query ← LowerM.newQuery c.parent
    let items ← l.assignments setter [] into query .insert
    return { query, projection : Lowered }.insert c into items
  | [_, table, setter] =>
    let lowered ← LowerM.wrapIf Query.hasFixedColumns (← c.lowerSource l)
    let (into, _) ← LowerM.tableOf table
    let items ← l.assignments setter [lowered.projection] into lowered.query .insert
    LowerM.selectValues lowered.query items
    return lowered.insert c into items
  | _ => c.refuseWhole "unexpected arguments"

/-- Inserts.  `Into` with a setter is a branch of a multi-table insert instead. -/
def insertRule : Rule :=
  .ofCall "Insert"
    (fun operator args =>
      match operator with
      | .insert | .insertWithIdentity | .value => true
      | .into => args.length == 1
      | _ => false)
    fun l c =>
      match c.operator with
      | .into => lowerInto c
      | .value => lowerValue l c
      | _ => lowerInsert l c

/-! ## Upserts -/

/-- A key of an upsert with the value that is inserted for it. -/
def keyAssignment (s : Store) (items : List Assignment) (key : Scalar) :
    Except SqlError Assignment :=
  match key with
  | .field f =>
    match (items.find? (·.target == .field f)).bind (·.value) with
    | some value => .ok (.toField f value)
    | none =>
      .error (.resolution ("Key '" ++ (s.field f).name ++ "' has no value in the inserted record."))
  | _ => .error (.unusableValue "an upsert key must be a column of the target table")

/-- Fail unless the primary key of a table is inserted. -/
def checkPrimaryKey (s : Store) (t : TableRef) (items : List Assignment) :
    Except SqlError Unit := do
  let keys := s.primaryKeys t
  if keys.isEmpty then
    throw (.resolution ("InsertOrUpdate requires the '" ++ (s.table t).name.name ++
      "' table to have a primary key."))
  match keys.find? fun key => !items.any (·.target == .field key) with
  | some key =>
    throw (.resolution ("InsertOrUpdate requires the primary key '" ++ (s.field key).name ++
      "' to be inserted."))
  | none => return

/-- Insert a row, or update the one with the same key.  Unless another key is given, the primary
key is meant. -/
def lowerInsertOrUpdate (l : Lowerer) (c : CallSite) : LowerM Lowered := do
  let (table, projection) ← LowerM.tableOf (← c.arg 0)
  let query ← LowerM.newQuery c.parent
  LowerM.addSource query (.ofTable table)
  let inserted ← l.assignments (← c.arg 1) [] table query .insert
  let updated ← l.assignments (← c.arg 2) [projection] table query .update
  let keys ←
    match c.args[3]? with
    | some selector =>
      let key ← l.applyProjection selector [projection] query
      let s ← LowerM.store
      LowerM.ofExcept (key.scalars.mapM (keyAssignment s inserted))
    | none =>
      LowerM.ofExcept (checkPrimaryKey (← LowerM.store) table inserted)
      pure []
  let body := StatementBody.upsert { into := some table, items := inserted }
    { table := some table, keys, items := updated }
  return { query, projection, outcome := .statement body }

/-- Upserts. -/
def insertOrUpdateRule : Rule :=
  .ofCall "InsertOrUpdate" (fun operator _ => operator == .insertOrUpdate) lowerInsertOrUpdate

/-! ## Updates -/

/-- One more assignment of a chain. -/
def lowerSet (l : Lowerer) (c : CallSite) : LowerM Lowered := do
  let lowered ← c.lowerFirst l
  let items ←
    match lowered.outcome with
    | .assignments items => pure items
    | .sequence => pure []
    | _ => c.refuseWhole "Set needs a sequence of entities"
  let table ← lowered.target
  let member ← LowerM.ofExcept (← c.arg 1).memberOfFunction
  let given ← c.arg 2
  let value ←
    if isFunctionTerm given then l.applyScalar given [lowered.projection] lowered.query
    else l.scalar given lowered.query
  let items :=
    match ← LowerM.settableField table member .update with
    | some f => assign (.toField f value) items
    | none => items
  return { lowered with outcome := .assignments items }

/-- The assignments a setter makes to the table of a lowered sequence. -/
def Lowered.setterItems (lowered : Lowered) (l : Lowerer) (setter : Term) :
    LowerM (List Assignment) := do
  if !lowered.outcome.isSequence then
    LowerM.refuse setter.text "Update needs a sequence of entities"
  let table ← lowered.target
  l.assignments setter [lowered.projection] table lowered.query .update

/-- The rows an update is about and its assignments. -/
def lowerUpdateParts (l : Lowerer) (c : CallSite) : LowerM (Lowered × List Assignment) := do
  match c.args with
  | [chain] =>
    let lowered ← l.sequence chain c.parent
    match lowered.outcome with
    | .assignments items => return (lowered, items)
    | _ => c.refuseWhole "expected Set(...) before Update"
  | [source, setter] =>
    let lowered ← l.sequence source c.parent
    return (lowered, ← lowered.setterItems l setter)
  | [source, condition, setter] =>
    let lowered ← (← l.sequence source c.parent).filter l condition false
    return (lowered, ← lowered.setterItems l setter)
  | _ => c.refuseWhole "unexpected arguments"

/-- Update the rows of a sequence. -/
def lowerUpdate (l : Lowerer) (c : CallSite) : LowerM Lowered := do
  let (lowered, items) ← lowerUpdateParts l c
  if items.isEmpty then throw (.resolution "Update statement has no columns to set.")
  let clause : UpdateClause := { table := some (← lowered.target), items }
  return { lowered with outcome := .statement (.update clause none) }

/-- Updates. -/
def updateRule : Rule :=
  .ofCall "Update" (fun operator _ => operator == .update || operator == .set) fun l c =>
    if c.operator == .set then lowerSet l c else lowerUpdate l c

/-! ## Deletes -/

/-- Delete the rows of a sequence; its limit becomes the limit of the statement. -/
def lowerDelete (l : Lowerer) (c : CallSite) : LowerM Lowered := do
  let lowered ← (← c.lowerSource l).filterIf l c.args[1]?
  let table ← lowered.target
  let query := (← LowerM.store).query lowered.query
  if query.skip.isSome then
    throw (.unsupported "DELETE with Skip" (← read).provider.name)
  LowerM.modifyQuery lowered.query fun q =>
    { q with take := none, takeHints := none, orderBy := [] }
  return { lowered with outcome := .statement (.delete (some table) query.take none) }

/-- Deletes. -/
def deleteRule : Rule :=
  .ofCall "Delete" (fun operator _ => operator == .delete) lowerDelete

/-! ## Tables -/

/-- The statement on a table that an operator stands for. -/
def SequenceOperator.tableStatement? (t : TableRef) : SequenceOperator → Option StatementBody
  | createTable => some (.createTable t none none)
  | dropTable ifExists => some (.dropTable t ifExists)
  | truncateTable resetIdentity => some (.truncateTable t resetIdentity)
  | _ => none

/-- Create, drop or empty a table. -/
def lowerTableStatement (c : CallSite) : LowerM Lowered := do
  let (table, projection) ← LowerM.tableOf (← c.arg 0)
  match c.operator.tableStatement? table with
  | some body =>
    return { query := ← LowerM.newQuery c.parent, projection, outcome := .statement body }
  | none => c.refuseWhole "not a table statement"

/-- Statements on tables. -/
def ddlRule : Rule :=
  .ofCall "Ddl"
    (fun operator _ =>
      match operator with
      | .createTable | .dropTable _ | .truncateTable _ => true
      | _ => false)
    fun _ c => lowerTableStatement c

end SqlCompiler
