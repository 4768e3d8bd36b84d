import SqlCompiler.Error
import SqlCompiler.Store.Transform

/-!
# Updates and deletes over several tables

Where a dialect can only name one table, the statement is rebuilt over a fresh instance of its
target, and its query becomes a filter correlated to that instance on the target's key.

Main definitions:

- `Store.rebase`: the new root query with the correlated filter.
- `Store.splitDelete`, `Store.splitUpdate`: deletes and updates over a copy of their target.
- `Store.flattenUpdate`: inner joins of an update as further sources.
-/

namespace SqlCompiler

/-- The transformer that replaces fields by their counterparts. -/
def fieldRenaming (mapping : List (FieldRef × FieldRef)) : Transformer :=
  { onScalar := fun e =>
      match e with
      | .field f => .field ((Store.paired mapping f).getD f)
      | other => other
    onPredicate := fun p => p }

/-- The result of moving a query below a copy of its target. -/
structure Rebased where
  outer : QueryRef
  copy : TableRef
  mapping : List (FieldRef × FieldRef)
  keyCondition : Condition

namespace Store

/-- The table a data modification writes to: the given one, else the first source. -/
def dmlTarget? (s : Store) (q : QueryRef) (table : Option TableRef) : Option TableRef :=
  match table with
  | some t => some t
  | none => do (← (s.query q).sources.head?).table?

/-- Equality of fields with their counterparts. -/
def keyEqualities (mapping : List (FieldRef × FieldRef)) (keys : List FieldRef) : Condition :=
  keys.foldl
    (fun c key =>
      match paired mapping key with
      | some copied => c.conjoin (.equal (.field key) (.field copied))
      | none => c)
    .empty

/-- A new root query over a copy of the target, with `q` correlated to it on the target's
key, or on every field if the target has no key. -/
def rebase (s : Store) (q : QueryRef) (target : TableRef) : Rebased × Store :=
  let primary := s.primaryKeys target
  let keys := if primary.isEmpty then (s.table target).fields else primary
  let ((copy, mapping), s) := s.copyTable target
  let keyCondition := keyEqualities mapping keys
  let (outer, s) := s.addQuery none
  let s := s.modifyQuery outer fun query =>
    { query with sources := query.sources ++ [.ofTable copy] }
  let s := s.modifyQuery q fun query =>
    { query with
      parent := some outer
      columns := []
      whereClause := query.whereClause.conjoinAll keyCondition }
  let s := s.modifyQuery outer fun query =>
    { query with whereClause := query.whereClause.conjoin (.existsIn q) }
  (⟨outer, copy, mapping, keyCondition⟩, s)

/-- The error of a target that is no table. -/
def targetNotFound : SqlError :=
  .resolution "The target of a multi-table DML statement must be a table."

/-! ## Deletes -/

/-- `DELETE t FROM t JOIN ...` as `DELETE FROM t' WHERE EXISTS(SELECT * FROM t JOIN ... WHERE
t.key = t'.key)`. -/
def splitDelete (s : Store) (t : StatementRef) : Except SqlError Unit × Store :=
  let statement := s.statement t
  match statement.body with
  | .delete table top output =>
    if !(s.query statement.query).isMultiTable then (.ok (), s)
    else
      match s.dmlTarget? statement.query table with
      | none => (.error targetNotFound, s)
      | some target =>
        let (rebased, s) := s.rebase statement.query target
        let output := output.map (fieldRenaming rebased.mapping).output
        (.ok (), s.modifyStatement t fun statement =>
          { statement with
            query := rebased.outer
            body := .delete (some rebased.copy) top output })
  | _ => (.ok (), s)

/-! ## Updates -/

/-- Whether an expression reads anything besides the fields of the target. -/
def readsOther (s : Store) (target : TableRef) (e : Scalar) : Bool :=
  e.anyPart fun part =>
    match part with
    | .field f => (s.field f).table != target
    | .allFields t | .tableSource t => t != target
    | .column _ | .query _ => true
    | _ => false

/-- A subquery that computes a value over the sources of `q`. -/
def valueQuery (s : Store) (q : QueryRef) (rebased : Rebased) (e : Scalar) : QueryRef × Store :=
  let source := s.query q
  let whereClause :=
    if source.whereClause.isEmpty then rebased.keyCondition else source.whereClause
  let (sub, s) := s.addQuery (some rebased.outer)
  let s := s.modifyQuery sub fun query => { query with sources := source.sources, whereClause }
  let (_, s) := s.addFreshColumn sub e none
  (sub, s)

/-- The assignments of an update over the copy of its target.  A value that reads other tables
is computed by a subquery. -/
def rebaseItems (s : Store) (q : QueryRef) (target : TableRef) (rebased : Rebased) :
    List Assignment → List Assignment × Store
  | [] => ([], s)
  | item :: rest =>
    let toCopy := fieldRenaming rebased.mapping
    let (value, s) : Option Scalar × Store :=
      match item.value with
      | none => (none, s)
      | some e =>
        if s.readsOther target e then
          let (sub, s) := s.valueQuery q rebased e
          (some (.query sub), s)
        else (some (toCopy.scalar e), s)
    let (items, s) := s.rebaseItems q target rebased rest
    (⟨toCopy.scalar item.target, value⟩ :: items, s)

/-- `UPDATE t SET a = u.b FROM t JOIN u ...` as an update of a copy of `t` whose values and
filter are subqueries correlated on the key. -/
def splitUpdate (s : Store) (t : StatementRef) : Except SqlError Unit × Store :=
  let statement := s.statement t
  match statement.body with
  | .update update output =>
    if !(s.query statement.query).isMultiTable then (.ok (), s)
    else
      match s.dmlTarget? statement.query update.table with
      | none => (.error targetNotFound, s)
      | some target =>
        let (rebased, s) := s.rebase statement.query target
        let (items, s) := s.rebaseItems statement.query target rebased update.items
        let output := output.map (fieldRenaming rebased.mapping).output
        (.ok (), s.modifyStatement t fun statement =>
          { statement with
            query := rebased.outer
            body := .update { update with items, table := some rebased.copy } output })
  | _ => (.ok (), s)

mutual

/-- Only inner joins below a source. -/
def innerOnly : Source → Bool
  | ⟨_, _, joins⟩ => innerJoins joins
termination_by structural s => s

/-- An inner join with only inner joins below its source. -/
def innerJoin : Join → Bool
  | ⟨kind, source, _⟩ => kind == .inner && innerOnly source
termination_by structural j => j

/-- Only inner joins in a list. -/
def innerJoins : List Join → Bool
  | [] => true
  | j :: rest => innerJoin j && innerJoins rest
termination_by structural js => js

/-- The sources of a tree without their joins. -/
def flatSources : Source → List Source
  | ⟨item, aliasName, joins⟩ => ⟨item, aliasName, []⟩ :: flatJoined joins
termination_by structural s => s

/-- The sources of a join without their joins. -/
def flatJoin : Join → List Source
  | ⟨_, source, _⟩ => flatSources source
termination_by structural j => j

/-- The sources of a list of joins without their joins. -/
def flatJoined : List Join → List Source
  | [] => []
  | j :: rest => flatJoin j ++ flatJoined rest
termination_by structural js => js

/-- The join conditions of a tree, outer ones first. -/
def joinConditions : Source → List Condition
  | ⟨_, _, joins⟩ => conditionsOf joins
termination_by structural s => s

/-- The condition of a join and the ones below it. -/
def conditionsOfJoin : Join → List Condition
  | ⟨_, source, condition⟩ => condition :: joinConditions source
termination_by structural j => j

/-- The join conditions of a list of joins. -/
def conditionsOf : List Join → List Condition
  | [] => []
  | j :: rest => conditionsOfJoin j ++ conditionsOf rest
termination_by structural js => js

end

/-- For dialects with `UPDATE ... FROM`: inner joins become further sources, and their
conditions part of the filter.  With outer joins the update is split. -/
def flattenUpdate (s : Store) (t : StatementRef) : Except SqlError Unit × Store :=
  let statement := s.statement t
  match statement.body with
  | .update .. =>
    let sources := (s.query statement.query).sources
    if sources.all fun source => source.joins.isEmpty then (.ok (), s)
    else if !sources.all innerOnly then s.splitUpdate t
    else
      let joined := (sources.flatMap joinConditions).foldl Condition.conjoinAll .empty
      (.ok (), s.modifyQuery statement.query fun query =>
        { query with
          sources := sources.flatMap flatSources
          whereClause := joined.conjoinAll query.whereClause })
  | _ => (.ok (), s)

end Store

end SqlCompiler
