import SqlCompiler.Lowering.Subquery

/-!
# Closing a lowered term

A lowered term becomes a statement, and a description of how its result is read.

Main definitions:

- `ResultShape`: how a result is read.
- `Lowered.toStatement`.
-/

namespace SqlCompiler

/-- A member of a result row and the position of its column. -/
structure ResultColumn where
  /-- The path of the member; the empty path is the whole row. -/
  path : String
  index : Nat
  deriving DecidableEq, Repr, Inhabited

/-- How the result of a statement is read. -/
inductive ResultShape where
  | sequence (columns : List ResultColumn)
  /-- One row.  `single` says that a second one is a mistake, `orDefault` that none is not. -/
  | element (columns : List ResultColumn) (single orDefault : Bool)
  | scalar
  /-- The identity of an inserted row. -/
  | identity
  | affectedRows
  deriving DecidableEq, Repr, Inhabited

/-- Fail because a chain lacks its last link. -/
def unfinished {α : Type} (chain hint : String) : LowerM α :=
  LowerM.refuse chain ("the statement is incomplete, " ++ hint)

/-- Select every leaf of a projection, and say where each one stands. -/
def LowerM.selectProjection (q : QueryRef) (p : Projection) : LowerM (List ResultColumn) := do
  refuseGrouping p
  p.leaves.mapM fun (path, e) => do
    let column ← allocate fun s => s.addColumn q e (Projection.leafAlias path)
    let columns := ((← store).query q).columns
    return { path, index := (columns.findIdx? (· == column)).getD 0 }

/-- The statement of a merge. -/
def MergeDraft.close (d : MergeDraft) : LowerM StatementBody := do
  if d.source.isNone then unfinished "Merge" "call Using to give it a source"
  match d.on with
  | none => unfinished "Merge" "call On to match source and target rows"
  | some on =>
    if d.operations.isEmpty then unfinished "Merge" "add at least one operation"
    return .merge on d.operations none none

/-- The shape of the result of a data modification. -/
def StatementBody.shape : StatementBody → ResultShape
  | .insert clause _ => if clause.withIdentity then .identity else .affectedRows
  | _ => .affectedRows

namespace Lowered

variable (lowered : Lowered)

/-- What the statement of a lowered term does, and how its result is read. -/
def close : LowerM (StatementBody × ResultShape) := do
  let columns := LowerM.selectProjection lowered.query lowered.projection
  match lowered.outcome with
  | .sequence => return (.select, .sequence (← columns))
  | .element single orDefault => return (.select, .element (← columns) single orDefault)
  | .scalar =>
    let _ ← columns
    return (.select, .scalar)
  | .statement body => return (body, body.shape)
  | .merge d => return (← d.close, .affectedRows)
  | .insertValues .. => unfinished "Value" "call Insert or InsertWithIdentity to run it"
  | .assignments _ => unfinished "Set" "call Update to run it"
  | .multiInsert _ => unfinished "MultiInsert" "call InsertAll or InsertFirst to run it"

/-- The statement of a lowered term with the annotations collected so far, and how its result is
read. -/
def toStatement : LowerM (Statement × ResultShape) := do
  let (body, shape) ← lowered.close
  let state ← get
  let tag := if state.tags.isEmpty then none else some ("\n".intercalate state.tags)
  return ({ body, query := lowered.query, tag, hints := state.hints }, shape)

end Lowered

end SqlCompiler
