import SqlCompiler.Lowering.Basic

/-!
# Reading a query from outside

A clause that cannot be added to a query as it stands is added to a new query that reads the
first one as a subquery.

Main definitions:

- `columnFor`, `expose`: scalars and projections of a query as its columns.
- `wrap`, `wrapIf`: a query read by a new one.
- `materialize`: every leaf of a projection as a column.
-/

namespace SqlCompiler

namespace LowerM

/-- A column of a query that selects a scalar: the scalar itself if it is one, one that is there
already, or a new one. -/
def columnFor (q : QueryRef) (e : Scalar) (path : String) : LowerM ColumnRef := do
  let s ← store
  let add : LowerM ColumnRef := allocate fun s => s.addColumn q e (Projection.leafAlias path)
  match e with
  | .column c => if (s.column c).parent == q then return c else add
  | _ => add

/-- A projection as it is seen from outside of a query: its leaves become columns.  The elements
of a group cannot be read from outside. -/
def expose (q : QueryRef) (p : Projection) : LowerM Projection := do
  let p : Projection :=
    match p with
    | .grouping key _ => .grouping key (.record [])
    | other => other
  p.mapLeaves fun path e => return .column (← columnFor q e path)

/-- A new query that reads the query of a lowered term as a subquery. -/
def wrap (lowered : Lowered) : LowerM Lowered := do
  let inner := lowered.query
  let parent := ((← store).query inner).parent
  let outer ← allocate fun s => s.addQuery parent
  modifyQuery inner fun q => { q with parent := some outer }
  modifyQuery outer fun q => { q with sources := q.sources ++ [.ofQuery inner] }
  let projection ← expose inner lowered.projection
  return { query := outer, projection, outcome := lowered.outcome }

/-- Wrap a lowered term if its query meets a test. -/
def wrapIf (test : Query → Bool) (lowered : Lowered) : LowerM Lowered := do
  if test ((← store).query lowered.query) then wrap lowered else return lowered

/-- Refuse a group, which has no columns. -/
def refuseGrouping (p : Projection) : LowerM Unit :=
  if p.isGrouping then
    refuse p.describe "a grouping has to be projected before it can be selected"
  else return

/-- Select every leaf of a projection, each by a column of its own if `fresh`. -/
def materialize (q : QueryRef) (p : Projection) (fresh : Bool) : LowerM Unit := do
  refuseGrouping p
  for (path, e) in p.leaves do
    if fresh then
      let _ ← allocate fun s => s.addFreshColumn q e (Projection.leafAlias path)
    else
      let _ ← columnFor q e path

/-- Select nothing but one column. -/
def selectOnly (q : QueryRef) (c : ColumnRef) : LowerM Unit :=
  modifyQuery q fun query => { query with columns := query.columns.filter (· == c) }

end LowerM

/-! ## Tests for wrapping -/

namespace Query

/-- Whether the rows of a query are fixed by a limit, by `DISTINCT` or by set operators. -/
def hasFixedRows (q : Query) : Bool :=
  q.hasPagination || q.distinct || q.hasSetOperators

/-- Whether the columns of a query are fixed by `DISTINCT` or by set operators. -/
def hasFixedColumns (q : Query) : Bool :=
  q.distinct || q.hasSetOperators

/-- Whether a query ends in a row limit or in set operators. -/
def isLimited (q : Query) : Bool :=
  q.take.isSome || q.hasSetOperators

end Query

end SqlCompiler
