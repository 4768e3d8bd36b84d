import SqlCompiler.Sql.Traversal
import SqlCompiler.Store.Basic

/-!
# Reachable queries and used columns

Which scalars a query or a statement owns, and which queries are reached from a statement.

Main definitions:

- `Store.walkQuery`: the scalars of a query block; subqueries are listed but not entered.
- `StatementBody.walk`: the scalars of a statement outside its query.
- `Store.statementQueries`: every query reached from a statement, its root first, each once.
- `Store.isRecursiveCte`: whether a common table expression reads itself.
- `Store.usedColumns`: the columns read somewhere in a statement.
- `Store.pruneColumns`: the statement without the columns of subqueries that nothing reads.
-/

namespace SqlCompiler

/-! ## Scalars of a query -/

/-- The scalars of a source: its subquery, then the conditions of its own joins. -/
def Source.walk (source : Source) : List Scalar :=
  (source.query?.map Scalar.query).toList ++
    source.joins.flatMap fun join => join.condition.walk

/-- The scalars a query owns, with each subquery as one scalar. -/
def Store.walkQuery (s : Store) (q : QueryRef) : List Scalar :=
  let query := s.query q
  query.columns.flatMap (fun c => (s.column c).expression.walk) ++
    (query.take.map Scalar.walk).getD [] ++
    (query.skip.map Scalar.walk).getD [] ++
    query.allSources.flatMap Source.walk ++
    query.whereClause.walk ++
    walkScalars query.grouping.items ++
    query.having.walk ++
    query.orderBy.flatMap (fun item => item.expression.walk) ++
    query.setOperators.map (fun operator => .query operator.query)

/-! ## Scalars of a statement -/

/-- The scalars assigned by a list of assignments. -/
def walkAssignments (items : List Assignment) : List Scalar :=
  items.flatMap fun item => (item.value.map Scalar.walk).getD []

/-- The scalars of an output clause. -/
def OutputClause.walk (output : Option OutputClause) : List Scalar :=
  match output with
  | none => []
  | some o => walkAssignments o.items ++ walkScalars o.columns

/-- The scalars of a branch of a merge. -/
def MergeOperation.walk (operation : MergeOperation) : List Scalar :=
  (operation.whereClause.map Condition.walk).getD [] ++
    (operation.whereDelete.map Condition.walk).getD [] ++
    walkAssignments operation.items

/-- The scalars of a branch of a multi-table insert. -/
def ConditionalInsert.walk (branch : ConditionalInsert) : List Scalar :=
  (branch.condition.map Condition.walk).getD [] ++ walkAssignments branch.insert.items

/-- The scalars a statement owns outside its query. -/
def StatementBody.walk : StatementBody → List Scalar
  | .insert i output => walkAssignments i.items ++ OutputClause.walk output
  | .update u output =>
    walkAssignments u.keys ++ walkAssignments u.items ++ OutputClause.walk output
  | .delete _ top output => (top.map Scalar.walk).getD [] ++ OutputClause.walk output
  | .upsert i u =>
    walkAssignments i.items ++ walkAssignments u.keys ++ walkAssignments u.items
  | .merge on operations output _ =>
    on.walk ++ operations.flatMap MergeOperation.walk ++ OutputClause.walk output
  | .multiInsert _ inserts => inserts.flatMap ConditionalInsert.walk
  | .select | .createTable .. | .dropTable .. | .truncateTable .. => []

/-! ## Queries of a statement -/

namespace Store

/-- The body of the common table expression a source reads, if it reads one. -/
def cteBody? (s : Store) (source : Source) : Option QueryRef := do
  let table ← source.table?
  match (s.table table).kind with
  | .cte c => some (s.cte c).body
  | _ => none

/-- The queries a query leads to: the ones in its scalars, then the bodies of the common
table expressions it reads. -/
def successors (s : Store) (q : QueryRef) : List QueryRef :=
  queriesOf (s.walkQuery q) ++ (s.query q).allSources.filterMap s.cteBody?

/-- Breadth first search: the queries seen so far, and those still to be looked at.  Each
step with fuel meets a new query or drops a known one. -/
def reachFrom (s : Store) : Nat → List QueryRef → List QueryRef → List QueryRef
  | 0, seen, _ => seen
  | _, seen, [] => seen
  | fuel + 1, seen, q :: pending =>
    if seen.contains q then s.reachFrom fuel seen pending
    else s.reachFrom fuel (seen ++ [q]) (pending ++ s.successors q)

/-- The number of references to queries in the whole store. -/
def queryReferences (s : Store) : Nat :=
  (List.range s.queries.size).foldl (fun total i => total + (s.successors ⟨i⟩).length) 0

/-- The queries a statement leads to directly. -/
def rootQueries (s : Store) (statement : Statement) : List QueryRef :=
  statement.query :: statement.ctes.map (fun c => (s.cte c).body) ++
    queriesOf statement.body.walk

/-- Every query reached from a statement, the root query first, each once. -/
def statementQueries (s : Store) (statement : StatementRef) : List QueryRef :=
  let roots := s.rootQueries (s.statement statement)
  s.reachFrom (roots.length + s.queryReferences + 1) [] roots

/-- Whether a query reads a table of the common table expression. -/
def readsCte (s : Store) (cte : CteRef) (q : QueryRef) : Bool :=
  (s.query q).allSources.any fun source =>
    match source.table? with
    | none => false
    | some t =>
      match (s.table t).kind with
      | .cte c => c == cte
      | _ => false

/-- Depth first search for a query that reads the common table expression. -/
def readsCteWithin (s : Store) (cte : CteRef) : Nat → List QueryRef → List QueryRef → Bool
  | 0, _, _ => false
  | _, _, [] => false
  | fuel + 1, seen, q :: pending =>
    if seen.contains q then s.readsCteWithin cte fuel seen pending
    else s.readsCte cte q ||
      s.readsCteWithin cte fuel (q :: seen) ((queriesOf (s.walkQuery q)).reverse ++ pending)

/-- Whether the body of a common table expression reads it, directly or in a nested query. -/
def isRecursiveCte (s : Store) (cte : CteRef) : Bool :=
  s.readsCteWithin cte (s.queryReferences + 2) [] [(s.cte cte).body]

end Store

/-! ## Unused columns -/

namespace Store

/-- The columns read by some queries and by a statement outside of them. -/
def usedColumns (s : Store) (t : StatementRef) (queries : List QueryRef) : List ColumnRef :=
  queries.flatMap (fun q => columnsOf (s.walkQuery q)) ++ columnsOf (s.statement t).body.walk

/-- The columns of a query that stay when only some are used: those that are used, or the first
one.  `DISTINCT` and set operators need all columns. -/
def keptColumns (s : Store) (used : List ColumnRef) (q : QueryRef) : List ColumnRef :=
  let query := s.query q
  if query.distinct || query.hasSetOperators then query.columns
  else
    let kept := query.columns.filter used.contains
    if kept.isEmpty then query.columns.take 1 else kept

/-- Drop the columns of a query that do not stay. -/
def pruneQuery (used : List ColumnRef) (s : Store) (q : QueryRef) : Store :=
  let kept := s.keptColumns used q
  if kept.length < (s.query q).columns.length then
    s.modifyQuery q fun query => { query with columns := kept }
  else s

/-- Drop the columns of every subquery that nothing reads. -/
def pruneOnce (s : Store) (t : StatementRef) : Store :=
  let queries := s.statementQueries t
  let used := s.usedColumns t queries
  let subqueries := queries.flatMap fun q => (s.query q).allSources.filterMap Source.query?
  subqueries.foldl (pruneQuery used) s

/-- The number of columns selected by all queries. -/
def selectedCount (s : Store) : Nat :=
  s.queries.foldl (fun total q => total + q.columns.length) 0

/-- Drop unused columns until none is left, at most `fuel` times. -/
def pruneWithin : Nat → Store → StatementRef → Store
  | 0, s, _ => s
  | fuel + 1, s, t =>
    let pruned := s.pruneOnce t
    if pruned.selectedCount < s.selectedCount then pruneWithin fuel pruned t else pruned

/-- Drop the columns of subqueries that nothing reads.  A dropped column may have been the only
one to read another one, so this goes on until nothing changes; every turn drops a column. -/
def pruneColumns (s : Store) (t : StatementRef) : Store := pruneWithin (s.selectedCount + 1) s t

end Store

end SqlCompiler
