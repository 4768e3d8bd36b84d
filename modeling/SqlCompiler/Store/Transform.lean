import SqlCompiler.Error
import SqlCompiler.Sql.Traversal
import SqlCompiler.Store.Reach

/-!
# Transforming statements in place

A transformer that may look at the store is applied to every expression a query or a statement
owns.

Main definitions:

- `Transformer.assignments`, `Transformer.output`, `Transformer.source`, `Transformer.query`,
  `Transformer.body`: the application of a transformer to the clauses of a statement.
- `Store.transformQuery`, `Store.transformStatement`: the transformation of a query in place, and of
  every query reached from a statement and then the statement itself.
-/

namespace SqlCompiler

/-! ## Clauses -/

namespace Transformer

/-- Transform the assigned values; the targets stay. -/
def assignments (w : Transformer) (items : List Assignment) : List Assignment :=
  items.map fun item => { item with value := item.value.map w.scalar }

/-- Transform the values of an output clause. -/
def output (w : Transformer) (o : OutputClause) : OutputClause :=
  { o with items := w.assignments o.items, columns := w.scalars o.columns }

mutual

/-- Transform the join conditions of a source. -/
def source (w : Transformer) : Source → Source
  | ⟨item, aliasName, joins⟩ => ⟨item, aliasName, w.joins joins⟩
termination_by structural s => s

/-- Transform the condition of a join and the joins of its source. -/
def join (w : Transformer) : Join → Join
  | ⟨kind, source, condition⟩ => ⟨kind, w.source source, w.condition condition⟩
termination_by structural j => j

/-- Transform a list of joins. -/
def joins (w : Transformer) : List Join → List Join
  | [] => []
  | j :: rest => w.join j :: w.joins rest
termination_by structural js => js

end

/-- Transform the clauses of a query other than its columns. -/
def query (w : Transformer) (q : Query) : Query :=
  { q with
    take := q.take.map w.scalar
    skip := q.skip.map w.scalar
    sources := q.sources.map w.source
    whereClause := w.condition q.whereClause
    grouping := { q.grouping with items := w.scalars q.grouping.items }
    having := w.condition q.having
    orderBy := q.orderBy.map fun item => { item with expression := w.scalar item.expression } }

/-- Transform the assigned values of an insert. -/
def insert (w : Transformer) (clause : InsertClause) : InsertClause :=
  { clause with items := w.assignments clause.items }

/-- Transform the keys and the assigned values of an update. -/
def update (w : Transformer) (clause : UpdateClause) : UpdateClause :=
  { clause with keys := w.assignments clause.keys, items := w.assignments clause.items }

/-- Transform a branch of a merge. -/
def operation (w : Transformer) (o : MergeOperation) : MergeOperation :=
  { o with
    whereClause := o.whereClause.map w.condition
    whereDelete := o.whereDelete.map w.condition
    items := w.assignments o.items }

/-- Transform a branch of a multi-table insert. -/
def conditionalInsert (w : Transformer) (branch : ConditionalInsert) : ConditionalInsert :=
  { condition := branch.condition.map w.condition, insert := w.insert branch.insert }

/-- Transform the clauses of a statement outside its query. -/
def body (w : Transformer) : StatementBody → StatementBody
  | .insert i o => .insert (w.insert i) (o.map w.output)
  | .update u o => .update (w.update u) (o.map w.output)
  | .delete table top o => .delete table (top.map w.scalar) (o.map w.output)
  | .upsert i u => .upsert (w.insert i) (w.update u)
  | .merge on operations o hint =>
    .merge (w.condition on) (operations.map w.operation) (o.map w.output) hint
  | .multiInsert mode inserts => .multiInsert mode (inserts.map w.conditionalInsert)
  | other => other

end Transformer

/-! ## Statements -/

namespace Store

/-- Transform the expression of a column. -/
def transformColumn (transformer : Store → Transformer) (s : Store) (c : ColumnRef) : Store :=
  let expression := (transformer s).scalar (s.column c).expression
  s.modifyColumn c fun column => { column with expression }

/-- Transform what a query owns, its columns first. -/
def transformQuery (transformer : Store → Transformer) (s : Store) (q : QueryRef) : Store :=
  let s := (s.query q).columns.foldl (transformColumn transformer) s
  s.modifyQuery q (transformer s).query

/-- Transform every query reached from a statement, then the statement's own clauses. -/
def transformStatement (transformer : Store → Transformer) (s : Store) (t : StatementRef) : Store :=
  let s := (s.statementQueries t).foldl (transformQuery transformer) s
  s.modifyStatement t fun statement =>
    { statement with body := (transformer s).body statement.body }

end Store

end SqlCompiler
