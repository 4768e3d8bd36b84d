import SqlCompiler.Sql.Expression
import SqlCompiler.Sql.Query
import SqlCompiler.Sql.Table

/-!
# Statements

Main definitions:

- `Assignment`, `InsertClause`, `UpdateClause`, `OutputClause`, `MergeOperation`,
  `ConditionalInsert`: the clauses of data modifications.
- `StatementBody` and `Statement`: what a statement does, and its query, common table
  expressions, tag and hints.
- `Cte`: a common table expression.
-/

namespace SqlCompiler

/-- `target = value`; without a value the target's default. -/
structure Assignment where
  target : Scalar
  value : Option Scalar
  deriving Inhabited

/-- The target table and the assigned columns of an insert. -/
structure InsertClause where
  into : Option TableRef := none
  items : List Assignment := []
  withIdentity : Bool := false
  deriving Inhabited

/-- The target table and the assigned columns of an update; an upsert matches on `keys`. -/
structure UpdateClause where
  table : Option TableRef := none
  keys : List Assignment := []
  items : List Assignment := []
  deriving Inhabited

/-- The values a data modification hands back. -/
structure OutputClause where
  inserted : Option TableRef := none
  deleted : Option TableRef := none
  /-- Values under the names of their targets. -/
  items : List Assignment := []
  /-- Values without names. -/
  columns : List Scalar := []
  into : Option TableRef := none
  deriving Inhabited

/-- No values. -/
def OutputClause.isEmpty (o : OutputClause) : Bool :=
  o.items.isEmpty && o.columns.isEmpty

/-- What a branch of a merge does. -/
inductive MergeAction where
  | insert | update | updateWithDelete | delete | updateBySource | deleteBySource
  deriving DecidableEq, Repr, Inhabited

/-- A branch of a merge. -/
structure MergeOperation where
  action : MergeAction
  whereClause : Option Condition := none
  whereDelete : Option Condition := none
  items : List Assignment := []
  deriving Inhabited

/-- Which branches of a multi-table insert take a row. -/
inductive MultiInsertMode where
  | unconditional | all | first
  deriving DecidableEq, Repr, Inhabited

/-- A branch of a multi-table insert. -/
structure ConditionalInsert where
  condition : Option Condition
  insert : InsertClause
  deriving Inhabited

/-- What a statement does, apart from its query. -/
inductive StatementBody where
  | select
  | insert (insert : InsertClause) (output : Option OutputClause)
  /-- The target is `update.table`; the query's sources hold it with the joined ones. -/
  | update (update : UpdateClause) (output : Option OutputClause)
  /-- Deletes the rows of `table`, or of the first source, that match the query. -/
  | delete (table : Option TableRef) (top : Option Scalar) (output : Option OutputClause)
  | upsert (insert : InsertClause) (update : UpdateClause)
  /-- The query's sources are the target and the source. -/
  | merge (on : Condition) (operations : List MergeOperation) (output : Option OutputClause)
      (hint : Option String)
  | createTable (table : TableRef) (header footer : Option String)
  | dropTable (table : TableRef) (ifExists : Bool)
  | truncateTable (table : TableRef) (resetIdentity : Bool)
  /-- Inserts the rows of the query into several tables. -/
  | multiInsert (mode : MultiInsertMode) (inserts : List ConditionalInsert)
  deriving Inhabited

/-- A statement. -/
structure Statement where
  body : StatementBody
  query : QueryRef
  parent : Option StatementRef := none
  ctes : List CteRef := []
  tag : Option String := none
  hints : List String := []
  deriving Inhabited

/-- A common table expression; its table has one field per column of the body. -/
structure Cte where
  name : String
  body : QueryRef
  fields : List FieldRef
  deriving Inhabited

namespace StatementBody

/-- The output clause of a data modification. -/
def output? : StatementBody → Option OutputClause
  | insert _ output | update _ output | delete _ _ output | merge _ _ output _ => output
  | _ => none

/-- The insert clause of an insert or an upsert. -/
def insert? : StatementBody → Option InsertClause
  | insert i _ | upsert i _ => some i
  | _ => none

/-- The update clause of an update or an upsert. -/
def update? : StatementBody → Option UpdateClause
  | update u _ | upsert _ u => some u
  | _ => none

end StatementBody

end SqlCompiler
