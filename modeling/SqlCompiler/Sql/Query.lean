import SqlCompiler.Sql.Expression

/-!
# Query blocks

A query block selects columns from a list of sources, each of which may carry joined sources.

Main definitions:

- `Source` and `Join`: the trees of a `FROM` clause, and `Source.all`, their nodes.
- `Grouping`, `OrderItem`, `SetOperator`, `TakeHints`: the other clauses.
- `Query`: a query block, with `Query.isSimple` and `Query.allSources`.
- `OutputColumn`: a selected column.
-/

namespace SqlCompiler

/-- A selected expression of a query block. -/
structure OutputColumn where
  parent : QueryRef
  expression : Scalar
  aliasName : Option String
  deriving Inhabited

/-- How rows of two sources are combined. -/
inductive JoinKind where
  | inner | left | right | full | crossApply | outerApply
  deriving DecidableEq, Repr, Inhabited

/-- The keywords of a join. -/
def JoinKind.keyword : JoinKind → String
  | inner => "INNER JOIN"
  | left => "LEFT JOIN"
  | right => "RIGHT JOIN"
  | full => "FULL JOIN"
  | crossApply => "CROSS APPLY"
  | outerApply => "OUTER APPLY"

/-- What a source reads. -/
inductive SourceItem where
  | table (table : TableRef)
  | query (query : QueryRef)
  deriving DecidableEq, Repr, Inhabited

mutual

/-- A table or subquery with the sources joined to it. -/
structure Source where
  item : SourceItem
  aliasName : Option String
  joins : List Join

/-- A source joined on a condition. -/
structure Join where
  kind : JoinKind
  source : Source
  condition : Condition

end

namespace Source

/-- A table without alias and joins. -/
def ofTable (table : TableRef) : Source := ⟨.table table, none, []⟩

/-- A subquery without alias and joins. -/
def ofQuery (query : QueryRef) : Source := ⟨.query query, none, []⟩

/-- The subquery a source reads, if it reads one. -/
def query? (s : Source) : Option QueryRef :=
  match s.item with
  | .query q => some q
  | .table _ => none

/-- The table a source reads, if it reads one. -/
def table? (s : Source) : Option TableRef :=
  match s.item with
  | .table t => some t
  | .query _ => none

mutual

/-- This source and every joined source, depth first. -/
def all : Source → List Source
  | ⟨item, aliasName, joins⟩ => ⟨item, aliasName, joins⟩ :: joined joins
termination_by structural s => s

/-- The sources of a join. -/
def ofJoin : Join → List Source
  | ⟨_, source, _⟩ => source.all
termination_by structural j => j

/-- The sources of a list of joins. -/
def joined : List Join → List Source
  | [] => []
  | j :: rest => ofJoin j ++ joined rest
termination_by structural js => js

end

end Source

instance : Inhabited Source := ⟨.ofTable ⟨0⟩⟩

/-- Modifiers of a row limit. -/
structure TakeHints where
  percent : Bool
  withTies : Bool
  deriving DecidableEq, Repr, Inhabited

/-- How the items of a `GROUP BY` are combined. -/
inductive GroupingKind where
  | plain | groupingSets | rollup | cube
  deriving DecidableEq, Repr, Inhabited

/-- A `GROUP BY` clause.  Every item of a list of grouping sets is a row. -/
structure Grouping where
  kind : GroupingKind := .plain
  items : List Scalar := []
  deriving Inhabited

/-- One item of an `ORDER BY` clause. -/
structure OrderItem where
  expression : Scalar
  descending : Bool
  deriving Inhabited

/-- Set operators between query blocks. -/
inductive SetOperation where
  | union | unionAll | except | exceptAll | intersect | intersectAll
  deriving DecidableEq, Repr, Inhabited

/-- The keywords of a set operator. -/
def SetOperation.keyword : SetOperation → String
  | union => "UNION"
  | unionAll => "UNION ALL"
  | except => "EXCEPT"
  | exceptAll => "EXCEPT ALL"
  | intersect => "INTERSECT"
  | intersectAll => "INTERSECT ALL"

/-- A set operator with its right-hand query. -/
structure SetOperator where
  operation : SetOperation
  query : QueryRef
  deriving DecidableEq, Repr, Inhabited

/-- A query block. -/
structure Query where
  columns : List ColumnRef := []
  distinct : Bool := false
  take : Option Scalar := none
  takeHints : Option TakeHints := none
  skip : Option Scalar := none
  sources : List Source := []
  whereClause : Condition := .empty
  grouping : Grouping := {}
  having : Condition := .empty
  orderBy : List OrderItem := []
  setOperators : List SetOperator := []
  name : Option String := none
  parent : Option QueryRef := none
  deriving Inhabited

namespace Query

/-- A row limit or a row offset. -/
def hasPagination (q : Query) : Bool :=
  q.take.isSome || q.skip.isSome

/-- Set operators follow the query. -/
def hasSetOperators (q : Query) : Bool :=
  !q.setOperators.isEmpty

/-- A grouping clause. -/
def isGrouped (q : Query) : Bool :=
  !q.grouping.items.isEmpty

/-- No clause besides the selected columns and the sources. -/
def isSimple (q : Query) : Bool :=
  q.whereClause.isEmpty && !q.isGrouped && q.having.isEmpty && q.orderBy.isEmpty &&
    !q.distinct && !q.hasPagination && !q.hasSetOperators

/-- Every source of the `FROM` clause, joined ones included. -/
def allSources (q : Query) : List Source :=
  q.sources.flatMap Source.all

/-- More than one table or subquery is read. -/
def isMultiTable (q : Query) : Bool :=
  q.sources.length > 1 || q.sources.any fun s => !s.joins.isEmpty

end Query

end SqlCompiler
