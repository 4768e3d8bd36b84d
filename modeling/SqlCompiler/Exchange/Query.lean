import SqlCompiler.Exchange.Expression
import SqlCompiler.Store.Basic

/-!
# Queries as JSON

Main definitions:

- `readSource`, `writeSource`: a source with the sources joined to it.
- `replaceClause`: a query with one clause read anew.
- `describeQuery`: a query of a store with all its clauses.
-/

namespace SqlCompiler.Exchange

/-! ## Names -/

/-- Joins by their names. -/
def joinKinds : List (String × JoinKind) :=
  [("Inner", .inner), ("Left", .left), ("Right", .right), ("Full", .full),
    ("CrossApply", .crossApply), ("OuterApply", .outerApply)]

/-- Groupings by their names. -/
def groupingKinds : List (String × GroupingKind) :=
  [("Default", .plain), ("GroupingSets", .groupingSets), ("Rollup", .rollup), ("Cube", .cube)]

/-- Set operations by their names. -/
def setOperations : List (String × SetOperation) :=
  [("Union", .union), ("UnionAll", .unionAll), ("Except", .except), ("ExceptAll", .exceptAll),
    ("Intersect", .intersect), ("IntersectAll", .intersectAll)]

/-! ## Sources -/

/-- A table or a query. -/
def readSourceItem (j : Json) : Decode SourceItem := do
  match j.field "table" with
  | .null => return .query (← readQuery (j.field "query"))
  | t => return .table (← readTable t)

/-- A source nested at most `fuel` deep. -/
def readSourceWithin : Nat → Json → Decode Source
  | 0, _ => .error "source expected"
  | fuel + 1, j => do
    let readJoin (j : Json) : Decode Join :=
      return ⟨← readTag joinKinds (j.item 0), ← readSourceWithin fuel (j.item 1),
        ← readCondition (j.item 2)⟩
    return ⟨← readSourceItem j, ← optional readText (j.field "alias"),
      ← readList readJoin (j.field "joins")⟩

/-- A source. -/
def readSource (j : Json) : Decode Source := readSourceWithin j.depth j

/-- The member that says what a source reads. -/
def writeSourceItem : SourceItem → String × Json
  | .table t => ("table", writeTable t)
  | .query q => ("query", writeQuery q)

mutual

/-- A source. -/
def writeSource : Source → Json
  | ⟨item, aliasName, joins⟩ =>
    .object [writeSourceItem item, ("alias", Json.orNull .text aliasName),
      ("joins", .list (writeJoins joins))]
termination_by structural s => s

/-- A join. -/
def writeJoin : Join → Json
  | ⟨kind, source, condition⟩ =>
    .list [writeTag joinKinds kind, writeSource source, writeCondition condition]
termination_by structural j => j

/-- A list of joins. -/
def writeJoins : List Join → List Json
  | [] => []
  | j :: rest => writeJoin j :: writeJoins rest
termination_by structural js => js

end

/-! ## Clauses -/

/-- Modifiers of a row limit. -/
def readTakeHints (j : Json) : Decode TakeHints :=
  return ⟨← readFlag (j.item 0), ← readFlag (j.item 1)⟩

/-- Modifiers of a row limit. -/
def writeTakeHints (h : TakeHints) : Json := .list [.bool h.percent, .bool h.withTies]

/-- An item of an ordering. -/
def readOrderItem (j : Json) : Decode OrderItem :=
  return ⟨← readScalar (j.item 0), ← readFlag (j.item 1)⟩

/-- An item of an ordering. -/
def writeOrderItem (o : OrderItem) : Json := .list [writeScalar o.expression, .bool o.descending]

/-- A set operator. -/
def readSetOperator (j : Json) : Decode SetOperator :=
  return ⟨← readTag setOperations (j.item 0), ← readQuery (j.item 1)⟩

/-- A set operator. -/
def writeSetOperator (o : SetOperator) : Json :=
  .list [writeTag setOperations o.operation, writeQuery o.query]

/-- A grouping, empty unless given. -/
def readGrouping (j : Json) : Decode Grouping := do
  if j.isNull then return {}
  return {
    kind := ← readTag groupingKinds (j.item 0)
    items := ← readList readScalar (j.item 1) }

/-- A grouping. -/
def writeGrouping (g : Grouping) : Json :=
  .list [writeTag groupingKinds g.kind, .list (writeScalars g.items)]

/-- The query with one of its clauses read anew. -/
def replaceClause (q : Query) (clause : String) (j : Json) : Decode Query := do
  match clause with
  | "columns" => return { q with columns := ← readList readColumn j }
  | "distinct" => return { q with distinct := ← readFlag j }
  | "take" => return { q with take := ← optional readScalar j }
  | "hints" => return { q with takeHints := ← optional readTakeHints j }
  | "skip" => return { q with skip := ← optional readScalar j }
  | "from" => return { q with sources := ← readList readSource j }
  | "where" => return { q with whereClause := ← readCondition j }
  | "group" => return { q with grouping := ← readGrouping j }
  | "having" => return { q with having := ← readCondition j }
  | "order" => return { q with orderBy := ← readList readOrderItem j }
  | "set_ops" => return { q with setOperators := ← readList readSetOperator j }
  | "name" => return { q with name := ← optional readText j }
  | "parent" => return { q with parent := ← optional readQuery j }
  | other => .error ("unknown clause " ++ other)

/-- The query with the clauses of an object read anew. -/
def replaceClauses (q : Query) (j : Json) : Decode Query :=
  match j with
  | .object members => members.foldlM (fun q (clause, part) => replaceClause q clause part) q
  | _ => .error "clauses expected"

/-! ## Queries -/

/-- A column of a store with its query. -/
def describeColumn (s : Store) (ref : ColumnRef) : Json :=
  let c := s.column ref
  .list [writeColumn ref, writeQuery c.parent, writeScalar c.expression,
    Json.orNull .text c.aliasName]

/-- A query of a store. -/
def describeQuery (s : Store) (ref : QueryRef) : Json :=
  let q := s.query ref
  .object [
    ("id", writeQuery ref), ("parent", Json.orNull writeQuery q.parent),
    ("columns", Json.listOf (describeColumn s) q.columns), ("distinct", .bool q.distinct),
    ("take", Json.orNull writeScalar q.take), ("skip", Json.orNull writeScalar q.skip),
    ("hints", Json.orNull writeTakeHints q.takeHints),
    ("from", Json.listOf writeSource q.sources), ("where", writeCondition q.whereClause),
    ("group", writeGrouping q.grouping), ("having", writeCondition q.having),
    ("order", Json.listOf writeOrderItem q.orderBy),
    ("set_ops", Json.listOf writeSetOperator q.setOperators), ("name", Json.orNull .text q.name),
    ("simple", .bool q.isSimple)]

end SqlCompiler.Exchange
