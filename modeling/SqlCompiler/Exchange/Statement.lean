import SqlCompiler.Exchange.Query
import SqlCompiler.Render.Statement

/-!
# Statements as JSON

A statement is an object whose `kind` says which other members it has.

Main definitions:

- `readStatement`, `describeStatement`.
- `writeBody`: what a statement does, without its query.
- `describeRendered`: the commands of a statement.
-/

namespace SqlCompiler.Exchange

/-! ## Clauses -/

/-- Branches of a merge by their names. -/
def mergeActions : List (String × MergeAction) :=
  [("Insert", .insert), ("Update", .update), ("UpdateWithDelete", .updateWithDelete),
    ("Delete", .delete), ("UpdateBySource", .updateBySource), ("DeleteBySource", .deleteBySource)]

/-- Modes of a multi-table insert by their names. -/
def multiInsertModes : List (String × MultiInsertMode) :=
  [("Unconditional", .unconditional), ("All", .all), ("First", .first)]

/-- An assignment. -/
def readAssignment (j : Json) : Decode Assignment :=
  return ⟨← readScalar (j.item 0), ← optional readScalar (j.item 1)⟩

/-- A list of assignments. -/
def readAssignments (j : Json) : Decode (List Assignment) := readList readAssignment j

/-- An assignment. -/
def writeAssignment (a : Assignment) : Json :=
  .list [writeScalar a.target, Json.orNull writeScalar a.value]

/-- A list of assignments. -/
def writeAssignments (items : List Assignment) : Json := Json.listOf writeAssignment items

/-- An insert clause. -/
def readInsert (j : Json) : Decode InsertClause :=
  return {
    into := ← optional readTable (j.field "into")
    items := ← readAssignments (j.field "items")
    withIdentity := ← readFlag (j.field "identity") }

/-- An insert clause. -/
def writeInsert (i : InsertClause) : Json :=
  .object [("into", Json.orNull writeTable i.into), ("items", writeAssignments i.items),
    ("identity", .bool i.withIdentity)]

/-- An update clause. -/
def readUpdate (j : Json) : Decode UpdateClause :=
  return {
    table := ← optional readTable (j.field "table")
    keys := ← readAssignments (j.field "keys")
    items := ← readAssignments (j.field "items") }

/-- An update clause. -/
def writeUpdate (u : UpdateClause) : Json :=
  .object [("table", Json.orNull writeTable u.table), ("keys", writeAssignments u.keys),
    ("items", writeAssignments u.items)]

/-- An output clause. -/
def readOutput (j : Json) : Decode OutputClause :=
  return {
    inserted := ← optional readTable (j.field "inserted")
    deleted := ← optional readTable (j.field "deleted")
    items := ← readAssignments (j.field "items")
    columns := ← readList readScalar (j.field "columns")
    into := ← optional readTable (j.field "into") }

/-- An output clause. -/
def writeOutput (o : OutputClause) : Json :=
  .object [
    ("inserted", Json.orNull writeTable o.inserted), ("deleted", Json.orNull writeTable o.deleted),
    ("items", writeAssignments o.items), ("columns", .list (writeScalars o.columns)),
    ("into", Json.orNull writeTable o.into)]

/-- A branch of a merge. -/
def readMergeOperation (j : Json) : Decode MergeOperation :=
  return {
    action := ← readTag mergeActions (j.field "type")
    whereClause := ← optional readCondition (j.field "where")
    whereDelete := ← optional readCondition (j.field "where_delete")
    items := ← readAssignments (j.field "items") }

/-- A branch of a merge. -/
def writeMergeOperation (o : MergeOperation) : Json :=
  .object [
    ("type", writeTag mergeActions o.action), ("where", Json.orNull writeCondition o.whereClause),
    ("where_delete", Json.orNull writeCondition o.whereDelete),
    ("items", writeAssignments o.items)]

/-- A branch of a multi-table insert. -/
def readConditionalInsert (j : Json) : Decode ConditionalInsert :=
  return ⟨← optional readCondition (j.field "when"), ← readInsert (j.field "insert")⟩

/-- A branch of a multi-table insert. -/
def writeConditionalInsert (c : ConditionalInsert) : Json :=
  .object [("when", Json.orNull writeCondition c.condition), ("insert", writeInsert c.insert)]

/-! ## Statements -/

/-- What a statement does. -/
def readBody (j : Json) : Decode StatementBody := do
  let part (key : String) : Json := j.field key
  let output := optional readOutput (part "output")
  match ← readText (part "kind") with
  | "select" => return .select
  | "insert" => return .insert (← readInsert (part "insert")) (← output)
  | "update" => return .update (← readUpdate (part "update")) (← output)
  | "delete" =>
    return .delete (← optional readTable (part "table")) (← optional readScalar (part "top"))
      (← output)
  | "upsert" => return .upsert (← readInsert (part "insert")) (← readUpdate (part "update"))
  | "merge" =>
    return .merge (← readCondition (part "on")) (← readList readMergeOperation (part "operations"))
      (← output) (← optional readText (part "hint"))
  | "create" =>
    return .createTable (← readTable (part "table")) (← optional readText (part "header"))
      (← optional readText (part "footer"))
  | "drop" => return .dropTable (← readTable (part "table")) (← readFlag (part "if_exists"))
  | "truncate" => return .truncateTable (← readTable (part "table")) (← readFlag (part "reset"))
  | "multi" =>
    return .multiInsert (← readTag multiInsertModes (part "mode"))
      (← readList readConditionalInsert (part "inserts"))
  | other => .error ("unknown statement " ++ other)

/-- The members that say what a statement does. -/
def writeBody : StatementBody → List (String × Json)
  | .select => [("kind", .text "select")]
  | .insert i o =>
    [("kind", .text "insert"), ("insert", writeInsert i), ("output", Json.orNull writeOutput o)]
  | .update u o =>
    [("kind", .text "update"), ("update", writeUpdate u), ("output", Json.orNull writeOutput o)]
  | .delete t top o =>
    [("kind", .text "delete"), ("table", Json.orNull writeTable t),
      ("top", Json.orNull writeScalar top), ("output", Json.orNull writeOutput o)]
  | .upsert i u =>
    [("kind", .text "upsert"), ("insert", writeInsert i), ("update", writeUpdate u)]
  | .merge on operations o hint =>
    [("kind", .text "merge"), ("on", writeCondition on),
      ("operations", Json.listOf writeMergeOperation operations),
      ("output", Json.orNull writeOutput o), ("hint", Json.orNull .text hint)]
  | .createTable t header footer =>
    [("kind", .text "create"), ("table", writeTable t), ("header", Json.orNull .text header),
      ("footer", Json.orNull .text footer)]
  | .dropTable t ifExists =>
    [("kind", .text "drop"), ("table", writeTable t), ("if_exists", .bool ifExists)]
  | .truncateTable t reset =>
    [("kind", .text "truncate"), ("table", writeTable t), ("reset", .bool reset)]
  | .multiInsert mode inserts =>
    [("kind", .text "multi"), ("mode", writeTag multiInsertModes mode),
      ("inserts", Json.listOf writeConditionalInsert inserts)]

/-- The kind of a statement. -/
def statementKind : StatementBody → String
  | .select => "SelectStatement"
  | .insert .. => "InsertStatement"
  | .update .. => "UpdateStatement"
  | .delete .. => "DeleteStatement"
  | .upsert .. => "InsertOrUpdateStatement"
  | .merge .. => "MergeStatement"
  | .createTable .. => "CreateTableStatement"
  | .dropTable .. => "DropTableStatement"
  | .truncateTable .. => "TruncateTableStatement"
  | .multiInsert .. => "MultiInsertStatement"

/-- A statement. -/
def readStatement (j : Json) : Decode Statement :=
  return {
    body := ← readBody j
    query := ← readQuery (j.field "query")
    parent := ← optional readStatementRef (j.field "parent")
    ctes := ← readList readCte (j.field "with")
    tag := ← optional readText (j.field "tag")
    hints := ← readList readText (j.field "hints") }

/-- A statement. -/
def describeStatement (s : Statement) : Json :=
  .object (writeBody s.body ++ [
    ("type", .text (statementKind s.body)), ("query", writeQuery s.query),
    ("parent", Json.orNull writeStatementRef s.parent), ("with", Json.listOf writeCte s.ctes),
    ("tag", Json.orNull .text s.tag), ("hints", Json.listOf .text s.hints)])

/-! ## Commands -/

/-- A command with its parameters. -/
def describeCommand (c : Command) : Json :=
  .object [("sql", .text c.sql), ("params", Json.listOf writeParameter c.params)]

/-- The place of a table with a diagnostic id. -/
def describePlace (entry : String × TablePlace) : Json :=
  let (id, place) := entry
  .list [.text id, Json.orNull .text place.aliasName, .text place.name, .text place.path]

/-- The members of a rendered statement. -/
def describeRendered (r : Rendered) : List (String × Json) :=
  [("commands", Json.listOf describeCommand r.commands), ("output", Json.listOf .text r.outputs),
    ("table_ids", Json.listOf describePlace r.places)]

end SqlCompiler.Exchange
