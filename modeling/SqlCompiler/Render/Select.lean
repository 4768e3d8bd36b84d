import SqlCompiler.Render.Expression

/-!
# Printing queries

The clauses of a query block, one after the other, each on lines of its own.

Main definitions:

- `Source.print`: a source with the sources joined to it.
- `printQueryBody`: the clauses of one query block.
- `printQuery`: a query block followed by its set operators.
-/

namespace SqlCompiler

/-- Print a keyword on a line, and below it, indented, one item on each line. -/
def printClause (keyword : String) (items : List (Print Unit)) : Print Unit := do
  Print.indentedLine keyword
  Print.indented (Print.lines items)
  Print.newline

/-! ## What is selected -/

/-- Refuse paging the provider cannot express where the query stands. -/
def checkPaging (q : Query) : Print Unit := do
  let frame ← read
  let capabilities := frame.capabilities
  if q.take.isSome then
    if !capabilities.take then Print.unsupported "Take"
    if frame.isSubquery && !capabilities.subqueryTake then
      Print.unsupported "Take for subqueries"
  if q.skip.isSome then
    if !capabilities.allowsSkip q.take q.skip then Print.unsupported "Skip"
    if frame.isSubquery && !capabilities.subquerySkip then
      Print.unsupported "Skip for subqueries"

/-- Print a row limit right after `SELECT`, where the dialect puts it there. -/
def printFirst (next : NextLevel) (q : Query) : Print Unit := do
  let dialect := (← read).dialect
  match dialect.firstFormat q, q.take with
  | some format, some take =>
    Print.text " "
    printTemplate format [printScalar next take]
    match q.takeHints with
    | none => pure ()
    | some hints =>
      if !dialect.takeHints then Print.unsupported "Take hints"
      if hints.percent then Print.text " PERCENT"
      if hints.withTies then Print.text " WITH TIES"
  | _, _ => if q.takeHints.isSome then Print.unsupported "Take hints"

/-- Print a column, with its alias where that differs from the name the column has anyway. -/
def printSelected (next : NextLevel) (column : OutputColumn) : Print Unit := do
  let frame ← read
  printScalar next column.expression
  match column.aliasName with
  | none => pure ()
  | some aliasName =>
    if frame.finalAliases || frame.store.naturalName? column.expression != some aliasName then
      Print.text " as "
      Print.identifier aliasName

/-- Print `SELECT` with its modifiers and the columns; no columns stand for all. -/
def printSelect (next : NextLevel) (q : Query) : Print Unit := do
  let frame ← read
  Print.indentation
  Print.text "SELECT"
  match q.name with
  | none => pure ()
  | some name =>
    if frame.capabilities.namedQueryBlock then Print.text (" /* " ++ name ++ " */")
  if q.distinct then Print.text " DISTINCT"
  printFirst next q
  Print.newline
  Print.indented (Print.lines
    (if q.columns.isEmpty then [Print.text "*"]
      else q.columns.map fun c => printSelected next (frame.store.column c)))
  Print.newline

/-! ## Sources -/

/-- Record where a table with a diagnostic id stands. -/
def recordPlace (t : TableRef) (aliasName : Option String) : Print Unit := do
  let frame ← read
  let table := frame.store.table t
  match table.tableId with
  | none => pure ()
  | some id =>
    let aliasName := aliasName.filter (· != unaliased)
    let name :=
      match table.name.schema with
      | some schema => schema ++ "." ++ table.name.name
      | none => table.name.name
    let leaf := aliasName.getD name
    let path :=
      match frame.path with
      | some outer => outer ++ "." ++ leaf
      | none => leaf
    let path :=
      match frame.queryName with
      | some query => path ++ "@" ++ query
      | none => path
    modify fun page =>
      { page with places := Members.insert id { aliasName, name, path } page.places }

/-- Print rows written in place, under an alias that names their columns. -/
def printRows (next : NextLevel) (table : Table) (rows : List (List Scalar))
    (aliasName : Option String) : Print Unit := do
  let frame ← read
  match writtenAlias? aliasName with
  | none => throw (.resolution "Alias required for SqlValuesTable.")
  | some aliasName =>
    Print.text "(VALUES "
    Print.separated ", " (rows.map fun row =>
      Print.parenthesized true (printList (scalarPrinters next row)))
    Print.text (") " ++ aliasName)
    let names := table.fields.map fun f => (frame.store.field f).physicalName
    Print.parenthesized true (Print.write fun w => w.identifiers names ", ")

/-- Print a raw text used as a table, in parentheses if it is a query. -/
def printRawTable (next : NextLevel) (sql : String) (args : List Scalar) : Print Unit :=
  let isQuery := Text.startsWith (Text.lower (Text.trimStart sql)) "select"
  Print.parenthesized isQuery
    (printTemplate sql ((scalarPrinters next args).map fun arg => arg .unknown true))

/-- Print a table without its alias, unless rows written in place ask for it. -/
def printTable (next : NextLevel) (t : TableRef) (aliasName : Option String) : Print Unit := do
  let frame ← read
  let table := frame.store.table t
  match table.kind with
  | .physical | .cte _ => Print.objectName table.name
  | .raw sql args => printRawTable next sql args
  | .values rows => printRows next table rows aliasName
  | .inserted | .deleted => Print.text (frame.dialect.pseudoTable table.kind)
  recordPlace t aliasName

/-- Whether the alias of a table has been printed as a part of it. -/
def TableKind.includesAlias : TableKind → Bool
  | .values _ => true
  | _ => false

/-- Print a table or a subquery with its alias. -/
def printSourceItem (next : NextLevel) (item : SourceItem) (aliasName : Option String) :
    Print Unit := do
  let frame ← read
  let includesAlias ← (do
    match item with
    | .table t =>
      printTable next t aliasName
      return (frame.store.table t).kind.includesAlias
    | .query q =>
      printSubquery next q aliasName
      return false : Print Bool)
  if !includesAlias then
    match writtenAlias? aliasName with
    | some aliasName => Print.text (" " ++ aliasName)
    | none => pure ()

/-- Print the condition of a join. -/
def printJoinCondition (next : NextLevel) (condition : Condition) : Print Unit := do
  Print.text " ON "
  if condition.isEmpty then Print.text "1=1" else condition.print next .unknown false

mutual

/-- Print a source, and below it, indented, the sources joined to it. -/
def Source.print (next : NextLevel) : Source → Print Unit
  | ⟨item, aliasName, joins⟩ => do
    printSourceItem next item aliasName
    Print.indented (printJoins next joins)
termination_by structural s => s

/-- Print a join. -/
def Join.print (next : NextLevel) : Join → Print Unit
  | ⟨kind, source, condition⟩ => do
    let capabilities := (← read).capabilities
    if kind == .inner && condition.isEmpty && capabilities.crossJoin then
      Print.text "CROSS JOIN "
      source.print next
    else if kind == .crossApply || kind == .outerApply then
      if !capabilities.applyJoin then Print.unsupported kind.keyword
      Print.text (kind.keyword ++ " ")
      source.print next
    else
      Print.text (kind.keyword ++ " ")
      source.print next
      printJoinCondition next condition
termination_by structural j => j

/-- Print joins, each on a line of its own. -/
def printJoins (next : NextLevel) : List Join → Print Unit
  | [] => pure ()
  | j :: rest => do
    Print.newline
    Print.indentation
    j.print next
    printJoins next rest
termination_by structural js => js

end

/-- Print `FROM` with the given sources. -/
def printSources (next : NextLevel) (sources : List Source) : Print Unit :=
  printClause "FROM" (sources.map fun source => source.print next)

/-- Print the `FROM` clause of a query; where there is no source, the dialect may need a table
with one row. -/
def printFrom (next : NextLevel) (q : Query) : Print Unit := do
  if !q.sources.isEmpty then printSources next q.sources
  else
    match (← read).dialect.dummyTable with
    | some dummy => printClause "FROM" [Print.text dummy]
    | none => pure ()

/-! ## The other clauses -/

/-- Print a condition under a keyword, unless it is empty. -/
def printConditionClause (next : NextLevel) (keyword : String) (condition : Condition) :
    Print Unit :=
  if condition.isEmpty then pure ()
  else printClause keyword [condition.print next .unknown true]

/-- The keyword of a grouping that is not plain. -/
def GroupingKind.keyword? : GroupingKind → Option String
  | .plain => none
  | .groupingSets => some "GROUPING SETS"
  | .rollup => some "ROLLUP"
  | .cube => some "CUBE"

/-- An item that groups nothing. -/
def isConstantItem : Scalar → Bool
  | .value _ | .parameter _ => true
  | _ => false

/-- Print the grouping; constants are left out. -/
def printGrouping (next : NextLevel) (grouping : Grouping) : Print Unit := do
  let items := grouping.items.filter fun item => !isConstantItem item
  let acts := items.map (printScalar next)
  if items.isEmpty then pure ()
  else
    match grouping.kind.keyword? with
    | none => printClause "GROUP BY" acts
    | some keyword =>
      if !(← read).capabilities.groupingSets then Print.unsupported ("GROUP BY " ++ keyword)
      printClause ("GROUP BY " ++ keyword ++ " (") acts
      Print.indentedLine ")"

/-- Print the ordering. -/
def printOrder (next : NextLevel) (items : List OrderItem) : Print Unit :=
  if items.isEmpty then pure ()
  else printClause "ORDER BY" (items.map fun item => do
    printScalar next item.expression
    if item.descending then Print.text " DESC")

/-- A paging format that can be written: one without a placeholder is even without a value. -/
def usableFormat (format : Option String) (value : Option Scalar) : Option String :=
  format.filter fun format => !Text.contains format "{0}" || value.isSome

/-- Print the row limit and the row offset at the end of the query. -/
def printPaging (next : NextLevel) (q : Query) : Print Unit := do
  let dialect := (← read).dialect
  let limit := (usableFormat (dialect.limitFormat q) q.take).map (·, q.take)
  let offset := (usableFormat (dialect.offsetFormat q) q.skip).map (·, q.skip)
  let parts := (if dialect.offsetFirst then [offset, limit] else [limit, offset]).filterMap id
  if !parts.isEmpty then
    Print.indentation
    Print.separated " " (parts.map fun (format, value) =>
      printTemplate format (value.toList.map (printScalar next)))
    Print.newline

/-! ## Queries -/

/-- Print the clauses of a query block. -/
def printQueryBody (next : NextLevel) (q : Query) : Print Unit := do
  checkPaging q
  printSelect next q
  printFrom next q
  printConditionClause next "WHERE" q.whereClause
  printGrouping next q.grouping
  printConditionClause next "HAVING" q.having
  printOrder next q.orderBy
  printPaging next q

/-- Print a set operator and its query. -/
def printSetOperator (next : NextLevel) (operator : SetOperator) : Print Unit := do
  let capabilities := (← read).capabilities
  if operator.operation == .exceptAll && !capabilities.exceptAll then
    Print.unsupported "EXCEPT ALL"
  if operator.operation == .intersectAll && !capabilities.intersectAll then
    Print.unsupported "INTERSECT ALL"
  Print.indentedLine operator.operation.keyword
  Print.nested (fun frame => { frame with finalAliases := false }) (next.query operator.query)

/-- The frame of everything after a query block has been begun: its name is known. -/
def Frame.naming (frame : Frame) (q : Query) : Frame :=
  { frame with queryName := q.name <|> frame.queryName }

/-- Print a query block and its set operators. -/
def printQuery (next : NextLevel) (ref : QueryRef) : Print Unit := do
  let q := (← read).store.query ref
  withReader (fun frame => frame.naming q) do
    withReader (fun frame => frame.entering ref) (printQueryBody next q)
    q.setOperators.forM (printSetOperator next)

/-- The printers of what is referred to, at most `fuel` references deep. -/
def NextLevel.within : Nat → NextLevel
  | 0 =>
    let exhausted : Print Unit := throw (.resolution "References without end.")
    { query := fun _ => exhausted
      scalar := fun _ _ _ => exhausted
      predicate := fun _ _ _ => exhausted }
  | fuel + 1 =>
    { query := fun q => printQuery (NextLevel.within fuel) q
      scalar := fun e => e.print (NextLevel.within fuel) true
      predicate := fun p => p.print (NextLevel.within fuel) }

end SqlCompiler
