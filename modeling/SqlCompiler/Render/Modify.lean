import SqlCompiler.Render.Select

/-!
# Printing inserts, updates and deletes

Main definitions:

- `printInsert`, `printUpdate`, `printDelete`.
- `printOutput`: the values a modification hands back.
- `Store.identityField?`: the field whose value the database generates.
-/

namespace SqlCompiler

/-! ## Parts -/

/-- The target of an insert. -/
def insertTarget (insert : InsertClause) : Print TableRef :=
  match insert.into with
  | some t => pure t
  | none => throw (.resolution "Insert target table is not set.")

mutual

/-- Print a written column, which is never qualified. -/
def printTarget (next : NextLevel) (e : Scalar) : Print Unit :=
  match e with
  | .field f => do Print.identifier ((← read).store.field f).physicalName
  | .row items => do
    Print.text "("
    Print.separated ", " (targetPrinters next items)
    Print.text ")"
  | other => other.print next false .unknown false
termination_by structural e

/-- The printers of a list of written columns. -/
def targetPrinters (next : NextLevel) : List Scalar → List (Print Unit)
  | [] => []
  | e :: rest => printTarget next e :: targetPrinters next rest
termination_by structural es => es

end

/-- Print the value of an assignment. -/
def printAssigned (next : NextLevel) (item : Assignment) : Print Unit :=
  match item.value with
  | some e => printScalar next e
  | none => Print.text "DEFAULT"

/-- Print items in parentheses, one on each line. -/
def printBlock (items : List (Print Unit)) : Print Unit := do
  Print.indentedLine "("
  Print.indented (Print.lines items)
  Print.newline
  Print.indentedLine ")"

/-- Print written columns in parentheses. -/
def printTargets (next : NextLevel) (targets : List Scalar) : Print Unit :=
  printBlock (targets.map (printTarget next))

/-- Print assigned values in parentheses. -/
def printAssignedValues (next : NextLevel) (items : List Assignment) : Print Unit :=
  printBlock (items.map (printAssigned next))

/-- Print `VALUES` with the assigned values. -/
def printValues (next : NextLevel) (items : List Assignment) : Print Unit := do
  Print.indentedLine "VALUES"
  printAssignedValues next items

/-- Print `INSERT INTO` with the table and its columns. -/
def printInsertInto (next : NextLevel) (into : TableRef) (items : List Assignment) :
    Print Unit := do
  Print.indentation
  Print.text "INSERT INTO "
  Print.objectName ((← read).store.table into).name
  if items.isEmpty then Print.line " DEFAULT VALUES"
  else
    Print.newline
    printTargets next (items.map (·.target))

/-- Print one assignment of an update. -/
def printAssignment (next : NextLevel) (item : Assignment) : Print Unit := do
  match item.target with
  | .row _ =>
    if !(← read).capabilities.updateSetRow then
      throw (.resolution "This provider does not support SqlRow in UPDATE.")
  | _ => pure ()
  printTarget next item.target
  Print.text " = "
  printAssigned next item

/-- Print `SET` with the assignments. -/
def printSet (next : NextLevel) (items : List Assignment) : Print Unit :=
  printClause "SET" (items.map (printAssignment next))

/-! ## Values handed back -/

/-- The output clause, if it has anything to hand back. -/
def usedOutput? (output : Option OutputClause) : Option OutputClause :=
  output.filter fun o => !o.isEmpty

/-- Refuse an output clause where the dialect has none. -/
def checkOutput (output : Option OutputClause) : Print Unit := do
  if (usedOutput? output).isSome && (← read).dialect.outputStyle == .unsupported then
    Print.unsupported "OUTPUT clause"

/-- Print the output clause, if the dialect puts it at this place. -/
def printOutput (next : NextLevel) (output : Option OutputClause) (place : OutputStyle) :
    Print Unit := do
  let frame ← read
  match usedOutput? output with
  | none => pure ()
  | some o =>
    if frame.dialect.outputStyle == place then
      printClause (if place == .returning then "RETURNING" else "OUTPUT")
        (o.items.map fun item => printScalar next (item.value.getD item.target))
      match o.into with
      | none => pure ()
      | some into =>
        Print.indentation
        Print.text "INTO "
        Print.objectName (frame.store.table into).name
        Print.newline
        printTargets next (if o.columns.isEmpty then o.items.map (·.target) else o.columns)

/-- The field of a table whose value the database generates. -/
def Store.identityField? (s : Store) (t : TableRef) : Option FieldRef :=
  (s.table t).fields.find? fun f => (s.field f).isIdentity

/-- Print how the generated identity is read back, as far as it is a part of the insert. -/
def printIdentity (into : TableRef) (output : Option OutputClause) : Print Unit := do
  let frame ← read
  match frame.dialect.identityStyle with
  | .unsupported => Print.unsupported "Insert with identity"
  | .sameCommand sql =>
    Print.newline
    Print.line sql
  | .returning =>
    if (usedOutput? output).isNone then
      match frame.store.identityField? into with
      | none =>
        throw (.resolution ("Identity field must be defined for '" ++
          (frame.store.table into).name.name ++ "'."))
      | some f =>
        Print.text "RETURNING "
        Print.identifier (frame.store.field f).physicalName
        Print.newline
  | .secondCommand _ => pure ()

/-! ## Inserts -/

/-- Print an insert of the rows of a query, or of one row. -/
def printInsert (next : NextLevel) (query : QueryRef) (insert : InsertClause)
    (output : Option OutputClause) : Print Unit := do
  checkOutput output
  let into ← insertTarget insert
  printInsertInto next into insert.items
  printOutput next output .output
  let q := (← read).store.query query
  let readsRows := !q.sources.isEmpty
  if readsRows then printQuery next query
  else if !insert.items.isEmpty then printValues next insert.items
  withReader (fun frame => if readsRows then frame.naming q else frame) do
    if insert.withIdentity then printIdentity into output
    printOutput next output .returning

/-! ## Updates and deletes -/

/-- The source that reads an item, and the sources of the `FROM` clause without it, where it is
one of them. -/
def takeSource? (item : SourceItem) : List Source → Option (Source × List Source)
  | [] => none
  | s :: rest =>
    if s.item == item then some (s, rest)
    else
      match s.all.find? (·.item == item) with
      | some found => some (found, s :: rest)
      | none => (takeSource? item rest).map fun (found, others) => (found, s :: others)

/-- The source a modification writes to, and the other sources. -/
def writtenSource (q : Query) (table : Option TableRef) : Print (Source × List Source) := do
  let store := (← read).store
  match table with
  | some t =>
    match takeSource? (.table t) q.sources with
    | some result => return result
    | none => throw (.resolution ("Table '" ++ (store.table t).name.name ++ "' not found."))
  | none =>
    match q.sources with
    | first :: rest => return (first, rest)
    | [] => throw (.resolution "Table '' not found.")

/-- Print the target of a modification: by its alias alone, or by its name and its alias. -/
def printWritten (target : Source) (byAlias : Bool) : Print Unit := do
  let frame ← read
  match target.item, byAlias, writtenAlias? target.aliasName with
  | _, true, some aliasName => Print.text aliasName
  | .table t, _, aliasName =>
    Print.objectName (frame.store.table t).name
    match aliasName with
    | some aliasName => Print.text (frame.dialect.dmlAliasKeyword ++ aliasName)
    | none => pure ()
  | .query _, _, _ =>
    throw (.resolution "The target of a data modification must be a table.")

/-- Print an update. -/
def printUpdate (next : NextLevel) (query : QueryRef) (update : UpdateClause)
    (output : Option OutputClause) : Print Unit := do
  checkOutput output
  let frame ← read
  let q := frame.store.query query
  let (target, others) ← writtenSource q update.table
  if q.isMultiTable && !frame.capabilities.updateFrom && !frame.capabilities.multiTableDml then
    Print.unsupported "UPDATE with JOIN"
  let byAlias := q.isMultiTable && frame.dialect.dmlTargetIsAlias
  withReader (fun frame => frame.entering query) do
    printClause "UPDATE" [printWritten target byAlias]
    printSet next update.items
    printOutput next output .output
    let sources := if byAlias then q.sources else others
    if byAlias || !others.isEmpty then printSources next sources
    printConditionClause next "WHERE" q.whereClause
    printOutput next output .returning

/-- Print the row limit of a delete. -/
def printDeleteLimit (next : NextLevel) (q : Query) (top : Option Scalar) : Print Unit := do
  match top with
  | none => pure ()
  | some top =>
    match (← read).dialect.firstFormat q with
    | none => Print.unsupported "DELETE with Take"
    | some format =>
      Print.text " "
      printTemplate format [printScalar next top]

/-- Print a delete. -/
def printDelete (next : NextLevel) (query : QueryRef) (table : Option TableRef)
    (top : Option Scalar) (output : Option OutputClause) : Print Unit := do
  checkOutput output
  let frame ← read
  let q := frame.store.query query
  let (target, _) ← writtenSource q table
  if q.isMultiTable && !frame.capabilities.multiTableDml then
    Print.unsupported "DELETE with JOIN"
  withReader (fun frame => frame.entering query) do
    Print.indentation
    Print.text "DELETE"
    printDeleteLimit next q top
    if q.isMultiTable && frame.dialect.dmlTargetIsAlias then
      Print.text " "
      printWritten target true
    Print.newline
    printOutput next output .output
    printSources next q.sources
    printConditionClause next "WHERE" q.whereClause
    printOutput next output .returning

end SqlCompiler
