import SqlCompiler.Render.Modify

/-!
# Printing upserts, merges and multi-table inserts

Main definitions:

- `printUpsert`: by a merge, by `ON CONFLICT`, or by an update followed by an insert.
- `printMerge`.
- `printMultiInsert`.
-/

namespace SqlCompiler

/-! ## Keys -/

/-- What an upsert matches on: the given keys, else the assigned fields of the primary key. -/
def upsertKeys (into : TableRef) (insert : InsertClause) (update : UpdateClause) :
    Print (List Assignment) := do
  let store := (← read).store
  if !update.keys.isEmpty then return update.keys
  let keys := insert.items.filter fun item =>
    match item.target with
    | .field f => (store.field f).isPrimaryKey
    | _ => false
  if keys.isEmpty then
    throw (.resolution ("InsertOrUpdate requires the '" ++ (store.table into).name.name ++
      "' table to have a primary key."))
  return keys

/-- Print the name of a key. -/
def printKeyName (key : Assignment) : Print Unit := do
  match key.target with
  | .field f => Print.identifier ((← read).store.field f).physicalName
  | _ => throw (.unusableValue "keys must be table fields")

/-- Print the value of a key. -/
def printKeyValue (next : NextLevel) (key : Assignment) : Print Unit :=
  match key.value with
  | some e => printScalar next e
  | none => throw (.unusableValue "a key needs a value")

/-- Print a key as an operand of a comparison. -/
def printKeyOperand (next : NextLevel) (key : Assignment) : Print Unit :=
  key.target.print next false .comparison true

/-- Print the comparisons of the keys with their values. -/
def printKeyTests (next : NextLevel) (keys : List Assignment) : Print Unit :=
  Print.separated " AND " (keys.map fun key => do
    printKeyOperand next key
    Print.text " = "
    printKeyValue next key)

/-! ## Upserts -/

/-- Print the insert of a branch for rows without a match. -/
def printMergeInsert (next : NextLevel) (items : List Assignment) : Print Unit := do
  Print.indentedLine "INSERT"
  printTargets next (items.map (·.target))
  printValues next items

/-- Compare a key with the column of the merge source that holds its value; an absent key
matches an absent one. -/
def printKeyMatch (next : NextLevel) (source : String) (key : Assignment) : Print Unit := do
  let sourceKey : Print Unit := do
    Print.text (source ++ ".")
    printKeyName key
  let isNullable := (← read).store.canBeNull key.target
  Print.parenthesized isNullable do
    if isNullable then
      printKeyOperand next key
      Print.text " IS NULL AND "
      sourceKey
      Print.text " IS NULL OR "
    printKeyOperand next key
    Print.text " = "
    sourceKey

/-- Print an upsert as a merge with a source of one row that holds the keys. -/
def printUpsertAsMerge (next : NextLevel) (into : TableRef) (insert : InsertClause)
    (update : UpdateClause) (keys : List Assignment) : Print Unit := do
  let frame ← read
  let (source, _) := AliasSet.nextNumbered {} "s"
  Print.text "MERGE INTO "
  Print.objectName (frame.store.table into).name
  Print.newline
  Print.text "USING (SELECT "
  Print.separated ", " (keys.map fun key => do
    printKeyValue next key
    Print.text " AS "
    printKeyName key)
  match frame.dialect.dummyTable with
  | some dummy => Print.text (" FROM " ++ dummy)
  | none => pure ()
  Print.line (") " ++ source)
  Print.text "ON "
  Print.parenthesized true (Print.separated " AND " (keys.map (printKeyMatch next source)))
  Print.newline
  if !update.items.isEmpty then
    Print.line "WHEN MATCHED THEN"
    Print.indented do
      Print.indentedLine "UPDATE"
      printSet next update.items
  Print.line "WHEN NOT MATCHED THEN"
  Print.indented (printMergeInsert next insert.items)
  Print.text frame.dialect.mergeTerminator

/-- Print an upsert as an insert with `ON CONFLICT`. -/
def printUpsertOnConflict (next : NextLevel) (into : TableRef) (insert : InsertClause)
    (update : UpdateClause) (keys : List Assignment) : Print Unit := do
  printInsertInto next into insert.items
  printValues next insert.items
  Print.text "ON CONFLICT "
  Print.parenthesized true (Print.separated ", " (keys.map printKeyName))
  if update.items.isEmpty then Print.text " DO NOTHING"
  else
    Print.line " DO UPDATE"
    printSet next update.items

/-- Print an upsert as an update, or a search if there is nothing to update, and an insert for
when no row was there. -/
def printUpsertInSteps (next : NextLevel) (into : TableRef) (insert : InsertClause)
    (update : UpdateClause) (keys : List Assignment) : Print Unit := do
  let name := ((← read).store.table into).name
  if update.items.isEmpty then
    Print.line "IF NOT EXISTS("
    Print.indented do
      Print.indentation
      Print.text "SELECT 1 FROM "
      Print.objectName name
      Print.text " WHERE "
      printKeyTests next keys
    Print.newline
    Print.line ")"
  else
    Print.line "UPDATE"
    Print.indented do
      Print.indentation
      Print.objectName name
    Print.newline
    printSet next update.items
    Print.line "WHERE"
    Print.indented do
      Print.indentation
      printKeyTests next keys
    Print.newline
    Print.newline
    Print.line "IF @@ROWCOUNT = 0"
  Print.line "BEGIN"
  Print.indented do
    printInsertInto next into insert.items
    printValues next insert.items
  Print.text "END"

/-- Print an upsert. -/
def printUpsert (next : NextLevel) (query : QueryRef) (insert : InsertClause)
    (update : UpdateClause) : Print Unit := do
  let frame ← read
  if !frame.capabilities.upsert then Print.unsupported "InsertOrUpdate"
  let into ← insertTarget insert
  let keys ← upsertKeys into insert update
  withReader (fun frame => frame.entering query) do
    match frame.dialect.upsertStyle with
    | .merge => printUpsertAsMerge next into insert update keys
    | .onConflict => printUpsertOnConflict next into insert update keys
    | .updateThenInsert => printUpsertInSteps next into insert update keys

/-! ## Merges -/

/-- Which rows a branch of a merge takes. -/
def MergeAction.keyword : MergeAction → String
  | .update | .updateWithDelete | .delete => "WHEN MATCHED"
  | .insert => "WHEN NOT MATCHED"
  | .updateBySource | .deleteBySource => "WHEN NOT MATCHED BY SOURCE"

/-- Whether a branch takes the rows of the target that no row of the source matches. -/
def MergeAction.isBySource : MergeAction → Bool
  | .updateBySource | .deleteBySource => true
  | _ => false

/-- A condition that says something. -/
def usedCondition? (c : Option Condition) : Option Condition :=
  c.filter fun c => !c.isEmpty

/-- Print what a branch of a merge does. -/
def printMergeAction (next : NextLevel) (operation : MergeOperation) : Print Unit :=
  match operation.action with
  | .update | .updateWithDelete | .updateBySource => do
    Print.indentedLine "UPDATE"
    printSet next operation.items
    match usedCondition? operation.whereDelete with
    | none => pure ()
    | some c =>
      Print.indentation
      Print.text "DELETE WHERE "
      c.print next .unknown false
      Print.newline
  | .delete | .deleteBySource => Print.indentedLine "DELETE"
  | .insert => printMergeInsert next operation.items

/-- Print a branch of a merge. -/
def printMergeOperation (next : NextLevel) (operation : MergeOperation) : Print Unit := do
  Print.text operation.action.keyword
  match usedCondition? operation.whereClause with
  | none => pure ()
  | some c =>
    Print.text " AND "
    c.print next .logicalConjunction false
  Print.line " THEN"
  Print.indented (printMergeAction next operation)

/-- Print the clauses of a merge. -/
def printMergeBody (next : NextLevel) (target source : Source) (on : Condition)
    (operations : List MergeOperation) (output : Option OutputClause) (hint : Option String) :
    Print Unit := do
  let dialect := (← read).dialect
  Print.text "MERGE"
  match hint with
  | some hint => if !dialect.dmlTargetIsAlias then Print.text (" /*+ " ++ hint ++ " */")
  | none => pure ()
  Print.text " INTO "
  target.print next
  match hint with
  | some hint => if dialect.dmlTargetIsAlias then Print.text (" WITH (" ++ hint ++ ")")
  | none => pure ()
  Print.newline
  Print.text "USING "
  source.print next
  Print.newline
  Print.text "ON "
  Print.parenthesized true (on.print next .unknown false)
  Print.newline
  operations.forM (printMergeOperation next)
  printOutput next output .output
  printOutput next output .returning
  Print.text dialect.mergeTerminator

/-- Print a merge. -/
def printMerge (next : NextLevel) (query : QueryRef) (on : Condition)
    (operations : List MergeOperation) (output : Option OutputClause) (hint : Option String) :
    Print Unit := do
  let frame ← read
  if !frame.capabilities.merge then Print.unsupported "MERGE"
  if operations.any (·.action.isBySource) && !frame.capabilities.mergeBySource then
    Print.unsupported "MERGE ... WHEN NOT MATCHED BY SOURCE"
  checkOutput output
  match (frame.store.query query).sources with
  | [target, source] =>
    withReader (fun frame => frame.entering query)
      (printMergeBody next target source on operations output hint)
  | _ => throw (.resolution "MERGE needs exactly a target and a source.")

/-! ## Multi-table inserts -/

/-- Print a value of a multi-table insert; columns of its query go by their aliases. -/
def printInsertedValue (next : NextLevel) (query : QueryRef) (item : Assignment) : Print Unit := do
  let store := (← read).store
  match item.value with
  | some (.column c) =>
    let column := store.column c
    if column.parent != query then printKeyValue next item
    else
      match column.aliasName with
      | some aliasName => Print.identifier aliasName
      | none =>
        throw (.resolution "Columns of a multi-table insert source need aliases.")
  | _ => printKeyValue next item

/-- Print a branch of a multi-table insert. -/
def printConditionalInsert (next : NextLevel) (query : QueryRef) (mode : MultiInsertMode)
    (branch : ConditionalInsert) : Print Unit := do
  match branch.condition with
  | some c =>
    Print.text "WHEN "
    c.print next .unknown false
    Print.line " THEN"
  | none => if mode != .unconditional then Print.line "ELSE"
  Print.indented do
    let into ← insertTarget branch.insert
    printInsertInto next into branch.insert.items
    Print.indentation
    Print.text "VALUES "
    Print.parenthesized true
      (Print.separated ", " (branch.insert.items.map (printInsertedValue next query)))
    Print.newline

/-- Print a multi-table insert. -/
def printMultiInsert (next : NextLevel) (query : QueryRef) (mode : MultiInsertMode)
    (inserts : List ConditionalInsert) : Print Unit := do
  if !(← read).capabilities.multiInsert then Print.unsupported "Multi-table insert"
  Print.line (if mode == .first then "INSERT FIRST" else "INSERT ALL")
  withReader (fun frame => frame.entering query)
    (inserts.forM (printConditionalInsert next query mode))
  printQuery next query

end SqlCompiler
