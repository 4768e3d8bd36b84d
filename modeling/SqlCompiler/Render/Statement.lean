import SqlCompiler.Legalize.Statement
import SqlCompiler.Render.Define
import SqlCompiler.Render.Merge

/-!
# Rendering statements

A statement becomes one or two commands, each a text with the parameters it refers to.

Main definitions:

- `Rendered`: the commands of a statement and what they hand back.
- `Frame.command`: the main command of a statement.
- `renderStatement`: every command.
- `compileStatement`: a statement legalized and then rendered.
-/

namespace SqlCompiler

/-- One command with the parameters it refers to. -/
structure Command where
  sql : String
  params : List Parameter := []
  /-- What each placeholder in the text stands for, in the order they were written. -/
  placeholders : List Parameter := []
  deriving Inhabited

/-- A statement as it is sent to the database. -/
structure Rendered where
  commands : List Command
  /-- The names of the values a modification hands back. -/
  outputs : List String
  /-- The places of the tables with a diagnostic id. -/
  places : Members TablePlace
  deriving Inhabited

/-! ## Around the statement -/

/-- Print a tag as a comment, after removing the delimiters of comments from it once each. -/
def printTag (tag : Option String) : Print Unit :=
  match tag with
  | none => pure ()
  | some tag =>
    let text := Text.replaceAll (Text.replaceAll tag "/*" "") "*/" ""
    Print.line ("/* " ++ Text.trim text ++ " */")

/-- Print the names of the fields of a common table expression; more than three are listed
below each other. -/
def printCteFields (names : List String) : Print Unit := do
  if names.length > 3 then
    Print.newline
    Print.line "("
    Print.text "\t"
    Print.write fun w => w.identifiers names ",\n\t"
    Print.newline
    Print.text ")"
  else if !names.isEmpty then
    Print.text " "
    Print.parenthesized true (Print.write fun w => w.identifiers names ", ")

/-- Print a common table expression. -/
def printCte (next : NextLevel) (c : CteRef) : Print Unit := do
  let store := (← read).store
  let cte := store.cte c
  Print.identifier cte.name
  printCteFields (cte.fields.map fun f => (store.field f).physicalName)
  Print.newline
  Print.line "AS"
  Print.line "("
  Print.nestedQuery (next.query cte.body) none false
  Print.text ")"

/-- Print the `WITH` clause in front of a statement. -/
def printCtes (next : NextLevel) (ctes : List CteRef) : Print Unit := do
  let frame ← read
  if !ctes.isEmpty then
    if !frame.capabilities.cte then Print.unsupported "CTE"
    Print.text "WITH "
    if frame.capabilities.recursiveCteKeyword && ctes.any frame.store.isRecursiveCte then
      Print.text "RECURSIVE "
    Print.separated ",\n" (ctes.map (printCte next))
    Print.newline

/-- Fill in the deferred names, now that the places of all tables are known. -/
def fillDeferredNames : Print Unit := do
  (← get).pending.forM fun name => do
    match Members.get? name.id (← get).places with
    | none => throw (.resolution ("Table ID '" ++ name.id ++ "' is not defined."))
    | some place =>
      let text :=
        match name.kind with
        | .aliasName => place.aliasName.getD place.name
        | .name => place.name
        | .path => place.path
      Print.write fun w => w.replaceAll name.mark text

/-- A hint that goes in front of the statement, without its mark. -/
def leadingHint? (hint : String) : Option String :=
  if Text.startsWith hint "**" then some (String.ofList (hint.toList.drop 2)) else none

/-- Add the hints: marked ones in front of the statement, the others after it. -/
def printHints (hints : List String) : Print Unit := do
  let leading := hints.filterMap leadingHint?
  let trailing := hints.filter fun hint => (leadingHint? hint).isNone
  if !leading.isEmpty then
    Print.write fun w => w.prepend (String.join (leading.map (· ++ "\n")))
  if !trailing.isEmpty then
    Print.write Writer.trimEnd
    trailing.forM fun hint => Print.text ("\n" ++ hint)

/-! ## Statements -/

/-- Print what a statement does. -/
def printStatementBody (next : NextLevel) (statement : Statement) : Print Unit :=
  let query := statement.query
  match statement.body with
  | .select =>
    withReader (fun frame => { frame with finalAliases := frame.options.finalAliases })
      (printQuery next query)
  | .insert insert output => printInsert next query insert output
  | .update update output => printUpdate next query update output
  | .delete table top output => printDelete next query table top output
  | .upsert insert update => printUpsert next query insert update
  | .merge on operations output hint => printMerge next query on operations output hint
  | .createTable t header footer => printCreateTable t header footer
  | .dropTable t ifExists => printDropTable t ifExists
  | .truncateTable t resetIdentity => printTruncateTable t resetIdentity
  | .multiInsert mode inserts => printMultiInsert next query mode inserts

/-- Print a statement. -/
def printStatement (next : NextLevel) (statement : Statement) : Print Unit := do
  printTag statement.tag
  printCtes next statement.ctes
  printStatementBody next statement
  fillDeferredNames
  printHints statement.hints

/-- The queries of the enclosing statements, the innermost first. -/
def Store.enclosingQueries (s : Store) : Nat → Option StatementRef → List QueryRef
  | 0, _ => []
  | _, none => []
  | fuel + 1, some t =>
    let statement := s.statement t
    statement.query :: s.enclosingQueries fuel statement.parent

/-- The main command of a statement, and the places of its tables. -/
def Frame.command (frame : Frame) (t : StatementRef) :
    Except SqlError (Command × Members TablePlace) := do
  let statement := frame.store.statement t
  let scopes := frame.store.enclosingQueries frame.store.statements.size statement.parent
  let next := NextLevel.within (4 * frame.store.weight + 16)
  let (_, page) ← (printStatement next statement { frame with scopes }).run frame.emptyPage
  let writer := page.writer.trimEnd
  return ({ sql := writer.text, params := writer.params, placeholders := writer.placeholders },
    page.places)

/-- The text of the command after the main one, if there is one. -/
def Frame.secondCommand? (frame : Frame) (statement : Statement) : Option String :=
  match statement.body with
  | .insert insert _ =>
    if !insert.withIdentity then none
    else
      match frame.dialect.identityStyle with
      | .secondCommand sql => some sql
      | _ => none
  | .truncateTable t true => frame.dialect.resetIdentityCommand (frame.store.table t).name.name
  | _ => none

/-- The number of commands of a statement. -/
def Frame.commandCount (frame : Frame) (t : StatementRef) : Nat :=
  if (frame.secondCommand? (frame.store.statement t)).isSome then 2 else 1

/-! ## Values handed back -/

/-- The name of the value that is handed back for an assigned target. -/
def Store.outputName (s : Store) (target : Scalar) (index : Nat) : String :=
  let numbered := "c" ++ toString (index + 1)
  match target with
  | .field f => (s.field f).name
  | .column c => (s.column c).aliasName.getD numbered
  | _ => numbered

/-- The name of the generated identity that is handed back. -/
def Frame.identityNames (frame : Frame) (insert : InsertClause) : List String :=
  if !insert.withIdentity || frame.dialect.identityStyle == .unsupported then []
  else
    match insert.into.bind frame.store.identityField? with
    | some f => [(frame.store.field f).name]
    | none => []

/-- The names of the values a statement hands back. -/
def Frame.outputNames (frame : Frame) (statement : Statement) : List String :=
  match usedOutput? statement.body.output?, statement.body with
  | some output, _ =>
    output.items.zipIdx.map fun (item, i) => frame.store.outputName item.target i
  | none, .insert insert _ => frame.identityNames insert
  | none, _ => []

/-- Render every command of a statement. -/
def renderStatement (provider : Provider) (options : Options) (store : Store) (t : StatementRef) :
    Except SqlError Rendered := do
  let frame : Frame := { provider, store, options }
  let statement := store.statement t
  let (command, places) ← frame.command t
  let second := (frame.secondCommand? statement).toList.map fun sql =>
    { sql := Text.trimEnd sql : Command }
  return { commands := command :: second, outputs := frame.outputNames statement, places }

/-- Legalize a statement, in place, and render it. -/
def compileStatement (provider : Provider) (options : Options) (t : StatementRef) :
    StoreM Rendered := do
  legalizeStatement provider t
  match renderStatement provider options (← get) t with
  | .ok rendered => return rendered
  | .error e => throw e

end SqlCompiler
