import SqlCompiler.Render.Page

/-!
# Printing table definitions

Main definitions:

- `printCreateTable`, `printDropTable`, `printTruncateTable`.
-/

namespace SqlCompiler

/-- Fill a text with blanks up to a number of characters. -/
def padded (width : Nat) (s : String) : String :=
  s ++ String.ofList (List.replicate (width - s.length) ' ')

/-- The greatest number of bytes of some texts, to which all of them are filled up. -/
def columnWidth (texts : List String) : Nat :=
  texts.foldl (fun width s => max width s.utf8ByteSize) 0

/-- Print the field of a new table, with name and type filled up to the given widths. -/
def printFieldDefinition (nameWidth typeWidth : Nat) (field : Field) : Print Unit := do
  let frame ← read
  Print.text ("\t" ++ padded nameWidth (frame.identifier field.physicalName) ++ " " ++
    padded typeWidth (frame.dialect.typeName field.type))
  if field.isIdentity then
    match frame.dialect.identityColumn with
    | some clause => Print.text (" " ++ clause)
    | none => pure ()
  Print.text (if field.canBeNull then "     NULL" else " NOT NULL")

/-- Print the primary key of a new table. -/
def printKeyDefinition (t : TableRef) : Print Unit := do
  let store := (← read).store
  let keys := store.primaryKeys t
  if !keys.isEmpty then
    Print.line ","
    Print.newline
    Print.text "\tCONSTRAINT "
    Print.identifier ("PK_" ++ (store.table t).name.name)
    Print.text " PRIMARY KEY "
    Print.parenthesized true (Print.write fun w =>
      w.identifiers (keys.map fun f => (store.field f).physicalName) ", ")

/-- Print the definition of a table.  In a header and a footer, `{0}` stands for its name. -/
def printCreateTable (t : TableRef) (header footer : Option String) : Print Unit := do
  let frame ← read
  let table := frame.store.table t
  let name := frame.objectName table.name
  let withName (s : String) : String := Text.replaceAll s "{0}" name
  match header with
  | some header => Print.line (withName header)
  | none =>
    Print.line ((if table.isTemporary then "CREATE TEMPORARY TABLE " else "CREATE TABLE ") ++ name)
  Print.line "("
  let fields := table.fields.map frame.store.field
  let nameWidth := columnWidth (fields.map fun f => frame.identifier f.physicalName)
  let typeWidth := columnWidth (fields.map fun f => frame.dialect.typeName f.type)
  Print.separated ",\n" (fields.map (printFieldDefinition nameWidth typeWidth))
  printKeyDefinition t
  Print.newline
  Print.text ")"
  match footer with
  | some footer =>
    Print.newline
    Print.text (withName footer)
  | none => pure ()

/-- Print the removal of a table. -/
def printDropTable (t : TableRef) (ifExists : Bool) : Print Unit := do
  let frame ← read
  if ifExists && !frame.capabilities.dropTableIfExists then
    Print.unsupported "DROP TABLE IF EXISTS"
  Print.text (if ifExists then "DROP TABLE IF EXISTS " else "DROP TABLE ")
  Print.objectName (frame.store.table t).name

/-- Print the removal of all rows of a table. -/
def printTruncateTable (t : TableRef) (resetIdentity : Bool) : Print Unit := do
  let frame ← read
  let name := (frame.store.table t).name
  if frame.capabilities.truncate then
    Print.text "TRUNCATE TABLE "
    Print.objectName name
    Print.text (frame.dialect.truncateSuffix resetIdentity)
  else
    Print.text "DELETE FROM "
    Print.objectName name

end SqlCompiler
