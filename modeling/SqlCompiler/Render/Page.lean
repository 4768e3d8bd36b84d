import SqlCompiler.Error
import SqlCompiler.Legalize.Statement
import SqlCompiler.Options
import SqlCompiler.Provider.Basic
import SqlCompiler.Render.Writer

/-!
# Pages

What printing a statement reads and what it leaves behind.

Main definitions:

- `Frame`: the provider, the store, the options and the queries whose sources are visible.
- `Page`: the text so far, the places of tables with a diagnostic id, and the names still to
  be filled in.
- `Print`: printing steps, with the basic ones.
- `Print.nested`: a part printed on a page of its own and then added.
- `Frame.tableQualifier`, `Frame.columnPlace`: how references are resolved.
-/

namespace SqlCompiler

/-- Where a table with a diagnostic id stands in the text. -/
structure TablePlace where
  aliasName : Option String
  name : String
  /-- The aliases of the enclosing subqueries and of the table, and the name of the query. -/
  path : String
  deriving DecidableEq, Repr, Inhabited

/-- What printing reads. -/
structure Frame where
  provider : Provider
  store : Store
  options : Options
  /-- The queries whose sources are visible, the innermost first. -/
  scopes : List QueryRef := []
  /-- The aliases of the enclosing subqueries. -/
  path : Option String := none
  /-- The name of the query block being printed. -/
  queryName : Option String := none
  /-- Printing a query inside another one. -/
  isSubquery : Bool := false
  /-- Write an alias on every column. -/
  finalAliases : Bool := false

/-- What printing leaves behind. -/
structure Page where
  writer : Writer
  places : Members TablePlace := []
  pending : List DeferredName := []

/-- Printing steps. -/
abbrev Print := ReaderT Frame (StateT Page (Except SqlError))

namespace Frame

/-- The dialect printed in. -/
def dialect (f : Frame) : Dialect := f.provider.dialect

/-- What the provider can express. -/
def capabilities (f : Frame) : Capabilities := f.provider.capabilities

/-- An identifier as the dialect writes it. -/
def identifier (f : Frame) (s : String) : String := f.dialect.quoting.identifier s

/-- A qualified name as the dialect writes it. -/
def objectName (f : Frame) (n : ObjectName) : String :=
  ".".intercalate ((n.qualifiers ++ [n.name]).map f.identifier)

/-- An empty page in the conventions of the dialect. -/
def emptyPage (f : Frame) : Page :=
  { writer := .new f.dialect.quoting f.dialect.parameterPrefix }

/-- The same frame inside a query. -/
def entering (f : Frame) (q : QueryRef) : Frame := { f with scopes := q :: f.scopes }

end Frame

/-! ## Basic steps -/

namespace Print

/-- Change the writer. -/
def write (f : Writer → Writer) : Print Unit :=
  modify fun page => { page with writer := f page.writer }

/-- Print a text. -/
def text (s : String) : Print Unit := write fun w => w.add s

theorem text_append (s t : String) : text (s ++ t) = (do text s; text t) := by
  funext frame page
  change Except.ok ((), { page with writer := page.writer.add (s ++ t) }) =
    Except.ok ((), { page with writer := (page.writer.add s).add t })
  simp only [Writer.add, String.append_assoc]

/-- A step succeeds after another one. -/
theorem bind_ok_iff {α β : Type} {act : Print α} {next : α → Print β} {frame : Frame} {page : Page}
    {result : β × Page} :
    (act >>= next) frame page = .ok result ↔
      ∃ a page', act frame page = .ok (a, page') ∧ next a frame page' = .ok result := by
  change (act frame page >>= fun r => next r.1 frame r.2) = _ ↔ _
  cases act frame page with
  | error e => exact iff_of_false nofun fun ⟨_, _, h, _⟩ => nomatch h
  | ok r => exact ⟨fun h => ⟨r.1, r.2, rfl, h⟩, fun ⟨_, _, h, hnext⟩ => by cases h; exact hnext⟩

/-- Print a line break. -/
def newline : Print Unit := write Writer.newline

/-- Print the indentation. -/
def indentation : Print Unit := write Writer.indentation

/-- Print a text and a line break. -/
def line (s : String) : Print Unit := do
  text s
  newline

/-- Print a text on an indented line of its own. -/
def indentedLine (s : String) : Print Unit := do
  indentation
  line s

/-- Print an identifier. -/
def identifier (s : String) : Print Unit := write fun w => w.identifier s

/-- Print a qualified name. -/
def objectName (n : ObjectName) : Print Unit := do text ((← read).objectName n)

/-- Indent further. -/
def deeper : Print Unit := write Writer.deeper

/-- Indent less. -/
def shallower : Print Unit := write Writer.shallower

/-- Print one level deeper. -/
def indented (act : Print Unit) : Print Unit := do
  deeper
  act
  shallower

/-- Print in parentheses if told so. -/
def parenthesized (wrap : Bool) (act : Print Unit) : Print Unit := do
  if wrap then text "("
  act
  if wrap then text ")"

/-- The number of bytes printed on this page. -/
def length : Print Nat := return (← get).writer.length

/-- Run steps with a separating step between them. -/
def separatedBy (separator : Print Unit) : List (Print Unit) → Print Unit
  | [] => pure ()
  | [act] => act
  | act :: rest => do
    act
    separator
    separatedBy separator rest

/-- Run steps with a text between them. -/
def separated (separator : String) (acts : List (Print Unit)) : Print Unit :=
  separatedBy (text separator) acts

/-- Run each step on an indented line, with commas between them. -/
def lines (acts : List (Print Unit)) : Print Unit :=
  separated ",\n" (acts.map fun act => do
    indentation
    act)

/-- Refuse a construct. -/
def unsupported {α : Type} (construct : String) : Print α := do
  throw ((← read).provider.unsupported construct)

/-- Print a part on a page of its own, in a frame of its own, and add it. -/
def nested (frame : Frame → Frame) (act : Print Unit) : Print Unit := do
  let outer ← get
  set ({ writer := outer.writer.nested } : Page)
  withReader frame act
  let inner ← get
  set ({
    writer := outer.writer.append inner.writer
    places := inner.places.foldl (fun places (id, place) => Members.insert id place places)
      outer.places
    pending := outer.pending ++ inner.pending } : Page)

/-- Print the page of a query inside another one, one level deeper and under the alias of the
source it is read by. -/
def nestedQuery (query : Print Unit) (aliasName : Option String) (isSubquery : Bool) : Print Unit :=
  nested
    (fun f =>
      let path :=
        match aliasName with
        | none => f.path
        | some a =>
          if a == unaliased then f.path
          else some (match f.path with
            | some path => path ++ "." ++ a
            | none => a)
      { f with path, isSubquery, finalAliases := false })
    (do
      deeper
      query)

end Print

/-! ## References -/

/-- An alias that is written: neither empty nor the mark of a table known by name. -/
def writtenAlias? (aliasName : Option String) : Option String :=
  aliasName.filter fun a => !a.isEmpty && a != unaliased

namespace Frame

/-- The closest visible source that reads an item, with the query it is a source of. -/
def findSource? (f : Frame) (item : SourceItem) : Option Source :=
  f.scopes.findSome? fun q => (f.store.query q).allSources.find? (·.item == item)

/-- What a field of a table is qualified with: the alias the table has in the closest scope,
its name where it is known by that, and nothing for the rows a `RETURNING` names. -/
def tableQualifier (f : Frame) (t : TableRef) : Except SqlError (Option String) :=
  let table := f.store.table t
  match table.kind with
  | .inserted | .deleted =>
    .ok (if f.dialect.outputStyle == .output then some (f.dialect.pseudoTable table.kind) else none)
  | _ =>
    match f.findSource? (.table t) with
    | none => .error (.resolution ("Table '" ++ table.name.name ++ "' not found."))
    | some source =>
      if source.aliasName == some unaliased then .ok (some (f.objectName table.name))
      else
        match writtenAlias? source.aliasName with
        | some aliasName => .ok (some aliasName)
        | none => .error (.resolution ("Table " ++ table.name.name ++ " should have an alias."))

/-- How a column is written. -/
inductive ColumnPlace where
  /-- Its query is a source: by its alias. -/
  | source (aliasName : String)
  /-- Its query is being printed: as its expression. -/
  | here

/-- The place of a column of `owner`, looking outwards from the innermost scope. -/
def columnPlaceIn (f : Frame) (column : OutputColumn) :
    List QueryRef → Except SqlError ColumnPlace
  | [] =>
    .error (.resolution ("Table not found for '" ++ column.aliasName.getD "" ++ "'."))
  | scope :: outer =>
    match (f.store.query scope).allSources.find? (·.item == .query column.parent) with
    | some source =>
      match writtenAlias? source.aliasName with
      | some aliasName => .ok (.source aliasName)
      | none => .error (.resolution "Subquery sources should have an alias.")
    | none => if scope == column.parent then .ok .here else f.columnPlaceIn column outer

/-- The place of a column. -/
def columnPlace (f : Frame) (c : ColumnRef) : Except SqlError ColumnPlace :=
  f.columnPlaceIn (f.store.column c) f.scopes

end Frame

end SqlCompiler
