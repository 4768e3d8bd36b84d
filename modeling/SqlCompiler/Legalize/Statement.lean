import SqlCompiler.Legalize.Paging
import SqlCompiler.Legalize.Predicate
import SqlCompiler.Legalize.TargetCopy
import SqlCompiler.Provider.AliasSet
import SqlCompiler.Store.Basic
import SqlCompiler.Store.Reach
import SqlCompiler.Store.Weight

/-!
# Legal statements

A statement is legalized in three steps: its structure, every expression, and the aliases.  Every
source and column without an alias gets one.  Source aliases are unique in the whole statement, so
that correlated references are unambiguous; column aliases are unique in their query.

Main definitions:

- `unaliased`: marks a source that is known by its table's name.
- `Store.aliasSources`, `Store.aliasColumns`: the two parts of giving out aliases.
- `Store.finalizeAliases`: all aliases of a statement.
- `Store.restructured`: paging and modifications over several tables.
- `legalizeStatement`: the three steps.
-/

namespace SqlCompiler

/-- Marks a source that is known by its table's name alone. -/
def unaliased : String := "$"

/-! ## Sources -/

mutual

/-- Number the sources of a tree that have no alias, or mark them all as known by name. -/
def Source.withAliases (byName : Bool) (used : AliasSet) : Source → Source × AliasSet
  | ⟨item, aliasName, joins⟩ =>
    let (aliasName, used) :=
      match aliasName with
      | some a => (some a, used)
      | none =>
        if byName then (some unaliased, used)
        else
          let (a, used) := used.nextNumbered "t"
          (some a, used)
    let (joins, used) := joinsWithAliases byName used joins
    (⟨item, aliasName, joins⟩, used)
termination_by structural s => s

/-- Number the sources of a join. -/
def Join.withAliases (byName : Bool) (used : AliasSet) : Join → Join × AliasSet
  | ⟨kind, source, condition⟩ =>
    let (source, used) := source.withAliases byName used
    (⟨kind, source, condition⟩, used)
termination_by structural j => j

/-- Number the sources of a list of joins. -/
def joinsWithAliases (byName : Bool) (used : AliasSet) : List Join → List Join × AliasSet
  | [] => ([], used)
  | j :: rest =>
    let (j, used) := j.withAliases byName used
    let (rest, used) := joinsWithAliases byName used rest
    (j :: rest, used)
termination_by structural js => js

end

/-- Number the sources of a `FROM` clause. -/
def sourcesWithAliases (byName : Bool) (used : AliasSet) : List Source → List Source × AliasSet
  | [] => ([], used)
  | s :: rest =>
    let (s, used) := s.withAliases byName used
    let (rest, used) := sourcesWithAliases byName used rest
    (s :: rest, used)

namespace Store

/-- The source aliases already set in some queries. -/
def sourceAliases (s : Store) (queries : List QueryRef) : AliasSet :=
  queries.foldl
    (fun used q => (s.query q).allSources.foldl
      (fun used source => (source.aliasName.map used.add).getD used) used)
    {}

/-- Give aliases to the sources of a query. -/
def aliasSourcesOf (byName : Bool) (state : AliasSet × Store) (q : QueryRef) :
    AliasSet × Store :=
  let (used, s) := state
  let query := s.query q
  let (sources, used) := sourcesWithAliases (byName && !query.isMultiTable &&
    query.sources.length == 1) used query.sources
  (used, s.modifyQuery q fun query => { query with sources })

/-- Give aliases to the sources of some queries; a lone source of the root query is known by
name if `rootByName` says so. -/
def aliasSources (s : Store) (queries : List QueryRef) (root : QueryRef) (rootByName : Bool) :
    Store :=
  (queries.foldl (fun state q => aliasSourcesOf (rootByName && q == root) state q)
    (s.sourceAliases queries, s)).2

/-! ## Columns -/

/-- The name a selected expression is known by without an alias. -/
def naturalName? (s : Store) (e : Scalar) : Option String :=
  match e with
  | .field f => some (s.field f).physicalName
  | .column c => (s.column c).aliasName
  | _ => none

/-- The alias a column without one gets. -/
def columnAlias (used : AliasSet) (natural : Option String) : String × AliasSet :=
  match natural with
  | some name => if used.contains name then used.choose natural "c" else (name, used.add name)
  | none => used.choose none "c"

/-- Give a column an alias, unless it has one. -/
def aliasColumn (state : AliasSet × Store) (c : ColumnRef) : AliasSet × Store :=
  let (used, s) := state
  let column := s.column c
  if column.aliasName.isSome then state
  else
    let (aliasName, used) := columnAlias used (s.naturalName? column.expression)
    (used, s.modifyColumn c fun column => { column with aliasName := some aliasName })

/-- Give aliases to the columns of a query. -/
def aliasColumns (s : Store) (q : QueryRef) : Store :=
  let columns := (s.query q).columns
  let used := columns.foldl
    (fun used c => ((s.column c).aliasName.map used.add).getD used) ({} : AliasSet)
  (columns.foldl aliasColumn (used, s)).2

/-- Statements that can name their only source by its table's name. -/
def namesTargetDirectly : StatementBody → Bool
  | .update .. | .delete .. | .upsert .. => true
  | _ => false

/-- Give an alias to every source and column of a statement that has none.  Inner queries come
first for columns, so that outer ones can take the alias of the column they read. -/
def finalizeAliases (s : Store) (t : StatementRef) : Store :=
  let queries := s.statementQueries t
  let statement := s.statement t
  let s := s.aliasSources queries statement.query (namesTargetDirectly statement.body)
  queries.reverse.foldl aliasColumns s

end Store

/-! ## The three steps -/

namespace Store

/-- Give an arbitrary order to a query with an offset and no order, since an offset is only
legal after an ordering. -/
def orderForOffset (s : Store) (q : QueryRef) : Store :=
  s.modifyQuery q fun query =>
    if query.skip.isSome && query.orderBy.isEmpty then
      { query with orderBy := [⟨.formatted "(SELECT NULL)" [] .undefined, false⟩] }
    else query

/-- Restructure updates and deletes over several tables. -/
def restructureDml (s : Store) (rules : Capabilities) (t : StatementRef) :
    Except SqlError Unit × Store :=
  if rules.multiTableDml then (.ok (), s)
  else
    match (s.statement t).body with
    | .delete .. => s.splitDelete t
    | .update .. => if rules.updateFrom then s.flattenUpdate t else s.splitUpdate t
    | _ => (.ok (), s)

/-- Restructure a statement around what the dialect cannot express. -/
def restructured (s : Store) (p : Provider) (t : StatementRef) : Except SqlError Unit × Store :=
  let s := if p.rules.pagingWithDistinct then s else s.separateDistinct t
  match s.restructureDml p.rules t with
  | (.error e, s) => (.error e, s)
  | (.ok (), s) =>
    (.ok (),
      match p.dialect with
      | .sqlServer => (s.statementQueries t).foldl orderForOffset s
      | .db2 => s.numberRows t true
      | _ => s)

/-- Legalize every expression of a statement. -/
def legalizeExpressions (s : Store) (p : Provider) (t : StatementRef) : Store :=
  let fuel := 2 * s.weight + 8
  s.transformStatement (fun s => s.legalizerWithin p fuel) t

end Store

/-- Legalize a statement for a provider, in place. -/
def legalizeStatement (p : Provider) (t : StatementRef) : StoreM Unit := do
  StoreM.ofPair fun s => s.restructured p t
  modify fun s => (s.legalizeExpressions p t).finalizeAliases t

end SqlCompiler
