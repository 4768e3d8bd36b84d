import SqlCompiler.Store.Reach

/-!
# Paging

Queries whose paging a dialect cannot express are split into a query over a subquery.

Main definitions:

- `Store.wrapBody`: move the body of a query into a subquery it then selects from.
- `Store.separateDistinct`: page over a subquery with the distinct rows.
- `Store.numberRows`: page by a row number computed in a subquery.
-/

namespace SqlCompiler

/-- The alias of the row number. -/
def rowNumberAlias : String := "RN"

namespace Store

/-- Add a copy of a column to a query, and let the column read the copy. -/
def moveColumn (s : Store) (inner : QueryRef) (c : ColumnRef) : Store :=
  let column := s.column c
  let (copy, s) := s.addFreshColumn inner column.expression column.aliasName
  s.modifyColumn c fun column => { column with expression := .column copy }

/-- Move the body of a query into a new subquery, its only source.

The columns of the query stay, since enclosing queries refer to them, and now read the
matching columns of the subquery.  The ordering stays as it is, in terms of the moved body. -/
def wrapBody (s : Store) (q : QueryRef) : QueryRef × Store :=
  let (inner, s) := s.addQuery (some q)
  let outer := s.query q
  let s := s.modifyQuery q fun query =>
    { query with
      sources := [], whereClause := .empty, grouping := {}, having := .empty, distinct := false }
  let s := s.modifyQuery inner fun query =>
    { query with
      sources := outer.sources
      whereClause := outer.whereClause
      grouping := outer.grouping
      having := outer.having
      distinct := outer.distinct }
  let s := outer.columns.foldl (fun s c => s.moveColumn inner c) s
  (inner, s.modifyQuery q fun query =>
    { query with sources := query.sources ++ [.ofQuery inner] })

/-- Order items that read the columns of a subquery, added where they are missing. -/
def projectOrder (s : Store) (inner : QueryRef) : List OrderItem → List OrderItem × Store
  | [] => ([], s)
  | item :: rest =>
    let (column, s) := s.addColumn inner item.expression none
    let (items, s) := s.projectOrder inner rest
    ({ item with expression := .column column } :: items, s)

/-- Page over a subquery with the distinct rows. -/
def separateDistinctOf (s : Store) (q : QueryRef) : Store :=
  let (inner, s) := s.wrapBody q
  let items := (s.query q).orderBy
  let s := s.modifyQuery q fun query => { query with orderBy := [] }
  let (orderBy, s) := s.projectOrder inner items
  s.modifyQuery q fun query => { query with orderBy }

/-- The queries of a statement that satisfy a test. -/
def matchingQueries (s : Store) (t : StatementRef) (test : Query → Bool) : List QueryRef :=
  (s.statementQueries t).filter fun q => test (s.query q)

/-- Separate paging from `DISTINCT` in every query of a statement that has both. -/
def separateDistinct (s : Store) (t : StatementRef) : Store :=
  (s.matchingQueries t fun q => q.distinct && q.hasPagination).foldl separateDistinctOf s

/-- A placeholder for the argument of that number. -/
def placeholder (index : Nat) : String :=
  "\x7b" ++ toString index ++ "\x7d"

/-- The number of a row under an ordering. -/
def rowNumber (orderBy : List OrderItem) : Scalar :=
  let items := orderBy.zipIdx.map fun (item, i) =>
    placeholder i ++ (if item.descending then " DESC" else "")
  let ordering := if orderBy.isEmpty then "" else "ORDER BY " ++ ", ".intercalate items
  .raw ("ROW_NUMBER() OVER (" ++ ordering ++ ")") (orderBy.map (·.expression)) .int64 .primary

/-- The window of row numbers that a limit and an offset cut out. -/
def rowWindow (number : Scalar) (take skip : Option Scalar) : Condition :=
  let above (skip : Scalar) := Predicate.comparison number .greater skip
  let upTo (last : Scalar) := Predicate.comparison number .lessOrEqual last
  match skip, take with
  | some skip, some take =>
    (Condition.empty.conjoin (above skip)).conjoin (upTo (.binary skip .add take .int64))
  | some skip, none => Condition.empty.conjoin (above skip)
  | none, some take => Condition.empty.conjoin (upTo take)
  | none, none => .empty

/-- Page by a row number computed in a subquery.  The ordering moves into the row number, and
the query is ordered by that. -/
def numberRowsOf (s : Store) (q : QueryRef) : Store :=
  let (inner, s) := s.wrapBody q
  let query := s.query q
  let (column, s) := s.addFreshColumn inner (rowNumber query.orderBy) (some rowNumberAlias)
  let number : Scalar := .column column
  s.modifyQuery q fun query =>
    { query with
      take := none
      skip := none
      takeHints := none
      whereClause := rowWindow number query.take query.skip
      orderBy := [⟨number, false⟩] }

/-- Page by row numbers in every query of a statement without set operators; with `onlySkip`
a bare limit stays. -/
def numberRows (s : Store) (t : StatementRef) (onlySkip : Bool) : Store :=
  (s.matchingQueries t fun q =>
    q.hasPagination && !q.hasSetOperators && (!onlySkip || q.skip.isSome)).foldl numberRowsOf s

end Store

end SqlCompiler
