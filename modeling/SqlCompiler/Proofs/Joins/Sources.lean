import SqlCompiler.Proofs.Semantics.Rows
import SqlCompiler.Render.Select

/-!
# Rows of joined sources

A join pairs the rows of two lists that match, and keeps the rows without a match of the sides it
preserves, next to an absent row.  In the `FROM` clause of a query each source gives rows, and the
sources joined to it are joined one after the other, on conditions that may refer to everything that
stands before them.  A source that has no row in a joined row has only absent values there.

Main results:

- Definition `joinRows`: the rows of a join.
- Theorem `joinRows_map`: a join of rows that are seen through functions.
- Theorem `joinRows_filter`: where the rows of the right side need not be kept, both sides may be
  filtered before the join or after it.
- Definition `Source.rows`, `Query.rowsFrom`: the rows of a source with its joins, and of a query.
- Theorem `Source.rows_join`: the rows of two tables that are joined.
- Theorem `printSources_asPrinted`: the condition of an `APPLY` is not printed.
- Definition `Query.printedRows`: the rows of a query with the joins that are printed.
-/

namespace SqlCompiler

/-! ## Rows of a join -/

namespace JoinKind

/-- Whether a row of the left side is kept if nothing matches it. -/
def keepsLeft : JoinKind → Bool
  | left | full | outerApply => true
  | inner | right | crossApply => false

/-- Whether a row of the right side is kept if nothing matches it. -/
def keepsRight : JoinKind → Bool
  | right | full => true
  | inner | left | crossApply | outerApply => false

/-- Whether the right side is computed for each row of the left side.  Such a join has no
condition of its own. -/
def isApply : JoinKind → Bool
  | crossApply | outerApply => true
  | inner | left | right | full => false

end JoinKind

section

variable {α β : Type}

/-- A row of the left side with its matches. -/
def matchedRows (kind : JoinKind) (test : α → β → Bool) (right : List β) (a : α) :
    List (Option α × Option β) :=
  let found := right.filter (test a)
  if found.isEmpty && kind.keepsLeft then [(some a, none)]
  else found.map fun b => (some a, some b)

/-- The rows of the right side without a match. -/
def unmatchedRows (kind : JoinKind) (test : α → β → Bool) (left : List α) (right : List β) :
    List (Option α × Option β) :=
  if kind.keepsRight then
    (right.filter fun b => !left.any fun a => test a b).map fun b => (none, some b)
  else []

/-- The rows of a join: each row of the left side with its matches, then the rows of the right
side without a match. -/
def joinRows (kind : JoinKind) (test : α → β → Bool) (left : List α) (right : List β) :
    List (Option α × Option β) :=
  left.flatMap (matchedRows kind test right) ++ unmatchedRows kind test left right

/-! ## Rows seen through functions -/

section

variable {α' β' : Type} (f : α → α') (g : β → β')

/-- A pair of rows seen through functions. -/
def mapPair (row : Option α × Option β) : Option α' × Option β' := (row.1.map f, row.2.map g)

theorem matchedRows_map (kind : JoinKind) (test : α' → β' → Bool) (right : List β) (a : α) :
    matchedRows kind test (right.map g) (f a) =
      (matchedRows kind (fun a b => test (f a) (g b)) right a).map (mapPair f g) := by
  have hfound : (right.map g).filter (test (f a)) =
      (right.filter fun b => test (f a) (g b)).map g := List.filter_map
  unfold matchedRows
  rw [hfound]
  simp only [List.isEmpty_map]
  split
  · rfl
  · rw [List.map_map, List.map_map]
    rfl

theorem unmatchedRows_map (kind : JoinKind) (test : α' → β' → Bool) (left : List α)
    (right : List β) :
    unmatchedRows kind test (left.map f) (right.map g) =
      (unmatchedRows kind (fun a b => test (f a) (g b)) left right).map (mapPair f g) := by
  unfold unmatchedRows
  split
  · rw [List.filter_map, List.map_map, List.map_map]
    simp only [Function.comp_def, List.any_map]
    rfl
  · rfl

/-- A join of rows that are seen through functions. -/
theorem joinRows_map (kind : JoinKind) (test : α' → β' → Bool) (left : List α) (right : List β) :
    joinRows kind test (left.map f) (right.map g) =
      (joinRows kind (fun a b => test (f a) (g b)) left right).map (mapPair f g) := by
  rw [joinRows, joinRows, List.map_append, unmatchedRows_map, List.flatMap_map, List.map_flatMap]
  simp only [matchedRows_map]

end

/-! ## Filters before and after a join -/

variable {kind : JoinKind}

/-- A filter of the right side may be a part of what is matched. -/
theorem matchedRows_filter (kind : JoinKind) (test : α → β → Bool) (keep : β → Bool)
    (right : List β) (a : α) :
    matchedRows kind test (right.filter keep) a =
      matchedRows kind (fun a b => test a b && keep b) right a := by
  unfold matchedRows
  rw [List.filter_filter]

/-- Every row that is made of a row of the left side has that row. -/
theorem fst_of_mem_matchedRows {test : α → β → Bool} {right : List β} {a : α}
    {row : Option α × Option β} (h : row ∈ matchedRows kind test right a) : row.1 = some a := by
  unfold matchedRows at h
  dsimp only at h
  split at h
  · rw [List.mem_singleton.mp h]
  · obtain ⟨b, -, rfl⟩ := List.mem_map.mp h
    rfl

/-- Where rows of the right side are not kept, both sides may be filtered before the join, or the
left side after it and the right side as a part of what is matched. -/
theorem joinRows_filter (hkind : kind.keepsRight = false) (test : α → β → Bool)
    (keepLeft : Option α → Bool) (keepRight : β → Bool) (left : List α) (right : List β) :
    (joinRows kind (fun a b => test a b && keepRight b) left right).filter
        (fun row => keepLeft row.1) =
      joinRows kind test (left.filter fun a => keepLeft (some a)) (right.filter keepRight) := by
  have hnone : ∀ (test : α → β → Bool) left right, unmatchedRows kind test left right = [] :=
    fun test left right => by rw [unmatchedRows, hkind, if_neg Bool.false_ne_true]
  rw [joinRows, joinRows, hnone, hnone, List.append_nil, List.append_nil]
  induction left with
  | nil => rfl
  | cons a rest ih =>
    rw [List.flatMap_cons, List.filter_append, ih]
    cases ha : keepLeft (some a) with
    | true =>
      have hall : (matchedRows kind (fun a b => test a b && keepRight b) right a).filter
          (fun row => keepLeft row.1) =
            matchedRows kind (fun a b => test a b && keepRight b) right a :=
        List.filter_eq_self.mpr fun row hrow => by rw [fst_of_mem_matchedRows hrow, ha]
      have hkept : (a :: rest).filter (fun a => keepLeft (some a)) =
          a :: rest.filter fun a => keepLeft (some a) := List.filter_cons_of_pos ha
      rw [hall, hkept, List.flatMap_cons, matchedRows_filter]
    | false =>
      have hempty : (matchedRows kind (fun a b => test a b && keepRight b) right a).filter
          (fun row => keepLeft row.1) = [] :=
        List.filter_eq_nil_iff.mpr fun row hrow => by
          rw [fst_of_mem_matchedRows hrow, ha]
          exact Bool.false_ne_true
      have hdropped : (a :: rest).filter (fun a => keepLeft (some a)) =
          rest.filter fun a => keepLeft (some a) := List.filter_cons_of_neg (by simp [ha])
      rw [hempty, hdropped, List.nil_append]

end

/-! ## Joined rows -/

/-- The rows of some sources next to each other; that of a preserved row's partner is absent. -/
abbrev JoinedRow (V : Type) := List (SourceItem × Option (Env V))

section

variable {V : Type} (I : Interpretation V) (s : Store)

/-- Whether a field is one of a source. -/
def Store.hasField (f : FieldRef) : SourceItem → Bool
  | .table t => (s.table t).fields.contains f
  | .query _ => false

/-- Whether a column is one of a source. -/
def Store.hasColumn (c : ColumnRef) : SourceItem → Bool
  | .table _ => false
  | .query q => (s.query q).columns.contains c

/-- What a row of a source says of something the source has. -/
def valueAt (read : Env V → V) : Option (SourceItem × Option (Env V)) → V
  | some (_, some ρ) => read ρ
  | some (_, none) => I.constant .null
  | none => I.unknown

/-- What can be referred to on a joined row. -/
def JoinedRow.env (row : JoinedRow V) : Env V where
  field f := valueAt I (fun ρ => ρ.field f) (row.find? fun entry => s.hasField f entry.1)
  column c := valueAt I (fun ρ => ρ.column c) (row.find? fun entry => s.hasColumn c entry.1)

/-- Sources without a row. -/
def absentRow (items : List SourceItem) : JoinedRow V := items.map fun item => (item, none)

variable (read : SourceItem → List (Env V))

mutual

/-- The rows of a source and of the sources joined to it, given those of tables and queries. -/
def Source.rows : Source → List (JoinedRow V)
  | ⟨item, _, joins⟩ => rowsOfJoins joins [item] ((read item).map fun ρ => [(item, some ρ)])
termination_by structural source => source

/-- The rows of a join to rows of some sources. -/
def Join.rows (items : List SourceItem) (rows : List (JoinedRow V)) : Join → List (JoinedRow V)
  | ⟨kind, source, condition⟩ =>
    let test (left right : JoinedRow V) : Bool :=
      condition.truth I (JoinedRow.env I s (left ++ right)) == some true
    (joinRows kind test rows source.rows).map fun (left, right) =>
      left.getD (absentRow items) ++ right.getD (absentRow (source.all.map (·.item)))
termination_by structural join => join

/-- The rows of some joins, one after the other. -/
def rowsOfJoins : List Join → List SourceItem → List (JoinedRow V) → List (JoinedRow V)
  | [], _, rows => rows
  | join :: rest, items, rows =>
    rowsOfJoins rest (items ++ (Source.ofJoin join).map (·.item)) (join.rows items rows)
termination_by structural joins => joins

end

end

/-- The rows of the `FROM` clause of a query: every choice of a row of each source. -/
def Query.rowsFrom {V : Type} (I : Interpretation V) (s : Store)
    (read : SourceItem → List (Env V)) (q : Query) : List (Env V) :=
  (q.sources.foldl (fun rows source =>
    rows.flatMap fun row => (source.rows I s read).map fun more => row ++ more) [[]]).map
      (JoinedRow.env I s)

/-- The rows of tables, by the names of their columns, and of nested queries. -/
def Store.readItem {V : Type} (I : Interpretation V) (s : Store) (db : Database V)
    (nested : QueryRef → List (Env V)) : SourceItem → List (Env V)
  | .table t => (db (s.table t).name).map (s.tableEnv I t)
  | .query q => (nested q).map (s.queryEnv I q)

section

variable {V : Type} {I : Interpretation V} {s : Store} {read : SourceItem → List (Env V)}

theorem Query.rowsFrom_single {q : Query} {source : Source} (h : q.sources = [source]) :
    q.rowsFrom I s read = (source.rows I s read).map (JoinedRow.env I s) := by
  rw [Query.rowsFrom, h]
  simp

/-- The rows of two items that are joined. -/
theorem Source.rows_join (left right : SourceItem) (aliasName aliasName' : Option String)
    (kind : JoinKind) (condition : Condition) :
    Source.rows I s read ⟨left, aliasName, [⟨kind, ⟨right, aliasName', []⟩, condition⟩]⟩ =
      (joinRows kind (fun ρ ρ' =>
          condition.truth I (JoinedRow.env I s [(left, some ρ), (right, some ρ')]) == some true)
        (read left) (read right)).map fun row => [(left, row.1), (right, row.2)] := by
  rw [Source.rows, rowsOfJoins, rowsOfJoins, Join.rows, Source.rows, rowsOfJoins]
  dsimp only
  rw [joinRows_map, List.map_map]
  refine List.map_congr_left fun row _ => ?_
  obtain ⟨_ | ρ, _ | ρ'⟩ := row <;> rfl

end

/-! ## What is printed -/

mutual

/-- A source without the conditions of the joins that are printed without one. -/
def Source.asPrinted : Source → Source
  | ⟨item, aliasName, joins⟩ => ⟨item, aliasName, printedJoins joins⟩
termination_by structural source => source

/-- A join without its condition if none is printed. -/
def Join.asPrinted : Join → Join
  | ⟨kind, source, condition⟩ =>
    ⟨kind, source.asPrinted, if kind.isApply then .empty else condition⟩
termination_by structural join => join

/-- Joins without the conditions that are not printed. -/
def printedJoins : List Join → List Join
  | [] => []
  | join :: rest => join.asPrinted :: printedJoins rest
termination_by structural joins => joins

end

mutual

theorem Source.print_asPrinted (next : NextLevel) (source : Source) :
    source.asPrinted.print next = source.print next := by
  obtain ⟨item, aliasName, joins⟩ := source
  rw [Source.asPrinted, Source.print, Source.print, printJoins_printed next joins]
termination_by structural source

theorem Join.print_asPrinted (next : NextLevel) (join : Join) :
    join.asPrinted.print next = join.print next := by
  obtain ⟨kind, source, condition⟩ := join
  rw [Join.asPrinted, Join.print, Join.print, Source.print_asPrinted next source]
  cases kind <;> rfl
termination_by structural join

theorem printJoins_printed (next : NextLevel) (joins : List Join) :
    printJoins next (printedJoins joins) = printJoins next joins := by
  cases joins with
  | nil => rfl
  | cons join rest =>
    rw [printedJoins, printJoins, printJoins, Join.print_asPrinted next join,
      printJoins_printed next rest]
termination_by structural joins

end

/-- The condition of an `APPLY` is not printed. -/
theorem printSources_asPrinted (next : NextLevel) (sources : List Source) :
    printSources next (sources.map Source.asPrinted) = printSources next sources := by
  rw [printSources, printSources, List.map_map]
  exact congrArg _ (List.map_congr_left fun source _ => source.print_asPrinted next)

/-- A query with the joins that are printed. -/
def Query.withPrintedJoins (q : Query) : Query :=
  { q with sources := q.sources.map Source.asPrinted }

/-- The rows of a query as it is printed. -/
def Query.printedRows {V : Type} [DecidableEq V] (I : Interpretation V) (s : Store)
    (read : SourceItem → List (Env V)) (q : Query) : List (Env V) :=
  q.withPrintedJoins.rowsOf I s (q.withPrintedJoins.rowsFrom I s read)

/-- A query is printed as the one with the joins that are printed. -/
theorem printQueryBody_withPrintedJoins (next : NextLevel) (q : Query) :
    printQueryBody next q.withPrintedJoins = printQueryBody next q := by
  have hfrom : printFrom next q.withPrintedJoins = printFrom next q := by
    rw [printFrom, printFrom, Query.withPrintedJoins, List.isEmpty_map, printSources_asPrinted]
  rw [printQueryBody, hfrom]
  rfl

end SqlCompiler
