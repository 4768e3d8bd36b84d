import Mathlib.Algebra.Order.BigOperators.Group.List
import Mathlib.Algebra.Order.Ring.Nat
import SqlCompiler.Proofs.Columns.Pruning
import SqlCompiler.Proofs.Paging.Runs

/-!
# Dropping unused columns

The columns of subqueries that nothing reads are dropped, turn after turn: a column that goes may
have been the only reader of another one.  A turn looks at the columns that were read when it began,
changes one subquery after another, and either changes nothing, and then it was the last, or lowers
the number of columns that all queries select together.

What a turn leaves alone, later turns leave alone, since a statement comes to read fewer columns of
fewer queries only.

Main results:

- Definition `Store.ReadsColumn`: the columns a statement reads, anywhere in its queries.
- Definition `Store.PrunesTo`: turns until one changes nothing.
- Definition `Store.Drops`: how queries without some of their columns compare to what they were.
- Theorem `Store.PrunesTo.drops`: what turns drop.
- Theorem `Store.columns_pruneColumns`: the turns end; what is left of every query, and that nothing
  is left to drop.
-/

namespace SqlCompiler.Store

variable {s s' s'' : Store} {t : StatementRef} {q r : QueryRef} {c : ColumnRef}
  {used : List ColumnRef}

/-! ## Columns that are read -/

/-- A statement reads a column, in a query it leads to or outside of them. -/
def ReadsColumn (s : Store) (t : StatementRef) (c : ColumnRef) : Prop :=
  (∃ q, s.Reaches t q ∧ .column c ∈ s.walkQuery q) ∨ .column c ∈ (s.statement t).body.walk

theorem mem_columnsOf {scalars : List Scalar} : c ∈ columnsOf scalars ↔ .column c ∈ scalars := by
  rw [columnsOf, List.mem_filterMap]
  constructor
  · rintro ⟨e, he, hc⟩
    split at hc
    · cases hc
      exact he
    · cases hc
  · exact fun h => ⟨_, h, rfl⟩

theorem mem_usedColumns : c ∈ s.usedColumns t (s.statementQueries t) ↔ s.ReadsColumn t c := by
  simp only [usedColumns, ReadsColumn, List.mem_append, List.mem_flatMap, mem_columnsOf,
    mem_statementQueries]

/-- The subqueries that a turn looks at. -/
def readSubqueries (s : Store) (t : StatementRef) : List QueryRef :=
  (s.statementQueries t).flatMap fun q => (s.query q).subqueries

theorem mem_readSubqueries :
    q ∈ s.readSubqueries t ↔ ∃ r, s.Reaches t r ∧ q ∈ (s.query r).subqueries := by
  simp only [readSubqueries, List.mem_flatMap, mem_statementQueries]

theorem pruneOnce_eq_foldl (s : Store) (t : StatementRef) : s.pruneOnce t =
    (s.readSubqueries t).foldl (pruneQuery (s.usedColumns t (s.statementQueries t))) s := rfl

/-! ## Queries without some of their columns -/

/-- Queries without some of their columns.  The others stay in order. -/
structure Shortens (s s' : Store) : Prop where
  tables : s'.tables = s.tables
  fields : s'.fields = s.fields
  columns : s'.columns = s.columns
  statements : s'.statements = s.statements
  ctes : s'.ctes = s.ctes
  size : s'.queries.size = s.queries.size
  query : ∀ q, s'.query q = { s.query q with columns := (s'.query q).columns }
  sublist : ∀ q, ((s'.query q).columns).Sublist (s.query q).columns
  nonempty : ∀ q, (s.query q).columns ≠ [] → (s'.query q).columns ≠ []

theorem Shortens.refl (s : Store) : s.Shortens s :=
  ⟨rfl, rfl, rfl, rfl, rfl, rfl, fun _ => rfl, fun _ => List.Sublist.refl _, fun _ h => h⟩

theorem Shortens.trans (h : s.Shortens s') (h' : s'.Shortens s'') : s.Shortens s'' where
  tables := h'.tables.trans h.tables
  fields := h'.fields.trans h.fields
  columns := h'.columns.trans h.columns
  statements := h'.statements.trans h.statements
  ctes := h'.ctes.trans h.ctes
  size := h'.size.trans h.size
  query q := by rw [h'.query q, h.query q]
  sublist q := (h'.sublist q).trans (h.sublist q)
  nonempty q hq := h'.nonempty q (h.nonempty q hq)

namespace Shortens

variable (h : s.Shortens s')

include h

theorem subqueries (q : QueryRef) : (s'.query q).subqueries = (s.query q).subqueries := by
  rw [h.query q]
  rfl

/-- The scalars of a query with fewer columns are among its scalars. -/
theorem walkQuery_subset (q : QueryRef) : s'.walkQuery q ⊆ s.walkQuery q := by
  intro e he
  rw [← scalars_query, Query.mem_scalars, h.query q] at he
  rw [← scalars_query, Query.mem_scalars]
  refine he.imp_left ?_
  rintro ⟨x, hx, hin⟩
  obtain ⟨c, hc, rfl⟩ := List.mem_map.mp hx
  have hcolumn : s'.column c = s.column c := by rw [column, column, h.columns]
  exact ⟨_, List.mem_map_of_mem ((h.sublist q).subset hc), hcolumn ▸ hin⟩

/-- A statement leads to no other queries when columns are dropped. -/
theorem reaches (hq : s'.Reaches t q) : s.Reaches t q := by
  have hstatement : s'.statement t = s.statement t := by rw [statement, statement, h.statements]
  have hcte : ∀ c, s'.cte c = s.cte c := fun c => by rw [cte, cte, h.ctes]
  have hbody : s'.cteBody? = s.cteBody? := by
    funext source
    simp only [cteBody?, table, hcte, h.tables]
  refine hq.of_subset (fun r hr => ?_) fun p r hr => ?_
  · rw [hstatement] at hr
    simpa only [rootQueries, hcte] using hr
  · rcases List.mem_append.mp hr with hr | hr
    · exact List.mem_append_left _ (queriesOf_subset (h.walkQuery_subset p) hr)
    · rw [hbody, h.query p] at hr
      exact List.mem_append_right _ hr

/-- A statement reads no other columns when some are dropped. -/
theorem reads (hc : s'.ReadsColumn t c) : s.ReadsColumn t c := by
  rcases hc with ⟨q, hq, hc⟩ | hc
  · exact .inl ⟨q, h.reaches hq, h.walkQuery_subset q hc⟩
  · rw [statement, h.statements] at hc
    exact .inr hc

end Shortens

/-! ## One query -/

/-- What stays of the columns of a query: all of them, or those that are used, or the first. -/
theorem keptColumns_cases (s : Store) (used : List ColumnRef) (q : QueryRef) :
    (((s.query q).distinct = true ∨ (s.query q).hasSetOperators = true) ∧
        s.keptColumns used q = (s.query q).columns) ∨
      ((s.query q).columns.filter used.contains ≠ [] ∧
        s.keptColumns used q = (s.query q).columns.filter used.contains) ∨
      ((s.query q).columns.filter used.contains = [] ∧
        s.keptColumns used q = (s.query q).columns.take 1) := by
  unfold keptColumns
  dsimp only
  split_ifs with hall hnone
  · exact .inl ⟨Bool.or_eq_true_iff.mp hall, rfl⟩
  · exact .inr (.inr ⟨List.isEmpty_iff.mp hnone, rfl⟩)
  · exact .inr (.inl ⟨fun h => hnone (List.isEmpty_iff.mpr h), rfl⟩)

theorem sublist_keptColumns (s : Store) (used : List ColumnRef) (q : QueryRef) :
    (s.keptColumns used q).Sublist (s.query q).columns := by
  rcases keptColumns_cases s used q with ⟨-, h⟩ | ⟨-, h⟩ | ⟨-, h⟩ <;> rw [h]
  · exact List.filter_sublist
  · exact List.take_sublist 1 _

theorem keptColumns_ne_nil (h : (s.query q).columns ≠ []) : s.keptColumns used q ≠ [] := by
  rcases keptColumns_cases s used q with ⟨-, hall⟩ | ⟨hsome, hkept⟩ | ⟨-, hfirst⟩
  · rwa [hall]
  · rwa [hkept]
  · rw [hfirst]
    simpa using h

theorem shortens_modifyQuery {kept : List ColumnRef} (hsublist : kept.Sublist (s.query q).columns)
    (hnonempty : (s.query q).columns ≠ [] → kept ≠ []) :
    s.Shortens (s.modifyQuery q fun query => { query with columns := kept }) := by
  have hquery (r : QueryRef) := query_modifyQuery s q r fun query => { query with columns := kept }
  refine ⟨rfl, rfl, rfl, rfl, rfl, size_modifyQuery, fun r => ?_, fun r => ?_, fun r hr => ?_⟩
  · rcases hquery r with ⟨rfl, h⟩ | h <;> rw [h]
  · rcases hquery r with ⟨rfl, h⟩ | h <;> rw [h]
    exact hsublist
  · rcases hquery r with ⟨rfl, h⟩ | h <;> rw [h]
    · exact hnonempty hr
    · exact hr

theorem shortens_pruneQuery (used : List ColumnRef) (s : Store) (q : QueryRef) :
    s.Shortens (s.pruneQuery used q) := by
  unfold pruneQuery
  dsimp only
  split
  · exact shortens_modifyQuery (sublist_keptColumns s used q) keptColumns_ne_nil
  · exact .refl s

theorem query_pruneQuery_ne (h : r ≠ q) : (s.pruneQuery used q).query r = s.query r := by
  unfold pruneQuery
  dsimp only
  split
  · exact query_modifyQuery_ne h
  · rfl

/-- A query has the columns that stay. -/
theorem columns_pruneQuery (used : List ColumnRef) (s : Store) (q : QueryRef) :
    ((s.pruneQuery used q).query q).columns = s.keptColumns used q := by
  unfold pruneQuery
  dsimp only
  split
  · next hfewer =>
    have hsize : q.index < s.queries.size := by
      by_contra hle
      rw [query_of_le (Nat.le_of_not_lt hle)] at hfewer
      exact absurd hfewer (Nat.not_lt_zero _)
    rw [query_modifyQuery_self hsize]
  · next hall =>
    exact ((sublist_keptColumns s used q).eq_of_length_le (Nat.le_of_not_lt hall)).symm

/-! ## The number of columns -/

theorem selectedCount_eq_sum (s : Store) : s.selectedCount =
    ((List.range s.queries.size).map fun i => (s.query ⟨i⟩).columns.length).sum := by
  have hlist : s.queries.toList =
      (List.range s.queries.size).map fun i => s.query ⟨i⟩ := by
    refine List.ext_getElem (by simp) fun i hi hi' => ?_
    have hsize : i < s.queries.size := by simpa using hi
    simp [query, hsize]
  have hfold (items : List Query) (total : Nat) :
      items.foldl (fun total q => total + q.columns.length) total =
        total + (items.map fun q => q.columns.length).sum := by
    induction items generalizing total with
    | nil => simp
    | cons q rest ih => simp [ih, Nat.add_assoc]
  rw [selectedCount, ← Array.foldl_toList, hfold, Nat.zero_add, hlist, List.map_map]
  rfl

theorem Shortens.selectedCount_le (h : s.Shortens s') : s'.selectedCount ≤ s.selectedCount := by
  rw [selectedCount_eq_sum, selectedCount_eq_sum, h.size]
  exact List.sum_le_sum fun i _ => (h.sublist ⟨i⟩).length_le

/-- A query with fewer columns lowers the number of columns. -/
theorem Shortens.selectedCount_lt (h : s.Shortens s')
    (hq : (s'.query q).columns.length < (s.query q).columns.length) :
    s'.selectedCount < s.selectedCount := by
  have hsize : q.index < s.queries.size := by
    by_contra hle
    rw [query_of_le (Nat.le_of_not_lt hle)] at hq
    exact absurd hq (Nat.not_lt_zero _)
  rw [selectedCount_eq_sum, selectedCount_eq_sum, h.size]
  exact List.sum_lt_sum _ _ (fun i _ => (h.sublist ⟨i⟩).length_le)
    ⟨q.index, List.mem_range.mpr hsize, hq⟩

/-- Pruning a query changes nothing or lowers the number of columns. -/
theorem pruneQuery_eq_or_selectedCount_lt (used : List ColumnRef) (s : Store) (q : QueryRef) :
    s.pruneQuery used q = s ∨ (s.pruneQuery used q).selectedCount < s.selectedCount := by
  by_cases hfewer : (s.keptColumns used q).length < (s.query q).columns.length
  · refine .inr ((shortens_pruneQuery used s q).selectedCount_lt (q := q) ?_)
    rwa [columns_pruneQuery]
  · exact .inl (if_neg hfewer)

/-! ## One turn -/

/-- The columns of queries are dropped one query after another. -/
theorem shortens_foldl (used : List ColumnRef) (queries : List QueryRef) (s : Store) :
    s.Shortens (queries.foldl (pruneQuery used) s) := by
  induction queries generalizing s with
  | nil => exact .refl s
  | cons q rest ih => exact (shortens_pruneQuery used s q).trans (ih _)

theorem foldl_eq_or_selectedCount_lt (used : List ColumnRef) (queries : List QueryRef) (s : Store) :
    queries.foldl (pruneQuery used) s = s ∨
      (queries.foldl (pruneQuery used) s).selectedCount < s.selectedCount := by
  induction queries generalizing s with
  | nil => exact .inl rfl
  | cons q rest ih =>
    rw [List.foldl_cons]
    rcases pruneQuery_eq_or_selectedCount_lt used s q with hsame | hfewer
    · rw [hsame]
      exact ih s
    · exact .inr (Nat.lt_of_le_of_lt (shortens_foldl used rest _).selectedCount_le hfewer)

/-- If nothing changes in the end, no query loses columns on the way. -/
theorem pruneQuery_of_foldl_eq (used : List ColumnRef) {queries : List QueryRef}
    (h : queries.foldl (pruneQuery used) s = s) : ∀ q ∈ queries, s.pruneQuery used q = s := by
  induction queries with
  | nil => exact fun q hq => absurd hq List.not_mem_nil
  | cons q rest ih =>
    rw [List.foldl_cons] at h
    rcases pruneQuery_eq_or_selectedCount_lt used s q with hsame | hfewer
    · rw [hsame] at h
      exact List.forall_mem_cons.mpr ⟨hsame, ih h⟩
    · have hle := (shortens_foldl used rest (s.pruneQuery used q)).selectedCount_le
      rw [h] at hle
      omega

/-- `DISTINCT` and set operators keep all columns. -/
theorem query_pruneQuery_of_all (used : List ColumnRef) (r : QueryRef)
    (hall : (s.query q).distinct = true ∨ (s.query q).hasSetOperators = true) :
    (s.pruneQuery used r).query q = s.query q := by
  by_cases hr : q = r
  · subst hr
    have hkept : s.keptColumns used q = (s.query q).columns :=
      if_pos (Bool.or_eq_true_iff.mpr hall)
    rw [(shortens_pruneQuery used s q).query q, columns_pruneQuery, hkept]
  · exact query_pruneQuery_ne hr

theorem query_foldl_of_all (used : List ColumnRef) (queries : List QueryRef)
    (hall : (s.query q).distinct = true ∨ (s.query q).hasSetOperators = true) :
    (queries.foldl (pruneQuery used) s).query q = s.query q := by
  induction queries generalizing s with
  | nil => rfl
  | cons r rest ih =>
    have hstep := query_pruneQuery_of_all used r hall
    rw [List.foldl_cons, ih (by rwa [hstep]), hstep]

theorem query_foldl_of_not_mem (used : List ColumnRef) {queries : List QueryRef}
    (hq : q ∉ queries) : (queries.foldl (pruneQuery used) s).query q = s.query q := by
  induction queries generalizing s with
  | nil => rfl
  | cons r rest ih =>
    obtain ⟨hne, hrest⟩ := List.ne_and_not_mem_of_not_mem_cons hq
    rw [List.foldl_cons, ih hrest, query_pruneQuery_ne hne]

/-! ## What is dropped -/

/-- A store whose queries are without some of their columns, none of which a statement reads. -/
structure Drops (s : Store) (t : StatementRef) (s' : Store) : Prop extends s.Shortens s' where
  /-- Queries that need all columns stay as they are. -/
  all : ∀ q, ((s.query q).distinct = true ∨ (s.query q).hasSetOperators = true) →
    s'.query q = s.query q
  /-- Queries that are no source of a query of the statement stay as they are. -/
  apart : ∀ q, (∀ r, s.Reaches t r → q ∉ (s.query r).subqueries) → s'.query q = s.query q
  /-- What is dropped is not read. -/
  unread : ∀ q, ∀ c ∈ (s.query q).columns, c ∉ (s'.query q).columns → ¬ s'.ReadsColumn t c

theorem Drops.refl (s : Store) (t : StatementRef) : s.Drops t s :=
  ⟨.refl s, fun _ _ => rfl, fun _ _ => rfl, fun _ _ hc hnot => absurd hc hnot⟩

theorem Drops.trans (h : s.Drops t s') (h' : s'.Drops t s'') : s.Drops t s'' where
  toShortens := h.toShortens.trans h'.toShortens
  all q hq := by
    rw [h'.all q (by rwa [h.all q hq]), h.all q hq]
  apart q hq := by
    rw [h'.apart q fun r hr => ?_, h.apart q hq]
    rw [h.toShortens.subqueries]
    exact hq r (h.toShortens.reaches hr)
  unread q c hc hnot hread := by
    by_cases hc' : c ∈ (s'.query q).columns
    · exact h'.unread q c hc' hnot hread
    · exact h.unread q c hc hc' (h'.toShortens.reads hread)

/-- A turn drops columns that nothing reads. -/
theorem drops_pruneOnce (s : Store) (t : StatementRef) : s.Drops t (s.pruneOnce t) where
  toShortens := shortens_foldl _ _ s
  all q hq := query_foldl_of_all _ (s.readSubqueries t) hq
  apart q hq := by
    refine query_foldl_of_not_mem _ fun hmem => ?_
    obtain ⟨r, hr, hread⟩ := mem_readSubqueries.mp hmem
    exact hq r hr hread
  unread q c hc hnot hread := by
    have hshorter : s.Shortens (s.pruneOnce t) := shortens_foldl _ _ s
    have hused := mem_usedColumns.mpr (hshorter.reads hread)
    exact hnot (((trims_pruneOnce s t).query q).keeps c hc hused)

/-- A turn changes nothing or lowers the number of columns. -/
theorem pruneOnce_eq_or_selectedCount_lt (s : Store) (t : StatementRef) :
    s.pruneOnce t = s ∨ (s.pruneOnce t).selectedCount < s.selectedCount := by
  rw [pruneOnce_eq_foldl]
  exact foldl_eq_or_selectedCount_lt _ _ s

/-- When a turn changes nothing, the statement reads all columns of a subquery, or there is only
one. -/
theorem reads_of_pruneOnce_eq (h : s.pruneOnce t = s) (hr : s.Reaches t r)
    (hq : q ∈ (s.query r).subqueries) (hdistinct : (s.query q).distinct = false)
    (hoperators : (s.query q).hasSetOperators = false) :
    (∀ c ∈ (s.query q).columns, s.ReadsColumn t c) ∨ (s.query q).columns.length ≤ 1 := by
  have hsame := pruneQuery_of_foldl_eq _ h q (mem_readSubqueries.mpr ⟨r, hr, hq⟩)
  have hkept := columns_pruneQuery (s.usedColumns t (s.statementQueries t)) s q
  rw [hsame] at hkept
  rcases keptColumns_cases s (s.usedColumns t (s.statementQueries t)) q with
    ⟨hall, -⟩ | ⟨-, hused⟩ | ⟨-, hfirst⟩
  · simp [hdistinct, hoperators] at hall
  · left
    intro c hc
    rw [hkept, hused] at hc
    exact mem_usedColumns.mp (List.contains_iff_mem.mp (List.mem_filter.mp hc).2)
  · right
    rw [hkept, hfirst, List.length_take]
    exact Nat.min_le_left 1 _

/-! ## All turns -/

/-- Turns are made until one changes nothing. -/
inductive PrunesTo (t : StatementRef) : Store → Store → Prop where
  | done {s : Store} (h : s.pruneOnce t = s) : PrunesTo t s s
  | turn {s s' : Store} (hfewer : (s.pruneOnce t).selectedCount < s.selectedCount)
      (hrest : PrunesTo t (s.pruneOnce t) s') : PrunesTo t s s'

/-- Every turn but the last lowers the number of columns, so that as many turns are enough. -/
theorem prunesTo_pruneWithin (fuel : Nat) (hfuel : s.selectedCount < fuel) :
    PrunesTo t s (pruneWithin fuel s t) := by
  induction fuel generalizing s with
  | zero => exact absurd hfuel (Nat.not_lt_zero _)
  | succ fuel ih =>
    rw [pruneWithin]
    by_cases hfewer : (s.pruneOnce t).selectedCount < s.selectedCount
    · rw [if_pos hfewer]
      exact .turn hfewer (ih (by omega))
    · have hsame := (pruneOnce_eq_or_selectedCount_lt s t).resolve_right hfewer
      rw [if_neg hfewer, hsame]
      exact .done hsame

theorem PrunesTo.drops (h : PrunesTo t s s') : s.Drops t s' := by
  induction h with
  | done => exact .refl _ t
  | turn _ _ ih => exact (drops_pruneOnce _ t).trans ih

/-- The last turn changes nothing. -/
theorem PrunesTo.pruneOnce_eq (h : PrunesTo t s s') : s'.pruneOnce t = s' := by
  induction h with
  | done h => exact h
  | turn _ _ ih => exact ih

theorem pruneColumns_of_pruneOnce_eq (h : s.pruneOnce t = s) : s.pruneColumns t = s := by
  rw [pruneColumns, pruneWithin, h]
  exact if_neg (Nat.lt_irrefl _)

/-- Dropping the columns that nothing reads comes to an end.  What is dropped is not read by what is
left, and only subqueries lose columns, which are neither distinct nor have set operators.  Of the
columns that such a subquery still has, all are read, or there is only one, so that nothing is left
to drop. -/
theorem columns_pruneColumns (s : Store) (t : StatementRef) :
    PrunesTo t s (s.pruneColumns t) ∧ s.Drops t (s.pruneColumns t) ∧
      (∀ r, (s.pruneColumns t).Reaches t r → ∀ q ∈ ((s.pruneColumns t).query r).subqueries,
        (s.query q).distinct = false → (s.query q).hasSetOperators = false →
          (∀ c ∈ ((s.pruneColumns t).query q).columns, (s.pruneColumns t).ReadsColumn t c) ∨
            ((s.pruneColumns t).query q).columns.length ≤ 1) ∧
      (s.pruneColumns t).pruneColumns t = s.pruneColumns t := by
  have hturns : PrunesTo t s (s.pruneColumns t) := prunesTo_pruneWithin _ (Nat.lt_succ_self _)
  have hdrops := hturns.drops
  have hlast := hturns.pruneOnce_eq
  refine ⟨hturns, hdrops, fun r hr q hq hdistinct hoperators => ?_,
    pruneColumns_of_pruneOnce_eq hlast⟩
  refine reads_of_pruneOnce_eq hlast hr hq ?_ ?_
  · rwa [hdrops.query q]
  · rw [hdrops.query q]
    exact hoperators

end SqlCompiler.Store
