import SqlCompiler.Proofs.Semantics.Rows

/-!
# Stores that grow

Lowering changes the query it is working on, and adds to the store.  The rows of a query depend
only on the queries it reads, all of which are older, and on their columns.

Main results:

- Definition `Store.Ordered`: queries read older queries and tables that are there, and own their
  columns.
- Theorem `Store.Yields.rebase`: a query with other clauses has rows made of the same source rows.
- Definition `Store.Grows`: columns were added to one query.
- Theorem `Store.Grows.yields`: added columns leave the rows of a query alone.
-/

namespace SqlCompiler

namespace Store

variable {s s' s'' : Store} {q r : QueryRef} {f : Query → Query}

/-- A table whose fields are there. -/
structure HasTable (s : Store) (t : TableRef) : Prop where
  table : t.index < s.tables.size
  field : ∀ f ∈ (s.table t).fields, f.index < s.fields.size

theorem HasTable.congr {t : TableRef} (h : s.HasTable t) (htables : s'.tables = s.tables)
    (hfields : s'.fields = s.fields) : s'.HasTable t := by
  have htable : s'.table t = s.table t := by
    unfold Store.table
    rw [htables]
  exact ⟨htables ▸ h.table, by rw [htable, hfields]; exact h.field⟩

/-- Queries read older queries and tables that are there, and own their columns. -/
structure Ordered (s : Store) : Prop where
  source : ∀ (q : QueryRef) (source : Source), source ∈ (s.query q).sources →
    ∀ inner, source.query? = some inner → inner.index < q.index
  table : ∀ (q : QueryRef) (source : Source), source ∈ (s.query q).sources →
    ∀ t, source.table? = some t → s.HasTable t
  column : ∀ (q : QueryRef) (c : ColumnRef), c ∈ (s.query q).columns →
    c.index < s.columns.size ∧ (s.column c).parent = q

/-- Two stores agree on what is older than a query. -/
structure AgreesBelow (s s' : Store) (q : QueryRef) : Prop where
  tables : s'.tables = s.tables
  fields : s'.fields = s.fields
  query : ∀ r : QueryRef, r.index < q.index → s'.query r = s.query r
  column : ∀ c : ColumnRef, c.index < s.columns.size → s'.column c = s.column c

theorem AgreesBelow.of_le (h : s.AgreesBelow s' q) (hle : r.index ≤ q.index) :
    s.AgreesBelow s' r where
  tables := h.tables
  fields := h.fields
  query t ht := h.query t (by omega)
  column := h.column

/-! ## Rows of a changed query -/

theorem queryEnv_congr {V : Type} {I : Interpretation V} (hordered : s.Ordered) (hquery : s'.query r = s.query r)
    (hcolumn : ∀ c : ColumnRef, c.index < s.columns.size → s'.column c = s.column c) (ρ : Env V) :
    s'.queryEnv I r ρ = s.queryEnv I r ρ := by
  unfold queryEnv
  congr 1
  funext c
  rw [hquery]
  by_cases hc : c ∈ (s.query r).columns
  · rw [if_pos hc, if_pos hc, hcolumn c (hordered.column r c hc).1]
  · rw [if_neg hc, if_neg hc]

section

variable {V : Type} [DecidableEq V] {I : Interpretation V} {db : Database V}
  {rows : List (Env V)}

/-- The clauses of a query give the same rows where its columns are the same. -/
theorem rowsOf_congr {query : Query}
    (h : ∀ c ∈ query.columns, (s'.column c).expression = (s.column c).expression) :
    query.rowsOf I s' rows = query.rowsOf I s rows := by
  have htuple : ∀ ρ, s'.tuple I query ρ = s.tuple I query ρ := fun ρ =>
    List.map_congr_left fun c hc => by rw [h c hc]
  unfold Query.rowsOf
  rw [show s'.tuple I query = s.tuple I query from funext htuple]

/-- A query is made of source rows.  In a store that agrees below it, a query with the same
sources is made of the same source rows. -/
theorem Yields.rebase (hordered : s.Ordered) (h : s.Yields I db q rows) :
    ∃ base, rows = (s.query q).rowsOf I s base ∧
      ∀ s', s.AgreesBelow s' q → (s'.query q).sources = (s.query q).sources →
        (s'.query q).IsPlain → s'.Yields I db q ((s'.query q).rowsOf I s' base) := by
  induction h with
  | @table q t aliasName hsources hplain =>
    refine ⟨_, rfl, fun s' hagrees hsame hplain' => ?_⟩
    have htable : s'.table t = s.table t := by
      unfold Store.table
      rw [hagrees.tables]
    have hfield : s'.field = s.field := by
      funext f
      unfold Store.field
      rw [hagrees.fields]
    have henv : s'.tableEnv I t = s.tableEnv I t := by
      unfold tableEnv
      rw [htable, hfield]
    rw [← henv, ← htable]
    exact .table (hsame.trans hsources) hplain'
  | @query q inner aliasName rows hsources hplain hinner ih =>
    refine ⟨_, rfl, fun s' hagrees hsame hplain' => ?_⟩
    have hbelow : inner.index < q.index :=
      hordered.source q _ (by rw [hsources]; exact List.mem_singleton_self _) inner rfl
    have hquery : s'.query inner = s.query inner := hagrees.query inner hbelow
    obtain ⟨base, hbase, hrebase⟩ := ih
    have hplain'' : (s'.query inner).IsPlain := by
      rw [hquery]
      cases hinner <;> assumption
    have hrows := hrebase s' (hagrees.of_le (Nat.le_of_lt hbelow)) (by rw [hquery]) hplain''
    rw [hquery, rowsOf_congr (s := s), ← hbase] at hrows
    · have henv : s'.queryEnv I inner = s.queryEnv I inner :=
        funext fun ρ => queryEnv_congr hordered hquery hagrees.column ρ
      rw [← henv]
      exact .query (hsame.trans hsources) hplain' hrows
    · intro c hc
      rw [hagrees.column c (hordered.column inner c hc).1]

end

/-! ## Added columns -/

/-- Columns were added to a query, whose expressions have a property. -/
structure Grows (E : Scalar → Prop) (q : QueryRef) (s s' : Store) : Prop where
  tables : s'.tables = s.tables
  fields : s'.fields = s.fields
  size : s'.queries.size = s.queries.size
  query : ∀ r, r ≠ q → s'.query r = s.query r
  column : ∀ c : ColumnRef, c.index < s.columns.size → s'.column c = s.column c
  columns : s.columns.size ≤ s'.columns.size
  added : ∃ new, s'.query q = { s.query q with columns := (s.query q).columns ++ new } ∧
    ∀ c ∈ new, c.index < s'.columns.size ∧ (s'.column c).parent = q ∧
      E (s'.column c).expression
  owned : ∀ c : ColumnRef, s.columns.size ≤ c.index → c.index < s'.columns.size →
    (s'.column c).parent = q ∧ c ∈ (s'.query q).columns

variable {E : Scalar → Prop}

theorem Grows.refl (E : Scalar → Prop) (q : QueryRef) (s : Store) : s.Grows E q s where
  tables := rfl
  fields := rfl
  size := rfl
  query _ _ := rfl
  column _ _ := rfl
  columns := Nat.le_refl _
  added := ⟨[], by simp, by simp⟩
  owned _ hle hlt := absurd hlt (Nat.not_lt_of_le hle)

theorem Grows.trans (h : Grows E q s s') (h' : Grows E q s' s'') : Grows E q s s'' where
  tables := h'.tables.trans h.tables
  fields := h'.fields.trans h.fields
  size := h'.size.trans h.size
  query r hr := (h'.query r hr).trans (h.query r hr)
  column c hc := (h'.column c (Nat.lt_of_lt_of_le hc h.columns)).trans (h.column c hc)
  columns := Nat.le_trans h.columns h'.columns
  added := by
    obtain ⟨new, hquery, hnew⟩ := h.added
    obtain ⟨new', hquery', hnew'⟩ := h'.added
    refine ⟨new ++ new', ?_, fun c hc => ?_⟩
    · rw [hquery', hquery, List.append_assoc]
    · rcases List.mem_append.mp hc with hc | hc
      · obtain ⟨hindex, hparent, hexpression⟩ := hnew c hc
        rw [h'.column c hindex]
        exact ⟨Nat.lt_of_lt_of_le hindex h'.columns, hparent, hexpression⟩
      · exact hnew' c hc
  owned c hle hlt := by
    by_cases hc : c.index < s'.columns.size
    · obtain ⟨new', hquery', -⟩ := h'.added
      obtain ⟨hparent, hmem⟩ := h.owned c hle hc
      rw [h'.column c hc, hquery']
      exact ⟨hparent, List.mem_append_left new' hmem⟩
    · exact h'.owned c (Nat.le_of_not_lt hc) hlt

theorem Grows.agreesBelow (h : Grows E q s s') : s.AgreesBelow s' q where
  tables := h.tables
  fields := h.fields
  query r hr := h.query r fun heq => by rw [heq] at hr; omega
  column := h.column

/-- Columns that were there stay. -/
theorem Grows.mem_columns (h : Grows E q s s') {c : ColumnRef} (hc : c ∈ (s.query q).columns) :
    c ∈ (s'.query q).columns := by
  obtain ⟨new, hquery, -⟩ := h.added
  rw [hquery]
  exact List.mem_append_left new hc

theorem Grows.ordered (hordered : s.Ordered) (h : Grows E q s s') : s'.Ordered := by
  obtain ⟨new, hquery, hnew⟩ := h.added
  refine ⟨fun r source hsource => ?_, fun r source hsource t ht => ?_, fun r c hc => ?_⟩
  · by_cases hr : r = q
    · subst hr
      rw [hquery] at hsource
      exact hordered.source r source hsource
    · rw [h.query r hr] at hsource
      exact hordered.source r source hsource
  · refine HasTable.congr ?_ h.tables h.fields
    by_cases hr : r = q
    · subst hr
      rw [hquery] at hsource
      exact hordered.table r source hsource t ht
    · rw [h.query r hr] at hsource
      exact hordered.table r source hsource t ht
  · by_cases hr : r = q
    · subst hr
      rw [hquery, List.mem_append] at hc
      rcases hc with hc | hc
      · obtain ⟨hindex, hparent⟩ := hordered.column r c hc
        rw [h.column c hindex]
        exact ⟨Nat.lt_of_lt_of_le hindex h.columns, hparent⟩
      · exact ⟨(hnew c hc).1, (hnew c hc).2.1⟩
    · rw [h.query r hr] at hc
      obtain ⟨hindex, hparent⟩ := hordered.column r c hc
      rw [h.column c hindex]
      exact ⟨Nat.lt_of_lt_of_le hindex h.columns, hparent⟩

/-- A new column is the last one of its query. -/
theorem query_addFreshColumn (hq : q.index < s.queries.size) (e : Scalar)
    (aliasName : Option String) :
    (s.addFreshColumn q e aliasName).2.query q = { s.query q with
      columns := (s.query q).columns ++ [(s.addFreshColumn q e aliasName).1] } :=
  query_modifyQuery_self (s := { s with columns := s.columns.push _ }) hq

/-- A new column of a query. -/
theorem grows_addFreshColumn (hq : q.index < s.queries.size) {e : Scalar} (he : E e)
    (aliasName : Option String) :
    Grows E q s (s.addFreshColumn q e aliasName).2 := by
  have hquery : (s.addFreshColumn q e aliasName).2.query q =
      { s.query q with columns := (s.query q).columns ++ [⟨s.columns.size⟩] } :=
    query_addFreshColumn hq e aliasName
  refine ⟨rfl, rfl, by simp [addFreshColumn], fun r hr => query_modifyQuery_ne hr, fun c hc => ?_,
    by simp [addFreshColumn, modifyQuery], ⟨[⟨s.columns.size⟩], hquery, fun c hc => ?_⟩,
    fun c hle hlt => ?_⟩
  · simp [addFreshColumn, modifyQuery, Store.column, Array.getElem?_push, Nat.ne_of_lt hc]
  · rw [List.mem_singleton.mp hc]
    simp [addFreshColumn, modifyQuery, Store.column, he]
  · have hc : c = ⟨s.columns.size⟩ := by
      cases c
      simp only [addFreshColumn, modifyQuery, Array.size_push] at hle hlt
      exact congrArg ColumnRef.mk (by omega)
    rw [hc, hquery]
    simp [addFreshColumn, modifyQuery, Store.column]

/-- The new column is one of the query. -/
theorem mem_columns_addFreshColumn (hq : q.index < s.queries.size) (e : Scalar)
    (aliasName : Option String) :
    (s.addFreshColumn q e aliasName).1 ∈
      ((s.addFreshColumn q e aliasName).2.query q).columns := by
  rw [query_addFreshColumn hq]
  exact List.mem_append_right _ (List.mem_singleton_self _)

@[simp]
theorem column_addFreshColumn (e : Scalar) (aliasName : Option String) :
    (s.addFreshColumn q e aliasName).2.column (s.addFreshColumn q e aliasName).1 =
      { parent := q, expression := e, aliasName } := by
  simp [addFreshColumn, modifyQuery, Store.column]

/-! ## Rows of a query that grew or has other clauses -/

theorem agreesBelow_modifyQuery : s.AgreesBelow (s.modifyQuery q f) q where
  tables := rfl
  fields := rfl
  query r hr := query_modifyQuery_ne fun heq => by rw [heq] at hr; omega
  column _ _ := rfl

/-- A change of the clauses of a query keeps the order of queries. -/
theorem Ordered.modifyQuery (hordered : s.Ordered) (hq : q.index < s.queries.size)
    (hsources : ∀ source ∈ (f (s.query q)).sources, ∀ inner, source.query? = some inner →
      inner.index < q.index)
    (htables : ∀ source ∈ (f (s.query q)).sources, ∀ t, source.table? = some t → s.HasTable t)
    (hcolumns : (f (s.query q)).columns = (s.query q).columns) :
    (s.modifyQuery q f).Ordered := by
  refine ⟨fun r source hsource inner hinner => ?_, fun r source hsource t ht => ?_,
    fun r c hc => ?_⟩
  · by_cases hr : r = q
    · subst hr
      rw [query_modifyQuery_self hq] at hsource
      exact hsources source hsource inner hinner
    · rw [query_modifyQuery_ne hr] at hsource
      exact hordered.source r source hsource inner hinner
  · refine HasTable.congr (s := s) ?_ rfl rfl
    by_cases hr : r = q
    · subst hr
      rw [query_modifyQuery_self hq] at hsource
      exact htables source hsource t ht
    · rw [query_modifyQuery_ne hr] at hsource
      exact hordered.table r source hsource t ht
  · by_cases hr : r = q
    · subst hr
      rw [query_modifyQuery_self hq, hcolumns] at hc
      exact hordered.column r c hc
    · rw [query_modifyQuery_ne hr] at hc
      exact hordered.column r c hc

/-- An empty query is in order. -/
theorem Ordered.addQuery (hordered : s.Ordered) (parent : Option QueryRef) :
    (s.addQuery parent).2.Ordered := by
  have hempty : ∀ r : QueryRef, ¬ r.index < s.queries.size →
      ((s.addQuery parent).2.query r).sources = [] ∧
        ((s.addQuery parent).2.query r).columns = [] := by
    intro r hr
    by_cases hsize : r.index = s.queries.size
    · simp [Store.addQuery, Store.query, hsize]
    · have hnone : (s.queries.push { parent })[r.index]? = none :=
        Array.getElem?_eq_none (by simp; omega)
      simp [Store.addQuery, Store.query, hnone, default, instInhabitedQuery.default]
  refine ⟨fun r source hsource => ?_, fun r source hsource t ht => ?_, fun r c hc => ?_⟩
  · by_cases hr : r.index < s.queries.size
    · rw [query_addQuery parent hr] at hsource
      exact hordered.source r source hsource
    · rw [(hempty r hr).1] at hsource
      cases hsource
  · refine HasTable.congr (s := s) ?_ rfl rfl
    by_cases hr : r.index < s.queries.size
    · rw [query_addQuery parent hr] at hsource
      exact hordered.table r source hsource t ht
    · rw [(hempty r hr).1] at hsource
      cases hsource
  · by_cases hr : r.index < s.queries.size
    · rw [query_addQuery parent hr] at hc
      exact hordered.column r c hc
    · rw [(hempty r hr).2] at hc
      cases hc

section

variable {V : Type} [DecidableEq V] {I : Interpretation V} {db : Database V}
  {rows : List (Env V)}

theorem Yields.isPlain (h : s.Yields I db q rows) : (s.query q).IsPlain := by
  cases h <;> assumption

/-- Columns whose values a distinct query knows already leave its rows alone. -/
theorem Grows.yields (hordered : s.Ordered) (hgrows : Grows E q s s')
    (h : s.Yields I db q rows)
    (hknown : (s.query q).distinct = true → ∀ e, E e → ∀ ρ ρ',
      s.tuple I (s.query q) ρ = s.tuple I (s.query q) ρ' → e.eval I ρ = e.eval I ρ') :
    s'.Yields I db q rows := by
  obtain ⟨base, hbase, hrebase⟩ := h.rebase hordered
  obtain ⟨new, hquery, hnew⟩ := hgrows.added
  have hplain := h.isPlain
  have hrows := hrebase s' hgrows.agreesBelow (by rw [hquery])
    (by rw [hquery]; exact ⟨hplain.grouping, hplain.having, hplain.orderBy, hplain.setOperators⟩)
  have hsame : (s'.query q).rowsOf I s' base = rows := by
    rw [hbase, hquery]
    unfold Query.rowsOf
    dsimp only
    by_cases hdistinct : (s.query q).distinct = true
    · rw [if_pos hdistinct, if_pos hdistinct]
      congr 2
      refine firstOfEach_congr fun ρ _ ρ' _ => ?_
      have hold : ∀ ρ, (s.query q).columns.map (fun c => (s'.column c).expression.eval I ρ) =
          s.tuple I (s.query q) ρ := fun ρ => List.map_congr_left fun c hc => by
        rw [hgrows.column c (hordered.column q c hc).1]
      rw [tuple, tuple, List.map_append, List.map_append, hold, hold]
      refine ⟨fun heq => (List.append_inj heq (by simp [tuple])).1, fun heq => ?_⟩
      rw [heq]
      congr 1
      exact List.map_congr_left fun c hc => hknown hdistinct _ (hnew c hc).2.2 ρ ρ' heq
    · rw [if_neg hdistinct, if_neg hdistinct]
  rwa [hsame] at hrows

end

end Store

end SqlCompiler
