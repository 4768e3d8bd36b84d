import SqlCompiler.Legalize.Statement
import SqlCompiler.Proofs.Columns.Aliases
import SqlCompiler.Proofs.Queries.Parts
import SqlCompiler.Proofs.Queries.Reachable

/-!
# What legalization leaves of a query

Queries whose paging a dialect cannot express are split; a query that neither pages nor orders an
offset is left alone.  Then each query of a statement has its expressions transformed once.

Main results:

- Definition `Store.Leaves`: a change of a store that is not about a query.
- Theorem `Store.leaves_restructured`: paging is not about queries without limit and offset.
- Definition `Query.SameClauses`: queries that differ in their columns and in aliases.
- Theorem `Store.sameClauses_legalized`: the query of a selecting statement after legalization.
-/

namespace SqlCompiler

namespace Store

variable {s s' s'' : Store} {q r : QueryRef}

/-! ## Changes that are not about a query -/

/-- A store changes, but a query and the statements stay. -/
structure Leaves (q : QueryRef) (s s' : Store) : Prop where
  query : s'.query q = s.query q
  size : s.queries.size ≤ s'.queries.size
  statements : s'.statements = s.statements

theorem Leaves.refl (q : QueryRef) (s : Store) : s.Leaves q s := ⟨rfl, Nat.le_refl _, rfl⟩

theorem Leaves.trans (h : s.Leaves q s') (h' : s'.Leaves q s'') : s.Leaves q s'' where
  query := h'.query.trans h.query
  size := Nat.le_trans h.size h'.size
  statements := h'.statements.trans h.statements

theorem Leaves.modifyQuery (hne : r ≠ q) (f : Query → Query) : s.Leaves q (s.modifyQuery r f) where
  query := query_modifyQuery_ne hne.symm
  size := by simp
  statements := rfl

theorem Leaves.addFreshColumn (hne : r ≠ q) (e : Scalar) (aliasName : Option String) :
    s.Leaves q (s.addFreshColumn r e aliasName).2 where
  query := query_modifyQuery_ne (s := { s with columns := _ }) hne.symm
  size := by simp [Store.addFreshColumn]
  statements := rfl

theorem Leaves.addColumn (hne : r ≠ q) (e : Scalar) (aliasName : Option String) :
    s.Leaves q (s.addColumn r e aliasName).2 := by
  unfold Store.addColumn
  split
  · exact .refl q s
  · exact .addFreshColumn hne e aliasName

theorem Leaves.modifyColumn (c : ColumnRef) (f : OutputColumn → OutputColumn) :
    s.Leaves q (s.modifyColumn c f) := ⟨rfl, Nat.le_refl _, rfl⟩

theorem Leaves.foldl {α : Type} {f : Store → α → Store} {items : List α}
    (h : ∀ s' item, item ∈ items → s.Leaves q s' → s'.Leaves q (f s' item)) :
    s.Leaves q (items.foldl f s) := by
  have hfold : ∀ (rest : List α) (s' : Store), rest ⊆ items → s.Leaves q s' →
      s.Leaves q (rest.foldl f s') := by
    intro rest
    induction rest with
    | nil => exact fun _ _ hs => hs
    | cons item rest ih =>
      intro s' hsub hs
      obtain ⟨hitem, hrest⟩ := List.cons_subset.mp hsub
      exact ih _ hrest (hs.trans (h s' item hitem hs))
  exact hfold items s (List.Subset.refl _) (.refl q s)

/-! ## Paging -/

theorem leaves_moveColumn (hne : r ≠ q) (c : ColumnRef) : s.Leaves q (s.moveColumn r c) :=
  (Leaves.addFreshColumn hne _ _).trans (.modifyColumn c _)

/-- The body of another query is moved into a new one. -/
theorem leaves_wrapBody (hq : q.index < s.queries.size) (hne : r ≠ q) :
    s.Leaves q (s.wrapBody r).2 ∧ (s.wrapBody r).1 ≠ q := by
  have hinner : (⟨s.queries.size⟩ : QueryRef) ≠ q := fun heq => by
    rw [← heq] at hq
    exact Nat.lt_irrefl _ hq
  have hadded : s.Leaves q (s.addQuery (some r)).2 :=
    ⟨query_addQuery (some r) hq, by simp [Store.addQuery], rfl⟩
  refine ⟨?_, hinner⟩
  unfold wrapBody
  exact (((hadded.trans (.modifyQuery hne _)).trans (.modifyQuery hinner _)).trans
    (.foldl fun s' c _ _ => leaves_moveColumn hinner c)).trans (.modifyQuery hne _)

theorem leaves_projectOrder (hne : r ≠ q) (items : List OrderItem) (s : Store) :
    s.Leaves q (s.projectOrder r items).2 := by
  induction items generalizing s with
  | nil => exact .refl q s
  | cons item rest ih => exact (Leaves.addColumn hne item.expression none).trans (ih _)

theorem leaves_separateDistinctOf (hq : q.index < s.queries.size) (hne : r ≠ q) :
    s.Leaves q (s.separateDistinctOf r) := by
  obtain ⟨hwrap, hinner⟩ := leaves_wrapBody hq hne
  unfold separateDistinctOf
  exact ((hwrap.trans (.modifyQuery hne _)).trans (leaves_projectOrder hinner _ _)).trans
    (.modifyQuery hne _)

theorem leaves_numberRowsOf (hq : q.index < s.queries.size) (hne : r ≠ q) :
    s.Leaves q (s.numberRowsOf r) := by
  obtain ⟨hwrap, hinner⟩ := leaves_wrapBody hq hne
  unfold numberRowsOf
  exact (hwrap.trans (.addFreshColumn hinner _ _)).trans (.modifyQuery hne _)

/-- A query that does not meet a test is none of those that do. -/
theorem ne_of_mem_matchingQueries {t : StatementRef} {test : Query → Bool}
    (htest : test (s.query q) = false) (hr : r ∈ s.matchingQueries t test) : r ≠ q := fun heq => by
  subst heq
  have hmatches : test (s.query r) = true := by simpa using (List.mem_filter.mp hr).2
  exact Bool.false_ne_true (htest.symm.trans hmatches)

theorem leaves_separateDistinct (hq : q.index < s.queries.size) (t : StatementRef)
    (hpaging : (s.query q).hasPagination = false) : s.Leaves q (s.separateDistinct t) :=
  .foldl fun _ _ hr hs => leaves_separateDistinctOf (Nat.lt_of_lt_of_le hq hs.size)
    (ne_of_mem_matchingQueries (by simp [hpaging]) hr)

theorem leaves_numberRows (hq : q.index < s.queries.size) (t : StatementRef) (onlySkip : Bool)
    (hpaging : (s.query q).hasPagination = false) : s.Leaves q (s.numberRows t onlySkip) :=
  .foldl fun _ _ hr hs => leaves_numberRowsOf (Nat.lt_of_lt_of_le hq hs.size)
    (ne_of_mem_matchingQueries (by simp [hpaging]) hr)

theorem leaves_orderForOffset (hq : q.index < s.queries.size) (r : QueryRef)
    (hpaging : (s.query q).hasPagination = false) : s.Leaves q (s.orderForOffset r) := by
  by_cases hr : r = q
  · subst hr
    refine ⟨?_, by simp [orderForOffset], rfl⟩
    rw [orderForOffset, query_modifyQuery_self hq]
    simp only [Query.hasPagination, Bool.or_eq_false_iff] at hpaging
    simp [hpaging.2]
  · exact .modifyQuery hr _

/-- Restructuring a statement that selects leaves queries without limit and offset alone. -/
theorem leaves_restructured (p : Provider) (t : StatementRef) (hbody : (s.statement t).body = .select)
    (hq : q.index < s.queries.size) (hpaging : (s.query q).hasPagination = false) :
    ∃ s', s.restructured p t = (.ok (), s') ∧ s.Leaves q s' := by
  have hdistinct : ∃ s₁, s₁ = (if p.rules.pagingWithDistinct then s else s.separateDistinct t) ∧
      s.Leaves q s₁ := by
    refine ⟨_, rfl, ?_⟩
    split
    · exact .refl q s
    · exact leaves_separateDistinct hq t hpaging
  obtain ⟨s₁, hs₁, hleaves⟩ := hdistinct
  have hbody₁ : (s₁.statement t).body = .select := by
    rw [Store.statement, hleaves.statements]
    exact hbody
  have hdml : s₁.restructureDml p.rules t = (.ok (), s₁) := by
    unfold restructureDml
    rw [hbody₁]
    split <;> rfl
  have hq₁ : q.index < s₁.queries.size := Nat.lt_of_lt_of_le hq hleaves.size
  have hpaging₁ : (s₁.query q).hasPagination = false := by rw [hleaves.query, hpaging]
  rw [restructured, ← hs₁]
  simp only [hdml]
  refine ⟨_, rfl, ?_⟩
  split
  · refine hleaves.trans (.foldl fun s' r _ hs => ?_)
    exact leaves_orderForOffset (Nat.lt_of_lt_of_le hq₁ hs.size) r (by rw [hs.query, hpaging₁])
  · exact hleaves.trans (leaves_numberRows hq₁ t true hpaging₁)
  · exact hleaves

/-! ## Queries of a statement -/

/-- The query of a statement comes first among its queries, and only there. -/
theorem statementQueries_eq (s : Store) (t : StatementRef) :
    ∃ rest, s.statementQueries t = (s.statement t).query :: rest ∧
      (s.statement t).query ∉ rest := by
  have hnodup := nodup_statementQueries s t
  obtain ⟨rest, hrest⟩ : [(s.statement t).query] <+: s.statementQueries t := by
    unfold statementQueries rootQueries
    exact prefix_reachFrom _ [(s.statement t).query] _
  rw [← hrest, List.singleton_append, List.nodup_cons] at hnodup
  exact ⟨rest, hrest.symm, hnodup.1⟩

/-! ## Expressions -/

theorem leaves_transformColumns (transformer : Store → Transformer) (columns : List ColumnRef) :
    s.Leaves q (columns.foldl (transformColumn transformer) s) :=
  .foldl fun _ c _ _ => .modifyColumn c _

theorem leaves_transformQuery (transformer : Store → Transformer) (hne : r ≠ q) :
    s.Leaves q (s.transformQuery transformer r) :=
  (leaves_transformColumns transformer _).trans (.modifyQuery hne _)

/-- The query of a statement is transformed once. -/
theorem query_transformStatement (transformer : Store → Transformer) (t : StatementRef)
    (hq : (s.statement t).query.index < s.queries.size) :
    ∃ current : Store, (s.transformStatement transformer t).query (s.statement t).query =
      (transformer current).query (s.query (s.statement t).query) := by
  obtain ⟨rest, hqueries, hroot⟩ := s.statementQueries_eq t
  have hcolumns := leaves_transformColumns (s := s) (q := (s.statement t).query) transformer
    (s.query (s.statement t).query).columns
  refine ⟨(s.query (s.statement t).query).columns.foldl (transformColumn transformer) s, ?_⟩
  have hothers : ∀ s' : Store, s'.Leaves (s.statement t).query
      (rest.foldl (transformQuery transformer) s') := fun s' =>
    .foldl fun _ r hr _ => leaves_transformQuery transformer fun heq => hroot (heq ▸ hr)
  change Store.query ((s.statementQueries t).foldl (transformQuery transformer) s) _ = _
  rw [hqueries, List.foldl_cons, (hothers _).query, transformQuery,
    query_modifyQuery_self (Nat.lt_of_lt_of_le hq hcolumns.size), hcolumns.query]

end Store

/-! ## Aliases -/

/-- Two queries differ in their columns, and in the aliases of their sources. -/
structure Query.SameClauses (query query' : Query) : Prop where
  distinct : query'.distinct = query.distinct
  take : query'.take = query.take
  skip : query'.skip = query.skip
  whereClause : query'.whereClause = query.whereClause
  grouping : query'.grouping = query.grouping
  having : query'.having = query.having
  orderBy : query'.orderBy = query.orderBy
  setOperators : query'.setOperators = query.setOperators

theorem Query.SameClauses.trans {query query' query'' : Query} (h : query.SameClauses query')
    (h' : query'.SameClauses query'') : query.SameClauses query'' where
  distinct := h'.distinct.trans h.distinct
  take := h'.take.trans h.take
  skip := h'.skip.trans h.skip
  whereClause := h'.whereClause.trans h.whereClause
  grouping := h'.grouping.trans h.grouping
  having := h'.having.trans h.having
  orderBy := h'.orderBy.trans h.orderBy
  setOperators := h'.setOperators.trans h.setOperators

/-- Only the clauses matter for those of a transformed query. -/
theorem Query.SameClauses.transform {query query' : Query} (h : query.SameClauses query')
    (w : Transformer) : (w.query query).SameClauses (w.query query') where
  distinct := h.distinct
  take := congrArg (Option.map w.scalar) h.take
  skip := congrArg (Option.map w.scalar) h.skip
  whereClause := congrArg w.condition h.whereClause
  grouping := by rw [Transformer.query, Transformer.query, h.grouping]
  having := congrArg w.condition h.having
  orderBy := by rw [Transformer.query, Transformer.query, h.orderBy]
  setOperators := h.setOperators

namespace Store

variable {s s' : Store} {q : QueryRef}

theorem NamesSources.sameClauses (h : s.NamesSources s') (q : QueryRef) :
    (s.query q).SameClauses (s'.query q) := by
  rw [h.query]
  exact ⟨rfl, rfl, rfl, rfl, rfl, rfl, rfl, rfl⟩

/-- Giving aliases changes no clause. -/
theorem sameClauses_finalizeAliases (s : Store) (t : StatementRef) (q : QueryRef) :
    (s.query q).SameClauses ((s.finalizeAliases t).query q) := by
  rw [(namesColumns_finalizeAliases s t).query]
  exact (namesSources_withNamedSources s t).sameClauses q

/-! ## Legal statements -/

/-- Legalizing a statement that selects transforms the clauses of its query and changes nothing
else about them. -/
theorem sameClauses_legalized (p : Provider) (t : StatementRef)
    (hbody : (s.statement t).body = .select)
    (hq : (s.statement t).query.index < s.queries.size)
    (hpaging : (s.query (s.statement t).query).hasPagination = false) :
    ∃ final current fuel, (legalizeStatement p t).runOn s = (.ok (), final) ∧
      Query.SameClauses
        ((Store.legalizerWithin current p fuel).query (s.query (s.statement t).query))
        (final.query (s.statement t).query) := by
  obtain ⟨s₁, hrestructured, hleaves⟩ := leaves_restructured p t hbody hq hpaging
  have hstatement : s₁.statement t = s.statement t := by
    rw [Store.statement, hleaves.statements, Store.statement]
  have htransform := query_transformStatement (s := s₁)
    (fun s => s.legalizerWithin p (2 * s₁.weight + 8)) t
    (by rw [hstatement]; exact Nat.lt_of_lt_of_le hq hleaves.size)
  rw [hstatement, hleaves.query] at htransform
  obtain ⟨current, hcurrent⟩ := htransform
  refine ⟨(s₁.legalizeExpressions p t).finalizeAliases t, current, 2 * s₁.weight + 8, ?_, ?_⟩
  · have hrun : (StoreM.ofPair fun s => s.restructured p t).runOn s = (.ok (), s₁) := hrestructured
    exact StoreM.runOn_bind_ok hrun
  · rw [← hcurrent]
    exact sameClauses_finalizeAliases _ t _

end Store

end SqlCompiler
