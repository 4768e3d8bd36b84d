import SqlCompiler.Proofs.Groups.Counts
import SqlCompiler.Proofs.Lowering.NestingRules
import SqlCompiler.Proofs.Paging.Clauses

/-!
# Orders of nested queries on SQL Server

SQL Server refuses the order of a query that is nested in another one, unless the query is limited or
has an offset.  Joins and set operators only read queries without such an order, and the query of a
value has none.  What wraps a query keeps its order, as does a condition on its rows.

Main results:

- Definition `Store.PlacesOrders`: where the queries of a store may have an order and no paging
  clause.
- Theorem `Compiler.compile_placesOrders`: so it is in the statements compiled for SQL Server.
-/

namespace SqlCompiler

open Store (Tidy Drafts Nested SameNesting)

/-! ## Legal statements -/

section

variable (w : Transformer)

/-- A transformed query is nested as it was. -/
theorem Transformer.sameNesting_query (query : Query) : query.SameNesting (w.query query) where
  reads
    | .source => by
      rw [Query.readAt, Query.readAt, Transformer.query, List.filterMap_map,
        show Source.query? ∘ w.source = Source.query? from funext w.query?_source]
    | .joined => by
      have hjoined (source : Source) : Source.joined (w.source source).joins =
          (Source.joined source.joins).map w.source := by
        cases source
        exact w.joined_joins _
      rw [Query.readAt, Query.readAt, Transformer.query, List.flatMap_map, funext hjoined,
        ← List.map_flatMap, List.filterMap_map,
        show Source.query? ∘ w.source = Source.query? from funext w.query?_source]
    | .side => rfl
  loose := by simp [Query.isLoose, Query.hasPagination, Transformer.query]
  fixed := rfl
  grouped := by simp [Query.isGrouped, Transformer.query, Transformer.scalars_eq_map]

end

/-- A source reads what it reads without an alias, and so do the ones joined to it. -/
theorem Source.queries_withAliases (byName : Bool) (used : AliasSet) (source : Source) :
    (source.withAliases byName used).1.query? = source.query? ∧
      (Source.joined (source.withAliases byName used).1.joins).filterMap Source.query? =
        (Source.joined source.joins).filterMap Source.query? := by
  have hall (source : Source) : source.all = source :: Source.joined source.joins := by
    cases source
    rfl
  have hread (sources : List Source) : sources.filterMap Source.query? =
      (sources.map Source.content).filterMap fun content =>
        Source.query? ⟨content.1, none, []⟩ := by
    rw [List.filterMap_map]
    rfl
  have hcontent := Source.content_withAliases byName used source
  rw [hall, hall source, List.map_cons, List.map_cons, List.cons.injEq] at hcontent
  refine ⟨?_, ?_⟩
  · exact congrArg (fun content => Source.query? ⟨content.1, none, []⟩) hcontent.1
  · rw [hread, hcontent.2, ← hread]

theorem readAt_sourcesWithAliases (byName : Bool) (used : AliasSet) (query : Query)
    (place : ReadPlace) :
    Query.readAt { query with sources := (sourcesWithAliases byName used query.sources).1 } place =
      query.readAt place := by
  cases place with
  | source =>
    simp only [Query.readAt]
    induction query.sources generalizing used with
    | nil => rfl
    | cons source rest ih =>
      rw [sourcesWithAliases, List.filterMap_cons, List.filterMap_cons,
        (source.queries_withAliases byName used).1, ih]
  | joined =>
    simp only [Query.readAt]
    induction query.sources generalizing used with
    | nil => rfl
    | cons source rest ih =>
      rw [sourcesWithAliases, List.flatMap_cons, List.flatMap_cons, List.filterMap_append,
        List.filterMap_append, (source.queries_withAliases byName used).2, ih]
  | side => rfl

namespace Store

variable {s s' s'' : Store} {t : StatementRef} {q : QueryRef}

theorem SameNesting.refl (s : Store) : s.SameNesting s := ⟨fun _ => .refl _, Nat.le_refl _⟩

theorem SameNesting.trans (h : s.SameNesting s') (h' : s'.SameNesting s'') : s.SameNesting s'' :=
  ⟨fun q => (h.query q).trans (h'.query q), Nat.le_trans h.size h'.size⟩

theorem SameNesting.foldl {α : Type} {f : Store → α → Store}
    (hf : ∀ (s : Store) (a : α), s.SameNesting (f s a)) (items : List α) (s : Store) :
    s.SameNesting (items.foldl f s) := by
  induction items generalizing s with
  | nil => exact .refl s
  | cons a rest ih => exact (hf s a).trans (ih _)

/-- The queries are the same. -/
theorem SameNesting.ofQueries (h : s'.queries = s.queries) : s.SameNesting s' where
  query q := by
    rw [Store.query, Store.query, h]
    exact .refl _
  size := Nat.le_of_eq (by rw [h])

/-! ### Passes -/

theorem sameNesting_pruneColumns (s : Store) (t : StatementRef) : s.SameNesting (s.pruneColumns t) := by
  have hquery : ∀ (used : List ColumnRef) (s : Store) (q : QueryRef),
      s.SameNesting (s.pruneQuery used q) := by
    intro used s q
    unfold pruneQuery
    dsimp only
    split
    · exact sameNesting_modifyQuery ⟨fun place => by cases place <;> rfl, rfl, rfl, rfl⟩
    · exact .refl s
  exact pruneColumns_of_queries t .refl .trans hquery s

/-- An order that is needed for an offset comes with the offset. -/
theorem sameNesting_orderForOffset (s : Store) (q : QueryRef) : s.SameNesting (s.orderForOffset q) := by
  refine sameNesting_modifyQuery ?_
  split
  · next hneeded =>
    rw [Bool.and_eq_true] at hneeded
    refine ⟨fun place => by cases place <;> rfl, ?_, rfl, rfl⟩
    simp [Query.isLoose, Query.hasPagination, hneeded.1]
  · exact .refl _

theorem sameNesting_legalizeExpressions (s : Store) (p : Provider) (t : StatementRef) :
    s.SameNesting (s.legalizeExpressions p t) := by
  have hquery (transformer : Store → Transformer) (s : Store) (q : QueryRef) :
      s.SameNesting (s.transformQuery transformer q) :=
    (SameNesting.foldl (f := transformColumn transformer) (fun _ _ => .ofQueries rfl) _ s).trans
      (sameNesting_modifyQuery ((transformer _).sameNesting_query _))
  exact (SameNesting.foldl (fun s q => hquery _ s q) _ s).trans (.ofQueries rfl)

theorem sameNesting_finalizeAliases (s : Store) (t : StatementRef) :
    s.SameNesting (s.finalizeAliases t) := by
  have hsources : ∀ (byName : QueryRef → Bool) (queries : List QueryRef) (state : AliasSet × Store),
      state.2.SameNesting
        (queries.foldl (fun state q => aliasSourcesOf (byName q) state q) state).2 := by
    intro byName queries
    induction queries with
    | nil => exact fun state => .refl _
    | cons q rest ih =>
      intro state
      have hfirst : state.2.SameNesting (aliasSourcesOf (byName q) state q).2 :=
        sameNesting_modifyQuery ⟨readAt_sourcesWithAliases _ _ _, rfl, rfl, rfl⟩
      exact hfirst.trans (ih _)
  have hnamed : s.SameNesting (s.withNamedSources t) :=
    hsources (fun q => namesTargetDirectly (s.statement t).body && q == (s.statement t).query) _
      (_, s)
  exact hnamed.trans (.ofQueries (by rw [(namesColumns_finalizeAliases s t).content]))

/-- A statement for SQL Server that is legalized has the same queries, nested alike. -/
theorem sameNesting_legalized {final : Store}
    (h : (legalizeStatement (.ofDialect .sqlServer) t).runOn s = (.ok (), final)) :
    s.SameNesting final ∧ (final.statement t).query = (s.statement t).query := by
  have hrestructured : (s.restructured (.ofDialect .sqlServer) t).2 =
      (s.statementQueries t).foldl orderForOffset s := by
    have hdml : s.restructureDml (Provider.ofDialect .sqlServer).rules t = (.ok (), s) := by
      unfold restructureDml
      exact if_pos rfl
    have hpaging : (Provider.ofDialect .sqlServer).rules.pagingWithDistinct = true := rfl
    have hdialect : (Provider.ofDialect .sqlServer).dialect = .sqlServer := rfl
    simp only [restructured, hpaging, if_true, hdml, hdialect]
  have hordered : s.PagesAlike ((s.statementQueries t).foldl orderForOffset s) t :=
    .foldl (fun s q => pagesAlike_orderForOffset q) _ s
  rw [legalizeStatement_eq h, hrestructured]
  refine ⟨?_, (hordered.trans (pagesAlike_legalized _)).root⟩
  exact (SameNesting.foldl sameNesting_orderForOffset _ s).trans
    ((sameNesting_legalizeExpressions _ _ t).trans (sameNesting_finalizeAliases _ t))

end Store

/-! ## Compiled statements -/

/-- A query is printed with an order, although all of its rows are asked for. -/
def Dialect.OrdersAll (d : Dialect) (q : Query) : Prop := q.orderBy ≠ [] ∧ d.clauses q = []

theorem Query.isLoose_iff (q : Query) : q.isLoose = true ↔ Dialect.sqlServer.OrdersAll q := by
  have hclauses : q.hasPagination = false ↔ Dialect.sqlServer.clauses q = [] := by
    unfold Query.hasPagination Dialect.clauses Dialect.startClause? Dialect.endClauses
    cases q.take <;> cases q.skip <;> simp
  rw [isLoose, Dialect.OrdersAll, ← hclauses]
  simp

/-- Where the queries of a store may have an order and no paging clause: a subquery if it is distinct,
has set operators or is grouped, or if an operator that wraps any query is called; a query that is
joined or stands behind a set operator never; and one that no other query reads if it is the query of
the statement, or if an operator that leaves queries behind is called. -/
structure Store.PlacesOrders (d : Dialect) (calls : SequenceOperator → Bool) (root : QueryRef)
    (s : Store) : Prop where
  source : ∀ q, ∀ r ∈ (s.query q).readAt .source, d.OrdersAll (s.query r) →
    (s.query r).MayBeWrapped calls
  joined : ∀ q, ∀ r ∈ (s.query q).readAt .joined, ¬d.OrdersAll (s.query r)
  side : ∀ q, ∀ r ∈ (s.query q).readAt .side, ¬d.OrdersAll (s.query r)
  unread : ∀ r ≠ root, d.OrdersAll (s.query r) →
    (∃ q, r ∈ (s.query q).reads) ∨ LeavesAny calls

/-- The subqueries that are lowered as values have no order without a paging clause. -/
def Lowerer.OrdersValues (l : Lowerer) (d : Dialect) : Prop :=
  ∀ ctx st whole q r st', (∀ q, ∀ r ∈ (st.store.query q).reads, r.index < st.store.queries.size) →
    LowerM.Gives (do Lowerer.valueOf whole (← l.sequence whole (some q))) ctx st (.query r) st' →
      ¬d.OrdersAll (st'.store.query r)

section

variable {calls : SequenceOperator → Bool} {X : QueryRef → Prop} {ctx : LowerContext}

theorem Lowered.toStatement_tidy (lowered : Lowered) :
    LowerM.Triple ctx (lowered.Kempt calls X) lowered.toStatement fun r s =>
      s.Drafts calls X r.1.query := by
  have hclose : LowerM.Triple ctx (Drafts calls X lowered.query) lowered.close fun _ =>
      Drafts calls X lowered.query :=
    (LowerM.keeping_closed _).close (fun ctx =>
      (LowerM.Widens.selectProjection _ _).nested fun _ hs => hs.valid) ctx
  exact (hclose.pre fun _ hs => hs.draft).bind fun _ => .get fun _ => .pure fun _ hs => hs

/-- A query that is read has an order without a paging clause for a reason only. -/
theorem Store.Drafts.placesOrders {s : Store} {root : QueryRef}
    (h : s.Drafts calls (fun _ => False) root) : s.PlacesOrders .sqlServer calls root := by
  have hread : ∀ {q r place}, r ∈ (s.query q).readAt place →
      Dialect.sqlServer.OrdersAll (s.query r) → place = .source ∧ (s.query r).MayBeWrapped calls :=
    fun {q r place} hr horders => h.tidy.read r (fun hX => hX.elim id fun heq =>
      h.unread q (heq ▸ Query.mem_reads.mpr ⟨place, hr⟩)) ((Query.isLoose_iff _).mpr horders) q place hr
  exact ⟨fun q r hr horders => (hread hr horders).2,
    fun q r hr horders => ReadPlace.noConfusion (hread hr horders).1,
    fun q r hr horders => ReadPlace.noConfusion (hread hr horders).1,
    fun r hr horders => h.tidy.unread r (fun hX => hX.elim id hr) ((Query.isLoose_iff _).mpr horders)⟩

theorem Lowerer.Tidies.ordersValues {l : Lowerer} (h : l.Tidies calls) :
    l.OrdersValues .sqlServer := by
  intro ctx st whole q r st' hvalid hgives horders
  have hvalue := ((h.sequence ctx (fun _ => True) whole (some q)).bind fun lowered =>
    valueOf_tidy whole lowered) st _ st'
      ⟨hvalid, fun _ hX => absurd trivial hX, fun _ hX => absurd trivial hX⟩ hgives
  have hloose := hvalue.2 r rfl
  rw [(Query.isLoose_iff _).mpr horders] at hloose
  cases hloose

end

namespace Compiler

/-- A term is lowered to a statement, and this is compiled without the columns that nothing reads, to
what the term compiles to. -/
structure CompilesBy (c : Compiler) (r : Ranking) (t : Term) (compiled : Compiled)
    (statement : Statement) (state : LowerState) (final : Store) : Prop where
  lowered : c.runLowering r (do (← lowerSequence c.rules t.normalize).toStatement) =
    (.ok (statement, compiled.shape), state)
  finished : (compileStatement c.provider c.options (state.store.addStatement statement).1).runOn
    ((state.store.addStatement statement).2.pruneColumns (state.store.addStatement statement).1) =
      (.ok compiled.rendered, final)

/-- Every term that compiles does so. -/
theorem compile_ok {c : Compiler} {r : Ranking} {t : Term} {compiled : Compiled}
    (h : (c.compile r t).1 = .ok compiled) :
    ∃ statement state final, c.CompilesBy r t compiled statement state final := by
  unfold compile at h
  dsimp only at h
  cases hrun : c.runLowering r (do (← lowerSequence c.rules t.normalize).toStatement) with
  | mk result state =>
    rw [hrun] at h
    cases result with
    | error e => cases h
    | ok lowered =>
      obtain ⟨statement, shape⟩ := lowered
      have hfinish : (c.finish state.store statement).map (⟨·, shape⟩) = .ok compiled := h
      cases hrendered : c.finish state.store statement with
      | error e =>
        rw [hrendered] at hfinish
        cases hfinish
      | ok rendered =>
        rw [hrendered] at hfinish
        cases hfinish
        exact ⟨statement, state, _, hrun, Prod.ext hrendered rfl⟩

/-- Where the queries of a statement that is compiled for SQL Server may have an order and no paging
clause, by the operators that the normal form of the term calls. -/
theorem compile_placesOrders (c : Compiler) (hrules : ∀ rule ∈ c.rules, rule ∈ standardRules)
    (hprovider : c.provider = .ofDialect .sqlServer) (r : Ranking) (t : Term) {compiled : Compiled}
    (h : (c.compile r t).1 = .ok compiled) :
    (∃ statement state final, c.CompilesBy r t compiled statement state final ∧
      final.PlacesOrders .sqlServer t.normalize.calls
        (final.statement (state.store.addStatement statement).1).query) ∧
    ∀ fuel, (lowererWithin c.rules fuel).OrdersValues .sqlServer := by
  refine ⟨?_, fun fuel => (lowererWithin_tidies_all hrules fuel).ordersValues⟩
  obtain ⟨statement, state, final, hcompiles⟩ := compile_ok h
  refine ⟨statement, state, final, hcompiles, ?_⟩
  have hdraft : state.store.Drafts t.normalize.calls (fun _ => False) statement.query :=
    ((lowerSequence_tidy hrules t.normalize).bind fun lowered => lowered.toStatement_tidy)
      { ranking := r } (statement, compiled.shape) state (Store.tidy_empty _ _) hcompiles.lowered
  have hlegal := (Store.compileStatement_ok hcompiles.finished).1
  rw [hprovider] at hlegal
  obtain ⟨hsame, hroot⟩ := Store.sameNesting_legalized hlegal
  have hquery : (final.statement (state.store.addStatement statement).1).query = statement.query := by
    rw [hroot, Store.statement, Store.statements_pruneColumns]
    simp [Store.addStatement]
  rw [hquery]
  have hadded : state.store.SameNesting (state.store.addStatement statement).2 := .ofQueries rfl
  have hall := hadded.trans ((Store.sameNesting_pruneColumns _ _).trans hsame)
  exact (Nested.congr hall hdraft).placesOrders

/-- People on SQL Server. -/
def ofServerPeople : Compiler := { ofPeople with provider := .ofDialect .sqlServer }

/-- Everyone's age, and again the ages in their order. -/
def agesAndOrderedAges : Term :=
  Term.ages.apply .concat [((Term.table "Person").apply .orderBy
    [.fn "p" (.member (.bound "p") "Age")]).select
      (.fn "p" (.record [("A", .member (.bound "p") "Age")]))]

theorem normalize_agesAndOrderedAges : agesAndOrderedAges.normalize = agesAndOrderedAges :=
  Term.NormalizesTo.normalize ⟨20, 0, rfl⟩

/-- The order of ages that are combined with others is dropped. -/
theorem compile_placesOrders_ages : ∃ compiled,
    (ofServerPeople.compile (.asGiven standardRules) agesAndOrderedAges).1 = .ok compiled ∧
      compiled.rendered.commands.map (·.sql) =
        ["SELECT\n\tt1.[Age] as [A]\nFROM\n\t[Person] t1\nUNION ALL\nSELECT\n\tt2.[Age] as [A]\nFROM\n\t[Person] t2"] ∧
      ∃ statement state final, ofServerPeople.CompilesBy (.asGiven standardRules)
          agesAndOrderedAges compiled statement state final ∧
        final.PlacesOrders .sqlServer agesAndOrderedAges.normalize.calls
          (final.statement (state.store.addStatement statement).1).query := by
  have hsql : (ofServerPeople.compile (.asGiven standardRules) agesAndOrderedAges).1.toOption.map
      (·.rendered.commands.map (·.sql)) =
        some ["SELECT\n\tt1.[Age] as [A]\nFROM\n\t[Person] t1\nUNION ALL\nSELECT\n\tt2.[Age] as [A]\nFROM\n\t[Person] t2"] := by
    unfold Compiler.compile
    dsimp only
    rw [normalize_agesAndOrderedAges]
    decide +kernel
  cases hcompile : (ofServerPeople.compile (.asGiven standardRules) agesAndOrderedAges).1 with
  | error e =>
    rw [hcompile] at hsql
    cases hsql
  | ok compiled =>
    rw [hcompile] at hsql
    exact ⟨compiled, rfl, Option.some.inj hsql,
      (compile_placesOrders ofServerPeople (fun _ => id) rfl _ _ hcompile).1⟩

end Compiler

end SqlCompiler
