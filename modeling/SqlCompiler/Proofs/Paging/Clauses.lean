import SqlCompiler.Proofs.Groups.Legalization
import SqlCompiler.Proofs.Paging.Emulation
import SqlCompiler.Proofs.Rendering.Embedding

/-!
# Paging clauses

Legalizing a statement changes how a query is paged where the dialect has no offsets: such a query
reads a window of row numbers.  Everything else only transforms limits and offsets.

A dialect prints the limit of a query after `SELECT` or at its end, and the offset at its end.  What
the clauses leave of the rows is what the query asks for, except that DB2 has no offset.

Main results:

- Definition `Store.PagesAlike`: queries are paged alike, and read the same queries.
- Theorem `Store.pagesAlike_legalized`: transforming expressions and giving aliases.
- Theorem `Store.paging_legalized`: what becomes of the paging of a query.
- Definition `PagingClause`, with its text and what it leaves of rows.
- Theorems `printFirst_eq` and `printPaging_eq`: the clauses that are printed.
- Theorem `Dialect.leaves_clauses`: what the clauses of a dialect leave of the rows of a query.
- Theorem `Store.compileStatement_pages`: the queries of a compiled statement are paged.
-/

namespace SqlCompiler

/-! ## Queries that are paged alike -/

/-- Two queries are paged by the same clauses, up to what the limit and the offset are. -/
structure Query.PagedAlike (query query' : Query) : Prop where
  take : query'.take.isSome = query.take.isSome
  takeHints : query'.takeHints = query.takeHints
  skip : query'.skip.isSome = query.skip.isSome
  setOperators : query'.setOperators = query.setOperators

theorem Query.SamePaging.pagedAlike {query query' : Query} (h : query.SamePaging query') :
    query.PagedAlike query' where
  take := by rw [h.take]
  takeHints := h.takeHints
  skip := by rw [h.skip]
  setOperators := h.setOperators

namespace Query.PagedAlike

variable {query query' query'' : Query}

theorem refl (query : Query) : query.PagedAlike query := ⟨rfl, rfl, rfl, rfl⟩

theorem trans (h : query.PagedAlike query') (h' : query'.PagedAlike query'') :
    query.PagedAlike query'' where
  take := h'.take.trans h.take
  takeHints := h'.takeHints.trans h.takeHints
  skip := h'.skip.trans h.skip
  setOperators := h'.setOperators.trans h.setOperators

end Query.PagedAlike

section

variable (w : Transformer)

mutual

/-- The sources of a tree are transformed one by one. -/
theorem Transformer.all_source (source : Source) : (w.source source).all = source.all.map w.source := by
  obtain ⟨item, aliasName, joins⟩ := source
  rw [Transformer.source, Source.all, Source.all, List.map_cons, joined_joins joins]
  rfl

theorem Transformer.ofJoin_join (join : Join) :
    Source.ofJoin (w.join join) = (Source.ofJoin join).map w.source := by
  obtain ⟨kind, source, condition⟩ := join
  exact all_source source

theorem Transformer.joined_joins (joins : List Join) :
    Source.joined (w.joins joins) = (Source.joined joins).map w.source := by
  cases joins with
  | nil => rfl
  | cons join rest =>
    rw [Transformer.joins, Source.joined, Source.joined, List.map_append, ofJoin_join join,
      joined_joins rest]

end

theorem Transformer.allSources_query (query : Query) :
    (w.query query).allSources = query.allSources.map w.source := by
  simp only [Query.allSources, Transformer.query, List.flatMap_map, List.map_flatMap, all_source]

theorem Transformer.query?_source (source : Source) : (w.source source).query? = source.query? := by
  cases source
  rfl

theorem Transformer.subqueries_query (query : Query) :
    (w.query query).subqueries = query.subqueries := by
  rw [Query.subqueries, allSources_query, List.filterMap_map, Query.subqueries,
    show Source.query? ∘ w.source = Source.query? from funext w.query?_source]

/-- A transformed query is paged alike. -/
theorem Transformer.pagedAlike_query (query : Query) : query.PagedAlike (w.query query) where
  take := Option.isSome_map
  takeHints := rfl
  skip := Option.isSome_map
  setOperators := rfl

end

namespace Store

/-- The queries of two stores are paged alike, and statements read the same ones. -/
structure PagesAlike (s s' : Store) (t : StatementRef) : Prop where
  root : (s'.statement t).query = (s.statement t).query
  ctes : (s'.statement t).ctes = (s.statement t).ctes
  bodies : ∀ c, (s'.cte c).body = (s.cte c).body
  selects : (s'.statement t).body = .select ↔ (s.statement t).body = .select
  queries : ∀ q, (s.query q).PagedAlike (s'.query q)
  subqueries : ∀ q, (s'.query q).subqueries = (s.query q).subqueries

theorem statement_transformBody (s : Store) (t : StatementRef) (w : Transformer) :
    (s.modifyStatement t fun statement =>
      { statement with body := w.body statement.body }).statement t =
        { s.statement t with body := w.body (s.statement t).body } := by
  simp only [statement, modifyStatement, Array.getElem?_modify, if_true]
  cases s.statements[t.index]? with
  | none => rfl
  | some found => rfl

namespace PagesAlike

variable {s s' s'' : Store} {t : StatementRef}

theorem refl (s : Store) (t : StatementRef) : s.PagesAlike s t :=
  ⟨rfl, rfl, fun _ => rfl, .rfl, fun _ => .refl _, fun _ => rfl⟩

theorem trans (h : s.PagesAlike s' t) (h' : s'.PagesAlike s'' t) : s.PagesAlike s'' t where
  root := h'.root.trans h.root
  ctes := h'.ctes.trans h.ctes
  bodies c := (h'.bodies c).trans (h.bodies c)
  selects := h'.selects.trans h.selects
  queries q := (h.queries q).trans (h'.queries q)
  subqueries q := (h'.subqueries q).trans (h.subqueries q)

theorem foldl {α : Type} {f : Store → α → Store}
    (hf : ∀ (s : Store) (a : α), s.PagesAlike (f s a) t)
    (items : List α) (s : Store) : s.PagesAlike (items.foldl f s) t := by
  induction items generalizing s with
  | nil => exact .refl s t
  | cons a rest ih => exact (hf s a).trans (ih _)

/-- Nothing but columns, tables and fields has changed. -/
theorem ofContent (hqueries : s'.queries = s.queries) (hstatements : s'.statements = s.statements)
    (hctes : s'.ctes = s.ctes) : s.PagesAlike s' t := by
  have hquery : s'.query = s.query := by
    funext q
    rw [query, query, hqueries]
  have hstatement : s'.statement = s.statement := by
    funext t
    rw [statement, statement, hstatements]
  have hcte : s'.cte = s.cte := by
    funext c
    rw [cte, cte, hctes]
  exact ⟨by rw [hstatement], by rw [hstatement], fun c => by rw [hcte], by rw [hstatement],
    fun q => by rw [hquery]; exact .refl _, fun q => by rw [hquery]⟩

theorem modifyQuery (s : Store) (q : QueryRef) {f : Query → Query}
    (hf : ∀ query : Query, query.PagedAlike (f query) ∧ (f query).subqueries = query.subqueries) :
    s.PagesAlike (s.modifyQuery q f) t := by
  have hquery (r : QueryRef) : (s.query r).PagedAlike ((s.modifyQuery q f).query r) ∧
      ((s.modifyQuery q f).query r).subqueries = (s.query r).subqueries := by
    rcases query_modifyQuery s q r f with ⟨rfl, h⟩ | h
    · rw [h]
      exact hf _
    · rw [h]
      exact ⟨.refl _, rfl⟩
  exact ⟨rfl, rfl, fun _ => rfl, .rfl, fun r => (hquery r).1, fun r => (hquery r).2⟩

/-- The same queries are embedded. -/
theorem embeds (h : s.PagesAlike s' t) {q : QueryRef} (hq : s.Embeds t q) : s'.Embeds t q := by
  refine hq.congr ⟨h.root, h.ctes, h.bodies, h.subqueries, fun q => ?_⟩
  rw [Query.sides, Query.sides, (h.queries q).setOperators]

theorem transformQuery (transformer : Store → Transformer) (q : QueryRef) :
    s.PagesAlike (s.transformQuery transformer q) t := by
  have hcolumns : s.PagesAlike ((s.query q).columns.foldl (transformColumn transformer) s) t :=
    foldl (f := transformColumn transformer) (fun _ _ => ofContent rfl rfl rfl) _ s
  exact hcolumns.trans (modifyQuery _ q fun query =>
    ⟨(transformer _).pagedAlike_query query, (transformer _).subqueries_query query⟩)

theorem transformBody (w : Transformer) :
    s.PagesAlike (s.modifyStatement t fun statement =>
      { statement with body := w.body statement.body }) t := by
  refine ⟨?_, ?_, fun _ => rfl, ?_, fun q => .refl _, fun q => rfl⟩ <;> rw [statement_transformBody]
  cases (s.statement t).body <;> simp [Transformer.body]

end PagesAlike

variable {s : Store} {t : StatementRef}

theorem NamesSources.pagesAlike {s' : Store} (h : s.NamesSources s') : s.PagesAlike s' t := by
  have hcontent : s'.statement = s.statement ∧ s'.cte = s.cte := by
    rw [h.content]
    exact ⟨rfl, rfl⟩
  have hread (sources : List Source) : sources.filterMap Source.query? =
      (sources.map Source.content).filterMap fun content =>
        Source.query? ⟨content.1, none, []⟩ := by
    rw [List.filterMap_map]
    rfl
  refine ⟨by rw [hcontent.1], by rw [hcontent.1], fun c => by rw [hcontent.2], by rw [hcontent.1],
    fun q => ?_, fun q => ?_⟩
  · rw [h.query q]
    exact ⟨rfl, rfl, rfl, rfl⟩
  · rw [Query.subqueries, Query.subqueries, hread, h.sources, ← hread]

/-- When expressions are transformed, queries are paged alike. -/
theorem pagesAlike_legalizeExpressions (p : Provider) : s.PagesAlike (s.legalizeExpressions p t) t :=
  (PagesAlike.foldl (fun _ q => .transformQuery _ q) _ s).trans (.transformBody _)

/-- When aliases are given, queries are paged alike. -/
theorem pagesAlike_finalizeAliases : s.PagesAlike (s.finalizeAliases t) t := by
  have hcolumns := (namesColumns_finalizeAliases s t).content
  exact (namesSources_withNamedSources s t).pagesAlike.trans
    (.ofContent (by rw [hcolumns]) (by rw [hcolumns]) (by rw [hcolumns]))

/-- When a statement gets legal expressions and aliases, queries are paged alike. -/
theorem pagesAlike_legalized (p : Provider) :
    s.PagesAlike ((s.legalizeExpressions p t).finalizeAliases t) t :=
  (pagesAlike_legalizeExpressions p).trans pagesAlike_finalizeAliases

/-! ## Restructured statements -/

/-- An arbitrary order changes nothing about paging. -/
theorem pagesAlike_orderForOffset (q : QueryRef) : s.PagesAlike (s.orderForOffset q) t := by
  refine .modifyQuery s q fun query => ?_
  split
  · exact ⟨⟨rfl, rfl, rfl, rfl⟩, rfl⟩
  · exact ⟨.refl _, rfl⟩

/-- Only updates and deletes are restructured for several tables. -/
theorem restructureDml_select {rules : Capabilities} (hbody : (s.statement t).body = .select) :
    s.restructureDml rules t = (.ok (), s) := by
  unfold restructureDml
  rw [hbody]
  split <;> rfl

/-- Everything that was embedded in a statement still is. -/
def KeepsEmbedded (s : Store) (t : StatementRef) (s' : Store) : Prop :=
  ∀ q, s.Embeds t q → s'.Embeds t q

/-- Paging is separated from distinct rows where this is asked for. -/
theorem separated_of_paging (hs : s.Owned) (pagingWithDistinct : Bool) :
    ∃ s', s' = (if pagingWithDistinct then s else s.separateDistinct t) ∧ s'.Owned ∧ s.KeepsEmbedded t s' ∧
      (s'.statement t).body = (s.statement t).body ∧ s.queries.size ≤ s'.queries.size ∧
        ∀ q : QueryRef, q.index < s.queries.size → (s.query q).SamePaging (s'.query q) := by
  refine ⟨_, rfl, ?_⟩
  cases pagingWithDistinct with
  | true => exact ⟨hs, fun _ h => h, rfl, Nat.le_refl _, fun _ _ => .refl _⟩
  | false =>
    have hpass : Pass (s.KeepsEmbedded t) s t s.PagesOverRows _ (s.separateDistinct t) :=
      pass_separateDistinct hs (fun _ h => h) fun q _ _ _ s' hs' r hr => by
        obtain ⟨added, ordering, h⟩ := separated_separateDistinctOf hs'.owned hs'.valid'
        exact (h.splits hs'.owned).embeds hs'.valid' (hs'.invariant r hr)
    have hbody : ((s.separateDistinct t).statement t).body = (s.statement t).body := by
      rw [hpass.content]
      rfl
    refine ⟨hpass.owned, hpass.invariant, hbody, hpass.grown, fun q hq => ?_⟩
    by_cases hdone : q ∈ s.matchingQueries t fun q => q.distinct && q.hasPagination
    · exact (hpass.changed q hdone).2.2
    · rw [if_neg Bool.false_ne_true, hpass.others q hdone hq]
      exact .refl _

/-- A selecting statement is restructured for its paging only.  Rows are numbered on DB2. -/
theorem restructured_select {p : Provider} {separated : Store}
    (hseparated : separated = if p.rules.pagingWithDistinct then s else s.separateDistinct t)
    (hbody : (separated.statement t).body = .select) :
    ∃ legal, s.restructured p t = (.ok (), legal) ∧
      if p.dialect = .db2 then legal = separated.numberRows t true
      else separated.PagesAlike legal t := by
  rw [restructured, ← hseparated]
  simp only [restructureDml_select hbody]
  refine ⟨_, rfl, ?_⟩
  cases p.dialect with
  | db2 => rfl
  | sqlServer => exact .foldl (fun s q => pagesAlike_orderForOffset q) _ separated
  | generic => exact .refl separated t
  | postgreSql => exact .refl separated t
  | sqlite => exact .refl separated t

/-- What becomes of the paging of a query that is embedded in a selecting statement.  It stays, up to
how the limit and the offset are transformed, unless it has an offset, the dialect is DB2 and no set
operators follow: then the query reads a window of row numbers, and of limit hints nothing is left. -/
theorem paging_legalized {p : Provider} {final : Store} {q : QueryRef} (hs : s.Owned)
    (hbody : (s.statement t).body = .select) (hq : s.Embeds t q) (hvalid : q.index < s.queries.size)
    (hrun : (legalizeStatement p t).runOn s = (.ok (), final)) :
    final.Embeds t q ∧ (final.statement t).body = .select ∧
      if p.dialect = .db2 ∧ (s.query q).skip.isSome = true ∧ (s.query q).setOperators = [] then
        ∃ separated legal : Store, (s.query q).SamePaging (separated.query q) ∧
          separated.PagesByNumbers q legal ∧ s.restructured p t = (.ok (), legal) ∧
            legal.PagesAlike final t
      else (s.query q).PagedAlike (final.query q) := by
  obtain ⟨separated, hseparated, howned, hembedded, hbody', hgrown, hsame⟩ :=
    separated_of_paging (t := t) hs p.rules.pagingWithDistinct
  have hsame := hsame q hvalid
  obtain ⟨legal, hlegal, hdialect⟩ := restructured_select hseparated (hbody'.trans hbody)
  rw [legalizeStatement_eq hrun, hlegal]
  have hfinal := pagesAlike_legalized (s := legal) (t := t) p
  by_cases hdb2 : p.dialect = .db2
  · rw [if_pos hdb2] at hdialect
    have hpass : Pass (separated.KeepsEmbedded t) separated t separated.PagesByNumbers
        (separated.numberedQueries t) legal := by
      rw [hdialect]
      refine pass_numberRows howned (fun _ h => h) fun r _ s' hs' r hr => ?_
      exact ((numbered_numberRowsOf hs'.owned hs'.valid').splits hs'.owned).embeds hs'.valid'
        (hs'.invariant r hr)
    have hselects : (legal.statement t).body = .select := by
      rw [hpass.content]
      exact hbody'.trans hbody
    refine ⟨hfinal.embeds (hpass.invariant q (hembedded q hq)), hfinal.selects.mpr hselects, ?_⟩
    have hnumbered : q ∈ separated.numberedQueries t ↔
        (s.query q).skip.isSome = true ∧ (s.query q).setOperators = [] := by
      rw [mem_numberedQueries, hsame.skip, hsame.setOperators, and_comm (a := _ = [])]
      exact and_iff_right (hembedded q hq).reaches
    split
    · next hskip =>
      exact ⟨separated, legal, hsame, (hpass.changed q (hnumbered.mpr hskip.2)).2, rfl, hfinal⟩
    · next hskip =>
      have hquery := hpass.others q (fun hdone => hskip ⟨hdb2, hnumbered.mp hdone⟩)
        (Nat.lt_of_lt_of_le hvalid hgrown)
      exact (hquery ▸ hsame.pagedAlike).trans (hfinal.queries q)
  · rw [if_neg hdb2] at hdialect
    have hall := hdialect.trans hfinal
    refine ⟨hall.embeds (hembedded q hq), hall.selects.mpr (hbody'.trans hbody), ?_⟩
    rw [if_neg fun h => hdb2 h.1]
    exact hsame.pagedAlike.trans (hall.queries q)

end Store

/-! ## Clauses -/

/-- A clause that pages the rows of a query. -/
inductive PagingClause where
  | top (count : Scalar) (hints : Option TakeHints)
  | limit (count : Scalar)
  | noLimit
  | fetchFirst (count : Scalar)
  | fetchNext (count : Scalar)
  | offset (count : Scalar)
  | offsetRows (count : Scalar)

namespace PagingClause

/-- The words of a clause around its number. -/
def template : PagingClause → String
  | top .. => "TOP ({0})"
  | limit _ => "LIMIT {0}"
  | noLimit => "LIMIT -1"
  | fetchFirst _ => "FETCH FIRST {0} ROWS ONLY"
  | fetchNext _ => "FETCH NEXT {0} ROWS ONLY"
  | offset _ => "OFFSET {0}"
  | offsetRows _ => "OFFSET {0} ROWS"

/-- The number of rows that a clause leaves at most. -/
def limit? : PagingClause → Option Scalar
  | top count _ | limit count | fetchFirst count | fetchNext count => some count
  | noLimit | offset _ | offsetRows _ => none

/-- The number of rows that a clause skips. -/
def offset? : PagingClause → Option Scalar
  | offset count | offsetRows count => some count
  | top .. | limit _ | noLimit | fetchFirst _ | fetchNext _ => none

/-- Print a clause. -/
def print (next : NextLevel) : PagingClause → Print Unit
  | top count hints => do
    printTemplate "TOP ({0})" [printScalar next count]
    match hints with
    | none => pure ()
    | some hints =>
      if hints.percent then Print.text " PERCENT"
      if hints.withTies then Print.text " WITH TIES"
  | clause => printTemplate clause.template
      ((clause.limit? <|> clause.offset?).toList.map (printScalar next))

/-- What clauses without modifiers leave of rows: first some are skipped, then some are left. -/
def leaves {α : Type} (count : Scalar → Option Nat) (clauses : List PagingClause) (rows : List α) :
    List α :=
  let kept := (clauses.filterMap offset?).foldl (fun rows e => rows.drop ((count e).getD 0)) rows
  (clauses.filterMap limit?).foldl (fun rows e => rows.take ((count e).getD 0)) kept

end PagingClause

namespace Dialect

/-- The clause after `SELECT`, if there is one. -/
def startClause? (d : Dialect) (q : Query) : Option PagingClause :=
  match d, q.take, q.skip with
  | sqlServer, some take, none => some (.top take q.takeHints)
  | _, _, _ => none

/-- The clauses at the end of a query. -/
def endClauses (d : Dialect) (q : Query) : List PagingClause :=
  match d with
  | sqlServer =>
    match q.skip, q.take with
    | some skip, some take => [.offsetRows skip, .fetchNext take]
    | some skip, none => [.offsetRows skip]
    | none, _ => []
  | sqlite =>
    match q.take, q.skip with
    | some take, skip => .limit take :: (skip.map PagingClause.offset).toList
    | none, some skip => [.noLimit, .offset skip]
    | none, none => []
  | db2 => (q.take.map PagingClause.fetchFirst).toList
  | generic | postgreSql =>
    (q.take.map PagingClause.limit).toList ++ (q.skip.map PagingClause.offset).toList

/-- The paging clauses of a query. -/
def clauses (d : Dialect) (q : Query) : List PagingClause := (d.startClause? q).toList ++ d.endClauses q

theorem top_notMem_endClauses {d : Dialect} {q : Query} {count : Scalar} {hints : Option TakeHints} :
    .top count hints ∉ d.endClauses q := by
  unfold endClauses
  cases d <;> cases q.take <;> cases q.skip <;> simp

/-- A query with a clause after `SELECT` has its limit there, with the modifiers. -/
theorem startClause?_eq_some {d : Dialect} {q : Query} {clause : PagingClause}
    (h : d.startClause? q = some clause) : ∃ count, clause = .top count q.takeHints := by
  unfold startClause? at h
  split at h
  · exact ⟨_, (Option.some.inj h).symm⟩
  · cases h

/-- The clauses leave of the rows what the query asks for, if the dialect has offsets or none is
asked for. -/
theorem leaves_clauses {V Block α : Type} (E : Engine V Block) {d : Dialect} {q : Query}
    (h : d = .db2 → q.skip = none) (rows : List α) :
    PagingClause.leaves E.count (d.clauses q) rows = E.page q rows := by
  unfold Engine.page Engine.skipped clauses startClause? endClauses
  cases d <;> cases htake : q.take <;> cases hskip : q.skip
  case db2.none.some => cases hskip.symm.trans (h rfl)
  case db2.some.some => cases hskip.symm.trans (h rfl)
  all_goals rfl

end Dialect

/-! ## Printed clauses -/

/-- The clause after `SELECT` is printed; modifiers without such a clause are refused. -/
theorem printFirst_eq (next : NextLevel) (q : Query) : printFirst next q = (do
    match (← read).dialect.startClause? q with
    | some clause =>
      Print.text " "
      clause.print next
    | none => if q.takeHints.isSome then Print.unsupported "Take hints") := by
  funext frame
  obtain ⟨⟨_, dialect, _, _, _, _⟩, _⟩ := frame
  obtain ⟨_, _, take, hints, skip⟩ := q
  cases dialect <;> cases take <;> cases hints <;> cases skip <;> rfl

theorem usableFormat_some (format : Option String) (value : Scalar) :
    usableFormat format (some value) = format := by
  cases format <;> simp [usableFormat, Option.filter]

/-- What is printed at the end are the clauses at the end, in their order. -/
theorem parts_eq (d : Dialect) (q : Query) :
    (let limit := (usableFormat (d.limitFormat q) q.take).map (·, q.take)
      let offset := (usableFormat (d.offsetFormat q) q.skip).map (·, q.skip)
      (if d.offsetFirst then [offset, limit] else [limit, offset]).filterMap id) =
        (d.endClauses q).map fun clause => (clause.template, clause.limit? <|> clause.offset?) := by
  have hnone (value : Option Scalar) : usableFormat none value = none := rfl
  have hunlimited : usableFormat (some "LIMIT -1") none = some "LIMIT -1" := by decide
  unfold Dialect.limitFormat Dialect.offsetFormat Dialect.endClauses Dialect.offsetFirst
  cases d <;> cases q.take <;> cases q.skip <;>
    simp [usableFormat_some, hnone, hunlimited, PagingClause.template, PagingClause.limit?,
      PagingClause.offset?]

/-- The clauses at the end of a query are printed on a line. -/
theorem printPaging_eq (next : NextLevel) (q : Query) : printPaging next q = (do
    let clauses := (← read).dialect.endClauses q
    if !clauses.isEmpty then
      Print.indentation
      Print.separated " " (clauses.map fun clause => clause.print next)
      Print.newline) := by
  refine congrArg (fun act => read >>= act) (funext fun frame => ?_)
  have hparts := parts_eq frame.dialect q
  dsimp only at hparts ⊢
  rw [hparts, List.isEmpty_map, List.map_map]
  have hprint : ∀ clause ∈ frame.dialect.endClauses q, clause.print next =
      printTemplate clause.template
        ((clause.limit? <|> clause.offset?).toList.map (printScalar next)) := by
    intro clause hclause
    cases clause with
    | top => exact (Dialect.top_notMem_endClauses hclause).elim
    | _ => rfl
  rw [List.map_congr_left hprint]
  rfl

/-! ## Statements -/

/-- The paging clauses of a query leave what it asks for, and modifiers of its limit stand in one of
them. -/
structure Dialect.Pages (d : Dialect) (q : Query) : Prop where
  rows : ∀ {V Block α : Type} (E : Engine V Block) (rows : List α),
    PagingClause.leaves E.count (d.clauses q) rows = E.page q rows
  hints : ∀ hints, q.takeHints = some hints → ∃ count, .top count (some hints) ∈ d.clauses q

/-- A query is only printed with the modifiers of its limit. -/
theorem printFirst_forces {provider : Provider} {store : Store} (next : NextLevel) {q : Query}
    {hints : TakeHints} (hhints : q.takeHints = some hints) :
    Print.Forces provider store (∃ count, .top count (some hints) ∈ provider.dialect.clauses q)
      (printFirst next q) := by
  rw [printFirst_eq]
  refine .read fun frame hprovider _ => ?_
  cases hclause : frame.dialect.startClause? q with
  | none =>
    simp only [hhints, Option.isSome_some, if_true]
    exact .unsupported _
  | some clause =>
    obtain ⟨count, rfl⟩ := Dialect.startClause?_eq_some hclause
    rw [hhints] at hclause
    refine .ofTrue ⟨count, List.mem_append_left _ ?_⟩
    rw [← hprovider]
    exact Option.mem_toList.mpr hclause

theorem printSelect_forces {provider : Provider} {store : Store} {P : Prop} {next : NextLevel}
    {q : Query} (h : Print.Forces provider store P (printFirst next q)) :
    Print.Forces provider store P (printSelect next q) := by
  refine .read fun frame _ _ => .andThen (.andThen ?_)
  have hrest : Print.Forces provider store P (do
      if q.distinct then Print.text " DISTINCT"
      printFirst next q
      Print.newline
      Print.indented (Print.lines
        (if q.columns.isEmpty then [Print.text "*"]
          else q.columns.map fun c => printSelected next (frame.store.column c)))
      Print.newline) := by
    dsimp only
    split
    · exact .andThen h.first
    · exact h.first
  cases q.name with
  | none => exact hrest
  | some name =>
    dsimp only
    split
    · exact .andThen hrest
    · exact hrest

/-- Modifiers of a limit are printed with a block that is. -/
theorem Printed.hints {provider : Provider} {store : Store} {q : QueryRef}
    (h : Printed provider store q) {hints : TakeHints}
    (hhints : (store.query q).takeHints = some hints) :
    ∃ count, .top count (some hints) ∈ provider.dialect.clauses (store.query q) := by
  obtain ⟨fuel, frame, page, page', hprovider, hstore, hrun⟩ := h
  have hforces : Print.Forces provider store
      (∃ count, .top count (some hints) ∈ provider.dialect.clauses (store.query q))
      (printQuery (NextLevel.within fuel) q) := by
    refine .read fun frame _ hstore => .withReader (fun _ => ⟨rfl, rfl⟩) (.first ?_)
    rw [hstore]
    exact .withReader (fun _ => ⟨rfl, rfl⟩)
      (.andThen (.first (printSelect_forces (printFirst_forces _ hhints))))
  exact hforces frame hprovider hstore page _ hrun

namespace Store

/-- A statement that is compiled has been legalized and is rendered. -/
theorem compileStatement_ok {p : Provider} {options : Options} {s final : Store} {t : StatementRef}
    {rendered : Rendered} (h : (compileStatement p options t).runOn s = (.ok rendered, final)) :
    (legalizeStatement p t).runOn s = (.ok (), final) ∧
      renderStatement p options final t = .ok rendered := by
  unfold compileStatement at h
  rw [StoreM.runOn_bind] at h
  split at h
  · next u legal hlegal =>
    rw [StoreM.runOn_bind, StoreM.runOn_get] at h
    dsimp only at h
    split at h
    · next rendered' hrender =>
      cases h
      exact ⟨hlegal, hrender⟩
    · cases h
  · cases h

/-- Every query embedded in a selecting statement is printed when the statement is compiled.  If no
set operators follow it, its clauses page its rows as it asks for.  Where DB2 would need an offset,
it reads a window of row numbers instead. -/
theorem compileStatement_pages {p : Provider} {options : Options} {s final : Store}
    {t : StatementRef} {rendered : Rendered} {q : QueryRef} (hs : s.Owned)
    (hbody : (s.statement t).body = .select) (hq : s.Embeds t q) (hvalid : q.index < s.queries.size)
    (hoperators : (s.query q).setOperators = [])
    (hrun : (compileStatement p options t).runOn s = (.ok rendered, final)) :
    Printed p final q ∧
      if p.dialect = .db2 ∧ (s.query q).skip.isSome = true then
        ∃ separated legal : Store, (s.query q).SamePaging (separated.query q) ∧
          separated.PagesByNumbers q legal ∧ s.restructured p t = (.ok (), legal) ∧
            legal.PagesAlike final t
      else (s.query q).PagedAlike (final.query q) ∧ p.dialect.Pages (final.query q) := by
  obtain ⟨hlegal, hrender⟩ := compileStatement_ok hrun
  obtain ⟨hembedded, hselects, hpaging⟩ := paging_legalized hs hbody hq hvalid hlegal
  have hprinted := embeds_printed hselects hembedded hrender
  refine ⟨hprinted, ?_⟩
  simp only [hoperators, and_true] at hpaging
  split
  · next hnumbered => rwa [if_pos hnumbered] at hpaging
  · next hkept =>
    rw [if_neg hkept] at hpaging
    refine ⟨hpaging, fun E rows => Dialect.leaves_clauses E (fun hdb2 => ?_) rows,
      fun hints hhints => hprinted.hints hhints⟩
    rw [← Option.not_isSome_iff_eq_none, hpaging.skip]
    exact fun hskip => hkept ⟨hdb2, hskip⟩

/-- Two nicknames of people by age, after the one of the youngest. -/
def nextNicknames : Store := nicknames
  { take := some (.value ⟨.int32, .integer 2⟩), skip := some (.value ⟨.int32, .integer 1⟩)
    orderBy := byAge }

/-- Whether they can be asked for. -/
def compilesNicknames : Bool :=
  match (compileStatement (.ofDialect .sqlServer) {} ⟨0⟩).runOn nextNicknames with
  | (.ok _, _) => true
  | (.error _, _) => false

/-- Limit and offset are printed. -/
theorem compileStatement_pages_nextNicknames : ∃ rendered final,
    (compileStatement (.ofDialect .sqlServer) {} ⟨0⟩).runOn nextNicknames = (.ok rendered, final) ∧
      (final.query ⟨0⟩).take.isSome = true ∧ (final.query ⟨0⟩).skip.isSome = true ∧
        Dialect.sqlServer.Pages (final.query ⟨0⟩) := by
  have hcompiles : compilesNicknames = true := by decide +kernel
  unfold compilesNicknames at hcompiles
  split at hcompiles
  · next rendered final hrun =>
    obtain ⟨-, hpages⟩ := compileStatement_pages (q := ⟨0⟩) (owned_nicknames _) rfl .root
      Nat.one_pos rfl hrun
    rw [if_neg (by decide)] at hpages
    exact ⟨rendered, final, hrun, hpages.1.take, hpages.1.skip, hpages.2⟩
  · cases hcompiles

end Store

end SqlCompiler
