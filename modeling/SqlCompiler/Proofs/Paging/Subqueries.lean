import SqlCompiler.Legalize.Paging
import SqlCompiler.Proofs.Columns.Aliases
import SqlCompiler.Proofs.Columns.Ownership
import SqlCompiler.Proofs.Paging.Runs
import SqlCompiler.Proofs.Queries.Reachable

/-!
# Queries over a subquery with their body

Paging is separated from a query by moving its body into a new query, which becomes its only source.
The columns of the query stay, as others refer to them, and read copies of themselves.  The subquery
computes the blocks that the query computed, and the query has a block for each row of the subquery
that its new condition keeps.  Its columns read there what they selected before.

Nothing else in the store changes when a query is split so, and nothing is mentioned that was not
mentioned before.

Main results:

- Definition `Store.Splits`: a query has been split.
- Theorem `Store.Splits.mem_successors`: queries lead to what they led to and to the subquery.
- Theorem `Store.Splits.sameRuns`: all queries give what they gave if the query that is split does.
- Definition `Store.copyOf`: the copy of a column.
- Definition `Store.Wraps`: the body of a query has been moved.
- Theorem `Store.wraps_wrapBody`: what moving a body changes, and what it leaves.
- Definition `Store.Nests`: the body of a query has moved into a subquery.
- Definition `Store.Restates`: what is left of the query is its condition, its paging and its
  ordering.
- Theorem `Store.Nests.inner_sound` and `Store.Nests.inner_complete`: the subquery selects what the
  query selected.
- Theorem `Store.Nests.outer_sound` and `Store.Nests.outer_complete`: the query selects what it reads
  in the rows of the subquery.
-/

namespace SqlCompiler.Store

/-- A query has been split into a query over a new subquery. -/
structure Splits (s : Store) (q : QueryRef) (s' : Store) : Prop where
  content : s' = { s with queries := s'.queries, columns := s'.columns }
  queries : s'.queries.size = s.queries.size + 1
  others : ∀ r ≠ q, r ≠ ⟨s.queries.size⟩ → s'.query r = s.query r
  kept : ∀ r ≠ q, ∀ c ∈ (s.query r).columns, s'.column c = s.column c
  columns : (s'.query q).columns = (s.query q).columns
  operators : (s'.query q).setOperators = (s.query q).setOperators
  sources : (s'.query q).sources = [.ofQuery ⟨s.queries.size⟩]
  innerSources : (s'.query ⟨s.queries.size⟩).sources = (s.query q).sources
  scalars : queriesOf (s'.walkQuery q) ⊆ ⟨s.queries.size⟩ :: queriesOf (s.walkQuery q)
  innerScalars : queriesOf (s'.walkQuery ⟨s.queries.size⟩) ⊆ queriesOf (s.walkQuery q)

namespace Splits

variable {s s' : Store} {q r : QueryRef} (h : s.Splits q s')
include h

theorem selected_of_ne (hq : r ≠ q) (hinner : r ≠ ⟨s.queries.size⟩) :
    s'.selected r = s.selected r := by
  rw [selected, selected, h.others r hq hinner]
  exact List.map_congr_left fun c hc => by rw [h.kept r hq c hc]

theorem walkQuery_of_ne (hq : r ≠ q) (hinner : r ≠ ⟨s.queries.size⟩) :
    s'.walkQuery r = s.walkQuery r := by
  rw [← scalars_query, ← scalars_query, h.others r hq hinner, h.selected_of_ne hq hinner]

theorem allSources_inner :
    (s'.query ⟨s.queries.size⟩).allSources = (s.query q).allSources := by
  rw [Query.allSources, Query.allSources, h.innerSources]

theorem allSources_outer : (s'.query q).allSources = [.ofQuery ⟨s.queries.size⟩] := by
  rw [Query.allSources, h.sources]
  rfl

/-! ## Queries of a statement -/

theorem cteBody?_eq : s'.cteBody? = s.cteBody? := by
  funext source
  rw [h.content]
  rfl

/-- Every query leads to what it led to, the subquery to what the query led to, and the query to the
subquery too. -/
theorem mem_successors {p : QueryRef} (hr : r ∈ s'.successors p) :
    r = ⟨s.queries.size⟩ ∨ (p = ⟨s.queries.size⟩ ∧ r ∈ s.successors q) ∨ r ∈ s.successors p := by
  rw [successors, h.cteBody?_eq] at hr
  by_cases hinner : p = ⟨s.queries.size⟩
  · subst hinner
    rw [h.allSources_inner] at hr
    refine .inr (.inl ⟨rfl, ?_⟩)
    rcases List.mem_append.mp hr with hr | hr
    · exact List.mem_append_left _ (h.innerScalars hr)
    · exact List.mem_append_right _ hr
  · by_cases hpq : p = q
    · subst hpq
      rw [h.allSources_outer] at hr
      rcases List.mem_append.mp hr with hr | hr
      · rcases List.mem_cons.mp (h.scalars hr) with hr | hr
        · exact .inl hr
        · exact .inr (.inr (List.mem_append_left _ hr))
      · simp [cteBody?, Source.table?, Source.ofQuery] at hr
    · rw [h.walkQuery_of_ne hpq hinner, h.others p hpq hinner] at hr
      exact .inr (.inr hr)

/-- What was embedded in a statement still is. -/
theorem embeds {t : StatementRef} (hq : q.index < s.queries.size) (hr : s.Embeds t r) :
    s'.Embeds t r := by
  have hinner : (⟨s.queries.size⟩ : QueryRef) ≠ q := fun heq =>
    Nat.lt_irrefl q.index (by rw [← heq] at hq ⊢; exact hq)
  have hnothing : s.query ⟨s.queries.size⟩ = {} := query_of_le (Nat.le_refl _)
  have hsides {p b : QueryRef} (hb : s.HasBlock p b) : s'.HasBlock p b := by
    induction hb with
    | self => exact .self
    | @side b r _ hr ih =>
      refine .side ih ?_
      by_cases hbq : b = q
      · rw [hbq] at hr ⊢
        rwa [Query.sides, h.operators]
      · by_cases hbi : b = ⟨s.queries.size⟩
        · rw [hbi, hnothing] at hr
          cases hr
        · rwa [h.others b hbq hbi]
  have hcontent : s'.statement = s.statement ∧ s'.cte = s.cte := by
    rw [h.content]
    exact ⟨rfl, rfl⟩
  induction hr with
  | root =>
    rw [← hcontent.1]
    exact .root
  | cte hc =>
    rw [← hcontent.2]
    exact .cte (by rw [hcontent.1]; exact hc)
  | @subquery p b r _ hb hr ih =>
    by_cases hbq : b = q
    · subst hbq
      refine .subquery (q := ⟨s.queries.size⟩) (.subquery ih (hsides hb) ?_) .self ?_
      · rw [Query.subqueries, h.allSources_outer]
        exact List.mem_singleton_self _
      · rwa [Query.subqueries, h.allSources_inner]
    · by_cases hbi : b = ⟨s.queries.size⟩
      · rw [hbi, hnothing] at hr
        cases hr
      · exact .subquery ih (hsides hb) (by rwa [h.others b hbq hbi])

/-! ## Runs -/

variable {V Block : Type} {E : Engine V Block}

/-- The queries of the new store mention only queries of it. -/
theorem closed (hclosed : s.Closed E) : s'.Closed E := by
  intro p r hr
  rw [h.queries]
  have hold {p : QueryRef} (hr : r ∈ (s.query p).mentions E.reads (s.selected p)) :
      r.index < s.queries.size + 1 := Nat.lt_succ_of_lt (hclosed p r hr)
  rw [Query.mentions, scalars_query] at hr
  by_cases hinner : p = ⟨s.queries.size⟩
  · subst hinner
    rw [h.allSources_inner] at hr
    refine hold (p := q) ?_
    rw [Query.mentions, scalars_query]
    rcases List.mem_append.mp hr with hr | hr
    · exact List.mem_append_left _ (h.innerScalars hr)
    · exact List.mem_append_right _ hr
  · by_cases hpq : p = q
    · subst hpq
      rw [h.allSources_outer] at hr
      rcases List.mem_append.mp hr with hr | hr
      · rcases List.mem_cons.mp (h.scalars hr) with rfl | hr
        · exact Nat.lt_succ_self _
        · refine hold (p := p) (List.mem_append_left _ ?_)
          rw [scalars_query]
          exact hr
      · simp [Source.tableQueries, Source.table?, Source.ofQuery] at hr
    · rw [← scalars_query, h.others p hpq hinner, h.selected_of_ne hpq hinner] at hr
      exact hold hr

variable [DecidableEq V]

/-- The other queries give what they gave. -/
theorem gives_iff {run : Run V} {outer : Env V} {rows : List (QueryRow V)} (hq : r ≠ q)
    (hinner : r ≠ ⟨s.queries.size⟩) :
    s'.Gives E run outer r rows ↔ s.Gives E run outer r rows := by
  have hquery := h.others r hq hinner
  refine ⟨fun hgives => hgives.congr_store hquery.symm fun c hc => ?_,
    fun hgives => hgives.congr_store hquery fun c hc => ?_⟩
  · rw [hquery] at hc
    rw [h.kept r hq c hc]
  · rw [h.kept r hq c hc]

/-- All queries give what they gave if the query that is split does: with the rows of the subquery,
it gives rows that it gave before, and all of these, with some rows of the subquery. -/
theorem sameRuns (hq : q.index < s.queries.size) (hclosed : s.Closed E)
    (hsound : ∀ run outer rows, s'.Gives E run outer ⟨s.queries.size⟩ (run ⟨s.queries.size⟩ outer) →
      s'.Gives E run outer q rows → s.Gives E run outer q rows)
    (hcomplete : ∀ run outer rows, s.Gives E run outer q rows → ∃ moved : List (QueryRow V),
      ∀ run' : Run V, (∀ r ∈ (s.query q).mentions E.reads (s.selected q), run r = run' r) →
        run' ⟨s.queries.size⟩ outer = moved →
          s'.Gives E run' outer ⟨s.queries.size⟩ moved ∧ s'.Gives E run' outer q rows) :
    s.SameRuns E s' := by
  have hsize : s.queries.size < s'.queries.size := by
    rw [h.queries]
    exact Nat.lt_succ_self _
  have hne {r : QueryRef} (hr : r.index < s.queries.size) : r ≠ ⟨s.queries.size⟩ := fun heq =>
    Nat.lt_irrefl _ (heq ▸ hr)
  refine ⟨Nat.le_of_lt hsize, fun r hr => ?_, fun run hruns r hr outer => ?_, fun run hruns => ?_⟩
  · by_cases hrq : r = q
    · rw [hrq, h.columns]
    · rw [h.others r hrq (hne hr)]
  · have hgives := hruns r (Nat.lt_trans hr hsize) outer
    by_cases hrq : r = q
    · subst hrq
      exact hsound run outer _ (hruns ⟨s.queries.size⟩ hsize outer) hgives
    · exact (h.gives_iff hrq (hne hr)).mp hgives
  · -- the subquery is given the rows that the query needs
    choose moved hmoved using fun outer => hcomplete run outer _ (hruns q hq outer)
    let run' : Run V := fun r => if r = ⟨s.queries.size⟩ then moved else run r
    have hinner : run' ⟨s.queries.size⟩ = moved := if_pos rfl
    have hold {r : QueryRef} (hr : r.index < s.queries.size) : run' r = run r := if_neg (hne hr)
    have hmentions (p r : QueryRef) (hr : r ∈ (s.query p).mentions E.reads (s.selected p)) :
        run r = run' r := (hold (hclosed p r hr)).symm
    refine ⟨run', fun r hr outer => ?_, fun r hr => hold hr⟩
    obtain ⟨hgives, hgives'⟩ := hmoved outer run' (hmentions q) (congrFun hinner outer)
    by_cases hri : r = ⟨s.queries.size⟩
    · rw [hri, hinner]
      exact hgives
    · have hr : r.index < s.queries.size := by
        rw [h.queries] at hr
        exact Nat.lt_of_le_of_ne (Nat.le_of_lt_succ hr) fun heq => hri (by cases r; simp_all)
      rw [hold hr]
      by_cases hrq : r = q
      · rw [hrq]
        exact hgives'
      · exact (h.gives_iff hrq hri).mpr ((hruns r hr outer).congr_run (hmentions r))

end Splits

end SqlCompiler.Store

namespace SqlCompiler.Store

section

variable {s s' : Store} {q r inner : QueryRef} {c d : ColumnRef} {columns : List ColumnRef}

/-- The copy that is made of a column when copies are made of some columns. -/
def copyOf (s : Store) (columns : List ColumnRef) (c : ColumnRef) : ColumnRef :=
  ⟨s.columns.size + columns.idxOf c⟩

theorem copyOf_lt (hc : c ∈ columns) :
    (s.copyOf columns c).index < s.columns.size + columns.length :=
  Nat.add_lt_add_left (List.idxOf_lt_length_iff.mpr hc) _

/-- The column that a copy is made of. -/
def originalOf (s : Store) (columns : List ColumnRef) (d : ColumnRef) : ColumnRef :=
  (columns[d.index - s.columns.size]?).getD d

theorem originalOf_copyOf (hc : c ∈ columns) : s.originalOf columns (s.copyOf columns c) = c := by
  rw [originalOf, copyOf, Nat.add_sub_cancel_left, List.getElem?_idxOf hc]
  rfl

theorem query_addQuery_ne (parent : Option QueryRef) (h : r ≠ ⟨s.queries.size⟩) :
    (s.addQuery parent).2.query r = s.query r := by
  have hindex : r.index ≠ s.queries.size := fun heq => h (by rw [← heq])
  simp [addQuery, query, Array.getElem?_push, hindex]

/-! ## Columns -/

theorem query_addFreshColumn_self (hinner : inner.index < s.queries.size) (e : Scalar)
    (aliasName : Option String) :
    (s.addFreshColumn inner e aliasName).2.query inner =
      { s.query inner with columns := (s.query inner).columns ++ [⟨s.columns.size⟩] } :=
  query_modifyQuery_self (s := { s with columns := _ }) hinner

theorem query_addFreshColumn_ne (hr : r ≠ inner) (e : Scalar) (aliasName : Option String) :
    (s.addFreshColumn inner e aliasName).2.query r = s.query r :=
  query_modifyQuery_ne (s := { s with columns := _ }) hr

theorem column_addFreshColumn_self (inner : QueryRef) (e : Scalar) (aliasName : Option String) :
    (s.addFreshColumn inner e aliasName).2.column ⟨s.columns.size⟩ =
      { parent := inner, expression := e, aliasName } := by
  simp [addFreshColumn, column, modifyQuery]

theorem column_addFreshColumn_of_lt (hc : c.index < s.columns.size) (inner : QueryRef) (e : Scalar)
    (aliasName : Option String) :
    (s.addFreshColumn inner e aliasName).2.column c = s.column c := by
  simp [addFreshColumn, column, modifyQuery, Array.getElem?_push, Nat.ne_of_lt hc]

theorem size_addFreshColumn (inner : QueryRef) (e : Scalar) (aliasName : Option String) :
    (s.addFreshColumn inner e aliasName).2.columns.size = s.columns.size + 1 :=
  Array.size_push _

/-- Columns read copies of themselves that have been added to a query. -/
structure Moves (s : Store) (inner : QueryRef) (columns : List ColumnRef) (s' : Store) : Prop where
  content : s' = { s with queries := s'.queries, columns := s'.columns }
  queries : s'.queries.size = s.queries.size
  size : s'.columns.size = s.columns.size + columns.length
  gains : s'.query inner = { s.query inner with
    columns := (s.query inner).columns ++ columns.map (s.copyOf columns) }
  others : ∀ r ≠ inner, s'.query r = s.query r
  moved : ∀ c ∈ columns,
    s'.column c = { s.column c with expression := .column (s.copyOf columns c) }
  copied : ∀ c ∈ columns, s'.column (s.copyOf columns c) =
    { parent := inner, expression := (s.column c).expression, aliasName := (s.column c).aliasName }
  kept : ∀ c ∉ columns, c.index < s.columns.size → s'.column c = s.column c

/-- A column reads a copy of itself. -/
theorem moves_moveColumn (hinner : inner.index < s.queries.size) (hc : c.index < s.columns.size) :
    s.Moves inner [c] (s.moveColumn inner c) := by
  let copy : ColumnRef := ⟨s.columns.size⟩
  let added := (s.addFreshColumn inner (s.column c).expression (s.column c).aliasName).2
  have hcopy : s.copyOf [c] c = copy := by simp [copyOf, copy]
  have hne : copy ≠ c := fun h => Nat.lt_irrefl _ (h ▸ hc : copy.index < s.columns.size)
  have hadded : c.index < added.columns.size := by
    rw [size_addFreshColumn]
    exact Nat.lt_succ_of_lt hc
  refine ⟨rfl, by simp [moveColumn, modifyColumn, addFreshColumn], ?_, ?_, fun r hr => ?_, ?_, ?_,
    fun d hd hlt => ?_⟩
  · simp [moveColumn, modifyColumn, addFreshColumn, modifyQuery]
  · rw [List.map_singleton, hcopy]
    exact query_addFreshColumn_self hinner _ _
  · exact query_addFreshColumn_ne hr _ _
  · rw [List.forall_mem_singleton, hcopy]
    exact (column_modifyColumn_self hadded).trans
      (by rw [column_addFreshColumn_of_lt hc])
  · rw [List.forall_mem_singleton, hcopy]
    exact (column_modifyColumn_ne hne).trans (column_addFreshColumn_self _ _ _)
  · exact (column_modifyColumn_ne (by simpa using hd)).trans (column_addFreshColumn_of_lt hlt _ _ _)

/-- Columns are moved one after the other. -/
theorem moves_foldl (hinner : inner.index < s.queries.size) (hnodup : columns.Nodup)
    (hvalid : ∀ c ∈ columns, c.index < s.columns.size) :
    s.Moves inner columns (columns.foldl (fun s c => s.moveColumn inner c) s) := by
  induction columns generalizing s with
  | nil =>
    exact ⟨rfl, rfl, rfl, by simp, fun _ _ => rfl, by simp, by simp, fun _ _ _ => rfl⟩
  | cons c rest ih =>
    obtain ⟨hnew, hrest⟩ := List.nodup_cons.mp hnodup
    obtain ⟨hc, hvalid⟩ := List.forall_mem_cons.mp hvalid
    have hfirst := moves_moveColumn hinner hc
    have hlater := ih (s := s.moveColumn inner c) (by rw [hfirst.queries]; exact hinner) hrest
      fun d hd => by rw [hfirst.size]; exact Nat.lt_succ_of_lt (hvalid d hd)
    -- the copies of the rest come one later
    have hhead : s.copyOf (c :: rest) c = s.copyOf [c] c := by simp [copyOf]
    have htail : ∀ d ∈ rest, s.copyOf (c :: rest) d = (s.moveColumn inner c).copyOf rest d := by
      intro d hd
      have hne : c ≠ d := fun h => hnew (h ▸ hd)
      simp [copyOf, hfirst.size, List.idxOf_cons_ne _ hne, Nat.add_assoc, Nat.add_comm 1]
    have hcopy : (s.copyOf [c] c).index < (s.moveColumn inner c).columns.size := by
      rw [hfirst.size]
      exact copyOf_lt (List.mem_singleton_self c)
    have hcopyNew : s.copyOf [c] c ∉ rest := fun h =>
      Nat.not_le_of_lt (hvalid _ h) (Nat.le_add_right _ _)
    refine ⟨?_, hlater.queries.trans hfirst.queries, ?_, ?_, fun r hr => ?_, ?_, ?_,
      fun d hd hlt => ?_⟩
    · rw [List.foldl_cons, hlater.content, hfirst.content]
    · rw [List.foldl_cons, hlater.size, hfirst.size, List.length_singleton, List.length_cons,
        Nat.add_assoc, Nat.add_comm 1]
    · have hcopies : (c :: rest).map (s.copyOf (c :: rest)) =
          [c].map (s.copyOf [c]) ++ rest.map ((s.moveColumn inner c).copyOf rest) := by
        rw [List.map_cons, hhead, List.map_congr_left htail]
        rfl
      rw [List.foldl_cons, hlater.gains, hfirst.gains, hcopies, List.append_assoc]
    · exact (hlater.others r hr).trans (hfirst.others r hr)
    · refine List.forall_mem_cons.mpr ⟨?_, fun d hd => ?_⟩
      · rw [List.foldl_cons, hlater.kept c hnew (by rw [hfirst.size]; exact Nat.lt_succ_of_lt hc),
          hhead]
        exact hfirst.moved c (List.mem_singleton_self c)
      · have hne : d ∉ [c] := fun h => hnew (List.mem_singleton.mp h ▸ hd)
        rw [List.foldl_cons, hlater.moved d hd, hfirst.kept d hne (hvalid d hd), htail d hd]
    · refine List.forall_mem_cons.mpr ⟨?_, fun d hd => ?_⟩
      · rw [List.foldl_cons, hhead, hlater.kept _ hcopyNew hcopy]
        exact hfirst.copied c (List.mem_singleton_self c)
      · have hne : d ∉ [c] := fun h => hnew (List.mem_singleton.mp h ▸ hd)
        rw [List.foldl_cons, htail d hd, hlater.copied d hd, hfirst.kept d hne (hvalid d hd)]
    · obtain ⟨hdc, hdrest⟩ := List.ne_and_not_mem_of_not_mem_cons hd
      rw [List.foldl_cons, hlater.kept d hdrest (by rw [hfirst.size]; exact Nat.lt_succ_of_lt hlt),
        hfirst.kept d (by simpa using hdc) hlt]

/-! ## Bodies -/

/-- The body of a query has been moved into a new query, which is its only source. -/
structure Wraps (s : Store) (q : QueryRef) (s' : Store) : Prop where
  content : s' = { s with queries := s'.queries, columns := s'.columns }
  queries : s'.queries.size = s.queries.size + 1
  size : s'.columns.size = s.columns.size + (s.query q).columns.length
  outer : s'.query q = { s.query q with
    sources := [.ofQuery ⟨s.queries.size⟩]
    whereClause := .empty
    grouping := {}
    having := .empty
    distinct := false }
  inner : s'.query ⟨s.queries.size⟩ =
    { sources := (s.query q).sources
      whereClause := (s.query q).whereClause
      grouping := (s.query q).grouping
      having := (s.query q).having
      distinct := (s.query q).distinct
      columns := (s.query q).columns.map (s.copyOf (s.query q).columns)
      parent := some q }
  others : ∀ r ≠ q, r ≠ ⟨s.queries.size⟩ → s'.query r = s.query r
  moved : ∀ c ∈ (s.query q).columns,
    s'.column c = { s.column c with expression := .column (s.copyOf (s.query q).columns c) }
  copied : ∀ c ∈ (s.query q).columns, s'.column (s.copyOf (s.query q).columns c) =
    { parent := ⟨s.queries.size⟩
      expression := (s.column c).expression
      aliasName := (s.column c).aliasName }
  kept : ∀ c ∉ (s.query q).columns, c.index < s.columns.size → s'.column c = s.column c

/-- Moving the body of a query. -/
theorem wraps_wrapBody (hs : s.Owned) (hq : q.index < s.queries.size) :
    (s.wrapBody q).1 = ⟨s.queries.size⟩ ∧ s.Wraps q (s.wrapBody q).2 := by
  let inner : QueryRef := ⟨s.queries.size⟩
  have hne : inner ≠ q := fun h => Nat.lt_irrefl _ (h ▸ hq : inner.index < s.queries.size)
  let added := (s.addQuery (some q)).2
  have haddedSize : added.queries.size = s.queries.size + 1 := Array.size_push _
  have haddedQuery : added.query q = s.query q := query_addQuery (some q) hq
  let emptied := added.modifyQuery q fun query => { query with
    sources := [], whereClause := .empty, grouping := {}, having := .empty, distinct := false }
  let filled := emptied.modifyQuery inner fun query => { query with
    sources := (added.query q).sources
    whereClause := (added.query q).whereClause
    grouping := (added.query q).grouping
    having := (added.query q).having
    distinct := (added.query q).distinct }
  have hemptied : emptied.queries.size = s.queries.size + 1 := by
    simp only [emptied, size_modifyQuery, haddedSize]
  have hinner : inner.index < filled.queries.size := by
    simp only [filled, size_modifyQuery, hemptied]
    exact Nat.lt_succ_self _
  have houter : filled.query q = { s.query q with
      sources := [], whereClause := .empty, grouping := {}, having := .empty, distinct := false } := by
    simp only [filled, query_modifyQuery_ne hne.symm, emptied]
    rw [query_modifyQuery_self (by rw [haddedSize]; exact Nat.lt_succ_of_lt hq), haddedQuery]
  have hbody : filled.query inner =
      { sources := (s.query q).sources
        whereClause := (s.query q).whereClause
        grouping := (s.query q).grouping
        having := (s.query q).having
        distinct := (s.query q).distinct
        parent := some q } := by
    simp only [filled]
    rw [query_modifyQuery_self (by rw [hemptied]; exact Nat.lt_succ_self _), haddedQuery]
    have hnew : emptied.query inner = { parent := some q } := by
      simp only [emptied, query_modifyQuery_ne hne]
      exact query_addQuery_self (some q)
    rw [hnew]
  have hmoves : filled.Moves inner (s.query q).columns _ :=
    moves_foldl hinner (hs.nodup q) (hs.valid q)
  have hfinal : (s.wrapBody q).2 = ((s.query q).columns.foldl (fun s c => s.moveColumn inner c)
      filled).modifyQuery q fun query => { query with sources := query.sources ++ [.ofQuery inner] } := by
    rw [← haddedQuery]
    rfl
  refine ⟨rfl, ?_⟩
  rw [hfinal]
  have hsize := hmoves.queries.trans (show filled.queries.size = s.queries.size + 1 by
    simp only [filled, size_modifyQuery, hemptied])
  refine ⟨?_, ?_, hmoves.size, ?_, ?_, fun r hrq hri => ?_, hmoves.moved, hmoves.copied, hmoves.kept⟩
  · rw [Store.modifyQuery, hmoves.content]
    rfl
  · rw [size_modifyQuery, hsize]
  · rw [query_modifyQuery_self (by rw [hsize]; exact Nat.lt_succ_of_lt hq),
      hmoves.others q hne.symm, houter]
    rfl
  · rw [query_modifyQuery_ne hne, hmoves.gains, hbody]
    rfl
  · rw [query_modifyQuery_ne hrq, hmoves.others r hri]
    exact (query_modifyQuery_ne hri).trans
      ((query_modifyQuery_ne hrq).trans (query_addQuery_ne (some q) hri))

end

/-! ## Rows of the subquery -/

/-- A query selects from a subquery with its former body, whose columns include copies of those of
the query. -/
structure Nests (s : Store) (q inner : QueryRef) (condition : Condition) (s' : Store) : Prop where
  columns : (s'.query q).columns = (s.query q).columns
  outerBody : s'.body q = ⟨[.ofQuery inner], condition, {}, .empty, false⟩
  innerBody : s'.body inner = s.body q
  reads : ∀ c ∈ (s.query q).columns,
    (s'.column c).expression = .column (s.copyOf (s.query q).columns c)
  copied : ∀ c ∈ (s.query q).columns,
    (s'.column (s.copyOf (s.query q).columns c)).expression = (s.column c).expression
  copies : (s.query q).columns.map (s.copyOf (s.query q).columns) ⊆ (s'.query inner).columns

/-- The body of a query has moved into a subquery, which selects copies of its columns and further
ones.  The query keeps the condition, the paging and the ordering of `asked`. -/
structure Restates (s : Store) (q : QueryRef) (asked : Query) (added : List ColumnRef)
    (s' : Store) : Prop where
  content : s' = { s with queries := s'.queries, columns := s'.columns }
  queries : s'.queries.size = s.queries.size + 1
  outer : s'.query q = { asked with
    columns := (s.query q).columns
    setOperators := (s.query q).setOperators
    sources := [.ofQuery ⟨s.queries.size⟩]
    grouping := {}
    having := .empty
    distinct := false }
  inner : s'.query ⟨s.queries.size⟩ =
    { sources := (s.query q).sources
      whereClause := (s.query q).whereClause
      grouping := (s.query q).grouping
      having := (s.query q).having
      distinct := (s.query q).distinct
      columns := (s.query q).columns.map (s.copyOf (s.query q).columns) ++ added
      parent := some q }
  others : ∀ r ≠ q, r ≠ ⟨s.queries.size⟩ → s'.query r = s.query r
  reads : ∀ c ∈ (s.query q).columns,
    (s'.column c).expression = .column (s.copyOf (s.query q).columns c)
  copied : ∀ c ∈ (s.query q).columns,
    (s'.column (s.copyOf (s.query q).columns c)).expression = (s.column c).expression
  kept : ∀ c ∉ (s.query q).columns, c.index < s.columns.size → s'.column c = s.column c

/-- Once the body is moved, columns are added to the subquery and the query is given its condition,
its paging and its ordering. -/
theorem Wraps.restates {s w s' : Store} {q : QueryRef} {asked : Query} {added : List ColumnRef}
    (h : s.Wraps q w) (hs : s.Owned)
    (hcontent : s' = { w with queries := s'.queries, columns := s'.columns })
    (hqueries : s'.queries.size = w.queries.size)
    (houter : s'.query q = { asked with
      columns := (s.query q).columns
      setOperators := (s.query q).setOperators
      sources := [.ofQuery ⟨s.queries.size⟩]
      grouping := {}
      having := .empty
      distinct := false })
    (hinner : s'.query ⟨s.queries.size⟩ = { w.query ⟨s.queries.size⟩ with
      columns := (w.query ⟨s.queries.size⟩).columns ++ added })
    (hothers : ∀ r ≠ q, r ≠ ⟨s.queries.size⟩ → s'.query r = w.query r)
    (hkept : ∀ c : ColumnRef, c.index < w.columns.size → s'.column c = w.column c) :
    s.Restates q asked added s' := by
  have hlt {c : ColumnRef} (hc : c.index < s.columns.size) : c.index < w.columns.size := by
    rw [h.size]
    exact Nat.lt_of_lt_of_le hc (Nat.le_add_right _ _)
  refine ⟨hcontent.trans (by rw [h.content]), hqueries.trans h.queries, houter, ?_,
    fun r hrq hri => (hothers r hrq hri).trans (h.others r hrq hri), fun c hc => ?_, fun c hc => ?_,
    fun c hc hsize => (hkept c (hlt hsize)).trans (h.kept c hc hsize)⟩
  · rw [hinner, h.inner]
  · rw [hkept c (hlt (hs.valid q c hc)), h.moved c hc]
  · rw [hkept _ (by rw [h.size]; exact copyOf_lt hc), h.copied c hc]

namespace Restates

variable {s s' : Store} {q : QueryRef} {asked : Query} {added : List ColumnRef}
  (h : s.Restates q asked added s')
include h

theorem selected_outer :
    s'.selected q = (s.query q).columns.map fun c =>
      .column (s.copyOf (s.query q).columns c) := by
  rw [selected, h.outer]
  exact List.map_congr_left h.reads

theorem selected_inner :
    s'.selected ⟨s.queries.size⟩ = s.selected q ++ added.map fun d => (s'.column d).expression := by
  rw [selected, h.inner, List.map_append, List.map_map]
  exact congrArg (· ++ _) (List.map_congr_left h.copied)

/-- The query is split if its condition and its paging mention what its paging mentioned, its
ordering mentions nothing, and the further columns mention what its ordering mentioned. -/
theorem splits (hs : s.Owned)
    (hpages : ∀ r, .query r ∈ asked.whereClause.walk ∨ (∃ x ∈ asked.take, .query r ∈ x.walk) ∨
        (∃ x ∈ asked.skip, .query r ∈ x.walk) →
      (∃ x ∈ (s.query q).take, Scalar.query r ∈ x.walk) ∨
        ∃ x ∈ (s.query q).skip, Scalar.query r ∈ x.walk)
    (horders : ∀ item ∈ asked.orderBy, ∃ d, item.expression = .column d)
    (hadded : ∀ d ∈ added, ∀ r, .query r ∈ (s'.column d).expression.walk →
      ∃ item ∈ (s.query q).orderBy, Scalar.query r ∈ item.expression.walk) : s.Splits q s' where
  content := h.content
  queries := h.queries
  others := h.others
  kept r hr c hc := by
    refine h.kept c (fun hown => hr ?_) (hs.valid r c hc)
    rw [← hs.parent r c hc, ← hs.parent q c hown]
  columns := by rw [h.outer]
  operators := by rw [h.outer]
  sources := by rw [h.outer]
  innerSources := by rw [h.inner]
  scalars r hr := by
    rw [← scalars_query, mem_queriesOf, Query.mem_scalars, h.selected_outer, h.outer] at hr
    rw [List.mem_cons, ← scalars_query, mem_queriesOf, Query.mem_scalars]
    simp only [Query.allSources, List.mem_map] at hr
    rcases hr with ⟨x, ⟨c, -, rfl⟩, hx⟩ | hr | hr | ⟨source, hsource, hr⟩ | hr | hr | hr |
      ⟨item, hitem, hr⟩ | hr
    · simp [Scalar.walk] at hx
    · exact .inr (.inr ((hpages r (.inr (.inl hr))).imp_right .inl))
    · exact .inr (.inr ((hpages r (.inr (.inr hr))).imp_right .inl))
    · simp [Source.ofQuery, Source.all, Source.joined] at hsource
      simp [hsource, Source.walk, Source.query?] at hr
      exact .inl hr
    · exact .inr (.inr ((hpages r (.inl hr)).imp_right .inl))
    · simp [walkScalars] at hr
    · simp [Condition.empty, Condition.walk, walkBranches] at hr
    · obtain ⟨d, hd⟩ := horders item hitem
      simp [hd, Scalar.walk] at hr
    · tauto
  innerScalars r hr := by
    rw [← scalars_query, mem_queriesOf, Query.mem_scalars, h.selected_inner, h.inner] at hr
    rw [← scalars_query, mem_queriesOf, Query.mem_scalars]
    rcases hr with ⟨x, hx, hr⟩ | ⟨x, hx, -⟩ | ⟨x, hx, -⟩ | hr | hr | hr | hr | ⟨item, hitem, -⟩ |
      ⟨operator, hoperator, -⟩
    · rcases List.mem_append.mp hx with hx | hx
      · exact .inl ⟨x, hx, hr⟩
      · obtain ⟨d, hd, rfl⟩ := List.mem_map.mp hx
        have hordering := hadded d hd r hr
        tauto
    · cases hx
    · cases hx
    · exact .inr (.inr (.inr (.inl hr)))
    · tauto
    · tauto
    · tauto
    · cases hitem
    · cases hoperator

/-- The query selects from a subquery with its body. -/
theorem nests (horders : ∀ item ∈ asked.orderBy, ∃ d, item.expression = .column d)
    (haggregates : s'.aggregates (s'.query ⟨s.queries.size⟩) = s.aggregates (s.query q)) :
    s.Nests q ⟨s.queries.size⟩ asked.whereClause s' where
  columns := by rw [h.outer]
  outerBody := by
    have hcolumns : (s'.selected q).any (·.anyPart Scalar.isAggregate) = false := by
      rw [h.selected_outer, List.any_map, List.any_eq_false]
      exact fun c _ => Bool.false_ne_true
    have horder : (asked.orderBy.any fun item => item.expression.anyPart Scalar.isAggregate) =
        false := by
      rw [List.any_eq_false]
      intro item hitem
      obtain ⟨d, hd⟩ := horders item hitem
      rw [hd]
      exact Bool.false_ne_true
    rw [body, aggregates, ← selected, hcolumns, h.outer]
    dsimp only
    rw [horder]
    rfl
  innerBody := by rw [body, body, haggregates, h.inner]
  reads := h.reads
  copied := h.copied
  copies := by
    rw [h.inner]
    exact List.subset_append_left _ _

end Restates

section

variable {V Block : Type}

/-- A selection of the subquery, with the values of the columns that are copied. -/
def readCopies (s : Store) (q : QueryRef) (y : Selection V Block) : Selection V Block where
  block := y.block
  value c := y.value (s.copyOf (s.query q).columns c)

/-- A selection of the query, with its values under the copies of its columns. -/
def writeCopies (s : Store) (q : QueryRef) (x : Selection V Block) : Selection V Block where
  block := x.block
  value d := x.value (s.originalOf (s.query q).columns d)

/-- The block that a row of a subquery becomes. -/
def blockOfRow (E : Engine V Block) (outer : Env V) (s' : Store) (inner : QueryRef)
    (y : Selection V Block) : Block :=
  E.row outer (s'.rowOf inner y)

/-- What a query selects on a row of a subquery whose columns it reads. -/
def selectRow (E : Engine V Block) (outer : Env V) (s' : Store) (inner : QueryRef) (s : Store)
    (q : QueryRef) (y : Selection V Block) : Selection V Block where
  block := blockOfRow E outer s' inner y
  value c := y.value (s.copyOf (s.query q).columns c)

/-- Whether a condition keeps a row of a subquery. -/
def keepsRow (E : Engine V Block) (run : Run V) (outer : Env V) (s' : Store) (inner : QueryRef)
    (condition : Condition) (y : Selection V Block) : Bool :=
  condition.truthBy (fun p => E.truth run p (blockOfRow E outer s' inner y)) == some true

end

theorem value_writeCopies {V Block : Type} {s : Store} {q : QueryRef} {c : ColumnRef}
    (hc : c ∈ (s.query q).columns) (x : Selection V Block) :
    (s.writeCopies q x).value (s.copyOf (s.query q).columns c) = x.value c :=
  congrArg x.value (originalOf_copyOf hc)

/-- A row is given with the values it was copied with. -/
theorem rowOf_writeCopies {V Block : Type} {s : Store} {q : QueryRef} (x : Selection V Block) :
    s.rowOf q (s.readCopies q (s.writeCopies q x)) = s.rowOf q x := by
  funext c
  unfold rowOf
  split
  · next hc => exact congrArg some (value_writeCopies hc x)
  · rfl

/-- Without a condition, all rows are kept. -/
theorem filter_keepsRow_empty {V Block : Type} {E : Engine V Block} {run : Run V} {outer : Env V}
    {s' : Store} {inner : QueryRef} (ys : List (Selection V Block)) :
    ys.filter (keepsRow E run outer s' inner .empty) = ys :=
  List.filter_eq_self.mpr fun _ _ => rfl

/-- A column is no row number. -/
theorem not_isRowNumber_column (c : ColumnRef) : ¬(Scalar.column c).IsRowNumber := by
  rintro ⟨items, h⟩
  cases h

/-- A column is worth what its row holds under it. -/
theorem value_blockOfRow {V Block : Type} {E : Engine V Block} {run : Run V} {outer : Env V}
    {s' : Store} {inner : QueryRef} {d : ColumnRef} (hd : d ∈ (s'.query inner).columns)
    (y : Selection V Block) :
    E.value run (.column d) (blockOfRow E outer s' inner y) = y.value d :=
  E.value_column run outer d _ _ (if_pos hd)

namespace Nests

variable {V Block : Type} {E : Engine V Block} {run : Run V} {outer : Env V} {s s' : Store}
  {q inner : QueryRef} {condition : Condition} (h : s.Nests q inner condition s')
include h

theorem copy_mem {c : ColumnRef} (hc : c ∈ (s.query q).columns) :
    s.copyOf (s.query q).columns c ∈ (s'.query inner).columns :=
  h.copies (List.mem_map_of_mem hc)

theorem rowOf_selectRow (y : Selection V Block) :
    s'.rowOf q (selectRow E outer s' inner s q y) = s.rowOf q (s.readCopies q y) := by
  funext c
  rw [rowOf, rowOf, h.columns]
  rfl

/-- What the subquery selects under the copies, the query selected before. -/
theorem inner_sound {ys : List (Selection V Block)} (hys : s'.Computes E run outer inner ys) :
    s.Computes E run outer q (ys.map (s.readCopies q)) where
  blocks := by
    rw [List.map_map, ← h.innerBody]
    exact hys.blocks
  columns c hc := by
    have hcopy := hys.columns _ (h.copy_mem hc)
    rw [h.copied c hc, ← List.map_id ys] at hcopy
    refine ComputesAs.map ?_ ?_ hcopy
    all_goals exact fun _ _ => rfl

/-- What the query selected, the subquery selects under the copies. -/
theorem inner_complete {α : Type} {zs : List α} {f g : α → Selection V Block}
    (hzs : s.Computes E run outer q (zs.map f)) (hblock : ∀ z ∈ zs, (g z).block = (f z).block)
    (hvalue : ∀ z ∈ zs, ∀ c ∈ (s.query q).columns,
      (g z).value (s.copyOf (s.query q).columns c) = (f z).value c)
    (hrest : ∀ d ∈ (s'.query inner).columns,
      d ∉ (s.query q).columns.map (s.copyOf (s.query q).columns) →
        ComputesAs E run (s'.column d).expression d (zs.map g)) :
    s'.Computes E run outer inner (zs.map g) where
  blocks := by
    rw [h.innerBody]
    refine List.Perm.trans (List.Perm.of_eq ?_) hzs.blocks
    rw [List.map_map, List.map_map]
    exact List.map_congr_left hblock
  columns d hd := by
    by_cases hcopy : d ∈ (s.query q).columns.map (s.copyOf (s.query q).columns)
    · obtain ⟨c, hc, rfl⟩ := List.mem_map.mp hcopy
      rw [h.copied c hc]
      exact (hzs.columns c hc).map hblock fun z hz => hvalue z hz c hc
    · exact hrest d hd hcopy

/-- The query selects what it reads in the rows of the subquery that its condition keeps. -/
theorem outer_sound {xs ys : List (Selection V Block)} (hxs : s'.Computes E run outer q xs)
    (hrun : run inner outer = ys.map (s'.rowOf inner)) :
    ∃ kept : List (Selection V Block),
      kept.Perm (ys.filter (keepsRow E run outer s' inner condition)) ∧
      xs.map (·.block) = kept.map (blockOfRow E outer s' inner) ∧
      xs.map (s'.rowOf q) = kept.map fun y => s.rowOf q (s.readCopies q y) := by
  have hblocks := hxs.blocks
  rw [h.outerBody, E.blocks_ofQuery, hrun, List.map_map, List.filter_map] at hblocks
  obtain ⟨kept, hkept, hperm⟩ := exists_map_of_perm hblocks
  refine ⟨kept, hperm, hkept, ?_⟩
  -- a block of the query determines what is selected there
  have hlength : xs.length = kept.length := by simpa using congrArg List.length hkept
  refine List.ext_getElem (by simpa using hlength) fun i hi hi' => ?_
  rw [List.length_map] at hi hi'
  have hblock : xs[i].block = blockOfRow E outer s' inner kept[i] := by
    have hget := List.getElem_of_eq hkept (by simpa using hi)
    rwa [List.getElem_map, List.getElem_map] at hget
  rw [List.getElem_map, List.getElem_map]
  funext c
  rw [rowOf, rowOf, h.columns]
  split
  · next hc =>
    have hvalue := (hxs.columns c (h.columns ▸ hc)).value (by
      rw [h.reads c hc]
      exact not_isRowNumber_column _) _ (List.getElem_mem hi)
    rw [hvalue, h.reads c hc, hblock, value_blockOfRow (h.copy_mem hc)]
    rfl
  · rfl

/-- All rows of the subquery that its condition keeps are there for the query. -/
theorem outer_complete {ys kept : List (Selection V Block)}
    (hrun : run inner outer = ys.map (s'.rowOf inner))
    (hkept : kept.Perm (ys.filter (keepsRow E run outer s' inner condition))) :
    s'.Computes E run outer q (kept.map (selectRow E outer s' inner s q)) where
  blocks := by
    rw [h.outerBody, E.blocks_ofQuery, hrun, List.map_map, List.map_map, List.filter_map]
    exact hkept.map _
  columns c hc := by
    rw [h.columns] at hc
    rw [h.reads c hc]
    refine ⟨fun _ x hx => ?_, fun items hitems => (not_isRowNumber_column _ ⟨items, hitems⟩).elim⟩
    obtain ⟨y, -, rfl⟩ := List.mem_map.mp hx
    exact (value_blockOfRow (h.copy_mem hc) y).symm

end Nests

end SqlCompiler.Store
