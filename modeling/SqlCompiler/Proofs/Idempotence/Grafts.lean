import SqlCompiler.Proofs.Columns.Names
import SqlCompiler.Proofs.Idempotence.Narrowing

/-!
# Queries put above others

Where a dialect names one table only, the query of an update or a delete becomes a filter that a new
query reads, and values are computed by further new queries.  The new ones are not paged, and lead to
nothing but what the statement led to.

Main results:

- Definition `Store.Grafts`: queries that are not paged have been added above those of a statement.
- Theorem `Store.grafts_rebase`: a query is moved below a copy of its target.
- Theorem `Store.grafts_rebaseItems`: values are computed by new queries.
-/

namespace SqlCompiler.Store

variable {s s' : Store} {t : StatementRef} {q r : QueryRef}

/-! ## Queries that are added -/

/-- A statement leads to a query, or the query is a new one. -/
def Admits (s : Store) (t : StatementRef) (q : QueryRef) : Prop :=
  s.Reaches t q ∨ s.queries.size ≤ q.index

/-- Queries that are not paged have been added, and nothing is led to but them and what a statement
led to.  The other queries are paged as they were. -/
structure Grafts (s : Store) (t : StatementRef) (s' : Store) : Prop where
  ctes : s'.ctes = s.ctes
  statements : s'.statements = s.statements
  size : s.queries.size ≤ s'.queries.size
  distinct : ∀ q : QueryRef, q.index < s.queries.size →
    (s'.query q).distinct = (s.query q).distinct
  hasPagination : ∀ q : QueryRef, q.index < s.queries.size →
    (s'.query q).hasPagination = (s.query q).hasPagination
  fresh : ∀ q : QueryRef, s.queries.size ≤ q.index → (s'.query q).hasPagination = false
  successors : ∀ q, s.Admits t q → ∀ r ∈ s'.successors q, s.Admits t r

namespace Grafts

theorem refl (s : Store) (t : StatementRef) : s.Grafts t s where
  ctes := rfl
  statements := rfl
  size := Nat.le_refl _
  distinct _ _ := rfl
  hasPagination _ _ := rfl
  fresh q hq := by
    rw [query_of_le hq]
    rfl
  successors q hq r hr := by
    rcases hq with hq | hq
    · exact .inl (.step hq hr)
    · rw [successors_of_le hq] at hr
      cases hr

/-- What the clauses of a query that is admitted lead to is admitted. -/
theorem admits (h : s.Grafts t s') (hq : s.Admits t q)
    (hr : .query r ∈ (s'.query q).scalars (s'.selected q) ∨
      ∃ source ∈ (s'.query q).allSources, s'.cteBody? source = some r) : s.Admits t r :=
  h.successors q hq r (mem_successors.mpr hr)

theorem addQuery (h : s.Grafts t s') (parent : Option QueryRef) :
    s.Grafts t (s'.addQuery parent).2 := by
  have hold (q : QueryRef) (hq : q.index < s.queries.size) :
      (s'.addQuery parent).2.query q = s'.query q :=
    query_addQuery parent (Nat.lt_of_lt_of_le hq h.size)
  refine ⟨h.ctes, h.statements, ?_, fun q hq => ?_, fun q hq => ?_, fun q hq => ?_,
    fun q hq r hr => ?_⟩
  · exact Nat.le_trans h.size (by simp [Store.addQuery])
  · rw [hold q hq, h.distinct q hq]
  · rw [hold q hq, h.hasPagination q hq]
  · rcases query_addQuery_cases s' parent q with hquery | hquery <;> rw [hquery]
    · exact h.fresh q hq
    · rfl
  · rw [mem_successors, selected] at hr
    rcases query_addQuery_cases s' parent q with hquery | hquery
    · rw [hquery] at hr
      exact h.admits hq hr
    · rw [hquery] at hr
      simp [Query.mem_scalars, Query.allSources, walkScalars] at hr

/-- The clauses of a query that is admitted change. -/
theorem modifyQuery (h : s.Grafts t s') {f : Query → Query} (hq : s.Admits t q)
    (hdistinct : ∀ query, (f query).distinct = query.distinct)
    (hpagination : ∀ query : Query, (f query).hasPagination = query.hasPagination)
    (hscalars : ∀ r, .query r ∈ (f (s'.query q)).scalars
      ((f (s'.query q)).columns.map fun c => (s'.column c).expression) → s.Admits t r)
    (hsources : ∀ source ∈ (f (s'.query q)).allSources, ∀ r, s'.cteBody? source = some r →
      s.Admits t r) :
    s.Grafts t (s'.modifyQuery q f) := by
  have hquery (r : QueryRef) := query_modifyQuery s' q r f
  refine ⟨h.ctes, h.statements, ?_, fun r hr => ?_, fun r hr => ?_, fun r hr => ?_,
    fun p hp r hr => ?_⟩
  · rw [size_modifyQuery]
    exact h.size
  · rw [← h.distinct r hr]
    rcases hquery r with ⟨rfl, hr⟩ | hr <;> rw [hr]
    exact hdistinct _
  · rw [← h.hasPagination r hr]
    rcases hquery r with ⟨rfl, hr⟩ | hr <;> rw [hr]
    exact hpagination _
  · rw [← h.fresh r hr]
    rcases hquery r with ⟨rfl, hr⟩ | hr <;> rw [hr]
    exact hpagination _
  · rw [mem_successors, selected] at hr
    rcases hquery p with ⟨rfl, hquery⟩ | hquery
    · rw [hquery] at hr
      obtain hr | ⟨source, hsource, hr⟩ := hr
      · exact hscalars r hr
      · exact hsources source hsource r hr
    · rw [hquery] at hr
      exact h.admits hp hr

/-- A column is added to a new query. -/
theorem addFreshColumn (h : s.Grafts t s') {e : Scalar} (aliasName : Option String)
    (hq : s.queries.size ≤ q.index) (he : ∀ r, .query r ∈ e.walk → s.Admits t r) :
    s.Grafts t (s'.addFreshColumn q e aliasName).2 := by
  let pushed : Store := { s' with columns := s'.columns.push { parent := q, expression := e, aliasName } }
  have hcolumn (c : ColumnRef) :
      pushed.column c = s'.column c ∨ (pushed.column c).expression = e := by
    by_cases hc : c.index = s'.columns.size
    · exact .inr (by simp [pushed, column, hc])
    · exact .inl (by simp [pushed, column, Array.getElem?_push, hc])
  have hpushed : s.Grafts t pushed := by
    refine ⟨h.ctes, h.statements, h.size, h.distinct, h.hasPagination, h.fresh,
      fun p hp r hr => ?_⟩
    rw [mem_successors, Query.mem_scalars] at hr
    rcases hr with (⟨x, hx, hr⟩ | hr) | hr
    · obtain ⟨c, hc, rfl⟩ := List.mem_map.mp hx
      rcases hcolumn c with hcolumn | hcolumn <;> rw [hcolumn] at hr
      · exact h.admits hp (.inl (Query.mem_scalars.mpr (.inl ⟨_, List.mem_map_of_mem hc, hr⟩)))
      · exact he r hr
    · exact h.admits hp (.inl (Query.mem_scalars.mpr (.inr hr)))
    · exact h.admits hp (.inr hr)
  refine hpushed.modifyQuery (.inr hq) (fun _ => rfl) (fun _ => rfl) (fun r hr => ?_)
    fun source hsource r hr => hpushed.admits (.inr hq) (.inr ⟨source, hsource, hr⟩)
  rw [Query.mem_scalars, List.map_append] at hr
  rcases hr with ⟨x, hx, hr⟩ | hr
  · rcases List.mem_append.mp hx with hx | hx
    · exact hpushed.admits (.inr hq) (.inl (Query.mem_scalars.mpr (.inl ⟨x, hx, hr⟩)))
    · rw [List.mem_singleton.mp hx] at hr
      have hadded : (pushed.column ⟨s'.columns.size⟩).expression = e := by simp [pushed, column]
      exact he r (hadded ▸ hr)
  · exact hpushed.admits (.inr hq) (.inl (Query.mem_scalars.mpr (.inr hr)))

/-- The filter of a query that is admitted changes, and columns may be dropped. -/
theorem modifyWhere (h : s.Grafts t s') (p : Query → Option QueryRef)
    (l : Query → List ColumnRef) (w : Query → Condition) (hq : s.Admits t q)
    (hcolumns : ∀ query, l query ⊆ query.columns)
    (hwhere : ∀ r, .query r ∈ (w (s'.query q)).walk →
      .query r ∈ (s'.query q).whereClause.walk ∨ s.Admits t r) :
    s.Grafts t (s'.modifyQuery q fun query => { query with
      parent := p query, columns := l query, whereClause := w query }) := by
  refine h.modifyQuery hq (fun _ => rfl) (fun _ => rfl) (fun r hr => ?_)
    fun source hsource r hr => h.admits hq (.inr ⟨source, hsource, hr⟩)
  have hold (hr : _) : s.Admits t r := h.admits hq (.inl (Query.mem_scalars.mpr hr))
  rw [Query.mem_scalars] at hr
  rcases hr with ⟨x, hx, hr⟩ | hr | hr | hr | hr | hr
  · exact hold (.inl ⟨x, List.map_subset _ (hcolumns _) hx, hr⟩)
  · exact hold (.inr (.inl hr))
  · exact hold (.inr (.inr (.inl hr)))
  · exact hold (.inr (.inr (.inr (.inl hr))))
  · exact (hwhere r hr).elim (fun hr => hold (.inr (.inr (.inr (.inr (.inl hr)))))) id
  · exact hold (.inr (.inr (.inr (.inr (.inr hr)))))

/-- A table is added to the sources of a query that is admitted. -/
theorem addTable (h : s.Grafts t s') {copy : TableRef} (hq : s.Admits t q)
    (hcopy : ∀ r, s'.cteBody? (.ofTable copy) = some r → s.Admits t r) :
    s.Grafts t (s'.modifyQuery q fun query =>
      { query with sources := query.sources ++ [.ofTable copy] }) := by
  have hsources {source : Source} {query : Query} (h : source ∈ Query.allSources
      { query with sources := query.sources ++ [.ofTable copy] }) :
      source ∈ query.allSources ∨ source = .ofTable copy := by
    simpa [Query.allSources, Source.ofTable, Source.all, Source.joined, or_and_right, exists_or]
      using h
  refine h.modifyQuery hq (fun _ => rfl) (fun _ => rfl) (fun r hr => ?_)
    fun source hsource r hr => ?_
  · refine h.admits hq (.inl ?_)
    rw [Query.mem_scalars] at hr ⊢
    refine hr.imp_right (.imp_right (.imp_right (.imp_left ?_)))
    rintro ⟨source, hsource, hr⟩
    rcases hsources hsource with hold | rfl
    · exact ⟨source, hold, hr⟩
    · cases hr
  · rcases hsources hsource with hold | rfl
    · exact h.admits hq (.inr ⟨source, hold, hr⟩)
    · exact hcopy r hr

end Grafts

/-! ## Copies of tables -/

theorem content_copyFields (s : Store) (t : TableRef) (fields : List FieldRef) :
    (s.copyFields t fields).2 = { s with
      tables := (s.copyFields t fields).2.tables, fields := (s.copyFields t fields).2.fields } := by
  induction fields generalizing s with
  | nil => rfl
  | cons f rest ih =>
    rw [copyFields]
    dsimp only
    rw [ih]
    rfl

/-- What is read of a table stays where its change does not touch it. -/
theorem apply_modifyTable {α : Type} {g : Table → α} {f : Table → Table}
    (hf : ∀ table, g (f table) = g table) (s : Store) (t r : TableRef) :
    g ((s.modifyTable t f).table r) = g (s.table r) := by
  simp only [table, modifyTable, Array.getElem?_modify]
  split
  · cases s.tables[r.index]? with
    | none => rfl
    | some found => exact hf found
  · rfl

theorem apply_copyFields {α : Type} {g : Table → α}
    (hg : ∀ (table : Table) (fields : List FieldRef), g { table with fields } = g table)
    (s : Store) (t r : TableRef) (fields : List FieldRef) :
    g ((s.copyFields t fields).2.table r) = g (s.table r) := by
  induction fields generalizing s with
  | nil => rfl
  | cons f rest ih =>
    rw [copyFields]
    dsimp only
    rw [ih]
    exact apply_modifyTable (fun table => hg table _) _ t r

/-- A copy of a table is one but for its fields and its sub types, and other tables stay. -/
theorem apply_copyTable {α : Type} {g : Table → α}
    (hfields : ∀ (table : Table) (fields : List FieldRef), g { table with fields } = g table)
    (hsubtypes : ∀ (table : Table) (subtypes : List Subtype),
      g { table with subtypes } = g table) (s : Store) (target r : TableRef) :
    g ((s.copyTable target).2.table r) =
      if r.index = s.tables.size then g (s.table target) else g (s.table r) := by
  have hpushed (copied : Table) : (Store.table { s with tables := s.tables.push copied } r) =
      if r.index = s.tables.size then copied else s.table r := by
    rw [table, Array.getElem?_push]
    split <;> rfl
  rw [copyTable]
  dsimp only
  refine (apply_modifyTable (fun table => hsubtypes table _) _ _ r).trans ?_
  rw [apply_copyFields hfields, hpushed]
  split
  · exact hfields _ _
  · rfl

/-- A copy of a table has the kind of the table, and other tables stay. -/
theorem kind_copyTable (s : Store) (target r : TableRef) :
    ((s.copyTable target).2.table r).kind =
      if r.index = s.tables.size then (s.table target).kind else (s.table r).kind :=
  apply_copyTable (g := Table.kind) (fun _ _ => rfl) (fun _ _ => rfl) s target r

theorem content_copyTable (s : Store) (target : TableRef) :
    (s.copyTable target).2 = { s with
      tables := (s.copyTable target).2.tables, fields := (s.copyTable target).2.fields } := by
  rw [copyTable]
  dsimp only
  rw [content_copyFields]
  rfl

/-- A copy of a table reads what the table reads. -/
theorem cteBody?_copyTable {target : TableRef} {source : Source}
    (h : (s.copyTable target).2.cteBody? source = some r) :
    s.cteBody? source = some r ∨ s.cteBody? (.ofTable target) = some r := by
  obtain ⟨item, aliasName, joins⟩ := source
  cases item with
  | query q => cases h
  | table t =>
    have hcte : (s.copyTable target).2.cte = s.cte := by rw [content_copyTable]; rfl
    simp only [cteBody?, Source.table?, Source.ofTable, Option.bind_eq_bind, Option.bind_some,
      kind_copyTable, hcte] at h ⊢
    by_cases hcopy : t.index = s.tables.size
    · rw [if_pos hcopy] at h
      exact .inr h
    · rw [if_neg hcopy] at h
      exact .inl h

theorem grafts_copyTable {target : TableRef}
    (htarget : ∀ r, s.cteBody? (.ofTable target) = some r → s.Admits t r) :
    s.Grafts t (s.copyTable target).2 := by
  have hquery : (s.copyTable target).2.query = s.query := by rw [content_copyTable]; rfl
  have hselected : (s.copyTable target).2.selected = s.selected := by rw [content_copyTable]; rfl
  have hrefl := Grafts.refl s t
  refine ⟨by rw [content_copyTable], by rw [content_copyTable], by rw [content_copyTable],
    fun q _ => by rw [hquery], fun q _ => by rw [hquery], fun q hq => ?_, fun q hq r hr => ?_⟩
  · rw [hquery]
    exact hrefl.fresh q hq
  · rw [mem_successors, hquery, hselected] at hr
    rcases hr with hr | ⟨source, hsource, hr⟩
    · exact hrefl.admits hq (.inl hr)
    · rcases cteBody?_copyTable hr with hr | hr
      · exact hrefl.admits hq (.inr ⟨source, hsource, hr⟩)
      · exact htarget r hr

/-! ## The new query -/

/-- Equalities of keys read no queries. -/
theorem query_notMem_keyEqualities (mapping : List (FieldRef × FieldRef)) (keys : List FieldRef)
    (r : QueryRef) : .query r ∉ (keyEqualities mapping keys).walk := by
  refine List.foldlRecOn (motive := fun c : Condition => Scalar.query r ∉ c.walk) keys _
    Condition.mem_walk_empty fun c hc key _ => ?_
  split
  · simpa [Predicate.equal, Predicate.comparison, Predicate.walk, Scalar.walk] using hc
  · exact hc

/-- What a statement leads to stays when a query is moved below a copy of its target. -/
theorem grafts_rebase {target : TableRef} (hq : s.Reaches t q)
    (htarget : ∀ r, s.cteBody? (.ofTable target) = some r → s.Admits t r) :
    s.Grafts t (s.rebase q target).2 := by
  have hcopied := grafts_copyTable htarget
  have hcopy (r : QueryRef) (hr : (s.copyTable target).2.cteBody?
      (.ofTable (s.copyTable target).1.1) = some r) : s.Admits t r := by
    rcases cteBody?_copyTable hr with hr | hr
    · have hphysical : (default : Table).kind = .physical := rfl
      simp [cteBody?, Source.table?, Source.ofTable, copyTable, table, hphysical] at hr
    · exact htarget r hr
  have hfresh : s.Admits t ((s.copyTable target).2.addQuery none).1 := .inr hcopied.size
  have hsourced := (hcopied.addQuery none).addTable hfresh hcopy
  have hfiltered := hsourced.modifyWhere (fun _ => some ((s.copyTable target).2.addQuery none).1)
    (fun _ => []) (fun query => query.whereClause.conjoinAll (s.rebase q target).1.keyCondition)
    (.inl hq) (fun _ => List.nil_subset _) fun r hr => ?_
  refine hfiltered.modifyWhere (fun query => query.parent) (fun query => query.columns)
    (fun query => query.whereClause.conjoin (.existsIn q)) hfresh
    (fun _ => List.Subset.refl _) fun r hr => ?_
  · rcases Condition.mem_walk_conjoin.mp hr with hr | hr
    · exact .inl hr
    · have hrq : r = q := by
        simpa [Predicate.existsIn, Predicate.walk, Call.plain, Call.walk, walkScalars, Scalar.walk]
          using hr
      exact .inr (.inl (hrq ▸ hq))
  · rcases Condition.mem_walk_conjoinAll.mp hr with hr | hr
    · exact .inl hr
    · exact absurd hr (query_notMem_keyEqualities _ _ r)

theorem lone_modifyQuery {f : Query → Query} (hf : ∀ query, (f query).lone = query.lone)
    (s : Store) (q r : QueryRef) : ((s.modifyQuery q f).query r).lone = (s.query r).lone := by
  rcases query_modifyQuery s q r f with ⟨rfl, hquery⟩ | hquery <;> rw [hquery]
  exact hf _

/-- The new query is one of a single table. -/
theorem lone_rebase (s : Store) (q : QueryRef) (target : TableRef) :
    ((s.rebase q target).2.query (s.rebase q target).1.outer).lone = [true] ∧
      s.queries.size ≤ (s.rebase q target).1.outer.index ∧
        (s.rebase q target).1.outer.index < (s.rebase q target).2.queries.size := by
  have hsize : (s.copyTable target).2.queries.size = s.queries.size := by
    rw [content_copyTable]
  have hadded : ((s.copyTable target).2.addQuery none).1.index <
      ((s.copyTable target).2.addQuery none).2.queries.size := by
    simp [addQuery]
  rw [rebase]
  dsimp only
  refine ⟨?_, Nat.le_of_eq hsize.symm, ?_⟩
  · refine (lone_modifyQuery (by intro; rfl) _ _ _).trans
      ((lone_modifyQuery (by intro; rfl) _ _ _).trans ?_)
    rw [query_modifyQuery_self hadded, query_addQuery_self]
    rfl
  · simp only [size_modifyQuery]
    exact hadded

/-! ## New values -/

theorem grafts_valueQuery {rebased : Rebased} {e : Scalar} (h : s.Grafts t s') (hq : s.Admits t q)
    (hkeys : ∀ r, .query r ∉ rebased.keyCondition.walk)
    (he : ∀ r, .query r ∈ e.walk → s.Admits t r) :
    s.Grafts t (s'.valueQuery q rebased e).2 := by
  have hfresh : s.queries.size ≤ (s'.addQuery (some rebased.outer)).1.index := h.size
  have hclauses : s.Grafts t ((s'.addQuery (some rebased.outer)).2.modifyQuery
      (s'.addQuery (some rebased.outer)).1 fun query => { query with
        sources := (s'.query q).sources
        whereClause := if (s'.query q).whereClause.isEmpty then rebased.keyCondition
          else (s'.query q).whereClause }) := by
    refine (h.addQuery _).modifyQuery (.inr hfresh) (fun _ => rfl) (fun _ => rfl) (fun r hr => ?_)
      fun source hsource r hr => h.admits hq (.inr ⟨source, hsource, hr⟩)
    rw [query_addQuery_self, Query.mem_scalars] at hr
    have hold (hr : _) : s.Admits t r := h.admits hq (.inl (Query.mem_scalars.mpr hr))
    simp only [List.map_nil, List.not_mem_nil, Option.mem_def, reduceCtorEq, false_and,
      exists_false, false_or] at hr
    rcases hr with hr | hr | hr
    · exact hold (.inr (.inr (.inr (.inl hr))))
    · split at hr
      · exact absurd hr (hkeys r)
      · exact hold (.inr (.inr (.inr (.inr (.inl hr)))))
    · simp [walkScalars] at hr
  exact hclauses.addFreshColumn none hfresh he

/-- The values of an update lead to what a statement led to, and to new queries. -/
theorem grafts_rebaseItems (target : TableRef) {rebased : Rebased} (hq : s.Admits t q)
    (hkeys : ∀ r, .query r ∉ rebased.keyCondition.walk) (items : List Assignment) (h : s.Grafts t s')
    (hitems : ∀ r, .query r ∈ walkAssignments items → s.Admits t r) :
    s.Grafts t (s'.rebaseItems q target rebased items).2 ∧
      ∀ r, .query r ∈ walkAssignments (s'.rebaseItems q target rebased items).1 → s.Admits t r := by
  induction items generalizing s' with
  | nil => exact ⟨h, hitems⟩
  | cons item rest ih =>
    have hcons (item : Assignment) (rest : List Assignment) (r : QueryRef) :
        .query r ∈ walkAssignments (item :: rest) ↔
          .query r ∈ (item.value.map Scalar.walk).getD [] ∨ .query r ∈ walkAssignments rest := by
      simp [walkAssignments]
    have hrest (r : QueryRef) (hr : .query r ∈ walkAssignments rest) : s.Admits t r :=
      hitems r ((hcons item rest r).mpr (.inr hr))
    rw [rebaseItems]
    dsimp only
    split
    · next hvalue =>
      obtain ⟨hgrafts, hadmits⟩ := ih h hrest
      refine ⟨hgrafts, fun r hr => ?_⟩
      rw [hcons] at hr
      exact hadmits r (hr.resolve_left (by simp))
    · next e hvalue =>
      have he (r : QueryRef) (hr : .query r ∈ e.walk) : s.Admits t r :=
        hitems r ((hcons item rest r).mpr (.inl (by rw [hvalue]; exact hr)))
      split
      · obtain ⟨hgrafts, hadmits⟩ := ih (grafts_valueQuery h hq hkeys he) hrest
        refine ⟨hgrafts, fun r hr => ?_⟩
        rw [hcons] at hr
        rcases hr with hr | hr
        · have hsub : r = (s'.valueQuery q rebased e).1 := by simpa [Scalar.walk] using hr
          exact .inr (hsub ▸ h.size)
        · exact hadmits r hr
      · obtain ⟨hgrafts, hadmits⟩ := ih h hrest
        refine ⟨hgrafts, fun r hr => ?_⟩
        rw [hcons] at hr
        exact hr.elim (fun hr => he r ((keepsToQueries_fieldRenaming _).scalar e hr)) (hadmits r)

theorem leaves_valueQuery (hr : r.index < s.queries.size) (q : QueryRef) (rebased : Rebased)
    (e : Scalar) : s.Leaves r (s.valueQuery q rebased e).2 := by
  have hne : (s.addQuery (some rebased.outer)).1 ≠ r := fun heq =>
    Nat.lt_irrefl r.index (by rw [← heq] at hr ⊢; exact hr)
  have hadded : s.Leaves r (s.addQuery (some rebased.outer)).2 :=
    ⟨query_addQuery _ hr, by simp [addQuery], rfl⟩
  exact (hadded.trans (.modifyQuery hne _)).trans (.addFreshColumn hne e none)

/-- Queries that are there stay when values are computed by new ones. -/
theorem leaves_rebaseItems (q : QueryRef) (target : TableRef) (rebased : Rebased)
    (items : List Assignment) (hr : r.index < s.queries.size) :
    s.Leaves r (s.rebaseItems q target rebased items).2 := by
  induction items generalizing s with
  | nil => exact .refl r s
  | cons item rest ih =>
    rw [rebaseItems]
    dsimp only
    split
    · exact ih hr
    · next e hvalue =>
      split
      · have hleaves := leaves_valueQuery hr q rebased e
        exact hleaves.trans (ih (Nat.lt_of_lt_of_le hr hleaves.size))
      · exact ih hr

end SqlCompiler.Store
