import SqlCompiler.Proofs.Paging.Databases
import SqlCompiler.Proofs.Paging.Subqueries
import SqlCompiler.Proofs.Queries.Parts

/-!
# Paging over distinct rows

A query that pages over its distinct rows leaves these to a subquery, and orders and pages what that
gives.  The subquery also selects what the ordering reads and the query does not select.  So a tuple
of the query has several rows in it if the ordering tells these apart.

Main results:

- Definition `Store.Separated`: the two queries.
- Theorems `Store.Separated.gives_sound` and `Store.Separated.gives_complete`: together they give
  what the query gave, if the query selects all that its ordering reads.
- Theorem `Store.separateDistinctOf_rows`: when the subquery has one row for each tuple.
-/

namespace SqlCompiler

/-- Scalars that are worth the same: they are equal, or one and the same. -/
def Scalar.Same (e e' : Scalar) : Prop := (e == e') = true ∨ e = e'

theorem Scalar.Same.value_eq {V Block : Type} {E : Engine V Block} {run : Run V} {e e' : Scalar}
    (h : e.Same e') (b : Block) : E.value run e b = E.value run e' b := by
  rcases h with h | rfl
  · exact E.value_beq run e e' b h
  · rfl

theorem Scalar.Same.isAggregate_eq {e e' : Scalar} (h : e.Same e') :
    e.anyPart Scalar.isAggregate = e'.anyPart Scalar.isAggregate := by
  rcases h with h | rfl
  · exact Scalar.anyPart_isAggregate_congr h
  · rfl

namespace Store

variable {s s' : Store} {q inner : QueryRef} {items items' : List OrderItem}
  {added : List ColumnRef}

/-! ## Columns for an ordering -/

/-- Columns have been added to a query, so that the items of an ordering can be read there. -/
structure Projects (s : Store) (inner : QueryRef) (items : List OrderItem)
    (added : List ColumnRef) (items' : List OrderItem) (s' : Store) : Prop where
  content : s' = { s with queries := s'.queries, columns := s'.columns }
  queries : s'.queries.size = s.queries.size
  size : s.columns.size ≤ s'.columns.size
  gains : s'.query inner = { s.query inner with columns := (s.query inner).columns ++ added }
  others : ∀ r ≠ inner, s'.query r = s.query r
  kept : ∀ c : ColumnRef, c.index < s.columns.size → s'.column c = s.column c
  fresh : ∀ d ∈ added, s.columns.size ≤ d.index ∧ d.index < s'.columns.size
  ofItem : ∀ d ∈ added, ∃ item ∈ items, (s'.column d).expression = item.expression
  reads : List.Forall₂ (fun item item' => ∃ d ∈ (s.query inner).columns ++ added,
    item' = ⟨.column d, item.descending⟩ ∧ (s'.column d).expression.Same item.expression) items items'
  found : (∀ item ∈ items, ∃ c ∈ (s.query inner).columns,
    ((s.column c).expression == item.expression) = true) → added = []

theorem projects_nil (s : Store) (inner : QueryRef) : s.Projects inner [] [] [] s :=
  ⟨rfl, rfl, Nat.le_refl _, by simp, fun _ _ => rfl, fun _ _ => rfl, by simp, by simp, .nil,
    fun _ => rfl⟩

namespace Projects

variable {item : OrderItem}

/-- An item that is selected needs no new column. -/
theorem consFound (h : s.Projects inner items added items' s')
    (hvalid : ∀ c ∈ (s.query inner).columns, c.index < s.columns.size) {d : ColumnRef}
    (hd : d ∈ (s.query inner).columns) (hbeq : ((s.column d).expression == item.expression) = true) :
    s.Projects inner (item :: items) added (⟨.column d, item.descending⟩ :: items') s' := by
  refine ⟨h.content, h.queries, h.size, h.gains, h.others, h.kept, h.fresh, fun d hd => ?_,
    .cons ⟨d, List.mem_append_left _ hd, rfl, ?_⟩ h.reads, fun hall => ?_⟩
  · obtain ⟨found, hfound, hexpression⟩ := h.ofItem d hd
    exact ⟨found, List.mem_cons_of_mem _ hfound, hexpression⟩
  · rw [h.kept d (hvalid d hd)]
    exact .inl hbeq
  · exact h.found fun found hmem => hall found (List.mem_cons_of_mem _ hmem)

/-- Another item gets a column of its own. -/
theorem consFresh (hinner : inner.index < s.queries.size)
    (hnone : ∀ c ∈ (s.query inner).columns, ¬((s.column c).expression == item.expression) = true)
    (h : (s.addFreshColumn inner item.expression none).2.Projects inner items added items' s') :
    s.Projects inner (item :: items) (⟨s.columns.size⟩ :: added)
      (⟨.column ⟨s.columns.size⟩, item.descending⟩ :: items') s' := by
  let new : ColumnRef := ⟨s.columns.size⟩
  have hquery := query_addFreshColumn_self hinner item.expression none
  have hsize := size_addFreshColumn (s := s) inner item.expression none
  have hnew : (s'.column new).expression = item.expression := by
    rw [h.kept new (by rw [hsize]; exact Nat.lt_succ_self _)]
    exact congrArg OutputColumn.expression (column_addFreshColumn_self _ _ _)
  have hcolumns : ((s.addFreshColumn inner item.expression none).2.query inner).columns ++ added =
      (s.query inner).columns ++ new :: added := by
    rw [hquery, List.append_assoc]
    rfl
  have hreads := h.reads
  rw [hcolumns] at hreads
  refine ⟨h.content, ?_, ?_, ?_, fun r hr => ?_, fun c hc => ?_, ?_, ?_,
    .cons ⟨new, by simp [new], rfl, .inr hnew⟩ hreads, fun hall => ?_⟩
  · rw [h.queries, addFreshColumn, size_modifyQuery]
  · exact Nat.le_trans (by rw [hsize]; exact Nat.le_succ _) h.size
  · rw [h.gains, hcolumns, hquery]
  · rw [h.others r hr, query_addFreshColumn_ne hr]
  · rw [h.kept c (by rw [hsize]; exact Nat.lt_succ_of_lt hc), column_addFreshColumn_of_lt hc]
  · refine List.forall_mem_cons.mpr ⟨⟨Nat.le_refl _, ?_⟩, fun d hd => ?_⟩
    · exact Nat.lt_of_lt_of_le (by rw [hsize]; exact Nat.lt_succ_self _) h.size
    · obtain ⟨hle, hlt⟩ := h.fresh d hd
      exact ⟨Nat.le_trans (by rw [hsize]; exact Nat.le_succ _) hle, hlt⟩
  · refine List.forall_mem_cons.mpr ⟨⟨item, List.mem_cons_self, hnew⟩, fun d hd => ?_⟩
    obtain ⟨found, hfound, hexpression⟩ := h.ofItem d hd
    exact ⟨found, List.mem_cons_of_mem _ hfound, hexpression⟩
  · obtain ⟨c, hc, hbeq⟩ := hall item List.mem_cons_self
    exact (hnone c hc hbeq).elim

end Projects

/-- The items of an ordering are read in the columns of a query, which are added where they are
missing. -/
theorem projects_projectOrder (items : List OrderItem) : ∀ (s : Store),
    inner.index < s.queries.size → (∀ c ∈ (s.query inner).columns, c.index < s.columns.size) →
      ∃ added, s.Projects inner items added (s.projectOrder inner items).1
        (s.projectOrder inner items).2 := by
  induction items with
  | nil => exact fun s _ _ => ⟨[], projects_nil s inner⟩
  | cons item rest ih =>
    intro s hinner hvalid
    simp only [projectOrder, addColumn]
    cases hfound : s.findColumn? inner item.expression with
    | some d =>
      obtain ⟨added, h⟩ := ih s hinner hvalid
      have hbeq : ((s.column d).expression == item.expression) = true := by
        simpa using List.find?_some hfound
      exact ⟨added, h.consFound hvalid (List.mem_of_find?_eq_some hfound) hbeq⟩
    | none =>
      obtain ⟨added, h⟩ := ih (s.addFreshColumn inner item.expression none).2 (by
        rw [addFreshColumn, size_modifyQuery]
        exact hinner) fun c hc => by
          rw [query_addFreshColumn_self hinner] at hc
          rw [size_addFreshColumn]
          rcases List.mem_append.mp hc with hc | hc
          · exact Nat.lt_succ_of_lt (hvalid c hc)
          · rw [List.mem_singleton.mp hc]
            exact Nat.lt_succ_self _
      exact ⟨_, .consFresh hinner (List.find?_eq_none.mp hfound) h⟩

/-! ## What separating changes -/

/-- A query pages over a subquery with its distinct rows.  The subquery has columns for the ordering
besides the copies. -/
structure Separated (s : Store) (q : QueryRef) (added : List ColumnRef) (ordering : List OrderItem)
    (s' : Store) : Prop
    extends s.Restates q { s.query q with whereClause := .empty, orderBy := ordering } added s' where
  fresh : ∀ d ∈ added, d ∉ (s.query q).columns.map (s.copyOf (s.query q).columns)
  ofItem : ∀ d ∈ added, ∃ item ∈ (s.query q).orderBy, (s'.column d).expression = item.expression
  orders : List.Forall₂ (fun item item' => ∃ d ∈ (s'.query ⟨s.queries.size⟩).columns,
    item' = ⟨.column d, item.descending⟩ ∧ (s'.column d).expression.Same item.expression)
    (s.query q).orderBy ordering
  found : (∀ item ∈ (s.query q).orderBy, ∃ c ∈ (s.query q).columns,
    ((s.column c).expression == item.expression) = true) → added = []

theorem separateDistinctOf_eq {inner : QueryRef} {w : Store} (h : s.wrapBody q = (inner, w)) :
    s.separateDistinctOf q =
      let cleared := w.modifyQuery q fun query => { query with orderBy := [] }
      (cleared.projectOrder inner (w.query q).orderBy).2.modifyQuery q fun query =>
        { query with orderBy := (cleared.projectOrder inner (w.query q).orderBy).1 } := by
  unfold separateDistinctOf
  rw [h]

/-- A query is separated when its body is moved and the ordering then projected from the subquery. -/
theorem Wraps.separated {w p : Store} (h : s.Wraps q w) (hs : s.Owned) (hq : q.index < s.queries.size)
    (hp : (w.modifyQuery q fun query => { query with orderBy := [] }).Projects ⟨s.queries.size⟩
      (s.query q).orderBy added items p) :
    s.Separated q added items (p.modifyQuery q fun query => { query with orderBy := items }) := by
  have hne : (⟨s.queries.size⟩ : QueryRef) ≠ q := fun heq =>
    Nat.lt_irrefl q.index (by rw [← heq] at hq ⊢; exact hq)
  have hqw : q.index < w.queries.size := by
    rw [h.queries]
    exact Nat.lt_succ_of_lt hq
  have hpq : p.query q = { w.query q with orderBy := [] } := by
    rw [hp.others q hne.symm]
    exact query_modifyQuery_self hqw
  have hcolumns : ((w.modifyQuery q fun query => { query with orderBy := [] }).query
      ⟨s.queries.size⟩).columns = (s.query q).columns.map (s.copyOf (s.query q).columns) := by
    rw [query_modifyQuery_ne hne, h.inner]
  refine ⟨h.restates hs ?_ ?_ ?_ ?_ (fun r hrq hri => ?_) fun c hc => hp.kept c hc,
    fun d hd hcopy => ?_, fun d hd => hp.ofItem d hd, ?_, fun hall => ?_⟩
  · rw [modifyQuery, hp.content]
    rfl
  · rw [size_modifyQuery, hp.queries, size_modifyQuery]
  · rw [query_modifyQuery_self (by rw [hp.queries, size_modifyQuery]; exact hqw), hpq, h.outer]
  · rw [query_modifyQuery_ne hne, hp.gains, query_modifyQuery_ne hne]
  · rw [query_modifyQuery_ne hrq, hp.others r hri]
    exact query_modifyQuery_ne hrq
  · obtain ⟨c, hc, rfl⟩ := List.mem_map.mp hcopy
    exact Nat.not_le_of_lt (Nat.lt_of_lt_of_eq (copyOf_lt hc) h.size.symm) (hp.fresh _ hd).1
  · rw [query_modifyQuery_ne hne, hp.gains]
    exact hp.reads
  · refine hp.found fun item hitem => ?_
    obtain ⟨c, hc, hbeq⟩ := hall item hitem
    refine ⟨s.copyOf (s.query q).columns c, hcolumns ▸ List.mem_map_of_mem hc, ?_⟩
    show ((w.column (s.copyOf (s.query q).columns c)).expression == item.expression) = true
    rw [h.copied c hc]
    exact hbeq

/-- Separating paging from distinct rows. -/
theorem separated_separateDistinctOf (hs : s.Owned) (hq : q.index < s.queries.size) :
    ∃ added ordering, s.Separated q added ordering (s.separateDistinctOf q) := by
  obtain ⟨hinner, h⟩ := wraps_wrapBody hs hq
  generalize hwrap : s.wrapBody q = wrapped at hinner h
  obtain ⟨inner, w⟩ := wrapped
  obtain rfl : inner = ⟨s.queries.size⟩ := hinner
  replace h : s.Wraps q w := h
  have hne : (⟨s.queries.size⟩ : QueryRef) ≠ q := fun heq =>
    Nat.lt_irrefl q.index (by rw [← heq] at hq ⊢; exact hq)
  have hsize : (⟨s.queries.size⟩ : QueryRef).index <
      (w.modifyQuery q fun query => { query with orderBy := [] }).queries.size := by
    rw [size_modifyQuery, h.queries]
    exact Nat.lt_succ_self _
  have horder : (w.query q).orderBy = (s.query q).orderBy := by rw [h.outer]
  obtain ⟨added, hp⟩ := projects_projectOrder (s.query q).orderBy _ hsize fun c hc => by
    rw [query_modifyQuery_ne hne, h.inner] at hc
    obtain ⟨c', hc', rfl⟩ := List.mem_map.mp hc
    exact Nat.lt_of_lt_of_eq (copyOf_lt hc') h.size.symm
  rw [separateDistinctOf_eq hwrap, horder]
  exact ⟨added, _, h.separated hs hq hp⟩

/-- What is selected under a column is worth what the same scalar is. -/
theorem Computes.value_of_same {V Block : Type} {E : Engine V Block} {run : Run V} {outer : Env V}
    {ys : List (Selection V Block)} (hys : s.Computes E run outer q ys) {e : Scalar}
    (hnumber : ¬e.IsRowNumber) {d : ColumnRef} (hd : d ∈ (s.query q).columns)
    (hsame : (s.column d).expression.Same e) {y : Selection V Block} (hy : y ∈ ys) :
    y.value d = E.value run e y.block := by
  rw [(hys.columns d hd).value ?_ y hy, hsame.value_eq]
  rcases hsame with hbeq | heq
  · exact fun hrow => hnumber (hrow.of_beq hbeq)
  · rwa [heq]

theorem exists_left_of_forall₂ {α β : Type} {R : α → β → Prop} {as : List α} {bs : List β}
    (h : List.Forall₂ R as bs) {b : β} (hb : b ∈ bs) : ∃ a ∈ as, R a b := by
  induction h with
  | nil => cases hb
  | @cons a _ as _ hfirst _ ih =>
    rcases List.mem_cons.mp hb with rfl | hb
    · exact ⟨a, List.mem_cons_self, hfirst⟩
    · obtain ⟨a', ha, hR⟩ := ih hb
      exact ⟨a', List.mem_cons_of_mem _ ha, hR⟩

namespace Separated

variable {ordering : List OrderItem} (h : s.Separated q added ordering s')
include h

/-- The items of the new ordering are columns of the subquery. -/
theorem exists_column {item : OrderItem} (hitem : item ∈ ordering) :
    ∃ d ∈ (s'.query ⟨s.queries.size⟩).columns, item.expression = .column d := by
  obtain ⟨_, -, d, hd, rfl, -⟩ := exists_left_of_forall₂ h.orders hitem
  exact ⟨d, hd, rfl⟩

/-- The items of the former ordering are selected by the subquery. -/
theorem exists_same {item : OrderItem} (hitem : item ∈ (s.query q).orderBy) :
    ∃ d ∈ (s'.query ⟨s.queries.size⟩).columns,
      (s'.column d).expression.Same item.expression := by
  obtain ⟨_, -, d, hd, -, hsame⟩ := exists_left_of_forall₂ h.orders.flip hitem
  exact ⟨d, hd, hsame⟩

/-- The query is split. -/
theorem splits (hs : s.Owned) : s.Splits q s' := by
  refine h.toRestates.splits hs (fun r hr => ?_) (fun item hitem => ?_) fun d hd r hr => ?_
  · exact hr.resolve_left (by simp [Condition.empty, Condition.walk, walkBranches])
  · obtain ⟨d, -, hd⟩ := h.exists_column hitem
    exact ⟨d, hd⟩
  · obtain ⟨item, hitem, hexpression⟩ := h.ofItem d hd
    exact ⟨item, hitem, hexpression ▸ hr⟩

/-- The query selects from a subquery with its body. -/
theorem nests : s.Nests q ⟨s.queries.size⟩ .empty s' := by
  refine h.toRestates.nests (fun item hitem => ?_) ?_
  · obtain ⟨d, -, hd⟩ := h.exists_column hitem
    exact ⟨d, hd⟩
  have hselected : (s'.query ⟨s.queries.size⟩).columns.map (fun c => (s'.column c).expression) = _ :=
    h.selected_inner
  rw [Bool.eq_iff_iff, aggregates, aggregates, hselected, h.inner]
  simp only [Bool.or_eq_true, List.any_eq_true, List.mem_append]
  constructor
  · rintro ((⟨e, he | he, hagg⟩ | hhaving) | ⟨item, hitem, -⟩)
    · exact .inl (.inl ⟨e, he, hagg⟩)
    · obtain ⟨d, hd, rfl⟩ := List.mem_map.mp he
      obtain ⟨item, hitem, hexpression⟩ := h.ofItem d hd
      exact .inr ⟨item, hitem, hexpression ▸ hagg⟩
    · exact .inl (.inr hhaving)
    · cases hitem
  · rintro ((⟨e, he, hagg⟩ | hhaving) | ⟨item, hitem, hagg⟩)
    · exact .inl (.inl ⟨e, .inl he, hagg⟩)
    · exact .inl (.inr hhaving)
    · obtain ⟨d, hd, hsame⟩ := h.exists_same hitem
      have hd := List.mem_map_of_mem (f := fun c => (s'.column c).expression) hd
      rw [hselected, List.mem_append] at hd
      exact .inl (.inl ⟨_, hd, hsame.isAggregate_eq ▸ hagg⟩)

/-! ## What the query gives -/

variable {V Block : Type} {E : Engine V Block} {run : Run V} {outer : Env V}

theorem lists_inner (hlists : E.Lists (s.query q)) : E.Lists (s'.query ⟨s.queries.size⟩) := by
  rw [h.inner]
  exact ⟨rfl, rfl, by simp [hlists.columns], by simp, by simp⟩

theorem lists_outer (hlists : E.Lists (s.query q)) : E.Lists (s'.query q) := by
  rw [h.outer]
  exact ⟨hlists.setOperators, hlists.takeHints, hlists.columns, hlists.take, hlists.skip⟩

theorem page_outer {α : Type} (rows : List α) :
    E.page (s'.query q) rows = E.page (s.query q) rows := by
  rw [h.outer]
  rfl

/-- Rows of the subquery are ordered as their blocks were. -/
theorem order_outer {ys : List (Selection V Block)}
    (hys : s'.Computes E run outer ⟨s.queries.size⟩ ys)
    (hnumbers : ∀ item ∈ (s.query q).orderBy, ¬item.expression.IsRowNumber) {y y' : Selection V Block}
    (hy : y ∈ ys) (hy' : y' ∈ ys) :
    E.order run (s'.query q).orderBy (blockOfRow E outer s' ⟨s.queries.size⟩ y)
        (blockOfRow E outer s' ⟨s.queries.size⟩ y') =
      E.order run (s.query q).orderBy y.block y'.block := by
  have hordering : (s'.query q).orderBy = ordering := by rw [h.outer]
  have horders := h.orders
  have hvalue {item : OrderItem} (hnumber : ¬item.expression.IsRowNumber) {d : ColumnRef}
      (hd : d ∈ (s'.query ⟨s.queries.size⟩).columns)
      (hsame : (s'.column d).expression.Same item.expression) {y : Selection V Block} (hy : y ∈ ys) :
      E.value run (.column d) (blockOfRow E outer s' ⟨s.queries.size⟩ y) =
        E.value run item.expression y.block :=
    (value_blockOfRow hd y).trans (hys.value_of_same hnumber hd hsame hy)
  rw [hordering]
  generalize (s.query q).orderBy = items at hnumbers horders
  clear h hordering
  induction horders with
  | nil => rfl
  | cons hfirst _ ih =>
    obtain ⟨hnumber, hrest⟩ := List.forall_mem_cons.mp hnumbers
    obtain ⟨d, hd, rfl, hsame⟩ := hfirst
    have hrest := ih hrest
    simp only [Engine.order, List.foldr_cons] at hrest ⊢
    rw [hvalue hnumber hd hsame hy, hvalue hnumber hd hsame hy', hrest]

/-- The subquery sorts its rows as the query sorted its blocks. -/
theorem sorted_outer {ys kept : List (Selection V Block)}
    (hys : s'.Computes E run outer ⟨s.queries.size⟩ ys)
    (hnumbers : ∀ item ∈ (s.query q).orderBy, ¬item.expression.IsRowNumber) (hkept : kept ⊆ ys) :
    ((kept.map (blockOfRow E outer s' ⟨s.queries.size⟩)).Pairwise fun b b' =>
        E.order run (s'.query q).orderBy b b' ≠ .gt) ↔
      Sorted E run (s.query q).orderBy kept := by
  rw [List.pairwise_map, Sorted]
  refine List.Pairwise.iff_of_mem fun hy hy' => ?_
  rw [h.order_outer hys hnumbers (hkept hy) (hkept hy')]

variable [DecidableEq V]

/-- If there are no columns but the copies, the subquery drops the tuples that the query dropped. -/
theorem distinctly_readCopies (hadded : added = []) (ys : List (Selection V Block)) :
    s.distinctly q (ys.map (s.readCopies q)) =
      (s'.distinctly ⟨s.queries.size⟩ ys).map (s.readCopies q) := by
  have htuple : (fun y : Selection V Block => s.selectedTuple q (s.readCopies q y)) =
      s'.selectedTuple ⟨s.queries.size⟩ := by
    funext y
    rw [selectedTuple, selectedTuple, h.inner, hadded, List.append_nil, List.map_map]
    rfl
  have hdistinct : (s'.query ⟨s.queries.size⟩).distinct = (s.query q).distinct := by rw [h.inner]
  rw [distinctly, distinctly, hdistinct]
  split
  · rw [firstOfEach_map, htuple]
  · rfl

@[inherit_doc distinctly_readCopies]
theorem distinctly_writeCopies (hadded : added = []) (selections : List (Selection V Block)) :
    s'.distinctly ⟨s.queries.size⟩ (selections.map (s.writeCopies q)) =
      (s.distinctly q selections).map (s.writeCopies q) := by
  have htuple : (fun x : Selection V Block =>
      s'.selectedTuple ⟨s.queries.size⟩ (s.writeCopies q x)) = s.selectedTuple q := by
    funext x
    rw [selectedTuple, selectedTuple, h.inner, hadded, List.append_nil, List.map_map]
    exact List.map_congr_left fun c hc => value_writeCopies hc x
  have hdistinct : (s'.query ⟨s.queries.size⟩).distinct = (s.query q).distinct := by rw [h.inner]
  rw [distinctly, distinctly, hdistinct]
  split
  · rw [firstOfEach_map, htuple]
  · rfl

/-- With the rows of the subquery, the query gives rows that it gave before. -/
theorem gives_sound {rows : List (QueryRow V)} (hlists : E.Lists (s.query q))
    (hnumbers : ∀ item ∈ (s.query q).orderBy, ¬item.expression.IsRowNumber)
    (hselected : ∀ item ∈ (s.query q).orderBy, ∃ c ∈ (s.query q).columns,
      ((s.column c).expression == item.expression) = true)
    (hinner : s'.Gives E run outer ⟨s.queries.size⟩ (run ⟨s.queries.size⟩ outer))
    (hgives : s'.Gives E run outer q rows) : s.Gives E run outer q rows := by
  have hadded := h.found hselected
  generalize hrun : run ⟨s.queries.size⟩ outer = moved at hinner
  cases hinner with
  | other hnot => exact (hnot (h.lists_inner hlists)).elim
  | @listed ys distinct _ hys hperm _ =>
    rw [Engine.page_eq_self (by rw [h.inner]) (by rw [h.inner])] at hrun
    cases hgives with
    | other hnot => exact (hnot (h.lists_outer hlists)).elim
    | @listed _ xs _ hcomputes hperm' hsorted =>
      have hxs : s'.Computes E run outer q xs := by
        refine hcomputes.perm ?_
        rwa [distinctly, h.outer, if_neg Bool.false_ne_true] at hperm'
      obtain ⟨kept, hkept, hblocks, hrows⟩ := h.nests.outer_sound hxs hrun
      rw [filter_keepsRow_empty] at hkept
      have hsubset : kept ⊆ ys := fun y hy =>
        distinctly_subset _ _ _ (hperm.mem_iff.mp (hkept.mem_iff.mp hy))
      have hresult : (E.page (s'.query q) xs).map (s'.rowOf q) =
          (E.page (s.query q) (kept.map (s.readCopies q))).map (s.rowOf q) := by
        rw [h.page_outer, ← Engine.page_map, hrows, ← Engine.page_map, List.map_map]
        rfl
      rw [hresult]
      refine .listed hlists (h.nests.inner_sound hys) ?_ ?_
      · rw [h.distinctly_readCopies hadded]
        exact (hkept.trans hperm).map _
      · rw [sorted_iff_blocks, hblocks, h.sorted_outer hys hnumbers hsubset] at hsorted
        rw [sorted_iff_blocks, List.map_map]
        exact sorted_iff_blocks.mp hsorted

/-- The rows that the query gave before, it gives with their copies as the rows of the subquery. -/
theorem gives_complete {rows : List (QueryRow V)} (hlists : E.Lists (s.query q))
    (hnumbers : ∀ item ∈ (s.query q).orderBy, ¬item.expression.IsRowNumber)
    (hselected : ∀ item ∈ (s.query q).orderBy, ∃ c ∈ (s.query q).columns,
      ((s.column c).expression == item.expression) = true)
    (hgives : s.Gives E run outer q rows) :
    ∃ moved : List (QueryRow V), ∀ run' : Run V,
      (∀ r ∈ (s.query q).mentions E.reads (s.selected q), run r = run' r) →
        run' ⟨s.queries.size⟩ outer = moved →
          s'.Gives E run' outer ⟨s.queries.size⟩ moved ∧ s'.Gives E run' outer q rows := by
  have hadded := h.found hselected
  cases hgives with
  | other hnot => exact (hnot hlists).elim
  | @listed selections xs _ hcomputes hperm hsorted =>
    let ys := s'.distinctly ⟨s.queries.size⟩ (selections.map (s.writeCopies q))
    have hys : ys = (s.distinctly q selections).map (s.writeCopies q) :=
      h.distinctly_writeCopies hadded selections
    refine ⟨ys.map (s'.rowOf ⟨s.queries.size⟩), fun run' hrun hmoved => ?_⟩
    have hinner : s'.Computes E run' outer ⟨s.queries.size⟩ (selections.map (s.writeCopies q)) := by
      refine h.nests.inner_complete (f := id) ?_ (fun _ _ => rfl)
        (fun x _ c hc => value_writeCopies hc x) fun d hd hnew => ?_
      · rw [List.map_id]
        exact hcomputes.congr_run hrun
      · rw [h.inner, hadded, List.append_nil] at hd
        exact (hnew hd).elim
    have hkept : (xs.map (s.writeCopies q)).Perm (ys.filter (keepsRow E run' outer s'
        ⟨s.queries.size⟩ .empty)) := by
      rw [filter_keepsRow_empty, hys]
      exact hperm.map _
    refine ⟨?_, ?_⟩
    · have hgives : s'.Gives E run' outer ⟨s.queries.size⟩ _ :=
        .listed (h.lists_inner hlists) hinner (.refl ys) (by rw [h.inner]; exact sorted_nil ys)
      rwa [Engine.page_eq_self (by rw [h.inner]) (by rw [h.inner])] at hgives
    · have hcomputes' := h.nests.outer_complete hmoved hkept
      have hsubset : xs.map (s.writeCopies q) ⊆ selections.map (s.writeCopies q) :=
        List.map_subset _ fun x hx => distinctly_subset _ _ _ (hperm.mem_iff.mp hx)
      have hgives : s'.Gives E run' outer q _ :=
        .listed (h.lists_outer hlists) hcomputes'
          (by rw [distinctly, h.outer, if_neg Bool.false_ne_true])
          (by
            rw [sorted_iff_blocks, List.map_map]
            refine (h.sorted_outer hinner hnumbers hsubset).mpr ?_
            rw [sorted_iff_blocks, List.map_map]
            exact sorted_iff_blocks.mp ((sorted_orderBy_congr hrun).mp hsorted))
      have hresult : (E.page (s'.query q) ((xs.map (s.writeCopies q)).map
          (selectRow E outer s' ⟨s.queries.size⟩ s q))).map (s'.rowOf q) =
            (E.page (s.query q) xs).map (s.rowOf q) := by
        rw [h.page_outer, List.map_map, Engine.page_map, List.map_map]
        exact List.map_congr_left fun x _ =>
          (h.nests.rowOf_selectRow _).trans (rowOf_writeCopies x)
      rwa [hresult] at hgives

end Separated

/-! ## The rows of the subquery -/

/-- Of pairs of keys, the first keys are all different if and only if each determines the second
one. -/
theorem nodup_map_firstOfEach_iff {α κ κ' : Type} [DecidableEq κ] [DecidableEq κ'] (f : α → κ)
    (g : α → κ') (items : List α) :
    ((firstOfEach (fun a => (f a, g a)) items).map f).Nodup ↔
      ∀ a ∈ items, ∀ b ∈ items, f a = f b → g a = g b := by
  constructor
  · intro hnodup a ha b hb hf
    have hfirst (c : α) (hc : c ∈ items) :
        ∃ d ∈ firstOfEach (fun a => (f a, g a)) items, (f d, g d) = (f c, g c) :=
      exists_mem_firstOfEach hc
    obtain ⟨a', ha', heq⟩ := hfirst a ha
    obtain ⟨b', hb', heq'⟩ := hfirst b hb
    obtain ⟨hfa, hga⟩ := Prod.mk.inj heq
    obtain ⟨hfb, hgb⟩ := Prod.mk.inj heq'
    rw [← hga, ← hgb, List.inj_on_of_nodup_map hnodup ha' hb' (by rw [hfa, hfb, hf])]
  · intro h
    refine List.pairwise_map.mpr ((pairwise_firstOfEach _ items).imp_of_mem ?_)
    intro a b ha hb hne heq
    have hg := h a (firstOfEach_subset _ _ ha) b (firstOfEach_subset _ _ hb) heq
    exact hne (by rw [heq, hg])

section

variable {V Block : Type} {E : Engine V Block} {run : Run V} {outer : Env V}

/-- What a row of the subquery holds of the tuple that the query selects. -/
def copiedTuple (s : Store) (q : QueryRef) (row : QueryRow V) : List (Option V) :=
  (s.query q).columns.map fun c => row (s.copyOf (s.query q).columns c)

/-- What the items of an ordering are worth on a block. -/
def orderingTuple (E : Engine V Block) (run : Run V) (s : Store) (q : QueryRef) (b : Block) : List V :=
  (s.query q).orderBy.map fun item => E.value run item.expression b

/-- Selections of the subquery are equal if they agree in the tuple and the ordering of the query. -/
theorem Separated.selectedTuple_eq_iff {ordering : List OrderItem}
    (h : s.Separated q added ordering s') {ys : List (Selection V Block)}
    (hys : s'.Computes E run outer ⟨s.queries.size⟩ ys)
    (hnumbers : ∀ item ∈ (s.query q).orderBy, ¬item.expression.IsRowNumber) {y y' : Selection V Block}
    (hy : y ∈ ys) (hy' : y' ∈ ys) :
    s'.selectedTuple ⟨s.queries.size⟩ y = s'.selectedTuple ⟨s.queries.size⟩ y' ↔
      s.selectedTuple q (s.readCopies q y) = s.selectedTuple q (s.readCopies q y') ∧
        orderingTuple E run s q y.block = orderingTuple E run s q y'.block := by
  have hcolumns : (s'.query ⟨s.queries.size⟩).columns =
      (s.query q).columns.map (s.copyOf (s.query q).columns) ++ added := by rw [h.inner]
  simp only [selectedTuple, orderingTuple, List.map_inj_left, readCopies]
  constructor
  · intro heq
    refine ⟨fun c hc => heq _ (h.nests.copy_mem hc), fun item hitem => ?_⟩
    obtain ⟨d, hd, hsame⟩ := h.exists_same hitem
    rw [← hys.value_of_same (hnumbers item hitem) hd hsame hy,
      ← hys.value_of_same (hnumbers item hitem) hd hsame hy', heq d hd]
  · rintro ⟨hcopies, hordering⟩ d hd
    have hcases := hd
    rw [hcolumns] at hcases
    rcases List.mem_append.mp hcases with hcopy | hnew
    · obtain ⟨c, hc, rfl⟩ := List.mem_map.mp hcopy
      exact hcopies c hc
    · obtain ⟨item, hitem, hexpression⟩ := h.ofItem d hnew
      rw [hys.value_of_same (hnumbers item hitem) hd (.inr hexpression) hy,
        hys.value_of_same (hnumbers item hitem) hd (.inr hexpression) hy', hordering item hitem]

variable [DecidableEq V]

/-- The subquery has one row for each pair of a tuple that the query selects and what its ordering is
worth there. -/
theorem Separated.rows_inner {ordering : List OrderItem} (h : s.Separated q added ordering s')
    {rows : List (QueryRow V)} (hlists : E.Lists (s.query q)) (hdistinct : (s.query q).distinct = true)
    (hnumbers : ∀ item ∈ (s.query q).orderBy, ¬item.expression.IsRowNumber)
    (hgives : s'.Gives E run outer ⟨s.queries.size⟩ rows) :
    ∃ selections kept : List (Selection V Block), s.Computes E run outer q selections ∧
      kept.Perm (firstOfEach
        (fun x => (s.selectedTuple q x, orderingTuple E run s q x.block)) selections) ∧
      rows.map (s.copiedTuple q) = kept.map fun x => (s.selectedTuple q x).map some := by
  cases hgives with
  | other hnot => exact (hnot (h.lists_inner hlists)).elim
  | @listed ys kept _ hys hperm _ =>
    refine ⟨ys.map (s.readCopies q), kept.map (s.readCopies q), h.nests.inner_sound hys, ?_, ?_⟩
    · rw [distinctly, h.inner, if_pos hdistinct] at hperm
      have hsame : firstOfEach (s'.selectedTuple ⟨s.queries.size⟩) ys = firstOfEach (fun y =>
          (s.selectedTuple q (s.readCopies q y), orderingTuple E run s q y.block)) ys :=
        firstOfEach_congr fun y hy y' hy' => by
          rw [Prod.mk.injEq]
          exact h.selectedTuple_eq_iff hys hnumbers hy hy'
      rw [firstOfEach_map]
      exact (hperm.trans (.of_eq hsame)).map _
    · rw [Engine.page_eq_self (by rw [h.inner]) (by rw [h.inner]), List.map_map, List.map_map]
      refine List.map_congr_left fun y _ => ?_
      simp only [Function.comp_apply, copiedTuple, selectedTuple, List.map_map]
      exact List.map_congr_left fun c hc => if_pos (h.nests.copy_mem hc)

/-- The subquery of a query over its distinct rows has a row for each tuple that the query selects.
It has one row for each if and only if the tuple determines what the ordering is worth. -/
theorem separateDistinctOf_rows (hs : s.Owned) (hq : q.index < s.queries.size)
    (hlists : E.Lists (s.query q)) (hdistinct : (s.query q).distinct = true)
    (hnumbers : ∀ item ∈ (s.query q).orderBy, ¬item.expression.IsRowNumber)
    {rows : List (QueryRow V)}
    (hgives : (s.separateDistinctOf q).Gives E run outer ⟨s.queries.size⟩ rows) :
    ∃ selections : List (Selection V Block), s.Computes E run outer q selections ∧
      (∀ tuple, tuple ∈ rows.map (s.copiedTuple q) ↔
        tuple ∈ selections.map fun x => (s.selectedTuple q x).map some) ∧
      ((rows.map (s.copiedTuple q)).Nodup ↔
        ∀ x ∈ selections, ∀ y ∈ selections, s.selectedTuple q x = s.selectedTuple q y →
          orderingTuple E run s q x.block = orderingTuple E run s q y.block) := by
  obtain ⟨added, ordering, h⟩ := separated_separateDistinctOf hs hq
  obtain ⟨selections, kept, hcomputes, hkept, hrows⟩ :=
    h.rows_inner hlists hdistinct hnumbers hgives
  refine ⟨selections, hcomputes, fun tuple => ?_, ?_⟩
  · rw [hrows, (hkept.map _).mem_iff, List.mem_map, List.mem_map]
    constructor
    · rintro ⟨x, hx, rfl⟩
      exact ⟨x, firstOfEach_subset _ _ hx, rfl⟩
    · rintro ⟨x, hx, rfl⟩
      have hfirst : ∃ y ∈ firstOfEach (fun x => (s.selectedTuple q x,
          orderingTuple E run s q x.block)) selections, _ = _ := exists_mem_firstOfEach hx
      obtain ⟨y, hy, heq⟩ := hfirst
      exact ⟨y, hy, by rw [(Prod.mk.inj heq).1]⟩
  · have hmap : kept.map (fun x => (s.selectedTuple q x).map some) =
        (kept.map (s.selectedTuple q)).map (List.map some) := by rw [List.map_map]; rfl
    rw [hrows, hmap, List.nodup_map_iff (List.map_injective_iff.mpr (Option.some_injective V)),
      (hkept.map _).nodup_iff]
    exact nodup_map_firstOfEach_iff _ _ selections

end

/-- Three nicknames of people, each once, by age. -/
def threeNicknames : Store := nicknames
  { distinct := true, take := some (.value ⟨.int32, .integer 3⟩), orderBy := byAge }

/-- The engine for two people of one nickname. -/
def namesakes : Engine (Option Int) (Env (Option Int)) :=
  Interpretation.nullableCounts.engine threeNicknames (Pipeline.peopleOf [(some 1, 20), (some 1, 30)])

/-- The subquery has the nickname twice, since it does not determine the age. -/
theorem separateDistinctOf_rows_threeNicknames :
    ∃ rows selections,
      (threeNicknames.separateDistinctOf ⟨0⟩).Gives namesakes noRun nowhere ⟨1⟩ rows ∧
        rows.map (threeNicknames.copiedTuple ⟨0⟩) = [[some (some 1)], [some (some 1)]] ∧
        threeNicknames.Computes namesakes noRun nowhere ⟨0⟩ selections ∧
        ∃ x ∈ selections, ∃ y ∈ selections,
          threeNicknames.selectedTuple ⟨0⟩ x = threeNicknames.selectedTuple ⟨0⟩ y ∧
            orderingTuple namesakes noRun threeNicknames ⟨0⟩ x.block ≠
              orderingTuple namesakes noRun threeNicknames ⟨0⟩ y.block := by
  have hlists : namesakes.Lists (threeNicknames.query ⟨0⟩) :=
    { setOperators := rfl, takeHints := rfl, columns := List.cons_ne_nil _ _
      take := fun e he => by cases he; rfl
      skip := fun e he => by cases he }
  have hnumbers : ∀ item ∈ (threeNicknames.query ⟨0⟩).orderBy, ¬item.expression.IsRowNumber := by
    intro item hitem
    rw [List.mem_singleton.mp hitem]
    exact Scalar.not_isRowNumber_field _
  have hinner : namesakes.Lists ((threeNicknames.separateDistinctOf ⟨0⟩).query ⟨1⟩) :=
    { setOperators := rfl, takeHints := rfl, columns := List.cons_ne_nil _ _
      take := fun e he => by cases he
      skip := fun e he => by cases he }
  have hselected : (threeNicknames.separateDistinctOf ⟨0⟩).selected ⟨1⟩ =
    [.field ⟨0⟩, .field ⟨1⟩] := rfl
  have hgives : (threeNicknames.separateDistinctOf ⟨0⟩).Gives namesakes noRun nowhere ⟨1⟩ _ :=
    gives_of_values hinner (by simp [hselected, Scalar.not_isRowNumber_field]) (.refl _)
      (sorted_nil _)
  obtain ⟨selections, hcomputes, -, hnodup⟩ :=
    separateDistinctOf_rows (owned_nicknames _) Nat.one_pos hlists rfl hnumbers hgives
  refine ⟨_, selections, hgives, rfl, hcomputes, ?_⟩
  by_contra hall
  have htwice : ¬[[some (some (1 : Int))], [some (some 1)]].Nodup := by decide
  refine htwice (hnodup.mpr fun x hx y hy htuple => ?_)
  by_contra hne
  exact hall ⟨x, hx, y, hy, htuple, hne⟩

end Store

end SqlCompiler
