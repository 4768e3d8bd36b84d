import SqlCompiler.Proofs.Paging.Subqueries

/-!
# Paging by row numbers

A query without paging of its own gives the rows of a subquery in the order of their numbers, those
whose number is above the offset and not above the limit.

Main results:

- Definition `Store.Numbered`: the two queries.
- Theorems `Store.Numbered.gives_sound` and `Store.Numbered.gives_complete`: together they give what
  the query gave.
-/

namespace SqlCompiler.Store

/-! ## Windows of row numbers -/

section

variable {V Block α : Type} {E : Engine V Block} {query : Query}

/-- Whether a row with that number is left by the paging of a query. -/
def inWindow (E : Engine V Block) (query : Query) (n : Nat) : Bool :=
  decide (E.skipped query < n) &&
    match query.take with
    | none => true
    | some e => decide (n ≤ E.skipped query + (E.count e).getD 0)

/-- Numbers above a bound are those of the rows after the first ones. -/
theorem filter_lt_zipIdx (k j : Nat) (rows : List α) :
    ((rows.zipIdx (j + 1)).filter fun row => decide (k < row.2)) =
      (rows.zipIdx (j + 1)).drop (k - j) := by
  induction rows generalizing j with
  | nil => simp
  | cons row rest ih =>
    rw [List.zipIdx_cons, List.filter_cons, ih]
    by_cases hk : k < j + 1
    · have hdrop : k - j = 0 := by omega
      have hdrop' : k - (j + 1) = 0 := by omega
      simp [hk, hdrop, hdrop']
    · have hdrop : k - j = k - (j + 1) + 1 := by omega
      simp [hk, hdrop]

/-- Numbers above a bound and up to another one are those of the rows in between. -/
theorem filter_between_zipIdx (k m j : Nat) (rows : List α) :
    ((rows.zipIdx (j + 1)).filter fun row => decide (k < row.2) && decide (row.2 ≤ m)) =
      ((rows.zipIdx (j + 1)).take (m - j)).drop (k - j) := by
  induction rows generalizing j with
  | nil => simp
  | cons row rest ih =>
    rw [List.zipIdx_cons, List.filter_cons, ih]
    by_cases hm : j + 1 ≤ m
    · have htake : m - j = m - (j + 1) + 1 := by omega
      rw [htake, List.take_succ_cons]
      by_cases hk : k < j + 1
      · have hdrop : k - j = 0 := by omega
        have hdrop' : k - (j + 1) = 0 := by omega
        simp [hk, hm, hdrop, hdrop']
      · have hdrop : k - j = k - (j + 1) + 1 := by omega
        simp [hk, hdrop]
    · have htake : m - j = 0 := by omega
      have htake' : m - (j + 1) = 0 := by omega
      simp [hm, htake, htake']

/-- The rows whose numbers are in the window are those that paging leaves. -/
theorem filter_inWindow_zipIdx (rows : List α) :
    ((rows.zipIdx 1).filter fun row => inWindow E query row.2) = E.page query (rows.zipIdx 1) := by
  unfold inWindow Engine.page
  cases query.take with
  | none =>
    simp only [Bool.and_true]
    exact filter_lt_zipIdx _ 0 rows
  | some e =>
    dsimp only
    rw [filter_between_zipIdx _ _ 0, Nat.sub_zero, Nat.sub_zero, List.drop_take,
      Nat.add_sub_cancel_left]

/-- The condition of a window keeps the rows whose numbers are in it. -/
theorem keepsRow_rowWindow {run : Run V} {outer : Env V} {s' : Store} {inner : QueryRef}
    {d : ColumnRef} {y : Selection V Block} {n : Nat} (hlists : E.Lists query)
    (hd : d ∈ (s'.query inner).columns) (hy : y.value d = E.number n) (hn : 0 < n) :
    keepsRow E run outer s' inner (rowWindow (.column d) query.take query.skip) y =
      inWindow E query n := by
  have hnumber : E.value run (.column d) (blockOfRow E outer s' inner y) = E.number n :=
    (value_blockOfRow hd y).trans hy
  have htake := hlists.take
  have hskip := hlists.skip
  have hempty : Condition.empty.hasOr = false := rfl
  unfold keepsRow inWindow Engine.skipped rowWindow
  cases hs : query.skip with
  | none =>
    cases ht : query.take with
    | none => simp [hn]
    | some e =>
      obtain ⟨t, hcount⟩ := Option.isSome_iff_exists.mp (htake e ht)
      have hupTo := E.truth_comparison run _ .lessOrEqual e _ n t hnumber (E.value_count run e _ t hcount)
      simp [Condition.truthBy_conjoin_comparison hempty, hupTo, hcount, Comparison.holds, hn]
  | some e =>
    obtain ⟨k, hcount⟩ := Option.isSome_iff_exists.mp (hskip e hs)
    have hk := E.value_count run e (blockOfRow E outer s' inner y) k hcount
    have habove := E.truth_comparison run _ .greater e _ n k hnumber hk
    cases ht : query.take with
    | none =>
      simp [Condition.truthBy_conjoin_comparison hempty, habove, hcount, Comparison.holds]
    | some e' =>
      obtain ⟨t, hcount'⟩ := Option.isSome_iff_exists.mp (htake e' ht)
      have hupTo := E.truth_comparison run _ .lessOrEqual _ _ n (k + t) hnumber
        (E.value_add run e e' .int64 _ k t hk (E.value_count run e' _ t hcount'))
      have hsingle := Condition.hasOr_conjoin_comparison hempty (.column d) .greater e
      have hsum : (n : Int) ≤ k + t ↔ n ≤ k + t := by omega
      simp [Condition.truthBy_conjoin_comparison hempty,
        Condition.truthBy_conjoin_comparison hsingle, habove, hupTo, Truth.and_beq_true, hcount,
        hcount', Comparison.holds, hsum]

/-! ## Rows in the order of their numbers -/

/-- Selections in the order of the numbers that are selected under a column. -/
def Counted (E : Engine V Block) (d : ColumnRef) (counted : List (Selection V Block)) : Prop :=
  counted.map (·.value d) = (List.range' 1 counted.length).map E.number

theorem Counted.value_of_mem {d : ColumnRef} {counted : List (Selection V Block)}
    (h : Counted E d counted) {row : Selection V Block × Nat} (hrow : row ∈ counted.zipIdx 1) :
    row.1.value d = E.number row.2 ∧ 0 < row.2 := by
  obtain ⟨y, n⟩ := row
  obtain ⟨hle, hlt, hy⟩ := List.mem_zipIdx hrow
  have hvalue := List.getElem_of_eq h (i := n - 1) (by simp; omega)
  rw [List.getElem_map, List.getElem_map, List.getElem_range', ← hy] at hvalue
  refine ⟨hvalue.trans (congrArg E.number ?_), hle⟩
  dsimp only
  omega

/-- The condition of a window keeps of counted rows what paging leaves. -/
theorem Counted.filter_keepsRow {run : Run V} {outer : Env V} {s' : Store} {inner : QueryRef}
    {d : ColumnRef} {counted : List (Selection V Block)} (h : Counted E d counted)
    (hlists : E.Lists query) (hd : d ∈ (s'.query inner).columns) :
    counted.filter
        (keepsRow E run outer s' inner (rowWindow (.column d) query.take query.skip)) =
      E.page query counted := by
  let keeps := keepsRow E run outer s' inner (rowWindow (.column d) query.take query.skip)
  calc counted.filter keeps
      = ((counted.zipIdx 1).map Prod.fst).filter keeps := by rw [List.zipIdx_map_fst]
    _ = ((counted.zipIdx 1).filter fun row => keeps row.1).map Prod.fst := List.filter_map
    _ = ((counted.zipIdx 1).filter fun row => inWindow E query row.2).map Prod.fst := by
        congr 1
        refine List.filter_congr fun row hrow => ?_
        obtain ⟨hvalue, hpos⟩ := h.value_of_mem hrow
        exact keepsRow_rowWindow hlists hd hvalue hpos
    _ = E.page query counted := by
        rw [filter_inWindow_zipIdx, ← Engine.page_map, List.zipIdx_map_fst]

/-- Counted rows are sorted by their numbers. -/
theorem Counted.pairwise {d : ColumnRef} {counted : List (Selection V Block)}
    (h : Counted E d counted) :
    counted.Pairwise fun x y => E.compare (x.value d) (y.value d) ≠ .gt := by
  have hnumbers : (counted.map (·.value d)).Pairwise fun v w => E.compare v w ≠ .gt := by
    rw [show counted.map (·.value d) = _ from h, List.pairwise_map]
    refine (List.pairwise_lt_range' 1).imp fun hlt => ?_
    rw [E.compare_number, Nat.compare_eq_lt.mpr hlt]
    simp
  rwa [List.pairwise_map] at hnumbers

/-- Some of the counted rows that are sorted by their numbers are in the order they are counted
in. -/
theorem Counted.eq_of_perm_filter {d : ColumnRef} {counted kept : List (Selection V Block)}
    {p : Selection V Block → Bool} (h : Counted E d counted) (hperm : kept.Perm (counted.filter p))
    (hsorted : kept.Pairwise fun x y => E.compare (x.value d) (y.value d) ≠ .gt) :
    kept = counted.filter p := by
  refine List.Perm.eq_of_pairwise (fun x y hx hy hxy hyx => ?_) hsorted (h.pairwise.filter p) hperm
  have hx : x ∈ counted := (List.mem_filter.mp (hperm.mem_iff.mp hx)).1
  have hy : y ∈ counted := (List.mem_filter.mp hy).1
  have hnodup : (counted.map (·.value d)).Nodup := by
    rw [show counted.map (·.value d) = _ from h]
    exact (List.nodup_range' 1).map E.number_injective
  have hnumber (z : Selection V Block) (hz : z ∈ counted) : ∃ n, z.value d = E.number n := by
    have hmem : z.value d ∈ (List.range' 1 counted.length).map E.number := h ▸ List.mem_map_of_mem hz
    obtain ⟨n, -, hn⟩ := List.mem_map.mp hmem
    exact ⟨n, hn.symm⟩
  obtain ⟨m, hm⟩ := hnumber x hx
  obtain ⟨n, hn⟩ := hnumber y hy
  rw [hm, hn, E.compare_number, Nat.compare_ne_gt] at hxy
  rw [hm, hn, E.compare_number, Nat.compare_ne_gt] at hyx
  refine List.inj_on_of_nodup_map hnodup hx hy ?_
  rw [hm, hn, Nat.le_antisymm hxy hyx]

end

/-! ## What numbering changes -/

/-- The column that row numbers are selected under. -/
def rowNumberColumn (s : Store) (q : QueryRef) : ColumnRef :=
  ⟨s.columns.size + (s.query q).columns.length⟩

/-- The rows of a query are numbered in a subquery with its body, and paged by these numbers. -/
structure Numbered (s : Store) (q : QueryRef) (s' : Store) : Prop extends s.Restates q
    { s.query q with
      whereClause := rowWindow (.column (s.rowNumberColumn q)) (s.query q).take (s.query q).skip
      take := none
      skip := none
      takeHints := none
      orderBy := [⟨.column (s.rowNumberColumn q), false⟩] } [s.rowNumberColumn q] s' where
  number : (s'.column (s.rowNumberColumn q)).expression = rowNumber (s.query q).orderBy

section

variable {s s' : Store} {q : QueryRef}

theorem numberRowsOf_eq {inner : QueryRef} {w : Store} (h : s.wrapBody q = (inner, w)) :
    s.numberRowsOf q =
      (w.addFreshColumn inner (rowNumber (w.query q).orderBy) (some rowNumberAlias)).2.modifyQuery q
        fun query => { query with
          take := none
          skip := none
          takeHints := none
          whereClause := rowWindow (.column ⟨w.columns.size⟩) query.take query.skip
          orderBy := [⟨.column ⟨w.columns.size⟩, false⟩] } := by
  unfold numberRowsOf
  rw [h]
  rfl

/-- Numbering the rows of a query. -/
theorem numbered_numberRowsOf (hs : s.Owned) (hq : q.index < s.queries.size) :
    s.Numbered q (s.numberRowsOf q) := by
  obtain ⟨hinner, h⟩ := wraps_wrapBody hs hq
  generalize hwrap : s.wrapBody q = wrapped at hinner h
  obtain ⟨inner, w⟩ := wrapped
  obtain rfl : inner = ⟨s.queries.size⟩ := hinner
  replace h : s.Wraps q w := h
  have hstep := numberRowsOf_eq hwrap
  have hcolumn : (⟨w.columns.size⟩ : ColumnRef) = s.rowNumberColumn q := by
    rw [h.size, rowNumberColumn]
  have hne : (⟨s.queries.size⟩ : QueryRef) ≠ q := fun heq =>
    Nat.lt_irrefl q.index (by rw [← heq] at hq ⊢; exact hq)
  have hinnerSize : (⟨s.queries.size⟩ : QueryRef).index < w.queries.size := by
    rw [h.queries]
    exact Nat.lt_succ_self _
  refine ⟨h.restates hs ?_ ?_ ?_ ?_ (fun r hrq hri => ?_) fun c hc => ?_, ?_⟩
  · rw [hstep, modifyQuery, addFreshColumn, modifyQuery]
  · rw [hstep, size_modifyQuery, addFreshColumn, size_modifyQuery]
  · rw [hstep, query_modifyQuery_self (by
      rw [addFreshColumn, size_modifyQuery]
      exact Nat.lt_trans hq hinnerSize), query_addFreshColumn_ne hne.symm, h.outer, hcolumn]
  · rw [hstep, query_modifyQuery_ne hne, query_addFreshColumn_self hinnerSize, hcolumn]
  · rw [hstep, query_modifyQuery_ne hrq, query_addFreshColumn_ne hri]
  · rw [hstep]
    exact column_addFreshColumn_of_lt hc _ _ _
  · rw [hstep, ← hcolumn]
    refine (congrArg OutputColumn.expression (column_addFreshColumn_self _ _ _)).trans ?_
    rw [h.outer]

/-- A selection of the subquery, with the number of its row. -/
def numberRow {V Block : Type} (E : Engine V Block) (s : Store) (q : QueryRef)
    (row : Selection V Block × Nat) : Selection V Block :=
  { s.writeCopies q row.1 with
    value := fun d =>
      if d = s.rowNumberColumn q then E.number row.2 else (s.writeCopies q row.1).value d }

section

variable {V Block : Type} {E : Engine V Block}

theorem numberRow_copy {c : ColumnRef} (hc : c ∈ (s.query q).columns)
    (row : Selection V Block × Nat) :
    (numberRow E s q row).value (s.copyOf (s.query q).columns c) = row.1.value c := by
  have hne : s.copyOf (s.query q).columns c ≠ s.rowNumberColumn q := fun heq =>
    Nat.lt_irrefl _ (heq ▸ copyOf_lt hc)
  exact (if_neg hne).trans (value_writeCopies hc row.1)

theorem rowOf_numberRow (row : Selection V Block × Nat) :
    s.rowOf q (s.readCopies q (numberRow E s q row)) = s.rowOf q row.1 := by
  funext c
  unfold rowOf
  split
  · next hc => exact congrArg some (numberRow_copy hc row)
  · rfl

theorem counted_numberRow (xs : List (Selection V Block)) :
    Counted E (s.rowNumberColumn q) ((xs.zipIdx 1).map (numberRow E s q)) := by
  have hvalue (row : Selection V Block × Nat) :
      (numberRow E s q row).value (s.rowNumberColumn q) = E.number row.2 := if_pos rfl
  rw [Counted, List.map_map, List.length_map, List.length_zipIdx, ← List.zipIdx_map_snd, List.map_map]
  exact List.map_congr_left fun row _ => hvalue row

end

/-- A window mentions what the limit and the offset mention. -/
theorem query_mem_walk_rowWindow {d : ColumnRef} {take skip : Option Scalar} {r : QueryRef}
    (h : Scalar.query r ∈ (rowWindow (.column d) take skip).walk) :
    (∃ x ∈ take, Scalar.query r ∈ x.walk) ∨ ∃ x ∈ skip, Scalar.query r ∈ x.walk := by
  cases skip <;> cases take <;>
    simp_all [rowWindow, Condition.conjoin, Condition.empty, Condition.joinLast, Condition.branch,
      Condition.walk, walkBranches, Branch.walk, Predicate.comparison, Predicate.walk, Scalar.walk]
  tauto

namespace Numbered

variable (h : s.Numbered q s')
include h

/-- The query is split. -/
theorem splits (hs : s.Owned) : s.Splits q s' := by
  refine h.toRestates.splits hs (fun r hr => ?_) (by simp) fun d hd r hr => ?_
  · exact query_mem_walk_rowWindow (hr.resolve_right (by simp))
  · rw [List.mem_singleton.mp hd, h.number] at hr
    exact query_mem_walk_rowNumber hr

/-- The query selects from a subquery with its body. -/
theorem nests : s.Nests q ⟨s.queries.size⟩
    (rowWindow (.column (s.rowNumberColumn q)) (s.query q).take (s.query q).skip) s' := by
  refine h.toRestates.nests (by simp) ?_
  have hcolumns : (s'.query ⟨s.queries.size⟩).columns.map (fun c => (s'.column c).expression) = _ :=
    h.selected_inner
  rw [aggregates, aggregates, hcolumns, h.inner, List.any_append, List.map_singleton, List.any_cons,
    h.number, isAggregate_rowNumber]
  simp [selected, Bool.or_assoc, Bool.or_comm]

/-! ## What the query gives -/

variable {V Block : Type} {E : Engine V Block} {run : Run V} {outer : Env V}

theorem lists_inner : E.Lists (s'.query ⟨s.queries.size⟩) := by
  rw [h.inner]
  exact ⟨rfl, rfl, by simp, by simp, by simp⟩

theorem lists_outer (hlists : E.Lists (s.query q)) : E.Lists (s'.query q) := by
  rw [h.outer]
  exact ⟨hlists.setOperators, rfl, hlists.columns, by simp, by simp⟩

theorem column_mem : s.rowNumberColumn q ∈ (s'.query ⟨s.queries.size⟩).columns := by
  rw [h.inner]
  simp

/-- Rows of the subquery are ordered by their numbers. -/
theorem order_outer (y y' : Selection V Block) :
    E.order run (s'.query q).orderBy (blockOfRow E outer s' ⟨s.queries.size⟩ y)
        (blockOfRow E outer s' ⟨s.queries.size⟩ y') =
      E.compare (y.value (s.rowNumberColumn q)) (y'.value (s.rowNumberColumn q)) := by
  have horder : (s'.query q).orderBy = [⟨.column (s.rowNumberColumn q), false⟩] := by rw [h.outer]
  rw [horder, Engine.order, List.foldr_cons, List.foldr_nil, value_blockOfRow h.column_mem,
    value_blockOfRow h.column_mem]
  cases E.compare _ _ <;> rfl

variable [DecidableEq V]

/-- With the rows of the subquery, the query gives rows that it gave before. -/
theorem gives_sound {rows : List (QueryRow V)} (hlists : E.Lists (s.query q))
    (hdistinct : (s.query q).distinct = false)
    (hinner : s'.Gives E run outer ⟨s.queries.size⟩ (run ⟨s.queries.size⟩ outer))
    (hgives : s'.Gives E run outer q rows) : s.Gives E run outer q rows := by
  generalize hrun : run ⟨s.queries.size⟩ outer = moved at hinner
  cases hinner with
  | other hnot => exact (hnot h.lists_inner).elim
  | @listed _ ys _ hcomputes hperm _ =>
    have hys : s'.Computes E run outer ⟨s.queries.size⟩ ys := by
      refine hcomputes.perm ?_
      rwa [distinctly, h.inner, if_neg (by simp [hdistinct])] at hperm
    rw [Engine.page_eq_self (by rw [h.inner]) (by rw [h.inner])] at hrun
    cases hgives with
    | other hnot => exact (hnot (h.lists_outer hlists)).elim
    | @listed _ xs _ hcomputes hperm hsorted =>
      have hxs : s'.Computes E run outer q xs := by
        refine hcomputes.perm ?_
        rwa [distinctly, h.outer, if_neg Bool.false_ne_true] at hperm
      obtain ⟨kept, hkept, hblocks, hrows⟩ := h.nests.outer_sound hxs hrun
      -- the numbers give an order of the rows of the subquery
      obtain ⟨counted, hcounted, hcountedSorted, hnumbers⟩ :=
        (hys.columns _ h.column_mem).number _ h.number
      have hcountedNumbers : Counted E (s.rowNumberColumn q) counted := by
        rw [Counted, hnumbers, hcounted.length_eq]
      have hsame : kept = E.page (s.query q) counted := by
        rw [← hcountedNumbers.filter_keepsRow hlists h.column_mem]
        refine hcountedNumbers.eq_of_perm_filter (hkept.trans (hcounted.symm.filter _)) ?_
        rw [sorted_iff_blocks, hblocks, List.pairwise_map] at hsorted
        simpa only [h.order_outer] using hsorted
      have hresult : (E.page (s'.query q) xs).map (s'.rowOf q) =
          (E.page (s.query q) (counted.map (s.readCopies q))).map (s.rowOf q) := by
        rw [Engine.page_eq_self (by rw [h.outer]) (by rw [h.outer]), hrows, hsame,
          Engine.page_map, List.map_map]
        rfl
      rw [hresult]
      refine .listed hlists (h.nests.inner_sound (hys.perm hcounted)) ?_ ?_
      · rw [distinctly, if_neg (by simp [hdistinct])]
      · rw [sorted_iff_blocks, List.map_map]
        exact sorted_iff_blocks.mp hcountedSorted

/-- The rows that the query gave before, it gives with rows of the subquery that are numbered in
their order. -/
theorem gives_complete {rows : List (QueryRow V)} (hlists : E.Lists (s.query q))
    (hdistinct : (s.query q).distinct = false) (hgives : s.Gives E run outer q rows) :
    ∃ moved : List (QueryRow V), ∀ run' : Run V,
      (∀ r ∈ (s.query q).mentions E.reads (s.selected q), run r = run' r) →
        run' ⟨s.queries.size⟩ outer = moved →
          s'.Gives E run' outer ⟨s.queries.size⟩ moved ∧ s'.Gives E run' outer q rows := by
  cases hgives with
  | other hnot => exact (hnot hlists).elim
  | @listed _ xs _ hcomputes hperm hsorted =>
    have hxs : s.Computes E run outer q xs := by
      refine hcomputes.perm ?_
      rwa [distinctly, if_neg (by simp [hdistinct])] at hperm
    let ys := (xs.zipIdx 1).map (numberRow E s q)
    have hcounted : Counted E (s.rowNumberColumn q) ys := counted_numberRow xs
    refine ⟨ys.map (s'.rowOf ⟨s.queries.size⟩), fun run' hrun hmoved => ?_⟩
    have hsorted' : Sorted E run' (s.query q).orderBy ys := by
      rw [sorted_iff_blocks, List.map_map]
      have hblocks := sorted_iff_blocks.mp ((sorted_orderBy_congr hrun).mp hsorted)
      rwa [← List.zipIdx_map_fst 1 xs, List.map_map] at hblocks
    have hys : s'.Computes E run' outer ⟨s.queries.size⟩ ys := by
      refine h.nests.inner_complete (f := Prod.fst) ?_ (fun _ _ => rfl)
        (fun row _ c hc => numberRow_copy hc row) fun d hd hnew => ?_
      · rw [List.zipIdx_map_fst]
        exact hxs.congr_run hrun
      · rw [h.inner] at hd
        rw [List.mem_singleton.mp ((List.mem_append.mp hd).resolve_left hnew), h.number]
        refine ⟨fun hnot => (hnot ⟨_, rfl⟩).elim, fun items hitems => ?_⟩
        exact ⟨ys, .refl _, rowNumber_inj hitems ▸ hsorted', hcounted⟩
    have hkept : ys.filter (keepsRow E run' outer s' ⟨s.queries.size⟩
        (rowWindow (.column (s.rowNumberColumn q)) (s.query q).take (s.query q).skip)) =
          E.page (s.query q) ys := hcounted.filter_keepsRow hlists h.column_mem
    refine ⟨?_, ?_⟩
    · have hperm : ys.Perm (s'.distinctly ⟨s.queries.size⟩ ys) := by
        rw [distinctly, h.inner, if_neg (by simp [hdistinct])]
      have hgives := Gives.listed h.lists_inner hys hperm (by rw [h.inner]; exact sorted_nil ys)
      rwa [Engine.page_eq_self (by rw [h.inner]) (by rw [h.inner])] at hgives
    · have hcomputes := h.nests.outer_complete hmoved (.of_eq hkept.symm)
      have horder : Sorted E run' (s'.query q).orderBy ((E.page (s.query q) ys).map
          (selectRow E outer s' ⟨s.queries.size⟩ s q)) := by
        rw [Sorted, List.pairwise_map, ← hkept]
        refine (hcounted.pairwise.filter _).imp fun {x y} hle => ?_
        rw [selectRow, selectRow, h.order_outer]
        exact hle
      have hgives := Gives.listed (h.lists_outer hlists) hcomputes
        (by rw [distinctly, h.outer, if_neg Bool.false_ne_true]) horder
      have hresult : (E.page (s'.query q) ((E.page (s.query q) ys).map
          (selectRow E outer s' ⟨s.queries.size⟩ s q))).map (s'.rowOf q) =
            (E.page (s.query q) xs).map (s.rowOf q) := by
        rw [Engine.page_eq_self (by rw [h.outer]) (by rw [h.outer])]
        calc ((E.page (s.query q) ys).map (selectRow E outer s' ⟨s.queries.size⟩ s q)).map (s'.rowOf q)
            = (E.page (s.query q) ys).map fun y => s.rowOf q (s.readCopies q y) := by
              rw [List.map_map]
              exact List.map_congr_left fun y _ => h.nests.rowOf_selectRow y
          _ = (E.page (s.query q) (xs.zipIdx 1)).map fun row => s.rowOf q row.1 := by
              rw [Engine.page_map, List.map_map]
              exact List.map_congr_left fun row _ => rowOf_numberRow row
          _ = (E.page (s.query q) xs).map (s.rowOf q) := by
              rw [← List.zipIdx_map_fst 1 xs, Engine.page_map, List.map_map, List.zipIdx_map_fst]
              rfl
      rwa [hresult] at hgives

end Numbered

end

end SqlCompiler.Store
