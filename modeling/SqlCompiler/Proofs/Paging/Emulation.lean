import SqlCompiler.Proofs.Columns.Names
import SqlCompiler.Proofs.Paging.Databases
import SqlCompiler.Proofs.Paging.DistinctRows
import SqlCompiler.Proofs.Paging.RowNumbers

/-!
# Paging by row numbers in a statement

On DB2, paging is separated from distinct rows, and offsets are emulated by row numbers: queries that
page over distinct rows are split first, and then those with an offset are, one after the other.  No
query is split twice by a pass, and nothing that is not split changes.  All queries of the statement
give what they gave.

Main results:

- Definition `Store.Pass`: what is kept while queries of a statement are split.
- Theorem `Store.Pass.foldl`: queries are split one after the other.
- Theorems `Store.pass_separateDistinct` and `Store.pass_numberRows`: the two passes.
- Theorems `Store.sameRuns_separateDistinctOf` and `Store.sameRuns_numberRowsOf`: splitting a query.
- Theorem `Store.restructured_db2`: the queries of a statement of DB2 give what they gave.
-/

namespace SqlCompiler

/-- Two queries are paged in the same way, and select the same columns. -/
structure Query.SamePaging (query query' : Query) : Prop where
  columns : query'.columns = query.columns
  take : query'.take = query.take
  takeHints : query'.takeHints = query.takeHints
  skip : query'.skip = query.skip
  setOperators : query'.setOperators = query.setOperators

theorem Query.SamePaging.refl (query : Query) : query.SamePaging query := ⟨rfl, rfl, rfl, rfl, rfl⟩

/-- Whether a query tells its rows depends on its columns and on how it is paged. -/
theorem Query.SamePaging.lists {V Block : Type} {E : Engine V Block} {query query' : Query}
    (h : query.SamePaging query') (hlists : E.Lists query) : E.Lists query' where
  setOperators := h.setOperators.trans hlists.setOperators
  takeHints := h.takeHints.trans hlists.takeHints
  columns := h.columns ▸ hlists.columns
  take := h.take ▸ hlists.take
  skip := h.skip ▸ hlists.skip

namespace Store

/-! ## Queries are split one after the other -/

section

variable {s s' s'' : Store} {t : StatementRef} {q : QueryRef} {I : Store → Prop}
  {Q : QueryRef → Store → Prop} {done : List QueryRef}

/-- Some queries of a statement have been split, one after the other.  Each has a property that it
keeps, and so does the store. -/
structure Pass (I : Store → Prop) (s : Store) (t : StatementRef) (Q : QueryRef → Store → Prop)
    (done : List QueryRef) (s' : Store) : Prop where
  content : s' = { s with queries := s'.queries, columns := s'.columns }
  owned : s'.Owned
  invariant : I s'
  grown : s.queries.size ≤ s'.queries.size
  others : ∀ r ∉ done, r.index < s.queries.size → s'.query r = s.query r
  kept : ∀ r ∉ done, ∀ c ∈ (s.query r).columns, s'.column c = s.column c
  /-- Nothing is led to but what the statement led to, and new subqueries. -/
  successors : ∀ p, s.Reaches t p ∨ s.queries.size ≤ p.index → ∀ r ∈ s'.successors p,
    s.Reaches t r ∨ s.queries.size ≤ r.index
  fresh : ∀ r : QueryRef, s.queries.size ≤ r.index → (s'.query r).hasPagination = false
  changed : ∀ q ∈ done, q.index < s.queries.size ∧ Q q s'

/-- A query is split, and pages itself. -/
structure Splitting (s : Store) (q : QueryRef) (s' : Store) : Prop where
  splits : s.Splits q s'
  owned : s'.Owned
  inner : (s'.query ⟨s.queries.size⟩).hasPagination = false

/-- What is so of a query is still so when another one is split. -/
def Persists (s : Store) (Q : QueryRef → Store → Prop) : Prop :=
  ∀ s' s'' q r, s.queries.size ≤ s'.queries.size → q.index < s.queries.size →
    r.index < s.queries.size → r ≠ q → s'.Splits q s'' → Q r s' → Q r s''

/-- A query of a store has not been split yet. -/
structure Untouched (I : Store → Prop) (s : Store) (q : QueryRef) (s' : Store) : Prop where
  owned : s'.Owned
  invariant : I s'
  valid : q.index < s.queries.size
  grown : s.queries.size ≤ s'.queries.size
  query : s'.query q = s.query q
  selected : s'.selected q = s.selected q

theorem Untouched.valid' (h : Untouched I s q s') : q.index < s'.queries.size :=
  Nat.lt_of_lt_of_le h.valid h.grown

namespace Pass

theorem nil (hs : s.Owned) (hI : I s) : Pass I s t Q [] s where
  content := rfl
  owned := hs
  invariant := hI
  grown := Nat.le_refl _
  others _ _ _ := rfl
  kept _ _ _ _ := rfl
  successors p hp r hr := by
    rcases hp with hp | hp
    · exact .inl (.step hp hr)
    · rw [successors_of_le hp] at hr
      cases hr
  fresh r hr := by
    rw [query_of_le hr]
    rfl
  changed _ h := by cases h

/-- A query that has not been split is as it was. -/
theorem untouched (h : Pass I s t Q done s') (hq : q ∉ done) (hsize : q.index < s.queries.size) :
    Untouched I s q s' where
  owned := h.owned
  invariant := h.invariant
  valid := hsize
  grown := h.grown
  query := h.others q hq hsize
  selected := by
    rw [Store.selected, Store.selected, h.others q hq hsize]
    exact List.map_congr_left fun c hc => by rw [h.kept q hq c hc]

/-- One more query is split. -/
theorem snoc (h : Pass I s t Q done s') (hreaches : s.Reaches t q)
    (hsize : q.index < s.queries.size) (hs : Splitting s' q s'') (hI : I s'')
    (hpersists : s.Persists Q) (hQ : Q q s'') : Pass I s t Q (done ++ [q]) s'' := by
  have hgrown := h.grown
  have hnew {r : QueryRef} (hr : r.index < s.queries.size) : r ≠ ⟨s'.queries.size⟩ := fun heq =>
    Nat.not_le_of_lt hr (heq ▸ hgrown)
  have hcases {r : QueryRef} (hr : r ∉ done ++ [q]) : r ∉ done ∧ r ≠ q := by
    simpa [not_or] using hr
  refine ⟨?_, hs.owned, hI, ?_, fun r hr hlt => ?_, fun r hr c hc => ?_, fun p hp r hr => ?_,
    fun r hr => ?_, fun r hr => ?_⟩
  · rw [hs.splits.content, h.content]
  · rw [hs.splits.queries]
    exact Nat.le_succ_of_le hgrown
  · obtain ⟨hrdone, hrq⟩ := hcases hr
    rw [hs.splits.others r hrq (hnew hlt), h.others r hrdone hlt]
  · obtain ⟨hrdone, hrq⟩ := hcases hr
    rw [← h.kept r hrdone c hc]
    by_cases hlt : r.index < s.queries.size
    · exact hs.splits.kept r hrq c (by rw [h.others r hrdone hlt]; exact hc)
    · rw [query_of_le (Nat.le_of_not_lt hlt)] at hc
      cases hc
  · rcases hs.splits.mem_successors hr with rfl | ⟨-, hr⟩ | hr
    · exact .inr hgrown
    · exact h.successors q (.inl hreaches) r hr
    · exact h.successors p hp r hr
  · by_cases hri : r = ⟨s'.queries.size⟩
    · rw [hri, hs.inner]
    · have hrq : r ≠ q := fun heq => Nat.not_le_of_lt hsize (heq ▸ hr)
      rw [hs.splits.others r hrq hri]
      exact h.fresh r hr
  · by_cases hrq : r = q
    · exact hrq ▸ ⟨hsize, hQ⟩
    · obtain ⟨hlt, hr⟩ := h.changed r ((List.mem_append.mp hr).resolve_right (by simpa using hrq))
      exact ⟨hlt, hpersists s' s'' q r hgrown hsize hlt hrq hs.splits hr⟩

/-- Queries of a statement are split one after the other. -/
theorem foldl {f : Store → QueryRef → Store} {items : List QueryRef} (hs : s.Owned) (hI : I s)
    (hnodup : items.Nodup) (hitems : ∀ q ∈ items, s.Reaches t q ∧ q.index < s.queries.size)
    (hpersists : s.Persists Q)
    (hf : ∀ q ∈ items, ∀ s', Untouched I s q s' →
      Splitting s' q (f s' q) ∧ I (f s' q) ∧ Q q (f s' q)) :
    Pass I s t Q items (items.foldl f s) := by
  have hrest (rest : List QueryRef) : ∀ (done : List QueryRef) (s' : Store), done ++ rest = items →
      Pass I s t Q done s' → Pass I s t Q items (rest.foldl f s') := by
    induction rest with
    | nil =>
      intro done s' hdone h
      rw [List.append_nil] at hdone
      exact hdone ▸ h
    | cons q rest ih =>
      intro done s' hdone h
      have hmem : q ∈ items := by simp [← hdone]
      have hq : q ∉ done := fun hq => by
        rw [← hdone, List.nodup_append] at hnodup
        exact hnodup.2.2 q hq q List.mem_cons_self rfl
      obtain ⟨hreaches, hsize⟩ := hitems q hmem
      obtain ⟨hsplit, hI', hQ⟩ := hf q hmem s' (h.untouched hq hsize)
      refine ih (done ++ [q]) (f s' q) (by rw [List.append_assoc]; exact hdone) ?_
      exact h.snoc hreaches hsize hsplit hI' hpersists hQ
  exact hrest items [] s rfl (nil hs hI)

/-- What a statement leads to, it led to before, or it is a new subquery. -/
theorem reaches (h : Pass I s t Q done s') {r : QueryRef} (hr : s'.Reaches t r) :
    s.Reaches t r ∨ s.queries.size ≤ r.index := by
  induction hr with
  | root hroot =>
    rw [h.content] at hroot
    exact .inl (.root hroot)
  | step _ hr ih => exact h.successors _ ih _ hr

/-- What a pass leaves of a query that the new statement leads to and that has a limit or an offset:
it is a query of the former statement. -/
theorem reaches_of_hasPagination (h : Pass I s t Q done s') {r : QueryRef}
    (hr : s'.Reaches t r) (hpagination : (s'.query r).hasPagination = true) :
    s.Reaches t r ∧ r.index < s.queries.size := by
  have hold : ¬s.queries.size ≤ r.index := fun hfresh => by
    rw [h.fresh r hfresh] at hpagination
    cases hpagination
  exact ⟨(h.reaches hr).resolve_right hold, Nat.lt_of_not_le hold⟩

end Pass

/-- A query with a limit or an offset is in the store. -/
theorem lt_of_hasPagination (h : (s.query q).hasPagination = true) : q.index < s.queries.size := by
  by_contra hlt
  rw [query_of_le (Nat.le_of_not_lt hlt)] at h
  exact Bool.false_ne_true h

theorem mem_matchingQueries {test : Query → Bool} :
    q ∈ s.matchingQueries t test ↔ s.Reaches t q ∧ test (s.query q) = true := by
  rw [matchingQueries, List.mem_filter, mem_statementQueries]

/-- Queries that match a test are split one after the other. -/
theorem Pass.foldl_matching {f : Store → QueryRef → Store} {test : Query → Bool} (hs : s.Owned)
    (hI : I s) (htest : ∀ query : Query, test query = true → query.hasPagination = true)
    (hpersists : s.Persists Q)
    (hf : ∀ q, s.Reaches t q → test (s.query q) = true → ∀ s', Untouched I s q s' →
      Splitting s' q (f s' q) ∧ I (f s' q) ∧ Q q (f s' q)) :
    Pass I s t Q (s.matchingQueries t test) ((s.matchingQueries t test).foldl f s) := by
  refine .foldl hs hI ((nodup_statementQueries s t).filter _) (fun q hq => ?_) hpersists
    fun q hq => ?_
  all_goals obtain ⟨hreaches, hmatches⟩ := mem_matchingQueries.mp hq
  · exact ⟨hreaches, lt_of_hasPagination (htest _ hmatches)⟩
  · exact hf q hreaches hmatches

end

/-! ## Paging is separated from distinct rows -/

section

variable {s s' : Store} {t : StatementRef} {q : QueryRef} {I : Store → Prop}

/-- A query is no longer about distinct rows, and is paged as it was. -/
def PagesOverRows (s : Store) (q : QueryRef) (s' : Store) : Prop :=
  (s'.query q).distinct = false ∧ (s.query q).SamePaging (s'.query q)

theorem persists_pagesOverRows : s.Persists s.PagesOverRows := by
  intro s' s'' q r hgrown _ hr hne hsplits h
  have hnew : r ≠ ⟨s'.queries.size⟩ := fun heq => Nat.not_le_of_lt hr (heq ▸ hgrown)
  rw [PagesOverRows, hsplits.others r hne hnew]
  exact h

theorem Separated.splitting {added : List ColumnRef} {ordering : List OrderItem} (hs : s.Owned)
    (h : s.Separated q added ordering (s.separateDistinctOf q)) :
    Splitting s q (s.separateDistinctOf q) where
  splits := h.splits hs
  owned := hs.evolves (Evolves.rewriting.separateDistinctOf s q)
  inner := by
    rw [h.inner]
    rfl

theorem pagesOverRows_separateDistinctOf (hs : s.Owned) (hq : q.index < s.queries.size) :
    s.PagesOverRows q (s.separateDistinctOf q) := by
  obtain ⟨added, ordering, h⟩ := separated_separateDistinctOf hs hq
  rw [PagesOverRows, h.outer]
  exact ⟨rfl, rfl, rfl, rfl, rfl, rfl⟩

/-- Paging is separated from distinct rows in a statement. -/
theorem pass_separateDistinct (hs : s.Owned) (hI : I s)
    (hinvariant : ∀ q, s.Reaches t q → (s.query q).distinct = true →
      (s.query q).hasPagination = true → ∀ s', Untouched I s q s' → I (s'.separateDistinctOf q)) :
    Pass I s t s.PagesOverRows (s.matchingQueries t fun q => q.distinct && q.hasPagination)
      (s.separateDistinct t) := by
  refine .foldl_matching hs hI (fun query h => (Bool.and_eq_true _ _ ▸ h).2) persists_pagesOverRows
    fun q hreaches hmatches s' hs' => ?_
  obtain ⟨hdistinct, hpagination⟩ := Bool.and_eq_true _ _ ▸ hmatches
  obtain ⟨added, ordering, h⟩ := separated_separateDistinctOf hs'.owned hs'.valid'
  refine ⟨h.splitting hs'.owned, hinvariant q hreaches hdistinct hpagination s' hs', ?_⟩
  have hpages := pagesOverRows_separateDistinctOf hs'.owned hs'.valid'
  rwa [PagesOverRows, hs'.query] at hpages

/-- After paging has been separated from distinct rows, a query that is paged was paged before, in
the same way, and is not about distinct rows. -/
theorem Pass.pagesOverRows
    (h : Pass I s t s.PagesOverRows (s.matchingQueries t fun q => q.distinct && q.hasPagination) s')
    {r : QueryRef} (hr : s'.Reaches t r) (hpagination : (s'.query r).hasPagination = true) :
    s.Reaches t r ∧ s.PagesOverRows r s' := by
  obtain ⟨hreaches, hsize⟩ := h.reaches_of_hasPagination hr hpagination
  refine ⟨hreaches, ?_⟩
  by_cases hdone : r ∈ s.matchingQueries t fun q => q.distinct && q.hasPagination
  · exact (h.changed r hdone).2
  · have hquery := h.others r hdone hsize
    rw [hquery] at hpagination
    rw [PagesOverRows, hquery]
    refine ⟨Bool.eq_false_iff.mpr fun hdistinct => hdone ?_, .refl _⟩
    exact mem_matchingQueries.mpr ⟨hreaches, by rw [hdistinct, hpagination]; rfl⟩

end

/-! ## Rows are numbered -/

section

variable {s s' : Store} {t : StatementRef} {q : QueryRef} {I : Store → Prop}

/-- A query is no longer paged.  It has those rows of a subquery whose number is in the window, in
the order of the numbers. -/
def PagesByNumbers (s : Store) (q : QueryRef) (s' : Store) : Prop :=
  ∃ inner : QueryRef, ∃ number ∈ (s'.query inner).columns, s.queries.size ≤ inner.index ∧
    (s'.column number).expression = rowNumber (s.query q).orderBy ∧
    (s'.query q).sources = [.ofQuery inner] ∧
    (s'.query q).whereClause =
      rowWindow (.column number) (s.query q).take (s.query q).skip ∧
    (s'.query q).orderBy = [⟨.column number, false⟩] ∧ (s'.query q).hasPagination = false

theorem persists_pagesByNumbers : s.Persists s.PagesByNumbers := by
  intro s' s'' q r hgrown hq hr hne hsplits ⟨inner, number, hnumber, hinner, hexpression, hrest⟩
  have hnew {p : QueryRef} (hp : p.index < s'.queries.size) : p ≠ ⟨s'.queries.size⟩ := fun heq =>
    Nat.lt_irrefl _ (heq ▸ hp)
  have hinnerLt : inner.index < s'.queries.size := by
    by_contra hle
    rw [query_of_le (Nat.le_of_not_lt hle)] at hnumber
    cases hnumber
  have hinnerNe : inner ≠ q := fun heq => Nat.not_le_of_lt hq (heq ▸ hinner)
  refine ⟨inner, number, ?_, hinner, ?_, ?_⟩
  · rw [hsplits.others inner hinnerNe (hnew hinnerLt)]
    exact hnumber
  · rw [hsplits.kept inner hinnerNe number hnumber]
    exact hexpression
  · rw [hsplits.others r hne (hnew (Nat.lt_of_lt_of_le hr hgrown))]
    exact hrest

theorem Numbered.splitting (hs : s.Owned) (h : s.Numbered q (s.numberRowsOf q)) :
    Splitting s q (s.numberRowsOf q) where
  splits := h.splits hs
  owned := hs.evolves (Evolves.rewriting.numberRowsOf s q)
  inner := by
    rw [h.inner]
    rfl

theorem pagesByNumbers_numberRowsOf (hs : s.Owned) (hq : q.index < s.queries.size) :
    s.PagesByNumbers q (s.numberRowsOf q) := by
  have h := numbered_numberRowsOf hs hq
  refine ⟨⟨s.queries.size⟩, s.rowNumberColumn q, ?_, Nat.le_refl _, h.number, ?_⟩
  · rw [h.inner]
    exact List.mem_append_right _ (List.mem_singleton_self _)
  · rw [h.outer]
    exact ⟨rfl, rfl, rfl, rfl⟩

/-- The queries with an offset and without set operators, if these are the ones that are numbered. -/
def numberedQueries (s : Store) (t : StatementRef) : List QueryRef :=
  s.matchingQueries t fun q => q.hasPagination && !q.hasSetOperators && (!true || q.skip.isSome)

theorem mem_numberedQueries : q ∈ s.numberedQueries t ↔
    s.Reaches t q ∧ (s.query q).setOperators = [] ∧ (s.query q).skip.isSome = true := by
  have htest (query : Query) : (query.hasPagination && !query.hasSetOperators &&
      (!true || query.skip.isSome)) = true ↔ query.setOperators = [] ∧ query.skip.isSome = true := by
    cases hskip : query.skip <;> simp [Query.hasPagination, Query.hasSetOperators, hskip]
  rw [numberedQueries, mem_matchingQueries, htest]

/-- Rows are numbered in a statement where there is an offset. -/
theorem pass_numberRows (hs : s.Owned) (hI : I s)
    (hinvariant : ∀ q ∈ s.numberedQueries t, ∀ s', Untouched I s q s' → I (s'.numberRowsOf q)) :
    Pass I s t s.PagesByNumbers (s.numberedQueries t) (s.numberRows t true) := by
  refine .foldl_matching hs hI (fun query h => ?_) persists_pagesByNumbers
    fun q hreaches hmatches s' hs' => ?_
  · simp only [Bool.and_eq_true] at h
    exact h.1.1
  · have hmem : q ∈ s.numberedQueries t := mem_matchingQueries.mpr ⟨hreaches, hmatches⟩
    have h := numbered_numberRowsOf hs'.owned hs'.valid'
    refine ⟨h.splitting hs'.owned, hinvariant q hmem s' hs', ?_⟩
    obtain ⟨inner, number, hnumber, hinner, hrest⟩ := pagesByNumbers_numberRowsOf hs'.owned hs'.valid'
    rw [hs'.query] at hrest
    exact ⟨inner, number, hnumber, Nat.le_trans hs'.grown hinner, hrest⟩

/-- After rows have been numbered, a query that is paged was paged before, and is as it was: it has
no offset, or set operators. -/
theorem Pass.of_numbered (h : Pass I s t s.PagesByNumbers (s.numberedQueries t) s') {r : QueryRef}
    (hr : s'.Reaches t r) (hpagination : (s'.query r).hasPagination = true) :
    s.Reaches t r ∧ s'.query r = s.query r ∧
      ((s.query r).setOperators = [] → (s.query r).skip = none) := by
  obtain ⟨hreaches, hsize⟩ := h.reaches_of_hasPagination hr hpagination
  by_cases hdone : r ∈ s.numberedQueries t
  · obtain ⟨-, inner, number, -, -, -, -, -, -, hnone⟩ := h.changed r hdone
    rw [hnone] at hpagination
    cases hpagination
  · refine ⟨hreaches, h.others r hdone hsize, fun hoperators => ?_⟩
    by_contra hskip
    refine hdone (mem_numberedQueries.mpr ⟨hreaches, hoperators, ?_⟩)
    rwa [Option.isSome_iff_ne_none]

end

end Store

/-- Updates and deletes. -/
def StatementBody.isModification : StatementBody → Bool
  | .update .. | .delete .. => true
  | _ => false

namespace Store

section

variable {V Block : Type} [DecidableEq V] {E : Engine V Block} {s s' : Store} {t : StatementRef}
  {q : QueryRef}

/-! ## Runs of a split query -/

/-- The items of an ordering that can be read in the distinct rows of a query: they are selected. -/
def OrdersBySelected (s : Store) (q : QueryRef) : Prop :=
  ∀ item ∈ (s.query q).orderBy, ¬item.expression.IsRowNumber ∧
    ∃ e ∈ s.selected q, (e == item.expression) = true

/-- All queries give what they gave when paging is separated from the distinct rows of one. -/
theorem sameRuns_separateDistinctOf (hs : s.Owned) (hclosed : s.Closed E)
    (hq : q.index < s.queries.size) (hlists : E.Lists (s.query q)) (horders : s.OrdersBySelected q) :
    s.SameRuns E (s.separateDistinctOf q) := by
  obtain ⟨added, ordering, h⟩ := separated_separateDistinctOf hs hq
  have hnumbers : ∀ item ∈ (s.query q).orderBy, ¬item.expression.IsRowNumber :=
    fun item hitem => (horders item hitem).1
  have hselected : ∀ item ∈ (s.query q).orderBy, ∃ c ∈ (s.query q).columns,
      ((s.column c).expression == item.expression) = true := fun item hitem => by
    obtain ⟨e, he, hbeq⟩ := (horders item hitem).2
    obtain ⟨c, hc, rfl⟩ := List.mem_map.mp he
    exact ⟨c, hc, hbeq⟩
  exact (h.splits hs).sameRuns hq hclosed
    (fun _ _ _ => h.gives_sound hlists hnumbers hselected)
    fun _ _ _ => h.gives_complete hlists hnumbers hselected

/-- All queries give what they gave when the rows of one are numbered. -/
theorem sameRuns_numberRowsOf (hs : s.Owned) (hclosed : s.Closed E)
    (hq : q.index < s.queries.size) (hlists : E.Lists (s.query q))
    (hdistinct : (s.query q).distinct = false) : s.SameRuns E (s.numberRowsOf q) := by
  have h := numbered_numberRowsOf hs hq
  exact (h.splits hs).sameRuns hq hclosed (fun _ _ _ => h.gives_sound hlists hdistinct)
    fun _ _ _ => h.gives_complete hlists hdistinct

/-! ## Runs of a pass -/

/-- The queries of a statement that page over distinct rows are of the kind that is emulated. -/
def SeparatesSoundly (E : Engine V Block) (s : Store) (t : StatementRef) : Prop :=
  ∀ q, s.Reaches t q → (s.query q).distinct = true → (s.query q).hasPagination = true →
    E.Lists (s.query q) ∧ s.OrdersBySelected q

/-- The queries of a statement with an offset and without set operators are of the kind that is
emulated. -/
def NumbersSoundly (E : Engine V Block) (s : Store) (t : StatementRef) : Prop :=
  ∀ q, s.Reaches t q → (s.query q).skip.isSome = true → (s.query q).setOperators = [] →
    E.Lists (s.query q)

/-- No query of a statement pages over distinct rows, or has an offset without set operators. -/
def PagesByLimit (s : Store) (t : StatementRef) : Prop :=
  ∀ q, s.Reaches t q → (s.query q).hasPagination = true →
    (s.query q).distinct = false ∧ ((s.query q).setOperators = [] → (s.query q).skip = none)

/-- A store whose queries mention queries of the store and give what those of another one give. -/
def Emulates (E : Engine V Block) (s s' : Store) : Prop := s'.Closed E ∧ s.SameRuns E s'

theorem Emulates.splitting {s'' : Store} (h : Emulates E s s') (hsplits : s'.Splits q s'')
    (hruns : s'.SameRuns E s'') : Emulates E s s'' :=
  ⟨hsplits.closed h.1, h.2.trans hruns⟩

/-- Separating paging from distinct rows in a statement. -/
theorem emulates_separateDistinct (hs : s.Owned) (hclosed : s.Closed E)
    (hseparates : SeparatesSoundly E s t) :
    Pass (Emulates E s) s t s.PagesOverRows
      (s.matchingQueries t fun q => q.distinct && q.hasPagination) (s.separateDistinct t) := by
  refine pass_separateDistinct hs ⟨hclosed, .refl⟩ fun q hreaches hdistinct hpagination s' hs' => ?_
  obtain ⟨hlists, horders⟩ := hseparates q hreaches hdistinct hpagination
  obtain ⟨added, ordering, h⟩ := separated_separateDistinctOf hs'.owned hs'.valid'
  refine hs'.invariant.splitting (h.splits hs'.owned) ?_
  refine sameRuns_separateDistinctOf hs'.owned hs'.invariant.1 hs'.valid' (hs'.query ▸ hlists) ?_
  rw [OrdersBySelected, hs'.query, hs'.selected]
  exact horders

/-- Numbering the rows of a statement where there is an offset. -/
theorem emulates_numberRows (hs : s.Owned) (hclosed : s.Closed E) (hnumbers : NumbersSoundly E s t)
    (hdistinct : ∀ q, s.Reaches t q → (s.query q).hasPagination = true →
      (s.query q).distinct = false) :
    Pass (Emulates E s) s t s.PagesByNumbers (s.numberedQueries t) (s.numberRows t true) := by
  refine pass_numberRows hs ⟨hclosed, .refl⟩ fun q hq s' hs' => ?_
  obtain ⟨hreaches, hoperators, hskip⟩ := mem_numberedQueries.mp hq
  have hpagination : (s.query q).hasPagination = true := by
    rw [Query.hasPagination, hskip, Bool.or_true]
  have h := numbered_numberRowsOf hs'.owned hs'.valid'
  refine hs'.invariant.splitting (h.splits hs'.owned) ?_
  exact sameRuns_numberRowsOf hs'.owned hs'.invariant.1 hs'.valid'
    (hs'.query ▸ hnumbers q hreaches hskip hoperators) (hs'.query ▸ hdistinct q hreaches hpagination)

/-! ## Statements -/

omit [DecidableEq V] in
/-- After paging has been separated from distinct rows, what is left can be emulated by row
numbers. -/
theorem emulated_separateDistinct {I : Store → Prop} (hnumbers : NumbersSoundly E s t)
    (hpass : Pass I s t s.PagesOverRows
      (s.matchingQueries t fun q => q.distinct && q.hasPagination) s') :
    NumbersSoundly E s' t := by
  intro q hq hskip hoperators
  have hpagination : (s'.query q).hasPagination = true := by
    rw [Query.hasPagination, hskip, Bool.or_true]
  obtain ⟨hreaches, -, hsame⟩ := hpass.pagesOverRows hq hpagination
  rw [hsame.skip] at hskip
  rw [hsame.setOperators] at hoperators
  exact hsame.lists (hnumbers q hreaches hskip hoperators)

/-- A statement of DB2 that is neither an update nor a delete is restructured.  All its queries give
what they gave, the rows in their order without those that are skipped and up to the limit, if those
with an offset list their columns, without limit hints, and those that page over distinct rows order
them by what they select.  No query pages over distinct rows then, or has an offset without set
operators. -/
theorem restructured_db2 (hs : s.Owned) (hclosed : s.Closed E)
    (hbody : (s.statement t).body.isModification = false)
    (hseparates : SeparatesSoundly E s t) (hnumbers : NumbersSoundly E s t) :
    ∃ s', s.restructured (.ofDialect .db2) t = (.ok (), s') ∧ s.SameRuns E s' ∧
      s'.PagesByLimit t := by
  have hseparated := emulates_separateDistinct hs hclosed hseparates
  have hdistinct : ∀ q, (s.separateDistinct t).Reaches t q →
      ((s.separateDistinct t).query q).hasPagination = true →
        ((s.separateDistinct t).query q).distinct = false :=
    fun q hq hpagination => (hseparated.pagesOverRows hq hpagination).2.1
  have hnumbered := emulates_numberRows hseparated.owned hseparated.invariant.1
    (emulated_separateDistinct hnumbers hseparated) hdistinct
  refine ⟨(s.separateDistinct t).numberRows t true, ?_,
    hseparated.invariant.2.trans hnumbered.invariant.2, fun q hq hpagination => ?_⟩
  · have hdml : (s.separateDistinct t).restructureDml (Provider.ofDialect .db2).rules t =
        (.ok (), s.separateDistinct t) := by
      have hstatement : ((s.separateDistinct t).statement t).body = (s.statement t).body := by
        rw [hseparated.content]
        rfl
      have hrules : (Provider.ofDialect .db2).rules.multiTableDml = false := rfl
      rw [restructureDml, hrules, if_neg Bool.false_ne_true, hstatement]
      cases hcase : (s.statement t).body <;> rw [hcase] at hbody
      case delete => cases hbody
      case update => cases hbody
    have hpaging : (Provider.ofDialect .db2).rules.pagingWithDistinct = false := rfl
    rw [restructured]
    simp only [hpaging, Bool.false_eq_true, if_false, hdml]
    rfl
  · obtain ⟨hreaches, hquery, hskip⟩ := hnumbered.of_numbered hq hpagination
    rw [hquery] at hpagination ⊢
    exact ⟨hdistinct q hreaches hpagination, hskip⟩

end

/-- The nicknames of people by age, without the youngest one. -/
def laterNicknames : Store := nicknames
  { skip := some (.value ⟨.int32, .integer 1⟩), orderBy := byAge }

/-- The engine for three people. -/
def threePeople : Engine (Option Int) (Env (Option Int)) :=
  Interpretation.nullableCounts.engine laterNicknames
    (Pipeline.peopleOf [(some 1, 30), (some 2, 17), (some 3, 40)])

/-- What is selected of a person. -/
def nicknameOf (outer : Env (Option Int)) (nickname age : Int) :
    Selection (Option Int) (Env (Option Int)) :=
  laterNicknames.selectionOf threePeople noRun (laterNicknames.tableBlock outer ⟨0⟩ fun member =>
    if member == "Age" then some age else some nickname)

/-- The run that leaves out the youngest person. -/
def laterRun : Run (Option Int) := fun _ outer =>
  [nicknameOf outer 1 30, nicknameOf outer 3 40].map (laterNicknames.rowOf ⟨0⟩)

theorem lists_laterNicknames : threePeople.Lists (laterNicknames.query ⟨0⟩) where
  setOperators := rfl
  takeHints := rfl
  columns := List.cons_ne_nil _ _
  take e he := by cases he
  skip e he := by cases he; rfl

theorem runs_laterRun : laterNicknames.Runs threePeople laterRun := by
  rintro ⟨i⟩ hi outer
  obtain rfl : i = 0 := Nat.lt_one_iff.mp hi
  have hselected : laterNicknames.selected ⟨0⟩ = [.field ⟨0⟩] := rfl
  have hselections : laterNicknames.selections threePeople laterRun outer ⟨0⟩ =
    [nicknameOf outer 1 30, nicknameOf outer 2 17, nicknameOf outer 3 40] := rfl
  have hsorted : Sorted threePeople laterRun byAge
      [nicknameOf outer 2 17, nicknameOf outer 1 30, nicknameOf outer 3 40] := by
    refine .cons (fun x hx => ?_) (.cons (fun x hx => ?_) (List.pairwise_singleton _ _))
    · rcases List.mem_pair.mp hx with rfl | rfl <;> exact Ordering.noConfusion
    · rw [List.mem_singleton.mp hx]
      exact Ordering.noConfusion
  exact gives_of_values lists_laterNicknames (by simp [hselected, Scalar.not_isRowNumber_field])
    (by rw [hselections]; exact .swap _ _ _) hsorted

/-- The paged nicknames are emulated by row numbers: the youngest person is left out. -/
theorem restructured_db2_laterNicknames : ∃ s' run,
    laterNicknames.restructured (.ofDialect .db2) ⟨0⟩ = (.ok (), s') ∧ s'.PagesByLimit ⟨0⟩ ∧
      s'.Runs threePeople run ∧
        (run ⟨0⟩ nowhere).map (fun row => row ⟨0⟩) = [some (some 1), some (some 3)] := by
  have hclosed : laterNicknames.Closed threePeople := closed_nicknames rfl rfl
  have hqueries : laterNicknames.statementQueries ⟨0⟩ = [⟨0⟩] := rfl
  have hreaches {q : QueryRef} (hq : laterNicknames.Reaches ⟨0⟩ q) : q = ⟨0⟩ := by
    rw [← mem_statementQueries, hqueries] at hq
    exact List.mem_singleton.mp hq
  obtain ⟨s', hs', hsame, hpages⟩ := restructured_db2 (owned_nicknames _) hclosed rfl
    (fun q hq hdistinct => by rw [hreaches hq] at hdistinct; cases hdistinct)
    (fun q hq _ _ => by rw [hreaches hq]; exact lists_laterNicknames)
  obtain ⟨run, hruns, hrun⟩ := hsame.complete laterRun runs_laterRun
  refine ⟨s', run, hs', hpages, hruns, ?_⟩
  rw [hrun ⟨0⟩ Nat.one_pos]
  rfl

end Store

end SqlCompiler
