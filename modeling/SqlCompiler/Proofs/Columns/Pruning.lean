import Mathlib.Data.List.Forall2
import SqlCompiler.Proofs.Columns.Agreement
import SqlCompiler.Proofs.Queries.Parts
import SqlCompiler.Proofs.Queries.Reachable
import SqlCompiler.Proofs.Semantics.Rows

/-!
# Rows without unused columns

A subquery loses the columns that nothing reads, unless it is distinct or has set operators.  Its
rows stay: whatever is read of one of them is in a column that is kept, and the rows of a query are
chosen by what is read.

Main results:

- Definition `Env.ReadsAlike`: rows on which some columns have the same values.
- Theorem `Scalar.eval_readsAlike`, `Condition.truth_readsAlike`: an expression has the same value
  on them.
- Definition `Store.Trims`: columns are dropped that are not used.
- Theorem `Store.Trims.yields`: the rows of a query whose subqueries lose columns.
- Theorem `Store.keepsRows_pruneColumns`: the rows of a statement without unused columns.
-/

namespace SqlCompiler

/-! ## Rows that read alike -/

/-- Rows on which fields and the used columns have the same values. -/
structure Env.ReadsAlike {V : Type} (used : ColumnRef → Prop) (ρ ρ' : Env V) : Prop where
  field : ∀ f, ρ'.field f = ρ.field f
  column : ∀ c, used c → ρ'.column c = ρ.column c

section

variable {V : Type} {I : Interpretation V} {ρ ρ' ρ'' : Env V} {used used' : ColumnRef → Prop}

theorem Env.ReadsAlike.refl (used : ColumnRef → Prop) (ρ : Env V) : ρ.ReadsAlike used ρ :=
  ⟨fun _ => rfl, fun _ _ => rfl⟩

theorem Env.ReadsAlike.trans (h : ρ.ReadsAlike used ρ') (h' : ρ'.ReadsAlike used ρ'') :
    ρ.ReadsAlike used ρ'' :=
  ⟨fun f => (h'.field f).trans (h.field f), fun c hc => (h'.column c hc).trans (h.column c hc)⟩

theorem Env.ReadsAlike.mono (h : ρ.ReadsAlike used ρ') (himp : ∀ c, used' c → used c) :
    ρ.ReadsAlike used' ρ' :=
  ⟨h.field, fun c hc => h.column c (himp c hc)⟩

/-- Only used columns occur among some scalars. -/
def UsesOnly (used : ColumnRef → Prop) (scalars : List Scalar) : Prop :=
  ∀ c, .column c ∈ scalars → used c

theorem UsesOnly.of_append {xs ys : List Scalar} (h : UsesOnly used (xs ++ ys)) :
    UsesOnly used xs ∧ UsesOnly used ys :=
  ⟨fun c hc => h c (List.mem_append_left ys hc), fun c hc => h c (List.mem_append_right xs hc)⟩

theorem UsesOnly.of_cons {e : Scalar} {rest : List Scalar} (h : UsesOnly used (e :: rest)) :
    UsesOnly used rest :=
  fun c hc => h c (List.mem_cons_of_mem e hc)

mutual

/-- An expression over used columns has the same value on rows that read alike. -/
theorem Scalar.eval_readsAlike (hρ : ρ.ReadsAlike used ρ') (e : Scalar) (h : UsesOnly used e.walk) :
    e.eval I ρ' = e.eval I ρ := by
  cases e with
  | field f => exact hρ.field f
  | column c => exact hρ.column c (h c List.mem_cons_self)
  | function call => exact Call.eval_readsAlike hρ call h.of_cons
  | binary l op r type =>
    have hparts := h.of_cons.of_append
    exact congrArg₂ (I.binary op) (Scalar.eval_readsAlike hρ l hparts.1)
      (Scalar.eval_readsAlike hρ r hparts.2)
  | convert target source e keep =>
    exact congrArg (I.convert target.kind) (Scalar.eval_readsAlike hρ e h.of_cons)
  | condition c => exact congrArg I.ofTruth (Condition.truth_readsAlike hρ c h.of_cons)
  | _ => rfl
termination_by structural e

theorem evalScalars_readsAlike (hρ : ρ.ReadsAlike used ρ') (items : List Scalar)
    (h : UsesOnly used (walkScalars items)) : evalScalars I ρ' items = evalScalars I ρ items := by
  cases items with
  | nil => rfl
  | cons e rest =>
    have hparts := UsesOnly.of_append h
    exact congrArg₂ List.cons (Scalar.eval_readsAlike hρ e hparts.1)
      (evalScalars_readsAlike hρ rest hparts.2)
termination_by structural items

theorem Call.eval_readsAlike (hρ : ρ.ReadsAlike used ρ') (c : Call) (h : UsesOnly used c.walk) :
    c.eval I ρ' = c.eval I ρ := by
  cases c with
  | mk name args type isAggregate keep =>
    exact congrArg (I.call name) (evalScalars_readsAlike hρ args h)
termination_by structural c

theorem Predicate.truth_readsAlike (hρ : ρ.ReadsAlike used ρ') (p : Predicate)
    (h : UsesOnly used p.walk) : p.truth I ρ' = p.truth I ρ := by
  cases p with
  | compare l op r withNull =>
    cases withNull with
    | none =>
      have hparts := UsesOnly.of_append h
      exact congrArg₂ (I.compare op) (Scalar.eval_readsAlike hρ l hparts.1)
        (Scalar.eval_readsAlike hρ r hparts.2)
    | some b => rfl
  | isNull e negated =>
    exact congrArg (fun v => some (I.isNull v != negated)) (Scalar.eval_readsAlike hρ e h)
  | scalar e precedence => exact congrArg I.toTruth (Scalar.eval_readsAlike hρ e h)
  | nested c => exact Condition.truth_readsAlike hρ c h
  | _ => rfl
termination_by structural p

theorem Branch.truth_readsAlike (hρ : ρ.ReadsAlike used ρ') (b : Branch)
    (h : UsesOnly used b.walk) : b.truth I ρ' = b.truth I ρ := by
  cases b with
  | mk negated predicate joinsOr =>
    exact congrArg (fun t => if negated then Truth.not t else t)
      (Predicate.truth_readsAlike hρ predicate h)
termination_by structural b

theorem branchesTruth_readsAlike (hρ : ρ.ReadsAlike used ρ') (branches : List Branch) (acc : Truth)
    (h : UsesOnly used (walkBranches branches)) :
    branchesTruth I ρ' branches acc = branchesTruth I ρ branches acc := by
  cases branches with
  | nil => rfl
  | cons b rest =>
    have hparts := UsesOnly.of_append h
    rw [branchesTruth, branchesTruth, Branch.truth_readsAlike hρ b hparts.1,
      branchesTruth_readsAlike hρ rest _ hparts.2, branchesTruth_readsAlike hρ rest _ hparts.2]
termination_by structural branches

/-- A condition over used columns has the same truth on rows that read alike. -/
theorem Condition.truth_readsAlike (hρ : ρ.ReadsAlike used ρ') (c : Condition)
    (h : UsesOnly used c.walk) : c.truth I ρ' = c.truth I ρ := by
  cases c with
  | mk branches => exact branchesTruth_readsAlike hρ branches (some true) h
termination_by structural c

end

end

/-! ## Clauses -/

/-- Items that are related one by one have related first items of each key. -/
theorem forall₂_firstOfEach {α β κ : Type} [DecidableEq κ] {R : α → β → Prop} {key : α → κ}
    {key' : β → κ} (hkey : ∀ a b, R a b → key' b = key a) {as : List α} {bs : List β}
    (h : List.Forall₂ R as bs) : List.Forall₂ R (firstOfEach key as) (firstOfEach key' bs) := by
  induction h with
  | nil => exact .nil
  | @cons a b as bs hab _ ih =>
    refine .cons hab (List.rel_filter (fun a' b' hab' => ?_) ih)
    dsimp only
    rw [hkey a b hab, hkey a' b' hab']

theorem forall₂_trans {α β γ : Type} {R : α → β → Prop} {S : β → γ → Prop} {T : α → γ → Prop}
    (htrans : ∀ a b c, R a b → S b c → T a c) {as : List α} {bs : List β} {cs : List γ}
    (h : List.Forall₂ R as bs) (h' : List.Forall₂ S bs cs) : List.Forall₂ T as cs := by
  induction h generalizing cs with
  | nil =>
    cases h'
    exact .nil
  | cons hab _ ih =>
    cases h' with
    | cons hbc hrest => exact .cons (htrans _ _ _ hab hbc) (ih hrest)

/-- The columns of a query that stay when some of them are dropped that are not used. -/
structure Query.Trims (used : ColumnRef → Prop) (q q' : Query) : Prop where
  clauses : ∃ kept, q' = { q with columns := kept }
  subset : q'.columns ⊆ q.columns
  keeps : ∀ c ∈ q.columns, used c → c ∈ q'.columns
  distinct : q.distinct = true → q'.columns = q.columns

/-- Columns of queries are dropped that are not used. -/
structure Store.Trims (used : ColumnRef → Prop) (s s' : Store) : Prop where
  statements : s'.statements = s.statements
  columns : s'.columns = s.columns
  tables : s'.tables = s.tables
  fields : s'.fields = s.fields
  query : ∀ q, (s.query q).Trims used (s'.query q)

section

variable {used : ColumnRef → Prop} {q q' q'' : Query}

theorem Query.Trims.refl (used : ColumnRef → Prop) (q : Query) : q.Trims used q :=
  ⟨⟨q.columns, rfl⟩, List.Subset.refl _, fun _ hc _ => hc, fun _ => rfl⟩

theorem Query.Trims.trans (h : q.Trims used q') (h' : q'.Trims used q'') :
    q.Trims used q'' := by
  obtain ⟨kept, hkept⟩ := h.clauses
  obtain ⟨kept', hkept'⟩ := h'.clauses
  refine ⟨⟨kept', by rw [hkept', hkept]⟩, List.Subset.trans h'.subset h.subset,
    fun c hc huse => h'.keeps c (h.keeps c hc huse) huse, fun hdistinct => ?_⟩
  rw [h'.distinct (by rw [hkept]; exact hdistinct), h.distinct hdistinct]

theorem Query.Trims.isPlain (h : q.Trims used q') (hplain : q.IsPlain) : q'.IsPlain := by
  obtain ⟨kept, rfl⟩ := h.clauses
  exact ⟨hplain.grouping, hplain.having, hplain.orderBy, hplain.setOperators⟩

/-- The rows of a query over rows that read alike. -/
theorem Query.Trims.rowsOf {V : Type} [DecidableEq V] {I : Interpretation V} {s s' : Store}
    (h : q.Trims used q') (hcolumns : s'.columns = s.columns)
    (hselect : UsesOnly used (q.columns.flatMap fun c => (s.column c).expression.walk))
    (hwhere : UsesOnly used q.whereClause.walk) {rows rows' : List (Env V)}
    (hrows : List.Forall₂ (Env.ReadsAlike used) rows rows') :
    List.Forall₂ (Env.ReadsAlike used) (q.rowsOf I s rows) (q'.rowsOf I s' rows') := by
  obtain ⟨kept, rfl⟩ := h.clauses
  have hfilter : List.Forall₂ (Env.ReadsAlike used)
      (rows.filter fun ρ => q.whereClause.truth I ρ == some true)
      (rows'.filter fun ρ => q.whereClause.truth I ρ == some true) := by
    refine List.rel_filter (fun ρ ρ' hρ => ?_) hrows
    dsimp only
    rw [Condition.truth_readsAlike hρ q.whereClause hwhere]
  have htuple : q.distinct = true → ∀ ρ ρ' : Env V, ρ.ReadsAlike used ρ' →
      s'.tuple I { q with columns := kept } ρ' = s.tuple I q ρ := by
    intro hdistinct ρ ρ' hρ
    have hkept : kept = q.columns := h.distinct hdistinct
    subst hkept
    refine List.map_congr_left fun c hc => ?_
    have hcolumn : s'.column c = s.column c := by rw [Store.column, Store.column, hcolumns]
    rw [hcolumn]
    exact Scalar.eval_readsAlike hρ _ fun d hd => hselect d (List.mem_flatMap.mpr ⟨c, hc, hd⟩)
  have hdistinct : List.Forall₂ (Env.ReadsAlike used)
      (if q.distinct then firstOfEach (s.tuple I q)
        (rows.filter fun ρ => q.whereClause.truth I ρ == some true)
      else rows.filter fun ρ => q.whereClause.truth I ρ == some true)
      (if q.distinct then firstOfEach (s'.tuple I { q with columns := kept })
        (rows'.filter fun ρ => q.whereClause.truth I ρ == some true)
      else rows'.filter fun ρ => q.whereClause.truth I ρ == some true) := by
    cases hq : q.distinct with
    | true => exact forall₂_firstOfEach (htuple hq) hfilter
    | false => exact hfilter
  have hskip : ∀ {rows rows' : List (Env V)}, List.Forall₂ (Env.ReadsAlike used) rows rows' →
      List.Forall₂ (Env.ReadsAlike used) (skipRows q.skip rows) (skipRows q.skip rows') := by
    intro rows rows' hrows
    cases q.skip with
    | none => exact hrows
    | some e => exact List.forall₂_drop _ hrows
  have htake : ∀ {rows rows' : List (Env V)}, List.Forall₂ (Env.ReadsAlike used) rows rows' →
      List.Forall₂ (Env.ReadsAlike used) (takeRows q.take rows) (takeRows q.take rows') := by
    intro rows rows' hrows
    cases q.take with
    | none => exact hrows
    | some e => exact List.forall₂_take _ hrows
  exact htake (hskip hdistinct)

end

/-! ## One turn -/

namespace Store

section

variable {used : ColumnRef → Prop} {s s' s'' : Store}

theorem Trims.refl (used : ColumnRef → Prop) (s : Store) : s.Trims used s :=
  ⟨rfl, rfl, rfl, rfl, fun _ => .refl used _⟩

theorem Trims.trans (h : s.Trims used s') (h' : s'.Trims used s'') : s.Trims used s'' :=
  ⟨h'.statements.trans h.statements, h'.columns.trans h.columns, h'.tables.trans h.tables,
    h'.fields.trans h.fields, fun q => (h.query q).trans (h'.query q)⟩

/-- The columns of a query that stay are used, or are all there are, or the first one. -/
theorem trims_keptColumns (s : Store) (used : List ColumnRef) (q : QueryRef) :
    (s.query q).Trims (· ∈ used) { s.query q with columns := s.keptColumns used q } := by
  refine ⟨⟨_, rfl⟩, ?_, fun c hc huse => ?_, fun hdistinct => ?_⟩
  · change s.keptColumns used q ⊆ (s.query q).columns
    unfold keptColumns
    dsimp only
    split_ifs
    · exact List.Subset.refl _
    · exact List.take_subset 1 _
    · exact List.filter_sublist.subset
  · change c ∈ s.keptColumns used q
    have hkept : c ∈ (s.query q).columns.filter used.contains :=
      List.mem_filter.mpr ⟨hc, List.contains_iff_mem.mpr huse⟩
    unfold keptColumns
    dsimp only
    split_ifs with hall hnone
    · exact hc
    · rw [List.isEmpty_iff.mp hnone] at hkept
      cases hkept
    · exact hkept
  · change s.keptColumns used q = (s.query q).columns
    unfold keptColumns
    dsimp only
    rw [hdistinct, Bool.true_or, if_pos rfl]

theorem trims_pruneQuery (used : List ColumnRef) (s : Store) (q : QueryRef) :
    s.Trims (· ∈ used) (pruneQuery used s q) := by
  unfold pruneQuery
  dsimp only
  split
  · refine ⟨rfl, rfl, rfl, rfl, fun r => ?_⟩
    rcases query_modifyQuery s q r fun query =>
      { query with columns := s.keptColumns used q } with ⟨rfl, hquery⟩ | hquery
    · rw [hquery]
      exact trims_keptColumns s used r
    · rw [hquery]
      exact .refl _ _
  · exact .refl _ s

/-- In one turn, columns are dropped that nothing reads. -/
theorem trims_pruneOnce (s : Store) (t : StatementRef) :
    s.Trims (· ∈ s.usedColumns t (s.statementQueries t)) (s.pruneOnce t) := by
  have hfold : ∀ (used : List ColumnRef) (queries : List QueryRef) (s : Store),
      s.Trims (· ∈ used) (queries.foldl (pruneQuery used) s) := by
    intro used queries
    induction queries with
    | nil => exact .refl _
    | cons q rest ih => exact fun s => (trims_pruneQuery used s q).trans (ih _)
  exact hfold _ _ s

/-! ## Rows of trimmed queries -/

/-- Queries that are closed under subqueries and read used columns only. -/
structure ReadOnly (s : Store) (used : ColumnRef → Prop) (X : QueryRef → Prop) : Prop where
  subquery : ∀ q, X q → ∀ r ∈ (s.query q).subqueries, X r
  reads : ∀ q, X q → UsesOnly used (s.walkQuery q)

theorem mem_subqueries_of_source {q inner : QueryRef} {aliasName : Option String}
    (h : (s.query q).sources = [⟨.query inner, aliasName, []⟩]) :
    inner ∈ (s.query q).subqueries := by
  simp [Query.subqueries, Query.allSources, h, Source.all, Source.joined, Source.query?]

/-- The parts of a query that its rows depend on read what the query reads. -/
theorem usesOnly_of_walkQuery {q : QueryRef} (h : UsesOnly used (s.walkQuery q)) :
    UsesOnly used ((s.query q).columns.flatMap fun c => (s.column c).expression.walk) ∧
      UsesOnly used (s.query q).whereClause.walk := by
  constructor
  · intro c hc
    refine h c ?_
    simp only [walkQuery, List.mem_append]
    simp only [hc, true_or]
  · intro c hc
    refine h c ?_
    simp only [walkQuery, List.mem_append]
    simp only [hc, true_or, or_true]

variable {V : Type} [DecidableEq V] {I : Interpretation V} {db : Database V} {X : QueryRef → Prop}

omit [DecidableEq V] in
theorem Trims.tableEnv (h : s.Trims used s') (t : TableRef) (row : String → V) :
    s'.tableEnv I t row = s.tableEnv I t row := by
  have htable : s'.table t = s.table t := by rw [table, table, h.tables]
  have hfield : ∀ f, s'.field f = s.field f := fun f => by rw [field, field, h.fields]
  rw [Store.tableEnv, Store.tableEnv, htable]
  simp only [hfield]

omit [DecidableEq V] in
/-- A row of a subquery is seen alike from outside when unused columns are dropped. -/
theorem Trims.queryEnv (h : s.Trims used s') {inner : QueryRef}
    (hreads : UsesOnly used (s.walkQuery inner)) {ρ ρ' : Env V} (hρ : ρ.ReadsAlike used ρ') :
    (s.queryEnv I inner ρ).ReadsAlike used (s'.queryEnv I inner ρ') := by
  refine ⟨fun f => rfl, fun c hc => ?_⟩
  have hcolumn : s'.column c = s.column c := by rw [column, column, h.columns]
  have hsame : c ∈ (s'.query inner).columns ↔ c ∈ (s.query inner).columns :=
    ⟨fun hmem => (h.query inner).subset hmem, fun hmem => (h.query inner).keeps c hmem hc⟩
  change (if c ∈ (s'.query inner).columns then (s'.column c).expression.eval I ρ' else I.unknown) =
    if c ∈ (s.query inner).columns then (s.column c).expression.eval I ρ else I.unknown
  rw [hcolumn]
  by_cases hmem : c ∈ (s.query inner).columns
  · rw [if_pos hmem, if_pos (hsame.mpr hmem)]
    exact Scalar.eval_readsAlike hρ _ fun d hd =>
      (usesOnly_of_walkQuery hreads).1 d (List.mem_flatMap.mpr ⟨c, hmem, hd⟩)
  · rw [if_neg hmem, if_neg fun hkept => hmem (hsame.mp hkept)]

/-- A query whose subqueries lose unused columns has rows that read alike. -/
theorem Trims.yields (h : s.Trims used s') (hX : s.ReadOnly used X) {q : QueryRef}
    {rows : List (Env V)} (hrows : s.Yields I db q rows) (hq : X q) :
    ∃ rows', s'.Yields I db q rows' ∧ List.Forall₂ (Env.ReadsAlike used) rows rows' := by
  induction hrows with
  | @table q t aliasName hsources hplain =>
    obtain ⟨kept, hkept⟩ := (h.query q).clauses
    have hsources' : (s'.query q).sources = [⟨.table t, aliasName, []⟩] := by rw [hkept, hsources]
    refine ⟨_, .table hsources' ((h.query q).isPlain hplain), ?_⟩
    have hname : (s'.table t).name = (s.table t).name := by rw [table, table, h.tables]
    rw [hname, funext (h.tableEnv t)]
    obtain ⟨hselect, hwhere⟩ := usesOnly_of_walkQuery (hX.reads q hq)
    exact (h.query q).rowsOf h.columns hselect hwhere (List.forall₂_same.mpr fun ρ _ => .refl _ ρ)
  | @query q inner aliasName rows hsources hplain hinner ih =>
    have hX' : X inner := hX.subquery q hq inner (mem_subqueries_of_source hsources)
    obtain ⟨rows', hrows', halike⟩ := ih hX'
    obtain ⟨kept, hkept⟩ := (h.query q).clauses
    have hsources' : (s'.query q).sources = [⟨.query inner, aliasName, []⟩] := by
      rw [hkept, hsources]
    refine ⟨_, .query hsources' ((h.query q).isPlain hplain) hrows', ?_⟩
    obtain ⟨hselect, hwhere⟩ := usesOnly_of_walkQuery (hX.reads q hq)
    refine (h.query q).rowsOf h.columns hselect hwhere ?_
    rw [List.forall₂_map_left_iff, List.forall₂_map_right_iff]
    exact halike.imp fun ρ ρ' hρ => h.queryEnv (hX.reads inner hX') hρ

end

/-! ## All turns -/

section

variable {V : Type} [DecidableEq V] {I : Interpretation V} {db : Database V} {s s' s'' : Store}
  {t : StatementRef} {q : QueryRef}

/-- The rows of a query read alike in another store, where the query is the same.  Nothing reads the
query. -/
structure KeepsRows (I : Interpretation V) (db : Database V) (q : QueryRef) (s s' : Store) : Prop
    extends s.Prunes s' where
  rows : ∀ {rows}, (∀ r, q ∉ (s.query r).subqueries) → s.Yields I db q rows →
    ∃ rows', s'.Yields I db q rows' ∧
      List.Forall₂ (Env.ReadsAlike fun c => .column c ∈ s.walkQuery q) rows rows'

theorem KeepsRows.refl (s : Store) : s.KeepsRows I db q s :=
  ⟨.refl s, fun _ hrows => ⟨_, hrows, List.forall₂_same.mpr fun ρ _ => .refl _ ρ⟩⟩

theorem Prunes.walkQuery (h : s.Prunes s') (hq : ∀ r, q ∉ (s.query r).subqueries) :
    s'.walkQuery q = s.walkQuery q := by
  have hcolumn : ∀ c, s'.column c = s.column c := fun c => by rw [column, column, h.content]
  rw [Store.walkQuery, Store.walkQuery, h.kept q (.inr hq)]
  simp only [hcolumn]

theorem KeepsRows.trans (h : s.KeepsRows I db q s') (h' : s'.KeepsRows I db q s'') :
    s.KeepsRows I db q s'' := by
  refine ⟨h.toPrunes.trans h'.toPrunes, fun hfree hrows => ?_⟩
  obtain ⟨rows', hrows', halike⟩ := h.rows hfree hrows
  have hfree' : ∀ r, q ∉ (s'.query r).subqueries := fun r => by
    rw [h.subqueries]
    exact hfree r
  obtain ⟨rows'', hrows'', halike'⟩ := h'.rows hfree' hrows'
  rw [h.toPrunes.walkQuery hfree] at halike'
  exact ⟨rows'', hrows'', forall₂_trans (fun _ _ _ hρ hρ' => hρ.trans hρ') halike halike'⟩

/-- One turn keeps the rows of the query of the statement. -/
theorem keepsRows_pruneOnce (s : Store) (t : StatementRef) (hq : (s.statement t).query = q) :
    s.KeepsRows I db q (s.pruneOnce t) := by
  refine ⟨prunes_pruneOnce s t, fun _ hrows => ?_⟩
  have hreads (r : QueryRef) (hr : s.Reaches t r) :
      UsesOnly (· ∈ s.usedColumns t (s.statementQueries t)) (s.walkQuery r) := by
    intro c hc
    refine List.mem_append_left _ (List.mem_flatMap.mpr ⟨r, mem_statementQueries.mpr hr, ?_⟩)
    exact List.mem_filterMap.mpr ⟨.column c, hc, rfl⟩
  have hX : s.ReadOnly (· ∈ s.usedColumns t (s.statementQueries t)) (s.Reaches t) :=
    ⟨fun r hr inner hinner => .step hr (subquery_mem_successors hinner), hreads⟩
  have hroot : s.Reaches t q := .root (List.mem_append_left _ (hq ▸ List.mem_cons_self))
  obtain ⟨rows', hrows', halike⟩ := (trims_pruneOnce s t).yields hX hrows hroot
  exact ⟨rows', hrows', halike.imp fun ρ ρ' hρ => hρ.mono (hreads q hroot)⟩

/-- A statement without unused columns gives rows that read alike, and its query is the same. -/
theorem keepsRows_pruneColumns (s : Store) (t : StatementRef) (hq : (s.statement t).query = q) :
    s.KeepsRows I db q (s.pruneColumns t) := by
  have hturns : (s.pruneColumns t).statements = s.statements ∧
      ((s.statement t).query = q → s.KeepsRows I db q (s.pruneColumns t)) := by
    refine pruneColumns_of_turns (R := fun s s' => s'.statements = s.statements ∧
      ((s.statement t).query = q → s.KeepsRows I db q s')) t (fun s => ⟨rfl, fun _ => .refl s⟩)
      (fun {a b c} hab hbc => ⟨hbc.1.trans hab.1, fun hq => ?_⟩)
      (fun s => ⟨(trims_pruneOnce s t).statements, keepsRows_pruneOnce s t⟩) s
    have hq' : (b.statement t).query = q := by rw [statement, hab.1, ← statement, hq]
    exact (hab.2 hq).trans (hbc.2 hq')
  exact hturns.2 hq

end

end Store

end SqlCompiler
