import SqlCompiler.Proofs.Lowering.Bodies
import SqlCompiler.Proofs.Lowering.Subqueries

/-!
# Lowered sequences

What a lowered sequence has to do with the elements it stands for, and what each operator that
adds a clause keeps of that.

Main results:

- Definition `Lowered.Represents`: the invariant of lowering a sequence.
- Theorem `Lowered.Represents.wrapIf`: a query that is read from outside keeps its elements.
- Theorems `Lowered.Represents.filter`, `Lowered.Represents.project`, `Lowered.Represents.page`,
  `Lowered.Represents.distinct`: what a clause makes of the elements.
-/

namespace SqlCompiler

variable {V : Type} [DecidableEq V] {I : Interpretation V} {db : Database V}
  {ctx : LowerContext} {st : LowerState} {s s' : Store} {q : QueryRef} {σ : Shape}
  {elements : List (Element V)} {lowered : Lowered}

/-! ## The invariant -/

/-- Selected columns tell apart the same rows as a projection, where the query is distinct; else
there are none yet. -/
structure Store.Selects (I : Interpretation V) (s : Store) (q : QueryRef) (p : Projection) :
    Prop where
  none : (s.query q).distinct = false → (s.query q).columns = []
  same : (s.query q).distinct = true → ∀ ρ ρ',
    s.tuple I (s.query q) ρ = s.tuple I (s.query q) ρ' ↔ p.denote I ρ = p.denote I ρ'

/-- A lowered sequence whose query gives rows that stand for some elements of a shape.  The query
is the newest one. -/
structure Lowered.StandsFor (I : Interpretation V) (db : Database V) (s : Store) (σ : Shape)
    (elements : List (Element V)) (lowered : Lowered) : Prop where
  outcome : lowered.outcome = .sequence
  ordered : s.Ordered
  newest : lowered.query.index + 1 = s.queries.size
  fits : lowered.projection.Fits σ
  parts : lowered.projection.All (Scalar.IsPart s lowered.query)
  yields : ∃ rows, s.Yields I db lowered.query rows ∧
    rows.map (fun ρ => lowered.projection.denote I ρ) = elements

/-- A lowered sequence that stands for some elements, and whose selected columns are in order. -/
structure Lowered.Represents (I : Interpretation V) (db : Database V) (s : Store) (σ : Shape)
    (elements : List (Element V)) (lowered : Lowered) : Prop
    extends lowered.StandsFor I db s σ elements where
  selects : s.Selects I lowered.query lowered.projection

theorem Lowered.StandsFor.valid (h : lowered.StandsFor I db s σ elements) :
    lowered.query.index < s.queries.size := by
  have hnewest := h.newest
  omega

/-! ## Reading from outside -/

/-- A query without clauses gives the rows of its source. -/
theorem Query.rowsOf_bare (parent : Option QueryRef) (sources : List Source)
    (rows : List (Env V)) :
    Query.rowsOf I { parent, sources } s rows = rows := by
  simp [Query.rowsOf, takeRows, skipRows]

/-- The state in which the projection of a wrapped query is exposed. -/
def Store.wrapped (s : Store) (inner outer : QueryRef) (parent : Option QueryRef) : Store :=
  ((s.addQuery parent).2.modifyQuery inner fun q => { q with parent := some outer }).modifyQuery
    outer fun q => { q with sources := q.sources ++ [.ofQuery inner] }

section

variable {inner outer r : QueryRef} {parent : Option QueryRef}

theorem Store.query_wrapped_outer (hinner : inner.index < s.queries.size)
    (houter : outer = ⟨s.queries.size⟩) :
    (s.wrapped inner outer parent).query outer = { parent, sources := [.ofQuery inner] } := by
  subst houter
  have hne : (⟨s.queries.size⟩ : QueryRef) ≠ inner := by
    intro heq
    rw [← heq] at hinner
    exact Nat.lt_irrefl _ hinner
  rw [Store.wrapped, Store.query_modifyQuery_self (by simp [Store.addQuery]),
    Store.query_modifyQuery_ne hne]
  have hnew : (s.addQuery parent).2.query ⟨s.queries.size⟩ = { parent } :=
    Store.query_addQuery_self parent
  rw [hnew]
  rfl

theorem Store.query_wrapped_inner (parent : Option QueryRef) (hinner : inner.index < s.queries.size)
    (houter : outer = ⟨s.queries.size⟩) :
    (s.wrapped inner outer parent).query inner = { s.query inner with parent := some outer } := by
  subst houter
  have hne : inner ≠ ⟨s.queries.size⟩ := fun heq => by rw [heq] at hinner; simp at hinner
  rw [Store.wrapped, Store.query_modifyQuery_ne hne,
    Store.query_modifyQuery_self (by simp [Store.addQuery]; omega),
    Store.query_addQuery parent hinner]

theorem Store.query_wrapped_ne (hr : r.index < s.queries.size) (hne : r ≠ inner)
    (houter : outer = ⟨s.queries.size⟩) :
    (s.wrapped inner outer parent).query r = s.query r := by
  subst houter
  have hne' : r ≠ ⟨s.queries.size⟩ := fun heq => by rw [heq] at hr; simp at hr
  rw [Store.wrapped, Store.query_modifyQuery_ne hne', Store.query_modifyQuery_ne hne,
    Store.query_addQuery parent hr]

@[simp]
theorem Store.size_wrapped : (s.wrapped inner outer parent).queries.size = s.queries.size + 1 := by
  simp [Store.wrapped, Store.addQuery]

theorem Store.Ordered.wrapped (hordered : s.Ordered) (hinner : inner.index < s.queries.size)
    (houter : outer = ⟨s.queries.size⟩) : (s.wrapped inner outer parent).Ordered := by
  have hadded := hordered.addQuery parent
  have hsize : (s.addQuery parent).2.queries.size = s.queries.size + 1 := by simp [Store.addQuery]
  have hmodified := hadded.modifyQuery (q := inner) (f := fun q => { q with parent := some outer })
    (by omega) (fun source hsource => hadded.source inner source hsource)
    (fun source hsource => hadded.table inner source hsource) rfl
  refine hmodified.modifyQuery (by rw [Store.size_modifyQuery, hsize, houter]; simp)
    (fun source hsource r hr => ?_) (fun source hsource t ht => ?_) rfl
  · rcases List.mem_append.mp hsource with hsource | hsource
    · exact hmodified.source outer source hsource r hr
    · rw [List.mem_singleton.mp hsource] at hr
      cases hr
      rw [houter]
      exact hinner
  · rcases List.mem_append.mp hsource with hsource | hsource
    · exact hmodified.table outer source hsource t ht
    · rw [List.mem_singleton.mp hsource] at ht
      cases ht

theorem Store.agreesBelow_wrapped (parent : Option QueryRef) (hinner : inner.index < s.queries.size)
    (houter : outer = ⟨s.queries.size⟩) : s.AgreesBelow (s.wrapped inner outer parent) inner where
  tables := rfl
  fields := rfl
  query r hr := Store.query_wrapped_ne (by omega) (fun heq => by rw [heq] at hr; omega) houter
  column _ _ := rfl

/-- The rows of a query are the same for the query that encloses it. -/
theorem Store.Yields.wrapped {rows : List (Env V)} (h : s.Yields I db inner rows)
    (hordered : s.Ordered) (hinner : inner.index < s.queries.size)
    (houter : outer = ⟨s.queries.size⟩) : (s.wrapped inner outer parent).Yields I db inner rows := by
  obtain ⟨base, rfl, hrebase⟩ := h.rebase hordered
  have hquery := Store.query_wrapped_inner parent hinner houter
  have hplain := h.isPlain
  have hrows := hrebase _ (Store.agreesBelow_wrapped parent hinner houter)
    (by rw [hquery])
    (by rw [hquery]; exact ⟨hplain.grouping, hplain.having, hplain.orderBy, hplain.setOperators⟩)
  rw [hquery] at hrows
  exact hrows

end

/-- A column of the query that is read is a part of elements of the query that reads it. -/
theorem Scalar.IsColumnOf.isPart {inner outer : QueryRef} {e : Scalar} (h : e.IsColumnOf s inner)
    (hordered : s.Ordered) (hbelow : inner.index < outer.index) : e.IsPart s outer := by
  obtain ⟨c, rfl, hc⟩ := h
  refine ⟨fun _ heq => (by cases heq), fun d heq => ?_, rfl⟩
  cases heq
  obtain ⟨hindex, hparent⟩ := hordered.column inner c hc
  exact ⟨hindex, hparent ▸ hbelow⟩

theorem LowerM.expose_eq {p : Projection} (h : p.Fits σ) :
    LowerM.expose q p = p.mapLeavesAt (LowerM.exposeLeaf q) "" := by
  cases p with
  | grouping key element => exact h.elim
  | _ => rfl

omit [DecidableEq V] in
/-- A query is read by a new one without clauses, which has the projection as it is seen from
outside. -/
theorem Lowered.wrap_gives (I : Interpretation V) (ctx : LowerContext) {E : Scalar → Prop}
    (hordered : st.store.Ordered) (hvalid : lowered.query.index < st.store.queries.size)
    (hfits : lowered.projection.Fits σ)
    (hparts : lowered.projection.All fun e => e.IsPart st.store lowered.query ∧ E e) :
    ∃ p' s₂, (LowerM.wrap lowered).Gives ctx st
        { query := ⟨st.store.queries.size⟩, projection := p', outcome := lowered.outcome }
        { st with store := s₂ } ∧
      (st.store.wrapped lowered.query ⟨st.store.queries.size⟩
        (st.store.query lowered.query).parent).Grows E lowered.query s₂ ∧
      Projection.Exposed I E lowered.query σ s₂ lowered.projection p' ∧
      s₂.query ⟨st.store.queries.size⟩ = {
        parent := (st.store.query lowered.query).parent, sources := [.ofQuery lowered.query] } := by
  let parent := (st.store.query lowered.query).parent
  let outer : QueryRef := ⟨st.store.queries.size⟩
  let s₁ := st.store.wrapped lowered.query outer parent
  have hordered₁ : s₁.Ordered := hordered.wrapped hvalid rfl
  have hvalid₁ : lowered.query.index < s₁.queries.size := by
    rw [Store.size_wrapped]
    exact Nat.lt_succ_of_lt hvalid
  have hparts₁ : lowered.projection.All fun e => e.IsPart s₁ lowered.query ∧ E e :=
    hparts.imp fun e he => ⟨⟨he.1.solid, he.1.column, he.1.raw⟩, he.2⟩
  obtain ⟨p', s₂, hexpose, hgrows, hexposed⟩ :=
    Projection.mapLeavesAt_exposes I ctx { st with store := s₁ } lowered.projection hfits
      hordered₁ hvalid₁ hparts₁ ""
  have hne : outer ≠ lowered.query := fun heq => by
    rw [← heq] at hvalid
    simp [outer] at hvalid
  refine ⟨p', s₂, ?_, hgrows, hexposed, ?_⟩
  · refine LowerM.Gives.store.bind ((LowerM.Gives.allocate _).bind ?_)
    refine (LowerM.Gives.modifyQuery _ _).bind ((LowerM.Gives.modifyQuery _ _).bind ?_)
    rw [LowerM.expose_eq hfits]
    exact LowerM.Gives.bind hexpose (LowerM.Gives.pure _)
  · rw [hgrows.query outer hne]
    exact Store.query_wrapped_outer hvalid rfl

/-- A query read by a new one stands for the same elements, and the new one has no clauses. -/
theorem Lowered.Represents.wrap (h : lowered.Represents I db st.store σ elements)
    (ctx : LowerContext) :
    ∃ lowered' s', (LowerM.wrap lowered).Gives ctx st lowered' { st with store := s' } ∧
      lowered'.Represents I db s' σ elements ∧
      ∃ parent sources, s'.query lowered'.query = { parent, sources } := by
  obtain ⟨rows, hyields, helements⟩ := h.yields
  let parent := (st.store.query lowered.query).parent
  let outer : QueryRef := ⟨st.store.queries.size⟩
  let s₁ := st.store.wrapped lowered.query outer parent
  let E : Scalar → Prop := fun e => ∀ ρ ρ' : Env V,
    lowered.projection.denote I ρ = lowered.projection.denote I ρ' → e.eval I ρ = e.eval I ρ'
  have hordered : s₁.Ordered := h.ordered.wrapped h.valid rfl
  have hinner : s₁.query lowered.query =
      { st.store.query lowered.query with parent := some outer } :=
    Store.query_wrapped_inner parent h.valid rfl
  have hparts : lowered.projection.All fun e => e.IsPart st.store lowered.query ∧ E e :=
    Projection.all_iff_leaves.mpr fun leaf hleaf =>
      ⟨Projection.all_iff_leaves.mp h.parts leaf hleaf, fun ρ ρ' =>
        Projection.eval_eq_of_denote_eq hleaf⟩
  obtain ⟨p', s₂, hwrap, hgrows, hexposed, houter⟩ :=
    Lowered.wrap_gives I ctx h.ordered h.valid h.fits hparts
  have hordered' := hgrows.ordered hordered
  have hrows : s₂.Yields I db lowered.query rows := by
    refine hgrows.yields hordered (hyields.wrapped h.ordered h.valid rfl)
      fun hdistinct e he ρ ρ' heq => he ρ ρ' ?_
    rw [hinner] at hdistinct heq
    exact (h.selects.same hdistinct ρ ρ').mp heq
  refine ⟨_, s₂, hwrap, ⟨⟨h.outcome, hordered', ?_, hexposed.fits, ?_, ?_⟩,
    ⟨fun _ => by rw [houter], fun hdistinct => ?_⟩⟩, parent, _, houter⟩
  · rw [hgrows.size]
    exact Store.size_wrapped.symm
  · exact (hexposed.parts s₂ (.refl _ _ _)).imp fun e he => he.isPart hordered' h.valid
  · have hsources : (s₂.query outer).sources = [⟨.query lowered.query, none, []⟩] := by
      rw [houter]
      rfl
    have hyields' := Store.Yields.query hsources
      (by rw [houter]; exact ⟨rfl, rfl, rfl, rfl⟩) hrows
    rw [houter, Query.rowsOf_bare] at hyields'
    refine ⟨_, hyields', ?_⟩
    rw [List.map_map, ← helements]
    exact List.map_congr_left fun ρ _ => hexposed.denote_eq s₂ (.refl _ _ _) ρ
  · rw [houter] at hdistinct
    cases hdistinct

theorem LowerM.Gives.wrapIf_true {test : Query → Bool} {lowered' : Lowered} {st' : LowerState}
    (htest : test (st.store.query lowered.query) = true)
    (h : (LowerM.wrap lowered).Gives ctx st lowered' st') :
    (LowerM.wrapIf test lowered).Gives ctx st lowered' st' := by
  refine store.bind ?_
  rw [htest]
  exact h

theorem LowerM.Gives.wrapIf_false {test : Query → Bool}
    (htest : test (st.store.query lowered.query) = false) :
    (LowerM.wrapIf test lowered).Gives ctx st lowered st := by
  refine store.bind ?_
  rw [htest]
  exact pure lowered

/-- A query that meets a test is read by a new one, which does not meet it. -/
theorem Lowered.Represents.wrapIf (h : lowered.Represents I db st.store σ elements)
    (ctx : LowerContext) (test : Query → Bool)
    (htest : ∀ parent sources, test { parent, sources } = false) :
    ∃ lowered' s', (LowerM.wrapIf test lowered).Gives ctx st lowered' { st with store := s' } ∧
      lowered'.Represents I db s' σ elements ∧ test (s'.query lowered'.query) = false := by
  by_cases hwrap : test (st.store.query lowered.query) = true
  · obtain ⟨lowered', s', hgives, hrepresents, parent, sources, hbare⟩ := h.wrap ctx
    exact ⟨lowered', s', .wrapIf_true hwrap hgives, hrepresents, by rw [hbare, htest]⟩
  · have hwrap : test (st.store.query lowered.query) = false := by simpa using hwrap
    exact ⟨lowered, st.store, .wrapIf_false hwrap, h, hwrap⟩

/-! ## Functions of elements -/

/-- The projection of a sequence is an argument of its functions. -/
theorem Lowered.Represents.argument (h : lowered.Represents I db s σ elements) :
    FitArguments s lowered.query [lowered.projection] [σ] :=
  .cons ⟨h.fits, h.parts⟩ .nil

/-- Nothing needs to be known of the variables around a function that mentions none. -/
theorem LowerContext.binds_nil (ctx : LowerContext) (s : Store) (q : QueryRef) :
    ctx.Binds s q [] [] :=
  fun _ _ h => by cases h

/-! ## Clauses -/

/-- A change of the clauses of the query and of the projection. -/
theorem Lowered.StandsFor.reclause {lowered' : Lowered} {σ' : Shape}
    {elements' : List (Element V)} (h : lowered.StandsFor I db s σ elements)
    {f : Query → Query} (hquery : lowered'.query = lowered.query)
    (houtcome : lowered'.outcome = .sequence)
    (hsources : (f (s.query lowered.query)).sources = (s.query lowered.query).sources)
    (hcolumns : (f (s.query lowered.query)).columns = (s.query lowered.query).columns)
    (hplain : (s.query lowered.query).IsPlain → (f (s.query lowered.query)).IsPlain)
    (hfits : lowered'.projection.Fits σ')
    (hparts : lowered'.projection.All (Scalar.IsPart s lowered.query))
    (hselects : (s.modifyQuery lowered.query f).Selects I lowered.query lowered'.projection)
    (helements : ∀ base, ((s.query lowered.query).rowsOf I s base).map
        (fun ρ => lowered.projection.denote I ρ) = elements →
      ((f (s.query lowered.query)).rowsOf I s base).map
        (fun ρ => lowered'.projection.denote I ρ) = elements') :
    lowered'.Represents I db (s.modifyQuery lowered.query f) σ' elements' := by
  obtain ⟨rows, hyields, hold⟩ := h.yields
  obtain ⟨base, rfl, hrebase⟩ := hyields.rebase h.ordered
  have hself := Store.query_modifyQuery_self (f := f) h.valid
  have hrows := hrebase _ Store.agreesBelow_modifyQuery (by rw [hself, hsources])
    (by rw [hself]; exact hplain hyields.isPlain)
  rw [hself] at hrows
  refine ⟨⟨houtcome, ?_, ?_, hfits, ?_, ?_⟩, hquery ▸ hselects⟩
  · refine h.ordered.modifyQuery h.valid (fun source hsource => ?_) (fun source hsource => ?_)
      hcolumns
    · rw [hsources] at hsource
      exact h.ordered.source lowered.query source hsource
    · rw [hsources] at hsource
      exact h.ordered.table lowered.query source hsource
  · rw [hquery, Store.size_modifyQuery]
    exact h.newest
  · rw [hquery]
    exact hparts.imp fun e he => ⟨he.solid, he.column, he.raw⟩
  · rw [hquery]
    exact ⟨_, hrows, helements base hold⟩

theorem Query.hasFixedRows_eq_false {q : Query} (h : q.hasFixedRows = false) :
    q.take = none ∧ q.skip = none ∧ q.distinct = false := by
  simp only [Query.hasFixedRows, Query.hasPagination, Bool.or_eq_false_iff] at h
  exact ⟨by simpa using h.1.1.1, by simpa using h.1.1.2, h.1.2⟩

/-- Without paging and `DISTINCT`, the rows are those that meet the condition. -/
theorem Query.rowsOf_unfixed {q : Query} (h : q.hasFixedRows = false) (rows : List (Env V)) :
    q.rowsOf I s rows = rows.filter fun ρ => q.whereClause.truth I ρ == some true := by
  obtain ⟨htake, hskip, hdistinct⟩ := Query.hasFixedRows_eq_false h
  simp [Query.rowsOf, takeRows, skipRows, htake, hskip, hdistinct]

/-- The elements that meet a condition. -/
def keepElements (I : Interpretation V) (f : Term) (elements : List (Element V)) :
    List (Element V) :=
  elements.filter fun e => I.toTruth ((f.applyTo I e).asValue I) == some true

omit [DecidableEq V] in
/-- What the condition of a function adds to a query whose rows are not fixed. -/
theorem Lowered.filter_gives (rules : List Rule) {lowered' : Lowered} {st' : LowerState} {f : Term}
    {absent : Bool} {n : Nat}
    (hwrap : (LowerM.wrapIf Query.hasFixedRows lowered).Gives ctx st lowered' st')
    (hfits : lowered'.projection.Fits σ)
    (hparts : lowered'.projection.All (Scalar.IsPart st'.store lowered'.query))
    (hf : f.functionShape? σ = some (.value absent)) (hn : 4 * f.size ≤ n) :
    ∃ c, (lowered.filter (lowererWithin rules n) f false).Gives ctx st lowered'
        { st' with store := st'.store.modifyQuery lowered'.query fun q =>
          { q with whereClause := q.whereClause.conjoinAll c } } ∧
      ∀ ρ : Env V, c.truth I ρ =
        I.toTruth ((f.applyTo I (lowered'.projection.denote I ρ)).asValue I) := by
  obtain ⟨c, hc, -, htruth⟩ := LowerM.Gives.applyCondition rules
    (ctx.binds_nil st'.store lowered'.query) (.cons ⟨hfits, hparts⟩ .nil)
    (f.functionShapeIn?_nil σ ▸ hf) hn
  refine ⟨c, hwrap.bind (hc.bind (LowerM.Gives.store.bind ?_)), fun ρ => ?_⟩
  · rw [hfits.isGrouping]
    exact (LowerM.Gives.modifyQuery _ _).bind (LowerM.Gives.pure lowered')
  · rw [htruth, ← Term.applyIn_nil]
    rfl

/-- A condition on the elements is added to the condition of the query. -/
theorem Lowered.Represents.filter (h : lowered.Represents I db st.store σ elements)
    (ctx : LowerContext) (rules : List Rule) {f : Term} {absent : Bool} {n : Nat}
    (hf : f.functionShape? σ = some (.value absent)) (hn : 4 * f.size ≤ n) :
    ∃ lowered' s', (lowered.filter (lowererWithin rules n) f false).Gives ctx st lowered'
        { st with store := s' } ∧
      lowered'.Represents I db s' σ (keepElements I f elements) := by
  obtain ⟨lowered, s₁, hwrap, h, hunfixed⟩ :=
    h.wrapIf ctx Query.hasFixedRows fun _ _ => rfl
  obtain ⟨c, hfilter, htruth⟩ := Lowered.filter_gives (I := I) rules hwrap h.fits h.parts hf hn
  refine ⟨lowered, _, hfilter, h.reclause rfl h.outcome rfl rfl
    (fun hplain => ⟨hplain.grouping, hplain.having, hplain.orderBy, hplain.setOperators⟩)
    h.fits h.parts ?_ fun base hbase => ?_⟩
  · have hself := Store.query_modifyQuery_self (f := fun q : Query =>
      { q with whereClause := q.whereClause.conjoinAll c }) h.valid
    refine ⟨fun hdistinct => ?_, fun hdistinct => ?_⟩
    · rw [hself] at hdistinct ⊢
      exact h.selects.none hdistinct
    · rw [hself] at hdistinct ⊢
      exact h.selects.same hdistinct
  · have hunfixed' : ({ s₁.query lowered.query with whereClause :=
        (s₁.query lowered.query).whereClause.conjoinAll c } : Query).hasFixedRows = false :=
      hunfixed
    rw [Query.rowsOf_unfixed hunfixed']
    rw [Query.rowsOf_unfixed hunfixed] at hbase
    rw [← hbase, keepElements, List.filter_map, List.filter_filter]
    congr 1
    refine List.filter_congr fun ρ _ => ?_
    rw [Condition.truth_conjoinAll, htruth, Function.comp_apply, Truth.and_beq_true, Bool.and_comm]

/-- A selector replaces the projection. -/
theorem Lowered.Represents.project (h : lowered.Represents I db st.store σ elements)
    (ctx : LowerContext) (rules : List Rule) {f : Term} {τ : Shape} {n : Nat}
    (hf : f.functionShape? σ = some τ) (hn : 4 * f.size ≤ n) :
    ∃ lowered' s', LowerM.Gives (do
        let lowered ← LowerM.wrapIf Query.hasFixedColumns lowered
        let projection ←
          (lowererWithin rules n).applyProjection f [lowered.projection] lowered.query
        return { lowered with projection }) ctx st lowered' { st with store := s' } ∧
      lowered'.Represents I db s' τ (elements.map fun e => f.applyTo I e) := by
  obtain ⟨lowered, s₁, hwrap, h, hunfixed⟩ :=
    h.wrapIf ctx Query.hasFixedColumns fun _ _ => rfl
  let st₁ : LowerState := { st with store := s₁ }
  have h : lowered.Represents I db st₁.store σ elements := h
  obtain ⟨r, hr, hfits, hparts, hdenote⟩ := LowerM.Gives.applyProjection (I := I) rules
    (ctx.binds_nil st₁.store lowered.query) h.argument (f.functionShapeIn?_nil σ ▸ hf) hn
  have hdistinct : (s₁.query lowered.query).distinct = false := (Bool.or_eq_false_iff.mp hunfixed).1
  refine ⟨{ lowered with projection := r }, s₁, ?_, ?_⟩
  · exact hwrap.bind (hr.bind (LowerM.Gives.pure _))
  · obtain ⟨rows, hyields, helements⟩ := h.yields
    refine ⟨⟨h.outcome, h.ordered, h.newest, hfits, hparts, rows, hyields, ?_⟩,
      ⟨h.selects.none, fun hselect => ?_⟩⟩
    · rw [← helements, List.map_map]
      exact List.map_congr_left fun ρ _ => (hdenote ρ).trans (Term.applyIn_nil I f _)
    · rw [hdistinct] at hselect
      cases hselect

/-! ## Paging -/

theorem Query.isLimited_eq_false {q : Query} (h : q.isLimited = false) : q.take = none := by
  have htake := (Bool.or_eq_false_iff.mp h).1
  simpa using htake

@[simp]
theorem Scalar.countValue_constant (n : Nat) :
    (Scalar.constant (.integer n)).countValue = n := by
  simp [Scalar.constant, Scalar.countValue, TypedValue.natural, Constant.asInteger?]

/-- A limit on a query without a limit keeps the first rows. -/
theorem Query.rowsOf_take {q : Query} (h : q.isLimited = false) (n : Nat) (rows : List (Env V)) :
    Query.rowsOf I { q with take := some (.constant (.integer n)) } s rows =
      (q.rowsOf I s rows).take n := by
  simp only [Query.rowsOf, takeRows, Query.isLimited_eq_false h, Scalar.countValue_constant]
  rfl

/-- The offset of a query, after another one. -/
def Query.skipMore (q : Query) (count : Scalar) : Query :=
  match q.skip with
  | some previous => { q with skip := some (.binary previous .add count .int32) }
  | none => { q with skip := some count }

/-- An offset on a query without a limit drops the first rows. -/
theorem Query.rowsOf_skipMore {q : Query} (h : q.isLimited = false) (n : Nat)
    (rows : List (Env V)) :
    (q.skipMore (.constant (.integer n))).rowsOf I s rows = (q.rowsOf I s rows).drop n := by
  have htake := Query.isLimited_eq_false h
  unfold Query.skipMore
  cases hskip : q.skip with
  | none =>
    simp only [Query.rowsOf, takeRows, skipRows, htake, hskip, Scalar.countValue_constant]
    rfl
  | some previous =>
    simp only [Query.rowsOf, takeRows, skipRows, htake, hskip, Scalar.countValue,
      Scalar.countValue_constant, List.drop_drop]
    rfl

/-- A limit or an offset of a query. -/
def Query.pageMore (operator : SequenceOperator) (count : Scalar) (q : Query) : Query :=
  if operator == .take then { q with take := some count } else q.skipMore count

/-- What a limit or an offset keeps of a list. -/
def pageElements {α : Type} (operator : SequenceOperator) (n : Nat) (items : List α) : List α :=
  if operator == .take then items.take n else items.drop n

theorem Query.rowsOf_pageMore {q : Query} (h : q.isLimited = false) (operator : SequenceOperator)
    (n : Nat) (rows : List (Env V)) :
    (q.pageMore operator (.constant (.integer n))).rowsOf I s rows =
      pageElements operator n (q.rowsOf I s rows) := by
  unfold Query.pageMore pageElements
  split
  · exact Query.rowsOf_take h n rows
  · exact Query.rowsOf_skipMore h n rows

/-- Paging leaves the other clauses alone. -/
theorem Query.pageMore_eq (operator : SequenceOperator) (count : Scalar) (q : Query) :
    ∃ take skip, q.pageMore operator count = { q with take, skip } := by
  unfold Query.pageMore Query.skipMore
  split
  · exact ⟨_, q.skip, rfl⟩
  · split
    · exact ⟨q.take, _, rfl⟩
    · exact ⟨q.take, _, rfl⟩

/-- A limit or an offset is added to a query without a limit. -/
theorem Lowered.Represents.page (h : lowered.Represents I db st.store σ elements)
    (ctx : LowerContext) (operator : SequenceOperator) (n : Nat) :
    ∃ lowered' s', LowerM.Gives (do
        let lowered ← LowerM.wrapIf Query.isLimited lowered
        LowerM.modifyQuery lowered.query (Query.pageMore operator (.constant (.integer n)))
        return lowered) ctx st lowered' { st with store := s' } ∧
      lowered'.Represents I db s' σ (pageElements operator n elements) := by
  obtain ⟨lowered, s₁, hwrap, h, hlimited⟩ := h.wrapIf ctx Query.isLimited fun _ _ => rfl
  obtain ⟨take, skip, hpage⟩ :=
    Query.pageMore_eq operator (.constant (.integer n)) (s₁.query lowered.query)
  have hself := Store.query_modifyQuery_self
    (f := Query.pageMore operator (.constant (.integer n))) h.valid
  refine ⟨lowered, _, hwrap.bind ((LowerM.Gives.modifyQuery _ _).bind (LowerM.Gives.pure _)), ?_⟩
  refine h.reclause rfl h.outcome (by rw [hpage]) (by rw [hpage])
    (fun hplain => ?_) h.fits h.parts ⟨fun hdistinct => ?_, fun hdistinct => ?_⟩ fun base hbase => ?_
  · rw [hpage]
    exact ⟨hplain.grouping, hplain.having, hplain.orderBy, hplain.setOperators⟩
  · rw [hself, hpage] at hdistinct ⊢
    exact h.selects.none hdistinct
  · rw [hself, hpage] at hdistinct ⊢
    exact h.selects.same hdistinct
  · rw [Query.rowsOf_pageMore hlimited, ← hbase]
    unfold pageElements
    split
    · exact List.map_take
    · exact List.map_drop

/-! ## Distinctness -/

/-- Whether a query has to be read from outside before its rows are made distinct. -/
def Query.isPaged (q : Query) : Bool := q.hasPagination || q.hasSetOperators

theorem Query.isPaged_eq_false {q : Query} (h : q.isPaged = false) :
    q.take = none ∧ q.skip = none := by
  simp only [Query.isPaged, Query.hasPagination, Bool.or_eq_false_iff] at h
  exact ⟨by simpa using h.1.1, by simpa using h.1.2⟩

/-- The rows of a query without paging that become distinct. -/
theorem Query.rowsOf_distinct {q : Query} (h : q.isPaged = false) (rows : List (Env V)) :
    Query.rowsOf I { q with distinct := true } s rows =
      firstOfEach (s.tuple I q) (rows.filter fun ρ => q.whereClause.truth I ρ == some true) := by
  obtain ⟨htake, hskip⟩ := Query.isPaged_eq_false h
  simp only [Query.rowsOf, takeRows, skipRows, htake, hskip, if_true]
  rfl

/-- Each element once. -/
def distinctElements (elements : List (Element V)) : List (Element V) :=
  firstOfEach (fun e => e) elements

theorem distinctElements_distinctElements (elements : List (Element V)) :
    distinctElements (distinctElements elements) = distinctElements elements :=
  firstOfEach_eq_self (pairwise_firstOfEach _ elements)

/-- Each element once, where rows are made distinct by tuples that tell elements apart. -/
theorem distinctElements_map {p : Projection} {tuple : Env V → List V} (rows : List (Env V))
    (h : ∀ ρ ρ', tuple ρ = tuple ρ' ↔ p.denote I ρ = p.denote I ρ') :
    (firstOfEach tuple rows).map (fun ρ => p.denote I ρ) =
      distinctElements (rows.map fun ρ => p.denote I ρ) := by
  rw [distinctElements, firstOfEach_map]
  congr 1
  exact firstOfEach_congr fun ρ _ ρ' _ => h ρ ρ'

omit [DecidableEq V] in
/-- Columns for all scalars of a projection, and for nothing else, tell its elements apart. -/
theorem Store.Grows.tuple_eq_iff {E : Scalar → Prop} {p : Projection} (hgrows : s.Grows E q s')
    (hordered : s.Ordered) (hselects : s.Selects I q p)
    (hE : ∀ e, E e → ∀ ρ ρ' : Env V, p.denote I ρ = p.denote I ρ' → e.eval I ρ = e.eval I ρ')
    (hexposes : ∀ leaf ∈ p.leaves, ∃ c, s'.Exposes I q leaf.2 c) (ρ ρ' : Env V) :
    s'.tuple I (s'.query q) ρ = s'.tuple I (s'.query q) ρ' ↔
      p.denote I ρ = p.denote I ρ' := by
  constructor
  · intro heq
    refine Projection.denote_eq_iff.mpr (Projection.all_iff_leaves.mpr fun leaf hleaf => ?_)
    obtain ⟨c, hc⟩ := hexposes leaf hleaf
    have hcolumn := List.map_inj_left.mp heq c hc.mem
    rwa [hc.eval_eq, hc.eval_eq] at hcolumn
  · intro heq
    obtain ⟨new, hquery, hnew⟩ := hgrows.added
    refine List.map_congr_left fun c hc => ?_
    rw [hquery, List.mem_append] at hc
    rcases hc with hc | hc
    · cases hdistinct : (s.query q).distinct with
      | false =>
        rw [hselects.none hdistinct] at hc
        cases hc
      | true =>
        rw [hgrows.column c (hordered.column q c hc).1]
        exact List.map_inj_left.mp ((hselects.same hdistinct ρ ρ').mpr heq) c hc
    · exact hE _ (hnew c hc).2.2 ρ ρ' heq

/-- The rows of a query become distinct by all scalars of its projection. -/
theorem Lowered.Represents.distinct (h : lowered.Represents I db st.store σ elements)
    (ctx : LowerContext) :
    ∃ lowered' s', LowerM.Gives (do
        let lowered ← LowerM.wrapIf Query.isPaged lowered
        LowerM.materialize lowered.query lowered.projection false
        LowerM.modifyQuery lowered.query fun q => { q with distinct := true }
        return lowered) ctx st lowered' { st with store := s' } ∧
      lowered'.Represents I db s' σ (distinctElements elements) := by
  obtain ⟨lowered, s₁, hwrap, h, hpaged⟩ := h.wrapIf ctx Query.isPaged fun _ _ => rfl
  let E : Scalar → Prop := fun e => ∀ ρ ρ' : Env V,
    lowered.projection.denote I ρ = lowered.projection.denote I ρ' → e.eval I ρ = e.eval I ρ'
  have hparts : lowered.projection.All fun e => e.IsPart s₁ lowered.query ∧ E e :=
    Projection.all_iff_leaves.mpr fun leaf hleaf =>
      ⟨Projection.all_iff_leaves.mp h.parts leaf hleaf, fun ρ ρ' =>
        Projection.eval_eq_of_denote_eq hleaf⟩
  obtain ⟨s₂, hmaterialize, hgrows, hexposes⟩ := LowerM.Gives.materialize I ctx
    { st with store := s₁ } h.fits h.ordered h.valid hparts
  have hordered := hgrows.ordered h.ordered
  have htuple := hgrows.tuple_eq_iff h.ordered h.selects (fun _ he => he) hexposes
  obtain ⟨rows, hyields, helements⟩ := h.yields
  have hyields₂ : s₂.Yields I db lowered.query rows :=
    hgrows.yields h.ordered hyields fun hdistinct e he ρ ρ' heq =>
      he ρ ρ' ((h.selects.same hdistinct ρ ρ').mp heq)
  have hstands : lowered.StandsFor I db s₂ σ elements :=
    ⟨h.outcome, hordered, h.newest.trans hgrows.size.symm, h.fits,
      h.parts.imp fun e he => he.grows hgrows, rows, hyields₂, helements⟩
  obtain ⟨new, hquery, -⟩ := hgrows.added
  have hpaged₂ : (s₂.query lowered.query).isPaged = false := by
    rw [hquery]
    exact hpaged
  have hself := Store.query_modifyQuery_self
    (f := fun q : Query => { q with distinct := true }) hstands.valid
  refine ⟨lowered, _, hwrap.bind (hmaterialize.bind
    ((LowerM.Gives.modifyQuery _ _).bind (LowerM.Gives.pure lowered))), ?_⟩
  refine hstands.reclause rfl h.outcome rfl rfl
    (fun hplain => ⟨hplain.grouping, hplain.having, hplain.orderBy, hplain.setOperators⟩)
    h.fits hstands.parts ⟨fun hdistinct => ?_, fun _ ρ ρ' => ?_⟩ fun base hbase => ?_
  · rw [hself] at hdistinct
    cases hdistinct
  · rw [hself]
    exact htuple ρ ρ'
  · rw [Query.rowsOf_distinct hpaged₂, distinctElements_map _ htuple, ← hbase]
    obtain ⟨htake, hskip⟩ := Query.isPaged_eq_false hpaged₂
    cases hdistinct : (s₂.query lowered.query).distinct with
    | false => simp [Query.rowsOf, takeRows, skipRows, htake, hskip, hdistinct]
    | true =>
      simp only [Query.rowsOf, takeRows, skipRows, htake, hskip, hdistinct, if_true]
      rw [distinctElements_map _ htuple, distinctElements_distinctElements]

end SqlCompiler
