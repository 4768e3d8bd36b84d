import SqlCompiler.Proofs.Normalization.Children
import SqlCompiler.Proofs.SetOperators.Sides

/-!
# Lowering a join of filtered tables

A chain of conditions on a sequence whose rows are not fixed is lowered to the query of the
sequence, the conditions as a part of its `WHERE` clause.  The condition of a join on keys holds
where their values are equal.

A join of two tables, each with a chain of conditions, is lowered to one query that reads the outer
table with the inner one joined to it.  The conditions on the inner table become a part of the
condition of the join; those on the outer table, and those on the result, stand in `WHERE`.

Main results:

- Definition `Term.filterAll`, `keepEach`: a chain of conditions, and what it keeps.
- Definition `Lowered.Filters`: a query with given sources that keeps the rows of a test.
- Theorem `LowerM.Gives.filterAll`: what a chain is lowered to.
- Theorem `keyCondition_holds`: when the condition on keys holds.
- Definition `FilteredTable`, `FilteredJoin`: a table with conditions, and a join of two of them
  with conditions on the result.
- Definition `FilteredJoin.HasParts`: what the parts of the query of a join stand for.
- Theorem `FilteredTable.lowers`: a table with conditions is lowered to a query that reads it.
- Theorem `FilteredJoin.lowers`: a join is lowered to a query that reads both tables.
-/

namespace SqlCompiler

/-! ## Chains -/

/-- A chain of conditions on a sequence. -/
def Term.filterAll (t : Term) : List Term → Term
  | [] => t
  | f :: rest => (t.filter f).filterAll rest

theorem Term.size_filterAll (t : Term) (fs : List Term) :
    (t.filterAll fs).size = t.size + sizeOfTerms fs + fs.length := by
  induction fs generalizing t with
  | nil => rfl
  | cons f rest ih =>
    have hsize : (t.filter f).size = t.size + (f.size + 0) + 1 := rfl
    rw [filterAll, ih, hsize, sizeOfTerms, List.length_cons]
    omega

section

variable {V : Type} (I : Interpretation V)

/-- Whether a condition holds of an element. -/
def Term.holdsOf (f : Term) (e : Element V) : Bool :=
  I.toTruth ((f.applyTo I e).asValue I) == some true

/-- What a chain of conditions keeps, one after the other. -/
def keepEach (fs : List Term) (elements : List (Element V)) : List (Element V) :=
  fs.foldl (fun elements f => keepElements I f elements) elements

theorem keepEach_eq_filter (fs : List Term) (elements : List (Element V)) :
    keepEach I fs elements = elements.filter fun e => fs.all fun f => f.holdsOf I e := by
  induction fs generalizing elements with
  | nil => exact (List.filter_eq_self.mpr fun _ _ => rfl).symm
  | cons f rest ih =>
    refine (ih (keepElements I f elements)).trans ?_
    rw [keepElements, List.filter_filter]
    refine List.filter_congr fun e _ => ?_
    rw [List.all_cons, Bool.and_comm]
    rfl

end

/-- Conditions on elements of a shape that can be lowered with some fuel. -/
def AreConditions (σ : Shape) (fuel : Nat) (fs : List Term) : Prop :=
  ∀ f ∈ fs, (∃ absent, f.functionShape? σ = some (.value absent)) ∧ 4 * f.size ≤ fuel

/-- The fuel for a whole chain is enough for each of its conditions. -/
theorem AreConditions.of_size {σ : Shape} {fuel : Nat} {fs : List Term}
    (h : ∀ f ∈ fs, ∃ absent, f.functionShape? σ = some (.value absent))
    (hfuel : 4 * Term.sizeOfTerms fs ≤ fuel) : AreConditions σ fuel fs := fun f hf =>
  ⟨h f hf, Nat.le_trans (Nat.mul_le_mul_left 4 (Term.size_le_sizeOfTerms hf)) hfuel⟩

/-! ## Stores that are extended -/

/-- A store grows, and stays ordered. -/
structure Store.Extends (s s' : Store) : Prop where
  keeps : s.KeepsBelow 0 s'
  ordered : s.Ordered → s'.Ordered

namespace Store.Extends

variable {s s' s'' : Store} {q : QueryRef}

theorem refl (s : Store) : s.Extends s := ⟨.refl 0 s, id⟩

theorem trans (h : s.Extends s') (h' : s'.Extends s'') : s.Extends s'' :=
  ⟨h.keeps.trans h'.keeps, h'.ordered ∘ h.ordered⟩

/-- A query may be changed if it reads no other queries than before, and its columns stay. -/
theorem modifyQuery {f : Query → Query} (hq : q.index < s.queries.size)
    (hsources : ∀ source ∈ (f (s.query q)).sources, source ∈ (s.query q).sources ∨
      source.query? = none ∧ ∀ t, source.table? = some t → s.HasTable t)
    (hcolumns : (f (s.query q)).columns = (s.query q).columns) :
    s.Extends (s.modifyQuery q f) where
  keeps := .modifyQuery (Nat.zero_le _) fun _ _ => .inr (Nat.zero_le _)
  ordered h := by
    refine h.modifyQuery hq (fun source hsource inner hinner => ?_)
      (fun source hsource t ht => ?_) hcolumns
    · rcases hsources source hsource with hsource | ⟨hnone, -⟩
      · exact h.source q source hsource inner hinner
      · rw [hnone] at hinner
        cases hinner
    · rcases hsources source hsource with hsource | ⟨-, htable⟩
      · exact h.table q source hsource t ht
      · exact htable t ht

/-- Columns may be added to a query. -/
theorem of_grows {E : Scalar → Prop} (h : s.Grows E q s') : s.Extends s' where
  keeps := {
    query := fun _ hq => absurd hq (Nat.not_lt_zero _)
    column := h.column
    parent := fun _ _ _ => Nat.zero_le _
    table := fun t _ => by rw [Store.table, h.tables]; rfl
    field := fun f _ => by rw [Store.field, h.fields]; rfl
    reads := fun _ _ _ => .inr (Nat.zero_le _)
    queries := Nat.le_of_eq h.size.symm
    columns := h.columns
    tables := Nat.le_of_eq (congrArg Array.size h.tables).symm
    fields := Nat.le_of_eq (congrArg Array.size h.fields).symm }
  ordered := fun hordered => h.ordered hordered

end Store.Extends

/-! ## Lowering a chain -/

section

variable {V : Type} {I : Interpretation V} {ctx : LowerContext} {st st₁ : LowerState} {s : Store}
  {parent : Option QueryRef} {sources : List Source} {test : Env V → Bool} {lowered : Lowered}
  {σ : Shape} {n : Nat}

/-- A lowered sequence whose query keeps the rows of some sources that pass a test. -/
structure Lowered.Filters (I : Interpretation V) (s : Store) (parent : Option QueryRef)
    (sources : List Source) (test : Env V → Bool) (lowered : Lowered) : Prop where
  outcome : lowered.outcome = .sequence
  valid : lowered.query.index < s.queries.size
  query : ∃ whereClause, s.query lowered.query = { parent, sources, whereClause } ∧
    ∀ ρ, (whereClause.truth I ρ == some true) = test ρ

/-- One more condition. -/
theorem Lowered.Filters.filter (h : lowered.Filters I st.store parent sources test)
    (hfits : lowered.projection.Fits σ)
    (hparts : lowered.projection.All (Scalar.IsPart st.store lowered.query)) (ctx : LowerContext)
    (rules : List Rule) {f : Term} {absent : Bool}
    (hf : f.functionShape? σ = some (.value absent)) (hn : 4 * f.size ≤ n) :
    ∃ s', (lowered.filter (lowererWithin rules n) f false).Gives ctx st lowered
        { st with store := s' } ∧
      st.store.Extends s' ∧
      lowered.Filters I s' parent sources fun ρ =>
        test ρ && f.holdsOf I (lowered.projection.denote I ρ) := by
  obtain ⟨whereClause, hquery, htest⟩ := h.query
  have hunfixed : (st.store.query lowered.query).hasFixedRows = false := by
    rw [hquery]
    rfl
  obtain ⟨c, hgives, htruth⟩ := Lowered.filter_gives (I := I) rules (.wrapIf_false hunfixed) hfits
    hparts hf hn
  refine ⟨_, hgives, .modifyQuery h.valid (fun _ => .inl) rfl, h.outcome, ?_,
    whereClause.conjoinAll c, ?_, fun ρ => ?_⟩
  · rw [Store.size_modifyQuery]
    exact h.valid
  · rw [Store.query_modifyQuery_self h.valid, hquery]
  · rw [Condition.truth_conjoinAll, Truth.and_beq_true, htest, htruth]
    rfl

theorem accepted_filter (source f : Term) :
    standardRules.filter (·.accepts (source.filter f)) = [whereRule] := rfl

/-- A chain of conditions is lowered to the query of its sequence. -/
theorem LowerM.Gives.filterAll (fs : List Term) :
    ∀ {base : Term} {st₁ : LowerState} {test : Env V → Bool} {n : Nat} {outer : Option QueryRef},
      ((lowererWithin standardRules n).sequence base outer).Gives ctx st lowered st₁ →
      st.ranking.Covers standardRules → st₁.ranking.Covers standardRules →
      lowered.Filters I st₁.store parent sources test → lowered.projection.Fits σ →
      lowered.projection.All (Scalar.IsPart st₁.store lowered.query) → AreConditions σ n fs →
      ∃ st', ((lowererWithin standardRules (n + fs.length)).sequence (base.filterAll fs)
          outer).Gives ctx st lowered st' ∧
        st'.ranking.Covers standardRules ∧ st₁.store.Extends st'.store ∧
        lowered.Filters I st'.store parent sources fun ρ =>
          test ρ && fs.all fun f => f.holdsOf I (lowered.projection.denote I ρ) := by
  induction fs with
  | nil =>
    intro base st₁ test n outer hbase _ hcovers₁ h _ _ _
    exact ⟨st₁, hbase, hcovers₁, .refl _, by simpa using h⟩
  | cons f rest ih =>
    intro base st₁ test n outer hbase hcovers hcovers₁ h hfits hparts hfs
    obtain ⟨⟨absent, hf⟩, hn⟩ := hfs f List.mem_cons_self
    obtain ⟨s', hgives, hextends, hfilters⟩ := h.filter hfits hparts ctx standardRules hf hn
    have hlower : (whereRule.lower (lowererWithin standardRules n) (base.filter f) outer).Gives
        ctx st lowered { st₁ with store := s' } :=
      (hbase.lowerSource h.outcome).bind ((LowerM.Gives.pure f).bind hgives)
    obtain ⟨ranking, hdispatch, hcovers'⟩ :=
      hlower.dispatch (accepted_filter base f) hcovers hcovers₁
    obtain ⟨st', hrest, hcovers'', hextends', hfilters'⟩ :=
      ih (n := n + 1) hdispatch hcovers hcovers' hfilters hfits
        (hparts.imp fun e he => he.keeps hextends.keeps) fun g hg =>
        ⟨(hfs g (List.mem_cons_of_mem f hg)).1,
          Nat.le_succ_of_le (hfs g (List.mem_cons_of_mem f hg)).2⟩
    refine ⟨st', ?_, hcovers'', hextends.trans hextends', ?_⟩
    · rw [List.length_cons, Nat.add_comm rest.length, ← Nat.add_assoc]
      exact hrest
    · simpa only [List.all_cons, Bool.and_assoc] using hfilters'

end

/-! ## Conditions on keys -/

section

variable {V : Type} (I : Interpretation V)

/-- Whether the values of two keys are equal, one by one. -/
def keysEqual (a b : Element V) : Bool :=
  (a.leaves.zip b.leaves).all fun (x, y) => I.compare .equal x.2 y.2 == some true

variable {I}

/-- Equalities hold together where the values of their operands are equal. -/
theorem foldl_equal_holds (ρ : Env V) (pairs : List (Scalar × Scalar)) :
    ((pairs.foldl (fun c (a, b) => c.conjoin (.equal a b)) Condition.empty).truth I ρ ==
        some true) =
      pairs.all fun (a, b) => I.compare .equal (a.eval I ρ) (b.eval I ρ) == some true := by
  rw [Condition.truth_eq]
  exact Condition.truthBy_foldl_equal Prod.fst Prod.snd pairs rfl

/-- The condition on keys holds where their values are equal. -/
theorem keyCondition_holds (ρ : Env V) (p p' : Projection) :
    ((keyCondition p.scalars p'.scalars).truth I ρ == some true) =
      keysEqual I (p.denote I ρ) (p'.denote I ρ) := by
  rw [keyCondition, foldl_equal_holds ρ, keysEqual, Projection.leaves_denote,
    Projection.leaves_denote, Projection.scalars, Projection.scalars, List.zip_map, List.zip_map,
    List.all_map, List.all_map]
  rfl

end

/-! ## Filtered tables and their joins -/

/-- A table with a chain of conditions. -/
structure FilteredTable where
  name : String
  filters : List Term
  deriving Inhabited

/-- The filtered table as a query term. -/
def FilteredTable.term (t : FilteredTable) : Term := (Term.table t.name).filterAll t.filters

/-- A join of two filtered tables with a chain of conditions on the result; the inner one may be
in `DefaultIfEmpty`. -/
structure FilteredJoin where
  kind : JoinKind
  orDefault : Bool
  outer : FilteredTable
  inner : FilteredTable
  outerKey : Term
  innerKey : Term
  result : Term
  later : List Term
  deriving Inhabited

namespace FilteredJoin

variable (j : FilteredJoin)

/-- The inner side as a query term. -/
def innerTerm : Term :=
  if j.orDefault then j.inner.term.apply .defaultIfEmpty [] else j.inner.term

/-- The join as a query term, without the conditions on its result. -/
def joinTerm : Term :=
  .call (.join j.kind) [j.outer.term, j.innerTerm, j.outerKey, j.innerKey, j.result]

/-- The join as a query term. -/
def term : Term := j.joinTerm.filterAll j.later

/-- The kind of the join, which `DefaultIfEmpty` turns from an inner to a left one. -/
def actualKind : JoinKind := if j.orDefault && j.kind == .inner then .left else j.kind

/-- The functions of a join have shapes: the conditions are single values, the two keys have
equally many values, and the result has the given shape. -/
structure HasShapes (e e' : EntityMapping) (τ : Shape) : Prop where
  outer : ∀ f ∈ j.outer.filters, ∃ absent, f.functionShape? e.shape = some (.value absent)
  inner : ∀ f ∈ j.inner.filters, ∃ absent, f.functionShape? e'.shape = some (.value absent)
  keys : ∃ κ κ', j.outerKey.functionShape? e.shape = some κ ∧
    j.innerKey.functionShape? e'.shape = some κ' ∧
    (κ.pathsAt "").length = (κ'.pathsAt "").length
  result : j.result.functionShapeIn? [] [e.shape, e'.shape] = some τ
  later : ∀ f ∈ j.later, ∃ absent, f.functionShape? τ = some (.value absent)

end FilteredJoin

/-- The parts of a query that joins two tables. -/
structure JoinParts where
  outer : TableRef
  inner : TableRef
  /-- The projections of the tables. -/
  outerProjection : Projection
  innerProjection : Projection
  /-- The condition of the join. -/
  on : Condition

/-- The `FROM` clause of the query. -/
def JoinParts.sources (parts : JoinParts) (kind : JoinKind) : List Source :=
  [⟨.table parts.outer, none, [⟨kind, .ofTable parts.inner, parts.on⟩]⟩]

section

variable {V : Type} (I : Interpretation V)

/-- Whether a chain of conditions holds of an element. -/
def FilteredTable.keeps (t : FilteredTable) (e : Element V) : Bool :=
  t.filters.all fun f => f.holdsOf I e

/-- Whether the keys of two elements are equal. -/
def FilteredJoin.keysMatch (j : FilteredJoin) (a b : Element V) : Bool :=
  keysEqual I (j.outerKey.applyTo I a) (j.innerKey.applyTo I b)

/-- What a join makes of two elements. -/
def FilteredJoin.resultOf (j : FilteredJoin) (a b : Element V) : Element V :=
  j.result.applyIn I [] [a, b]

/-- A query that keeps the rows of a new table that meet the conditions. -/
structure FilteredTable.IsRead (t : FilteredTable) (before s : Store) (parent : Option QueryRef)
    (e : EntityMapping) (table : TableRef) (lowered : Lowered) : Prop where
  reads : lowered.projection.ReadsTable s e table
  fresh : before.tables.size ≤ table.index
  ordered : before.Ordered → s.Ordered
  filters : lowered.Filters I s parent [.ofTable table] fun ρ =>
    t.keeps I (lowered.projection.denote I ρ)

/-- The parts of the query of a join: the two tables, a condition that holds where the keys match
and the conditions on the inner table hold, and the result. -/
structure FilteredJoin.HasParts (j : FilteredJoin) (s : Store) (e e' : EntityMapping)
    (parts : JoinParts) (result : Projection) : Prop where
  outer : parts.outerProjection.ReadsTable s e parts.outer
  inner : parts.innerProjection.ReadsTable s e' parts.inner
  apart : parts.outer ≠ parts.inner
  result : ∀ ρ, result.denote I ρ =
    j.resultOf I (parts.outerProjection.denote I ρ) (parts.innerProjection.denote I ρ)
  on : ∀ ρ, (parts.on.truth I ρ == some true) =
    (j.keysMatch I (parts.outerProjection.denote I ρ) (parts.innerProjection.denote I ρ) &&
      j.inner.keeps I (parts.innerProjection.denote I ρ))

variable {I}

theorem FilteredJoin.HasParts.keeps {j : FilteredJoin} {s s' : Store} {e e' : EntityMapping}
    {parts : JoinParts} {result : Projection} (h : j.HasParts I s e e' parts result) {n : Nat}
    (hkeeps : s.KeepsBelow n s') : j.HasParts I s' e e' parts result :=
  { h with outer := h.outer.keeps hkeeps, inner := h.inner.keeps hkeeps }

end

/-! ## The sides of a join -/

section

variable {V : Type} {I : Interpretation V} {ctx : LowerContext} {st st₁ st₂ : LowerState}
  {j : FilteredJoin} {e e' : EntityMapping} {κ κ' τ : Shape} {lowered outer inner : Lowered}
  {t t' : TableRef} {n : Nat}

theorem FilteredTable.size_term (t : FilteredTable) :
    t.term.size = 1 + Term.sizeOfTerms t.filters + t.filters.length :=
  Term.size_filterAll (.table t.name) t.filters

/-- A table with conditions is lowered to a query that reads it. -/
theorem FilteredTable.lowers (I : Interpretation V) (t : FilteredTable)
    (hmaps : ctx.schema.Maps t.name e) (st : LowerState) (parent : Option QueryRef)
    (hfilters : ∀ f ∈ t.filters, ∃ absent, f.functionShape? e.shape = some (.value absent))
    (hcovers : st.ranking.Covers standardRules) (hn : 4 * t.term.size ≤ n) :
    ∃ lowered table st', ((lowererWithin standardRules n).sequence t.term parent).Gives ctx st
        lowered st' ∧
      st'.ranking.Covers standardRules ∧
      t.IsRead I st.store st'.store parent e table lowered := by
  rw [t.size_term] at hn
  obtain ⟨m, rfl⟩ := Nat.exists_eq_add_of_le' (show 1 + t.filters.length ≤ n by omega)
  obtain ⟨lowered, table, s₁, hread, hreads⟩ := LowerM.Gives.readTable hmaps st parent
  have hlower : (tableRule.lower (lowererWithin standardRules m) (.table t.name) parent).Gives ctx
      st lowered { st with store := s₁ } := hread
  obtain ⟨ranking, hdispatch, hcovers₁⟩ := hlower.dispatch rfl hcovers hcovers
  have hbase : lowered.Filters I s₁ parent [.ofTable table] fun _ => true := by
    have hnewest := hreads.newest
    exact ⟨hreads.outcome, by omega, .empty, hreads.query, fun _ => rfl⟩
  obtain ⟨st', hgives, hcovers', hextends, hkept⟩ := LowerM.Gives.filterAll t.filters
    (n := m + 1) hdispatch hcovers hcovers₁ hbase hreads.projection.fits
    (hreads.projection.parts _ _) (.of_size hfilters (by omega))
  refine ⟨lowered, table, st', ?_, hcovers', hreads.projection.keeps hextends.keeps, hreads.fresh,
    fun hordered => hextends.ordered (hreads.ordered hordered), ?_⟩
  · rw [← Nat.add_assoc]
    exact hgives
  · simpa only [keeps, Bool.true_and] using hkept

theorem Term.filterAll_cases (t : Term) (fs : List Term) :
    t.filterAll fs = t ∨ ∃ source f : Term, t.filterAll fs = source.filter f := by
  induction fs generalizing t with
  | nil => exact .inl rfl
  | cons f rest ih =>
    rcases ih (t.filter f) with h | h
    · exact .inr ⟨t, f, h⟩
    · exact .inr h

/-- The inner side of a join is taken out of `DefaultIfEmpty`. -/
theorem FilteredJoin.joinedTerm_gives (j : FilteredJoin) :
    (joinedTerm j.kind j.innerTerm).Gives ctx st (j.actualKind, j.inner.term) st := by
  unfold innerTerm actualKind
  cases j.orDefault with
  | true => exact (LowerM.Gives.pure j.inner.term).bind (LowerM.Gives.pure _)
  | false =>
    rcases Term.filterAll_cases (.table j.inner.name) j.inner.filters with h | ⟨source, f, h⟩
    · rw [if_neg Bool.false_ne_true, FilteredTable.term, h]
      exact LowerM.Gives.pure _
    · rw [if_neg Bool.false_ne_true, FilteredTable.term, h]
      exact LowerM.Gives.pure _

/-- A filtered table joins as the table, its conditions as a part of the condition of the join. -/
theorem LowerM.Gives.joinSource {parent : Option QueryRef} {whereClause : Condition}
    (h : st.store.query inner.query = { parent, sources := [.ofTable t'], whereClause }) :
    inner.joinSource.Gives ctx st (.ofTable t', inner.projection, whereClause) st := by
  refine LowerM.Gives.store.bind ?_
  rw [h]
  exact LowerM.Gives.pure _

/-- Keys of shapes with equally many values have equally many scalars. -/
theorem Projection.Fits.length_scalars {p p' : Projection} (h : p.Fits κ) (h' : p'.Fits κ')
    (hkeys : (κ.pathsAt "").length = (κ'.pathsAt "").length) :
    p.scalars.length = p'.scalars.length := by
  have hlength : ∀ {p : Projection} {κ : Shape}, p.Fits κ →
      p.scalars.length = (κ.pathsAt "").length := fun {p} {κ} h => by
    rw [← Projection.Fits.paths p h "", List.length_map, Projection.scalars, List.length_map]
    rfl
  rw [hlength h, hlength h', hkeys]

/-- A function of one argument is lowered to a projection that stands for what it makes of it. -/
theorem LowerM.Gives.applyToOne (I : Interpretation V) (ctx : LowerContext) {p : Projection}
    {q : QueryRef} {f : Term} {σ : Shape} (hfits : p.Fits σ)
    (hparts : p.All (Scalar.IsPart st.store q)) (hf : f.functionShape? σ = some κ)
    (hn : 4 * f.size ≤ n) :
    ∃ k, ((lowererWithin standardRules n).applyProjection f [p] q).Gives ctx st k st ∧
      k.Fits κ ∧ ∀ ρ : Env V, k.denote I ρ = f.applyTo I (p.denote I ρ) := by
  obtain ⟨k, hk, hkfits, -, hdenote⟩ := LowerM.Gives.applyProjection (I := I) standardRules
    (ctx.binds_nil st.store q) (.cons ⟨hfits, hparts⟩ .nil) (f.functionShapeIn?_nil σ ▸ hf) hn
  exact ⟨k, hk, hkfits, fun ρ => (hdenote ρ).trans (Term.applyIn_nil I f _)⟩

/-- The steps of lowering a join, where both sides are queries that read a table. -/
theorem FilteredJoin.lowerJoin_steps (j : FilteredJoin) {c c' : Condition} {k k' r : Projection}
    {s₃ : Store}
    (houter : ((lowererWithin standardRules n).sequence j.outer.term none).Gives ctx st outer st₁)
    (houtcome : outer.outcome = .sequence)
    (hquery : st₁.store.query outer.query = { sources := [.ofTable t], whereClause := c })
    (hinner : ((lowererWithin standardRules n).sequence j.inner.term (some outer.query)).Gives ctx
      st₁ inner st₂)
    (houtcome' : inner.outcome = .sequence)
    (hquery' : st₂.store.query inner.query =
      { parent := some outer.query, sources := [.ofTable t'], whereClause := c' })
    (hquery₂ : st₂.store.query outer.query = { sources := [.ofTable t], whereClause := c })
    (hk : ((lowererWithin standardRules n).applyProjection j.outerKey [outer.projection]
      outer.query).Gives ctx st₂ k st₂)
    (hk' : ((lowererWithin standardRules n).applyProjection j.innerKey [inner.projection]
      outer.query).Gives ctx st₂ k' st₂)
    (hlength : k.scalars.length = k'.scalars.length)
    (hs₃ : s₃ = st₂.store.modifyQuery outer.query fun q => { q with sources :=
      [⟨.table t, none, [⟨j.actualKind, .ofTable t',
        (keyCondition k.scalars k'.scalars).conjoinAll c'⟩]⟩] })
    (hr : ((lowererWithin standardRules n).applyProjection j.result
      [outer.projection, inner.projection] outer.query).Gives ctx { st₂ with store := s₃ } r
        { st₂ with store := s₃ }) :
    (joinRule.lower (lowererWithin standardRules n) j.joinTerm none).Gives ctx st
      { outer with projection := r } { st₂ with store := s₃ } := by
  have hunfixed : (fun q : Query => q.hasFixedRows || q.isGrouped)
      (st₁.store.query outer.query) = false := by
    rw [hquery]
    rfl
  refine (houter.lowerSource houtcome).bind ((LowerM.Gives.wrapIf_false hunfixed).bind ?_)
  refine (LowerM.Gives.pure j.innerTerm).bind (j.joinedTerm_gives.bind (hinner.bind ?_))
  rw [houtcome']
  refine (LowerM.Gives.joinSource hquery').bind ?_
  refine (LowerM.Gives.pure j.outerKey).bind (hk.bind ?_)
  refine (LowerM.Gives.pure j.innerKey).bind (hk'.bind ?_)
  dsimp only
  rw [if_neg (by simp [hlength])]
  refine LowerM.Gives.store.bind ?_
  rw [hquery₂]
  subst hs₃
  refine (LowerM.Gives.modifyQuery outer.query _).bind ?_
  exact (LowerM.Gives.pure j.result).bind (hr.bind (LowerM.Gives.pure _))

/-- Two filtered tables that are lowered one after the other are joined. -/
theorem FilteredJoin.lowerJoin_gives (j : FilteredJoin)
    (hsequence : ((lowererWithin standardRules n).sequence j.outer.term none).Gives ctx st outer
      st₁)
    (houter : j.outer.IsRead I st.store st₁.store none e t outer)
    (hsequence' : ((lowererWithin standardRules n).sequence j.inner.term (some outer.query)).Gives
      ctx st₁ inner st₂)
    (hinner : j.inner.IsRead I st₁.store st₂.store (some outer.query) e' t' inner)
    (hshapes : j.HasShapes e e' τ)
    (hn : 4 * (j.outerKey.size + j.innerKey.size + j.result.size) ≤ n) :
    ∃ lowered s' parts, (joinRule.lower (lowererWithin standardRules n) j.joinTerm none).Gives ctx
        st lowered { st₂ with store := s' } ∧
      lowered.projection.Fits τ ∧ lowered.projection.All (Scalar.IsPart s' lowered.query) ∧
      (st.store.Ordered → s'.Ordered) ∧ j.HasParts I s' e e' parts lowered.projection ∧
      lowered.Filters I s' none (parts.sources j.actualKind) fun ρ =>
        j.outer.keeps I (parts.outerProjection.denote I ρ) := by
  obtain ⟨c, hquery, htest⟩ := houter.filters.query
  obtain ⟨c', hquery', htest'⟩ := hinner.filters.query
  obtain ⟨κ, κ', hκ, hκ', hkeys⟩ := hshapes.keys
  -- the outer query is not changed while the inner one is lowered
  obtain ⟨hkeeps, -⟩ := (lowererWithin_keeps st₁.store.queries.size n).sequence _ _ ctx _ _ _
    (Nat.le_refl _) hsequence'
  have hreads := houter.reads.keeps hkeeps
  have hreads' := hinner.reads
  have hquery₂ : st₂.store.query outer.query = { sources := [.ofTable t], whereClause := c } :=
    (hkeeps.query _ houter.filters.valid).trans hquery
  have hvalid₂ : outer.query.index < st₂.store.queries.size :=
    Nat.lt_of_lt_of_le houter.filters.valid hkeeps.queries
  obtain ⟨k, hk, hkfits, hkdenote⟩ := LowerM.Gives.applyToOne I ctx hreads.fits
    (hreads.parts st₂.store outer.query) hκ (show 4 * j.outerKey.size ≤ n by omega)
  obtain ⟨k', hk', hkfits', hkdenote'⟩ := LowerM.Gives.applyToOne I ctx hreads'.fits
    (hreads'.parts st₂.store outer.query) hκ' (show 4 * j.innerKey.size ≤ n by omega)
  let parts : JoinParts :=
    ⟨t, t', outer.projection, inner.projection, (keyCondition k.scalars k'.scalars).conjoinAll c'⟩
  let s₃ := st₂.store.modifyQuery outer.query fun q =>
    { q with sources := parts.sources j.actualKind }
  have hextends : st₂.store.Extends s₃ := by
    refine .modifyQuery hvalid₂ (fun source hsource => .inr ?_) rfl
    rw [List.mem_singleton.mp hsource]
    exact ⟨rfl, fun _ htable => by cases htable; exact hreads.hasTable⟩
  let st₃ : LowerState := { st₂ with store := s₃ }
  have hargs : FitArguments st₃.store outer.query [outer.projection, inner.projection]
      [e.shape, e'.shape] := .cons ⟨hreads.fits, hreads.parts s₃ outer.query⟩
    (.cons ⟨hreads'.fits, hreads'.parts s₃ outer.query⟩ .nil)
  obtain ⟨r, hr, hrfits, hrparts, hrdenote⟩ := LowerM.Gives.applyProjection (I := I) standardRules
    (ctx.binds_nil st₃.store outer.query) hargs hshapes.result (show 4 * j.result.size ≤ n by omega)
  have hsteps := j.lowerJoin_steps hsequence houter.filters.outcome hquery hsequence'
    hinner.filters.outcome hquery' hquery₂ hk hk' (hkfits.length_scalars hkfits' hkeys) rfl hr
  refine ⟨_, s₃, parts, hsteps, hrfits, hrparts,
    fun hordered => hextends.ordered (hinner.ordered (houter.ordered hordered)),
    ⟨hreads.keeps hextends.keeps, hreads'.keeps hextends.keeps, ?_, hrdenote, fun ρ => ?_⟩,
    houter.filters.outcome, ?_, c, ?_, htest⟩
  · exact fun heq : t = t' => Nat.not_lt_of_le hinner.fresh (heq ▸ houter.reads.hasTable.table)
  · rw [Condition.truth_conjoinAll, Truth.and_beq_true, keyCondition_holds, hkdenote, hkdenote',
      htest']
    rfl
  · rw [Store.size_modifyQuery]
    exact hvalid₂
  · rw [Store.query_modifyQuery_self hvalid₂, hquery₂]

/-! ## Lowering a join -/

theorem FilteredJoin.size_term (j : FilteredJoin) :
    ∃ m, j.term.size = m + Term.sizeOfTerms j.later + j.later.length ∧
      j.outer.term.size + j.inner.term.size + j.outerKey.size + j.innerKey.size + j.result.size <
        m := by
  have hinner : j.inner.term.size ≤ j.innerTerm.size := by
    unfold innerTerm
    split
    · exact Nat.le_succ_of_le (Nat.le_add_right _ _)
    · exact Nat.le_refl _
  have hjoin : j.joinTerm.size = j.outer.term.size + (j.innerTerm.size +
      (j.outerKey.size + (j.innerKey.size + (j.result.size + 0)))) + 1 := rfl
  exact ⟨_, Term.size_filterAll j.joinTerm j.later, by omega⟩

/-- A join is lowered to a query that reads both tables, and keeps the rows that meet the
conditions on the outer table and those on the result. -/
theorem FilteredJoin.lowers (I : Interpretation V) (j : FilteredJoin)
    (hmaps : ctx.schema.Maps j.outer.name e) (hmaps' : ctx.schema.Maps j.inner.name e')
    (hshapes : j.HasShapes e e' τ) (st : LowerState)
    (hcovers : st.ranking.Covers standardRules) :
    ∃ lowered st' parts, (lowerSequence standardRules j.term).Gives ctx st lowered st' ∧
      lowered.projection.Fits τ ∧ (st.store.Ordered → st'.store.Ordered) ∧
      j.HasParts I st'.store e e' parts lowered.projection ∧
      lowered.Filters I st'.store none (parts.sources j.actualKind) fun ρ =>
        j.outer.keeps I (parts.outerProjection.denote I ρ) &&
          j.later.all fun f => f.holdsOf I (lowered.projection.denote I ρ) := by
  obtain ⟨size, hsize, hparts⟩ := j.size_term
  have hdepth : loweringDepth j.term = 4 * (j.term.size + 1) := rfl
  obtain ⟨n, hn⟩ := Nat.exists_eq_add_of_le'
    (show 1 + j.later.length ≤ loweringDepth j.term by omega)
  obtain ⟨outer, t, st₁, hsequence, hcovers₁, houter⟩ := j.outer.lowers I hmaps st none
    hshapes.outer hcovers (show 4 * j.outer.term.size ≤ n by omega)
  obtain ⟨inner, t', st₂, hsequence', hcovers₂, hinner⟩ := j.inner.lowers I hmaps' st₁
    (some outer.query) hshapes.inner hcovers₁ (show 4 * j.inner.term.size ≤ n by omega)
  obtain ⟨lowered, s₃, parts, hlower, hfits, hscalars, hordered, hhas, hfilters⟩ :=
    j.lowerJoin_gives hsequence houter hsequence' hinner hshapes (by omega)
  have honly : standardRules.filter (·.accepts j.joinTerm) = [joinRule] := rfl
  obtain ⟨ranking, hdispatch, hcovers₃⟩ := hlower.dispatch honly hcovers hcovers₂
  obtain ⟨st', hgives, -, hextends, hfilters'⟩ := LowerM.Gives.filterAll j.later (n := n + 1)
    hdispatch hcovers hcovers₃ hfilters hfits hscalars (.of_size hshapes.later (by omega))
  refine ⟨lowered, st', parts, ?_, hfits, fun h => hextends.ordered (hordered h),
    hhas.keeps hextends.keeps, hfilters'⟩
  rw [lowerSequence, hn, ← Nat.add_assoc]
  exact hgives

end

end SqlCompiler
