import SqlCompiler.Lowering.Folding
import SqlCompiler.Proofs.Columns.Pruning
import SqlCompiler.Proofs.Columns.Rules
import SqlCompiler.Proofs.Groups.Aggregation

/-!
# Aggregates of chains

An aggregate ends a chain of operators on a mapped entity.  It is computed by the query of the
chain, or by one that reads this query where paging or `DISTINCT` fixes its rows.  The query selects
one call of the aggregate function, so that it has one row with the aggregate of the elements;
dropping the columns that nothing reads does not change this row.

Main results:

- Definition `Store.Summarizes`: what a query of aggregates gives.
- Theorem `Store.Summarizes.pruneColumns`: it gives the same without unused columns.
- Definition `Aggregation`, with `Aggregation.term` and `Aggregation.chain`: a chain with an
  aggregate at its end.
- Definition `Lowered.Folds`: a query that has an aggregate of its rows for a projection.
- Theorem `Aggregation.lowers`: an aggregate of a chain is lowered to such a query.
- Theorem `Aggregation.statement_value`: the row of its statement.
- Theorem `Aggregation.count_depends_on_absent_constant`: why no test for equality may be made of a
  member that is the absent constant.
-/

namespace SqlCompiler

variable {V : Type} [DecidableEq V] {I : Interpretation V} {db : Database V}
  {ctx : LowerContext} {st : LowerState} {s s' : Store} {q : QueryRef} {σ τ υ : Shape}
  {elements : List (Element V)} {lowered : Lowered} {rows rows' : List (Env V)}

/-! ## Queries of aggregates -/

/-- The rows of a query of aggregates: one for each block of the rows it reads. -/
def Aggregates.results (A : Aggregates I) (s : Store) (q : QueryRef) (rows : List (Env V)) :
    List (List V) :=
  (I.meaning.blocks s (s.query q) rows).map fun block =>
    (s.query q).columns.map fun c => A.valueOf block (s.column c).expression

/-- A query of aggregates gives some rows.  It computes them of the rows that its condition keeps,
so that no other clause may have fixed these. -/
structure Store.Summarizes (A : Aggregates I) (db : Database V) (s : Store) (q : QueryRef)
    (results : List (List V)) : Prop where
  unfixed : (s.query q).hasFixedRows = false
  results : ∃ rows, s.Yields I db q rows ∧ A.results s q rows = results

theorem Store.Summarizes.unique {A : Aggregates I} {results results' : List (List V)}
    (h : s.Summarizes A db q results) (h' : s.Summarizes A db q results') : results = results' := by
  obtain ⟨rows, hyields, rfl⟩ := h.results
  obtain ⟨rows', hyields', rfl⟩ := h'.results
  rw [hyields.unique hyields']

/-- A new statement leaves queries alone. -/
theorem Store.Summarizes.addStatement {A : Aggregates I} {results : List (List V)}
    (h : s.Summarizes A db q results) (hordered : s.Ordered) (statement : Statement) :
    (s.addStatement statement).2.Summarizes A db q results := by
  obtain ⟨rows, hyields, hresults⟩ := h.results
  obtain ⟨base, rfl, hrebase⟩ := hyields.rebase hordered
  have hsame : s.AgreesBelow (s.addStatement statement).2 q :=
    ⟨rfl, rfl, fun _ _ => rfl, fun _ _ => rfl⟩
  exact ⟨h.unfixed, _, hrebase _ hsame rfl hyields.isPlain, hresults⟩

/-! ## Without unused columns -/

section

variable (A : Aggregates I) {used : ColumnRef → Prop}

omit [DecidableEq V] in
/-- An expression over used columns has the same values on rows that read alike. -/
theorem map_eval_readsAlike (h : List.Forall₂ (Env.ReadsAlike used) rows rows') {e : Scalar}
    (he : UsesOnly used e.walk) :
    (rows'.map fun ρ => e.eval I ρ) = rows.map fun ρ => e.eval I ρ := by
  rw [eq_comm, ← List.forall₂_eq_eq_eq, List.forall₂_map_left_iff, List.forall₂_map_right_iff]
  exact h.imp fun ρ ρ' hρ => (Scalar.eval_readsAlike hρ e he).symm

/-- An aggregate of used columns has the same value over rows that read alike. -/
theorem Aggregates.valueOf_readsAlike (h : List.Forall₂ (Env.ReadsAlike used) rows rows')
    {e : Scalar} (he : UsesOnly used e.walk) : A.valueOf rows' e = A.valueOf rows e := by
  unfold valueOf
  split
  · next name args type keep =>
    have hargs : UsesOnly used (walkScalars args) := he.of_cons
    unfold ofArguments
    split
    · rw [h.length_eq]
    · next e type precedence =>
      have he : UsesOnly used e.walk := hargs.of_append.1.of_cons.of_append.1
      rw [map_eval_readsAlike h he]
    · next e _ =>
      rw [map_eval_readsAlike h hargs.of_append.1]
    · rfl
  · rfl

/-- The blocks of a query without groups read alike if its rows do. -/
theorem Meaning.blocks_readsAlike {query : Query} (hquery : query.isGrouped = false)
    (haggregates : s'.aggregates query = s.aggregates query)
    (h : List.Forall₂ (Env.ReadsAlike used) rows rows') :
    List.Forall₂ (List.Forall₂ (Env.ReadsAlike used)) (I.meaning.blocks s query rows)
      (I.meaning.blocks s' query rows') := by
  rw [blocks, blocks, hquery, haggregates, if_neg Bool.false_ne_true, if_neg Bool.false_ne_true]
  split
  · exact .cons h .nil
  · rw [List.forall₂_map_left_iff, List.forall₂_map_right_iff]
    exact h.imp fun ρ ρ' hρ => .cons hρ .nil

/-- A query of aggregates that no query reads gives the same rows without the columns that nothing
reads. -/
theorem Store.Summarizes.pruneColumns {A : Aggregates I} {t : StatementRef}
    {results : List (List V)} (h : s.Summarizes A db q results)
    (hunread : ∀ r, q ∉ (s.query r).subqueries)
    (hq : (s.statement t).query = q) : (s.pruneColumns t).Summarizes A db q results := by
  obtain ⟨rows, hyields, hresults⟩ := h.results
  have hkeeps : s.KeepsRows I db q (s.pruneColumns t) := keepsRows_pruneColumns s t hq
  have hquery : (s.pruneColumns t).query q = s.query q := hkeeps.kept q (.inr hunread)
  have hcolumn : ∀ c, (s.pruneColumns t).column c = s.column c := fun c => by
    rw [column, column, hkeeps.content]
  obtain ⟨rows', hyields', halike⟩ := hkeeps.rows hunread hyields
  have hungrouped : (s.query q).isGrouped = false := by
    rw [Query.isGrouped, hyields.isPlain.grouping]
    rfl
  have haggregates : (s.pruneColumns t).aggregates (s.query q) = s.aggregates (s.query q) := by
    rw [aggregates, aggregates]
    simp only [hcolumn]
  have hreads : ∀ c ∈ (s.query q).columns,
      UsesOnly (fun c => .column c ∈ s.walkQuery q) (s.column c).expression.walk :=
    fun c hc d hd =>
      (usesOnly_of_walkQuery fun _ hmem => hmem).1 d (List.mem_flatMap.mpr ⟨c, hc, hd⟩)
  refine ⟨hquery.symm ▸ h.unfixed, rows', hyields', ?_⟩
  rw [eq_comm, ← hresults, Aggregates.results, Aggregates.results, hquery, ← List.forall₂_eq_eq_eq,
    List.forall₂_map_left_iff, List.forall₂_map_right_iff]
  refine (Meaning.blocks_readsAlike hungrouped haggregates halike).imp fun block block' hblock => ?_
  refine List.map_congr_left fun c hc => ?_
  rw [hcolumn, A.valueOf_readsAlike hblock (hreads c hc)]

end

/-! ## Aggregates of a lowered sequence -/

/-- A lowered aggregate: its query selects nothing yet, and the call that is its projection has the
value of the aggregate of some elements over the rows of the query. -/
structure Lowered.Folds (I : Interpretation V) (db : Database V) (s : Store)
    (operator : SequenceOperator) (elements : List (Element V)) (lowered : Lowered) : Prop where
  outcome : lowered.outcome = .scalar
  ordered : s.Ordered
  valid : lowered.query.index < s.queries.size
  unfixed : (s.query lowered.query).hasFixedRows = false
  columns : (s.query lowered.query).columns = []
  value : ∃ call rows, lowered.projection = .scalar (.function call) ∧ call.isAggregate = true ∧
    s.Yields I db lowered.query rows ∧
    ∀ A : Aggregates I, A.valueOf rows (.function call) = A.ofElements operator elements

/-- A call that has the value of an aggregate of the elements over all rows that stand for them. -/
structure Call.Folds (I : Interpretation V) (p : Projection) (elements : List (Element V))
    (operator : SequenceOperator) (folded : List (Element V)) (call : Call) : Prop where
  isAggregate : call.isAggregate = true
  valueOf : ∀ (A : Aggregates I) (rows : List (Env V)),
    rows.map (fun ρ => p.denote I ρ) = elements →
      A.valueOf rows (.function call) = A.ofElements operator folded

theorem Lowered.Represents.folds (h : lowered.Represents I db s σ elements)
    (hunfixed : (s.query lowered.query).hasFixedRows = false) {operator : SequenceOperator}
    {folded : List (Element V)} {call : Call}
    (hcall : call.Folds I lowered.projection elements operator folded) :
    Lowered.Folds I db s operator folded
      { query := lowered.query, projection := .scalar (.function call), outcome := .scalar } := by
  obtain ⟨rows, hyields, helements⟩ := h.yields
  exact ⟨rfl, h.ordered, h.valid, hunfixed,
    h.selects.none (Query.hasFixedRows_eq_false hunfixed).2.2,
    call, rows, rfl, hcall.isAggregate, hyields, fun A => hcall.valueOf A rows helements⟩

/-- Without its order, a query whose rows are not fixed, or one that reads it, stands for the same
elements. -/
theorem Lowered.Represents.unordered (h : lowered.Represents I db st.store σ elements)
    (ctx : LowerContext) :
    ∃ lowered' s₁ s', (LowerM.wrapIf (fun q => q.hasFixedRows || q.isGrouped) lowered).Gives ctx st
        lowered' { st with store := s₁ } ∧
      s' = s₁.modifyQuery lowered'.query (fun q => { q with orderBy := [] }) ∧
      lowered'.Represents I db s' σ elements ∧
      (s'.query lowered'.query).hasFixedRows = false := by
  obtain ⟨lowered, s₁, hwrap, h, htest⟩ :=
    h.wrapIf ctx (fun q => q.hasFixedRows || q.isGrouped) fun _ _ => rfl
  have hself :=
    Store.query_modifyQuery_self (f := fun q : Query => { q with orderBy := [] }) h.valid
  refine ⟨lowered, s₁, _, hwrap, rfl, ?_, ?_⟩
  · refine h.reclause rfl h.outcome rfl rfl
      (fun hplain => ⟨hplain.grouping, hplain.having, rfl, hplain.setOperators⟩) h.fits h.parts
      ⟨fun hdistinct => ?_, fun hdistinct => ?_⟩ fun base hbase => hbase
    · rw [hself] at hdistinct ⊢
      exact h.selects.none hdistinct
    · rw [hself] at hdistinct ⊢
      exact h.selects.same hdistinct
  · rw [hself]
    exact (Bool.or_eq_false_iff.mp htest).1

section

variable {l : Lowerer} {c : CallSite}

/-- Elements are counted by the rows that stand for them. -/
theorem aggregateOf_count (hcount : c.operator.isCount = true) (elements : List (Element V)) :
    ∃ call, (aggregateOf l c lowered).Gives ctx st call st ∧
      call.Folds I lowered.projection elements c.operator elements := by
  refine ⟨.aggregate "Count" [] (c.operator.aggregateType .undefined), ?_, rfl, ?_⟩
  · rw [aggregateOf, if_pos hcount]
    exact LowerM.Gives.pure _
  · rintro A rows rfl
    rw [A.ofElements_count hcount, List.length_map]
    rfl

/-- Another aggregate computes with the values that a scalar has on the rows. -/
theorem aggregateOf_value (hoperator : c.operator.isAggregate = true)
    (hcount : c.operator.isCount = false) {e : Scalar} (hraw : e.isRaw = false)
    (he : (match c.args[1]? with
      | some selector => l.applyScalar selector [lowered.projection] lowered.query
      | none => LowerM.ofExcept (lowered.projection.toScalar (.call c.operator c.args))).Gives ctx
        st e st)
    {f : Element V → Element V}
    (hvalue : ∀ ρ : Env V, e.eval I ρ = (f (lowered.projection.denote I ρ)).asValue I)
    (elements : List (Element V)) :
    ∃ call, (aggregateOf l c lowered).Gives ctx st call st ∧
      call.Folds I lowered.projection elements c.operator (elements.map f) := by
  refine ⟨.aggregate c.operator.functionName [e] (c.operator.aggregateType (st.store.typeOf e)), ?_,
    rfl, ?_⟩
  · rw [aggregateOf, if_neg (by simp [hcount])]
    cases hargs : c.args[1]? with
    | some selector =>
      rw [hargs] at he
      exact he.bind (LowerM.Gives.store.bind (LowerM.Gives.pure _))
    | none =>
      rw [hargs] at he
      exact he.bind (LowerM.Gives.store.bind (LowerM.Gives.pure _))
  · rintro A rows rfl
    rw [A.ofElements_named hoperator hcount, List.map_map, List.map_map]
    refine (A.ofArguments_single rows _ hraw).trans ?_
    simp only [hvalue]
    rfl

/-- The values of an aggregate without a function are those of the elements. -/
theorem Lowered.Represents.aggregateOf_plain {absent : Bool}
    (h : lowered.Represents I db st.store (.value absent) elements)
    (hoperator : c.operator.isAggregate = true) (hcount : c.operator.isCount = false)
    (hargs : c.args[1]? = none) :
    ∃ call, (aggregateOf l c lowered).Gives ctx st call st ∧
      call.Folds I lowered.projection elements c.operator elements := by
  obtain ⟨e, he, -⟩ := h.fits.scalar
  have hpart : e.IsPart st.store lowered.query := Projection.all_scalar.mp (he ▸ h.parts)
  have haggregate : ∃ call, (aggregateOf l c lowered).Gives ctx st call st ∧
      call.Folds I lowered.projection elements c.operator (elements.map id) := by
    refine aggregateOf_value hoperator hcount hpart.raw ?_ (fun ρ => by rw [he]; rfl) elements
    rw [hargs, he]
    exact LowerM.Gives.pure e
  rwa [List.map_id] at haggregate

/-- The values of an aggregate with a selector are those that the selector makes of the elements. -/
theorem Lowered.Represents.aggregateOf_selector
    (h : lowered.Represents I db st.store σ elements) (rules : List Rule) {n : Nat}
    (hoperator : c.operator.isAggregate = true) (hcount : c.operator.isCount = false) {f : Term}
    (hargs : c.args[1]? = some f) {absent : Bool} (hf : f.functionShape? σ = some (.value absent))
    (hn : 4 * f.size ≤ n) :
    ∃ call, (aggregateOf (lowererWithin rules n) c lowered).Gives ctx st call st ∧
      call.Folds I lowered.projection elements c.operator
        (elements.map fun e => f.applyTo I e) := by
  obtain ⟨e, he, hpart, hvalue⟩ := LowerM.Gives.applyScalar (I := I) rules
    (ctx.binds_nil st.store lowered.query) h.argument (f.functionShapeIn?_nil σ ▸ hf) hn
  refine aggregateOf_value hoperator hcount hpart.raw (by rw [hargs]; exact he) (fun ρ => ?_)
    elements
  rw [hvalue, ← Term.applyIn_nil]
  rfl

/-- The last steps of lowering an aggregate. -/
def foldRows (l : Lowerer) (c : CallSite) (lowered : Lowered) : LowerM Lowered := do
  let lowered ← LowerM.wrapIf (fun q => q.hasFixedRows || q.isGrouped) lowered
  LowerM.modifyQuery lowered.query fun q => { q with orderBy := [] }
  let call ← aggregateOf l c lowered
  return { query := lowered.query, projection := .scalar (.function call), outcome := .scalar }

/-- A query that stands for elements is made to compute an aggregate of these. -/
theorem Lowered.Represents.foldRows (h : lowered.Represents I db st.store σ elements)
    (ctx : LowerContext) {folded : List (Element V)}
    (haggregate : ∀ (lowered : Lowered) (st : LowerState),
      lowered.Represents I db st.store σ elements →
        ∃ call, (aggregateOf l c lowered).Gives ctx st call st ∧
          call.Folds I lowered.projection elements c.operator folded) :
    ∃ lowered' s', (SqlCompiler.foldRows l c lowered).Gives ctx st lowered'
        { st with store := s' } ∧
      lowered'.Folds I db s' c.operator folded := by
  obtain ⟨lowered, s₁, s', hwrap, rfl, h, hunfixed⟩ := h.unordered ctx
  obtain ⟨call, hcall, hfolds⟩ := haggregate lowered { st with store := _ } h
  exact ⟨_, _, hwrap.bind ((LowerM.Gives.modifyQuery _ _).bind
    (hcall.bind (LowerM.Gives.pure _))), h.folds hunfixed hfolds⟩

/-- An aggregate is lowered by making the query of its source compute it. -/
theorem LowerM.Gives.lowerAggregate {st₁ st₂ st₃ : LowerState} {source kept folded : Lowered}
    (hsource : (c.lowerSource l).Gives ctx st source st₁)
    (hkept : (if c.operator.isCount then source.filterIf l c.args[1]? else Pure.pure source).Gives
      ctx st₁ kept st₂)
    (hfold : (SqlCompiler.foldRows l c kept).Gives ctx st₂ folded st₃) :
    (SqlCompiler.lowerAggregate l c).Gives ctx st folded st₃ := by
  refine hsource.bind ?_
  dsimp only
  split at hkept
  · next hcount =>
    rw [if_pos hcount]
    exact hkept.bind hfold
  · next hcount =>
    rw [if_neg hcount]
    exact hkept.bind hfold

end

/-! ## Aggregates of chains -/

namespace Pipeline

variable {source : Pipeline} {f : Term}

/-- The function of a condition gives single values. -/
theorem shape?_filter (hsource : source.shape? σ = some υ)
    (h : (filter source f).shape? σ = some τ) :
    ∃ absent, υ = τ ∧ f.functionShape? υ = some (.value absent) := by
  rw [shape?, hsource] at h
  dsimp only at h
  split at h
  · next absent hf => exact ⟨absent, Option.some.inj h, hf⟩
  · cases h

/-- The function of a selector gives the elements their shape. -/
theorem shape?_select (hsource : source.shape? σ = some υ)
    (h : (select source f).shape? σ = some τ) : f.functionShape? υ = some τ := by
  rwa [shape?, hsource] at h

end Pipeline

/-- A chain of operators on the elements of an entity, ended by an aggregate that may have a
function. -/
structure Aggregation where
  operator : SequenceOperator
  source : Pipeline
  function : Option Term := none

namespace Aggregation

/-- The aggregate as a query term. -/
def term (entity : String) (a : Aggregation) : Term :=
  (a.source.term entity).apply a.operator a.function.toList

/-- The chain whose elements the aggregate is of: the function is a condition if the elements are
counted, and else a selector. -/
def chain (a : Aggregation) : Pipeline :=
  match a.function with
  | none => a.source
  | some f => if a.operator.isCount then .filter a.source f else .select a.source f

/-- The chain of what the query of the aggregate reads. -/
def kept (a : Aggregation) : Pipeline :=
  match a.function with
  | none => a.source
  | some f => if a.operator.isCount then .filter a.source f else a.source

/-- The call of the aggregate. -/
def callSite (entity : String) (parent : Option QueryRef) (a : Aggregation) : CallSite where
  operator := a.operator
  args := a.source.term entity :: a.function.toList
  parent := parent

variable {e : EntityMapping} {name : String}

/-- All that is read is counted. -/
theorem chain_of_count {a : Aggregation} (hcount : a.operator.isCount = true) :
    a.chain = a.kept := by
  rw [chain, kept, hcount]
  rfl

/-- Only a count has a condition. -/
theorem kept_of_not_count {a : Aggregation} (hcount : a.operator.isCount = false) :
    a.kept = a.source := by
  rw [kept, hcount]
  cases a.function <;> rfl

/-- If what the aggregate is of has a shape, so has the source. -/
theorem exists_source_shape (a : Aggregation) (h : a.chain.shape? σ = some τ) :
    ∃ υ, a.source.shape? σ = some υ := by
  rw [← Option.isSome_iff_exists]
  by_contra hnone
  have hnone : a.source.shape? σ = none := by simpa using hnone
  have hchain : a.chain.shape? σ = none := by
    unfold chain
    split
    · exact hnone
    · split <;> simp only [Pipeline.shape?, hnone]
  rw [hchain] at h
  cases h

/-- And so has what the query of the aggregate reads. -/
theorem exists_kept_shape (a : Aggregation) (h : a.chain.shape? σ = some τ) :
    ∃ υ, a.kept.shape? σ = some υ := by
  cases hcount : a.operator.isCount with
  | true => exact ⟨τ, chain_of_count hcount ▸ h⟩
  | false =>
    rw [kept_of_not_count hcount]
    exact a.exists_source_shape h

/-- A condition on what is counted is added to the condition of the query. -/
theorem kept_gives {a : Aggregation} (h : lowered.Represents I db st.store σ
      (a.source.run I (e.elements db)))
    (hsource : a.source.shape? e.shape = some σ) (hkept : a.kept.shape? e.shape = some υ) {n : Nat}
    (hn : 4 * (a.term name).size ≤ n) (ctx : LowerContext) (parent : Option QueryRef) :
    ∃ kept s', (if a.operator.isCount then lowered.filterIf (lowererWithin standardRules n)
          (a.callSite name parent).args[1]? else pure lowered).Gives ctx st kept
            { st with store := s' } ∧
      kept.Represents I db s' υ (a.kept.run I (e.elements db)) := by
  cases hcount : a.operator.isCount with
  | false =>
    rw [kept_of_not_count hcount] at hkept ⊢
    cases hsource.symm.trans hkept
    exact ⟨lowered, st.store, .pure lowered, h⟩
  | true =>
    obtain ⟨operator, source, function⟩ := a
    cases function with
    | none =>
      have hself : kept ⟨operator, source, none⟩ = source := rfl
      rw [hself] at hkept ⊢
      cases hsource.symm.trans hkept
      exact ⟨lowered, st.store, .pure lowered, h⟩
    | some f =>
      have hfilter : kept ⟨operator, source, some f⟩ = .filter source f := by
        rw [kept, hcount]
        rfl
      rw [hfilter] at hkept ⊢
      have hsize : (term name ⟨operator, source, some f⟩).size =
          (source.term name).size + (f.size + 0) + 1 := rfl
      obtain ⟨absent, rfl, hf⟩ := Pipeline.shape?_filter hsource hkept
      exact h.filter ctx standardRules hf (by omega)

/-- The call of the aggregate function computes with what the aggregate is of. -/
theorem aggregateOf_gives {a : Aggregation} (hoperator : a.operator.isAggregate = true)
    (h : lowered.Represents I db st.store σ (a.kept.run I (e.elements db)))
    (hkept : a.kept.shape? e.shape = some σ) (hshape : a.chain.shape? e.shape = some τ)
    (hsingle : a.operator.isCount = true ∨ ∃ absent, τ = .value absent) {n : Nat}
    (hn : 4 * (a.term name).size ≤ n) (parent : Option QueryRef) :
    ∃ call, (aggregateOf (lowererWithin standardRules n) (a.callSite name parent) lowered).Gives ctx
        st call st ∧
      call.Folds I lowered.projection (a.kept.run I (e.elements db)) a.operator
        (a.chain.run I (e.elements db)) := by
  cases hcount : a.operator.isCount with
  | true =>
    rw [chain_of_count hcount]
    exact aggregateOf_count (c := a.callSite name parent) hcount _
  | false =>
    obtain ⟨absent, rfl⟩ := hsingle.resolve_left (by simp [hcount])
    rw [kept_of_not_count hcount] at h hkept ⊢
    obtain ⟨operator, source, function⟩ := a
    cases function with
    | none =>
      have hchain : chain ⟨operator, source, none⟩ = source := rfl
      rw [hchain] at hshape ⊢
      cases hkept.symm.trans hshape
      exact h.aggregateOf_plain (c := callSite name parent _) hoperator hcount rfl
    | some f =>
      have hchain : chain ⟨operator, source, some f⟩ = .select source f := by
        rw [chain, hcount]
        rfl
      rw [hchain] at hshape ⊢
      have hsize : (term name ⟨operator, source, some f⟩).size =
          (source.term name).size + (f.size + 0) + 1 := rfl
      exact h.aggregateOf_selector (c := callSite name parent ⟨operator, source, some f⟩)
        standardRules hoperator hcount rfl (Pipeline.shape?_select hkept hshape) (by omega)

/-- An aggregate of a chain is lowered to a query that computes it. -/
theorem lowers (I : Interpretation V) (db : Database V) (hmaps : ctx.schema.Maps name e)
    (parent : Option QueryRef) (st : LowerState) {a : Aggregation} (hoperator : a.operator.isAggregate = true)
    (hshape : a.chain.shape? e.shape = some τ)
    (hsingle : a.operator.isCount = true ∨ ∃ absent, τ = .value absent) {n : Nat}
    (hn : 4 * ((a.term name).size + 1) ≤ n) (hordered : st.store.Ordered)
    (hcovers : st.ranking.Covers standardRules) :
    ∃ lowered st', ((lowererWithin standardRules n).sequence (a.term name) parent).Gives ctx st
        lowered st' ∧
      lowered.Folds I db st'.store a.operator (a.chain.run I (e.elements db)) := by
  obtain ⟨n, rfl⟩ := Nat.exists_eq_add_of_le' (show 1 ≤ n by omega)
  have hsize : (a.source.term name).size + 1 ≤ (a.term name).size :=
    Nat.succ_le_succ (Nat.le_add_right _ _)
  obtain ⟨σ, hsource⟩ := a.exists_source_shape hshape
  obtain ⟨υ, hkept⟩ := a.exists_kept_shape hshape
  obtain ⟨source, st₁, hgives, hrepresents, hcovers₁⟩ :=
    a.source.lowers I db hmaps parent st (n := n) hsource (by omega) hordered hcovers
  have hn : 4 * (a.term name).size ≤ n := by omega
  obtain ⟨kept, s₂, hfilter, hrepresents₂⟩ :=
    kept_gives hrepresents hsource hkept hn ctx parent
  let st₂ : LowerState := { st₁ with store := s₂ }
  have hrepresents₂ : kept.Represents I db st₂.store υ (a.kept.run I (e.elements db)) := hrepresents₂
  obtain ⟨lowered, s₃, hfold, hfolds⟩ := hrepresents₂.foldRows ctx
    (c := a.callSite name parent) fun lowered st h =>
      aggregateOf_gives hoperator h hkept hshape hsingle hn parent
  have hlower : (aggregationRule.lower (lowererWithin standardRules n) (a.term name) parent).Gives
      ctx st lowered { st₁ with store := s₃ } :=
    (hgives.lowerSource hrepresents.outcome).lowerAggregate hfilter hfold
  have honly : standardRules.filter (·.accepts (a.term name)) = [aggregationRule] := by
    obtain ⟨operator, source, function⟩ := a
    cases operator <;> first | rfl | cases hoperator
  obtain ⟨ranking, hdispatch, -⟩ := hlower.dispatch honly hcovers hcovers₁
  exact ⟨lowered, _, hdispatch, hfolds⟩

end Aggregation

/-! ## Statements of aggregates -/

/-- Nothing reads the query of a closed aggregate. -/
theorem Lowered.toStatement_bare {X : QueryRef → Prop} (houtcome : lowered.outcome = .scalar) :
    LowerM.Triple ctx (lowered.Finished X) lowered.toStatement fun r =>
      Store.At X (Store.Bare r.1.query) := by
  have hclose : LowerM.Triple ctx (lowered.Finished X) lowered.close fun _ =>
      Store.At X (Store.Bare lowered.query) := by
    unfold Lowered.close
    rw [houtcome]
    refine ((selectProjection_bare _ _).pre fun s hs => ?_).bind fun _ =>
      LowerM.Triple.pure fun _ hs => hs
    refine (hs.done (by rw [houtcome]; rfl)).mono fun hdone => ?_
    rwa [Lowered.Done, houtcome] at hdone
  exact hclose.bind fun r => LowerM.Triple.get fun st => LowerM.Triple.pure fun s hs => hs

/-- Only a lowered value is read as one. -/
theorem Lowered.outcome_of_toStatement {st' : LowerState} {statement : Statement}
    (h : lowered.toStatement.Gives ctx st (statement, .scalar) st') :
    lowered.outcome = .scalar := by
  obtain ⟨⟨body, shape⟩, st₁, hclose, hrest⟩ := h.of_bind
  obtain ⟨state, st₂, -, hpure⟩ := hrest.of_bind
  cases hpure
  unfold Lowered.close at hclose
  split at hclose
  · obtain ⟨columns, _, -, hpure⟩ := hclose.of_bind
    cases hpure
  · obtain ⟨columns, _, -, hpure⟩ := hclose.of_bind
    cases hpure
  · assumption
  · next body _ =>
    unfold StatementBody.shape at hclose
    split at hclose
    · split at hclose <;> cases hclose
    · cases hclose
  · obtain ⟨columns, _, -, hpure⟩ := hclose.of_bind
    cases hpure
  all_goals cases hclose

/-- A statement that computes aggregates gives the same rows without unused columns. -/
theorem Store.Summarizes.pruneStatement {t : Term} {ranking : Ranking} {st' : LowerState}
    {statement : Statement}
    (hgives : (lowerSequence standardRules t).Gives ctx { ranking } lowered st)
    (hstatement : lowered.toStatement.Gives ctx st (statement, .scalar) st') {A : Aggregates I}
    {results : List (List V)}
    (h : (st'.store.addStatement statement).2.Summarizes A db statement.query results) :
    ((st'.store.addStatement statement).2.pruneColumns
      (st'.store.addStatement statement).1).Summarizes A db statement.query results := by
  have hfinished : lowered.Finished (fun _ => False) st.store :=
    (lowererWithin_sound (loweringDepth t)).sequence ctx _ _ none { ranking } lowered st
      (Store.sound_empty _) hgives
  have hbare := Lowered.toStatement_bare (Lowered.outcome_of_toStatement hstatement) st _ st'
    hfinished hstatement
  exact h.pruneColumns hbare.2.not_subquery (by simp [Store.addStatement, Store.statement])

/-- The call is the only column of the query of a closed aggregate. -/
theorem Lowered.Folds.toStatement {operator : SequenceOperator}
    (h : lowered.Folds I db st.store operator elements) (ctx : LowerContext) :
    ∃ statement s', lowered.toStatement.Gives ctx st (statement, .scalar) { st with store := s' } ∧
      statement.body = .select ∧ statement.query = lowered.query ∧
      s'.Ordered ∧
      ∀ A : Aggregates I, s'.Summarizes A db lowered.query [[A.ofElements operator elements]] := by
  obtain ⟨call, rows, hprojection, haggregate, hyields, hvalue⟩ := h.value
  let e : Scalar := .function call
  let added := st.store.addFreshColumn lowered.query e (Projection.leafAlias "")
  have hadd : st.store.addColumn lowered.query e (Projection.leafAlias "") = added := by
    rw [Store.addColumn, Store.findColumn?, h.columns]
    rfl
  have hgrows : st.store.Widens lowered.query added.2 :=
    Store.grows_addFreshColumn h.valid trivial _
  have hquery : added.2.query lowered.query =
      { st.store.query lowered.query with columns := [added.1] } := by
    rw [Store.query_addFreshColumn h.valid, h.columns]
    rfl
  obtain ⟨columns, hselect⟩ : ∃ columns,
      (LowerM.selectProjection lowered.query lowered.projection).Gives ctx st columns
        { st with store := added.2 } := by
    rw [hprojection]
    exact ⟨_, (LowerM.Gives.pure ()).bind (LowerM.Gives.bind ((LowerM.Gives.allocate_eq hadd).bind
      (LowerM.Gives.store.bind (LowerM.Gives.pure _))) (LowerM.Gives.pure _))⟩
  have hclose : lowered.close.Gives ctx st (.select, .scalar) { st with store := added.2 } := by
    unfold Lowered.close
    rw [h.outcome]
    exact LowerM.Gives.bind hselect (LowerM.Gives.pure _)
  have hyields' : added.2.Yields I db lowered.query rows := by
    refine hgrows.yields h.ordered hyields fun hdistinct => ?_
    rw [(Query.hasFixedRows_eq_false h.unfixed).2.2] at hdistinct
    cases hdistinct
  have hblocks : I.meaning.blocks added.2 (added.2.query lowered.query) rows = [rows] := by
    have hungrouped : (added.2.query lowered.query).isGrouped = false := by
      rw [Query.isGrouped, hyields'.isPlain.grouping]
      rfl
    have haggregates : added.2.aggregates (added.2.query lowered.query) = true := by
      simp [Store.aggregates, hquery, added, e, Scalar.anyPart, Scalar.walk, Scalar.isAggregate,
        haggregate]
    rw [Meaning.blocks, hungrouped, haggregates]
    rfl
  refine ⟨_, added.2, hclose.bind (LowerM.Gives.get.bind (LowerM.Gives.pure _)), rfl, rfl,
    hgrows.ordered h.ordered, fun A => ⟨by rw [hquery]; exact h.unfixed, rows, hyields', ?_⟩⟩
  rw [Aggregates.results, hblocks, hquery]
  simp only [List.map_cons, List.map_nil, Store.column_addFreshColumn, added, ← hvalue A]
  rfl

namespace Aggregation

variable {e : EntityMapping} {name : String}

/-- The statement of an aggregate of a chain, without the columns that nothing reads, gives one row
with the aggregate of what the operators make of the elements of the entity, one after the other. -/
theorem statement_value (I : Interpretation V) (db : Database V) {a : Aggregation}
    {ranking : Ranking} (hmaps : ctx.schema.Maps name e) (hoperator : a.operator.isAggregate = true)
    (hshape : a.chain.shape? e.shape = some τ)
    (hsingle : a.operator.isCount = true ∨ ∃ absent, τ = .value absent)
    (hranking : ranking.Covers standardRules) :
    ∃ lowered st, (lowerSequence standardRules (a.term name)).Gives ctx { ranking } lowered st ∧
      ∃ statement st', lowered.toStatement.Gives ctx st (statement, .scalar) st' ∧
        statement.body = .select ∧ ∀ A : Aggregates I,
          ((st'.store.addStatement statement).2.pruneColumns
              (st'.store.addStatement statement).1).Summarizes A db statement.query
            [[A.ofElements a.operator (a.chain.run I (e.elements db))]] := by
  obtain ⟨lowered, st, hgives, hfolds⟩ := lowers I db hmaps none { ranking } hoperator
    hshape hsingle (Nat.le_refl _) Store.ordered_empty hranking
  obtain ⟨statement, s', hstatement, hbody, hquery, hordered, hsummarizes⟩ :=
    hfolds.toStatement ctx
  refine ⟨lowered, st, hgives, statement, _, hstatement, hbody, fun A => ?_⟩
  refine .pruneStatement hgives hstatement ?_
  exact hquery.symm ▸ (hsummarizes A).addStatement hordered statement

/-- The nicknames of the first three people, summed up. -/
def firstNicknames : Aggregation where
  operator := .sum
  source := .take .table 3
  function := some (.fn "p" (.member (.bound "p") "Nickname"))

/-- The sum of nicknames leaves out an absent one. -/
theorem statement_value_firstNicknames :
    ∃ lowered st statement st',
      (lowerSequence standardRules (firstNicknames.term "Person")).Gives Pipeline.personContext
        { ranking := .ofRules standardRules } lowered st ∧
      lowered.toStatement.Gives Pipeline.personContext st (statement, .scalar) st' ∧
      ((st'.store.addStatement statement).2.pruneColumns
          (st'.store.addStatement statement).1).Summarizes .nullableIntegers
        (Pipeline.peopleOf [(none, 30), (some 1, 17), (some 2, 30), (some 5, 18)]) statement.query
        [[some 3]] := by
  have hmaps : Pipeline.personContext.schema.Maps "Person" Pipeline.personMapping :=
    ⟨rfl, by simp [Pipeline.personMapping]⟩
  have hshape : firstNicknames.chain.shape? Pipeline.personMapping.shape =
      some (.value false) := rfl
  obtain ⟨lowered, st, hgives, statement, st', hstatement, -, hsummarizes⟩ :=
    statement_value Interpretation.nullableIntegers
      (Pipeline.peopleOf [(none, 30), (some 1, 17), (some 2, 30), (some 5, 18)]) hmaps rfl hshape
      (.inr ⟨false, rfl⟩) (Ranking.covers_ofRules standardRules)
  exact ⟨lowered, st, statement, st', hgives, hstatement, hsummarizes .nullableIntegers⟩

/-- The number of elements of a chain on people, as a statement. -/
def countPeople (p : Pipeline) : LowerM (Statement × ResultShape) := do
  (← lowerSequence standardRules (term "Person" ⟨.count, p, none⟩)).toStatement

/-- What that gives. -/
def runCount (p : Pipeline) : Except SqlError (Statement × ResultShape) × LowerState :=
  ((countPeople p).run Pipeline.personContext).run.run { ranking := Pipeline.givenOrder }

/-- The store with the statement. -/
def countStore (p : Pipeline) : Store :=
  match runCount p with
  | (.ok (statement, _), st) => (st.store.addStatement statement).2
  | (.error _, st) => st.store

/-- A statement is right about the number of elements of a chain on people. -/
def CountsRight (I : Interpretation (Option Int)) (db : Database (Option Int)) (p : Pipeline) :
    Prop :=
  ∃ statement st, (countPeople p).Gives Pipeline.personContext { ranking := Pipeline.givenOrder }
      (statement, .scalar) st ∧
    ((st.store.addStatement statement).2.pruneColumns
        (st.store.addStatement statement).1).Summarizes Aggregates.nullableIntegers db
      statement.query [[some ((p.run I (Pipeline.personMapping.elements db)).length : Int)]]

/-- A right statement computes the number of elements. -/
theorem CountsRight.results_eq {I : Interpretation (Option Int)} {db : Database (Option Int)}
    {p : Pipeline} {q : QueryRef} {results : List (List (Option Int))} (h : CountsRight I db p)
    (hquery : (runCount p).1.toOption.map (·.1.query) = some q)
    (hsummarizes : (countStore p).Summarizes Aggregates.nullableIntegers db q results) :
    results = [[some ((p.run I (Pipeline.personMapping.elements db)).length : Int)]] := by
  obtain ⟨statement, st', hgives, hpruned⟩ := h
  have hrun : runCount p = (.ok (statement, .scalar), st') := hgives
  rw [hrun] at hquery
  rw [countStore, hrun] at hsummarizes
  cases hquery
  obtain ⟨lowered, st, hlower, hstatement⟩ := hgives.of_bind
  exact (hsummarizes.pruneStatement hlower hstatement).unique hpruned

/-- No meaning of comparisons of values makes the number of elements of both chains right: next to
the absent constant, a nickname is tested for absence, and once the constant is a column of a nested
query, no comparison with it is true. -/
theorem count_depends_on_absent_constant :
    ¬ ∃ compare : Comparison → Option Int → Option Int → Truth,
      ∀ p ∈ [Pipeline.filter Pipeline.nicknames Pipeline.isNone,
          .filter (.take Pipeline.nicknames 100) Pipeline.isNone],
        CountsRight { Interpretation.nullableIntegers with compare }
          (Pipeline.peopleOf [(none, 30)]) p := by
  rintro ⟨compare, h⟩
  have hmerged : (countStore (.filter Pipeline.nicknames Pipeline.isNone)).Yields
      .nullableIntegers (Pipeline.peopleOf [(none, 30)]) ⟨0⟩ _ :=
    .ofTable (t := ⟨0⟩) (by decide +kernel)
  have hinner : (countStore (.filter (.take Pipeline.nicknames 100) Pipeline.isNone)).Yields
      .nullableIntegers (Pipeline.peopleOf [(none, 30)]) ⟨0⟩ _ :=
    .ofTable (t := ⟨0⟩) (by decide +kernel)
  have hnested := hinner.ofQuery (q := ⟨1⟩) (by decide +kernel)
  have hone := (h _ List.mem_cons_self).results_eq (by decide +kernel)
    ⟨by decide +kernel, _, hmerged, show _ = [[some 1]] by decide +kernel⟩
  have hzero := (h _ (List.mem_cons_of_mem _ List.mem_cons_self)).results_eq (by decide +kernel)
    ⟨by decide +kernel, _, hnested, show _ = [[some 0]] by decide +kernel⟩
  simp only [List.cons.injEq, Option.some.injEq, and_true] at hone hzero
  have htrue : 1 = _ := (Nat.cast_inj.mp hone).trans (Pipeline.length_keep_isNone compare)
  have hfalse : 0 = _ := (Nat.cast_inj.mp hzero).trans (Pipeline.length_keep_isNone compare)
  exact absurd (htrue.trans hfalse.symm) (by decide)

end Aggregation

end SqlCompiler
