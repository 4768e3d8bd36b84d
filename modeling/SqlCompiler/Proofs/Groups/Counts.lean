import SqlCompiler.Proofs.Columns.Agreement
import SqlCompiler.Proofs.Columns.Rules
import SqlCompiler.Proofs.Groups.Legalization
import SqlCompiler.Proofs.Lowering.Sequences
import SqlCompiler.Proofs.Normalization.NormalForms
import SqlCompiler.Proofs.Semantics.Rows

/-!
# One row for each key

Grouping adds the scalars of the key to the query of the source, and nothing else about that query
changes: one whose rows are fixed already, or that has groups, is wrapped first.

The printed query of a grouping has one row for each key of the rows of its source, unless every
scalar of the key is a constant: constants are not printed, so that nothing is left to group by.
Then the query has one row also for an empty source if it computes an aggregate, and else a row
for every row of the source.

Main results:

- Definition `groupedSource`, `makeGroups`: grouping in two parts, before and after the key is
  known.
- Theorem `lowererWithin_groups`: the query of a lowered grouping is that of its source, with the
  scalars of the key as the items of its `GROUP BY` clause.
- Definition `Store.RendersGroups`: a query is printed as the groups of a source by a key.
- Theorem `Compiler.groups_rendered`: the query of a compiled grouping is printed so.
-/

namespace SqlCompiler

open Store (At Bare Open Active Fits Lasting Structural)
open LowerM LowerM.Triple

variable {s s' : Store} {X : QueryRef → Prop} {lowered : Lowered} {l : Lowerer}
  {ctx : LowerContext} {st st' : LowerState}

/-! ## The source of a grouping -/

/-- What is grouped and the key, before there are groups. -/
def groupedSource (l : Lowerer) (c : CallSite) : LowerM (Lowered × Projection) := do
  let lowered ← LowerM.wrapIf (fun q => q.hasFixedRows || q.isGrouped) (← c.lowerSource l)
  let selector ← c.arg 1
  let key ← l.applyProjection selector [lowered.projection] lowered.query
  if key.isComputedKey && key.isSelectedFrom lowered.projection then
    let wrapped ← LowerM.wrap lowered
    return (wrapped, ← l.applyProjection selector [wrapped.projection] wrapped.query)
  else return (lowered, key)

theorem lowerGroupBy_eq (l : Lowerer) (c : CallSite) :
    lowerGroupBy l c = (do
      let r ← groupedSource l c
      makeGroups l c r.1 r.2) := by
  simp only [lowerGroupBy, groupedSource, bind_assoc]
  refine bind_congr fun source => bind_congr fun lowered => bind_congr fun selector =>
    bind_congr fun key => ?_
  split
  · simp only [bind_assoc, pure_bind]
    rfl
  · simp only [pure_bind]
    rfl

/-- A lowered sequence whose query has all the rows of its source that meet its condition. -/
structure Lowered.Unfixed (lowered : Lowered) (s : Store) : Prop extends lowered.Ungrouped s where
  unfixed : (s.query lowered.query).hasFixedRows = false

instance : Lasting lowered.Unfixed :=
  ⟨fun h hs => ⟨Lasting.keeps h hs.toUngrouped, by rw [h.query _ hs.bare.valid, hs.unfixed]⟩⟩

/-- The query around a wrapped one has no clauses. -/
theorem LowerM.Gives.query_wrap {wrapped : Lowered}
    (hq : lowered.query.index < st.store.queries.size)
    (h : (LowerM.wrap lowered).Gives ctx st wrapped st') :
    ∃ parent, st'.store.query wrapped.query = { parent, sources := [.ofQuery lowered.query] } := by
  obtain ⟨s, _, hstore, h⟩ := h.of_bind
  cases hstore
  obtain ⟨outer, _, houter, h⟩ := h.of_bind
  cases houter
  obtain ⟨_, _, hinner, h⟩ := h.of_bind
  cases hinner
  obtain ⟨_, _, hsource, h⟩ := h.of_bind
  cases hsource
  obtain ⟨projection, st₁, hexpose, h⟩ := h.of_bind
  cases h
  refine ⟨(st.store.query lowered.query).parent, ?_⟩
  have hvalid : lowered.query.index <
      (st.store.wrapped lowered.query ⟨st.store.queries.size⟩
        (st.store.query lowered.query).parent).queries.size := by
    rw [Store.size_wrapped]
    omega
  have hwidens := LowerM.Widens.expose lowered.projection _ hvalid _ _ _ (.refl _ _ _) hexpose
  have hne : (⟨st.store.queries.size⟩ : QueryRef) ≠ lowered.query := fun heq => by
    rw [← heq] at hq
    exact Nat.lt_irrefl _ hq
  exact (hwidens.query _ hne).trans (Store.query_wrapped_outer hq rfl)

theorem LowerM.Triple.wrapUnfixed :
    Triple ctx (At X lowered.Selected) (LowerM.wrap lowered) fun wrapped =>
      At X wrapped.Unfixed := by
  intro st wrapped st' hs h
  obtain ⟨parent, hquery⟩ := h.query_wrap hs.2.active.valid
  obtain ⟨hsound, hungrouped⟩ := wrapUngrouped st wrapped st' hs h
  refine ⟨hsound, hungrouped, ?_⟩
  rw [hquery]
  rfl

theorem LowerM.Triple.wrapIfFixed : Triple ctx (At X lowered.Selected)
    (LowerM.wrapIf (fun q => q.hasFixedRows || q.isGrouped) lowered) fun wrapped =>
      At X wrapped.Unfixed :=
  wrapUnlessPlain wrapUnfixed fun _ hs hfixed => ⟨hs.1, hs.2, hfixed⟩

/-- What is grouped has no groups yet, and none of its rows is left out. -/
theorem groupedSource_unfixed (h : l.Sound) (c : CallSite) :
    Triple ctx (Store.Sound X) (groupedSource l c) fun r => At X r.1.Unfixed := by
  refine (h.lowerSource c).bind fun source => wrapIfFixed.bind fun lowered =>
    (arg c 1).bind fun selector => (h.applyProjection selector _ _).bind fun key => ite ?_ ?_
  · refine (wrapUnfixed.pre fun _ hs => ?_).bind fun wrapped =>
      (h.applyProjection selector _ _).bind fun key => pure fun _ hs => hs
    exact hs.mono fun hs => hs.toPlain.selected
  · exact pure fun _ hs => hs

/-! ## The query of a grouping -/

/-- A bare query that has given clauses. -/
structure Store.Has (q : QueryRef) (query : Query) (s : Store) : Prop extends Bare q s where
  query : s.query q = query

instance {q : QueryRef} {query : Query} : Lasting (Store.Has q query) :=
  ⟨fun h hs => ⟨Lasting.keeps h hs.toBare, (h.query q hs.valid).trans hs.query⟩⟩

/-- A query with the scalars of a key as its groups. -/
def Query.groupedBy (query : Query) (key : Projection) : Query :=
  { query with grouping := ⟨.plain, key.scalars⟩ }

/-- A lowered sequence of groups of a query. -/
structure Lowered.Groups (lowered : Lowered) (q : QueryRef) (query : Query) (s : Store) :
    Prop where
  outcome : lowered.outcome = .sequence
  same : lowered.query = q
  has : s.Has q query

/-- Making groups changes nothing but the groups of a query. -/
theorem makeGroups_groups (h : l.Sound) (c : CallSite) {source : Lowered} {query : Query}
    (key : Projection) (hkind : query.grouping.kind = .plain)
    (houtcome : source.outcome = .sequence) :
    Triple ctx (At X fun s => source.Ungrouped s ∧ s.Has source.query query)
      (makeGroups l c source key) fun grouped =>
        At X (grouped.Groups source.query (query.groupedBy key)) := by
  have hgroup : Triple ctx (At X fun s => source.Ungrouped s ∧ s.Has source.query query)
      (LowerM.modifyQuery source.query fun q =>
        { q with grouping := { q.grouping with items := key.scalars } })
      fun _ => At X (Store.Has source.query (query.groupedBy key)) := by
    intro st _ st' hs hgives
    have hgrouped := group key.scalars st _ st' ⟨hs.1, hs.2.1⟩ hgives
    cases hgives
    refine ⟨hgrouped.1, hgrouped.2.bare, ?_⟩
    rw [Store.query_modifyQuery_self hs.2.2.valid, hs.2.2.query, Query.groupedBy]
    dsimp only
    rw [hkind]
  have hend : ∀ projection : Projection,
      Triple ctx (At X (Store.Has source.query (query.groupedBy key)))
        (Pure.pure { source with projection }) fun grouped : Lowered =>
          At X (grouped.Groups source.query (query.groupedBy key)) := fun _ =>
    pure fun _ hs => ⟨hs.1, houtcome, rfl, hs.2⟩
  unfold makeGroups
  dsimp only
  split
  all_goals
    refine bind (Q := fun _ => At X fun s => source.Ungrouped s ∧ s.Has source.query query) ?_
      fun element => hgroup.bind fun _ => ?_
    · first
      | exact h.applyProjection _ _ _
      | exact done _
    · split
      · exact (h.applyProjection _ _ _).bind hend
      · exact hend _

/-! ## Terms that group -/

/-- The arguments of the grouping that a term ends in, apart from what is selected of the
groups. -/
def Term.groupArgs? : Term → Option (List Term)
  | .call .groupBy args => some args
  | .call .select [source, _] => source.groupArgs?
  | _ => none

namespace Term

/-- A step gives terms with a property. -/
def NameM.Gives (P : Term → Prop) (step : NameM Term) : Prop :=
  ∀ n t n', step.run n = some (t, n') → P t

theorem NameM.Gives.pure {P : Term → Prop} {t : Term} (h : P t) :
    NameM.Gives P (Pure.pure t) := by
  intro n t' n' hrun
  cases hrun
  exact h

theorem NameM.Gives.bind {α : Type} {P : Term → Prop} {step : NameM α} {next : α → NameM Term}
    (h : ∀ n a n', step.run n = some (a, n') → NameM.Gives P (next a)) :
    NameM.Gives P (step >>= next) := by
  intro n t n' hrun
  rw [StateT.run_bind] at hrun
  obtain ⟨⟨a, n₁⟩, hstep, hnext⟩ := Option.bind_eq_some_iff.mp hrun
  exact h n a n₁ hstep n₁ t n' hnext

/-- A term that groups, apart from what is selected of the groups. -/
def Groups (t : Term) : Prop := t.groupArgs?.isSome = true

/-- A grouping whose key is selected first is a grouping, whose result is selected afterwards. -/
theorem groups_selectKeyFirst (source key : Term) (param : String)
    (rest : List (List String × Term)) :
    (source.selectKeyFirst (([param], key) :: rest)).Gives Groups := by
  unfold selectKeyFirst
  dsimp only
  refine .bind fun n group n' _ => ?_
  split
  · exact .bind fun _ _ _ _ => .pure rfl
  · exact .pure rfl

/-- Every rule that applies to a grouping makes a grouping of it. -/
theorem groups_step {t : Term} (h : t.Groups) {step : NameM Term} (hstep : t.step? = some step) :
    step.Gives Groups := by
  unfold Groups at h
  fun_cases groupArgs? t
  · simp only [step?, callStep?] at hstep
    split at hstep <;> try contradiction
    next source param key rest _ =>
      split at hstep
      · cases hstep
        exact groups_selectKeyFirst source key param _
      · cases hstep
  · next source f =>
    simp only [step?, callStep?, mergeSelects?] at hstep
    split at hstep
    · cases hstep
      exact .pure h
    · cases hstep
  · simp [groupArgs?] at h

theorem groups_normalizeWithin (fuel : Nat) :
    ∀ t : Term, t.Groups → (normalizeWithin fuel t).Gives Groups := by
  induction fuel with
  | zero => exact fun t _ n t' n' h => nomatch h
  | succ fuel ih =>
    intro t h
    have hchildren : (t.mapChildren (normalizeWithin fuel)).Gives Groups := by
      unfold Groups at h
      fun_cases groupArgs? t
      · exact .bind fun _ _ _ _ => .pure rfl
      · next source f =>
        simp only [mapChildren, List.mapM_cons, List.mapM_nil, bind_assoc, pure_bind]
        exact .bind fun n source' n' hsource => .bind fun _ _ _ _ =>
          .pure (ih source h n source' n' hsource)
      · simp [groupArgs?] at h
    refine .bind fun n t' n' hrun => ?_
    have h' := hchildren n t' n' hrun
    split
    · next hstep => exact .bind fun n t n' hrun => ih t (groups_step h' hstep n t n' hrun)
    · exact .pure h'

/-- The normal form of a grouping is a grouping. -/
theorem groups_normalize {t : Term} (h : t.Groups) : t.normalize.Groups := by
  rcases t.normalize_cases with ⟨fuel, n, hrun⟩ | ⟨-, hself⟩
  · exact groups_normalizeWithin fuel t h 0 t.normalize n hrun
  · rw [hself]
    exact h

end Term

/-! ## Lowering -/

/-- A lowered grouping: its query is that of the source, grouped by the key. -/
def Lowered.GroupsOf (lowered : Lowered) (ctx : LowerContext) (st : LowerState) (c : CallSite)
    (X : QueryRef → Prop) (s : Store) : Prop :=
  ∃ fuel source key before,
    (groupedSource (lowererWithin standardRules fuel) c).Gives ctx st (source, key) before ∧
      before.store.At X source.Unfixed ∧
      s.At X (lowered.Groups source.query ((before.store.query source.query).groupedBy key))

theorem lowerGroupBy_groups (fuel : Nat) (c : CallSite) (hs : st.store.Sound X)
    (h : (lowerGroupBy (lowererWithin standardRules fuel) c).Gives ctx st lowered st') :
    lowered.GroupsOf ctx st c X st'.store := by
  rw [lowerGroupBy_eq] at h
  obtain ⟨⟨source, key⟩, before, hsource, hgroups⟩ := h.of_bind
  have hsound := lowererWithin_sound fuel
  have hunfixed := groupedSource_unfixed hsound c st (source, key) before hs hsource
  have hkind := (hunfixed.1.groups _ hunfixed.2.ungrouped).kind
  refine ⟨fuel, source, key, before, hsource, hunfixed, ?_⟩
  exact makeGroups_groups hsound c key hkind hunfixed.2.outcome before lowered st'
    ⟨hunfixed.1, hunfixed.2.toUngrouped, hunfixed.2.bare, rfl⟩ hgroups

/-- A query whose columns are not fixed is not wrapped before its groups are selected from. -/
theorem selectGroups (h : l.Sound) {q : QueryRef} {query : Query}
    (hfixed : query.hasFixedColumns = false) (c : CallSite) :
    Triple ctx (At X (lowered.Groups q query)) (do
      let lowered ← LowerM.wrapIf Query.hasFixedColumns lowered
      let projection ← l.applyProjection (← c.arg 1) [lowered.projection] lowered.query
      return { lowered with projection }) fun selected => At X (selected.Groups q query) := by
  refine knowing (fun s hs => hs.2.same) fun hsame => ?_
  refine bind (Q := fun wrapped => At X fun s => wrapped = lowered ∧ lowered.Groups q query s) ?_
    fun wrapped => assume fun heq => ?_
  · refine storeAt fun s hs => ?_
    rw [hsame, hs.2.has.query, hfixed]
    exact pure fun s' heq => heq ▸ ⟨hs.1, rfl, hs.2⟩
  · subst heq
    refine knowing (fun s hs => hs.2.outcome) fun houtcome => (arg c 1).bind fun f =>
      bind (Q := fun _ => At X (Store.Has q query)) ?_ fun _ =>
        pure fun _ hs => ⟨hs.1, houtcome, hsame, hs.2⟩
    exact (h.applyProjection (F := Store.Has q query) f _ _).pre fun _ hs => hs.mono (·.has)

/-- What is selected of groups leaves them alone. -/
theorem selectRule_groups (h : l.Sound) {source f : Term} {parent : Option QueryRef}
    {c : CallSite}
    (hsource : ∀ lowered st', (l.sequence source parent).Gives ctx st lowered st' →
      lowered.GroupsOf ctx st c X st'.store)
    (hselect : (selectRule.lower l (.call .select [source, f]) parent).Gives ctx st lowered st') :
    lowered.GroupsOf ctx st c X st'.store := by
  obtain ⟨_, _, hinner, hselect⟩ := hselect.of_bind
  obtain ⟨_, st₁, hsequence, hcheck⟩ := hinner.of_bind
  obtain ⟨fuel, grouped, key, before, hbefore, hunfixed, hgroups⟩ := hsource _ _ hsequence
  refine ⟨fuel, grouped, key, before, hbefore, hunfixed, ?_⟩
  have hfixed : ((before.store.query grouped.query).groupedBy key).hasFixedColumns = false := by
    have hrows := hunfixed.2.unfixed
    simp only [Query.hasFixedRows, Bool.or_eq_false_iff] at hrows
    simp [Query.hasFixedColumns, Query.groupedBy, Query.hasSetOperators] at hrows ⊢
    exact ⟨hrows.1.2, hrows.2⟩
  obtain ⟨_, _, hchecked, hreturn⟩ := hcheck.of_bind
  cases hreturn
  have hgroups' := checkSequence _ source _ st₁ _ _ hgroups hchecked
  exact selectGroups h hfixed _ _ lowered st' hgroups'.2 hselect

/-- A term that groups is lowered to the groups of the query of its source. -/
theorem lowererWithin_groups (fuel : Nat) : ∀ (t : Term) {args : List Term}
    (_ : t.groupArgs? = some args) (parent : Option QueryRef) (lowered : Lowered)
    (st st' : LowerState) (_ : st.store.Sound X)
    (_ : ((lowererWithin standardRules fuel).sequence t parent).Gives ctx st lowered st'),
      lowered.GroupsOf ctx st ⟨.groupBy, args, parent⟩ X st'.store := by
  induction fuel with
  | zero => exact fun _ _ _ _ _ _ _ _ h => nomatch h
  | succ fuel ih =>
    intro t args hgroup parent lowered st st' hs h
    obtain ⟨rule, hrule, st₁, hlower, hstore⟩ := LowerM.Gives.of_dispatch h
    rw [hstore]
    fun_cases Term.groupArgs? t
    · next args' =>
      cases hgroup
      have honly : standardRules.filter (·.accepts (.call .groupBy args)) = [groupByRule] := rfl
      rw [honly, List.mem_singleton] at hrule
      subst hrule
      exact lowerGroupBy_groups fuel _ hs hlower
    · next source f =>
      have honly : standardRules.filter (·.accepts (.call .select [source, f])) =
        [selectRule] := rfl
      rw [honly, List.mem_singleton] at hrule
      subst hrule
      exact selectRule_groups (lowererWithin_sound fuel)
        (fun lowered st' => ih source hgroup parent lowered st st' hs) hlower
    · simp [Term.groupArgs?] at hgroup

open Store (At Bare)
open LowerM LowerM.Triple

variable {s s' : Store} {q : QueryRef} {X : QueryRef → Prop} {lowered : Lowered}
  {ctx : LowerContext}

/-! ## Statements -/

/-- Adding columns changes no clause. -/
theorem Store.Grows.sameClauses {E : Scalar → Prop} (h : s.Grows E q s') :
    (s.query q).SameClauses (s'.query q) := by
  obtain ⟨new, hquery, -⟩ := h.added
  rw [hquery]
  exact ⟨rfl, rfl, rfl, rfl, rfl, rfl, rfl, rfl⟩

/-- A statement that selects from a bare query with given clauses. -/
structure Statement.Selects (statement : Statement) (q : QueryRef) (query : Query) (s : Store) :
    Prop where
  body : statement.body = .select
  same : statement.query = q
  bare : s.Bare q
  clauses : query.SameClauses (s.query q)

/-- The statement of a sequence of groups selects from their query. -/
theorem toStatement_groups {query : Query} :
    Triple ctx (At X (lowered.Groups q query)) lowered.toStatement fun r =>
      r.1.Selects q query := by
  refine ofStores fun s hs => ?_
  obtain ⟨houtcome, hsame, hhas⟩ := hs.2
  have hwidens : Triple ctx (s.Widens lowered.query)
      (LowerM.selectProjection lowered.query lowered.projection) fun _ => s.Widens lowered.query :=
    Widens.selectProjection lowered.query lowered.projection s (hsame ▸ hhas.valid)
  have hclose : Triple ctx (fun s' => s' = s) lowered.close fun r s' =>
      r.1 = .select ∧ s.Widens lowered.query s' := by
    unfold Lowered.close
    rw [houtcome]
    exact (hwidens.pre fun s' (heq : s' = s) => heq ▸ .refl _ _ _).bind fun columns =>
      pure fun s' hgrows => ⟨rfl, hgrows⟩
  refine hclose.bind fun (body, shape) => get fun st => pure fun s' ⟨hbody, hgrows⟩ =>
    ⟨hbody, hsame, hhas.toBare.grows hgrows, ?_⟩
  subst hsame
  rw [← hhas.query]
  exact hgrows.sameClauses

theorem Store.statements_pruneColumns (s : Store) (t : StatementRef) :
    (s.pruneColumns t).statements = s.statements := by
  have hquery : ∀ (used : List ColumnRef) (s : Store) (r : QueryRef),
      (s.pruneQuery used r).statements = s.statements := by
    intro used s r
    unfold pruneQuery
    dsimp only
    split <;> rfl
  exact pruneColumns_of_queries (R := fun s s' => s'.statements = s.statements) t (fun _ => rfl)
    (fun h h' => h'.trans h) hquery s

/-- The query of a selecting statement keeps its clauses up to their legal forms while columns are
dropped and the statement is legalized. -/
theorem Statement.Selects.legalized {statement : Statement} {query : Query}
    (h : statement.Selects q query s) (hpaging : query.hasPagination = false) (p : Provider) :
    ∃ final current depth,
      (legalizeStatement p (s.addStatement statement).1).runOn
        ((s.addStatement statement).2.pruneColumns (s.addStatement statement).1) =
          (.ok (), final) ∧
      ((Store.legalizerWithin current p depth).query query).SameClauses (final.query q) := by
  obtain ⟨hbody, rfl, hbare, hclauses⟩ := h
  generalize hpruned : (s.addStatement statement).2.pruneColumns (s.addStatement statement).1 = pruned
  have hadd : s.Prunes (s.addStatement statement).2 :=
    ⟨rfl, rfl, fun _ => rfl, fun _ => rfl, fun _ _ => rfl⟩
  have hprunes : s.Prunes pruned := by
    rw [← hpruned]
    exact hadd.trans (Store.prunes_pruneColumns _ _)
  have hadded : pruned.statement (s.addStatement statement).1 = statement := by
    rw [← hpruned, Store.statement, Store.statements_pruneColumns]
    simp [Store.addStatement]
  have hquery := hprunes.kept statement.query (.inr hbare.not_subquery)
  obtain ⟨final, current, depth, hlegal, hfinal⟩ := Store.sameClauses_legalized p
    (s.addStatement statement).1 (by rw [hadded]; exact hbody)
    (by rw [hadded, hprunes.size]; exact hbare.valid)
    (by rw [hadded, hquery, Query.hasPagination, hclauses.take, hclauses.skip]; exact hpaging)
  rw [hadded, hquery] at hfinal
  exact ⟨final, current, depth, hlegal, (hclauses.transform _).trans hfinal⟩

/-! ## Rendered groups -/

/-- A query is printed as the groups of a source by a key, of which the legal forms stand in its
`GROUP BY` clause, if one of these is no constant. -/
structure Store.RendersGroups (s : Store) (q : QueryRef) (source : Query) (key : Projection)
    (legal : Transformer) : Prop where
  unfixed : source.hasFixedRows = false
  having : source.having.isEmpty = true
  clauses : (legal.query (source.groupedBy key)).SameClauses (s.query q)
  printed : ∀ next, printQueryBody next (s.query q) = printQueryBody next (s.query q).asPrinted
  blocks : ∀ {Row V : Type} [DecidableEq V] (M : Meaning Row V),
    (∀ e ∈ key.scalars, M.value (legal.scalar e) = M.value e) →
    (∃ e ∈ key.scalars, isConstantItem (legal.scalar e) = false) →
      ∀ rows, M.blocks s (s.query q).asPrinted rows = groupsBy (M.tuple key.scalars) rows
  counts : ∀ {Row V : Type} [Inhabited Row] [DecidableEq V] (M : Meaning Row V),
    (∀ e ∈ key.scalars, M.value (legal.scalar e) = M.value e) →
      ((∀ rows, (M.blocks s (s.query q).asPrinted rows).length =
          (rows.map (M.tuple key.scalars)).toFinset.card) ↔
        ∃ e ∈ key.scalars, isConstantItem (legal.scalar e) = false)

/-- The legal forms of some scalars have the values of these. -/
theorem Meaning.tuple_legal {Row V : Type} {M : Meaning Row V} {legal : Transformer}
    {items : List Scalar} (h : ∀ e ∈ items, M.value (legal.scalar e) = M.value e) :
    M.tuple (legal.scalars items) = M.tuple items := by
  funext ρ
  rw [Meaning.tuple, Meaning.tuple, Transformer.scalars_eq_map, List.map_map]
  exact List.map_congr_left fun e he => congrFun (h e he) ρ

theorem Store.rendersGroups {source : Query} {key : Projection} {legal : Transformer}
    (hunfixed : source.hasFixedRows = false) (hhaving : source.having.isEmpty = true)
    (hclauses : (legal.query (source.groupedBy key)).SameClauses (s.query q)) :
    s.RendersGroups q source key legal := by
  have hitems : (s.query q).grouping.items = legal.scalars key.scalars := by
    rw [hclauses.grouping]
    rfl
  have hprinted : (∃ item ∈ (s.query q).grouping.items, isConstantItem item = false) ↔
      ∃ e ∈ key.scalars, isConstantItem (legal.scalar e) = false := by
    simp [hitems, Transformer.scalars_eq_map]
  refine ⟨hunfixed, hhaving, hclauses, fun next => (printQueryBody_asPrinted next _).symm,
    fun M hvalue hconstant rows => ?_, fun M hvalue => ?_⟩
  · rw [Meaning.blocks_asPrinted (hprinted.mpr hconstant), hitems, Meaning.tuple_legal hvalue]
  · rw [← hprinted, ← Meaning.blocks_asPrinted_iff (M := M) (s := s), hitems,
      Meaning.tuple_legal hvalue]

/-- The statement of a grouping renders the groups of the query of its source by the key. -/
def Statement.RendersGroups (statement : Statement) (c : Compiler) (r : Ranking) (t : Term)
    (s : Store) : Prop :=
  ∃ args fuel source key before current depth final,
    t.groupArgs? = some args ∧
      (groupedSource (lowererWithin standardRules fuel) ⟨.groupBy, args, none⟩).Gives
        { schema := c.schema, provider := c.provider } { ranking := r } (source, key) before ∧
      source.query = statement.query ∧
      (legalizeStatement c.provider (s.addStatement statement).1).runOn
        ((s.addStatement statement).2.pruneColumns (s.addStatement statement).1) =
          (.ok (), final) ∧
      final.RendersGroups statement.query (before.store.query source.query) key
        (Store.legalizerWithin current c.provider depth)

/-- A compiled grouping has one row for each key of the rows of its source if and only if the
legal form of some scalar of the key is no constant. -/
theorem Compiler.groups_rendered (c : Compiler) (hrules : c.rules = standardRules) (r : Ranking)
    {t : Term} (hgroup : t.Groups) {statement : Statement} {shape : ResultShape}
    {state : LowerState}
    (h : c.runLowering r (do (← lowerSequence c.rules t.normalize).toStatement) =
      (.ok (statement, shape), state)) :
    statement.RendersGroups c r t.normalize state.store := by
  rw [hrules] at h
  obtain ⟨args, hargs⟩ := Option.isSome_iff_exists.mp (Term.groups_normalize hgroup)
  have hgives : LowerM.Gives (do (← lowerSequence standardRules t.normalize).toStatement)
      { schema := c.schema, provider := c.provider } { ranking := r } (statement, shape) state := h
  obtain ⟨lowered, st₁, hsequence, hstatement⟩ := hgives.of_bind
  obtain ⟨fuel, source, key, before, hbefore, hunfixed, hgroups⟩ :=
    lowererWithin_groups (X := fun _ => False) _ _ hargs none lowered _ _
      (Store.sound_empty _) hsequence
  have hselects := toStatement_groups st₁ (statement, shape) state hgroups hstatement
  have hunpaged : (before.store.query source.query).hasPagination = false :=
    (Bool.or_eq_false_iff.mp (Bool.or_eq_false_iff.mp hunfixed.2.unfixed).1).1
  obtain ⟨final, current, depth, hlegal, hfinal⟩ := hselects.legalized hunpaged c.provider
  have hsame : source.query = statement.query := hselects.same.symm
  refine ⟨args, fuel, source, key, before, current, depth, final, hargs, hbefore, hsame, hlegal, ?_⟩
  exact Store.rendersGroups hunfixed.2.unfixed
    (hunfixed.1.groups _ hunfixed.2.ungrouped).having (hsame ▸ hfinal)

/-- People by their age. -/
def Term.peopleByAge : Term :=
  (Term.table "Person").apply .groupBy [.fn "p" (.member (.bound "p") "Age"),
    .fn "p" (.member (.bound "p") "Age"), .lambda ["k", "g"] (.record [("Age", .bound "k")])]

theorem Term.normalize_peopleByAge : Term.peopleByAge.normalize = .peopleByAge :=
  NormalizesTo.normalize ⟨10, 0, rfl⟩

/-- The ages of people are grouped by a field. -/
theorem Compiler.groups_rendered_peopleByAge :
    ∃ statement shape state,
      Compiler.ofPeople.runLowering (.asGiven standardRules)
        (do (← lowerSequence standardRules Term.peopleByAge.normalize).toStatement) =
          (.ok (statement, shape), state) ∧
      statement.RendersGroups Compiler.ofPeople (.asGiven standardRules)
        Term.peopleByAge.normalize state.store ∧
      (state.store.query statement.query).grouping.printed.length = 1 := by
  let printed (run : Except SqlError (Statement × ResultShape) × LowerState) : Option Nat :=
    run.1.toOption.map fun r => (run.2.store.query r.1.query).grouping.printed.length
  have hprinted : printed (Compiler.ofPeople.runLowering (.asGiven standardRules)
      (do (← lowerSequence standardRules Term.peopleByAge.normalize).toStatement)) = some 1 := by
    rw [Term.normalize_peopleByAge]
    decide +kernel
  cases hrun : Compiler.ofPeople.runLowering (.asGiven standardRules)
      (do (← lowerSequence standardRules Term.peopleByAge.normalize).toStatement) with
  | mk result state =>
    rw [hrun] at hprinted
    cases result with
    | error e => cases hprinted
    | ok r =>
      exact ⟨r.1, r.2, state, rfl, Compiler.ofPeople.groups_rendered (t := .peopleByAge) rfl _ rfl hrun,
        Option.some.inj hprinted⟩

end SqlCompiler
