import Mathlib.Data.List.Nodup
import SqlCompiler.Proofs.Columns.Outcomes

/-!
# The rules keep column counts

A rule that adds a column to a query wraps one that has set operators first, and a column that is
read from outside is one of those that are there.  Only the branches of a multi-table insert add
columns to a query as it stands.

Main results:

- Definition `Rule.Sound`: a rule keeps stores sound if its lowerer does.
- Theorem `standardRules_sound`: the standard rules do.
- Theorem `lowererWithin_sound`: lowering by the standard rules keeps stores sound.
-/

namespace SqlCompiler

open Store (At Bare Open Active Fits Lasting Structural)
open LowerM LowerM.Triple

variable {s s' : Store} {q : QueryRef} {X : QueryRef → Prop} {F G : Store → Prop}
  {lowered : Lowered} {l : Lowerer} {ctx : LowerContext}

/-- A rule keeps stores sound if its lowerer does. -/
def Rule.Sound (rule : Rule) : Prop :=
  ∀ l : Lowerer, l.Sound → ∀ ctx X t parent,
    Triple ctx (Store.Sound X) (rule.lower l t parent) (Lowered.Finished X)

/-- A rule for calls keeps stores sound if it does at every call. -/
theorem Rule.sound_ofCall {name : String} {accepts : SequenceOperator → List Term → Bool}
    {lower : Lowerer → CallSite → LowerM Lowered}
    (hlower : ∀ l : Lowerer, l.Sound → ∀ ctx X c,
      Triple ctx (Store.Sound X) (lower l c) (Lowered.Finished X)) :
    (Rule.ofCall name accepts lower).Sound := by
  intro l h ctx X t parent
  unfold Rule.ofCall
  dsimp only
  split
  · exact hlower l h ctx X _
  · exact refuse _ _

/-! ## Tables -/

theorem narrow_sound (t : TableRef) (typeName : String) :
    Triple ctx (At X lowered.Plain) (LowerM.narrow lowered t typeName) fun narrowed =>
      At X narrowed.Plain := by
  refine store fun _ => checked.bind fun _ => (Triple.addWhere _).bind fun _ => ?_
  split
  · exact pure fun _ hs => ⟨hs.1, hs.2.outcome, hs.2.bare⟩
  · exact pure fun _ hs => hs

theorem readType_sound (name : String) (parent : Option QueryRef) :
    Triple ctx (At X fun _ => True) (LowerM.readType name parent) fun lowered =>
      At X lowered.Plain := by
  refine read (checked.bind fun (found, subtype) => checked.bind fun entity => ?_)
  have hread : Triple ctx (At X fun _ => True) (LowerM.readEntity entity parent) fun r =>
      At X r.1.Plain :=
    (instantiate entity).bind fun t => (Triple.newQuery parent).bind fun q =>
      bind (Q := fun _ => At X (Bare q)) ((addTableSource t).pre fun _ hs => ⟨hs.1, hs.2.1.toBare⟩)
        fun _ => store fun _ => pure fun _ hs => ⟨hs.1, rfl, hs.2⟩
  refine hread.bind fun (lowered, t) => ?_
  exact ite (narrow_sound t name) (pure fun _ hs => hs)

theorem tableRule_sound : tableRule.Sound := by
  intro l _ ctx X t parent
  unfold tableRule
  dsimp only
  split
  · exact (alone (readType_sound _ parent)).post fun _ _ => Lowered.Plain.finished
  · exact refuse _ _

theorem ofTypeRule_sound : ofTypeRule.Sound :=
  Rule.sound_ofCall fun l h ctx X c => by
    split
    · refine (h.lowerSource c).bind fun lowered => ?_
      split
      · refine ite (pure fun _ => Lowered.Selected.finished) ?_
        exact (wrapIf fun _ => Query.hasFixedRows_of_sides).bind fun _ =>
          (narrow_sound _ _).post fun _ _ => Lowered.Plain.finished
      · exact refuseSite c _
    · exact refuseSite c _

theorem valuesRule_sound : valuesRule.Sound := by
  intro l _ ctx X t parent
  unfold valuesRule
  dsimp only
  split
  · refine alone ((addTable _ _).bind fun t => (Triple.newQuery parent).bind fun q =>
      bind (Q := fun _ => At X (Bare q)) ((addTableSource t).pre fun _ hs => ⟨hs.1, hs.2.1.toBare⟩)
        fun _ => store fun _ => pure fun _ hs => Lowered.Plain.finished ⟨hs.1, rfl, hs.2⟩)
  · exact refuse _ _

/-! ## Clauses -/

theorem whereRule_sound : whereRule.Sound :=
  Rule.sound_ofCall fun _ h _ _ c => (h.lowerSource c).bind fun _ => (arg c 1).bind fun f =>
    (h.filter f false).post fun _ _ => Lowered.Plain.finished

theorem selectRule_sound : selectRule.Sound :=
  Rule.sound_ofCall fun _ h _ _ c => (h.lowerSource c).bind fun _ =>
    (wrapIf fun _ => Query.hasFixedColumns_of_sides).bind fun _ => (arg c 1).bind fun f =>
      (h.applyProjection f _ _).bind fun _ =>
        pure fun _ hs => Lowered.Plain.finished ⟨hs.1, hs.2.outcome, hs.2.bare⟩

theorem lowerOrdering_sound (h : l.Sound) (c : CallSite) (after descending : Bool) :
    Triple ctx (Store.Sound X) (lowerOrdering l c after descending) (Lowered.Finished X) := by
  refine (h.lowerSource c).bind fun source => ?_
  refine iteBind (Q := fun lowered => At X lowered.Selected) (pure fun _ hs => hs)
    ((wrapIf fun _ => Query.hasFixedRows_of_sides).post fun _ _ hs =>
      hs.mono Lowered.Plain.selected) fun lowered => ?_
  refine (arg c 1).bind fun f => (h.applyProjection f _ _).bind fun _ =>
    bind (Q := fun _ => At X lowered.Selected) (modifyClause fun _ => ?_) fun _ =>
      pure fun _ => Lowered.Selected.finished
  exact ⟨rfl, rfl, rfl, rfl, rfl⟩

theorem orderByRule_sound : orderByRule.Sound :=
  Rule.sound_ofCall fun _ h _ _ c => lowerOrdering_sound h c _ _

theorem takeSkipRule_sound : takeSkipRule.Sound := by
  refine Rule.sound_ofCall fun l h ctx X c => (h.lowerSource c).bind fun source =>
    (wrapIf fun _ => Query.isLimited_of_sides).bind fun lowered => (arg c 1).bind fun count =>
      (h.scalarAt count _).bind fun value => bind (Q := fun _ => At X lowered.Plain) ?_
        fun _ => pure fun _ => Lowered.Plain.finished
  refine modifyClause fun query => ?_
  split
  · exact ⟨rfl, rfl, rfl, rfl, rfl⟩
  · split <;> exact ⟨rfl, rfl, rfl, rfl, rfl⟩

/-- A query without groups is grouped by a key. -/
theorem makeGroups_sound (h : l.Sound) (c : CallSite) (lowered : Lowered) (key : Projection) :
    Triple ctx (At X lowered.Ungrouped) (makeGroups l c lowered key) (Lowered.Finished X) := by
  have hend : ∀ projection : Projection, Triple ctx (At X lowered.Plain)
      (Pure.pure { lowered with projection }) (Lowered.Finished X) := fun _ =>
    pure fun _ hs => Lowered.Plain.finished ⟨hs.1, hs.2.outcome, hs.2.bare⟩
  unfold makeGroups
  dsimp only
  split
  all_goals
    refine bind (Q := fun _ => At X lowered.Ungrouped) ?_ fun element =>
      (group key.scalars).bind fun _ => ?_
    · first
      | exact h.applyProjection _ _ _
      | exact done _
    · split
      · exact (h.applyProjection _ _ _).bind hend
      · exact hend _

theorem lowerGroupBy_sound (h : l.Sound) (c : CallSite) :
    Triple ctx (Store.Sound X) (lowerGroupBy l c) (Lowered.Finished X) := by
  refine (h.lowerSource c).bind fun source => wrapIfGrouped.bind fun lowered =>
    (arg c 1).bind fun selector => (h.applyProjection selector _ _).bind fun key => ?_
  refine ite ((wrapUngrouped.pre fun _ hs => ?_).bind fun wrapped =>
    (h.applyProjection selector _ _).bind fun key => makeGroups_sound h c wrapped key)
      (makeGroups_sound h c lowered key)
  exact hs.mono fun hs => hs.toPlain.selected

theorem groupByRule_sound : groupByRule.Sound :=
  Rule.sound_ofCall fun _ h _ _ c => lowerGroupBy_sound h c

theorem distinctRule_sound : distinctRule.Sound :=
  Rule.sound_ofCall fun _ h _ X c => (h.lowerSource c).bind fun _ =>
    (wrapIf fun _ hsides => by simp [Query.hasSetOperators_of_sides hsides]).bind fun lowered =>
      (Widens.materialize _ _).plainAt.bind fun _ => bind (Q := fun _ => At X lowered.Plain)
        (modifyClause fun _ => ⟨rfl, rfl, rfl, rfl, rfl⟩) fun _ =>
          pure fun _ => Lowered.Plain.finished

theorem modifierRule_sound : modifierRule.Sound :=
  Rule.sound_ofCall fun _ h ctx X c => (h.lowerSource c).bind fun lowered => by
    have hclause : ∀ f : Query → Query, (∀ query : Query, query.SameOutline (f query)) →
        Triple ctx (At X lowered.Selected) (do
          LowerM.modifyQuery lowered.query f
          return lowered) (Lowered.Finished X) := fun f hf =>
      (modifyClause hf).bind fun _ => pure fun _ => Lowered.Selected.finished
    have hnote : ∀ f : LowerState → LowerState, (∀ st, (f st).store = st.store) →
        Triple ctx (At X lowered.Selected) (do
          modify f
          return lowered) (Lowered.Finished X) := fun f hf =>
      (modifyState hf).bind fun _ => pure fun _ => Lowered.Selected.finished
    split
    · exact wrapUngrouped.post fun _ _ hs => Lowered.Plain.finished (hs.mono fun hs => hs.toPlain)
    · exact hclause _ fun _ => ⟨rfl, rfl, rfl, rfl, rfl⟩
    · exact hnote _ fun _ => rfl
    · exact hclause _ fun _ => ⟨rfl, rfl, rfl, rfl, rfl⟩
    · exact hnote _ fun _ => rfl
    · exact pure fun _ => Lowered.Selected.finished

/-! ## Joins and set operators -/

/-- The subqueries of a source may come to be read by a query. -/
def Store.Joins (outer : QueryRef) (source : Source) (s : Store) : Prop :=
  ∀ r ∈ source.all.filterMap Source.query?, s.Open r ∧ r ≠ outer

instance {outer : QueryRef} {source : Source} : Lasting (Store.Joins outer source) :=
  ⟨fun h hs r hr => ⟨Lasting.keeps h (hs r hr).1, (hs r hr).2⟩⟩

theorem Store.joins_ofTable {outer : QueryRef} (t : TableRef) :
    s.Joins outer (.ofTable t) := by
  intro r hr
  simp [Source.ofTable, Source.all, Source.joined, Source.query?] at hr

theorem Store.joins_ofQuery {inner outer : QueryRef} (hinner : s.Open inner) (hne : inner ≠ outer) :
    s.Joins outer (.ofQuery inner) := by
  intro r hr
  obtain rfl : inner = r := by
    simpa [Source.ofQuery, Source.all, Source.joined, Source.query?, eq_comm] using hr
  exact ⟨hinner, hne⟩

/-- A subquery whose order does not matter. -/
theorem dropOrder_sameOutline (query : Query) :
    query.SameOutline (if query.hasPagination then query else { query with orderBy := [] }) := by
  split <;> exact ⟨rfl, rfl, rfl, rfl, rfl⟩

/-- The query of a sequence that was lowered for another query is a new one. -/
theorem nestedSequence (h : l.Sound) (outer : QueryRef) (t : Term) :
    Triple ctx (At X (Bare outer)) (l.sequence t (some outer)) fun inner s =>
      inner.outcome.isSequence = true →
        s.At X fun s => inner.query ≠ outer ∧ inner.Selected s ∧ s.Bare outer := by
  refine (h.newSequenceAt (F := Bare outer) (n := outer.index + 1) (fun _ hs => hs.valid) t _).post
    fun inner s ⟨hs, hlt⟩ hsequence => (hs.selected (Outcome.eq_sequence hsequence)).mono fun hF =>
      ⟨fun heq => ?_, hF⟩
  rw [heq] at hlt
  exact absurd hlt (Nat.not_succ_le_self _)

/-- The query of a sequence is read from outside, by another query. -/
theorem exposeApart (inner : Lowered) (outer : QueryRef) :
    Triple ctx (At X fun s => inner.query ≠ outer ∧ inner.Selected s ∧ s.Bare outer)
      (LowerM.expose inner.query inner.projection) fun _ =>
        At X fun s => s.Bare outer ∧ s.Joins outer (.ofQuery inner.query) :=
  exposeAt (fun _ hs => hs.2.1.readable) fun _ _ hwidens ⟨hne, hinner, houter⟩ =>
    ⟨houter.grows hwidens, Store.joins_ofQuery (hinner.active.toOpen.grows hwidens) hne⟩

theorem joinSource_sound (inner : Lowered) (outer : QueryRef) :
    Triple ctx (At X fun s => inner.query ≠ outer ∧ inner.Selected s ∧ s.Bare outer)
      inner.joinSource fun r => At X fun s => s.Bare outer ∧ s.Joins outer r.1 := by
  refine store fun _ => ?_
  dsimp only
  split
  · exact pure fun s hs => ⟨hs.1, hs.2.2.2, Store.joins_ofTable _⟩
  · exact (modifyClause dropOrder_sameOutline).bind fun _ => (exposeApart inner outer).bind fun _ =>
      pure fun _ hs => hs

/-- A source is joined to the first one of a query. -/
theorem addJoin_sound {outer : QueryRef} {first : Source} {rest : List Source} {kind : JoinKind}
    {source : Source} {condition : Condition} (hsound : s.Sound X) (houter : s.Bare outer)
    (hjoins : s.Joins outer source) (hsources : (s.query outer).sources = first :: rest) :
    Triple ctx (fun s' => s' = s) (LowerM.modifyQuery outer fun query => { query with
      sources := { first with joins := first.joins ++ [⟨kind, source, condition⟩] } :: rest })
      fun _ => At X (Bare outer) := by
  refine modifyQuery fun s' heq => ?_
  subst heq
  exact hsound.read houter rfl rfl
    (fun hungrouped => ⟨(hsound.groups _ hungrouped).kind, (hsound.groups _ hungrouped).having⟩)
    fun r hr => ((Query.reads_addJoin _ hsources kind source condition r).mp hr).imp_right (hjoins r)

theorem lowerJoin_sound (h : l.Sound) (c : CallSite) (kind : JoinKind) :
    Triple ctx (Store.Sound X) (lowerJoin l c kind) (Lowered.Finished X) := by
  refine (h.lowerSource c).bind fun _ => wrapIfGrouped.bind fun outer =>
    knowing (fun s hs => hs.2.outcome) fun houtcome => (arg c 1).bind fun _ =>
      (Triple.joinedTerm _ _).bind fun (kind, innerTerm) =>
        bind ((nestedSequence h outer.query innerTerm).pre fun s hs => hs.mono fun hs => hs.bare)
          fun inner => unlessRefused fun hsequence => ?_
  have hsequence : inner.outcome.isSequence = true := by simpa using hsequence
  refine ((joinSource_sound inner outer.query).pre fun s hs => hs hsequence).bind
    fun (source, innerProjection, condition) => ?_
  refine (arg c 2).bind fun _ => (h.applyProjection _ _ _).bind fun outerKey =>
    (arg c 3).bind fun _ => (h.applyProjection _ _ _).bind fun innerKey => unlessRefused fun _ =>
      storeAt fun s hs => ?_
  split
  · exact refused _ _
  · next first rest hsources =>
    exact (addJoin_sound hs.1 hs.2.1 hs.2.2 hsources).bind fun _ => (arg c 4).bind fun _ =>
      (h.applyProjection _ _ _).bind fun _ =>
        pure fun _ hs => Lowered.Plain.finished ⟨hs.1, houtcome, hs.2⟩

theorem joinRule_sound : joinRule.Sound :=
  Rule.sound_ofCall fun _ h _ _ c => by
    split
    · exact lowerJoin_sound h c _
    · exact refuseSite c _

/-- A side that selects as many columns is added to another one. -/
theorem addSide_sound {left right : Lowered} {operation : SetOperation} (hsound : s.Sound X)
    (hleft : left.Side s) (hright : right.Side s) (hne : left.query ≠ right.query)
    (hlength : left.projection.scalars.length = right.projection.scalars.length) :
    (s.modifyQuery left.query fun q =>
      { q with setOperators := q.setOperators ++ [⟨operation, right.query⟩] }).At X left.Side := by
  have hwidth : (s.query right.query).columns.length = (s.query left.query).columns.length := by
    rw [← Store.length_selected, hright.fits.selected, ← hlength, ← hleft.fits.selected,
      Store.length_selected]
  have hsides : ∀ side ∈ (s.query left.query).sides ++ [right.query],
      side.index < s.queries.size ∧
        (s.query side).columns.length = (s.query left.query).columns.length := by
    intro side hside
    rcases List.mem_append.mp hside with hside | hside
    · exact hleft.fits.sides side hside
    · exact List.mem_singleton.mp hside ▸ ⟨hright.active.valid, hwidth⟩
  have hself := Store.query_modifyQuery_self (s := s) (f := fun q =>
    { q with setOperators := q.setOperators ++ [⟨operation, right.query⟩] }) hleft.active.valid
  have hcolumns : ∀ q, ((s.modifyQuery left.query fun q =>
      { q with setOperators := q.setOperators ++ [⟨operation, right.query⟩] }).query q).columns =
        (s.query q).columns := fun q => by
    rcases Store.query_modifyQuery s left.query q fun q =>
      { q with setOperators := q.setOperators ++ [⟨operation, right.query⟩] } with
        ⟨rfl, hquery⟩ | hquery
    · rw [hquery]
    · rw [hquery]
  refine ⟨hsound.addSetOperator hleft.active.valid hright.active.toOpen
    (fun side hside => (hsides side hside).2), hleft.outcome, ⟨⟨?_, fun r hr => ?_⟩,
      fun c hc hparent => ?_⟩, fun c hc => ?_, ?_, fun side hside => ?_⟩
  · rw [Store.size_modifyQuery]
    exact hleft.active.valid
  · rcases Store.query_modifyQuery s left.query r fun q =>
      { q with setOperators := q.setOperators ++ [⟨operation, right.query⟩] } with
        ⟨rfl, hquery⟩ | hquery
    · rw [hquery] at hr
      exact ((Query.reads_addSetOperator _ _ _).mp hr).elim (hleft.active.unread _) hne
    · rw [hquery] at hr
      exact hleft.active.unread r hr
  · rw [hcolumns]
    exact hleft.active.owns c hc hparent
  · rw [hcolumns] at hc
    exact hleft.fits.valid c hc
  · rw [Store.selected, hcolumns]
    exact hleft.fits.selected
  · rw [hself, Query.sides, List.map_append] at hside
    rw [hcolumns, hcolumns, Store.size_modifyQuery]
    exact hsides side hside

theorem lowerSetOperation_sound (h : l.Sound) (c : CallSite) (operation : SetOperation) :
    Triple ctx (Store.Sound X) (lowerSetOperation l c operation) (Lowered.Finished X) := by
  refine (h.lowerSource c).bind fun _ => asSide.bind fun left => ofStores fun s₀ hs₀ =>
    (arg c 1).bind fun rightTerm => ?_
  have hright : Triple ctx (fun s => s = s₀) (l.sequence rightTerm c.parent) fun right s =>
      right.Finished X s ∧ s₀.KeepsBelow s₀.queries.size s ∧ right.Above s₀.queries.size := by
    refine ((h.sequence ctx X rightTerm c.parent).and
      (since s₀ ((h.keeps _).sequence rightTerm c.parent))).pre fun s heq => ?_
    subst heq
    exact ⟨hs₀.1, .refl _ s⟩
  refine hright.bind fun right => ?_
  refine unlessRefused fun hsequence => knowing (fun _ hs => hs.2.2) fun habove => ?_
  have hselected : ∀ s, right.Finished X s ∧ s₀.KeepsBelow s₀.queries.size s ∧
      right.Above s₀.queries.size →
        s.At X right.Selected ∧ s₀.KeepsBelow s₀.queries.size s := fun s hs =>
    ⟨(Store.At.selected (F := fun _ => True) (hs.1.mono fun hdone => ⟨hdone, trivial⟩)
      (Outcome.eq_sequence (by simpa using hsequence))).mono And.left, hs.2.1⟩
  refine ((asSide.and (since s₀ ((LowerM.keeps_bounded _).asSide habove _))).pre hselected).bind fun right =>
    unlessRefused fun hnames => bind (modifyQuery (Q := fun _ => At X left.Side) fun s hs => ?_)
      fun _ => pure fun _ hs => Lowered.Selected.finished (hs.mono Lowered.Side.selected)
  refine addSide_sound hs.1.1 (Lasting.keeps hs.2.1 hs₀.2) hs.1.2 (fun heq => ?_) ?_
  · have hlt := hs₀.2.active.valid
    rw [heq] at hlt
    exact absurd hs.2.2 (Nat.not_le_of_lt hlt)
  · have hnames : left.projection.leaves.map (·.1) = right.projection.leaves.map (·.1) := by
      simpa using hnames
    simpa [Projection.scalars] using congrArg List.length hnames

theorem setOperationRule_sound : setOperationRule.Sound :=
  Rule.sound_ofCall fun _ h _ _ c => by
    split
    · exact lowerSetOperation_sound h c _
    · exact refuseSite c _

/-! ## Ends of sequences -/

theorem firstSingleRule_sound : firstSingleRule.Sound :=
  Rule.sound_ofCall fun _ h _ X c => (h.lowerSource c).bind fun _ => (h.filterIf _).bind fun _ =>
    (wrapIf fun _ => Query.isLimited_of_sides).bind fun lowered =>
      bind (Q := fun _ => At X lowered.Plain) (modifyClause fun _ => ⟨rfl, rfl, rfl, rfl, rfl⟩)
        fun _ => pure fun _ hs => Store.Bare.finished (hs.mono fun hs => hs.bare)
          (.inr ⟨_, _, rfl⟩)

theorem lowerAggregate_sound (h : l.Sound) (c : CallSite) :
    Triple ctx (Store.Sound X) (lowerAggregate l c) (Lowered.Finished X) := by
  refine (h.lowerSource c).bind fun source => ?_
  refine iteBind (Q := fun lowered => At X lowered.Selected) (h.filterIf _) (pure fun _ hs => hs)
    fun _ => wrapIfGrouped.bind fun lowered => ?_
  refine bind (Q := fun _ => At X lowered.Plain)
    ((modifyClause (F := lowered.Plain) fun _ => ?_).pre fun _ hs => ?_) fun _ =>
      (h.aggregateOf c _).bind fun _ => pure fun _ hs => ?_
  · exact ⟨rfl, rfl, rfl, rfl, rfl⟩
  · exact hs.mono fun hs => hs.toPlain
  · exact Store.Bare.finished (hs.mono fun hs => hs.bare) (.inl rfl)

theorem aggregationRule_sound : aggregationRule.Sound :=
  Rule.sound_ofCall fun _ h _ _ c => lowerAggregate_sound h c

/-- The column of a scalar is one of a query, which has each of its columns once. -/
theorem addColumn_nodup {e : Scalar} (hq : q.index < s.queries.size)
    (hvalid : ∀ c ∈ (s.query q).columns, c.index < s.columns.size)
    (hnodup : (s.query q).columns.Nodup) (aliasName : Option String) :
    (s.addColumn q e aliasName).1 ∈ ((s.addColumn q e aliasName).2.query q).columns ∧
      ((s.addColumn q e aliasName).2.query q).columns.Nodup := by
  unfold Store.addColumn
  cases hfound : s.findColumn? q e with
  | some c => exact ⟨List.mem_of_find?_eq_some hfound, hnodup⟩
  | none =>
    refine ⟨Store.mem_columns_addFreshColumn hq e aliasName, ?_⟩
    have hquery : (s.addFreshColumn q e aliasName).2.query q =
        { s.query q with columns := (s.query q).columns ++ [⟨s.columns.size⟩] } :=
      Store.query_modifyQuery_self (s := { s with columns := s.columns.push _ }) hq
    simp only [hquery]
    refine List.nodup_append.mpr ⟨hnodup, List.nodup_singleton _, fun c hc d hd heq => ?_⟩
    rw [List.mem_singleton.mp hd] at heq
    exact absurd (heq ▸ hvalid c hc) (Nat.lt_irrefl _)

/-- A column of a query other than the first one is there. -/
theorem Store.column_lt {c : ColumnRef} (hq : 0 < q.index) (hparent : (s.column c).parent = q) :
    c.index < s.columns.size := by
  by_contra hle
  have hnone : s.column c = default := by
    rw [Store.column, Array.getElem?_eq_none (Nat.le_of_not_lt hle)]
    rfl
  rw [hnone] at hparent
  subst hparent
  exact absurd hq (Nat.lt_irrefl 0)

/-- A column for a scalar is one of the columns of a query that has each of them once. -/
theorem columnFor_mem (hq : 0 < q.index) (hactive : s.Active q)
    (hvalid : ∀ c ∈ (s.query q).columns, c.index < s.columns.size)
    (hnodup : (s.query q).columns.Nodup) (e : Scalar) (path : String) :
    Triple ctx (fun s' => s' = s) (LowerM.columnFor q e path) fun c s' =>
      c ∈ (s'.query q).columns ∧ (s'.query q).columns.Nodup := by
  have hadd : Triple ctx (fun s' => s' = s)
      (LowerM.allocate fun s => s.addColumn q e (Projection.leafAlias path)) fun c s' =>
        c ∈ (s'.query q).columns ∧ (s'.query q).columns.Nodup := by
    refine allocate fun s' heq => ?_
    subst heq
    exact addColumn_nodup hactive.valid hvalid hnodup _
  refine storeAt fun s' heq => ?_
  subst heq
  cases e with
  | column c =>
    dsimp only
    split
    · next hparent =>
      refine pure fun s heq => ?_
      subst heq
      have hparent : (s.column c).parent = q := eq_of_beq hparent
      exact ⟨hactive.owns c (Store.column_lt hq hparent) hparent, hnodup⟩
    · exact hadd
  | _ => exact hadd

/-- A query that selects a single value is made to select it only. -/
theorem selectOnly_fits {p : Projection} {path : String} {e : Scalar} (hq : 0 < q.index)
    (hsound : s.Sound X) (hactive : s.Active q) (hfits : s.Fits q p) (hleaves : p.leaves = [(path, e)]) :
    Triple ctx (fun s' => s' = s) (do
      let column ← LowerM.columnFor q e path
      LowerM.selectOnly q column) fun _ => Store.Sound X := by
  have hselected : s.selected q = [e] := by
    rw [hfits.selected, Projection.scalars, hleaves]
    rfl
  have hlength : (s.query q).columns.length = 1 := by
    rw [← Store.length_selected, hselected]
    rfl
  have hnodup : (s.query q).columns.Nodup := by
    obtain ⟨c, hc⟩ := List.length_eq_one_iff.mp hlength
    rw [hc]
    exact List.nodup_singleton c
  refine (((columnFor_selected hactive.valid hfits.valid
    (hselected ▸ List.mem_singleton_self e) path).and
      (columnFor_mem hq hactive hfits.valid hnodup e path)).pre fun s' heq => ?_).bind fun c =>
        modifyQuery fun s' hs' => ?_
  · subst heq
    exact ⟨⟨.refl _ q _, fun _ => rfl⟩, rfl⟩
  · obtain ⟨⟨hwidens, hsame⟩, hmem, hnodup'⟩ := hs'
    have hsides : ∀ side ∈ (s'.query q).sides, (s'.query side).columns.length = 1 := by
      intro side hside
      rw [(hwidens.outline q).2.1] at hside
      rw [hwidens.query side fun heq => hactive.not_side q (heq ▸ hside),
        (hfits.sides side hside).2, hlength]
    have hone : ((s'.query q).columns.filter (· == c)).length = 1 := by
      rw [← List.countP_eq_length_filter]
      exact List.count_eq_one_of_mem hnodup' hmem
    have hsound' : s'.Sound X := hsound.grows hwidens hactive.valid hactive.not_side
      fun _ hreflexive side hside => by
        rw [(hfits.sides side hside).2, ← Store.length_selected, ← Store.length_selected,
          hsame hreflexive]
    refine hsound'.modifyColumns (hwidens.size ▸ hactive.valid)
      (hactive.toOpen.grows hwidens).not_side (fun columns => columns.filter (· == c))
      (fun d hd => hsound'.columns q d (List.mem_filter.mp hd).1) fun _ _ side hside => ?_
    rw [hsides side hside, hone]

theorem lowerContains_sound (h : l.Sound) (c : CallSite) (outer : QueryRef)
    (hq : 0 < lowered.query.index) :
    Triple ctx (At X lowered.Selected) (lowerContains l c outer lowered) fun _ => Store.Sound X := by
  refine (arg c 1).bind fun t => (h.scalarAt t outer).bind fun item => ?_
  split
  · next path value hleaves =>
    have hselect : Triple ctx (At X lowered.Selected) (do
        let column ← LowerM.columnFor lowered.query value path
        LowerM.selectOnly lowered.query column) fun _ => Store.Sound X := by
      refine ofStores fun s hs => ?_
      rcases hs.2.fits with hsides | hfits
      · refine ((Widens.columnFor value path).bareAt.pre fun s' heq => ?_).bind fun c =>
          selectOnly_sound c
        subst heq
        exact ⟨hs.1, hs.2.active, hsides⟩
      · exact selectOnly_fits hq hs.1 hs.2.active hfits hleaves
    rw [← bind_assoc]
    exact hselect.bind fun _ => pure fun _ hs => hs
  · exact refuseWhole c _

theorem nestedTest_sound (h : l.Sound) (c : CallSite) (outer : QueryRef) (source : Term) :
    Triple ctx (At X fun s => 0 < s.queries.size) (do
      let lowered ← l.sequence source (some outer)
      c.checkSequence source lowered
      match c.operator with
      | .any =>
        let lowered ← lowered.filterIf l c.args[1]?
        return Condition.ofPredicate (.existsIn lowered.query)
      | .all =>
        let lowered ← lowered.filter l (← c.arg 1) true
        return Condition.empty.conjoinNot (.existsIn lowered.query)
      | _ => lowerContains l c outer lowered) fun _ => Store.Sound X := by
  refine (h.newSequenceAt (F := fun s => 0 < s.queries.size) (n := 1) (fun _ hs => hs) source
    _).bind fun lowered => knowing (fun _ hs => hs.2) fun hindex => ?_
  refine ((checkSequence c source lowered).post fun _ s hs =>
    (hs.2.1.selected (X := X) (Outcome.eq_sequence hs.1)).mono And.left).bind fun _ => ?_
  split
  · exact (h.filterIf _).bind fun _ => pure fun _ hs => hs.1
  · exact (arg c 1).bind fun f => (h.filter f true).bind fun _ => pure fun _ hs => hs.1
  · exact lowerContains_sound h c outer hindex

theorem lowerTest_sound (h : l.Sound) (c : CallSite) (outer : QueryRef) :
    Triple ctx (At X fun s => 0 < s.queries.size) (lowerTest l c outer) fun _ =>
      Store.Sound X := by
  refine (arg c 0).bind fun source => ?_
  dsimp only
  split
  · exact (arg c 1).bind fun t => (h.scalarAt t outer).bind fun _ => store fun _ =>
      pure fun _ hs => hs.1
  · exact nestedTest_sound h c outer source

theorem anyAllRule_sound : anyAllRule.Sound := by
  refine Rule.sound_ofCall fun l h ctx X c => alone <|
    (Triple.newQuery c.parent).bind fun q => bind (Q := fun _ => At X (Bare q)) ?_ fun _ =>
      pure fun _ hs => Store.Bare.finished hs (.inl rfl)
  refine (frame (F := Bare q) (fun n => lowerTest_bounded (h.keeps n).bounded c q)
    (lowerTest_sound h c q)).pre fun s hs => ?_
  exact ⟨⟨hs.1, Nat.zero_lt_of_lt hs.2.1.valid⟩, hs.2.1.toBare⟩

/-! ## Inserts -/

/-- A chain of values, the query of which reads nothing. -/
theorem Lowered.finished_insertValues {p : Projection} {into : TableRef} {items : List Assignment}
    (hs : s.At X (Store.Empty q)) : Lowered.Finished X ⟨q, p, .insertValues into items⟩ s :=
  hs.exempt

theorem Lowered.finished_insert {items : List Assignment}
    (hs : s.At X (Store.Supplies items lowered.query)) (c : CallSite) (into : TableRef) :
    (lowered.insert c into items).Finished X s :=
  hs.exempt

/-- A query that reads nothing supplies the values of any insert. -/
theorem Store.Empty.supplies (h : s.Empty q) (items : List Assignment) : s.Supplies items q :=
  ⟨h.toOpen, .inl h.sources⟩

theorem Lowered.Finished.insertValues {into : TableRef} {items : List Assignment}
    (h : lowered.Finished X s) (houtcome : lowered.outcome = .insertValues into items) :
    s.At X (Store.Empty lowered.query) := by
  refine (h.done (by rw [houtcome]; rfl)).mono fun hdone => ?_
  rwa [Lowered.Done, houtcome] at hdone

theorem insertMember_sound (h : l.Sound) (lowered : Lowered) (into : TableRef)
    (items : List Assignment) (member : String) (term : Term) :
    Triple ctx (At X (Store.Empty lowered.query)) (do
      let value ← l.scalar term lowered.query
      let items :=
        match ← LowerM.settableField into member .insert with
        | some f => assign (.toField f value) items
        | none => items
      return { lowered with outcome := .insertValues into items }) (Lowered.Finished X) :=
  (h.scalarAt _ _).bind fun _ => (Triple.settableField into member .insert).bind fun _ =>
    pure fun _ => Lowered.finished_insertValues

theorem lowerValue_sound (h : l.Sound) (c : CallSite) :
    Triple ctx (Store.Sound X) (lowerValue l c) (Lowered.Finished X) := by
  refine (h.lowerFirst c).bind fun lowered => ?_
  split
  · next into items houtcome =>
    refine (arg c 1).bind fun f => checked.bind fun member => (arg c 2).bind fun given => ?_
    refine Triple.pre (P := At X (Store.Empty lowered.query)) ?_ fun s hs => hs.insertValues houtcome
    refine ite ?_ (insertMember_sound h lowered _ _ member given)
    exact checked.bind fun f => insertMember_sound h lowered _ _ member f.2
  · exact refuseWhole c _

/-- An open query without set operators that selects some scalars. -/
structure Store.Lists (q : QueryRef) (values : List Scalar) (s : Store) : Prop extends
    Open q s where
  sides : (s.query q).sides = []
  selected : s.selected q = values

theorem clearColumns_sound : Triple ctx (At X (Bare q))
    (LowerM.modifyQuery q fun query => { query with columns := [] }) fun _ =>
      At X (Store.Lists q []) := by
  refine modifyQuery fun s hs => ?_
  have hsound := hs.1.modifyColumns hs.2.valid hs.2.toOpen.not_side (fun _ => [])
    (fun c hc => (List.not_mem_nil hc).elim) fun _ _ side hside => by
      rw [hs.2.sides] at hside
      cases hside
  have hreads : ∀ r, ((s.modifyQuery q fun query => { query with columns := [] }).query r).reads =
      (s.query r).reads := fun r => by
    rcases Store.query_modifyQuery s q r fun query => { query with columns := [] } with
      ⟨rfl, hquery⟩ | hquery
    · rw [hquery]
      rfl
    · rw [hquery]
  have hself := Store.query_modifyQuery_self (s := s)
    (f := fun query => { query with columns := [] }) hs.2.valid
  refine ⟨hsound, ⟨⟨?_, fun r => hreads r ▸ hs.2.unread r⟩, ?_, ?_⟩⟩
  · rw [Store.size_modifyQuery]
    exact hs.2.valid
  · rw [hself]
    exact hs.2.sides
  · rw [Store.selected, hself]
    rfl

theorem addValue_sound (before : List Scalar) (value : Scalar) :
    Triple ctx (At X (Store.Lists q before))
      (LowerM.allocate fun s => s.addFreshColumn q value none) fun _ =>
        At X (Store.Lists q (before ++ [value])) := by
  refine allocate fun s ⟨hsound, hs⟩ => ?_
  have hgrows := Store.grows_addFreshColumn (E := fun _ => True) hs.valid (e := value) trivial none
  refine ⟨hsound.grows hgrows hs.valid hs.not_side fun _ _ side hside => ?_,
    hs.toOpen.grows hgrows, (hgrows.outline q).2.1.trans hs.sides, ?_⟩
  · rw [hs.sides] at hside
    cases hside
  · rw [Store.selected_addFreshColumn hs.valid (hsound.columns q), hs.selected]

/-- A query without set operators comes to select the values of an insert, in order. -/
theorem selectValues_sound (items : List Assignment) (hvalues : ∀ item ∈ items, item.value.isSome) :
    Triple ctx (At X (Bare q)) (LowerM.selectValues q items) fun _ =>
      At X (Store.Supplies items q) := by
  have hsome : ∀ items : List Assignment, (∀ item ∈ items, item.value.isSome) →
      (items.filterMap (·.value)).map some = items.map (·.value) := by
    intro items hitems
    induction items with
    | nil => rfl
    | cons item rest ih =>
      obtain ⟨hitem, hrest⟩ := List.forall_mem_cons.mp hitems
      obtain ⟨value, hvalue⟩ := Option.isSome_iff_exists.mp hitem
      simp [hvalue, ih hrest]
  refine clearColumns_sound.bind fun _ => ?_
  refine bind (forIn (fun before => At X (Store.Lists q before)) (b := []) fun before value _ =>
    (addValue_sound before value).bind fun _ => pure fun _ hs => ⟨rfl, hs⟩) fun _ => pure fun s hs => ?_
  exact ⟨hs.1, hs.2.toOpen, .inr (by rw [hs.2.selected]; exact hsome items hvalues)⟩

theorem lowerInsert_sound (h : l.Sound) (c : CallSite) :
    Triple ctx (Store.Sound X) (lowerInsert l c) (Lowered.Finished X) := by
  unfold lowerInsert
  split
  · refine (h.sequence ctx X _ _).bind fun lowered => ?_
    split
    · next into items houtcome =>
      exact pure fun s hs => Lowered.finished_insert
        ((hs.insertValues houtcome).mono fun hempty => hempty.supplies _) c into
    · exact refuseWhole c _
  · exact alone ((Triple.tableOf _).bind fun (into, projection) =>
      (Triple.newQuery c.parent).bind fun query => (h.assignments _ _ _ _ _).bind fun items =>
        pure fun s hs => Lowered.finished_insert (hs.mono fun hs => hs.2.1.supplies _) c into)
  · refine (h.lowerSource c).bind fun _ =>
      (wrapIf fun _ => Query.hasFixedColumns_of_sides).bind fun lowered =>
        (Triple.tableOf _).bind fun (into, _) => (h.assignments _ _ _ _ _).bind fun items =>
          assume fun hvalues => bind (Q := fun _ => At X (Store.Supplies items lowered.query))
            ((selectValues_sound items hvalues).pre fun _ hs => hs.mono fun hs => hs.bare)
            fun _ => pure fun _ hs => Lowered.finished_insert hs c into
  · exact refuseWhole c _

theorem insertRule_sound : insertRule.Sound := by
  refine Rule.sound_ofCall fun l h ctx X c => ?_
  split
  · exact alone ((arg c 0).bind fun t => (Triple.tableOf t).bind fun (into, projection) =>
      (Triple.newQuery c.parent).bind fun _ => pure fun _ hs =>
        Lowered.finished_insertValues (hs.mono And.left))
  · exact lowerValue_sound h c
  · exact lowerInsert_sound h c

/-! ## Upserts, updates, deletions and tables -/

/-- A statement of which nothing is known. -/
theorem Lowered.finished_statement {p : Projection} {body : StatementBody} (hs : s.Sound X)
    (hinsert : ∀ clause output, body ≠ .insert clause output)
    (hmulti : ∀ mode inserts, body ≠ .multiInsert mode inserts) :
    Lowered.Finished X ⟨q, p, .statement body⟩ s := by
  refine Store.At.exempt ⟨hs, ?_⟩
  cases body with
  | insert clause output => exact absurd rfl (hinsert clause output)
  | multiInsert mode inserts => exact absurd rfl (hmulti mode inserts)
  | _ => trivial

theorem insertOrUpdateRule_sound : insertOrUpdateRule.Sound := by
  refine Rule.sound_ofCall fun l h ctx X c => alone <| (arg c 0).bind fun t =>
    (Triple.tableOf t).bind fun (table, projection) => (Triple.newQuery c.parent).bind fun query =>
      bind (Q := fun _ => At X (Bare query))
        ((addTableSource table).pre fun s hs => hs.mono fun hs => hs.1.toBare) fun _ =>
          (arg c 1).bind fun _ => (h.assignments _ _ _ _ _).bind fun _ => (arg c 2).bind fun _ =>
            (h.assignments _ _ _ _ _).bind fun _ => ?_
  have hend : ∀ keys inserted updated, Triple ctx (Store.Sound X)
      (Pure.pure ⟨query, projection, .statement (.upsert { into := some table, items := inserted }
        { table := some table, keys := keys, items := updated })⟩) (Lowered.Finished X) :=
    fun _ _ _ => pure fun s hs => Lowered.finished_statement hs (by simp) (by simp)
  split
  · exact (h.applyProjection _ _ _).bind fun _ => store fun _ => checked.bind fun keys =>
      (hend keys _ _).pre fun s hs => hs.1
  · exact store fun _ => checked.bind fun _ => pureThen ((hend [] _ _).pre fun s hs => hs.1)

theorem Lowered.Finished.sound (h : lowered.Finished X s)
    (houtcome : lowered.outcome.isMultiInsert = false) : s.Sound X :=
  (h.done houtcome).1

/-- A chain of assignments. -/
theorem Lowered.finished_assignments {p : Projection} {items : List Assignment} (hs : s.Sound X) :
    Lowered.Finished X ⟨q, p, .assignments items⟩ s :=
  Store.At.exempt ⟨hs, trivial⟩

theorem setMember_sound (h : l.Sound) (c : CallSite) (lowered : Lowered)
    (items : List Assignment) :
    Triple ctx (Store.Sound X) (lowered.setMember l c items) (Lowered.Finished X) :=
  (target lowered).bind fun table => (arg c 1).bind fun _ => checked.bind fun member =>
    (arg c 2).bind fun _ => iteBind ((h.closed X).applyScalar _ _ _ ctx)
      (h.scalar ctx X _ _) fun _ => (Triple.settableField table member .update).bind fun _ =>
        pure fun _ => Lowered.finished_assignments

theorem lowerSet_sound (h : l.Sound) (c : CallSite) :
    Triple ctx (Store.Sound X) (lowerSet l c) (Lowered.Finished X) := by
  refine (h.lowerFirst c).bind fun lowered => ?_
  split
  · next items houtcome =>
    exact (setMember_sound h c lowered items).pre fun s hs => hs.sound (by rw [houtcome]; rfl)
  · next houtcome =>
    exact (setMember_sound h c lowered []).pre fun s hs => hs.sound (by rw [houtcome]; rfl)
  · exact refused _ _

/-- Filtering does not change what a term is for. -/
theorem filter_outcome (l : Lowerer) (lowered : Lowered) (f : Term) (negated : Bool) :
    Triple ctx (fun _ => True) (lowered.filter l f negated) fun filtered _ =>
      filtered.outcome = lowered.outcome := by
  have hwrap : Triple ctx (fun _ => True) (LowerM.wrapIf Query.hasFixedRows lowered) fun wrapped _ =>
      wrapped.outcome = lowered.outcome :=
    store fun _ => ite (store fun _ => (always True).bind fun _ => (always True).bind fun _ =>
      (always True).bind fun _ => (always True).bind fun _ => pure fun _ _ => rfl) (pure fun _ _ => rfl)
  refine hwrap.bind fun wrapped => (always _).bind fun condition => store fun s => ?_
  exact iteBind (always _) (always _) fun _ => pure fun _ h => h

/-- An update is of the rows of a sequence. -/
theorem setterItems_sound (h : l.Sound) (setter : Term) :
    Triple ctx (lowered.Finished X) (lowered.setterItems l setter) fun _ => Store.Sound X := by
  refine unlessRefused fun hsequence => ?_
  have houtcome := Outcome.eq_sequence (by simpa using hsequence)
  exact ((target lowered).bind fun _ => (h.closed X).assignments _ _ _ _ _ ctx).pre
    fun s hs => hs.sound (by rw [houtcome]; rfl)

theorem lowerUpdateParts_sound (h : l.Sound) (c : CallSite) :
    Triple ctx (Store.Sound X) (lowerUpdateParts l c) fun _ => Store.Sound X := by
  unfold lowerUpdateParts
  split
  · refine (h.sequence ctx X _ _).bind fun lowered => ?_
    split
    · next houtcome => exact pure fun s hs => hs.sound (by rw [houtcome]; rfl)
    · exact refuseWhole c _
  · exact (h.sequence ctx X _ _).bind fun lowered =>
      (setterItems_sound h _).bind fun _ => pure fun _ hs => hs
  · next condition setter _ =>
    refine (h.sequence ctx X _ _).bind fun lowered => ?_
    by_cases hsequence : lowered.outcome.isSequence = true
    · have houtcome := Outcome.eq_sequence hsequence
      refine Triple.pre (P := At X lowered.Selected) ?_ fun s hs => ?_
      · refine ((h.filter condition false).post fun _ _ => Lowered.Plain.finished).bind
          fun filtered => (setterItems_sound h setter).bind fun _ => pure fun _ hs => hs
      · refine (hs.done (by rw [houtcome]; rfl)).mono fun hdone => ?_
        rwa [Lowered.Done, houtcome] at hdone
    · refine bind ((filter_outcome l lowered condition false).pre fun _ _ => trivial)
        fun filtered => knowing (fun _ hs => hs) fun houtcome => ?_
      unfold Lowered.setterItems
      rw [houtcome, Bool.eq_false_iff.mpr hsequence]
      exact refused _ _
  · exact refuseWhole c _

theorem ddlRule_sound : ddlRule.Sound := by
  refine Rule.sound_ofCall fun l h ctx X c => alone <| (arg c 0).bind fun t =>
    (Triple.tableOf t).bind fun (table, projection) => ?_
  dsimp only
  split
  · next body hbody =>
    refine (Triple.newQuery c.parent).bind fun query => pure fun s hs =>
      Lowered.finished_statement hs.1 (fun _ _ heq => ?_) fun _ _ heq => ?_
    all_goals
      subst heq
      cases hop : c.operator <;> rw [hop] at hbody <;> cases hbody
  · exact refuseWhole c _

theorem updateRule_sound : updateRule.Sound :=
  Rule.sound_ofCall fun _ h _ _ c => ite (lowerSet_sound h c) <|
    (lowerUpdateParts_sound h c).bind fun (lowered, _) =>
      ite (throw _) <| (target lowered).bind fun _ =>
        pure fun s hs => Lowered.finished_statement hs (by simp) (by simp)

theorem deleteRule_sound : deleteRule.Sound :=
  Rule.sound_ofCall fun _ h _ X c => (h.lowerSource c).bind fun _ => (h.filterIf _).bind
    fun lowered => (target lowered).bind fun _ => store fun _ => ite (read (throw _)) <|
      bind (Q := fun _ => At X lowered.Selected) (modifyClause fun _ => ⟨rfl, rfl, rfl, rfl, rfl⟩)
        fun _ => pure fun s hs => Lowered.finished_statement hs.1 (by simp) (by simp)

/-! ## Merges and multi-table inserts -/

theorem addQuerySource_sound {inner outer : QueryRef} :
    Triple ctx (At X fun s => s.Bare outer ∧ s.Joins outer (.ofQuery inner))
      (LowerM.addSource outer (.ofQuery inner)) fun _ => At X (Bare outer) := by
  refine modifyQuery fun s ⟨hsound, houter, hjoins⟩ => ?_
  refine hsound.read houter rfl rfl
    (fun hungrouped => ⟨(hsound.groups _ hungrouped).kind, (hsound.groups _ hungrouped).having⟩)
    fun r hr => ((Query.reads_addSource _ _ r).mp hr).imp_right fun hmem => hjoins r ?_
  cases hmem
  simp [Source.ofQuery, Source.all, Source.joined, Source.query?]

theorem lowerMergeSource_sound (h : l.Sound) (merge : QueryRef) (t : Term) :
    Triple ctx (At X (Bare merge)) (lowerMergeSource l merge t) fun _ => At X (Bare merge) := by
  refine (nestedSequence h merge t).bind fun inner => unlessRefused fun hsequence => ?_
  refine Triple.pre (P := At X fun s => inner.query ≠ merge ∧ inner.Selected s ∧ s.Bare merge)
    (store fun s => ?_) fun s hs => hs (by simpa using hsequence)
  dsimp only
  split
  · refine pureThen (bind (Q := fun _ => At X (Bare merge)) ?_ fun _ => pure fun _ hs => hs)
    exact (addTableSource _).pre fun s hs => hs.mono fun hs => hs.2.2
  · exact (exposeApart inner merge).bind fun _ => pureThen (addQuerySource_sound.bind fun _ =>
      pure fun _ hs => hs)

theorem extend_sound (h : l.Sound) (d : MergeDraft) (c : CallSite) (q : QueryRef) :
    Triple ctx (At X (Bare q)) (d.extend l c q) fun _ => At X (Bare q) := by
  unfold MergeDraft.extend
  split
  · exact unlessRefused fun _ => (arg c 1).bind fun t =>
      (lowerMergeSource_sound h q t).bind fun _ => done _
  · exact (keepAt (fun n => (h.keeps n).closed.lowerOn d c q)
      ((h.closed X).lowerOn d c q ctx)).bind fun _ => done _
  · split
    · exact (keepAt (fun n => (h.keeps n).closed.lowerOperation d c q _)
        ((h.closed X).lowerOperation d c q _ ctx)).bind fun _ => done _
    · exact refuseSite c _

theorem mergeRule_sound : mergeRule.Sound := by
  refine Rule.sound_ofCall fun l h ctx X c => ite ?_ ?_
  · exact alone <| (arg c 0).bind fun t => (Triple.tableOf t).bind fun (target, _) =>
      (Triple.newQuery c.parent).bind fun query => bind (Q := fun _ => At X (Bare query))
        ((addTableSource target).pre fun s hs => hs.mono fun hs => hs.1.toBare) fun _ =>
          pure fun _ hs => hs.exempt
  · refine (h.lowerFirst c).bind fun lowered => ?_
    split
    · next d houtcome =>
      refine ((extend_sound h d c lowered.query).pre fun s hs => ?_).bind fun _ =>
        pure fun _ hs => hs.exempt
      refine (hs.done (by rw [houtcome]; rfl)).mono fun hdone => ?_
      rwa [Lowered.Done, houtcome] at hdone
    · exact refuseSite c _

/-- A link of a multi-table insert. -/
theorem Lowered.finished_multiInsert {p : Projection} {outcome : Outcome}
    (hs : s.At (fun r => X r ∨ r = q) (Store.Covers q)) (houtcome : outcome.isMultiInsert = true) :
    Lowered.Finished X ⟨q, p, outcome⟩ s := by
  refine ⟨hs.1.mono fun r hr => hr.imp_right fun heq => ⟨houtcome, heq⟩, ?_⟩
  cases outcome with
  | multiInsert d => exact hs.2
  | statement body =>
    cases body with
    | multiInsert mode inserts => exact hs.2
    | _ => cases houtcome
  | _ => cases houtcome

/-- The columns of a branch are added to the query as it stands. -/
theorem addBranchColumn_sound (e : Scalar) :
    Triple ctx (At (fun r => X r ∨ r = q) (Store.Covers q))
      (LowerM.allocate fun s => s.addColumn q e none) fun _ =>
        At (fun r => X r ∨ r = q) (Store.Covers q) :=
  allocate fun _ ⟨hsound, hcovers⟩ =>
    have hwidens := Store.widens_addColumn hcovers.valid e none
    ⟨hsound.grows hwidens hcovers.valid hcovers.not_side fun hX => absurd (.inr rfl) hX,
      hcovers.grows hwidens⟩

theorem lowerBranch_sound (h : l.Sound) (lowered : Lowered) (table setter : Term) :
    Triple ctx (At (fun r => X r ∨ r = lowered.query) (Store.Covers lowered.query))
      (lowerBranch l lowered table setter) fun _ =>
        At (fun r => X r ∨ r = lowered.query) (Store.Covers lowered.query) := by
  refine (Triple.tableOf table).bind fun (into, _) => bind (Q := fun _ =>
    At (fun r => X r ∨ r = lowered.query) (Store.Covers lowered.query))
      ((h.assignments _ _ _ _ _).post fun _ _ hs => hs.mono And.right) fun items =>
        (mapM fun item _ => ?_).bind fun _ => done _
  split
  · exact (addBranchColumn_sound _).bind fun _ => done _
  · exact done _

theorem close_sound {P : Store → Prop} (d : MultiInsertDraft) (c : CallSite) :
    Triple ctx P (d.close c) fun body s => (Outcome.statement body).isMultiInsert = true ∧ P s :=
  unlessRefused fun _ => ite (unlessRefused fun _ => pure fun _ hs => ⟨rfl, hs⟩)
    (pure fun _ hs => ⟨rfl, hs⟩)

theorem extendInsert_sound (h : l.Sound) (d : MultiInsertDraft) (c : CallSite) (lowered : Lowered) :
    Triple ctx (At (fun r => X r ∨ r = lowered.query) (Store.Covers lowered.query))
      (d.extend l c lowered) fun outcome s => outcome.isMultiInsert = true ∧
        s.At (fun r => X r ∨ r = lowered.query) (Store.Covers lowered.query) := by
  unfold MultiInsertDraft.extend
  split
  · exact unlessRefused fun _ => (arg c 1).bind fun _ => (arg c 2).bind fun _ =>
      (lowerBranch_sound h lowered _ _).bind fun _ => pure fun _ hs => ⟨rfl, hs⟩
  · exact unlessRefused fun _ => (arg c 1).bind fun _ => (h.applyCondition _ _ _).bind fun _ =>
      (arg c 2).bind fun _ => (arg c 3).bind fun _ =>
        (lowerBranch_sound h lowered _ _).bind fun _ => pure fun _ hs => ⟨rfl, hs⟩
  · exact unlessRefused fun _ => (arg c 1).bind fun _ => (arg c 2).bind fun _ =>
      (lowerBranch_sound h lowered _ _).bind fun _ => pure fun _ hs => ⟨rfl, hs⟩
  · exact (close_sound d c).bind fun _ => pure fun _ hs => hs
  · exact (close_sound d c).bind fun _ => pure fun _ hs => hs
  · exact refuseSite c _

theorem multiInsertRule_sound : multiInsertRule.Sound := by
  refine Rule.sound_ofCall fun l h ctx X c => ite ?_ ?_
  · exact (h.lowerSource c).bind fun lowered => pure fun s hs => Lowered.finished_multiInsert
      ⟨hs.1.mono fun _ => .inl, hs.2.covers⟩ rfl
  · refine (h.lowerFirst c).bind fun lowered => ?_
    split
    · next d houtcome =>
      refine ((extendInsert_sound h d c lowered).pre fun s hs => ?_).bind fun _ =>
        pure fun _ hs => Lowered.finished_multiInsert hs.2 hs.1
      refine ⟨hs.1.mono fun r hr => hr.imp_right And.right, ?_⟩
      have hdone := hs.2
      rwa [Lowered.Done, houtcome] at hdone
    · exact refuseSite c _

/-! ## The standard rules -/

/-- The standard rules keep stores sound if their lowerer does. -/
theorem standardRules_sound : ∀ rule ∈ standardRules, rule.Sound :=
  forall_mem_standardRules.mpr
    ⟨tableRule_sound, whereRule_sound, selectRule_sound, orderByRule_sound, groupByRule_sound,
      joinRule_sound, takeSkipRule_sound, distinctRule_sound, firstSingleRule_sound,
      aggregationRule_sound, anyAllRule_sound, setOperationRule_sound, ofTypeRule_sound,
      modifierRule_sound, insertRule_sound, insertOrUpdateRule_sound, updateRule_sound,
      deleteRule_sound, mergeRule_sound, multiInsertRule_sound, ddlRule_sound, valuesRule_sound⟩

/-- Lowering by the first rule that accepts keeps stores sound if every rule does. -/
theorem dispatch_sound {rules : List Rule} (hrules : ∀ rule ∈ rules, rule.Sound) (h : l.Sound)
    (t : Term) (parent : Option QueryRef) :
    Triple ctx (Store.Sound X) (dispatch rules l t parent) (Lowered.Finished X) := by
  refine get fun st => ?_
  cases hfind : st.ranking.find? rules t with
  | none => exact throw _
  | some found =>
    obtain ⟨position, rule⟩ := found
    exact (hrules rule (Ranking.mem_of_find? hfind).1 l h ctx X t parent).bind fun lowered =>
      bind (Q := fun _ => lowered.Finished X) (modifyState fun _ => rfl) fun _ =>
        pure fun _ hs => hs

/-- Lowering by the standard rules keeps stores sound. -/
theorem lowererWithin_sound : ∀ fuel, (lowererWithin standardRules fuel).Sound
  | 0 => ⟨fun n => lowererWithin_keeps n 0, fun _ _ _ _ => throw _, fun _ _ _ _ => throw _,
      fun _ _ _ _ => throw _, fun _ _ _ _ => throw _⟩
  | fuel + 1 =>
    have ih := lowererWithin_sound fuel
    ⟨fun n => lowererWithin_keeps n (fuel + 1),
      fun _ _ => dispatch_sound standardRules_sound ih,
      fun ctx X t q => (ih.closed X).projectionOf t q ctx,
      fun ctx X t q => (ih.closed X).scalarOf t q ctx,
      fun ctx X t q => (ih.closed X).conditionOf t q ctx⟩

end SqlCompiler
