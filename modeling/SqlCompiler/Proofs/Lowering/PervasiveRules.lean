import SqlCompiler.Proofs.Lowering.PervasiveSteps

/-!
# What all steps of the standard rules have in common

One lemma for each standard rule: its steps have a property that lasts through everything but the
choice of a rule, if the answers of its lowerer have it.  What they change is above a bound if the
queries that the lowerer gives are.

Main results:

- Theorem `standardRules_bounded`: so it is for every standard rule.
- Theorem `lowererWithin_bounded`: and for lowering by these rules, if choosing a rule has the
  property as well.
- Definition `LowerM.Pervasive`: a property of steps that lasts through everything but the choice of
  a rule, whichever queries are changed.
- Theorem `lowerStatement_pervasive`: lowering a term to a statement has it.
-/

namespace SqlCompiler

open LowerM.Bounded (ite pureThen)

variable {n : Nat} {C : ∀ {α : Type}, LowerM α → (α → Prop) → Prop} {l : Lowerer}

/-- The steps of a rule for calls have a property if they do at every call. -/
theorem Rule.bounded_ofCall {name : String} {accepts : SequenceOperator → List Term → Bool}
    {lower : Lowerer → CallSite → LowerM Lowered}
    (hlower : ∀ l : Lowerer, l.Bounded n C → ∀ c, C (lower l c) (Lowered.Above n)) :
    (Rule.ofCall name accepts lower).Bounded n C := by
  intro l h t parent
  unfold Rule.ofCall
  dsimp only
  split
  · exact hlower l h _
  · exact h.refuse _ _

/-! ## Parts of rules -/

/-- Group a source by a key. -/
def makeGroups (l : Lowerer) (c : CallSite) (source : Lowered) (key : Projection) :
    LowerM Lowered := do
  let (elementSelector, resultSelector) := groupSelectors (c.args.drop 2)
  let element ←
    match elementSelector with
    | some f => l.applyProjection f [source.projection] source.query
    | none => pure source.projection
  LowerM.modifyQuery source.query fun q =>
    { q with grouping := { q.grouping with items := key.scalars } }
  let projection ←
    match resultSelector with
    | some f => l.applyProjection f [key, .grouping key element] source.query
    | none => pure (.grouping key element)
  return { source with projection }

/-- Set one more member of the rows that assignments are about. -/
def Lowered.setMember (lowered : Lowered) (l : Lowerer) (c : CallSite) (items : List Assignment) :
    LowerM Lowered := do
  let table ← lowered.target
  let member ← LowerM.ofExcept (← c.arg 1).memberOfFunction
  let given ← c.arg 2
  let value ←
    if isFunctionTerm given then l.applyScalar given [lowered.projection] lowered.query
    else l.scalar given lowered.query
  let items :=
    match ← LowerM.settableField table member .update with
    | some f => assign (.toField f value) items
    | none => items
  return { lowered with outcome := .assignments items }

/-- Something holds of the standard rules if it holds of each. -/
theorem forall_mem_standardRules {p : Rule → Prop} : (∀ rule ∈ standardRules, p rule) ↔
    p tableRule ∧ p whereRule ∧ p selectRule ∧ p orderByRule ∧ p groupByRule ∧ p joinRule ∧
    p takeSkipRule ∧ p distinctRule ∧ p firstSingleRule ∧ p aggregationRule ∧ p anyAllRule ∧
    p setOperationRule ∧ p ofTypeRule ∧ p modifierRule ∧ p insertRule ∧ p insertOrUpdateRule ∧
    p updateRule ∧ p deleteRule ∧ p mergeRule ∧ p multiInsertRule ∧ p ddlRule ∧ p valuesRule := by
  simp [standardRules]

/-! ## Tables -/

theorem tableRule_bounded : tableRule.Bounded n C := by
  intro l h t parent
  unfold tableRule
  dsimp only
  split
  · exact h.readType _ parent
  · exact h.refuse _ _

theorem lowerOfType_bounded (h : l.Bounded n C) (c : CallSite) (typeName : String) :
    C (lowerOfType l c typeName) (Lowered.Above n) := by
  refine h.bind (h.lowerSource c) fun lowered hlowered => ?_
  split
  · exact ite (h.pure hlowered) (h.bind (h.wrapIf _ hlowered) fun _ hwrapped =>
      h.narrow hwrapped _ _)
  · exact h.refuse _ _

theorem valuesRule_bounded : valuesRule.Bounded n C := by
  intro l h t parent
  unfold valuesRule
  dsimp only
  split
  · exact h.andThen (h.addTable rfl rfl _) fun _ => h.bind (h.newQuery parent) fun _ hquery =>
      h.andThen (h.addTableSource hquery _) fun _ => h.storeThen fun _ => h.pure hquery
  · exact h.refuse _ _

/-! ## Clauses -/

theorem lowerOrdering_bounded (h : l.Bounded n C) (c : CallSite) (after descending : Bool) :
    C (lowerOrdering l c after descending) (Lowered.Above n) :=
  h.bind (h.lowerSource c) fun _ hsource => h.iteBind (h.pure hsource) (h.wrapIf _ hsource)
    fun _ hlowered => h.argThen c 1 fun f => h.andThen (h.closed.applyProjection f _ _) fun _ =>
      h.andThen (h.modifyClause hlowered fun _ => ⟨rfl, rfl⟩) fun _ => h.pure hlowered

theorem lowerGroupBy_bounded (h : l.Bounded n C) (c : CallSite) :
    C (lowerGroupBy l c) (Lowered.Above n) := by
  refine h.bind (h.lowerSource c) fun _ hsource => h.bind (h.wrapIf _ hsource) fun lowered hlowered =>
    h.argThen c 1 fun selector => h.andThen (h.closed.applyProjection selector _ _) fun key => ?_
  -- the groups are made the same way whether or not the source was wrapped for the key
  refine ite (h.bind (h.wrap hlowered) fun _ hwrapped =>
    h.andThen (h.closed.applyProjection selector _ _) fun _ =>
      h.bind (P := fun r => r.1.Above n) (h.pure hwrapped) fun r hr => ?_)
    (h.bind (P := fun r => r.1.Above n) (h.pure hlowered) fun r hr => ?_)
  all_goals
    obtain ⟨lowered, key⟩ := r
    dsimp only
    split
  all_goals
    refine h.andThen (P := fun _ => True) ?_ fun _ =>
      h.andThen (h.modifyClause hr fun _ => ⟨rfl, rfl⟩) fun _ => ?_
    · first
      | exact h.closed.applyProjection _ _ _
      | exact h.done _
    · split
      · exact h.andThen (h.closed.applyProjection _ _ _) fun _ => h.pure hr
      · exact h.andThen (h.done _) fun _ => h.pure hr

theorem lowerPaging_bounded (h : l.Bounded n C) (c : CallSite) :
    C (lowerPaging l c) (Lowered.Above n) :=
  h.bind (h.lowerSource c) fun _ hsource => h.bind (h.wrapIf _ hsource) fun _ hlowered =>
    h.argThen c 1 fun count => h.andThen (h.scalar count _) fun _ =>
      h.andThen (h.modifyClause hlowered fun query => by
        cases query.skip <;> split <;> exact ⟨rfl, rfl⟩) fun _ => h.pure hlowered

theorem lowerModifier_bounded (h : l.Bounded n C) (c : CallSite) :
    C (lowerModifier l c) (Lowered.Above n) := by
  refine h.bind (h.lowerSource c) fun lowered hlowered => ?_
  split
  · exact h.wrap hlowered
  · exact h.andThen (h.modifyClause hlowered fun _ => ⟨rfl, rfl⟩) fun _ => h.pure hlowered
  · exact h.andThen (h.modifyState (fun _ _ => rfl) fun _ => rfl) fun _ => h.pure hlowered
  · exact h.andThen (h.modifyClause hlowered fun _ => ⟨rfl, rfl⟩) fun _ => h.pure hlowered
  · exact h.andThen (h.modifyState (fun _ _ => rfl) fun _ => rfl) fun _ => h.pure hlowered
  · exact h.pure hlowered

/-! ## Joins and set operators -/

theorem lowerJoin_bounded (h : l.Bounded n C) (c : CallSite) (kind : JoinKind) :
    C (lowerJoin l c kind) (Lowered.Above n) := by
  refine h.bind (h.lowerSource c) fun _ hsource => h.bind (h.wrapIf _ hsource) fun outer houter =>
    h.argThen c 1 fun _ => h.andThen (h.closed.joinedTerm _ _) fun (_, innerTerm) =>
      h.bind (h.sequence innerTerm _) fun inner hinner => h.unlessRefused <|
        h.bind (h.joinSource hinner) fun (source, innerProjection, condition) hjoin =>
          h.argThen c 2 fun _ => h.andThen (h.closed.applyProjection _ _ _) fun _ =>
            h.argThen c 3 fun _ => h.andThen (h.closed.applyProjection _ _ _) fun _ =>
              h.unlessRefused <| h.joinThen houter hjoin fun _ => h.argThen c 4 fun _ =>
                h.andThen (h.closed.applyProjection _ _ _) fun _ => h.pure houter

theorem lowerSetOperation_bounded (h : l.Bounded n C) (c : CallSite) (operation : SetOperation) :
    C (lowerSetOperation l c operation) (Lowered.Above n) :=
  h.bind (h.lowerSource c) fun _ hsource => h.bind (h.asSide hsource _) fun _ hleft =>
    h.argThen c 1 fun _ => h.bind (h.sequence _ _) fun _ hright => h.unlessRefused <|
      h.bind (h.asSide hright _) fun _ hright => h.unlessRefused <|
        h.andThen (h.addSetOperator hleft ⟨_, _⟩ hright) fun _ => h.pure hleft

/-! ## Ends of sequences -/

theorem lowerElement_bounded (h : l.Bounded n C) (c : CallSite) :
    C (lowerElement l c) (Lowered.Above n) :=
  h.bind (h.lowerSource c) fun _ hsource => h.bind (h.filterIf hsource _) fun _ hfiltered =>
    h.bind (h.wrapIf _ hfiltered) fun _ hlowered =>
      h.andThen (h.modifyClause hlowered fun _ => ⟨rfl, rfl⟩) fun _ => h.pure hlowered

theorem lowerAggregate_bounded (h : l.Bounded n C) (c : CallSite) :
    C (lowerAggregate l c) (Lowered.Above n) :=
  h.bind (h.lowerSource c) fun _ hsource => h.iteBind (h.filterIf hsource _) (h.pure hsource)
    fun _ hfiltered => h.bind (h.wrapIf _ hfiltered) fun _ hlowered =>
      h.andThen (h.modifyClause hlowered fun _ => ⟨rfl, rfl⟩) fun _ =>
        h.andThen (h.closed.aggregateOf c _) fun _ => h.pure hlowered

theorem lowerContains_bounded (h : l.Bounded n C) (c : CallSite) (outer : QueryRef)
    {lowered : Lowered} (hlowered : lowered.Above n) :
    C (lowerContains l c outer lowered) fun _ => True :=
  h.argThen c 1 fun _ => h.andThen (h.scalar _ _) fun _ => by
    split
    · exact h.andThen (h.columnFor hlowered _ _) fun _ =>
        h.andThen (h.selectOnly hlowered _) fun _ => h.done _
    · exact h.refuse _ _

theorem lowerTest_bounded (h : l.Bounded n C) (c : CallSite) (outer : QueryRef) :
    C (lowerTest l c outer) fun _ => True := by
  refine h.argThen c 0 fun source => ?_
  dsimp only
  split
  · exact h.argThen c 1 fun _ => h.andThen (h.scalar _ _) fun _ => h.storeThen fun _ => h.done _
  · refine h.bind (h.sequence source _) fun lowered hlowered =>
      h.andThen (h.closed.checkSequence c _ _) fun _ => ?_
    split
    · exact h.andThen (h.filterIf hlowered _) fun _ => h.done _
    · exact h.argThen c 1 fun f => h.andThen (h.filter hlowered f true) fun _ => h.done _
    · exact lowerContains_bounded h c outer hlowered

/-! ## Modifications -/

theorem lowerValue_bounded (h : l.Bounded n C) (c : CallSite) :
    C (lowerValue l c) (Lowered.Above n) := by
  refine h.bind (h.lowerFirst c) fun lowered hlowered => ?_
  split
  · refine h.argThen c 1 fun _ => h.andThen (h.closed.ofExcept _) fun _ => h.argThen c 2 fun _ => ?_
    exact ite (h.andThen (h.closed.ofExcept _) fun _ => h.andThen (h.done _) fun _ =>
        h.andThen (h.scalar _ _) fun _ => h.andThen (h.closed.settableField _ _ _) fun _ =>
          h.pure hlowered)
      (h.andThen (h.done _) fun _ => h.andThen (h.scalar _ _) fun _ =>
        h.andThen (h.closed.settableField _ _ _) fun _ => h.pure hlowered)
  · exact h.refuse _ _

theorem lowerInsert_bounded (h : l.Bounded n C) (c : CallSite) :
    C (lowerInsert l c) (Lowered.Above n) := by
  unfold lowerInsert
  split
  · refine h.bind (h.sequence _ _) fun lowered hlowered => ?_
    split
    · exact h.pure hlowered
    · exact h.refuse _ _
  · exact h.andThen (h.tableOf _) fun (_, _) => h.bind (h.newQuery _) fun _ hquery =>
      h.andThen (h.closed.assignments _ _ _ _ _) fun _ => h.pure hquery
  · exact h.bind (h.lowerSource c) fun _ hsource => h.bind (h.wrapIf _ hsource) fun _ hlowered =>
      h.andThen (h.tableOf _) fun (_, _) => h.andThen (h.closed.assignments _ _ _ _ _) fun _ =>
        h.andThen (h.selectValues hlowered _) fun _ => h.pure hlowered
  · exact h.refuse _ _

theorem insertRule_bounded : insertRule.Bounded n C := by
  refine Rule.bounded_ofCall fun l h c => ?_
  split
  · exact h.argThen c 0 fun _ => h.andThen (h.tableOf _) fun (_, _) =>
      h.bind (h.newQuery _) fun _ hquery => h.pure hquery
  · exact lowerValue_bounded h c
  · exact lowerInsert_bounded h c

theorem lowerInsertOrUpdate_bounded (h : l.Bounded n C) (c : CallSite) :
    C (lowerInsertOrUpdate l c) (Lowered.Above n) := by
  refine h.argThen c 0 fun _ => h.andThen (h.tableOf _) fun (table, projection) =>
    h.bind (h.newQuery _) fun _ hquery => h.andThen (h.addTableSource hquery _) fun _ =>
      h.argThen c 1 fun _ => h.andThen (h.closed.assignments _ _ _ _ _) fun _ =>
        h.argThen c 2 fun _ => h.andThen (h.closed.assignments _ _ _ _ _) fun _ => ?_
  split
  · exact h.andThen (h.closed.applyProjection _ _ _) fun _ => h.storeThen fun _ =>
      h.andThen (h.closed.ofExcept _) fun _ => h.pure hquery
  · exact h.storeThen fun _ => h.andThen (h.closed.ofExcept _) fun _ =>
      h.andThen (h.done _) fun _ => h.pure hquery

/-- A value that is set.  What is known of the rows does not depend on what is set in them. -/
theorem setMember_bounded (h : l.Bounded n C) (c : CallSite) (lowered : Lowered)
    (P : Lowered → Prop) (hlowered : ∀ items, P { lowered with outcome := .assignments items })
    (items : List Assignment) :
    C (lowered.setMember l c items) P :=
  h.andThen (h.closed.target lowered) fun _ => h.argThen c 1 fun _ =>
    h.andThen (h.closed.ofExcept _) fun _ => h.argThen c 2 fun _ =>
      h.iteBind (h.closed.applyScalar _ _ _) (h.scalar _ _) fun _ _ =>
        h.andThen (h.closed.settableField _ _ _) fun _ => h.pure (hlowered _)

theorem lowerSet_bounded (h : l.Bounded n C) (c : CallSite) :
    C (lowerSet l c) (Lowered.Above n) := by
  refine h.bind (h.lowerFirst c) fun lowered hlowered => ?_
  split
  · exact setMember_bounded h c _ _ (fun _ => hlowered) _
  · exact setMember_bounded h c _ _ (fun _ => hlowered) _
  · exact h.refused _ _

theorem setterItems_bounded (h : l.Bounded n C) (lowered : Lowered) (setter : Term) :
    C (lowered.setterItems l setter) fun _ => True :=
  h.unlessRefused (h.andThen (h.closed.target lowered) fun _ => h.closed.assignments _ _ _ _ _)

theorem lowerUpdateParts_bounded (h : l.Bounded n C) (c : CallSite) :
    C (lowerUpdateParts l c) fun r => r.1.Above n := by
  unfold lowerUpdateParts
  split
  · refine h.bind (h.sequence _ _) fun lowered hlowered => ?_
    split
    · exact h.pure hlowered
    · exact h.refuse _ _
  · exact h.bind (h.sequence _ _) fun lowered hlowered =>
      h.andThen (setterItems_bounded h _ _) fun _ => h.pure hlowered
  · exact h.bind (h.sequence _ _) fun _ hsource => h.bind (h.filter hsource _ false)
      fun lowered hlowered => h.andThen (setterItems_bounded h _ _) fun _ => h.pure hlowered
  · exact h.refuse _ _

theorem updateRule_bounded : updateRule.Bounded n C :=
  Rule.bounded_ofCall fun _ h c => ite (lowerSet_bounded h c) <|
    h.bind (lowerUpdateParts_bounded h c) fun (lowered, _) hlowered =>
      ite (h.throw _) <| h.andThen (h.closed.target lowered) fun _ => h.pure hlowered

theorem lowerDelete_bounded (h : l.Bounded n C) (c : CallSite) :
    C (lowerDelete l c) (Lowered.Above n) :=
  h.bind (h.lowerSource c) fun _ hsource => h.bind (h.filterIf hsource _) fun lowered hlowered =>
    h.andThen (h.closed.target lowered) fun _ => h.storeThen fun _ =>
      ite (h.andThen h.read fun _ => h.andThen (P := fun _ => True) (h.throw _) fun _ =>
          h.andThen (h.modifyClause hlowered fun _ => ⟨rfl, rfl⟩) fun _ => h.pure hlowered)
        (h.andThen (h.modifyClause hlowered fun _ => ⟨rfl, rfl⟩) fun _ => h.pure hlowered)

theorem lowerTableStatement_bounded (h : LowerM.Bounded n C) (c : CallSite) :
    C (lowerTableStatement c) (Lowered.Above n) := by
  refine h.argThen c 0 fun _ => h.andThen (h.tableOf _) fun (table, projection) => ?_
  dsimp only
  split
  · exact h.bind (h.newQuery _) fun _ hquery => h.pure hquery
  · exact h.refuse _ _

/-! ## Merges and multi-table inserts -/

theorem lowerMergeSource_bounded (h : l.Bounded n C) {merge : QueryRef} (hmerge : n ≤ merge.index)
    (t : Term) : C (lowerMergeSource l merge t) fun _ => True := by
  refine h.bind (h.sequence t _) fun lowered hlowered => h.unlessRefused <| h.storeThen fun _ => ?_
  dsimp only
  split
  · exact pureThen (h.andThen (h.addTableSource hmerge _) fun _ => h.done _)
  · exact h.andThen (h.expose hlowered _) fun _ =>
      pureThen (h.andThen (h.addQuerySource hmerge hlowered) fun _ => h.done _)

theorem extendMerge_bounded (h : l.Bounded n C) (d : MergeDraft) (c : CallSite) {q : QueryRef}
    (hq : n ≤ q.index) : C (d.extend l c q) fun _ => True := by
  unfold MergeDraft.extend
  split
  · exact h.unlessRefused <| h.argThen c 1 fun _ =>
      h.andThen (lowerMergeSource_bounded h hq _) fun _ => h.done _
  · exact h.andThen (h.closed.lowerOn d c q) fun _ => h.done _
  · split
    · exact h.andThen (h.closed.lowerOperation d c q _) fun _ => h.done _
    · exact h.refuse _ _

theorem lowerMergeLink_bounded (h : l.Bounded n C) (c : CallSite) :
    C (lowerMergeLink l c) (Lowered.Above n) := by
  refine ite ?_ ?_
  · exact h.argThen c 0 fun _ => h.andThen (h.tableOf _) fun (_, _) =>
      h.bind (h.newQuery _) fun _ hquery => h.andThen (h.addTableSource hquery _) fun _ =>
        h.pure hquery
  · refine h.bind (h.lowerFirst c) fun lowered hlowered => ?_
    split
    · exact h.andThen (extendMerge_bounded h _ c hlowered) fun _ => h.pure hlowered
    · exact h.refuse _ _

theorem lowerBranch_bounded (h : l.Bounded n C) {lowered : Lowered} (hlowered : lowered.Above n)
    (table setter : Term) : C (lowerBranch l lowered table setter) fun _ => True := by
  refine h.andThen (h.tableOf table) fun (_, _) =>
    h.andThen (h.closed.assignments _ _ _ _ _) fun _ =>
      h.andThen (h.closed.mapM fun item _ => ?_) fun _ => h.done _
  split
  · exact h.andThen (h.addColumn hlowered _ _) fun _ => h.done _
  · exact h.done _

theorem closeInsert_closed {C : ∀ {α : Type}, LowerM α → Prop} (hC : LowerM.Closed C)
    (d : MultiInsertDraft) (c : CallSite) : C (d.close c) :=
  hC.unlessRefused <| LowerM.Closed.ite (hC.unlessRefused (hC.pure _)) (hC.pure _)

theorem extendInsert_bounded (h : l.Bounded n C) (d : MultiInsertDraft) (c : CallSite)
    {lowered : Lowered} (hlowered : lowered.Above n) :
    C (d.extend l c lowered) fun _ => True := by
  unfold MultiInsertDraft.extend
  split
  · exact h.unlessRefused <| h.argThen c 1 fun _ => h.argThen c 2 fun _ =>
      h.andThen (lowerBranch_bounded h hlowered _ _) fun _ => h.done _
  · exact h.unlessRefused <| h.argThen c 1 fun _ =>
      h.andThen (h.closed.applyCondition _ _ _) fun _ => h.argThen c 2 fun _ =>
        h.argThen c 3 fun _ => h.andThen (lowerBranch_bounded h hlowered _ _) fun _ => h.done _
  · exact h.unlessRefused <| h.argThen c 1 fun _ => h.argThen c 2 fun _ =>
      h.andThen (lowerBranch_bounded h hlowered _ _) fun _ => h.done _
  · exact h.andThen (closeInsert_closed h.closed.toClosed d c) fun _ => h.done _
  · exact h.andThen (closeInsert_closed h.closed.toClosed d c) fun _ => h.done _
  · exact h.refuse _ _

theorem lowerMultiInsert_bounded (h : l.Bounded n C) (c : CallSite) :
    C (lowerMultiInsert l c) (Lowered.Above n) := by
  refine ite (h.bind (h.lowerSource c) fun _ hlowered => h.pure hlowered) ?_
  refine h.bind (h.lowerFirst c) fun lowered hlowered => ?_
  split
  · exact h.andThen (extendInsert_bounded h _ c hlowered) fun _ => h.pure hlowered
  · exact h.refuse _ _

/-! ## The standard rules -/

/-- The steps of every standard rule have a property that lasts through everything but the choice
of a rule, if the answers of its lowerer have it. -/
theorem standardRules_bounded : ∀ rule ∈ standardRules, rule.Bounded n C := by
  refine forall_mem_standardRules.mpr ⟨?_, ?_, ?_, ?_, ?_, ?_, ?_, ?_, ?_, ?_, ?_, ?_, ?_, ?_, ?_, ?_,
    ?_, ?_, ?_, ?_, ?_, ?_⟩
  · exact tableRule_bounded
  · exact Rule.bounded_ofCall fun _ h c => h.bind (h.lowerSource c) fun _ hlowered =>
      h.argThen c 1 fun f => h.filter hlowered f false
  · exact Rule.bounded_ofCall fun _ h c => h.bind (h.lowerSource c) fun _ hsource =>
      h.bind (h.wrapIf _ hsource) fun _ hlowered => h.argThen c 1 fun f =>
        h.andThen (h.closed.applyProjection f _ _) fun _ => h.pure hlowered
  · exact Rule.bounded_ofCall fun _ h c => lowerOrdering_bounded h c _ _
  · exact Rule.bounded_ofCall fun _ h c => lowerGroupBy_bounded h c
  · refine Rule.bounded_ofCall fun _ h c => ?_
    split
    · exact lowerJoin_bounded h c _
    · exact h.refuse _ _
  · exact Rule.bounded_ofCall fun _ h c => lowerPaging_bounded h c
  · exact Rule.bounded_ofCall fun _ h c => h.bind (h.lowerSource c) fun _ hsource =>
      h.bind (h.wrapIf _ hsource) fun _ hlowered => h.andThen (h.materialize hlowered _ _) fun _ =>
        h.andThen (h.modifyClause hlowered fun _ => ⟨rfl, rfl⟩) fun _ => h.pure hlowered
  · exact Rule.bounded_ofCall fun _ h c => lowerElement_bounded h c
  · exact Rule.bounded_ofCall fun _ h c => lowerAggregate_bounded h c
  · exact Rule.bounded_ofCall fun _ h c => h.bind (h.newQuery _) fun _ hquery =>
      h.andThen (lowerTest_bounded h c _) fun _ => h.pure hquery
  · refine Rule.bounded_ofCall fun _ h c => ?_
    split
    · exact lowerSetOperation_bounded h c _
    · exact h.refuse _ _
  · refine Rule.bounded_ofCall fun _ h c => ?_
    split
    · exact lowerOfType_bounded h c _
    · exact h.refuse _ _
  · exact Rule.bounded_ofCall fun _ h c => lowerModifier_bounded h c
  · exact insertRule_bounded
  · exact Rule.bounded_ofCall fun _ h c => lowerInsertOrUpdate_bounded h c
  · exact updateRule_bounded
  · exact Rule.bounded_ofCall fun _ h c => lowerDelete_bounded h c
  · exact Rule.bounded_ofCall fun _ h c => lowerMergeLink_bounded h c
  · exact Rule.bounded_ofCall fun _ h c => lowerMultiInsert_bounded h c
  · exact Rule.bounded_ofCall fun _ h c => lowerTableStatement_bounded h.toBounded c
  · exact valuesRule_bounded

/-- Lowering by rules has a property that lasts through all other steps, if choosing one of rules
that have it does. -/
theorem lowererWithin_bounded {rules : List Rule} (hC : LowerM.Bounded n C)
    (hrules : ∀ rule ∈ rules, rule.Bounded n C)
    (hdispatch : ∀ l : Lowerer,
      (∀ rule ∈ rules, ∀ t parent, C (rule.lower l t parent) (Lowered.Above n)) →
        ∀ t parent, C (dispatch rules l t parent) (Lowered.Above n)) :
    ∀ fuel, (lowererWithin rules fuel).Bounded n C
  | 0 =>
    { hC with
      sequence := fun _ _ => hC.throw _
      projection := fun _ _ => hC.throw _
      scalar := fun _ _ => hC.throw _
      condition := fun _ _ => hC.throw _ }
  | fuel + 1 =>
    have ih := lowererWithin_bounded hC hrules hdispatch fuel
    { hC with
      sequence := hdispatch _ fun rule hrule => hrules rule hrule _ ih
      projection := ih.closed.projectionOf
      scalar := ih.closed.scalarOf
      condition := ih.closed.conditionOf }

/-! ## Properties of all steps -/

/-- A property of steps that lasts through everything but the choice of a rule.  What follows a step
need have it only for what the step may give. -/
structure LowerM.Pervasive (C : ∀ {α : Type}, LowerM α → Prop) : Prop where
  pure : ∀ {α : Type} (a : α), C (Pure.pure a)
  throw : ∀ {α : Type} (e : SqlError), C (MonadExcept.throw e : LowerM α)
  bind : ∀ {α β : Type} {step : LowerM α} {next : α → LowerM β}, C step →
    (∀ ctx st a st', step.Gives ctx st a st' → C (next a)) → C (step >>= next)
  read : C (MonadReader.read : LowerM LowerContext)
  store : C LowerM.store
  withVariables : ∀ {α : Type} {bindings : List (String × Projection)} {step : LowerM α},
    C step → C (LowerM.withVariables bindings step)
  annotate : ∀ {α : Type} {f : LowerState → α × LowerState}, LowerState.Unranked f →
    (∀ st, (f st).2.store = st.store) → C (MonadStateOf.modifyGet f : LowerM α)
  allocate : ∀ {α : Type} {f : Store → α × Store}, (∀ s : Store, s.Evolves (f s).2) →
    (∀ s : Store, s.Operates (f s).2) → C (LowerM.allocate f)

/-- With it lasts what is known of the results of steps. -/
theorem LowerM.Pervasive.bounded {C : ∀ {α : Type}, LowerM α → Prop} (h : LowerM.Pervasive C) :
    LowerM.Bounded 0 fun {_} step P =>
      C step ∧ ∀ ctx st a st', step.Gives ctx st a st' → P a where
  pure hP := ⟨h.pure _, fun _ _ _ _ hgives => by cases hgives; exact hP⟩
  throw e := ⟨h.throw e, fun _ _ _ _ hgives => by cases hgives⟩
  bind hstep hnext := ⟨h.bind hstep.1 fun ctx st a st' hgives =>
    (hnext a (hstep.2 ctx st a st' hgives)).1, fun ctx st b st'' hgives => by
      obtain ⟨a, st', hfirst, hrest⟩ := hgives.of_bind
      exact (hnext a (hstep.2 ctx st a st' hfirst)).2 ctx st' b st'' hrest⟩
  read := ⟨h.read, fun _ _ _ _ _ => trivial⟩
  store := ⟨h.store, fun _ _ _ _ _ => trivial⟩
  withVariables hstep := ⟨h.withVariables hstep.1, fun _ st a st' hgives => hstep.2 _ st a st' hgives⟩
  annotate hf hstore := ⟨h.annotate hf hstore, fun _ _ _ _ _ => trivial⟩
  allocate hf hP := ⟨h.allocate (fun s => (hf s).evolves) fun s => (hf s).operates,
    fun _ st _ _ hgives => by cases hgives; exact hP st.store (Nat.zero_le _)⟩

/-- Lowering a term by the standard rules and closing it has a property that lasts through all other
steps, if choosing one of rules that have it does. -/
theorem lowerStatement_pervasive {C : ∀ {α : Type}, LowerM α → Prop} (hC : LowerM.Pervasive C)
    (hdispatch : ∀ l : Lowerer, (∀ rule ∈ standardRules, ∀ t parent, C (rule.lower l t parent)) →
      ∀ t parent, C (dispatch standardRules l t parent)) (t : Term) :
    C (do (← lowerSequence standardRules t).toStatement) := by
  have hlowerer := lowererWithin_bounded hC.bounded standardRules_bounded (fun l hrules t parent =>
    ⟨hdispatch l (fun rule hrule t parent => (hrules rule hrule t parent).1) t parent,
      fun _ _ _ _ _ => Nat.zero_le _⟩) (loweringDepth t)
  exact (hlowerer.bind (hlowerer.sequence t none) fun _ habove => hlowerer.toStatement habove).1

end SqlCompiler
