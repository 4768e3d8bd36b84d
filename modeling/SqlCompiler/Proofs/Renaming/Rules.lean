import SqlCompiler.Proofs.Lowering.History
import SqlCompiler.Proofs.Lowering.Locality
import SqlCompiler.Proofs.Renaming.Steps

/-!
# Rules in a renamed copy

A rule that reads does renamed in a copy of a store what it does in the store, if its lowerer does.
The other rules give statements and unfinished chains, which no part of a query can be.

Main results:

- Definition `Rule.Mirrors`: a rule and its renamed counterpart, where it reads.
- Definition `LowerM.Returns`: a property of the results of a step.
- Theorem `standardRules_mirror`: the standard rules.
- Theorem `lowererWithin_mirrors`: lowering by these rules does renamed in a copy what it does in
  the store, also where it may go deeper.
-/

namespace SqlCompiler

open LowerM.Mirrors (andThen done throw refuse store read mapM ite choose unlessRefused
  modifyQuery annotate arg newQuery addSource addWhere selectOnly columnFor expose wrap wrapIf
  materialize narrow joinSource asSide checkSequence ofExcept)

variable {ρ : Renaming} {l l' : Lowerer}

/-! ## Calls -/

theorem reads_of_isSequence {outcome : Outcome} (h : outcome.isSequence = true) :
    outcome.reads = true := by
  cases outcome <;> first | rfl | cases h

theorem CallSite.isSequence_of_checkSequence {c : CallSite} {term : Term} {lowered : Lowered}
    {ctx : LowerContext} {st st' : LowerState} {u : Unit}
    (h : (c.checkSequence term lowered).Gives ctx st u st') :
    lowered.outcome.isSequence = true := by
  unfold CallSite.checkSequence at h
  split at h
  · assumption
  · cases h

namespace Lowerer.Mirrors

variable (h : Lowerer.Mirrors ρ l l')
include h

theorem lowerSource (c : CallSite) :
    LowerM.Mirrors ρ ρ.lowered (c.lowerSource l) ((ρ.callSite c).lowerSource l') := by
  unfold CallSite.lowerSource
  rw [show (ρ.callSite c).args = c.args from rfl]
  cases c.args with
  | nil => exact refuse _ _ _
  | cons source rest =>
    refine LowerM.Mirrors.bindIf (h.sequence source c.parent) (fun hgives => ?_) fun lowered _ =>
      andThen (checkSequence c source lowered) fun _ => done rfl
    obtain ⟨_, _, hcheck, _⟩ := hgives.of_bind
    exact reads_of_isSequence (CallSite.isSequence_of_checkSequence hcheck)

theorem filter (lowered : Lowered) (f : Term) (negated : Bool) :
    LowerM.Mirrors ρ ρ.lowered (lowered.filter l f negated)
      ((ρ.lowered lowered).filter l' f negated) := by
  refine andThen (wrapIf ρ.queryNode_hasFixedRows lowered) fun lowered =>
    andThen (h.applyCondition f rfl lowered.query) fun condition => ?_
  have hcondition : (if negated then (ρ.condition condition).negation else ρ.condition condition) =
      ρ.condition (if negated then condition.negation else condition) := by
    split <;> simp
  dsimp only
  rw [hcondition]
  refine choose (fun query => lowered.projection.isGrouping && query.isGrouped)
    (fun query => (ρ.projection lowered.projection).isGrouping && query.isGrouped)
    (fun query => by simp) lowered.query
    (andThen (modifyQuery lowered.query fun query => by simp [Renaming.queryNode]) fun _ =>
      done rfl)
    (andThen (addWhere lowered.query _) fun _ => done rfl)

theorem filterIf (lowered : Lowered) (f : Option Term) :
    LowerM.Mirrors ρ ρ.lowered (lowered.filterIf l f) ((ρ.lowered lowered).filterIf l' f) := by
  cases f with
  | none => exact done rfl
  | some f => exact h.filter lowered f false

end Lowerer.Mirrors

/-! ## Rules that read -/

/-- A rule that does renamed in a copy what it does in a store, where it gives rows or a value. -/
def Rule.Mirrors (ρ : Renaming) (rule : Rule) : Prop :=
  ∀ l l' : Lowerer, Lowerer.Mirrors ρ l l' → ∀ t parent,
    LowerM.MirrorsIf ρ (fun lowered => lowered.outcome.reads = true) ρ.lowered
      (rule.lower l t parent) (rule.lower l' t (parent.map ρ.query))

theorem LowerM.Mirrors.weaken {α : Type} {P : α → Prop} {r : α → α} {step step' : LowerM α}
    (h : LowerM.Mirrors ρ r step step') : LowerM.MirrorsIf ρ P r step step' :=
  fun ctx ctx' st a st₁ hctx hgives _ => h ctx ctx' st a st₁ hctx hgives trivial

/-- A rule for calls that reads. -/
theorem Rule.mirrors_ofCall {name : String} {accepts : SequenceOperator → List Term → Bool}
    {lower : Lowerer → CallSite → LowerM Lowered}
    (hlower : ∀ l l' : Lowerer, Lowerer.Mirrors ρ l l' → ∀ c,
      LowerM.Mirrors ρ ρ.lowered (lower l c) (lower l' (ρ.callSite c))) :
    (Rule.ofCall name accepts lower).Mirrors ρ := by
  intro l l' h t parent
  cases t with
  | call operator args => exact (hlower l l' h ⟨operator, args, parent⟩).weaken
  | _ => exact (refuse _ _ _ : LowerM.Mirrors ρ ρ.lowered _ _).weaken

/-! ### Tables -/

theorem tableRule_mirrors : tableRule.Mirrors ρ := by
  intro l l' h t parent
  cases t with
  | table name => exact (LowerM.Mirrors.readType name parent).weaken
  | _ => exact (refuse _ _ _ : LowerM.Mirrors ρ ρ.lowered _ _).weaken

theorem lowerOfType_mirrors (h : Lowerer.Mirrors ρ l l') (c : CallSite) (typeName : String) :
    LowerM.Mirrors ρ ρ.lowered (lowerOfType l c typeName)
      (lowerOfType l' (ρ.callSite c) typeName) := by
  refine andThen (h.lowerSource c) fun ⟨q, p, outcome⟩ => ?_
  match p with
  | .entity name (some t) members =>
    exact ite Iff.rfl (done rfl)
      (andThen (wrapIf ρ.queryNode_hasFixedRows ⟨q, _, outcome⟩) fun lowered =>
        narrow lowered t typeName)
  | .entity name none members | .record members | .scalar e | .grouping key element =>
    exact refuse _ _ _

/-- The table of constant rows has no references. -/
theorem lowerValues_mirrors (records : List (Members Constant)) (parent : Option QueryRef) :
    LowerM.Mirrors ρ ρ.lowered (lowerValues records parent)
      (lowerValues records (parent.map ρ.query)) := by
  let names := (records.head?.map Members.names).getD []
  let rows := records.map fun record =>
    names.map fun name => Scalar.constant ((Members.get? name record).getD .null)
  let table : Table := { name := { name := "Values" }, kind := .values rows }
  have hrows : rows.map (·.map ρ.scalar) = rows := by
    simp only [rows, List.map_map]
    exact List.map_congr_left fun record _ => by
      rw [Function.comp_apply, List.map_map]
      rfl
  have htable : ρ.tableNode table = table := by
    simp [table, Renaming.tableNode, Renaming.tableKind, hrows]
  have hadded := LowerM.Mirrors.allocate
    (ρ.allocates_addTable table (names.map (fieldOfRecords records)))
  rw [htable] at hadded
  refine andThen hadded fun t => andThen (newQuery parent) fun q =>
    andThen (addSource q (.ofTable t)) fun _ => store (fun hs => by rw [hs.table]) fun s => done ?_
  have hmembers :
      names.zip ((ρ.tableNode (s.table t)).fields.map fun f => Projection.scalar (.field f)) =
      (names.zip ((s.table t).fields.map fun f => Projection.scalar (.field f))).map
        fun m => (m.1, ρ.projection m.2) := by
    rw [Renaming.tableNode, List.map_map, List.zip_map_right, List.zip_map_right, List.map_map]
    rfl
  have hprojection := ρ.projection_ofList
    (names.zip ((s.table t).fields.map fun f => Projection.scalar (.field f)))
  rw [← hmembers] at hprojection
  exact congrArg (fun p => ({ query := ρ.query q, projection := p } : Lowered)) hprojection.symm

theorem valuesRule_mirrors : valuesRule.Mirrors ρ := by
  intro l l' h t parent
  unfold valuesRule
  dsimp only
  cases t.constantRecords? with
  | some records => exact (lowerValues_mirrors records parent).weaken
  | none => exact (refuse _ _ _ : LowerM.Mirrors ρ ρ.lowered _ _).weaken

/-! ### Clauses -/

theorem lowerOrdering_mirrors (h : Lowerer.Mirrors ρ l l') (c : CallSite)
    (after descending : Bool) :
    LowerM.Mirrors ρ ρ.lowered (lowerOrdering l c after descending)
      (lowerOrdering l' (ρ.callSite c) after descending) := by
  refine andThen (h.lowerSource c) fun lowered => ?_
  have hrest : ∀ lowered : Lowered, LowerM.Mirrors ρ ρ.lowered
      (do
        let key ← l.applyProjection (← c.arg 1) [lowered.projection] lowered.query
        let items := key.scalars.map fun expression => { expression, descending : OrderItem }
        LowerM.modifyQuery lowered.query fun q =>
          { q with orderBy := (if after then q.orderBy else []) ++ items }
        return lowered)
      (do
        let key ← l'.applyProjection (← (ρ.callSite c).arg 1) [ρ.projection lowered.projection]
          (ρ.query lowered.query)
        let items := key.scalars.map fun expression => { expression, descending : OrderItem }
        LowerM.modifyQuery (ρ.query lowered.query) fun q =>
          { q with orderBy := (if after then q.orderBy else []) ++ items }
        return ρ.lowered lowered) := by
    intro lowered
    refine andThen (arg c 1) fun f => andThen (h.applyProjection f rfl lowered.query) fun key =>
      andThen (modifyQuery lowered.query fun query => ?_) fun _ => done rfl
    have hitems : ((ρ.projection key).scalars.map fun expression =>
        ({ expression, descending } : OrderItem)) =
        (key.scalars.map fun expression => ({ expression, descending } : OrderItem)).map
          ρ.orderItem := by
      rw [Renaming.projection_scalars, List.map_map, List.map_map]
      rfl
    rw [hitems]
    cases after <;> simp [Renaming.queryNode]
  exact ite Iff.rfl (hrest lowered)
    (andThen (wrapIf ρ.queryNode_hasFixedRows lowered) fun lowered => hrest lowered)

theorem lowerPaging_mirrors (h : Lowerer.Mirrors ρ l l') (c : CallSite) :
    LowerM.Mirrors ρ ρ.lowered (lowerPaging l c) (lowerPaging l' (ρ.callSite c)) := by
  refine andThen (h.lowerSource c) fun lowered =>
    andThen (wrapIf ρ.queryNode_isLimited lowered) fun lowered => andThen (arg c 1) fun t =>
      andThen (h.scalar t lowered.query) fun count =>
        andThen (modifyQuery lowered.query fun query => ?_) fun _ => done rfl
  rw [show (ρ.callSite c).operator = c.operator from rfl]
  split
  · rfl
  · cases hskip : query.skip with
    | none => simp [Renaming.queryNode, hskip]
    | some previous => simp [Renaming.queryNode, hskip]

theorem lowerModifier_mirrors (h : Lowerer.Mirrors ρ l l') (c : CallSite) :
    LowerM.Mirrors ρ ρ.lowered (lowerModifier l c) (lowerModifier l' (ρ.callSite c)) := by
  refine andThen (h.lowerSource c) fun lowered => ?_
  rw [show (ρ.callSite c).operator = c.operator from rfl]
  split
  · exact wrap lowered
  · exact andThen (modifyQuery lowered.query fun _ => rfl) fun _ => done rfl
  · exact andThen (annotate (fun _ => ⟨rfl, rfl⟩) fun _ => ⟨rfl, rfl⟩) fun _ => done rfl
  · exact andThen (modifyQuery lowered.query fun _ => rfl) fun _ => done rfl
  · exact andThen (annotate (fun _ => ⟨rfl, rfl⟩) fun _ => ⟨rfl, rfl⟩) fun _ => done rfl
  · exact done rfl

/-- What follows the projection a function makes, or the one there is. -/
theorem Lowerer.Mirrors.applyOr (h : Lowerer.Mirrors ρ l l') {f : Option Term}
    {args args' : List Projection} (hargs : args' = args.map ρ.projection) (q : QueryRef)
    (p : Projection) {next next' : Projection → LowerM Lowered}
    (hnext : ∀ p, LowerM.Mirrors ρ ρ.lowered (next p) (next' (ρ.projection p))) :
    LowerM.Mirrors ρ ρ.lowered
      (match f with
        | some f => l.applyProjection f args q >>= next
        | none => pure p >>= next)
      (match f with
        | some f => l'.applyProjection f args' (ρ.query q) >>= next'
        | none => pure (ρ.projection p) >>= next') := by
  cases f with
  | some f => exact andThen (h.applyProjection f hargs q) hnext
  | none => exact andThen (done rfl) hnext

theorem lowerGroupBy_mirrors (h : Lowerer.Mirrors ρ l l') (c : CallSite) :
    LowerM.Mirrors ρ ρ.lowered (lowerGroupBy l c) (lowerGroupBy l' (ρ.callSite c)) := by
  refine andThen (h.lowerSource c) fun lowered => andThen (wrapIf (fun query => by simp) lowered)
    fun lowered => andThen (arg c 1) fun selector =>
      andThen (h.applyProjection selector rfl lowered.query) fun key => ?_
  have hitems : ∀ (key : Projection) (query : Query),
      { ρ.queryNode query with grouping :=
        { (ρ.queryNode query).grouping with items := (ρ.projection key).scalars } } =
        ρ.queryNode { query with grouping := { query.grouping with items := key.scalars } } :=
    fun key query => by simp [Renaming.queryNode]
  -- the groups are made the same way whether or not the source was wrapped for the key
  refine ite (by rw [show (ρ.lowered lowered).projection = ρ.projection lowered.projection from rfl,
      Renaming.projection_isComputedKey, Renaming.projection_isSelectedFrom])
    (andThen (wrap lowered) fun lowered =>
      andThen (h.applyProjection selector rfl lowered.query) fun key =>
        andThen (r := Prod.map ρ.lowered ρ.projection) (done rfl) ?_)
    (andThen (r := Prod.map ρ.lowered ρ.projection) (done rfl) ?_)
  all_goals
    rintro ⟨lowered, key⟩
    refine h.applyOr rfl lowered.query lowered.projection fun element =>
      andThen (modifyQuery lowered.query (hitems key)) fun _ =>
        h.applyOr rfl lowered.query (.grouping key element) fun p => done rfl

/-! ### Joins and set operators -/

theorem joinedTerm_mirrors (kind : JoinKind) (inner : Term) :
    LowerM.Mirrors ρ (fun joined => joined) (joinedTerm kind inner) (joinedTerm kind inner) := by
  unfold joinedTerm
  split
  · exact andThen (arg ⟨.defaultIfEmpty, _, none⟩ 0) fun t => done rfl
  · exact done rfl

/-- What follows a check that a lowered term is rows shows that it is. -/
theorem reads_of_unlessRefused {lowered : Lowered} {text reason : String} {α β : Type}
    {next : α → LowerM β} {other : LowerM β} {ctx : LowerContext} {st st' : LowerState} {b : β}
    (hgives : (if (!lowered.outcome.isSequence) = true then LowerM.refuse text reason >>= next
      else other).Gives ctx st b st') : lowered.outcome.reads = true := by
  cases hsequence : lowered.outcome.isSequence with
  | true => exact reads_of_isSequence hsequence
  | false =>
    rw [hsequence] at hgives
    cases hgives

theorem lowerSetOperation_mirrors (h : Lowerer.Mirrors ρ l l') (c : CallSite)
    (operation : SetOperation) :
    LowerM.Mirrors ρ ρ.lowered (lowerSetOperation l c operation)
      (lowerSetOperation l' (ρ.callSite c) operation) := by
  have hother : ∀ query : Query,
      (ρ.queryNode query).setOperators.any (·.operation != operation) =
        query.setOperators.any (·.operation != operation) := fun query => by
    simp [Renaming.queryNode, Renaming.setOperator, List.any_map, Function.comp_def]
  have hnames : ∀ side : Lowered, (ρ.lowered side).projection.leaves.map (·.1) =
      side.projection.leaves.map (·.1) := fun side => by
    simp [Renaming.lowered, List.map_map, Function.comp_def]
  refine andThen (h.lowerSource c) fun left => andThen (asSide hother left) fun left =>
    andThen (arg c 1) fun rightTerm =>
      LowerM.Mirrors.bindIf (h.sequence rightTerm c.parent) reads_of_unlessRefused fun right _ =>
        unlessRefused Iff.rfl <| andThen (asSide ρ.queryNode_hasSetOperators right) fun right =>
          unlessRefused (by simp only [hnames])
            (andThen (modifyQuery left.query fun query => ?_) fun _ => done rfl)
  simp [Renaming.queryNode, Renaming.setOperator, Renaming.lowered]

theorem lowerJoin_mirrors (h : Lowerer.Mirrors ρ l l') (c : CallSite) (kind : JoinKind) :
    LowerM.Mirrors ρ ρ.lowered (lowerJoin l c kind) (lowerJoin l' (ρ.callSite c) kind) := by
  refine andThen (h.lowerSource c) fun outer => andThen (wrapIf (fun query => by simp) outer)
    fun outer => andThen (arg c 1) fun t => andThen (joinedTerm_mirrors kind t)
      fun (kind, innerTerm) =>
        LowerM.Mirrors.bindIf (h.sequence innerTerm (some outer.query)) reads_of_unlessRefused
          fun inner _ => unlessRefused Iff.rfl <| andThen (joinSource inner)
            fun (source, innerProjection, condition) => andThen (arg c 2) fun f =>
              andThen (h.applyProjection f rfl outer.query) fun outerKey =>
                andThen (arg c 3) fun f => andThen (h.applyProjection f rfl outer.query)
                  fun innerKey => unlessRefused (by simp) ?_
  refine store (fun hs => by
    dsimp only [Renaming.lowered]
    rw [hs.query, Renaming.queryNode_sources]) fun s => ?_
  have hcondition : (keyCondition (ρ.projection outerKey).scalars
      (ρ.projection innerKey).scalars).conjoinAll (ρ.condition condition) =
      ρ.condition ((keyCondition outerKey.scalars innerKey.scalars).conjoinAll condition) := by
    simp
  dsimp only [Prod.map]
  rw [hcondition]
  cases (s.query outer.query).sources with
  | nil => exact throw _ _
  | cons first rest =>
    refine andThen (modifyQuery outer.query fun query => ?_) fun _ => andThen (arg c 4) fun f =>
      andThen (h.applyProjection f rfl outer.query) fun p => done rfl
    obtain ⟨item, aliasName, joins⟩ := first
    simp [Renaming.queryNode]

/-! ### Ends of sequences -/

theorem lowerElement_mirrors (h : Lowerer.Mirrors ρ l l') (c : CallSite) :
    LowerM.Mirrors ρ ρ.lowered (lowerElement l c) (lowerElement l' (ρ.callSite c)) := by
  refine andThen (h.lowerSource c) fun lowered => andThen (h.filterIf lowered c.args[1]?)
    fun lowered => andThen (wrapIf ρ.queryNode_isLimited lowered) fun lowered =>
      andThen (modifyQuery lowered.query fun query => ?_) fun _ => done rfl
  have hparent : (ρ.callSite c).parent.isNone = c.parent.isNone := Option.isNone_map
  rw [hparent]
  rfl

theorem aggregateOf_mirrors (h : Lowerer.Mirrors ρ l l') (c : CallSite) (lowered : Lowered) :
    LowerM.Mirrors ρ ρ.call (aggregateOf l c lowered)
      (aggregateOf l' (ρ.callSite c) (ρ.lowered lowered)) := by
  refine ite Iff.rfl (done (by simp [Renaming.callSite])) ?_
  have htype : ∀ value : Scalar, LowerM.Mirrors ρ ρ.call
      (do
        let type := c.operator.aggregateType ((← LowerM.store).typeOf value)
        return .aggregate c.operator.functionName [value] type)
      (do
        let type := c.operator.aggregateType ((← LowerM.store).typeOf (ρ.scalar value))
        return .aggregate c.operator.functionName [ρ.scalar value] type) :=
    fun value => store (fun hs => by rw [hs.typeOf]) fun s => done (by simp)
  rw [show (ρ.callSite c).args = c.args from rfl]
  cases c.args[1]? with
  | some selector => exact andThen (h.applyScalar selector rfl lowered.query) htype
  | none =>
    exact andThen (ofExcept (ρ.projection_toScalar lowered.projection _)) htype

theorem lowerAggregate_mirrors (h : Lowerer.Mirrors ρ l l') (c : CallSite) :
    LowerM.Mirrors ρ ρ.lowered (lowerAggregate l c) (lowerAggregate l' (ρ.callSite c)) := by
  have hrest : ∀ lowered : Lowered, LowerM.Mirrors ρ ρ.lowered
      (do
        let lowered ← LowerM.wrapIf (fun q => q.hasFixedRows || q.isGrouped) lowered
        LowerM.modifyQuery lowered.query fun q => { q with orderBy := [] }
        let call ← aggregateOf l c lowered
        return { query := lowered.query, projection := .scalar (.function call),
                 outcome := .scalar })
      (do
        let lowered ← LowerM.wrapIf (fun q => q.hasFixedRows || q.isGrouped) (ρ.lowered lowered)
        LowerM.modifyQuery lowered.query fun q => { q with orderBy := [] }
        let call ← aggregateOf l' (ρ.callSite c) lowered
        return { query := lowered.query, projection := .scalar (.function call),
                 outcome := .scalar }) :=
    fun lowered => andThen (wrapIf (fun query => by simp) lowered) fun lowered =>
      andThen (modifyQuery lowered.query fun _ => rfl) fun _ =>
        andThen (aggregateOf_mirrors h c lowered) fun call => done rfl
  exact andThen (h.lowerSource c) fun lowered =>
    ite Iff.rfl (andThen (h.filterIf lowered c.args[1]?) hrest) (andThen (done rfl) hrest)

theorem lowerContains_mirrors (h : Lowerer.Mirrors ρ l l') (c : CallSite) (outer : QueryRef)
    (lowered : Lowered) :
    LowerM.Mirrors ρ ρ.condition (lowerContains l c outer lowered)
      (lowerContains l' (ρ.callSite c) (ρ.query outer) (ρ.lowered lowered)) := by
  refine andThen (arg c 1) fun t => andThen (h.scalar t outer) fun item => ?_
  rw [show (ρ.lowered lowered).projection.leaves = _ from
    ρ.projection_leaves lowered.projection]
  match lowered.projection.leaves with
  | [] => exact refuse _ _ _
  | [(path, value)] =>
    exact andThen (columnFor lowered.query value path) fun column =>
      andThen (selectOnly lowered.query column) fun _ => done (by simp [Renaming.lowered])
  | first :: second :: rest => exact refuse _ _ _

/-- The test of a sequence that is no list of values. -/
theorem nestedTest_mirrors (h : Lowerer.Mirrors ρ l l') (c : CallSite) (outer : QueryRef)
    (source : Term) :
    LowerM.Mirrors ρ ρ.condition
      (do
        let lowered ← l.sequence source (some outer)
        c.checkSequence source lowered
        match c.operator with
        | .any =>
          let lowered ← lowered.filterIf l c.args[1]?
          return .ofPredicate (.existsIn lowered.query)
        | .all =>
          let lowered ← lowered.filter l (← c.arg 1) true
          return Condition.empty.conjoinNot (.existsIn lowered.query)
        | _ => lowerContains l c outer lowered)
      (do
        let lowered ← l'.sequence source (some (ρ.query outer))
        (ρ.callSite c).checkSequence source lowered
        match c.operator with
        | .any =>
          let lowered ← lowered.filterIf l' c.args[1]?
          return .ofPredicate (.existsIn lowered.query)
        | .all =>
          let lowered ← lowered.filter l' (← (ρ.callSite c).arg 1) true
          return Condition.empty.conjoinNot (.existsIn lowered.query)
        | _ => lowerContains l' (ρ.callSite c) (ρ.query outer) lowered) := by
  refine LowerM.Mirrors.bindIf (h.sequence source (some outer)) (fun hgives => ?_)
    fun lowered _ => andThen (checkSequence c source lowered) fun _ => ?_
  · obtain ⟨_, _, hcheck, _⟩ := hgives.of_bind
    exact reads_of_isSequence (CallSite.isSequence_of_checkSequence hcheck)
  · split
    · exact andThen (h.filterIf lowered c.args[1]?) fun lowered =>
        done (by simp [Renaming.lowered])
    · exact andThen (arg c 1) fun f => andThen (h.filter lowered f true) fun lowered =>
        done (by simp [Renaming.lowered])
    · exact lowerContains_mirrors h c outer lowered

theorem lowerTest_mirrors (h : Lowerer.Mirrors ρ l l') (c : CallSite) (outer : QueryRef) :
    LowerM.Mirrors ρ ρ.condition (lowerTest l c outer)
      (lowerTest l' (ρ.callSite c) (ρ.query outer)) := by
  refine andThen (arg c 0) fun source => ?_
  dsimp only
  rw [show (ρ.callSite c).operator = c.operator from rfl]
  split
  · next members _ hmembers =>
    exact andThen (arg c 1) fun t => andThen (h.scalar t outer) fun item =>
      store (fun hs => by
        rw [hs.membership item (Lowerer.Mirrors.scalar_listMembers hmembers)]) fun s => done rfl
  · exact nestedTest_mirrors h c outer source

/-! ## Rules that write -/

/-- A property of whatever a step gives. -/
def LowerM.Returns {α : Type} (P : α → Prop) (step : LowerM α) : Prop :=
  ∀ ctx st a st', step.Gives ctx st a st' → P a

namespace LowerM.Returns

variable {α β : Type} {P : α → Prop} {Q : β → Prop}

theorem done {a : α} (h : P a) : LowerM.Returns P (Pure.pure a) := by
  intro ctx st b st' hgives
  cases hgives
  exact h

theorem throw (e : SqlError) : LowerM.Returns P (MonadExcept.throw e : LowerM α) :=
  fun _ _ _ _ hgives => nomatch hgives

theorem refuse (text reason : String) : LowerM.Returns P (LowerM.refuse text reason : LowerM α) :=
  throw _

/-- Of two steps in a row the last one gives the result. -/
theorem after {step : LowerM α} {next : α → LowerM β} (h : ∀ a, (next a).Returns Q) :
    (step >>= next).Returns Q := by
  intro ctx st b st' hgives
  obtain ⟨a, st₁, _, hrest⟩ := hgives.of_bind
  exact h a ctx st₁ b st' hrest

theorem andThen {step : LowerM α} {next : α → LowerM β} (hstep : step.Returns P)
    (h : ∀ a, P a → (next a).Returns Q) : (step >>= next).Returns Q := by
  intro ctx st b st' hgives
  obtain ⟨a, st₁, hfirst, hrest⟩ := hgives.of_bind
  exact h a (hstep ctx st a st₁ hfirst) ctx st₁ b st' hrest

theorem ite {c : Prop} [Decidable c] {step other : LowerM α} (h : step.Returns P)
    (hother : other.Returns P) : (if c then step else other).Returns P := by
  split
  · exact h
  · exact hother

end LowerM.Returns

/-- A lowered term that is no part of a query. -/
def Lowered.Writes (lowered : Lowered) : Prop := lowered.outcome.reads = false

/-- A rule for calls that writes. -/
theorem Rule.writes_ofCall {name : String} {accepts : SequenceOperator → List Term → Bool}
    {lower : Lowerer → CallSite → LowerM Lowered}
    (hlower : ∀ l c, (lower l c).Returns Lowered.Writes) :
    (Rule.ofCall name accepts lower).Mirrors ρ := by
  intro l l' h t parent ctx ctx' st lowered st₁ hctx hgives hreads
  have hwrites : lowered.Writes := by
    cases t with
    | call operator args => exact hlower l _ ctx st lowered st₁ hgives
    | _ => cases hgives
  rw [hwrites] at hreads
  cases hreads

open LowerM.Returns (after)

theorem insertRule_mirrors : insertRule.Mirrors ρ := by
  refine Rule.writes_ofCall fun l c => ?_
  split
  · exact after fun _ => after fun (_, _) => after fun _ => .done rfl
  · refine after fun lowered => ?_
    split
    · exact after fun _ => after fun _ => after fun _ => .ite
        (after fun _ => after fun _ => after fun _ => after fun _ => .done rfl)
        (after fun _ => after fun _ => after fun _ => .done rfl)
    · exact .refuse _ _
  · unfold lowerInsert
    split
    · refine after fun lowered => ?_
      split
      · exact .done rfl
      · exact .refuse _ _
    · exact after fun (_, _) => after fun _ => after fun _ => .done rfl
    · exact after fun _ => after fun _ => after fun (_, _) => after fun _ => after fun _ =>
        .done rfl
    · exact .refuse _ _

theorem insertOrUpdateRule_mirrors : insertOrUpdateRule.Mirrors ρ := by
  refine Rule.writes_ofCall fun l c => after fun _ => after fun (_, _) => after fun _ =>
    after fun _ => after fun _ => after fun _ => after fun _ => after fun _ => ?_
  split
  · exact after fun _ => after fun _ => after fun _ => .done rfl
  · exact after fun _ => after fun _ => after fun _ => .done rfl

theorem setMember_writes (l : Lowerer) (c : CallSite) (lowered : Lowered)
    (items : List Assignment) :
    LowerM.Returns Lowered.Writes (lowered.setMember l c items) :=
  after fun _ => after fun _ => after fun _ => after fun _ =>
    .ite (after fun _ => after fun _ => .done rfl) (after fun _ => after fun _ => .done rfl)

theorem updateRule_mirrors : updateRule.Mirrors ρ := by
  refine Rule.writes_ofCall fun l c => .ite (after fun lowered => ?_) (after fun (lowered, _) => ?_)
  · split
    · exact after (setMember_writes l c lowered)
    · exact after (setMember_writes l c lowered)
    · exact after (setMember_writes l c lowered)
  · exact .ite (.throw _) (after fun _ => .done rfl)

theorem deleteRule_mirrors : deleteRule.Mirrors ρ :=
  Rule.writes_ofCall fun _ _ => after fun _ => after fun _ => after fun _ => after fun _ =>
    .ite (after fun _ => after fun _ => after fun _ => .done rfl) (after fun _ => .done rfl)

theorem mergeRule_mirrors : mergeRule.Mirrors ρ := by
  refine Rule.writes_ofCall fun l c => .ite ?_ (after fun lowered => ?_)
  · exact after fun _ => after fun (_, _) => after fun _ => after fun _ => .done rfl
  · split
    · exact after fun _ => .done rfl
    · exact .refuse _ _

theorem multiInsertRule_mirrors : multiInsertRule.Mirrors ρ := by
  refine Rule.writes_ofCall fun l c => .ite (after fun _ => .done rfl) (after fun lowered => ?_)
  split
  · next d _ =>
    have hextend : (d.extend l c lowered).Returns fun outcome => outcome.reads = false := by
      unfold MultiInsertDraft.extend
      split
      · exact .ite (.throw _) (after fun _ => after fun _ => after fun _ => .done rfl)
      · exact .ite (.throw _) (after fun _ => after fun _ => after fun _ => after fun _ =>
          after fun _ => .done rfl)
      · exact .ite (.throw _) (after fun _ => after fun _ => after fun _ => .done rfl)
      · exact after fun _ => .done rfl
      · exact after fun _ => .done rfl
      · exact .refuse _ _
    exact hextend.andThen fun outcome houtcome => .done houtcome
  · exact .refuse _ _

theorem ddlRule_mirrors : ddlRule.Mirrors ρ := by
  refine Rule.writes_ofCall fun l c => after fun _ => after fun (_, _) => ?_
  dsimp only
  split
  · exact after fun _ => .done rfl
  · exact .refuse _ _

/-! ## The standard rules -/

/-- The standard rules do renamed in a copy what they do in a store, where they read. -/
theorem standardRules_mirror : ∀ rule ∈ standardRules, rule.Mirrors ρ := by
  have hcall {name : String} {accepts : SequenceOperator → List Term → Bool}
      {lower : Lowerer → CallSite → LowerM Lowered}
      (hlower : ∀ l l' : Lowerer, Lowerer.Mirrors ρ l l' → ∀ c,
        LowerM.Mirrors ρ ρ.lowered (lower l c) (lower l' (ρ.callSite c))) :
      (Rule.ofCall name accepts lower).Mirrors ρ := Rule.mirrors_ofCall hlower
  refine forall_mem_standardRules.mpr ⟨?_, ?_, ?_, ?_, ?_, ?_, ?_, ?_, ?_, ?_, ?_, ?_, ?_, ?_, ?_, ?_,
    ?_, ?_, ?_, ?_, ?_, ?_⟩
  · exact tableRule_mirrors
  · exact hcall fun _ _ h c => andThen (h.lowerSource c) fun lowered => andThen (arg c 1) fun f =>
      h.filter lowered f false
  · exact hcall fun _ _ h c => andThen (h.lowerSource c) fun lowered =>
      andThen (wrapIf ρ.queryNode_hasFixedColumns lowered) fun lowered => andThen (arg c 1) fun f =>
        andThen (h.applyProjection f rfl lowered.query) fun p => done rfl
  · exact hcall fun _ _ h c => lowerOrdering_mirrors h c _ _
  · exact hcall fun _ _ h c => lowerGroupBy_mirrors h c
  · refine hcall fun _ _ h c => ?_
    rw [show (ρ.callSite c).operator = c.operator from rfl]
    split
    · exact lowerJoin_mirrors h c _
    · exact refuse _ _ _
  · exact hcall fun _ _ h c => lowerPaging_mirrors h c
  · exact hcall fun _ _ h c => andThen (h.lowerSource c) fun lowered =>
      andThen (wrapIf (fun query => by simp) lowered) fun lowered =>
        andThen (materialize lowered.query lowered.projection false) fun _ =>
          andThen (modifyQuery lowered.query fun _ => rfl) fun _ => done rfl
  · exact hcall fun _ _ h c => lowerElement_mirrors h c
  · exact hcall fun _ _ h c => lowerAggregate_mirrors h c
  · exact hcall fun _ _ h c => andThen (newQuery c.parent) fun q =>
      andThen (lowerTest_mirrors h c q) fun condition => done (by simp [Renaming.lowered])
  · refine hcall fun _ _ h c => ?_
    rw [show (ρ.callSite c).operator = c.operator from rfl]
    split
    · exact lowerSetOperation_mirrors h c _
    · exact refuse _ _ _
  · refine hcall fun _ _ h c => ?_
    rw [show (ρ.callSite c).operator = c.operator from rfl]
    split
    · exact lowerOfType_mirrors h c _
    · exact refuse _ _ _
  · exact hcall fun _ _ h c => lowerModifier_mirrors h c
  · exact insertRule_mirrors
  · exact insertOrUpdateRule_mirrors
  · exact updateRule_mirrors
  · exact deleteRule_mirrors
  · exact mergeRule_mirrors
  · exact multiInsertRule_mirrors
  · exact ddlRule_mirrors
  · exact valuesRule_mirrors

/-- The rule that is asked for a term is the same in both states, if perhaps at another position. -/
theorem dispatch_mirrors (h : Lowerer.Mirrors ρ l l') (t : Term) (parent : Option QueryRef) :
    LowerM.MirrorsIf ρ (fun lowered => lowered.outcome.reads = true) ρ.lowered
      (dispatch standardRules l t parent) (dispatch standardRules l' t (parent.map ρ.query)) := by
  intro ctx ctx' st lowered st₁ hctx hgives hreads
  obtain ⟨_, _, hget, hrest⟩ := hgives.of_bind
  cases hget
  cases hfind : st.ranking.find? standardRules t with
  | none =>
    rw [hfind] at hrest
    cases hrest
  | some found =>
    obtain ⟨position, rule⟩ := found
    rw [hfind] at hrest
    obtain ⟨_, st₂, hlower, hrest⟩ := hrest.of_bind
    obtain ⟨_, _, hcount, hrest⟩ := hrest.of_bind
    cases hcount
    cases hrest
    have hmem := (Ranking.mem_of_find? hfind).1
    obtain ⟨hgrows, hmirror⟩ := standardRules_mirror rule hmem l l' h t parent ctx ctx' st lowered
      st₂ hctx hlower hreads
    refine ⟨hgrows, fun bound st' hbound hst => ?_⟩
    have hsame := Ranking.find?_rule_eq (standardRules_exclusive t) hst.covers hst.covers'
    rw [hfind] at hsame
    obtain ⟨⟨position', rule'⟩, hfind', rfl⟩ := Option.map_eq_some_iff.mp hsame.symm
    obtain ⟨st₂', hlower', hst₂⟩ := hmirror bound st' hbound hst
    refine ⟨{ st₂' with ranking := st₂'.ranking.recordUse position' },
      LowerM.Gives.get.bind ?_, hst₂.tracks, Ranking.covers_recordUse hst₂.covers position,
      Ranking.covers_recordUse hst₂.covers' position'⟩
    rw [hfind']
    exact hlower'.bind ((LowerM.Gives.modify _).bind (LowerM.Gives.pure _))

/-- Lowering by the standard rules does renamed in a copy what it does in the store, also where it
may go deeper. -/
theorem lowererWithin_mirrors (ρ : Renaming) :
    ∀ {fuel fuel' : Nat}, fuel ≤ fuel' →
      Lowerer.Mirrors ρ (lowererWithin standardRules fuel) (lowererWithin standardRules fuel')
  | 0, _, _ =>
    { sequence := fun _ _ => (throw _ _ : LowerM.Mirrors ρ _ _ _).weaken
      projection := fun _ _ => throw _ _
      scalar := fun _ _ => throw _ _
      condition := fun _ _ => throw _ _ }
  | _ + 1, _ + 1, h =>
    have ih := lowererWithin_mirrors ρ (Nat.le_of_succ_le_succ h)
    { sequence := dispatch_mirrors ih
      projection := ih.projectionOf
      scalar := ih.scalarOf
      condition := ih.conditionOf }

theorem standardLowerer_mirrors (ρ : Renaming) :
    Lowerer.Mirrors ρ standardLowerer standardLowerer where
  sequence t := (lowererWithin_mirrors ρ (Nat.le_refl (loweringDepth t))).sequence t
  projection t := (lowererWithin_mirrors ρ (Nat.le_refl (loweringDepth t))).projection t
  scalar t := (lowererWithin_mirrors ρ (Nat.le_refl (loweringDepth t))).scalar t
  condition t := (lowererWithin_mirrors ρ (Nat.le_refl (loweringDepth t))).condition t

end SqlCompiler
