import SqlCompiler.Proofs.Lowering.RuleFrames
import SqlCompiler.Proofs.Normalization.Children

/-!
# Lowering looks at the parts of a term

A rule asks its lowerer for parts of the term that it lowers and for nothing else.  So lowerers that
agree on these parts lead to the same steps, and what rules make of operators that a term does not
call is of no account to it.

Main results:

- Definition `Lowerer.AgreesOn`: lowerers that take the same steps for every part of a term.
- Definition `Rule.IsLocal`: a rule asks for parts of a term only.
- Theorem `standardRules_local`: the standard rules do.
- Theorem `lowererWithin_settled`: lowering a term deeper than it is changes nothing.
- Theorem `Lowerer.ofRules_sequence`: a term is lowered by a rule that has its parts lowered alike.
- Theorem `lowererWithin_among`: a term is lowered by rules as by these rules for calls of its own
  operators.
-/

namespace SqlCompiler

/-! ## Parts of terms -/

/-- The body of a function occurs in it. -/
theorem Term.occursIn_of_functionOf {f body : Term} {arity : Nat} {params : List String}
    (h : f.functionOf arity = .ok (params, body)) : body.OccursIn f := by
  cases f with
  | lambda found inner =>
    change (if found.length == arity then Except.ok (found, inner) else _) = _ at h
    split at h
    · cases h
      exact .child (.head _)
    · cases h
  | quote inner => exact .inside (.head _) (occursIn_of_functionOf (f := inner) h)
  | _ =>
    change Except.error _ = _ at h
    cases h

/-- Whether a term is lowered as a scalar of its own.  The other ones are lowered as projections. -/
def Term.isValue : Term → Bool
  | constant _ | parameter .. | binary .. | not _ | negate _ | conditional .. | convert ..
  | function .. => true
  | _ => false

/-- Whether a term is lowered as a condition also where a scalar is asked for. -/
def Term.isTest : Term → Bool
  | binary operator .. => operator.comparison?.isSome || operator.isLogical
  | not _ => true
  | _ => false

/-- Lowerers that take the same steps for every part of a term. -/
structure Lowerer.AgreesOn (t : Term) (l l' : Lowerer) : Prop where
  sequence : ∀ {part}, part.OccursIn t → l.sequence part = l'.sequence part
  projection : ∀ {part}, part.OccursIn t → l.projection part = l'.projection part
  scalar : ∀ {part}, part.OccursIn t → l.scalar part = l'.scalar part
  condition : ∀ {part}, part.OccursIn t → l.condition part = l'.condition part

section

variable {α β γ : Type}

theorem LowerM.mapM_congr {f g : γ → LowerM β} {l : List γ} (h : ∀ item ∈ l, f item = g item) :
    l.mapM f = l.mapM g := by
  induction l with
  | nil => rfl
  | cons item rest ih =>
    rw [List.mapM_cons, List.mapM_cons, h item (.head _),
      ih fun other hother => h other (.tail _ hother)]

theorem LowerM.foldlM_congr {f f' : β → γ → LowerM β} {items : List γ}
    (h : ∀ item ∈ items, ∀ b, f b item = f' b item) (b : β) :
    items.foldlM f b = items.foldlM f' b := by
  induction items generalizing b with
  | nil => rfl
  | cons item rest ih =>
    rw [List.foldlM_cons, List.foldlM_cons, h item (.head _)]
    exact bind_congr fun b => ih (fun other hother => h other (.tail _ hother)) b

/-- Nothing follows an error. -/
theorem LowerM.throw_congr (e : SqlError) {next next' : β → LowerM α} :
    ((throw e : LowerM β) >>= next) = ((throw e : LowerM β) >>= next') := rfl

/-- A choice of a step and what follows. -/
theorem LowerM.ite_congr {c : Prop} [Decidable c] {step other : LowerM β}
    {next next' : β → LowerM α} (h : ∀ b, next b = next' b) :
    (if c then step >>= next else other >>= next) =
      if c then step >>= next' else other >>= next' := by
  rw [funext h]

/-- A refusal under a condition and what follows without it. -/
theorem LowerM.unless_congr {c : Prop} [Decidable c] {step : LowerM PUnit}
    {next next' : PUnit → LowerM α} (h : next ⟨⟩ = next' ⟨⟩) :
    (if c then step >>= next else next ⟨⟩) = if c then step >>= next' else next' ⟨⟩ := by
  rw [show next = next' from funext fun _ => h]

theorem CallSite.arg_congr (c : CallSite) {index : Nat} {next next' : Term → LowerM α}
    (h : ∀ t ∈ c.args, next t = next' t) : (c.arg index >>= next) = (c.arg index >>= next') := by
  unfold CallSite.arg
  split
  · next t ht => exact h t (List.mem_of_getElem? ht)
  · rfl

theorem Lowerer.apply_congr {lower lower' : Term → QueryRef → LowerM α} {f : Term}
    (h : ∀ part, part.OccursIn f → lower part = lower' part) (args : List Projection)
    (q : QueryRef) : apply lower f args q = apply lower' f args q := by
  unfold apply
  cases hf : f.functionOf args.length with
  | error e => exact LowerM.throw_congr e
  | ok found =>
    obtain ⟨params, body⟩ := found
    exact congrArg (fun step => LowerM.withVariables (params.zip args) (step q))
      (h body (Term.occursIn_of_functionOf hf))

end

namespace Lowerer

variable {l l' : Lowerer}

theorem AgreesOn.mono {t part : Term} (h : AgreesOn t l l') (hpart : part.OccursIn t) :
    AgreesOn part l l' where
  sequence hin := h.sequence (hin.trans hpart)
  projection hin := h.projection (hin.trans hpart)
  scalar hin := h.scalar (hin.trans hpart)
  condition hin := h.condition (hin.trans hpart)

theorem AgreesOn.applyProjection {f : Term} (h : AgreesOn f l l') :
    l.applyProjection f = l'.applyProjection f :=
  funext fun args => funext fun q => apply_congr (fun _ hpart => h.projection hpart) args q

theorem AgreesOn.applyScalar {f : Term} (h : AgreesOn f l l') :
    l.applyScalar f = l'.applyScalar f :=
  funext fun args => funext fun q => apply_congr (fun _ hpart => h.scalar hpart) args q

theorem AgreesOn.applyCondition {f : Term} (h : AgreesOn f l l') :
    l.applyCondition f = l'.applyCondition f :=
  funext fun args => funext fun q => apply_congr (fun _ hpart => h.condition hpart) args q

theorem AgreesOn.node {t : Term} (h : ∀ part ∈ t.children, AgreesOn part l l')
    (hsequence : l.sequence t = l'.sequence t) (hprojection : l.projection t = l'.projection t)
    (hscalar : l.scalar t = l'.scalar t) (hcondition : l.condition t = l'.condition t) :
    AgreesOn t l l' where
  sequence
    | .here => hsequence
    | .inside hchild hpart => (h _ hchild).sequence hpart
  projection
    | .here => hprojection
    | .inside hchild hpart => (h _ hchild).projection hpart
  scalar
    | .here => hscalar
    | .inside hchild hpart => (h _ hchild).scalar hpart
  condition
    | .here => hcondition
    | .inside hchild hpart => (h _ hchild).condition hpart

/-! ## Values -/

theorem functionOf_congr (whole : Term) (name : String) {args : List Term}
    (h : ∀ t ∈ args, AgreesOn t l l') (q : QueryRef) :
    l.functionOf whole name args q = l'.functionOf whole name args q := by
  unfold functionOf
  split
  · next kind receiver pattern rest _ =>
    rw [(h receiver (.head _)).scalar .here, (h pattern (.tail _ (.head _))).scalar .here]
  · rw [LowerM.mapM_congr fun t ht => congrFun ((h t ht).scalar .here) q]

theorem groupSource_congr {t : Term} (h : AgreesOn t l l') (q : QueryRef) :
    l.groupSource q t = l'.groupSource q t := by
  have hargs : ∀ {operator source rest}, AgreesOn (.call operator (source :: rest)) l l' →
      ∀ part ∈ source :: rest, AgreesOn part l l' := fun h part hpart => h.mono (.child hpart)
  induction t using Lowerer.groupSource.induct q with
  | case2 source rest ih =>
    rw [groupSource, groupSource, ih (hargs h source (.head _))]
    refine bind_congr fun rows => ?_
    cases rows with
    | none => rfl
    | some rows => exact CallSite.arg_congr _ fun f hf => by rw [(hargs h f hf).applyCondition]
  | case3 source rest ih =>
    rw [groupSource, groupSource, ih (hargs h source (.head _))]
    refine bind_congr fun rows => ?_
    cases rows with
    | none => rfl
    | some rows => exact CallSite.arg_congr _ fun f hf => by rw [(hargs h f hf).applyProjection]
  | case4 source rest ih =>
    rw [groupSource, groupSource, ih (hargs h source (.head _))]
  | _ => simp_all [groupSource]

theorem callOf_congr {operator : SequenceOperator} {args : List Term}
    (hargs : ∀ part ∈ args, AgreesOn part l l')
    (hsequence : l.sequence (.call operator args) = l'.sequence (.call operator args))
    (q : QueryRef) : l.callOf operator args q = l'.callOf operator args q := by
  unfold callOf
  dsimp only
  rw [hsequence]
  split
  · exact CallSite.arg_congr _ fun source hsource => by
      rw [groupSource_congr (hargs source hsource)]
  · split
    · exact CallSite.arg_congr _ fun source _ => by
        split
        · exact CallSite.arg_congr _ fun item hitem => by rw [(hargs item hitem).scalar .here]
        · rfl
    · rfl

section

variable {t : Term} (h : ∀ part ∈ t.children, AgreesOn part l l') (q : QueryRef)
include h

/-- The projection of a term is that of its parts, of a sequence or of a value. -/
theorem projectionOf_congr (hsequence : l.sequence t = l'.sequence t)
    (hscalar : t.isValue = true → l.scalar t = l'.scalar t) :
    l.projectionOf t q = l'.projectionOf t q := by
  cases t with
  | member owner name => rw [projectionOf, projectionOf, (h owner (.head _)).projection .here]
  | record members =>
    have hmembers := LowerM.mapM_congr (l := members)
      (f := fun m => do return (m.1, ← l.projection m.2 q))
      (g := fun m => do return (m.1, ← l'.projection m.2 q))
      fun m hm => by rw [(h m.2 (List.mem_map_of_mem hm)).projection .here]
    exact congrArg (· >>= _) hmembers
  | entity name members =>
    have hmembers := LowerM.mapM_congr (l := members)
      (f := fun m => do return (m.1, ← l.scalar m.2 q))
      (g := fun m => do return (m.1, ← l'.scalar m.2 q))
      fun m hm => by rw [(h m.2 (List.mem_map_of_mem hm)).scalar .here]
    exact congrArg (· >>= _) hmembers
  | quote inner => rw [projectionOf, projectionOf, (h inner (.head _)).projection .here]
  | call operator args =>
    have hargs : ∀ part ∈ args, AgreesOn part l l' := h
    rw [projectionOf, projectionOf, callOf_congr hargs hsequence]
  | table | lambda | bound => rfl
  | _ => exact congrArg (· q >>= _) (hscalar rfl)

/-- The value of a term is that of its parts, of a test or of its projection. -/
theorem scalarOf_congr (hprojection : t.isValue = false → l.projection t = l'.projection t)
    (hcondition : t.isTest = true → l.condition t = l'.condition t) :
    l.scalarOf t q = l'.scalarOf t q := by
  cases t with
  | constant | parameter => rfl
  | binary operator left right =>
    unfold scalarOf
    dsimp only
    split
    · next htest => rw [hcondition htest]
    · rw [(h left (.head _)).scalar .here, (h right (.tail _ (.head _))).scalar .here]
  | not operand => rw [scalarOf, scalarOf, hcondition rfl]
  | negate operand => rw [scalarOf, scalarOf, (h operand (.head _)).scalar .here]
  | conditional test yes no =>
    rw [scalarOf, scalarOf, (h test (.head _)).condition .here,
      (h yes (.tail _ (.head _))).scalar .here, (h no (.tail _ (.tail _ (.head _)))).scalar .here]
  | convert operand target => rw [scalarOf, scalarOf, (h operand (.head _)).scalar .here]
  | function name args => exact functionOf_congr _ name h q
  | _ => exact congrArg (· q >>= _) (hprojection rfl)

/-- The condition of a term is that of its parts or of its value. -/
theorem conditionOf_congr (hscalar : t.isTest = false → l.scalar t = l'.scalar t) :
    l.conditionOf t q = l'.conditionOf t q := by
  cases t with
  | binary operator left right =>
    unfold conditionOf
    dsimp only
    split
    · rw [(h left (.head _)).condition .here, (h right (.tail _ (.head _))).condition .here]
    · rw [(h left (.head _)).condition .here, (h right (.tail _ (.head _))).condition .here]
    · rw [(h left (.head _)).scalar .here, (h right (.tail _ (.head _))).scalar .here]
    · next hand hor hnone =>
      rw [hscalar (by simp_all [Term.isTest, TermOperator.isLogical])]
  | not operand => rw [conditionOf, conditionOf, (h operand (.head _)).condition .here]
  | constant value =>
    cases value with
    | boolean b => rfl
    | _ => exact congrArg (· q >>= _) (hscalar rfl)
  | _ => exact congrArg (· q >>= _) (hscalar rfl)

end

/-! ## Assignments and aggregates -/

theorem assignments_congr {setter : Term} (h : AgreesOn setter l l') (args : List Projection)
    (t : TableRef) (q : QueryRef) (kind : WriteKind) :
    l.assignments setter args t q kind = l'.assignments setter args t q kind := by
  unfold assignments
  cases hsetter : setter.functionOf args.length with
  | error e => exact LowerM.throw_congr e
  | ok found =>
    obtain ⟨params, body⟩ := found
    have hbody := h.mono (Term.occursIn_of_functionOf hsetter)
    have hmember : ∀ name {value}, AgreesOn value l l' → ∀ items,
        l.assignMember t kind q items name value = l'.assignMember t kind q items name value :=
      fun name value hvalue items => by rw [assignMember, assignMember, hvalue.scalar .here]
    simp only [LowerM.ofExcept, pure_bind]
    cases body with
    | record members | entity _ members =>
      exact congrArg (LowerM.withVariables (params.zip args)) <|
        LowerM.foldlM_congr (fun (name, value) hm items =>
          hmember name (hbody.mono (.child (List.mem_map_of_mem hm))) items) []
    | _ => exact LowerM.throw_congr _

end Lowerer

/-! ## Calls -/

section

open Lowerer

variable {l l' : Lowerer} {c : CallSite}

theorem filter_congr {f : Term} (h : AgreesOn f l l') (lowered : Lowered) (negated : Bool) :
    lowered.filter l f negated = lowered.filter l' f negated := by
  unfold Lowered.filter
  rw [h.applyCondition]

theorem setterItems_congr {setter : Term} (h : AgreesOn setter l l') (lowered : Lowered) :
    lowered.setterItems l setter = lowered.setterItems l' setter := by
  unfold Lowered.setterItems
  exact LowerM.unless_congr <| bind_congr fun table => by rw [assignments_congr h]

theorem lowerBranch_congr {setter : Term} (h : AgreesOn setter l l') (lowered : Lowered)
    (table : Term) :
    lowerBranch l lowered table setter = lowerBranch l' lowered table setter := by
  unfold lowerBranch
  exact bind_congr fun (into, _) => by
    dsimp only
    rw [assignments_congr h]

theorem lowerMergeSource_congr {t : Term} (h : AgreesOn t l l') (merge : QueryRef) :
    lowerMergeSource l merge t = lowerMergeSource l' merge t := by
  unfold lowerMergeSource
  rw [h.sequence .here]

variable (h : ∀ part ∈ c.args, AgreesOn part l l')
include h

theorem agreesOn_get {index : Nat} {t : Term} (ht : c.args[index]? = some t) : AgreesOn t l l' :=
  h t (List.mem_of_getElem? ht)

theorem lowerSource_congr : c.lowerSource l = c.lowerSource l' := by
  unfold CallSite.lowerSource
  split
  · rfl
  · next source rest hargs =>
    rw [hargs] at h
    rw [(h source (.head _)).sequence .here]

theorem lowerFirst_congr : c.lowerFirst l = c.lowerFirst l' :=
  c.arg_congr fun t ht => by rw [(h t ht).sequence .here]

theorem filterIf_get_congr (lowered : Lowered) (index : Nat) :
    lowered.filterIf l c.args[index]? = lowered.filterIf l' c.args[index]? := by
  cases hf : c.args[index]? with
  | none => rfl
  | some f => exact filter_congr (agreesOn_get h hf) lowered false

theorem aggregateOf_congr (lowered : Lowered) :
    aggregateOf l c lowered = aggregateOf l' c lowered := by
  unfold aggregateOf
  split
  · rfl
  · split
    · next selector hselector => rw [(agreesOn_get h hselector).applyScalar]
    · rfl

theorem lowerTest_congr (outer : QueryRef) : lowerTest l c outer = lowerTest l' c outer := by
  unfold lowerTest
  refine c.arg_congr fun source hsource => ?_
  dsimp only
  split
  · exact c.arg_congr fun item hitem => by rw [(h item hitem).scalar .here]
  · rw [(h source hsource).sequence .here]
    refine bind_congr fun lowered => bind_congr fun _ => ?_
    split
    · rw [filterIf_get_congr h lowered 1]
    · exact c.arg_congr fun f hf => by rw [filter_congr (h f hf)]
    · unfold lowerContains
      exact c.arg_congr fun item hitem => by rw [(h item hitem).scalar .here]

theorem lowerValue_congr : lowerValue l c = lowerValue l' c := by
  unfold lowerValue
  rw [lowerFirst_congr h]
  refine bind_congr fun lowered => ?_
  split
  · refine c.arg_congr fun member _ => bind_congr fun _ => c.arg_congr fun given hgiven => ?_
    dsimp only
    split
    · cases hbody : given.functionOf 0 with
      | error e => rfl
      | ok found =>
        obtain ⟨params, body⟩ := found
        simp only [LowerM.ofExcept, pure_bind]
        rw [(h given hgiven).scalar (Term.occursIn_of_functionOf hbody)]
    · simp only [pure_bind]
      rw [(h given hgiven).scalar .here]
  · rfl

theorem lowerInsert_congr : lowerInsert l c = lowerInsert l' c := by
  unfold lowerInsert
  split
  · next chain hargs =>
    rw [hargs] at h
    rw [(h chain (.head _)).sequence .here]
  · next table setter hargs =>
    rw [hargs] at h
    exact bind_congr fun (into, projection) => bind_congr fun query => by
      rw [assignments_congr (h setter (.tail _ (.head _)))]
  · next table setter hargs =>
    rw [lowerSource_congr h]
    rw [hargs] at h
    exact bind_congr fun _ => bind_congr fun lowered => bind_congr fun (into, _) => by
      dsimp only
      rw [assignments_congr (h setter (.tail _ (.tail _ (.head _))))]
  · rfl

theorem lowerSet_congr : lowerSet l c = lowerSet l' c := by
  unfold lowerSet
  rw [lowerFirst_congr h]
  refine bind_congr fun lowered => ?_
  dsimp only
  split
  all_goals
    refine bind_congr fun items => bind_congr fun table => c.arg_congr fun _ _ =>
      bind_congr fun member => c.arg_congr fun given hgiven => ?_
    rw [(h given hgiven).applyScalar, (h given hgiven).scalar .here]

theorem lowerUpdateParts_congr : lowerUpdateParts l c = lowerUpdateParts l' c := by
  unfold lowerUpdateParts
  split
  · next chain hargs =>
    rw [hargs] at h
    rw [(h chain (.head _)).sequence .here]
  · next source setter hargs =>
    rw [hargs] at h
    rw [(h source (.head _)).sequence .here]
    exact bind_congr fun lowered => by rw [setterItems_congr (h setter (.tail _ (.head _)))]
  · next source condition setter hargs =>
    rw [hargs] at h
    rw [(h source (.head _)).sequence .here]
    refine bind_congr fun lowered => ?_
    rw [filter_congr (h condition (.tail _ (.head _)))]
    exact bind_congr fun lowered => by
      rw [setterItems_congr (h setter (.tail _ (.tail _ (.head _))))]
  · rfl

theorem lowerOn_congr (d : MergeDraft) (q : QueryRef) : d.lowerOn l c q = d.lowerOn l' c q := by
  unfold MergeDraft.lowerOn
  refine LowerM.unless_congr <| bind_congr fun source => ?_
  split
  · next condition hargs =>
    rw [hargs] at h
    rw [(h condition (.tail _ (.head _))).applyCondition]
  · next targetKey sourceKey hargs =>
    rw [hargs] at h
    unfold MergeDraft.lowerKeys
    rw [(h targetKey (.tail _ (.head _))).applyProjection,
      (h sourceKey (.tail _ (.tail _ (.head _)))).applyProjection]
  · rfl

theorem lowerOperation_congr (d : MergeDraft) (q : QueryRef) (form : MergeForm) :
    d.lowerOperation l c q form = d.lowerOperation l' c q form := by
  unfold MergeDraft.lowerOperation
  refine LowerM.unless_congr <| bind_congr fun source => ?_
  -- What follows the setter, and within that what follows the condition for deleting, is the same.
  extract_lets args afterSetter alsoDeletes next next'
  have hnext : next = next' := funext fun items => by
    unfold next next'
    extract_lets last last'
    have hlast : last = last' := funext fun whereDelete => by
      unfold last last'
      dsimp only
      split
      · next condition hcondition => rw [(agreesOn_get h hcondition).applyCondition]
      · rfl
    split
    · exact c.arg_congr fun condition hcondition => by
        rw [(h condition hcondition).applyCondition, hlast]
    · rw [hlast]
  split
  · refine c.arg_congr fun setter hsetter => ?_
    rw [assignments_congr (h setter hsetter), hnext]
  · rw [hnext]

theorem extend_congr (d : MergeDraft) (q : QueryRef) : d.extend l c q = d.extend l' c q := by
  unfold MergeDraft.extend
  split
  · exact LowerM.unless_congr <| c.arg_congr fun t ht => by rw [lowerMergeSource_congr (h t ht)]
  · rw [lowerOn_congr h]
  · split
    · rw [lowerOperation_congr h]
    · rfl

theorem extendInsert_congr (d : MultiInsertDraft) (lowered : Lowered) :
    d.extend l c lowered = d.extend l' c lowered := by
  unfold MultiInsertDraft.extend
  split
  · exact LowerM.unless_congr <| c.arg_congr fun table _ => c.arg_congr fun setter hsetter => by
      rw [lowerBranch_congr (h setter hsetter)]
  · exact LowerM.unless_congr <| c.arg_congr fun condition hcondition => by
      rw [(h condition hcondition).applyCondition]
      exact bind_congr fun _ => c.arg_congr fun table _ => c.arg_congr fun setter hsetter => by
        rw [lowerBranch_congr (h setter hsetter)]
  · exact LowerM.unless_congr <| c.arg_congr fun table _ => c.arg_congr fun setter hsetter => by
      rw [lowerBranch_congr (h setter hsetter)]
  · rfl
  · rfl
  · rfl

end

/-- The sequence that is joined occurs in the argument. -/
theorem joinedTerm_congr {α : Type} {kind : JoinKind} {inner : Term}
    {next next' : JoinKind × Term → LowerM α}
    (h : ∀ kind term, term.OccursIn inner → next (kind, term) = next' (kind, term)) :
    (joinedTerm kind inner >>= next) = (joinedTerm kind inner >>= next') := by
  unfold joinedTerm
  split
  · next args =>
    rw [bind_assoc, bind_assoc]
    exact CallSite.arg_congr _ fun t ht => h _ t (.child ht)
  · exact h _ _ .here

/-- The selectors of a grouping are among the terms. -/
theorem groupSelectors_mem (args : List Term) :
    (∀ f ∈ (groupSelectors args).1, f ∈ args) ∧ ∀ f ∈ (groupSelectors args).2, f ∈ args := by
  refine List.foldlRecOn (motive := fun selectors : Option Term × Option Term =>
    (∀ f ∈ selectors.1, f ∈ args) ∧ ∀ f ∈ selectors.2, f ∈ args) args _
      ⟨nofun, nofun⟩ fun selectors h arg harg => ?_
  dsimp only
  split
  · exact ⟨h.1, fun f hf => Option.some.inj hf ▸ harg⟩
  · exact ⟨fun f hf => Option.some.inj hf ▸ harg, h.2⟩

/-! ## Rules -/

/-- A rule asks its lowerer for parts of a term only. -/
def Rule.IsLocal (rule : Rule) : Prop :=
  ∀ (l l' : Lowerer) (t : Term) (parent : Option QueryRef),
    (∀ part ∈ t.children, Lowerer.AgreesOn part l l') →
      rule.lower l t parent = rule.lower l' t parent

theorem Rule.isLocal_ofCall {name : String} {accepts : SequenceOperator → List Term → Bool}
    {lower : Lowerer → CallSite → LowerM Lowered}
    (h : ∀ (l l' : Lowerer) (c : CallSite), (∀ part ∈ c.args, Lowerer.AgreesOn part l l') →
      lower l c = lower l' c) : (Rule.ofCall name accepts lower).IsLocal := by
  intro l l' t parent hparts
  unfold Rule.ofCall
  dsimp only
  split
  · exact h l l' _ hparts
  · rfl

theorem tableRule_local : tableRule.IsLocal := fun _ _ _ _ _ => rfl

theorem valuesRule_local : valuesRule.IsLocal := fun _ _ _ _ _ => rfl

theorem ddlRule_local : ddlRule.IsLocal := fun _ _ _ _ _ => rfl

theorem ofTypeRule_local : ofTypeRule.IsLocal :=
  Rule.isLocal_ofCall fun l l' c h => by
    split
    · unfold lowerOfType
      rw [lowerSource_congr h]
    · rfl

theorem whereRule_local : whereRule.IsLocal :=
  Rule.isLocal_ofCall fun l l' c h => by
    rw [lowerSource_congr h]
    exact bind_congr fun lowered => c.arg_congr fun f hf => filter_congr (h f hf) lowered false

theorem selectRule_local : selectRule.IsLocal :=
  Rule.isLocal_ofCall fun l l' c h => by
    rw [lowerSource_congr h]
    exact bind_congr fun _ => bind_congr fun _ => c.arg_congr fun f hf => by
      rw [(h f hf).applyProjection]

theorem orderByRule_local : orderByRule.IsLocal :=
  Rule.isLocal_ofCall fun l l' c h => by
    dsimp only
    unfold lowerOrdering
    rw [lowerSource_congr h]
    exact bind_congr fun _ => LowerM.ite_congr fun _ => c.arg_congr fun f hf => by
      rw [(h f hf).applyProjection]

theorem groupByRule_local : groupByRule.IsLocal :=
  Rule.isLocal_ofCall fun l l' c h => by
    unfold lowerGroupBy
    rw [lowerSource_congr h]
    refine bind_congr fun _ => bind_congr fun lowered => c.arg_congr fun f hf => ?_
    rw [(h f hf).applyProjection]
    refine bind_congr fun key => ?_
    have hmem := groupSelectors_mem (c.args.drop 2)
    generalize groupSelectors (c.args.drop 2) = selectors at hmem
    obtain ⟨helement, hresult⟩ := hmem
    rcases selectors with ⟨element | element, result | result⟩
    · rfl
    · dsimp only
      rw [(h result (List.mem_of_mem_drop (hresult result rfl))).applyProjection]
    · dsimp only
      rw [(h element (List.mem_of_mem_drop (helement element rfl))).applyProjection]
    · dsimp only
      rw [(h element (List.mem_of_mem_drop (helement element rfl))).applyProjection,
        (h result (List.mem_of_mem_drop (hresult result rfl))).applyProjection]

theorem takeSkipRule_local : takeSkipRule.IsLocal :=
  Rule.isLocal_ofCall fun l l' c h => by
    unfold lowerPaging
    rw [lowerSource_congr h]
    exact bind_congr fun _ => bind_congr fun _ => c.arg_congr fun count hcount => by
      rw [(h count hcount).scalar .here]

theorem distinctRule_local : distinctRule.IsLocal :=
  Rule.isLocal_ofCall fun l l' c h => by rw [lowerSource_congr h]

theorem modifierRule_local : modifierRule.IsLocal :=
  Rule.isLocal_ofCall fun l l' c h => by
    unfold lowerModifier
    rw [lowerSource_congr h]

theorem firstSingleRule_local : firstSingleRule.IsLocal :=
  Rule.isLocal_ofCall fun l l' c h => by
    unfold lowerElement
    rw [lowerSource_congr h]
    exact bind_congr fun lowered => by
      rw [filterIf_get_congr h lowered 1]

theorem aggregationRule_local : aggregationRule.IsLocal :=
  Rule.isLocal_ofCall fun l l' c h => by
    unfold lowerAggregate
    rw [lowerSource_congr h]
    refine bind_congr fun lowered => ?_
    rw [filterIf_get_congr h lowered 1]
    exact LowerM.ite_congr fun _ => bind_congr fun lowered => bind_congr fun _ => by
      rw [aggregateOf_congr h lowered]

theorem anyAllRule_local : anyAllRule.IsLocal :=
  Rule.isLocal_ofCall fun l l' c h => bind_congr fun query => by rw [lowerTest_congr h]

theorem joinRule_local : joinRule.IsLocal :=
  Rule.isLocal_ofCall fun l l' c h => by
    split
    · unfold lowerJoin
      rw [lowerSource_congr h]
      refine bind_congr fun _ => bind_congr fun outer => c.arg_congr fun inner hinner => ?_
      refine joinedTerm_congr fun kind term hterm => ?_
      dsimp only
      rw [(h inner hinner).sequence hterm]
      refine bind_congr fun inner => LowerM.unless_congr <| bind_congr fun (source, p, condition) =>
        c.arg_congr fun outerKey houter => ?_
      rw [(h outerKey houter).applyProjection]
      refine bind_congr fun _ => c.arg_congr fun innerKey hinner => ?_
      rw [(h innerKey hinner).applyProjection]
      refine bind_congr fun _ => LowerM.unless_congr <| bind_congr fun s => ?_
      split
      · rfl
      · exact bind_congr fun _ => c.arg_congr fun result hresult => by
          rw [(h result hresult).applyProjection]
    · rfl

theorem setOperationRule_local : setOperationRule.IsLocal :=
  Rule.isLocal_ofCall fun l l' c h => by
    split
    · unfold lowerSetOperation
      rw [lowerSource_congr h]
      exact bind_congr fun _ => bind_congr fun _ => c.arg_congr fun right hright => by
        rw [(h right hright).sequence .here]
    · rfl

theorem insertRule_local : insertRule.IsLocal :=
  Rule.isLocal_ofCall fun l l' c h => by
    split
    · rfl
    · exact lowerValue_congr h
    · exact lowerInsert_congr h

theorem insertOrUpdateRule_local : insertOrUpdateRule.IsLocal :=
  Rule.isLocal_ofCall fun l l' c h => by
    unfold lowerInsertOrUpdate
    refine c.arg_congr fun _ _ => bind_congr fun (table, projection) => bind_congr fun query =>
      bind_congr fun _ => c.arg_congr fun inserted hinserted => ?_
    rw [Lowerer.assignments_congr (h inserted hinserted)]
    refine bind_congr fun _ => c.arg_congr fun updated hupdated => ?_
    rw [Lowerer.assignments_congr (h updated hupdated)]
    refine bind_congr fun _ => ?_
    dsimp only
    split
    · next selector hselector => rw [(agreesOn_get h hselector).applyProjection]
    · rfl

theorem updateRule_local : updateRule.IsLocal :=
  Rule.isLocal_ofCall fun l l' c h => by
    rw [lowerSet_congr h]
    unfold lowerUpdate
    rw [lowerUpdateParts_congr h]

theorem deleteRule_local : deleteRule.IsLocal :=
  Rule.isLocal_ofCall fun l l' c h => by
    unfold lowerDelete
    rw [lowerSource_congr h]
    exact bind_congr fun lowered => by
      rw [filterIf_get_congr h lowered 1]

theorem mergeRule_local : mergeRule.IsLocal :=
  Rule.isLocal_ofCall fun l l' c h => by
    unfold lowerMergeLink
    rw [lowerFirst_congr h]
    split
    · rfl
    · refine bind_congr fun lowered => ?_
      split
      · rw [extend_congr h]
      · rfl

theorem multiInsertRule_local : multiInsertRule.IsLocal :=
  Rule.isLocal_ofCall fun l l' c h => by
    unfold lowerMultiInsert
    rw [lowerSource_congr h, lowerFirst_congr h]
    split
    · rfl
    · refine bind_congr fun lowered => ?_
      split
      · rw [extendInsert_congr h]
      · rfl

/-! ## The standard rules -/

/-- The standard rules ask for parts of a term only. -/
theorem standardRules_local : ∀ rule ∈ standardRules, rule.IsLocal :=
  forall_mem_standardRules.mpr
    ⟨tableRule_local, whereRule_local, selectRule_local, orderByRule_local, groupByRule_local,
      joinRule_local, takeSkipRule_local, distinctRule_local, firstSingleRule_local,
      aggregationRule_local, anyAllRule_local, setOperationRule_local, ofTypeRule_local,
      modifierRule_local, insertRule_local, insertOrUpdateRule_local, updateRule_local,
      deleteRule_local, mergeRule_local, multiInsertRule_local, ddlRule_local, valuesRule_local⟩

/-! ## Operators that are called -/

/-- Whether an operator is called anywhere in a term. -/
def Term.calls (t : Term) (operator : SequenceOperator) : Bool :=
  !(t.gather fun node =>
    match node with
    | .call found _ => if found = operator then some [node] else none
    | _ => none).isEmpty

/-- Whether a node, if it is a call, is one of an operator among some. -/
def Term.callsOnly (calls : SequenceOperator → Bool) : Term → Bool
  | .call operator _ => calls operator
  | _ => true

/-- A rule that accepts calls of some operators only. -/
def Rule.among (calls : SequenceOperator → Bool) (rule : Rule) : Rule :=
  { rule with accepts := fun t => t.callsOnly calls && rule.accepts t }

/-- An operator is called by a term in which a call of it occurs. -/
theorem Term.calls_of_occursIn {t : Term} {operator : SequenceOperator} {args : List Term}
    (h : (Term.call operator args).OccursIn t) : t.calls operator = true := by
  rw [calls, Bool.not_eq_true', List.isEmpty_eq_false_iff]
  induction h with
  | here =>
    rw [gather_eq]
    simp
  | @inside t part hpart _ ih =>
    rw [gather_eq]
    split
    · split
      · simp
      · exact fun hnil => ih (List.flatMap_eq_nil_iff.mp hnil part hpart)
    · exact fun hnil => ih (List.flatMap_eq_nil_iff.mp hnil part hpart)

theorem Term.callsOnly_of_occursIn {t node : Term} (h : node.OccursIn t) :
    node.callsOnly t.calls = true := by
  cases node with
  | call operator args => exact calls_of_occursIn h
  | _ => rfl

variable {calls : SequenceOperator → Bool}

/-- The rule that is asked about a call of one of the operators is the same. -/
theorem Ranking.find?_among (r : Ranking) (rules : List Rule) {t : Term}
    (h : t.callsOnly calls = true) :
    r.find? (rules.map (·.among calls)) t =
      (r.find? rules t).map fun found => (found.1, found.2.among calls) := by
  unfold find?
  rw [List.map_findSome?]
  congr 1
  funext position
  have hrule : r.ruleAt? (rules.map (·.among calls)) position =
      (r.ruleAt? rules position).map (·.among calls) := by
    unfold ruleAt?
    cases r.uses[position]? with
    | none => rfl
    | some use => exact List.getElem?_map
  rw [hrule, Function.comp_apply]
  cases r.ruleAt? rules position with
  | none => rfl
  | some rule =>
    have haccepts : (rule.among calls).accepts t = rule.accepts t := by
      change (t.callsOnly calls && rule.accepts t) = rule.accepts t
      rw [h, Bool.true_and]
    simp only [Option.map_some, haccepts]
    split <;> rfl

theorem dispatch_among {rules : List Rule} (hlocal : ∀ rule ∈ rules, rule.IsLocal) {l l' : Lowerer}
    {t : Term} (ht : t.callsOnly calls = true) (h : Lowerer.AgreesOn t l l')
    (parent : Option QueryRef) :
    dispatch rules l t parent = dispatch (rules.map (·.among calls)) l' t parent := by
  refine bind_congr fun st => ?_
  rw [Ranking.find?_among _ rules ht]
  cases hfind : st.ranking.find? rules t with
  | none => rfl
  | some found =>
    obtain ⟨position, rule⟩ := found
    have hlower := hlocal rule (Ranking.mem_of_find? hfind).1 l l' t parent fun part hpart =>
      h.mono (.child hpart)
    exact congrArg (· >>= _) hlower

/-- Lowering asks no rules for operators that a term does not call. -/
theorem lowererWithin_among {rules : List Rule} (hlocal : ∀ rule ∈ rules, rule.IsLocal) (t : Term) :
    ∀ fuel, Lowerer.AgreesOn t (lowererWithin rules fuel)
      (lowererWithin (rules.map (·.among t.calls)) fuel)
  | 0 => ⟨fun _ => rfl, fun _ => rfl, fun _ => rfl, fun _ => rfl⟩
  | fuel + 1 =>
    have ih := lowererWithin_among hlocal t fuel
    have hparts : ∀ {part : Term}, part.OccursIn t → ∀ child ∈ part.children,
        Lowerer.AgreesOn child (lowererWithin rules fuel)
          (lowererWithin (rules.map (·.among t.calls)) fuel) :=
      fun hpart _ hchild => (ih.mono hpart).mono (.child hchild)
    { sequence := fun hpart => funext fun parent =>
        dispatch_among hlocal (Term.callsOnly_of_occursIn hpart) (ih.mono hpart) parent
      projection := fun hpart => funext fun q => Lowerer.projectionOf_congr (hparts hpart) q
        (ih.sequence hpart) fun _ => ih.scalar hpart
      scalar := fun hpart => funext fun q => Lowerer.scalarOf_congr (hparts hpart) q
        (fun _ => ih.projection hpart) fun _ => ih.condition hpart
      condition := fun hpart => funext fun q => Lowerer.conditionOf_congr (hparts hpart) q
        fun _ => ih.scalar hpart }

/-! ## The depth of terms -/

section

variable {α : Type} {d d' : Nat} {f : Nat → α}

/-- The same thing at every level from a level on. -/
def SettledFrom (d : Nat) (f : Nat → α) : Prop := ∀ n m, d ≤ n → d ≤ m → f n = f m

theorem SettledFrom.mono (h : SettledFrom d f) (hd : d ≤ d') : SettledFrom d' f :=
  fun n m hn hm => h n m (Nat.le_trans hd hn) (Nat.le_trans hd hm)

theorem SettledFrom.succ (h : ∀ n m, d ≤ n → d ≤ m → f (n + 1) = f (m + 1)) :
    SettledFrom (d + 1) f
  | n + 1, m + 1, hn, hm => h n m (Nat.le_of_succ_le_succ hn) (Nat.le_of_succ_le_succ hm)

end

section

variable {rules : List Rule} (hlocal : ∀ rule ∈ rules, rule.IsLocal)

include hlocal in
theorem dispatch_congr {l l' : Lowerer} {t : Term}
    (h : ∀ part ∈ t.children, Lowerer.AgreesOn part l l') :
    dispatch rules l t = dispatch rules l' t := by
  refine funext fun parent => bind_congr fun st => ?_
  cases hfind : st.ranking.find? rules t with
  | none => rfl
  | some found =>
    obtain ⟨position, rule⟩ := found
    exact congrArg (· >>= _) (hlocal rule (Ranking.mem_of_find? hfind).1 l l' t parent h)

/-- The level from which on a part of the lowerer does the same for a term depends on what it asks
about the term itself, not only about its parts: in turn a condition, a scalar, a projection and a
sequence at most. -/
theorem lowererWithin_node {t : Term} {d : Nat}
    (hparts : ∀ n m, d ≤ n → d ≤ m →
      ∀ part ∈ t.children, Lowerer.AgreesOn part (lowererWithin rules n) (lowererWithin rules m))
    (hsequence : SettledFrom (d + 1) fun n => (lowererWithin rules n).sequence t) :
    (SettledFrom (d + 4) fun n => (lowererWithin rules n).projection t) ∧
      (SettledFrom (d + 4) fun n => (lowererWithin rules n).scalar t) ∧
      SettledFrom (d + 4) fun n => (lowererWithin rules n).condition t := by
  have hprojection : ∀ k, d + 1 ≤ k →
      (t.isValue = true → SettledFrom k fun n => (lowererWithin rules n).scalar t) →
        SettledFrom (k + 1) fun n => (lowererWithin rules n).projection t :=
    fun k hk hscalar => .succ fun n m hn hm => funext fun q =>
      Lowerer.projectionOf_congr (hparts n m (by omega) (by omega)) q
        (hsequence n m (by omega) (by omega)) fun hvalue => hscalar hvalue n m hn hm
  have hscalar : ∀ k, d ≤ k →
      (t.isValue = false → SettledFrom k fun n => (lowererWithin rules n).projection t) →
      (t.isTest = true → SettledFrom k fun n => (lowererWithin rules n).condition t) →
        SettledFrom (k + 1) fun n => (lowererWithin rules n).scalar t :=
    fun k hk hprojection hcondition => .succ fun n m hn hm => funext fun q =>
      Lowerer.scalarOf_congr (hparts n m (by omega) (by omega)) q
        (fun hvalue => hprojection hvalue n m hn hm) fun htest => hcondition htest n m hn hm
  have hcondition : ∀ k, d ≤ k →
      (t.isTest = false → SettledFrom k fun n => (lowererWithin rules n).scalar t) →
        SettledFrom (k + 1) fun n => (lowererWithin rules n).condition t :=
    fun k hk hscalar => .succ fun n m hn hm => funext fun q =>
      Lowerer.conditionOf_congr (hparts n m (by omega) (by omega)) q
        fun htest => hscalar htest n m hn hm
  cases htest : t.isTest with
  | true =>
    have hvalue : t.isValue = true := by cases t <;> simp_all [Term.isTest, Term.isValue]
    have hcondition := hcondition d (Nat.le_refl d) (by simp [htest])
    have hscalar := hscalar (d + 1) (by omega) (by simp [hvalue]) fun _ => hcondition
    have hprojection := hprojection (d + 2) (by omega) fun _ => hscalar
    exact ⟨hprojection.mono (by omega), hscalar.mono (by omega), hcondition.mono (by omega)⟩
  | false =>
    cases hvalue : t.isValue with
    | true =>
      have hscalar := hscalar (d + 1) (by omega) (by simp [hvalue]) (by simp [htest])
      have hprojection := hprojection (d + 2) (by omega) fun _ => hscalar
      have hcondition := hcondition (d + 2) (by omega) fun _ => hscalar
      exact ⟨hprojection.mono (by omega), hscalar.mono (by omega), hcondition.mono (by omega)⟩
    | false =>
      have hprojection := hprojection (d + 1) (by omega) (by simp [hvalue])
      have hscalar := hscalar (d + 2) (by omega) (fun _ => hprojection) (by simp [htest])
      have hcondition := hcondition (d + 3) (by omega) fun _ => hscalar
      exact ⟨hprojection.mono (by omega), hscalar.mono (by omega), hcondition⟩

include hlocal in
/-- Four levels for each node of a term are enough for it: deeper ones change nothing. -/
theorem lowererWithin_settled (t : Term) : ∀ n m, 4 * t.size ≤ n → 4 * t.size ≤ m →
    Lowerer.AgreesOn t (lowererWithin rules n) (lowererWithin rules m) := by
  induction t using Term.induction_on_children with
  | node t ih =>
    obtain ⟨d, hd⟩ : ∃ d, 4 * t.size = d + 4 := ⟨4 * (t.size - 1), by
      have := t.size_eq_children
      omega⟩
    have hparts : ∀ n m, d ≤ n → d ≤ m → ∀ part ∈ t.children,
        Lowerer.AgreesOn part (lowererWithin rules n) (lowererWithin rules m) := by
      intro n m hn hm part hpart
      have hsize := Term.size_lt_of_mem_children hpart
      exact ih part hpart n m (by omega) (by omega)
    have hsequence : SettledFrom (d + 1) fun n => (lowererWithin rules n).sequence t :=
      .succ fun n m hn hm => dispatch_congr hlocal (hparts n m hn hm)
    obtain ⟨hprojection, hscalar, hcondition⟩ := lowererWithin_node hparts hsequence
    intro n m hn hm
    rw [hd] at hn hm
    exact .node (hparts n m (by omega) (by omega)) (hsequence n m (by omega) (by omega))
      (hprojection n m hn hm) (hscalar n m hn hm) (hcondition n m hn hm)

/-- Lowering by rules, of each term as deep as it is. -/
def Lowerer.ofRules (rules : List Rule) : Lowerer where
  sequence t := (lowererWithin rules (loweringDepth t)).sequence t
  projection t := (lowererWithin rules (loweringDepth t)).projection t
  scalar t := (lowererWithin rules (loweringDepth t)).scalar t
  condition t := (lowererWithin rules (loweringDepth t)).condition t

include hlocal in
/-- Lowering that may go deep enough for a term does for its parts what it does for them alone. -/
theorem Lowerer.agreesOn_ofRules {t : Term} {n : Nat} (hn : 4 * t.size ≤ n) :
    AgreesOn t (lowererWithin rules n) (ofRules rules) := by
  have hpart : ∀ {part : Term}, part.OccursIn t →
      AgreesOn part (lowererWithin rules n) (lowererWithin rules (loweringDepth part)) := by
    intro part hpart
    have hsize := hpart.size_le
    exact lowererWithin_settled hlocal part _ _ (by omega) (by unfold loweringDepth; omega)
  exact ⟨fun h => (hpart h).sequence .here, fun h => (hpart h).projection .here,
    fun h => (hpart h).scalar .here, fun h => (hpart h).condition .here⟩

include hlocal in
/-- A whole term is lowered by a rule that has its parts lowered as whole terms: the bound on the
depth shows nowhere. -/
theorem Lowerer.ofRules_sequence (t : Term) :
    (ofRules rules).sequence t = dispatch rules (ofRules rules) t :=
  calc (lowererWithin rules (loweringDepth t)).sequence t
      = dispatch rules (lowererWithin rules (4 * t.size + 3)) t := rfl
    _ = dispatch rules (ofRules rules) t := dispatch_congr hlocal fun part hpart => by
      have := Term.size_lt_of_mem_children hpart
      exact agreesOn_ofRules hlocal (by omega)

end

/-! ## Whole terms -/

/-- Lowering by the standard rules, of each term as deep as it is. -/
abbrev standardLowerer : Lowerer := .ofRules standardRules

theorem standardLowerer_keeps (n : Nat) : standardLowerer.Keeps n where
  sequence t := (lowererWithin_keeps n (loweringDepth t)).sequence t
  projection t := (lowererWithin_keeps n (loweringDepth t)).projection t
  scalar t := (lowererWithin_keeps n (loweringDepth t)).scalar t
  condition t := (lowererWithin_keeps n (loweringDepth t)).condition t

theorem standardLowerer_sequence (t : Term) :
    standardLowerer.sequence t = dispatch standardRules standardLowerer t :=
  Lowerer.ofRules_sequence standardRules_local t

theorem lowerSequence_eq (t : Term) :
    lowerSequence standardRules t = dispatch standardRules standardLowerer t none :=
  congrFun (standardLowerer_sequence t) none

end SqlCompiler
