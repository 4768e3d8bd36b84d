import SqlCompiler.Lowering.Standard
import SqlCompiler.Proofs.Lowering.Steps

/-!
# Lowering of values

Lowering a value asks the lowerer for the parts of a term, looks at the store and the context and
puts the answers together.  A property of steps that lasts through all of this holds of the
lowered value if it holds of the parts.

Main results:

- `LowerM.Closed`: a property of steps that lasts through looking at what there is and through
  steps in a row.
- `Lowerer.Closed`: a lowerer whose parts have such a property.
- Theorems `Lowerer.Closed.projectionOf`, `.scalarOf`, `.conditionOf`: so does every value.
-/

namespace SqlCompiler

/-- A property of steps that lasts through looking at what there is and through steps in a row. -/
structure LowerM.Closed (C : ∀ {α : Type}, LowerM α → Prop) : Prop where
  pure : ∀ {α : Type} (a : α), C (Pure.pure a)
  throw : ∀ {α : Type} (e : SqlError), C (MonadExcept.throw e : LowerM α)
  bind : ∀ {α β : Type} {step : LowerM α} {next : α → LowerM β},
    C step → (∀ a, C (next a)) → C (step >>= next)
  read : C (MonadReader.read : LowerM LowerContext)
  store : C LowerM.store
  withVariables : ∀ {α : Type} {bindings : List (String × Projection)} {step : LowerM α},
    C step → C (LowerM.withVariables bindings step)

/-- A lowerer whose parts have a property; so does the value of an operator on a sequence. -/
structure Lowerer.Closed (C : ∀ {α : Type}, LowerM α → Prop) (l : Lowerer) : Prop extends
    LowerM.Closed C where
  projection : ∀ t q, C (l.projection t q)
  scalar : ∀ t q, C (l.scalar t q)
  condition : ∀ t q, C (l.condition t q)
  nested : ∀ t q, C (do Lowerer.valueOf t (← l.sequence t (some q)))

variable {C : ∀ {α : Type}, LowerM α → Prop} {α β γ : Type}

/-! ## Steps -/

namespace LowerM.Closed

variable (h : LowerM.Closed C)
include h

theorem refuse (text reason : String) : C (LowerM.refuse text reason : LowerM α) := h.throw _

/-- A refusal under a condition and what follows without it. -/
theorem unlessRefused {c : Prop} [Decidable c] {text reason : String} {next : α → LowerM β}
    {other : LowerM β} (hother : C other) :
    C (if c then LowerM.refuse text reason >>= next else other) := by
  split
  · have hrefused : (LowerM.refuse text reason >>= next) = LowerM.refuse text reason := rfl
    rw [hrefused]
    exact h.refuse _ _
  · exact hother

theorem ofExcept (r : Except SqlError α) : C (LowerM.ofExcept r) := by
  cases r with
  | error e => exact h.throw e
  | ok a => exact h.pure a

theorem map {step : LowerM α} (f : α → β) (hstep : C step) : C (f <$> step) := by
  rw [← bind_pure_comp]
  exact h.bind hstep fun _ => h.pure _

omit h in
theorem ite {c : Prop} [Decidable c] {step other : LowerM α} (hstep : C step) (hother : C other) :
    C (if c then step else other) := by
  split
  · exact hstep
  · exact hother

theorem mapM {f : γ → LowerM β} {items : List γ} (hf : ∀ item ∈ items, C (f item)) :
    C (items.mapM f) := by
  induction items with
  | nil => exact h.pure _
  | cons item rest ih =>
    obtain ⟨hitem, hrest⟩ := List.forall_mem_cons.mp hf
    rw [List.mapM_cons]
    exact h.bind hitem fun _ => h.bind (ih hrest) fun _ => h.pure _

theorem foldlM {f : β → γ → LowerM β} (hf : ∀ b item, C (f b item)) (items : List γ) (b : β) :
    C (items.foldlM f b) := by
  induction items generalizing b with
  | nil => exact h.pure _
  | cons item rest ih =>
    rw [List.foldlM_cons]
    exact h.bind (hf b item) ih

theorem lookUp (name : String) : C (LowerM.lookUp name) :=
  h.bind h.read fun ctx => by
    split
    · exact h.pure _
    · exact h.throw _

theorem arg (c : CallSite) (index : Nat) : C (c.arg index) := by
  unfold CallSite.arg
  split
  · exact h.pure _
  · exact h.refuse _ _

theorem settableField (t : TableRef) (name : String) (kind : WriteKind) :
    C (LowerM.settableField t name kind) :=
  h.bind h.store fun _ => by
    split
    · exact h.pure _
    · exact h.throw _

theorem typeOf (e : Scalar) : C (do return (← LowerM.store).typeOf e) :=
  h.bind h.store fun _ => h.pure _

theorem aggregate (rows : GroupRows) (whole : Term) (operator : SequenceOperator) :
    C (rows.aggregate whole operator) :=
  LowerM.Closed.ite (h.pure _) (h.bind (h.ofExcept _) fun _ => h.bind h.store fun _ => h.pure _)

theorem expand (name : String) (args : List Scalar) (e : SqlError) :
    C (Lowerer.expand name args e) :=
  h.bind h.store fun _ => h.bind h.read fun _ => h.bind (h.ofExcept _) fun found => by
    cases found with
    | some e => exact h.pure _
    | none => exact h.throw _

theorem caseSensitivity (whole : Term) (rest : List Term) :
    C (Lowerer.caseSensitivity whole rest) := by
  unfold Lowerer.caseSensitivity
  split
  · exact h.pure _
  · exact h.pure _
  · exact h.refuse _ _

theorem apply {lower : Term → QueryRef → LowerM α} (hlower : ∀ t q, C (lower t q)) (f : Term)
    (args : List Projection) (q : QueryRef) : C (Lowerer.apply lower f args q) :=
  h.bind (h.ofExcept _) fun (_, body) => h.withVariables (hlower body q)

end LowerM.Closed

namespace Lowerer.Closed

variable {l : Lowerer} (h : l.Closed C)
include h

/-! ## Functions -/

theorem applyProjection (f : Term) (args : List Projection) (q : QueryRef) :
    C (l.applyProjection f args q) := h.apply h.projection f args q

theorem applyScalar (f : Term) (args : List Projection) (q : QueryRef) :
    C (l.applyScalar f args q) := h.apply h.scalar f args q

theorem applyCondition (f : Term) (args : List Projection) (q : QueryRef) :
    C (l.applyCondition f args q) := h.apply h.condition f args q

theorem assignments (setter : Term) (args : List Projection) (t : TableRef) (q : QueryRef)
    (kind : WriteKind) : C (l.assignments setter args t q kind) := by
  refine h.bind (h.ofExcept _) fun (params, body) => ?_
  have hmember : ∀ (items : List Assignment) (m : String × Term),
      C (l.assignMember t kind q items m.1 m.2) := fun items m =>
    h.bind (h.settableField t m.1 kind) fun field => by
      cases field with
      | none => exact h.pure _
      | some f => exact h.bind (h.scalar m.2 q) fun _ => h.pure _
  have hmembers : ∀ members : List (String × Term), C (LowerM.withVariables (params.zip args)
      (members.foldlM (fun items m => l.assignMember t kind q items m.1 m.2) [])) :=
    fun members => h.withVariables (h.foldlM hmember members [])
  cases body with
  | record members => exact h.bind (h.pure _) fun _ => hmembers _
  | entity name members => exact h.bind (h.pure _) fun _ => hmembers _
  | _ => exact h.bind (h.refuse _ _) fun _ => hmembers _

/-- The value an aggregate is of. -/
theorem aggregateOf (c : CallSite) (lowered : Lowered) : C (SqlCompiler.aggregateOf l c lowered) := by
  refine LowerM.Closed.ite (h.pure _) ?_
  have hvalue : ∀ value : Scalar, C (do
      let type := c.operator.aggregateType ((← LowerM.store).typeOf value)
      return Call.aggregate c.operator.functionName [value] type) :=
    fun value => h.bind h.store fun _ => h.pure _
  split
  · exact h.bind (h.applyScalar _ _ _) hvalue
  · exact h.bind (h.ofExcept _) hvalue

/-! ## Values -/

theorem groupSource (q : QueryRef) (t : Term) : C (l.groupSource q t) := by
  fun_induction Lowerer.groupSource l q t with
  | case1 name =>
    refine h.bind (h.lookUp name) fun _ => ?_
    split
    · exact h.pure _
    · exact h.pure _
  | case2 source rest site ih =>
    refine h.bind ih fun rows => ?_
    cases rows with
    | none => exact h.pure _
    | some rows =>
      exact h.bind (h.arg site 1) fun f => h.bind (h.applyCondition f _ _) fun _ => h.pure _
  | case3 source rest site ih =>
    refine h.bind ih fun rows => ?_
    cases rows with
    | none => exact h.pure _
    | some rows =>
      exact h.bind (h.arg site 1) fun f => h.bind (h.applyProjection f _ _) fun _ => h.pure _
  | case4 source rest ih =>
    refine h.bind ih fun rows => ?_
    cases rows with
    | none => exact h.pure _
    | some rows => exact h.pure _
  | case6 site | case7 site | case8 site => exact h.bind (h.arg site 0) fun _ => h.pure _
  | case5 | case9 | case10 => exact h.pure _

theorem callOf (operator : SequenceOperator) (args : List Term) (q : QueryRef) :
    C (l.callOf operator args q) := by
  refine LowerM.Closed.ite (h.bind (h.arg _ 0) fun t => h.bind (h.groupSource q t) fun rows => ?_)
    (LowerM.Closed.ite (h.bind (h.arg _ 0) fun t => ?_) (h.nested _ q))
  · cases rows with
    | some rows => exact h.aggregate rows _ operator
    | none => exact h.nested _ q
  · split
    · exact h.bind (h.arg _ 1) fun t => h.bind (h.scalar t _) fun _ =>
        h.bind h.store fun _ => h.pure _
    · exact h.nested _ q

theorem projectionOf (t : Term) (q : QueryRef) : C (l.projectionOf t q) := by
  cases t with
  | bound name => exact h.lookUp name
  | member owner name =>
    refine h.bind (h.projection owner q) fun p => ?_
    cases p with
    | scalar e => exact h.bind (h.expand name [e] _) fun _ => h.pure _
    | _ => exact h.ofExcept _
  | record members =>
    exact h.bind (h.mapM fun m _ => h.bind (h.projection m.2 q) fun _ => h.pure _)
      fun _ => h.pure _
  | entity name members =>
    exact h.bind (h.mapM fun m _ => h.bind (h.scalar m.2 q) fun _ => h.pure _)
      fun _ => h.pure _
  | quote inner => exact h.projection inner q
  | call operator args => exact h.bind (h.callOf operator args q) fun _ => h.pure _
  | table name => exact h.refuse _ _
  | lambda params body => exact h.refuse _ _
  | _ => exact h.bind (h.scalar _ q) fun _ => h.pure _

theorem functionOf (whole : Term) (name : String) (args : List Term) (q : QueryRef) :
    C (l.functionOf whole name args q) := by
  unfold Lowerer.functionOf
  split
  · exact h.bind (h.caseSensitivity whole _) fun _ => h.bind (h.scalar _ q) fun _ =>
      h.bind (h.scalar _ q) fun _ => h.pure _
  · exact h.bind (h.mapM fun t _ => h.scalar t q) fun _ => h.expand _ _ _

theorem scalarOf (t : Term) (q : QueryRef) : C (l.scalarOf t q) := by
  have hprojection : ∀ t : Term, C (do LowerM.ofExcept ((← l.projection t q).toScalar t)) :=
    fun t => h.bind (h.projection t q) fun _ => h.ofExcept _
  cases t with
  | constant value => exact h.pure _
  | parameter name value => exact h.pure _
  | binary operator left right =>
    refine LowerM.Closed.ite (h.bind (h.condition _ q) fun _ => h.pure _) ?_
    refine h.bind (h.scalar left q) fun _ => h.bind (h.scalar right q) fun _ =>
      h.bind (h.typeOf _) fun _ => ?_
    dsimp only
    split
    · refine h.bind (h.typeOf _) fun _ => ?_
      split <;> exact h.pure _
    · refine h.bind (h.pure _) fun _ => ?_
      split <;> exact h.pure _
  | not operand => exact h.bind (h.condition _ q) fun _ => h.pure _
  | negate operand =>
    exact h.bind (h.scalar operand q) fun _ => h.bind (h.typeOf _) fun _ => h.pure _
  | conditional test yes no =>
    exact h.bind (h.condition test q) fun _ => h.bind (h.scalar yes q) fun _ =>
      h.bind (h.scalar no q) fun _ => h.bind (h.typeOf _) fun _ => h.pure _
  | convert operand target =>
    exact h.bind (h.scalar operand q) fun _ => h.bind (h.typeOf _) fun _ => h.pure _
  | function name args => exact h.functionOf _ name args q
  | _ => exact hprojection _

theorem conditionByScalar (t : Term) (q : QueryRef) :
    C (do
      match ← l.scalar t q with
      | .condition c => return c
      | e => return Condition.ofPredicate (.ofScalar e)) :=
  h.bind (h.scalar t q) fun e => by
    cases e with
    | _ => exact h.pure _

theorem conditionOf (t : Term) (q : QueryRef) : C (l.conditionOf t q) := by
  have hscalar := fun t => h.conditionByScalar t q
  cases t with
  | binary operator left right =>
    unfold Lowerer.conditionOf
    dsimp only
    split
    · exact h.bind (h.condition left q) fun _ => h.bind (h.condition right q) fun _ => h.pure _
    · exact h.bind (h.condition left q) fun _ => h.bind (h.condition right q) fun _ => h.pure _
    · exact h.bind (h.scalar left q) fun _ => h.bind (h.scalar right q) fun _ => h.pure _
    · exact hscalar _
  | not operand => exact h.bind (h.condition operand q) fun _ => h.pure _
  | constant c =>
    cases c with
    | boolean b => exact h.pure _
    | _ => exact hscalar _
  | _ => exact hscalar _

/-! ## Links of a merge -/

theorem sourceFor (d : MergeDraft) (c : CallSite) : C (d.sourceFor c) := by
  unfold MergeDraft.sourceFor
  split
  · exact h.pure _
  · exact h.refuse _ _

theorem lowerKeys (d : MergeDraft) (q : QueryRef) (source : Projection)
    (targetKey sourceKey : Term) : C (d.lowerKeys l q source targetKey sourceKey) :=
  h.bind (h.applyProjection targetKey _ q) fun _ =>
    h.bind (h.applyProjection sourceKey _ q) fun _ =>
      h.unlessRefused (h.pure _)

theorem lowerOn (d : MergeDraft) (c : CallSite) (q : QueryRef) : C (d.lowerOn l c q) := by
  refine h.unlessRefused (h.bind (h.sourceFor d c) fun _ => ?_)
  split
  · exact h.applyCondition _ _ _
  · exact h.lowerKeys d q _ _ _
  · exact h.refuse _ _

theorem someCondition (f : Term) (args : List Projection) (q : QueryRef) :
    C (some <$> l.applyCondition f args q) :=
  h.map some (h.applyCondition f args q)

/-- The condition of an operation and the check of what it sets. -/
theorem operationWhere (c : CallSite) (q : QueryRef) (form : MergeForm) (args : List Projection)
    (position : Nat) (items : List Assignment) (whereDelete : Option Condition) :
    C (do
      let whereClause ←
        match c.args[position]? with
        | some condition => some <$> l.applyCondition condition args q
        | none => pure none
      if form.assigns.isSome && items.isEmpty then c.refuse "the operation sets no columns"
      return { action := form.action, whereClause, whereDelete, items : MergeOperation }) := by
  dsimp only
  split
  · exact h.bind (h.someCondition _ _ q) fun _ => h.unlessRefused (h.pure _)
  · exact h.bind (h.pure none) fun _ => h.unlessRefused (h.pure _)

/-- The conditions of an operation, of which that of the deletion comes first. -/
theorem operationConditions (c : CallSite) (q : QueryRef) (form : MergeForm)
    (args : List Projection) (items : List Assignment) :
    C (do
      let afterSetter := if form.assigns.isSome then 2 else 1
      let alsoDeletes := form.action == .updateWithDelete
      let whereDelete ←
        if alsoDeletes then some <$> l.applyCondition (← c.arg afterSetter) args q else pure none
      let whereClause ←
        match c.args[if alsoDeletes then afterSetter + 1 else afterSetter]? with
        | some condition => some <$> l.applyCondition condition args q
        | none => pure none
      if form.assigns.isSome && items.isEmpty then c.refuse "the operation sets no columns"
      return { action := form.action, whereClause, whereDelete, items : MergeOperation }) :=
  LowerM.Closed.ite
    (h.bind (h.arg c _) fun _ => h.bind (h.someCondition _ _ q) fun _ =>
      h.operationWhere c q form args _ items _)
    (h.bind (h.pure none) fun _ => h.operationWhere c q form args _ items _)

theorem lowerOperation (d : MergeDraft) (c : CallSite) (q : QueryRef) (form : MergeForm) :
    C (d.lowerOperation l c q form) := by
  refine h.unlessRefused (h.bind (h.sourceFor d c) fun source => ?_)
  dsimp only
  split
  · exact h.bind (h.arg c 1) fun _ => h.bind (h.assignments _ _ _ _ _) fun _ =>
      h.operationConditions c q form _ _
  · exact h.bind (h.pure []) fun items => h.operationConditions c q form _ items

end Lowerer.Closed

end SqlCompiler
