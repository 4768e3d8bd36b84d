import SqlCompiler.Proofs.Lowering.RuleFrames
import SqlCompiler.Proofs.Renaming.Stores

/-!
# Lowering in a renamed copy

What a step of lowering does in one store it does renamed in a copy of it.  The copy may have more
nodes, and there may be more variables in scope; what has been counted and annotated so far is of no
account.

Main results:

- Definition `LowerM.MirrorsIf`: a step and its renamed counterpart.
- Theorem `LowerM.Mirrors.andThen` and the other closure lemmas, one for each way to build a step.
- Theorem `Renaming.Embeds.run`: a run in one store has a counterpart in each store where it is
  found.
- Theorems `Lowerer.Mirrors.projectionOf`, `.scalarOf`, `.conditionOf`: the values of mirrored parts
  are mirrored.
-/

namespace SqlCompiler

/-! ## Contexts and states -/

namespace Renaming

/-- A context that knows what another one knows, and perhaps more variables. -/
structure Contexts (ρ : Renaming) (ctx ctx' : LowerContext) : Prop where
  schema : ctx'.schema = ctx.schema
  provider : ctx'.provider = ctx.provider
  natural : ctx.provider.functions.Natural
  scope : ∃ outer, ctx'.scope = ρ.scope ctx.scope ++ outer

/-- States whose stores grow alike, and in which the standard rules are asked. -/
structure States (ρ : Renaming) (bound : NodeKind → Nat) (st st' : LowerState) : Prop where
  tracks : ρ.Tracks bound st.store st'.store
  covers : st.ranking.Covers standardRules
  covers' : st'.ranking.Covers standardRules

variable {ρ : Renaming} {ctx ctx' : LowerContext}

/-- A variable of the context is one of the other context as well. -/
theorem Contexts.lookup (h : ρ.Contexts ctx ctx') {name : String} {p : Projection}
    (hlookup : ctx.scope.lookup name = some p) :
    ctx'.scope.lookup name = some (ρ.projection p) := by
  have hscope : ∀ scope : List (String × Projection), scope.lookup name = some p →
      (ρ.scope scope).lookup name = some (ρ.projection p) := by
    intro scope
    induction scope with
    | nil => intro h; cases h
    | cons v rest ih =>
      obtain ⟨key, q⟩ := v
      intro h
      rw [List.lookup_cons] at h
      rw [Renaming.scope, List.map_cons, List.lookup_cons]
      cases hkey : name == key with
      | true =>
        rw [hkey] at h
        exact congrArg (Option.map ρ.projection) h
      | false =>
        rw [hkey] at h
        exact ih h
  obtain ⟨outer, houter⟩ := h.scope
  rw [houter, List.lookup_append, hscope _ hlookup]
  rfl

theorem Contexts.withVariables (h : ρ.Contexts ctx ctx') (bindings : List (String × Projection)) :
    ρ.Contexts { ctx with scope := bindings.reverse ++ ctx.scope }
      { ctx' with scope := (ρ.scope bindings).reverse ++ ctx'.scope } where
  schema := h.schema
  provider := h.provider
  natural := h.natural
  scope := by
    obtain ⟨outer, houter⟩ := h.scope
    exact ⟨outer, by simp [houter, Renaming.scope]⟩

def callSite (ρ : Renaming) (c : CallSite) : CallSite :=
  { c with parent := c.parent.map ρ.query }

end Renaming

/-! ## Mirrored steps -/

/-- Where a step gives a result with a property, its counterpart gives the renamed result in every
copy that goes on far enough. -/
def LowerM.MirrorsIf (ρ : Renaming) {α : Type} (P : α → Prop) (rename : α → α)
    (step step' : LowerM α) : Prop :=
  ∀ ctx ctx' st a st₁, ρ.Contexts ctx ctx' → step.Gives ctx st a st₁ → P a →
    (∀ kind, st.store.count kind ≤ st₁.store.count kind) ∧
      ∀ bound st', (∀ kind, st₁.store.count kind ≤ bound kind) → ρ.States bound st st' →
        ∃ st₁', step'.Gives ctx' st' (rename a) st₁' ∧ ρ.States bound st₁ st₁'

/-- A step and its renamed counterpart. -/
abbrev LowerM.Mirrors (ρ : Renaming) {α : Type} (rename : α → α) (step step' : LowerM α) : Prop :=
  LowerM.MirrorsIf ρ (fun _ => True) rename step step'

namespace LowerM.Mirrors

variable {ρ : Renaming} {α β γ δ : Type} {P : α → Prop} {r : α → α} {r' : β → β}

/-- What follows a step may rely on what its own result shows of the result of the step. -/
theorem bindIf {step step' : LowerM α} {next next' : α → LowerM β}
    (h : LowerM.MirrorsIf ρ P r step step')
    (hP : ∀ {a ctx st b st'}, (next a).Gives ctx st b st' → P a)
    (hnext : ∀ a, P a → LowerM.Mirrors ρ r' (next a) (next' (r a))) :
    LowerM.Mirrors ρ r' (step >>= next) (step' >>= next') := by
  intro ctx ctx' st b st₂ hctx hgives _
  obtain ⟨a, st₁, hstep, hrest⟩ := hgives.of_bind
  obtain ⟨hgrows, hmirror⟩ := h ctx ctx' st a st₁ hctx hstep (hP hrest)
  obtain ⟨hgrows', hmirror'⟩ := hnext a (hP hrest) ctx ctx' st₁ b st₂ hctx hrest trivial
  refine ⟨fun kind => Nat.le_trans (hgrows kind) (hgrows' kind), fun bound st' hbound hst => ?_⟩
  obtain ⟨st₁', hstep', hst₁⟩ :=
    hmirror bound st' (fun kind => Nat.le_trans (hgrows' kind) (hbound kind)) hst
  obtain ⟨st₂', hrest', hst₂⟩ := hmirror' bound st₁' hbound hst₁
  exact ⟨st₂', hstep'.bind hrest', hst₂⟩

theorem andThen {step step' : LowerM α} {next next' : α → LowerM β}
    (h : LowerM.Mirrors ρ r step step')
    (hnext : ∀ a, LowerM.Mirrors ρ r' (next a) (next' (r a))) :
    LowerM.Mirrors ρ r' (step >>= next) (step' >>= next') :=
  bindIf h (fun _ => trivial) fun a _ => hnext a

theorem done {a b : α} (h : b = r a) : LowerM.Mirrors ρ r (Pure.pure a) (Pure.pure b) := by
  intro ctx ctx' st a' st₁ _ hgives _
  cases hgives
  exact ⟨fun _ => Nat.le_refl _, fun _ st' _ hst => ⟨st', h ▸ LowerM.Gives.pure b, hst⟩⟩

theorem throw (e : SqlError) (step' : LowerM α) :
    LowerM.Mirrors ρ r (MonadExcept.throw e : LowerM α) step' :=
  fun _ _ _ _ _ _ hgives => nomatch hgives

theorem refuse (text reason : String) (step' : LowerM α) :
    LowerM.Mirrors ρ r (LowerM.refuse text reason) step' := throw _ _

/-- A look at the stores.  What follows in the copy is known from the first store, renamed. -/
theorem store {next next' g : Store → LowerM β}
    (hsame : ∀ {s s'}, ρ.Copies s s' → next' s' = g s)
    (h : ∀ s, LowerM.Mirrors ρ r' (next s) (g s)) :
    LowerM.Mirrors ρ r' (LowerM.store >>= next) (LowerM.store >>= next') := by
  intro ctx ctx' st b st₁ hctx hgives _
  obtain ⟨s, _, hstore, hrest⟩ := hgives.of_bind
  cases hstore
  obtain ⟨hgrows, hmirror⟩ := h st.store ctx ctx' st b st₁ hctx hrest trivial
  refine ⟨hgrows, fun bound st' hbound hst => ?_⟩
  obtain ⟨st₁', hrest', hst₁⟩ := hmirror bound st' hbound hst
  rw [← hsame hst.tracks.toCopies] at hrest'
  exact ⟨st₁', LowerM.Gives.store.bind hrest', hst₁⟩

/-- A look at the contexts. -/
theorem read {next next' g : LowerContext → LowerM β}
    (hsame : ∀ {ctx ctx'}, ρ.Contexts ctx ctx' → next' ctx' = g ctx)
    (h : ∀ ctx, LowerM.Mirrors ρ r' (next ctx) (g ctx)) :
    LowerM.Mirrors ρ r' (MonadReader.read >>= next) (MonadReader.read >>= next') := by
  intro ctx ctx' st b st₁ hctx hgives _
  obtain ⟨_, _, hread, hrest⟩ := hgives.of_bind
  cases hread
  obtain ⟨hgrows, hmirror⟩ := h ctx ctx ctx' st b st₁ hctx hrest trivial
  refine ⟨hgrows, fun bound st' hbound hst => ?_⟩
  obtain ⟨st₁', hrest', hst₁⟩ := hmirror bound st' hbound hst
  rw [← hsame hctx] at hrest'
  exact ⟨st₁', LowerM.Gives.read.bind hrest', hst₁⟩

theorem ite {c c' : Prop} [Decidable c] [Decidable c'] (hc : c' ↔ c)
    {step step' other other' : LowerM α}
    (h : LowerM.Mirrors ρ r step step') (hother : LowerM.Mirrors ρ r other other') :
    LowerM.Mirrors ρ r (if c then step else other) (if c' then step' else other') := by
  by_cases hif : c
  · rw [if_pos hif, if_pos (hc.mpr hif)]
    exact h
  · rw [if_neg hif, if_neg fun h => hif (hc.mp h)]
    exact hother

/-- A choice by what a query is like. -/
theorem choose (test test' : Query → Bool)
    (htest : ∀ query, test' (ρ.queryNode query) = test query) (q : QueryRef)
    {step step' other other' : LowerM β} (h : LowerM.Mirrors ρ r' step step')
    (hother : LowerM.Mirrors ρ r' other other') :
    LowerM.Mirrors ρ r' (LowerM.store >>= fun s => if test (s.query q) then step else other)
      (LowerM.store >>= fun s => if test' (s.query (ρ.query q)) then step' else other') :=
  store (g := fun s => if test (s.query q) then step' else other')
    (fun hs => by simp only [hs.query, htest]) fun s => ite Iff.rfl h hother

/-- A refusal under a condition and what follows without it. -/
theorem unlessRefused {c c' : Prop} [Decidable c] [Decidable c'] (hc : c' ↔ c)
    {text reason text' reason' : String} {next next' : α → LowerM β} {other other' : LowerM β}
    (h : LowerM.Mirrors ρ r' other other') :
    LowerM.Mirrors ρ r' (if c then LowerM.refuse text reason >>= next else other)
      (if c' then LowerM.refuse text' reason' >>= next' else other') :=
  ite hc (throw _ _) h

theorem ofExcept {result result' : Except SqlError α} (h : result' = result.map r) :
    LowerM.Mirrors ρ r (LowerM.ofExcept result) (LowerM.ofExcept result') := by
  subst h
  cases result with
  | error e => exact throw e _
  | ok a => exact done rfl

theorem withVariables {bindings bindings' : List (String × Projection)}
    (hbindings : bindings' = ρ.scope bindings) {step step' : LowerM α}
    (h : LowerM.Mirrors ρ r step step') :
    LowerM.Mirrors ρ r (LowerM.withVariables bindings step)
      (LowerM.withVariables bindings' step') := by
  subst hbindings
  exact fun _ _ _ _ _ hctx hgives _ => h _ _ _ _ _ (hctx.withVariables bindings) hgives trivial

theorem lookUp (name : String) :
    LowerM.Mirrors ρ ρ.projection (LowerM.lookUp name) (LowerM.lookUp name) := by
  intro ctx ctx' st p st₁ hctx hgives _
  obtain ⟨_, _, hread, hrest⟩ := hgives.of_bind
  cases hread
  cases hlookup : ctx.scope.lookup name with
  | none =>
    rw [hlookup] at hrest
    cases hrest
  | some found =>
    rw [hlookup] at hrest
    cases hrest
    exact ⟨fun _ => Nat.le_refl _,
      fun _ st' _ hst => ⟨st', LowerM.Gives.lookUp (hctx.lookup hlookup), hst⟩⟩

/-! ## Lists -/

/-- A step for each item of a list, and its counterpart for each renamed item. -/
theorem mapMap {f : γ → LowerM β} {f' : δ → LowerM β} {g : γ → δ}
    (h : ∀ item, LowerM.Mirrors ρ r' (f item) (f' (g item))) (items : List γ) :
    LowerM.Mirrors ρ (List.map r') (items.mapM f) ((items.map g).mapM f') := by
  induction items with
  | nil => exact done rfl
  | cons item rest ih =>
    rw [List.map_cons, List.mapM_cons, List.mapM_cons]
    exact (h item).andThen fun _ => ih.andThen fun _ => done rfl

theorem mapM {f f' : γ → LowerM β} (h : ∀ item, LowerM.Mirrors ρ r' (f item) (f' item))
    (items : List γ) : LowerM.Mirrors ρ (List.map r') (items.mapM f) (items.mapM f') := by
  have hmap := mapMap (g := fun item => item) h items
  rwa [List.map_id'] at hmap

/-- A loop over a list. -/
theorem forIn {f : γ → PUnit → LowerM (ForInStep PUnit)} {f' : δ → PUnit → LowerM (ForInStep PUnit)}
    {g : γ → δ} (h : ∀ item u, LowerM.Mirrors ρ (fun result => result) (f item u) (f' (g item) u))
    (items : List γ) : LowerM.Mirrors ρ (fun u => u) (ForIn.forIn items PUnit.unit f)
      (ForIn.forIn (items.map g) PUnit.unit f') := by
  induction items with
  | nil => exact done rfl
  | cons item rest ih =>
    rw [List.map_cons, List.forIn_cons, List.forIn_cons]
    refine (h item _).andThen fun result => ?_
    cases result with
    | done u => exact done rfl
    | yield u => exact ih

/-! ## Changes -/

theorem allocate {f g : Store → α × Store} (h : ρ.Allocates r f g) :
    LowerM.Mirrors ρ r (LowerM.allocate f) (LowerM.allocate g) := by
  intro ctx ctx' st a st₁ _ hgives _
  cases hgives
  refine ⟨h.grows st.store, fun bound st' hbound hst => ?_⟩
  obtain ⟨hresult, htracks⟩ := h.tracks hbound hst.tracks
  exact ⟨_, LowerM.Gives.allocate_eq (Prod.ext hresult rfl), htracks, hst.covers, hst.covers'⟩

theorem modifyQuery (q : QueryRef) {f f' : Query → Query}
    (hf : ∀ query, f' (ρ.queryNode query) = ρ.queryNode (f query)) :
    LowerM.Mirrors ρ (fun u => u) (LowerM.modifyQuery q f) (LowerM.modifyQuery (ρ.query q) f') :=
  allocate (f := fun s => (PUnit.unit, s.modifyQuery q f))
    (g := fun s => (PUnit.unit, s.modifyQuery (ρ.query q) f'))
    { grows := fun s kind => by cases kind <;> simp [Store.count, Store.modifyQuery]
      tracks := fun _ h => ⟨rfl, h.modifyQuery q hf⟩ }

/-- A note that is of no account for the store and the ranking. -/
theorem annotate {f f' : LowerState → LowerState}
    (hf : ∀ st, (f st).store = st.store ∧ (f st).ranking = st.ranking)
    (hf' : ∀ st, (f' st).store = st.store ∧ (f' st).ranking = st.ranking) :
    LowerM.Mirrors ρ (fun u => u) (modify f : LowerM PUnit) (modify f') := by
  intro ctx ctx' st a st₁ _ hgives _
  cases hgives
  refine ⟨fun kind => Nat.le_of_eq (congrArg (·.count kind) (hf st).1.symm), fun _ st' _ hst =>
    ⟨f' st', LowerM.Gives.modify f', ?_, ?_, ?_⟩⟩
  · rw [(hf st).1, (hf' st').1]
    exact hst.tracks
  · rw [(hf st).2]
    exact hst.covers
  · rw [(hf' st').2]
    exact hst.covers'

theorem instantiate (entity : EntityMapping) :
    LowerM.Mirrors ρ ρ.table (LowerM.ofStoreM entity.instantiate)
      (LowerM.ofStoreM entity.instantiate) :=
  (allocate (ρ.allocates_instantiate entity)).andThen fun result => by
    cases result with
    | error e => exact throw e _
    | ok t => exact done rfl

theorem arg (c : CallSite) (index : Nat) :
    LowerM.Mirrors ρ (fun t => t) (c.arg index) ((ρ.callSite c).arg index) := by
  unfold CallSite.arg
  rw [show (ρ.callSite c).args = c.args from rfl]
  cases c.args[index]? with
  | none => exact refuse _ _ _
  | some t => exact done rfl

/-! ## Queries -/

theorem newQuery (parent : Option QueryRef) :
    LowerM.Mirrors ρ ρ.query (LowerM.newQuery parent) (LowerM.newQuery (parent.map ρ.query)) :=
  allocate (ρ.allocates_addQuery parent)

theorem addColumn (q : QueryRef) (e : Scalar) (aliasName : Option String) :
    LowerM.Mirrors ρ ρ.column (LowerM.allocate fun s => s.addColumn q e aliasName)
      (LowerM.allocate fun s => s.addColumn (ρ.query q) (ρ.scalar e) aliasName) :=
  allocate (ρ.allocates_addColumn q e aliasName)

theorem addFreshColumn (q : QueryRef) (e : Scalar) (aliasName : Option String) :
    LowerM.Mirrors ρ ρ.column (LowerM.allocate fun s => s.addFreshColumn q e aliasName)
      (LowerM.allocate fun s => s.addFreshColumn (ρ.query q) (ρ.scalar e) aliasName) :=
  allocate (ρ.allocates_addFreshColumn q e aliasName)

theorem addSource (q : QueryRef) (source : Source) :
    LowerM.Mirrors ρ (fun u => u) (LowerM.addSource q source)
      (LowerM.addSource (ρ.query q) (ρ.source source)) :=
  modifyQuery q fun query => by simp [Renaming.queryNode]

theorem addWhere (q : QueryRef) (condition : Condition) :
    LowerM.Mirrors ρ (fun u => u) (LowerM.addWhere q condition)
      (LowerM.addWhere (ρ.query q) (ρ.condition condition)) :=
  modifyQuery q fun query => by simp [Renaming.queryNode]

theorem selectOnly (q : QueryRef) (c : ColumnRef) :
    LowerM.Mirrors ρ (fun u => u) (LowerM.selectOnly q c)
      (LowerM.selectOnly (ρ.query q) (ρ.column c)) := by
  refine modifyQuery q fun query => ?_
  have hcolumns : (query.columns.map ρ.column).filter (· == ρ.column c) =
      (query.columns.filter (· == c)).map ρ.column := by
    rw [List.filter_map]
    refine congrArg (fun test => List.map ρ.column (List.filter test query.columns)) ?_
    funext d
    rw [Function.comp_apply, Bool.eq_iff_iff, beq_iff_eq, beq_iff_eq, ρ.column_inj]
  simp only [Renaming.queryNode, hcolumns]

theorem columnFor (q : QueryRef) (e : Scalar) (path : String) :
    LowerM.Mirrors ρ ρ.column (LowerM.columnFor q e path)
      (LowerM.columnFor (ρ.query q) (ρ.scalar e) path) := by
  have hadd := addColumn (ρ := ρ) q e (Projection.leafAlias path)
  cases e with
  | column c =>
    refine store (g := fun s => if ρ.query (s.column c).parent == ρ.query q then
      Pure.pure (ρ.column c) else _) (fun hs => ?_) fun s => ite ?_ (done rfl) hadd
    · rw [Renaming.scalar_column]
      dsimp only
      rw [hs.column]
      rfl
    · simp
  | _ => exact store (g := fun _ => _) (fun _ => rfl) fun _ => hadd

/-! ## Projections -/

section

variable {f f' : String → Scalar → LowerM Scalar}

mutual

/-- Replacing the leaves of a projection, from left to right. -/
theorem mapLeavesAt (hf : ∀ path e, LowerM.Mirrors ρ ρ.scalar (f path e) (f' path (ρ.scalar e)))
    (p : Projection) (path : String) :
    LowerM.Mirrors ρ ρ.projection (p.mapLeavesAt f path)
      ((ρ.projection p).mapLeavesAt f' path) := by
  match p with
  | .entity name t members =>
    exact (mapMap (fun m => (hf _ m.2).andThen fun e =>
      done (r := fun m => (m.1, ρ.scalar m.2)) rfl) members).andThen fun members => done rfl
  | .record members =>
    exact (mapLeavesOfMembers hf members path).andThen fun members => done (by simp)
  | .scalar e => exact (hf path e).andThen fun e => done rfl
  | .grouping key element => exact (mapLeavesAt hf key _).andThen fun key => done rfl
termination_by structural p

theorem mapLeavesOfMembers
    (hf : ∀ path e, LowerM.Mirrors ρ ρ.scalar (f path e) (f' path (ρ.scalar e)))
    (members : List (String × Projection)) (path : String) :
    LowerM.Mirrors ρ (List.map fun m => (m.1, ρ.projection m.2))
      (Projection.mapLeavesOfMembers f path members)
      (Projection.mapLeavesOfMembers f' path (ρ.members members)) := by
  match members with
  | [] => exact done rfl
  | (name, p) :: rest =>
    exact (mapLeavesAt hf p _).andThen fun p =>
      (mapLeavesOfMembers hf rest path).andThen fun rest => done rfl
termination_by structural members

end

end

theorem expose (q : QueryRef) (p : Projection) :
    LowerM.Mirrors ρ ρ.projection (LowerM.expose q p)
      (LowerM.expose (ρ.query q) (ρ.projection p)) := by
  have hleaves : ∀ p : Projection, LowerM.Mirrors ρ ρ.projection
      (p.mapLeaves fun path e => return Scalar.column (← LowerM.columnFor q e path))
      ((ρ.projection p).mapLeaves fun path e =>
        return Scalar.column (← LowerM.columnFor (ρ.query q) e path)) :=
    fun p =>
      mapLeavesAt (fun path e => by exact andThen (columnFor q e path) fun c => done rfl) p ""
  cases p with
  | grouping key element => exact hleaves (.grouping key (.record []))
  | entity name t members => exact hleaves (.entity name t members)
  | record members => exact hleaves (.record members)
  | scalar e => exact hleaves (.scalar e)

theorem refuseGrouping (p : Projection) :
    LowerM.Mirrors ρ (fun u => u) (LowerM.refuseGrouping p)
      (LowerM.refuseGrouping (ρ.projection p)) :=
  ite (by simp) (refuse _ _ _) (done rfl)

theorem materialize (q : QueryRef) (p : Projection) (fresh : Bool) :
    LowerM.Mirrors ρ (fun u => u) (LowerM.materialize q p fresh)
      (LowerM.materialize (ρ.query q) (ρ.projection p) fresh) := by
  refine (refuseGrouping p).andThen fun _ => andThen (r := fun u => u) ?_ fun _ => done rfl
  rw [Renaming.projection_leaves]
  exact forIn (fun (path, e) _ => ite Iff.rfl
    ((addFreshColumn q e _).andThen fun _ => done rfl)
    ((columnFor q e path).andThen fun _ => done rfl)) p.leaves

/-! ## Lowered terms -/

theorem wrap (lowered : Lowered) :
    LowerM.Mirrors ρ ρ.lowered (LowerM.wrap lowered) (LowerM.wrap (ρ.lowered lowered)) := by
  obtain ⟨q, p, outcome⟩ := lowered
  refine store (fun hs => by dsimp only [Renaming.lowered]; rw [hs.query]) fun s => ?_
  exact andThen (newQuery _) fun outer => andThen (modifyQuery q fun _ => rfl) fun _ =>
    andThen (modifyQuery outer fun query => by simp [Renaming.queryNode]) fun _ =>
      andThen (expose q p) fun p => done rfl

theorem wrapIf {test test' : Query → Bool} (htest : ∀ query, test' (ρ.queryNode query) = test query)
    (lowered : Lowered) :
    LowerM.Mirrors ρ ρ.lowered (LowerM.wrapIf test lowered)
      (LowerM.wrapIf test' (ρ.lowered lowered)) :=
  choose test test' htest lowered.query (wrap lowered) (done rfl)

theorem narrow (lowered : Lowered) (t : TableRef) (typeName : String) :
    LowerM.Mirrors ρ ρ.lowered (LowerM.narrow lowered t typeName)
      (LowerM.narrow (ρ.lowered lowered) (ρ.table t) typeName) := by
  obtain ⟨q, p, outcome⟩ := lowered
  refine store (fun hs => by dsimp only [Renaming.lowered]; rw [hs.subtypeCondition])
    fun s => ?_
  refine (ofExcept rfl).andThen fun condition => (addWhere q condition).andThen fun _ => ?_
  cases p with
  | record members => simpa [Renaming.lowered] using done (by simp [Renaming.lowered])
  | _ => exact done rfl

/-- A new query that reads a new table. -/
theorem readEntity (entity : EntityMapping) (parent : Option QueryRef) :
    LowerM.Mirrors ρ (Prod.map ρ.lowered ρ.table) (LowerM.readEntity entity parent)
      (LowerM.readEntity entity (parent.map ρ.query)) :=
  (instantiate entity).andThen fun t => (newQuery parent).andThen fun q =>
    (addSource q (.ofTable t)).andThen fun _ =>
      store (fun hs => by rw [hs.projection_ofTable]; rfl) fun s => done rfl

theorem readType (name : String) (parent : Option QueryRef) :
    LowerM.Mirrors ρ ρ.lowered (LowerM.readType name parent)
      (LowerM.readType name (parent.map ρ.query)) := by
  refine read (fun hctx => by rw [hctx.schema]) fun ctx => ?_
  refine (ofExcept (r := fun found => found) (by cases ctx.schema.resolve name <;> rfl)).andThen
    fun (found, subtype) => ?_
  refine (ofExcept (r := fun entity => entity)
    (by cases ctx.schema.entity found.name <;> rfl)).andThen fun entity =>
      (readEntity entity parent).andThen fun (lowered, t) => ?_
  exact ite Iff.rfl (narrow lowered t name) (done rfl)

/-- What an inner sequence joins as. -/
theorem joinSource (inner : Lowered) :
    LowerM.Mirrors ρ (Prod.map ρ.source (Prod.map ρ.projection ρ.condition)) inner.joinSource
      (ρ.lowered inner).joinSource := by
  obtain ⟨q, p, outcome⟩ := inner
  refine store (fun hs => by dsimp only [Renaming.lowered]; rw [hs.query]) fun s => ?_
  have hplain : ((!(ρ.queryNode (s.query q)).isGrouped &&
      (ρ.queryNode (s.query q)).having.isEmpty) && !(ρ.queryNode (s.query q)).hasFixedRows) =
      ((!(s.query q).isGrouped && (s.query q).having.isEmpty) && !(s.query q).hasFixedRows) := by
    rw [Renaming.queryNode_isGrouped, Renaming.queryNode_hasFixedRows,
      show (ρ.queryNode (s.query q)).having = ρ.condition (s.query q).having from rfl,
      Renaming.condition_isEmpty]
  have hexposed : LowerM.Mirrors ρ (Prod.map ρ.source (Prod.map ρ.projection ρ.condition))
      (do
        LowerM.modifyQuery q fun q => if q.hasPagination then q else { q with orderBy := [] }
        return (.ofQuery q, ← LowerM.expose q p, .empty))
      (do
        LowerM.modifyQuery (ρ.query q) fun q =>
          if q.hasPagination then q else { q with orderBy := [] }
        return (.ofQuery (ρ.query q), ← LowerM.expose (ρ.query q) (ρ.projection p), .empty)) :=
    andThen (modifyQuery q fun query => by
      rw [Renaming.queryNode_hasPagination]
      split <;> rfl) fun _ => andThen (expose q p) fun p => done rfl
  dsimp only
  rw [hplain, Renaming.queryNode_onlyTable?]
  cases (s.query q).onlyTable? with
  | none => exact hexposed
  | some t =>
    cases (!(s.query q).isGrouped && (s.query q).having.isEmpty) && !(s.query q).hasFixedRows with
    | false => exact hexposed
    | true => exact done rfl

/-- A side of a set operator. -/
theorem asSide {test test' : Query → Bool} (htest : ∀ query, test' (ρ.queryNode query) = test query)
    (lowered : Lowered) :
    LowerM.Mirrors ρ ρ.lowered (lowered.asSide test) ((ρ.lowered lowered).asSide test') := by
  refine andThen (modifyQuery lowered.query fun query => ?_) fun _ =>
    andThen (wrapIf (fun query => by simp [htest]) lowered) fun side =>
      choose (·.columns.isEmpty) (·.columns.isEmpty) (fun query => by simp) side.query
        (andThen (materialize _ _ _) fun _ => done rfl) (done rfl)
  rw [Renaming.queryNode_hasPagination]
  split <;> rfl

theorem checkSequence (c : CallSite) (term : Term) (lowered : Lowered) :
    LowerM.Mirrors ρ (fun u => u) (c.checkSequence term lowered)
      ((ρ.callSite c).checkSequence term (ρ.lowered lowered)) :=
  ite Iff.rfl (done rfl) (refuse _ _ _)

end LowerM.Mirrors

/-! ## Runs -/

/-- A run in a store is found again in one in which the store is found, whatever the nodes that it
adds nowhere are called. -/
theorem Renaming.Embeds.run {α : Type} {P : α → Prop} {rename : Renaming → α → α}
    {step step' : LowerM α} {ctx ctx' : LowerContext} {st st' st₁ : LowerState} {a : α}
    {ρ : Renaming} (h : ρ.Embeds st.store st'.store)
    (hsteps : ∀ σ : Renaming, ρ.Agrees σ st.store st'.store →
      σ.Contexts ctx ctx' ∧ LowerM.MirrorsIf σ P (rename σ) step step')
    (hcovers : st.ranking.Covers standardRules) (hcovers' : st'.ranking.Covers standardRules)
    (hgives : step.Gives ctx st a st₁) (ha : P a) :
    ∃ st₁', step'.Gives ctx' st' (rename ρ a) st₁' ∧ ρ.Embeds st₁.store st₁'.store ∧
      st₁.ranking.Covers standardRules ∧ st₁'.ranking.Covers standardRules ∧
      ∀ σ : Renaming, ρ.Agrees σ st₁.store st₁'.store →
        ρ.Agrees σ st.store st'.store ∧ rename σ a = rename ρ a := by
  obtain ⟨hctx, hmirrors⟩ := hsteps ρ h.agrees
  obtain ⟨hgrows, hmirror⟩ := hmirrors ctx ctx' st a st₁ hctx hgives ha
  obtain ⟨st₁', hgives', hst₁⟩ := hmirror (fun kind => st₁.store.count kind + 1) st'
    (fun _ => Nat.le_succ _) ⟨h.tracks _, hcovers, hcovers'⟩
  -- both stores have got equally many nodes
  have hadded : ∀ kind, st₁'.store.count kind =
      st'.store.count kind + (st₁.store.count kind - st.store.count kind) := fun kind => by
    have hnext := h.next kind (st₁.store.count kind - st.store.count kind)
    rw [Nat.add_sub_cancel' (hgrows kind)] at hnext
    exact (hst₁.tracks.size kind (Nat.lt_succ_self _)).symm.trans hnext
  have hagrees : ∀ σ : Renaming, ρ.Agrees σ st₁.store st₁'.store →
      ρ.Agrees σ st.store st'.store := by
    refine fun σ hσ => ⟨fun kind i hi => hσ.below kind i (Nat.lt_of_lt_of_le hi (hgrows kind)),
      fun kind i hi => ?_⟩
    by_cases hnew : i < st₁.store.count kind
    · rw [hσ.below kind i hnew]
      exact h.agrees.above kind i hi
    · have habove := hσ.above kind i (Nat.le_of_not_lt hnew)
      rw [hadded] at habove
      omega
  have hrun : ∀ σ : Renaming, ρ.Agrees σ st₁.store st₁'.store →
      rename σ a = rename ρ a ∧ σ.Copies st₁.store st₁'.store := by
    intro σ hσ
    obtain ⟨hctx, hmirrors⟩ := hsteps σ (hagrees σ hσ)
    obtain ⟨-, hmirror⟩ := hmirrors ctx ctx' st a st₁ hctx hgives ha
    have htracks : σ.Tracks st₁.store.count st.store st'.store :=
      ⟨h.copies (hagrees σ hσ), fun kind i hi => by rw [hσ.below kind _ hi, h.next]⟩
    obtain ⟨_, hgives'', hst⟩ := hmirror _ st' (fun _ => Nat.le_refl _)
      ⟨htracks, hcovers, hcovers'⟩
    obtain ⟨hsame, rfl⟩ := hgives''.unique hgives'
    exact ⟨hsame, hst.tracks.toCopies⟩
  refine ⟨st₁', hgives', ⟨fun hσ => (hrun _ hσ).2, fun kind i => ?_⟩, hst₁.covers, hst₁.covers',
    fun σ hσ => ⟨hagrees σ hσ, (hrun σ hσ).1⟩⟩
  have hnext := h.next kind (st₁.store.count kind - st.store.count kind + i)
  rwa [← Nat.add_assoc, Nat.add_sub_cancel' (hgrows kind), ← Nat.add_assoc, ← hadded] at hnext

/-! ## Lowerers -/

/-- Whether an outcome is rows or a value, which has no references of its own. -/
def Outcome.reads : Outcome → Bool
  | sequence | element .. | scalar => true
  | _ => false

/-- A lowerer and its renamed counterpart.  Sequences are compared where they are read. -/
structure Lowerer.Mirrors (ρ : Renaming) (l l' : Lowerer) : Prop where
  sequence : ∀ t parent, LowerM.MirrorsIf ρ (fun lowered => lowered.outcome.reads = true) ρ.lowered
    (l.sequence t parent) (l'.sequence t (parent.map ρ.query))
  projection : ∀ t q, LowerM.Mirrors ρ ρ.projection (l.projection t q)
    (l'.projection t (ρ.query q))
  scalar : ∀ t q, LowerM.Mirrors ρ ρ.scalar (l.scalar t q) (l'.scalar t (ρ.query q))
  condition : ∀ t q, LowerM.Mirrors ρ ρ.condition (l.condition t q) (l'.condition t (ρ.query q))

namespace Lowerer.Mirrors

open LowerM.Mirrors

variable {ρ : Renaming} {l l' : Lowerer} {α : Type}

theorem apply {r : α → α} {lower lower' : Term → QueryRef → LowerM α}
    (h : ∀ t q, LowerM.Mirrors ρ r (lower t q) (lower' t (ρ.query q))) (f : Term)
    {args args' : List Projection} (hargs : args' = args.map ρ.projection) (q : QueryRef) :
    LowerM.Mirrors ρ r (Lowerer.apply lower f args q)
      (Lowerer.apply lower' f args' (ρ.query q)) := by
  subst hargs
  unfold Lowerer.apply
  rw [List.length_map]
  refine andThen (ofExcept (r := fun found => found) (by cases f.functionOf _ <;> rfl))
    fun (params, body) => withVariables ?_ (h body q)
  rw [Renaming.scope, List.zip_map_right]
  rfl

variable (h : Lowerer.Mirrors ρ l l')
include h

theorem applyProjection (f : Term) {args args' : List Projection}
    (hargs : args' = args.map ρ.projection) (q : QueryRef) :
    LowerM.Mirrors ρ ρ.projection (l.applyProjection f args q)
      (l'.applyProjection f args' (ρ.query q)) := apply h.projection f hargs q

theorem applyScalar (f : Term) {args args' : List Projection}
    (hargs : args' = args.map ρ.projection) (q : QueryRef) :
    LowerM.Mirrors ρ ρ.scalar (l.applyScalar f args q) (l'.applyScalar f args' (ρ.query q)) :=
  apply h.scalar f hargs q

theorem applyCondition (f : Term) {args args' : List Projection}
    (hargs : args' = args.map ρ.projection) (q : QueryRef) :
    LowerM.Mirrors ρ ρ.condition (l.applyCondition f args q)
      (l'.applyCondition f args' (ρ.query q)) := apply h.condition f hargs q

/-! ## Values -/

omit h in
theorem typeOf (e : Scalar) :
    LowerM.Mirrors ρ (fun type => type) (do return (← LowerM.store).typeOf e)
      (do return (← LowerM.store).typeOf (ρ.scalar e)) :=
  store (fun hs => by rw [hs.typeOf]) fun s => done rfl

omit h in
theorem expand (name : String) (args : List Scalar) (e e' : SqlError) :
    LowerM.Mirrors ρ ρ.scalar (Lowerer.expand name args e)
      (Lowerer.expand name (args.map ρ.scalar) e') := by
  have htype : ∀ {s s' : Store}, ρ.Copies s s' →
      functionType s' name (args.map ρ.scalar) = functionType s name args := by
    intro s s' hs
    unfold functionType
    split
    · rfl
    · cases args with
      | nil => rfl
      | cons e rest => exact hs.typeOf e
  refine store (fun hs => by rw [htype hs]) fun s => ?_
  refine read (fun hctx => by
    rw [hctx.provider, FunctionCatalog.expand_renamed hctx.natural]) fun ctx => ?_
  refine andThen (ofExcept rfl) fun found => ?_
  cases found with
  | none => exact throw _ _
  | some e => exact done rfl

omit h in
theorem aggregate (rows : GroupRows) (whole : Term) (operator : SequenceOperator) :
    LowerM.Mirrors ρ ρ.scalar (rows.aggregate whole operator)
      ((ρ.groupRows rows).aggregate whole operator) := by
  refine ite Iff.rfl (done ?_) (andThen (ofExcept (ρ.projection_toScalar rows.projection whole))
    fun argument => store (fun hs => by rw [hs.typeOf]) fun s => done ?_)
  · have hfilter : (ρ.groupRows rows).filter.isEmpty = rows.filter.isEmpty :=
      ρ.condition_isEmpty rows.filter
    rw [hfilter, Renaming.scalar_function, Renaming.call_aggregate]
    split
    · rfl
    · rw [List.map_singleton, ← Renaming.groupRows_filtered, Renaming.scalar_int]
  · rw [Renaming.scalar_function, Renaming.call_aggregate, List.map_singleton,
      ← Renaming.groupRows_deduplicated, ← Renaming.groupRows_filtered]

theorem groupSource (q : QueryRef) (t : Term) :
    LowerM.Mirrors ρ (Option.map ρ.groupRows) (l.groupSource q t)
      (l'.groupSource (ρ.query q) t) := by
  induction t using Lowerer.groupSource.induct q with
  | case1 name =>
    rw [Lowerer.groupSource, Lowerer.groupSource]
    refine andThen (lookUp name) fun p => ?_
    cases p with
    | grouping key element => exact done rfl
    | entity | record | scalar => exact done rfl
  | case2 source rest ih =>
    rw [Lowerer.groupSource, Lowerer.groupSource]
    refine andThen ih fun rows => ?_
    cases rows with
    | none => exact done rfl
    | some rows =>
      exact andThen (arg ⟨_, source :: rest, some q⟩ 1) fun f =>
        andThen (h.applyCondition f rfl q) fun condition => done (by simp [Renaming.groupRows])
  | case3 source rest ih =>
    rw [Lowerer.groupSource, Lowerer.groupSource]
    refine andThen ih fun rows => ?_
    cases rows with
    | none => exact done rfl
    | some rows =>
      exact andThen (arg ⟨_, source :: rest, some q⟩ 1) fun f =>
        andThen (h.applyProjection f rfl q) fun p => done rfl
  | case4 source rest ih =>
    rw [Lowerer.groupSource, Lowerer.groupSource]
    refine andThen ih fun rows => ?_
    cases rows with
    | none => exact done rfl
    | some rows => exact done rfl
  | case6 | case7 | case8 =>
    rw [Lowerer.groupSource, Lowerer.groupSource]
    exact andThen (arg ⟨_, [], some q⟩ 0) fun _ => done rfl
  | case5 operator source rest hfilter hselect hdistinct =>
    have hnone : ∀ (l : Lowerer) q, l.groupSource q (.call operator (source :: rest)) =
        Pure.pure none := fun l q => by cases operator <;> simp_all [Lowerer.groupSource]
    rw [hnone, hnone]
    exact done rfl
  | case9 operator hfilter hselect hdistinct =>
    have hnone : ∀ (l : Lowerer) q, l.groupSource q (.call operator []) =
        Pure.pure none := fun l q => by cases operator <;> simp_all [Lowerer.groupSource]
    rw [hnone, hnone]
    exact done rfl
  | case10 t =>
    have hnone : ∀ (l : Lowerer) q, l.groupSource q t = Pure.pure none :=
      fun l q => by cases t <;> simp_all [Lowerer.groupSource]
    rw [hnone, hnone]
    exact done rfl

theorem functionOf (whole : Term) (name : String) (args : List Term) (q : QueryRef) :
    LowerM.Mirrors ρ ρ.scalar (l.functionOf whole name args q)
      (l'.functionOf whole name args (ρ.query q)) := by
  unfold Lowerer.functionOf
  split
  · refine andThen (r := fun b => b) ?_ fun caseSensitive => andThen (h.scalar _ q) fun receiver =>
      andThen (h.scalar _ q) fun pattern => done (by simp)
    unfold Lowerer.caseSensitivity
    split
    · exact done rfl
    · exact done rfl
    · exact refuse _ _ _
  · exact andThen (mapM (fun t => h.scalar t q) _) fun args => expand name args _ _

omit h in
/-- The value of a lowered sequence. -/
theorem valueOf (whole : Term) (lowered : Lowered) :
    LowerM.Mirrors ρ ρ.scalar (Lowerer.valueOf whole lowered)
      (Lowerer.valueOf whole (ρ.lowered lowered)) := by
  obtain ⟨q, p, outcome⟩ := lowered
  have hselect : ∀ e : Scalar, LowerM.Mirrors ρ ρ.scalar
      (do
        let c ← LowerM.columnFor q e ""
        LowerM.selectOnly q c
        return .query q)
      (do
        let c ← LowerM.columnFor (ρ.query q) (ρ.scalar e) ""
        LowerM.selectOnly (ρ.query q) c
        return .query (ρ.query q)) :=
    fun e => andThen (columnFor q e "") fun c => andThen (selectOnly q c) fun _ => done rfl
  cases outcome with
  | scalar =>
    cases p with
    | scalar e =>
      cases e with
      | condition c => exact done rfl
      | _ => exact hselect _
    | _ => exact refuse _ _ _
  | element single orDefault =>
    cases p with
    | scalar e => exact hselect e
    | _ => exact refuse _ _ _
  | _ => cases p <;> exact refuse _ _ _

omit h in
/-- Only rows and values have a value. -/
theorem reads_of_valueOf {whole : Term} {lowered : Lowered} {ctx : LowerContext}
    {st st' : LowerState} {e : Scalar}
    (hgives : (Lowerer.valueOf whole lowered).Gives ctx st e st') :
    lowered.outcome.reads = true := by
  obtain ⟨q, p, outcome⟩ := lowered
  cases outcome with
  | scalar | element => rfl
  | _ => cases p <;> cases hgives

theorem nested (t : Term) (q : QueryRef) :
    LowerM.Mirrors ρ ρ.scalar (do Lowerer.valueOf t (← l.sequence t (some q)))
      (do Lowerer.valueOf t (← l'.sequence t (some (ρ.query q)))) :=
  bindIf (h.sequence t (some q)) reads_of_valueOf fun lowered _ => valueOf t lowered

omit h in
/-- The items of a list that is written in a term have no references. -/
theorem scalar_listMembers {t : Term} {members : List Scalar}
    (hmembers : t.listMembers? = some members) : ∀ e ∈ members, ρ.scalar e = e := by
  fun_induction Term.listMembers? t with
  | case1 items =>
    cases hmembers
    intro e he
    obtain ⟨item, -, rfl⟩ := List.mem_map.mp he
    rfl
  | case2 name items =>
    cases hmembers
    intro e he
    cases List.mem_singleton.mp he
    rfl
  | case3 inner ih => exact ih hmembers
  | case4 => cases hmembers

theorem callOf (operator : SequenceOperator) (args : List Term) (q : QueryRef) :
    LowerM.Mirrors ρ ρ.scalar (l.callOf operator args q) (l'.callOf operator args (ρ.query q)) := by
  have hnested := h.nested (.call operator args) q
  have harg := fun index => arg (ρ := ρ) ⟨operator, args, some q⟩ index
  refine ite Iff.rfl (andThen (harg 0) fun t => andThen (h.groupSource q t) fun rows => ?_)
    (ite Iff.rfl (andThen (harg 0) fun t => ?_) hnested)
  · cases rows with
    | some rows => exact aggregate rows _ operator
    | none => exact hnested
  · cases hmembers : t.listMembers? with
    | some members =>
      exact andThen (harg 1) fun t => andThen (h.scalar t q) fun item =>
        store (fun hs => by rw [hs.membership item (scalar_listMembers hmembers)])
          fun s => done (by simp)
    | none => exact hnested

theorem projectionOf (t : Term) (q : QueryRef) :
    LowerM.Mirrors ρ ρ.projection (l.projectionOf t q) (l'.projectionOf t (ρ.query q)) := by
  cases t with
  | bound name => exact lookUp name
  | member owner name =>
    refine andThen (h.projection owner q) fun p => ?_
    cases p with
    | scalar e => exact andThen (expand name [e] _ _) fun e => done rfl
    | entity | record | grouping => exact ofExcept (ρ.projection_member _ name)
  | record members =>
    exact andThen (mapM (fun m => andThen (h.projection m.2 q) fun p =>
      done (r := fun m => (m.1, ρ.projection m.2)) rfl) members) fun members =>
        done (ρ.projection_ofList members).symm
  | entity name members =>
    exact andThen (mapM (fun m => andThen (h.scalar m.2 q) fun e =>
      done (r := fun m => (m.1, ρ.scalar m.2)) rfl) members) fun members =>
        done (ρ.projection_ofScalars name none members).symm
  | quote inner => exact h.projection inner q
  | call operator args => exact andThen (h.callOf operator args q) fun e => done rfl
  | table name => exact refuse _ _ _
  | lambda params body => exact refuse _ _ _
  | _ => exact andThen (h.scalar _ q) fun e => done rfl

theorem scalarOf (t : Term) (q : QueryRef) :
    LowerM.Mirrors ρ ρ.scalar (l.scalarOf t q) (l'.scalarOf t (ρ.query q)) := by
  have hprojection : ∀ t : Term, LowerM.Mirrors ρ ρ.scalar
      (do LowerM.ofExcept ((← l.projection t q).toScalar t))
      (do LowerM.ofExcept ((← l'.projection t (ρ.query q)).toScalar t)) :=
    fun t => andThen (h.projection t q) fun p => ofExcept (ρ.projection_toScalar p t)
  cases t with
  | constant value => exact done rfl
  | parameter name value => exact done rfl
  | binary operator left right =>
    refine ite Iff.rfl (andThen (h.condition _ q) fun c => done (by simp)) ?_
    refine andThen (h.scalar left q) fun left => andThen (h.scalar right q) fun right =>
      andThen (typeOf left) fun leftType => ?_
    dsimp only
    split
    · refine andThen (typeOf right) fun type => ?_
      split <;> exact done (by simp)
    · split <;> exact done (by simp)
  | not operand => exact andThen (h.condition _ q) fun c => done (by simp)
  | negate operand =>
    exact andThen (h.scalar operand q) fun e => andThen (typeOf e) fun type => done rfl
  | conditional test yes no =>
    exact andThen (h.condition test q) fun c => andThen (h.scalar yes q) fun yes =>
      andThen (h.scalar no q) fun no => andThen (typeOf yes) fun type => done (by simp)
  | convert operand target =>
    exact andThen (h.scalar operand q) fun e => andThen (typeOf e) fun type => done rfl
  | function name args => exact h.functionOf _ name args q
  | _ => exact hprojection _

theorem conditionByScalar (t : Term) (q : QueryRef) :
    LowerM.Mirrors ρ ρ.condition
      (do
        match ← l.scalar t q with
        | .condition c => return c
        | e => return Condition.ofPredicate (.ofScalar e))
      (do
        match ← l'.scalar t (ρ.query q) with
        | .condition c => return c
        | e => return Condition.ofPredicate (.ofScalar e)) := by
  refine andThen (h.scalar t q) fun e => ?_
  cases e with
  | condition c => exact done (ρ.condition_eq c)
  | raw | row => exact done (by simp)
  | _ => exact done rfl

theorem conditionOf (t : Term) (q : QueryRef) :
    LowerM.Mirrors ρ ρ.condition (l.conditionOf t q) (l'.conditionOf t (ρ.query q)) := by
  have hscalar := fun t => h.conditionByScalar t q
  cases t with
  | binary operator left right =>
    unfold Lowerer.conditionOf
    dsimp only
    split
    · exact andThen (h.condition left q) fun left => andThen (h.condition right q) fun right =>
        done (by simp)
    · exact andThen (h.condition left q) fun left => andThen (h.condition right q) fun right =>
        done (by simp)
    · exact andThen (h.scalar left q) fun left => andThen (h.scalar right q) fun right =>
        done (by simp)
    · exact hscalar _
  | not operand => exact andThen (h.condition operand q) fun c => done (by simp)
  | constant c =>
    cases c with
    | boolean b => exact done rfl
    | _ => exact hscalar _
  | _ => exact hscalar _

end Lowerer.Mirrors

end SqlCompiler
