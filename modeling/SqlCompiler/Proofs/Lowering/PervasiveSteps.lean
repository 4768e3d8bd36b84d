import SqlCompiler.Lowering.Statement
import SqlCompiler.Proofs.Columns.Ownership
import SqlCompiler.Proofs.Lowering.Frames
import SqlCompiler.Proofs.Lowering.Values

/-!
# Properties of all steps of lowering

A rule looks at the context and the store, changes the store and the annotations, and asks a
lowerer for the parts of a term.  It changes the store by operations that neither move nor rename a
column, and the queries that it changes are new ones, as are those of the sequences that it gets from
its lowerer.  A property of steps and of what is known of their results that lasts through all of this
holds of what every standard rule does if it holds of what the lowerer does.

Main results:

- Definition `Store.Advances`: the changes of a store that a rule makes.
- Definition `LowerM.Bounded`: a property of steps and of their results that lasts through
  everything but the choice of a rule, if queries below a bound are not touched.
- Definition `Lowerer.Bounded`: a lowerer whose answers have such a property.
- Theorem `LowerM.Bounded.toStatement`: closing a lowered term has it.
-/

namespace SqlCompiler

/-- A sub type is told apart by a field of the table that it is in. -/
theorem EntityMapping.discriminator_mem {entity : EntityMapping} {s : Store} {t : TableRef}
    {m : SubtypeMapping} {subtype : Subtype} (h : entity.subtypeIn s t m = .ok subtype) :
    subtype.discriminator ∈ (s.table t).fields := by
  unfold subtypeIn at h
  split at h
  · next f hfound =>
    cases h
    exact List.mem_of_find?_eq_some hfound
  · cases h

/-- The table of an entity comes about by operations. -/
theorem EntityMapping.operates_instantiate (entity : EntityMapping) (s : Store) :
    s.Operates (entity.instantiate.runOn s).2 := by
  let table : Table := { name := { schema := entity.schema, name := entity.tableName } }
  have hadded : s.Operates (s.addTable table (entity.columns.map (·.fieldSpec))).2 :=
    .single (.addTable s _ rfl rfl)
  rw [entity.runOn_instantiate s]
  split
  · exact hadded
  · next subtypes hsubtypes =>
    refine hadded.trans (.single (.setSubtypes _ _ fun subtype hsubtype => ?_))
    obtain ⟨m, hm⟩ := exists_of_mapM_ok hsubtypes subtype hsubtype
    exact discriminator_mem hm

/-- A change of the state that neither looks at the ranking nor changes it. -/
def LowerState.Unranked {α : Type} (f : LowerState → α × LowerState) : Prop :=
  ∀ st ranking, f { st with ranking } = ((f st).1, { (f st).2 with ranking })

/-- A change that has nothing to do with the ranking leaves it alone. -/
theorem LowerState.Unranked.ranking_eq {α : Type} {f : LowerState → α × LowerState}
    (h : LowerState.Unranked f) (st : LowerState) : (f st).2.ranking = st.ranking :=
  congrArg (·.2.ranking) (h st st.ranking)

/-- A store changes by operations that neither move nor rename a column, and its queries below a
bound stay. -/
structure Store.Advances (n : Nat) (s s' : Store) : Prop where
  evolves : s.Evolves s'
  operates : s.Operates s'
  keeps : n ≤ s.queries.size → s.KeepsBelow n s'

/-- A property of steps and of what is known of their results that lasts through everything but the
choice of a rule, if queries below a bound are not touched. -/
structure LowerM.Bounded (n : Nat) (C : ∀ {α : Type}, LowerM α → (α → Prop) → Prop) : Prop where
  pure : ∀ {α : Type} {P : α → Prop} {a : α}, P a → C (Pure.pure a) P
  throw : ∀ {α : Type} {P : α → Prop} (e : SqlError), C (MonadExcept.throw e : LowerM α) P
  bind : ∀ {α β : Type} {P : α → Prop} {Q : β → Prop} {step : LowerM α} {next : α → LowerM β},
    C step P → (∀ a, P a → C (next a) Q) → C (step >>= next) Q
  read : C (MonadReader.read : LowerM LowerContext) fun _ => True
  store : C LowerM.store fun _ => True
  withVariables : ∀ {α : Type} {P : α → Prop} {bindings : List (String × Projection)}
    {step : LowerM α}, C step P → C (LowerM.withVariables bindings step) P
  annotate : ∀ {α : Type} {f : LowerState → α × LowerState}, LowerState.Unranked f →
    (∀ st, (f st).2.store = st.store) → C (MonadStateOf.modifyGet f : LowerM α) fun _ => True
  allocate : ∀ {α : Type} {P : α → Prop} {f : Store → α × Store},
    (∀ s : Store, s.Advances n (f s).2) → (∀ s : Store, n ≤ s.queries.size → P (f s).1) →
      C (LowerM.allocate f) P

/-- A lowerer whose answers have such a property, and whose sequences have queries above the bound. -/
structure Lowerer.Bounded (n : Nat) (C : ∀ {α : Type}, LowerM α → (α → Prop) → Prop)
    (l : Lowerer) : Prop extends LowerM.Bounded n C where
  sequence : ∀ t parent, C (l.sequence t parent) (Lowered.Above n)
  projection : ∀ t q, C (l.projection t q) fun _ => True
  scalar : ∀ t q, C (l.scalar t q) fun _ => True
  condition : ∀ t q, C (l.condition t q) fun _ => True

/-- A rule whose steps have such a property if those of its lowerer do. -/
def Rule.Bounded (n : Nat) (C : ∀ {α : Type}, LowerM α → (α → Prop) → Prop) (rule : Rule) : Prop :=
  ∀ l : Lowerer, l.Bounded n C → ∀ t parent, C (rule.lower l t parent) (Lowered.Above n)

variable {α β γ : Type}

/-! ## Steps in a row -/

namespace LowerM.Closed

variable {C : ∀ {α : Type}, LowerM α → Prop} (h : LowerM.Closed C)
include h

/-- A loop over a list. -/
theorem forIn {f : γ → PUnit → LowerM (ForInStep PUnit)} (hf : ∀ item u, C (f item u))
    (items : List γ) : C (ForIn.forIn items PUnit.unit f) := by
  induction items with
  | nil => exact h.pure _
  | cons item rest ih =>
    rw [List.forIn_cons]
    refine h.bind (hf item _) fun result => ?_
    cases result with
    | done u => exact h.pure _
    | yield u => exact ih

theorem checkSequence (c : CallSite) (t : Term) (lowered : Lowered) :
    C (c.checkSequence t lowered) :=
  LowerM.Closed.ite (h.pure _) (h.refuse _ _)

theorem target (lowered : Lowered) : C lowered.target :=
  h.bind h.store fun _ => by
    dsimp only
    split
    · exact LowerM.Closed.ite (h.pure _) (h.throw _)
    · exact h.throw _

theorem refuseGrouping (p : Projection) : C (LowerM.refuseGrouping p) :=
  LowerM.Closed.ite (h.refuse _ _) (h.pure _)

theorem joinedTerm (kind : JoinKind) (inner : Term) : C (SqlCompiler.joinedTerm kind inner) := by
  unfold SqlCompiler.joinedTerm
  split
  · exact h.bind (h.arg _ 0) fun _ => h.pure _
  · exact h.pure _

theorem closeMerge (d : MergeDraft) : C d.close := by
  refine h.unlessRefused ?_
  split
  · exact h.refuse _ _
  · exact h.unlessRefused (h.pure _)

/-- Closing a lowered term has the property if selecting its projection has. -/
theorem close {lowered : Lowered}
    (hcolumns : C (LowerM.selectProjection lowered.query lowered.projection)) : C lowered.close := by
  unfold Lowered.close
  dsimp only
  split
  · exact h.bind hcolumns fun _ => h.pure _
  · exact h.bind hcolumns fun _ => h.pure _
  · exact h.bind hcolumns fun _ => h.pure _
  · exact h.pure _
  · exact h.bind (h.closeMerge _) fun _ => h.pure _
  · exact h.refuse _ _
  · exact h.refuse _ _
  · exact h.refuse _ _

end LowerM.Closed

section

variable {C : ∀ {α : Type}, LowerM α → Prop} {f : String → Scalar → LowerM Scalar}

mutual

/-- Replacing the leaves of a projection has the property if replacing each one does. -/
theorem Projection.mapLeavesAt_closed (h : LowerM.Closed C) (p : Projection) (path : String)
    (hf : ∀ leaf ∈ p.leavesAt path, ∀ path', C (f path' leaf.2)) : C (p.mapLeavesAt f path) := by
  cases p with
  | entity name table members =>
    refine h.bind (h.mapM fun m hm => ?_) fun _ => h.pure _
    have hleaf : (Projection.memberPath path m.1, m.2) ∈
        (Projection.entity name table members).leavesAt path := List.mem_map.mpr ⟨m, hm, rfl⟩
    exact h.bind (hf _ hleaf _) fun _ => h.pure _
  | record members =>
    exact h.bind (mapLeavesOfMembers_closed h members path hf) fun _ => h.pure _
  | scalar e => exact h.bind (hf (path, e) (List.mem_singleton_self _) path) fun _ => h.pure _
  | grouping key element =>
    exact h.bind (Projection.mapLeavesAt_closed h key _ hf) fun _ => h.pure _
termination_by structural p

/-- The leaves of members are replaced in turn. -/
theorem mapLeavesOfMembers_closed (h : LowerM.Closed C) (members : List (String × Projection))
    (path : String)
    (hf : ∀ leaf ∈ Projection.leavesOfMembers path members, ∀ path', C (f path' leaf.2)) :
    C (Projection.mapLeavesOfMembers f path members) := by
  cases members with
  | nil => exact h.pure _
  | cons m rest =>
    have hfirst := Projection.mapLeavesAt_closed h m.2 (Projection.memberPath path m.1)
      fun leaf hleaf => hf leaf (List.mem_append_left _ hleaf)
    have hrest := mapLeavesOfMembers_closed h rest path
      fun leaf hleaf => hf leaf (List.mem_append_right _ hleaf)
    exact h.bind hfirst fun _ => h.bind hrest fun _ => h.pure _
termination_by structural members

end

end

variable {n : Nat} {C : ∀ {α : Type}, LowerM α → (α → Prop) → Prop} {P : α → Prop} {Q : β → Prop}

namespace LowerM.Bounded

variable (h : LowerM.Bounded n C)
include h

theorem done (a : α) : C (Pure.pure a) fun _ => True := h.pure trivial

/-- What follows a step of which nothing need be known. -/
theorem andThen {step : LowerM α} {next : α → LowerM β} (hstep : C step P)
    (hnext : ∀ a, C (next a) Q) : C (step >>= next) Q := h.bind hstep fun a _ => hnext a

/-- What is known of no result lasts through looking at what there is. -/
theorem closed : LowerM.Closed fun {_} step => C step fun _ => True where
  pure a := h.done a
  throw e := h.throw e
  bind hstep hnext := h.andThen hstep hnext
  read := h.read
  store := h.store
  withVariables hstep := h.withVariables hstep

theorem refuse (text reason : String) : C (LowerM.refuse text reason : LowerM α) P := h.throw _

/-- Nothing follows a refusal. -/
theorem refused {next : α → LowerM β} (text reason : String) :
    C (LowerM.refuse text reason >>= next) Q := by
  have hrefused : (LowerM.refuse text reason >>= next) = LowerM.refuse text reason := rfl
  rw [hrefused]
  exact h.refuse _ _

omit h in
theorem pureThen {a : α} {next : α → LowerM β} (hnext : C (next a) Q) :
    C (Pure.pure a >>= next) Q :=
  (pure_bind a next).symm ▸ hnext

omit h in
theorem ite {c : Prop} [Decidable c] {step other : LowerM α} (hstep : C step P)
    (hother : C other P) : C (if c then step else other) P := by
  split
  · exact hstep
  · exact hother

/-- One of two steps and what follows in either case. -/
theorem iteBind {c : Prop} [Decidable c] {step other : LowerM α} {next : α → LowerM β}
    (hstep : C step P) (hother : C other P) (hnext : ∀ a, P a → C (next a) Q) :
    C (if c then step >>= next else other >>= next) Q :=
  ite (h.bind hstep hnext) (h.bind hother hnext)

/-- A step under a condition and what follows in either case. -/
theorem whenThen {c : Prop} [Decidable c] {step : LowerM PUnit} {next : PUnit → LowerM β}
    {R : PUnit → Prop} (hstep : C step R) (hnext : C (next PUnit.unit) Q) :
    C (if c then step >>= next else next PUnit.unit) Q :=
  ite (h.andThen hstep fun _ => hnext) hnext

/-- A refusal under a condition and what follows without it. -/
theorem unlessRefused {c : Prop} [Decidable c] {text reason : String} {next : α → LowerM β}
    {other : LowerM β} (hother : C other Q) :
    C (if c then LowerM.refuse text reason >>= next else other) Q :=
  ite (h.refused _ _) hother

/-- What follows an argument of a call. -/
theorem argThen (c : CallSite) (index : Nat) {next : Term → LowerM β}
    (hnext : ∀ t, C (next t) Q) : C (c.arg index >>= next) Q :=
  h.andThen (h.closed.arg c index) hnext

/-- What follows a look at the store. -/
theorem storeThen {next : Store → LowerM β} (hnext : ∀ s, C (next s) Q) :
    C (LowerM.store >>= next) Q :=
  h.andThen h.store hnext

/-! ## Changes -/

theorem modifyState {f : LowerState → LowerState}
    (hf : LowerState.Unranked fun st => (PUnit.unit, f st)) (hstore : ∀ st, (f st).store = st.store) :
    C (modify f : LowerM PUnit) fun _ => True := h.annotate hf hstore

/-- A change of a query above the bound that keeps some of its columns and reads no query below the
bound. -/
theorem modifyQuery {q : QueryRef} (hq : n ≤ q.index) {f : Query → Query}
    (hcolumns : ∀ query, (f query).columns.Sublist query.columns)
    (hreads : ∀ query, ∀ r ∈ (f query).reads, r ∈ query.reads ∨ n ≤ r.index) :
    C (LowerM.modifyQuery q f) fun _ => True :=
  h.allocate (f := fun s => (PUnit.unit, s.modifyQuery q f))
    (fun s => ⟨.modifyQuery s q (hcolumns _), .modifyQuery s q (hcolumns _),
      fun _ => .modifyQuery hq (hreads _)⟩) fun _ _ => trivial

/-- A change of a query above the bound that selects and reads what it has. -/
theorem modifyClause {q : QueryRef} (hq : n ≤ q.index) {f : Query → Query}
    (hf : ∀ query, (f query).columns = query.columns ∧ (f query).reads = query.reads) :
    C (LowerM.modifyQuery q f) fun _ => True :=
  h.modifyQuery hq (fun query => by rw [(hf query).1]) fun query _ hr => .inl ((hf query).2 ▸ hr)

theorem addColumn {q : QueryRef} (hq : n ≤ q.index) (e : Scalar) (aliasName : Option String) :
    C (LowerM.allocate fun s => s.addColumn q e aliasName) fun _ => True :=
  h.allocate (fun s => ⟨.addColumn s q e aliasName, .addColumn s q e aliasName,
    fun _ => .addColumn hq e aliasName⟩) fun _ _ => trivial

theorem addFreshColumn {q : QueryRef} (hq : n ≤ q.index) (e : Scalar) (aliasName : Option String) :
    C (LowerM.allocate fun s => s.addFreshColumn q e aliasName) fun _ => True :=
  h.allocate (fun s => ⟨.addFreshColumn s q e aliasName, .addFreshColumn s q e aliasName,
    fun _ => .addFreshColumn hq e aliasName⟩) fun _ _ => trivial

theorem addTable {table : Table} (hfields : table.fields = []) (hsubtypes : table.subtypes = [])
    (specs : List FieldSpec) :
    C (LowerM.allocate fun s => s.addTable table specs) fun _ => True :=
  h.allocate (fun s =>
    have hgrows := Store.GrowsTables.addTable s table specs
    ⟨.ofContent hgrows.queries hgrows.columns, .single (.addTable s specs hfields hsubtypes),
      fun _ => hgrows.keeps n⟩) fun _ _ => trivial

theorem instantiate (entity : EntityMapping) :
    C (LowerM.ofStoreM entity.instantiate) fun _ => True := by
  refine h.andThen (h.allocate (P := fun _ => True) (fun s => ?_) fun _ _ => trivial)
    fun result => ?_
  · have hgrows := entity.instantiate_grows s
    exact ⟨.ofContent hgrows.queries hgrows.columns, entity.operates_instantiate s,
      fun _ => hgrows.keeps n⟩
  · cases result with
    | ok a => exact h.done a
    | error e => exact h.throw e

theorem columnFor {q : QueryRef} (hq : n ≤ q.index) (e : Scalar) (path : String) :
    C (LowerM.columnFor q e path) fun _ => True := by
  have hadd := h.addColumn hq e (Projection.leafAlias path)
  refine h.storeThen fun s => ?_
  split
  · exact ite (h.done _) hadd
  · exact hadd

/-! ## Queries -/

theorem newQuery (parent : Option QueryRef) : C (LowerM.newQuery parent) fun q => n ≤ q.index :=
  h.allocate (fun s => ⟨.addQuery s parent, .addQuery s parent, .addQuery parent⟩) fun _ hn => hn

/-- A source that is no subquery, or one above the bound. -/
theorem addSource {q : QueryRef} (hq : n ≤ q.index) {item : SourceItem}
    (hitem : ∀ inner, item = .query inner → n ≤ inner.index) :
    C (LowerM.addSource q ⟨item, none, []⟩) fun _ => True := by
  refine h.modifyQuery hq (fun _ => List.Sublist.refl _) fun query r hr => ?_
  rw [Query.reads_addSource] at hr
  exact hr.imp_right (hitem r)

theorem addTableSource {q : QueryRef} (hq : n ≤ q.index) (t : TableRef) :
    C (LowerM.addSource q (.ofTable t)) fun _ => True :=
  h.addSource hq fun _ heq => by cases heq

theorem addQuerySource {q inner : QueryRef} (hq : n ≤ q.index) (hinner : n ≤ inner.index) :
    C (LowerM.addSource q (.ofQuery inner)) fun _ => True :=
  h.addSource hq fun _ heq => by cases heq; exact hinner

theorem addSetOperator {q : QueryRef} (hq : n ≤ q.index) (operator : SetOperator)
    (hoperator : n ≤ operator.query.index) :
    C (LowerM.modifyQuery q fun query =>
      { query with setOperators := query.setOperators ++ [operator] }) fun _ => True :=
  h.modifyQuery hq (fun _ => List.Sublist.refl _) fun query r hr =>
    ((Query.reads_addSetOperator query operator r).mp hr).imp_right (by rintro rfl; exact hoperator)

theorem addWhere {q : QueryRef} (hq : n ≤ q.index) (condition : Condition) :
    C (LowerM.addWhere q condition) fun _ => True :=
  h.modifyClause hq fun _ => ⟨rfl, rfl⟩

theorem selectOnly {q : QueryRef} (hq : n ≤ q.index) (c : ColumnRef) :
    C (LowerM.selectOnly q c) fun _ => True :=
  h.modifyQuery hq (fun _ => List.filter_sublist) fun _ _ hr => .inl hr

theorem expose {q : QueryRef} (hq : n ≤ q.index) (p : Projection) :
    C (LowerM.expose q p) fun _ => True :=
  Projection.mapLeavesAt_closed h.closed _ "" fun leaf _ path =>
    h.andThen (h.columnFor hq leaf.2 path) fun _ => h.done _

/-- A query that is read by a new one. -/
theorem wrap {lowered : Lowered} (hlowered : lowered.Above n) :
    C (LowerM.wrap lowered) (Lowered.Above n) :=
  h.storeThen fun _ => h.bind (h.newQuery _) fun _ houter =>
    h.andThen (h.modifyClause hlowered fun _ => ⟨rfl, rfl⟩) fun _ =>
      h.andThen (h.addQuerySource houter hlowered) fun _ =>
        h.andThen (h.expose hlowered _) fun _ => h.pure houter

theorem wrapIf (test : Query → Bool) {lowered : Lowered} (hlowered : lowered.Above n) :
    C (LowerM.wrapIf test lowered) (Lowered.Above n) :=
  h.storeThen fun _ => ite (h.wrap hlowered) (h.pure hlowered)

theorem materialize {q : QueryRef} (hq : n ≤ q.index) (p : Projection) (fresh : Bool) :
    C (LowerM.materialize q p fresh) fun _ => True := by
  refine h.andThen (h.closed.refuseGrouping p) fun _ =>
    h.andThen (h.closed.forIn (fun leaf _ => ite ?_ ?_) _) fun _ => h.done _
  · exact h.andThen (h.addFreshColumn hq leaf.2 _) fun _ => h.done _
  · exact h.andThen (h.columnFor hq leaf.2 leaf.1) fun _ => h.done _

/-- The table of an entity and a projection of it. -/
theorem tableOf (t : Term) : C (LowerM.tableOf t) fun _ => True := by
  fun_induction LowerM.tableOf t with
  | case1 name =>
    exact h.andThen h.read fun _ => h.andThen (h.closed.ofExcept _) fun _ =>
      h.andThen (h.instantiate _) fun _ => h.storeThen fun _ => h.done _
  | case2 inner ih => exact ih
  | case3 => exact h.refuse _ _

theorem narrow {lowered : Lowered} (hlowered : lowered.Above n) (t : TableRef)
    (typeName : String) : C (LowerM.narrow lowered t typeName) (Lowered.Above n) :=
  h.storeThen fun _ => h.andThen (h.closed.ofExcept _) fun _ =>
    h.andThen (h.addWhere hlowered _) fun _ => by
      split
      · exact h.pure hlowered
      · exact h.pure hlowered

theorem readType (name : String) (parent : Option QueryRef) :
    C (LowerM.readType name parent) (Lowered.Above n) := by
  refine h.andThen h.read fun _ => h.andThen (h.closed.ofExcept _) fun (found, subtype) =>
    h.andThen (h.closed.ofExcept _) fun entity => ?_
  have hread : C (LowerM.readEntity entity parent) fun r => r.1.Above n :=
    h.andThen (h.instantiate entity) fun _ => h.bind (h.newQuery parent) fun _ hquery =>
      h.andThen (h.addTableSource hquery _) fun _ => h.storeThen fun _ => h.pure hquery
  exact h.bind hread fun (lowered, t) hlowered =>
    ite (h.narrow hlowered t name) (h.pure hlowered)

/-- What a sequence joins as reads no query below the bound. -/
theorem joinSource {inner : Lowered} (hinner : inner.Above n) :
    C inner.joinSource fun r => ∀ q ∈ r.1.all.filterMap Source.query?, n ≤ q.index :=
  h.storeThen fun _ => by
    dsimp only
    split
    · exact h.pure (by simp [Source.ofTable, Source.all, Source.joined, Source.query?])
    · refine h.andThen (h.modifyClause hinner fun query => ?_) fun _ =>
        h.andThen (h.expose hinner _) fun _ => h.pure fun q hq => ?_
      · split <;> exact ⟨rfl, rfl⟩
      · obtain rfl : inner.query = q := by
          simpa [Source.ofQuery, Source.all, Source.joined, Source.query?, eq_comm] using hq
        exact hinner

theorem asSide {lowered : Lowered} (hlowered : lowered.Above n) (test : Query → Bool) :
    C (lowered.asSide test) (Lowered.Above n) :=
  h.andThen (h.modifyClause hlowered fun _ => by split <;> exact ⟨rfl, rfl⟩) fun _ =>
    h.bind (h.wrapIf _ hlowered) fun _ hside =>
      h.storeThen fun _ => h.whenThen (h.materialize hside _ _) (h.pure hside)

theorem selectValues {q : QueryRef} (hq : n ≤ q.index) (items : List Assignment) :
    C (LowerM.selectValues q items) fun _ => True :=
  h.andThen (h.modifyQuery hq (fun _ => List.nil_sublist _) fun _ _ hr => .inl hr) fun _ =>
    h.andThen (h.closed.forIn (fun value _ => h.andThen (h.addFreshColumn hq value none) fun _ =>
      h.done _) _) fun _ => h.done _

theorem valueOf (whole : Term) {lowered : Lowered} (hlowered : lowered.Above n) :
    C (Lowerer.valueOf whole lowered) fun _ => True := by
  have hselect : ∀ e : Scalar, C (do
      let c ← LowerM.columnFor lowered.query e ""
      LowerM.selectOnly lowered.query c
      return Scalar.query lowered.query) fun _ => True :=
    fun e => h.andThen (h.columnFor hlowered _ _) fun _ =>
      h.andThen (h.selectOnly hlowered _) fun _ => h.done _
  unfold Lowerer.valueOf
  dsimp only
  split
  · exact h.done _
  · exact hselect _
  · exact hselect _
  · exact h.refuse _ _

/-! ## Closing a lowered term -/

theorem selectProjection {q : QueryRef} (hq : n ≤ q.index) (p : Projection) :
    C (LowerM.selectProjection q p) fun _ => True :=
  h.andThen (h.closed.refuseGrouping p) fun _ => h.closed.mapM
    fun _ _ => h.andThen (h.addColumn hq _ _) fun _ => h.storeThen fun _ => h.done _

/-- Closing a lowered term looks at the annotations, but not at the ranking. -/
theorem toStatement {lowered : Lowered} (hlowered : lowered.Above n) :
    C lowered.toStatement fun _ => True := by
  refine h.andThen (h.closed.close (h.selectProjection hlowered lowered.projection))
    fun (body, shape) => ?_
  let annotated (st : LowerState) : (Statement × ResultShape) × LowerState :=
    (({ body
        query := lowered.query
        tag := if st.tags.isEmpty then none else some ("\n".intercalate st.tags)
        hints := st.hints }, shape), st)
  exact h.annotate (f := annotated) (fun _ _ => rfl) fun _ => rfl

end LowerM.Bounded

/-! ## Joins -/

/-- A query with a source joined to its first one, if it has any. -/
def Query.withJoin (join : Join) (query : Query) : Query :=
  match query.sources with
  | [] => query
  | first :: rest =>
    { query with sources := { first with joins := first.joins ++ [join] } :: rest }

theorem Query.columns_withJoin (join : Join) (query : Query) :
    (query.withJoin join).columns = query.columns := by
  unfold withJoin
  split <;> rfl

theorem Query.reads_withJoin (join : Join) (query : Query) {r : QueryRef}
    (hr : r ∈ (query.withJoin join).reads) :
    r ∈ query.reads ∨ r ∈ join.source.all.filterMap Source.query? := by
  obtain ⟨kind, source, condition⟩ := join
  unfold withJoin at hr
  split at hr
  · exact .inl hr
  · next first rest hsources => exact (reads_addJoin _ hsources kind source condition r).mp hr

theorem Store.modifyQuery_congr {s : Store} {q : QueryRef} {f g : Query → Query}
    (h : f (s.query q) = g (s.query q)) : s.modifyQuery q f = s.modifyQuery q g := by
  unfold Store.modifyQuery
  congr 1
  refine Array.ext_getElem? fun i => ?_
  rw [Array.getElem?_modify, Array.getElem?_modify]
  split
  · next hi =>
    subst hi
    cases hquery : s.queries[q.index]? with
    | none => rfl
    | some query =>
      have hself : s.query q = query := by rw [Store.query, hquery]; rfl
      rw [Option.map_some, Option.map_some, ← hself, h]
  · rfl

/-- Joining to the first source that was found is joining to the first source there is. -/
theorem LowerM.joinFirst_eq (q : QueryRef) (join : Join) (text reason : String)
    (next : PUnit → LowerM β) :
    (LowerM.store >>= fun s =>
      match (s.query q).sources with
      | [] => LowerM.refuse text reason >>= next
      | first :: rest =>
        LowerM.modifyQuery q (fun query => { query with
          sources := { first with joins := first.joins ++ [join] } :: rest }) >>= next) =
      (LowerM.allocate fun s =>
        ((s.query q).sources.isEmpty, s.modifyQuery q (Query.withJoin join))) >>= fun alone =>
          if alone then LowerM.refuse text reason >>= next else next ⟨⟩ := by
  funext ctx st
  have hsame : ∀ first rest, (st.store.query q).sources = first :: rest →
      st.store.modifyQuery q (fun query => { query with
        sources := { first with joins := first.joins ++ [join] } :: rest }) =
          st.store.modifyQuery q (Query.withJoin join) := fun first rest hsources =>
    Store.modifyQuery_congr (by rw [Query.withJoin, hsources])
  change (match (st.store.query q).sources with
      | [] => LowerM.refuse text reason >>= next
      | first :: rest =>
        LowerM.modifyQuery q (fun query => { query with
          sources := { first with joins := first.joins ++ [join] } :: rest }) >>= next) ctx st =
    (if (st.store.query q).sources.isEmpty then LowerM.refuse text reason >>= next else next ⟨⟩) ctx
      { st with store := st.store.modifyQuery q (Query.withJoin join) }
  cases hsources : (st.store.query q).sources with
  | nil =>
    have hself : st.store.modifyQuery q (Query.withJoin join) = st.store :=
      Store.modifyQuery_eq_self (by rw [Query.withJoin, hsources])
    rw [hself]
    rfl
  | cons first rest =>
    rw [← hsame first rest hsources]
    rfl

/-- A join to the first source of a query, and what follows. -/
theorem LowerM.Bounded.joinThen (h : LowerM.Bounded n C) {q : QueryRef} (hq : n ≤ q.index)
    {join : Join} (hjoin : ∀ r ∈ join.source.all.filterMap Source.query?, n ≤ r.index)
    {text reason : String} {next : PUnit → LowerM β} (hnext : ∀ u, C (next u) Q) :
    C (LowerM.store >>= fun s =>
      match (s.query q).sources with
      | [] => LowerM.refuse text reason >>= next
      | first :: rest =>
        LowerM.modifyQuery q (fun query => { query with
          sources := { first with joins := first.joins ++ [join] } :: rest }) >>= next) Q := by
  rw [LowerM.joinFirst_eq]
  refine h.andThen (h.allocate (P := fun _ => True) (fun s => ?_) fun _ _ => trivial) fun alone =>
    ite (h.refused _ _) (hnext _)
  have hcolumns : ((s.query q).withJoin join).columns.Sublist (s.query q).columns := by
    rw [Query.columns_withJoin]
  exact ⟨.modifyQuery s q hcolumns, .modifyQuery s q hcolumns, fun _ => .modifyQuery hq fun r hr =>
    (Query.reads_withJoin _ _ hr).imp_right (hjoin r)⟩

/-! ## Lowerers -/

namespace Lowerer.Bounded

variable {l : Lowerer} (h : l.Bounded n C)
include h

/-- What a value is lowered to has the property too. -/
theorem closed : l.Closed fun {_} step => C step fun _ => True where
  toClosed := h.toBounded.closed
  projection := h.projection
  scalar := h.scalar
  condition := h.condition
  nested t q := h.bind (h.sequence t (some q)) fun _ hlowered => h.valueOf t hlowered

theorem lowerSource (c : CallSite) : C (c.lowerSource l) (Lowered.Above n) := by
  unfold CallSite.lowerSource
  split
  · exact h.refuse _ _
  · exact h.bind (h.sequence _ _) fun _ hlowered =>
      h.andThen (h.closed.checkSequence c _ _) fun _ => h.pure hlowered

theorem lowerFirst (c : CallSite) : C (c.lowerFirst l) (Lowered.Above n) :=
  h.argThen c 0 fun t => h.sequence t _

theorem filter {lowered : Lowered} (hlowered : lowered.Above n) (f : Term) (negated : Bool) :
    C (lowered.filter l f negated) (Lowered.Above n) :=
  h.bind (h.wrapIf _ hlowered) fun _ hwrapped =>
    h.andThen (h.closed.applyCondition f _ _) fun _ => h.storeThen fun _ => LowerM.Bounded.ite
      (h.andThen (h.modifyClause hwrapped fun _ => ⟨rfl, rfl⟩) fun _ => h.pure hwrapped)
      (h.andThen (h.addWhere hwrapped _) fun _ => h.pure hwrapped)

theorem filterIf {lowered : Lowered} (hlowered : lowered.Above n) (f : Option Term) :
    C (lowered.filterIf l f) (Lowered.Above n) := by
  cases f with
  | none => exact h.pure hlowered
  | some f => exact h.filter hlowered f false

end Lowerer.Bounded

end SqlCompiler
