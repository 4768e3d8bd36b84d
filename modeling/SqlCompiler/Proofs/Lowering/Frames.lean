import SqlCompiler.Proofs.Lowering.Steps

/-!
# What lowering leaves alone

Lowering a part of a term adds queries to the store and fills them in.  The queries that were
there before stay as they are, and so do the columns, the tables and the fields.

Main results:

- Definition `Store.KeepsBelow`: a store grows and its queries below a bound stay.
- Definition `LowerM.Keeps`: a step keeps the queries below a bound.
-/

namespace SqlCompiler

/-! ## Stores -/

/-- The subqueries of the `FROM` clause of a query. -/
def Query.subqueries (q : Query) : List QueryRef := q.allSources.filterMap Source.query?

/-- The right-hand sides of the set operators of a query. -/
def Query.sides (q : Query) : List QueryRef := q.setOperators.map (·.query)

/-- The queries whose rows a query reads. -/
def Query.reads (q : Query) : List QueryRef := q.subqueries ++ q.sides

theorem Source.query?_eq_some {source : Source} {q : QueryRef} :
    source.query? = some q ↔ source.item = .query q := by
  obtain ⟨item, _, _⟩ := source
  cases item <;> simp [Source.query?]

/-- One source more without joins. -/
theorem Query.reads_addSource (q : Query) (item : SourceItem) (r : QueryRef) :
    r ∈ Query.reads { q with sources := q.sources ++ [⟨item, none, []⟩] } ↔
      r ∈ q.reads ∨ item = .query r := by
  simp only [reads, subqueries, sides, allSources, List.flatMap_append, List.flatMap_singleton, Source.all,
    Source.joined, List.filterMap_append, List.mem_append, List.mem_filterMap, List.mem_singleton]
  constructor
  · rintro ((h | ⟨source, rfl, h⟩) | h)
    · exact .inl (.inl h)
    · exact .inr (Source.query?_eq_some.mp h)
    · exact .inl (.inr h)
  · rintro ((h | h) | h)
    · exact .inl (.inl h)
    · exact .inr h
    · exact .inl (.inr ⟨_, rfl, Source.query?_eq_some.mpr h⟩)

/-- One side of a set operator more. -/
theorem Query.reads_addSetOperator (q : Query) (operator : SetOperator) (r : QueryRef) :
    r ∈ Query.reads { q with setOperators := q.setOperators ++ [operator] } ↔
      r ∈ q.reads ∨ r = operator.query := by
  simp only [reads, subqueries, sides, allSources, List.map_append, List.map_cons, List.map_nil, List.mem_append,
    List.mem_singleton, or_assoc]

theorem Source.joined_append (xs ys : List Join) :
    Source.joined (xs ++ ys) = Source.joined xs ++ Source.joined ys := by
  induction xs with
  | nil => rfl
  | cons j rest ih => rw [List.cons_append, Source.joined, Source.joined, ih, List.append_assoc]

/-- One joined source more. -/
theorem Query.reads_addJoin (q : Query) {first : Source} {rest : List Source}
    (hsources : q.sources = first :: rest) (kind : JoinKind) (source : Source)
    (condition : Condition) (r : QueryRef) :
    r ∈ Query.reads { q with
        sources := { first with joins := first.joins ++ [⟨kind, source, condition⟩] } :: rest } ↔
      r ∈ q.reads ∨ r ∈ source.all.filterMap Source.query? := by
  obtain ⟨item, aliasName, joins⟩ := first
  simp only [reads, subqueries, sides, allSources, hsources, List.flatMap_cons, Source.all, Source.joined_append,
    Source.joined, Source.ofJoin, List.append_nil, List.filterMap_cons, List.filterMap_append,
    List.mem_append, Source.query?]
  cases item <;> simp only [List.mem_append, List.mem_cons] <;> tauto

/-- A store grows, and its tables and fields stay as they are. -/
structure Store.KeepsTables (s s' : Store) : Prop where
  table : ∀ t : TableRef, t.index < s.tables.size → s'.table t = s.table t
  field : ∀ f : FieldRef, f.index < s.fields.size → s'.field f = s.field f
  tables : s.tables.size ≤ s'.tables.size
  fields : s.fields.size ≤ s'.fields.size

/-- Its queries below a bound stay as they are too, get no columns, and the other ones come to read
none of these. -/
structure Store.KeepsBelow (n : Nat) (s s' : Store) : Prop extends s.KeepsTables s' where
  query : ∀ q : QueryRef, q.index < n → s'.query q = s.query q
  column : ∀ c : ColumnRef, c.index < s.columns.size → s'.column c = s.column c
  parent : ∀ c : ColumnRef, s.columns.size ≤ c.index → c.index < s'.columns.size →
    n ≤ (s'.column c).parent.index
  reads : ∀ q r : QueryRef, r ∈ (s'.query q).reads → r ∈ (s.query q).reads ∨ n ≤ r.index
  queries : s.queries.size ≤ s'.queries.size
  columns : s.columns.size ≤ s'.columns.size

namespace Store

variable {n : Nat} {s s' s'' : Store}

theorem KeepsTables.refl (s : Store) : s.KeepsTables s :=
  ⟨fun _ _ => rfl, fun _ _ => rfl, Nat.le_refl _, Nat.le_refl _⟩

theorem KeepsTables.trans (h : s.KeepsTables s') (h' : s'.KeepsTables s'') : s.KeepsTables s'' where
  table t ht := (h'.table t (Nat.lt_of_lt_of_le ht h.tables)).trans (h.table t ht)
  field f hf := (h'.field f (Nat.lt_of_lt_of_le hf h.fields)).trans (h.field f hf)
  tables := Nat.le_trans h.tables h'.tables
  fields := Nat.le_trans h.fields h'.fields

theorem KeepsTables.of_eq (htables : s'.tables = s.tables) (hfields : s'.fields = s.fields) :
    s.KeepsTables s' where
  table t _ := by rw [Store.table, htables]; rfl
  field f _ := by rw [Store.field, hfields]; rfl
  tables := Nat.le_of_eq (congrArg Array.size htables.symm)
  fields := Nat.le_of_eq (congrArg Array.size hfields.symm)

theorem KeepsBelow.refl (n : Nat) (s : Store) : s.KeepsBelow n s :=
  ⟨.refl s, fun _ _ => rfl, fun _ _ => rfl, fun _ hle hlt => absurd hlt (Nat.not_lt_of_le hle),
    fun _ _ => .inl, Nat.le_refl _, Nat.le_refl _⟩

theorem KeepsBelow.trans (h : s.KeepsBelow n s') (h' : s'.KeepsBelow n s'') :
    s.KeepsBelow n s'' where
  toKeepsTables := h.toKeepsTables.trans h'.toKeepsTables
  query q hq := (h'.query q hq).trans (h.query q hq)
  column c hc := (h'.column c (Nat.lt_of_lt_of_le hc h.columns)).trans (h.column c hc)
  parent c hle hlt := by
    by_cases hc : c.index < s'.columns.size
    · rw [h'.column c hc]
      exact h.parent c hle hc
    · exact h'.parent c (Nat.le_of_not_lt hc) hlt
  reads q r hr := (h'.reads q r hr).elim (h.reads q r) .inr
  queries := Nat.le_trans h.queries h'.queries
  columns := Nat.le_trans h.columns h'.columns

/-- A change of a query above the bound that lets it read no query below the bound. -/
theorem KeepsBelow.modifyQuery {q : QueryRef} {f : Query → Query} (hq : n ≤ q.index)
    (hreads : ∀ r ∈ (f (s.query q)).reads, r ∈ (s.query q).reads ∨ n ≤ r.index) :
    s.KeepsBelow n (s.modifyQuery q f) where
  toKeepsTables := .of_eq rfl rfl
  query r hr := query_modifyQuery_ne fun h => by subst h; omega
  column _ _ := rfl
  parent _ hle hlt := absurd hlt (Nat.not_lt_of_le hle)
  reads r r' hr := by
    rcases query_modifyQuery s q r f with ⟨rfl, hquery⟩ | hquery
    · exact hreads r' (hquery ▸ hr)
    · exact .inl (hquery ▸ hr)
  queries := by simp
  columns := Nat.le_refl _

theorem KeepsBelow.addQuery (parent : Option QueryRef) (hn : n ≤ s.queries.size) :
    s.KeepsBelow n (s.addQuery parent).2 where
  toKeepsTables := .of_eq rfl rfl
  query r hr := query_addQuery parent (by omega)
  column _ _ := rfl
  parent _ hle hlt := absurd hlt (Nat.not_lt_of_le hle)
  reads q r hr := by
    rcases query_addQuery_cases s parent q with hquery | hquery
    · exact .inl (hquery ▸ hr)
    · rw [hquery] at hr
      simp [Query.reads, Query.subqueries, Query.sides, Query.allSources] at hr
  queries := by simp [Store.addQuery]
  columns := Nat.le_refl _

theorem KeepsBelow.addFreshColumn {q : QueryRef} (hq : n ≤ q.index) (e : Scalar)
    (aliasName : Option String) : s.KeepsBelow n (s.addFreshColumn q e aliasName).2 := by
  have h : s.KeepsBelow n (s.modifyQuery q fun query =>
      { query with columns := query.columns ++ [⟨s.columns.size⟩] }) :=
    .modifyQuery hq fun _ => .inl
  refine { h with
    column := fun c hc => ?_
    parent := fun c hle hlt => ?_
    columns := by simp [Store.addFreshColumn, Store.modifyQuery] }
  · simp [Store.column, Store.addFreshColumn, Store.modifyQuery, Array.getElem?_push,
      Nat.ne_of_lt hc]
  · have hc : c.index = s.columns.size := by
      simp only [Store.addFreshColumn, Store.modifyQuery, Array.size_push] at hlt
      omega
    simpa [Store.column, Store.addFreshColumn, Store.modifyQuery, hc] using hq

theorem KeepsBelow.addColumn {q : QueryRef} (hq : n ≤ q.index) (e : Scalar)
    (aliasName : Option String) : s.KeepsBelow n (s.addColumn q e aliasName).2 := by
  unfold Store.addColumn
  split
  · exact .refl n s
  · exact .addFreshColumn hq e aliasName

/-- A store that has more tables and fields, and the same of everything else. -/
structure GrowsTables (s s' : Store) : Prop extends s.KeepsTables s' where
  queries : s'.queries = s.queries
  columns : s'.columns = s.columns

theorem GrowsTables.keeps (h : s.GrowsTables s') (n : Nat) : s.KeepsBelow n s' where
  toKeepsTables := h.toKeepsTables
  query q _ := by simp [query, h.queries]
  column c _ := by simp [column, h.columns]
  parent c hle hlt := by
    rw [h.columns] at hlt
    omega
  reads q r hr := by
    have hquery : s'.query q = s.query q := by simp [query, h.queries]
    exact .inl (hquery ▸ hr)
  queries := by simp [h.queries]
  columns := by simp [h.columns]

/-- A change of a table that is new. -/
theorem GrowsTables.modifyTable (h : s.GrowsTables s') {t : TableRef}
    (ht : s.tables.size ≤ t.index) (f : Table → Table) :
    s.GrowsTables (s'.modifyTable t f) :=
  { h with
    table := fun r hr => by
      have hne : t.index ≠ r.index := by omega
      rw [← h.table r hr]
      simp [Store.table, Store.modifyTable, Array.getElem?_modify, hne]
    tables := by simpa [Store.modifyTable] using h.tables }

/-- A new field of a table that is new. -/
theorem GrowsTables.addField (h : s.GrowsTables s') {t : TableRef}
    (ht : s.tables.size ≤ t.index) (spec : FieldSpec) :
    s.GrowsTables (s'.addField t spec).2 := by
  have hfield : s.GrowsTables { s' with fields := s'.fields.push (spec.toField t) } := by
    refine { h with field := fun f hf => ?_, fields := ?_ }
    · rw [← h.field f hf]
      have hne : f.index ≠ s'.fields.size := Nat.ne_of_lt (Nat.lt_of_lt_of_le hf h.fields)
      simp [Store.field, Array.getElem?_push, hne]
    · have := h.fields
      simp only [Array.size_push]
      omega
  exact hfield.modifyTable ht _

theorem GrowsTables.addTable (s : Store) (table : Table) (specs : List FieldSpec) :
    s.GrowsTables (s.addTable table specs).2 := by
  have hfields : ∀ (specs : List FieldSpec) (s' : Store), s.GrowsTables s' →
      s.GrowsTables (specs.foldl (fun s' spec => (s'.addField ⟨s.tables.size⟩ spec).2) s') := by
    intro specs
    induction specs with
    | nil => exact fun s' h => h
    | cons spec rest ih => exact fun s' h => ih _ (h.addField (Nat.le_refl _) spec)
  refine hfields specs _ ⟨⟨fun t ht => ?_, fun _ _ => rfl, by simp, Nat.le_refl _⟩, rfl, rfl⟩
  simp [Store.table, Array.getElem?_push, Nat.ne_of_lt ht]

end Store

/-- Steps on the store over a list that leave the store alone. -/
theorem StoreM.runOn_mapM_liftM {α β : Type} (f : α → Except SqlError β) (items : List α)
    (s : Store) :
    (items.mapM fun item => (liftM (f item) : StoreM β)).runOn s = (items.mapM f, s) := by
  induction items with
  | nil => rfl
  | cons item rest ih =>
    have hfirst : (liftM (f item) : StoreM β).runOn s = (f item, s) := by
      cases f item with
      | ok b => rfl
      | error e => rfl
    rw [List.mapM_cons, runOn_bind, hfirst, List.mapM_cons]
    cases f item with
    | error e => rfl
    | ok b =>
      dsimp only
      rw [runOn_bind, ih]
      cases rest.mapM f <;> rfl

/-- What is in a list of results is the result of an item. -/
theorem exists_of_mapM_ok {α β : Type} {f : α → Except SqlError β} :
    ∀ {items : List α} {results : List β}, items.mapM f = .ok results →
      ∀ b ∈ results, ∃ item, f item = .ok b
  | [], _, h, b, hb => by
    cases h
    cases hb
  | item :: rest, _, h, b, hb => by
    rw [List.mapM_cons] at h
    cases hfirst : f item with
    | error e =>
      rw [hfirst] at h
      cases h
    | ok first =>
      cases hrest : rest.mapM f with
      | error e =>
        rw [hfirst, hrest] at h
        cases h
      | ok others =>
        rw [hfirst, hrest] at h
        cases h
        rcases List.mem_cons.mp hb with rfl | hb
        · exact ⟨item, hfirst⟩
        · exact exists_of_mapM_ok hrest b hb

/-- The instance of an entity is a new table, which gets its sub types unless one is refused. -/
theorem EntityMapping.runOn_instantiate (entity : EntityMapping) (s : Store) :
    let added := s.addTable { name := { schema := entity.schema, name := entity.tableName } }
      (entity.columns.map (·.fieldSpec))
    entity.instantiate.runOn s =
      match entity.subtypes.mapM (entity.subtypeIn added.2 added.1) with
      | .error e => (.error e, added.2)
      | .ok subtypes =>
        (.ok added.1, added.2.modifyTable added.1 fun table => { table with subtypes }) := by
  intro added
  have hrun : entity.instantiate.runOn s =
      ((do
        let subtypes ← entity.subtypes.mapM fun m =>
          (liftM (entity.subtypeIn added.2 added.1 m) : StoreM Subtype)
        modify fun s : Store => s.modifyTable added.1 fun table => { table with subtypes }
        return added.1 : StoreM TableRef)).runOn added.2 := by
    have hadd : (modifyGet fun s : Store =>
        s.addTable { name := { schema := entity.schema, name := entity.tableName } }
          (entity.columns.map (·.fieldSpec)) : StoreM TableRef).runOn s =
        (.ok added.1, added.2) := rfl
    exact (StoreM.runOn_bind_ok hadd).trans (StoreM.runOn_bind_ok (StoreM.runOn_get added.2))
  rw [hrun, StoreM.runOn_bind, StoreM.runOn_mapM_liftM]
  cases entity.subtypes.mapM (entity.subtypeIn added.2 added.1) with
  | error e => rfl
  | ok subtypes => rfl

/-- The instance of an entity is a new table. -/
theorem EntityMapping.instantiate_grows (entity : EntityMapping) (s : Store) :
    s.GrowsTables (entity.instantiate.runOn s).2 := by
  have hadded := Store.GrowsTables.addTable s
    { name := { schema := entity.schema, name := entity.tableName } }
    (entity.columns.map (·.fieldSpec))
  rw [entity.runOn_instantiate s]
  split
  · exact hadded
  · exact hadded.modifyTable (Nat.le_refl _) _

/-! ## Steps -/

/-- A step keeps the queries below a bound, and its result has a property. -/
def LowerM.Keeps (n : Nat) {α : Type} (step : LowerM α) (P : α → Prop) : Prop :=
  ∀ ctx st a st', n ≤ st.store.queries.size → step.Gives ctx st a st' →
    st.store.KeepsBelow n st'.store ∧ P a

/-- A step keeps the queries below a bound. -/
abbrev LowerM.Frames (n : Nat) {α : Type} (step : LowerM α) : Prop := step.Keeps n fun _ => True

/-- A lowered term whose query is not below a bound. -/
def Lowered.Above (n : Nat) (lowered : Lowered) : Prop := n ≤ lowered.query.index

end SqlCompiler
