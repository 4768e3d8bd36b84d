import SqlCompiler.Proofs.Idempotence.Grafts

/-!
# Copies of targets

An update or a delete over several tables is moved to a copy of its target: a fresh instance of the
table whose fields have the same names, a new query over it, and further new queries for the values.
Everything that was there stays as it was, except for the query that becomes a filter.

Main results:

- Definition `Store.KeepsAllBut`: a store to which things have been added, where one query may differ.
- Definition `Store.Copied`: a field and its counterpart in a copy.
- Theorem `Store.copied_copyTable`: every field of a table has a counterpart in a copy of it.
- Theorem `Store.keepsAllBut_rebase`: what moving a statement leaves alone.
- Theorem `Store.query_rebase_outer`, `Store.query_rebase_self`: the new query and the filter.
-/

namespace SqlCompiler.Store

variable {s s' : Store} {q r : QueryRef}

/-! ## Stores with additions -/

/-- Things have been added to a store, and everything that was there stays but one query. -/
structure KeepsAllBut (s : Store) (q : QueryRef) (s' : Store) : Prop where
  tables : s.tables.size ≤ s'.tables.size
  fields : s.fields.size ≤ s'.fields.size
  queries : s.queries.size ≤ s'.queries.size
  columns : s.columns.size ≤ s'.columns.size
  table : ∀ t : TableRef, t.index < s.tables.size → s'.table t = s.table t
  field : ∀ f : FieldRef, f.index < s.fields.size → s'.field f = s.field f
  query : ∀ r : QueryRef, r.index < s.queries.size → r ≠ q → s'.query r = s.query r
  column : ∀ c : ColumnRef, c.index < s.columns.size → s'.column c = s.column c

namespace KeepsAllBut

theorem refl (s : Store) (q : QueryRef) : s.KeepsAllBut q s where
  tables := Nat.le_refl _
  fields := Nat.le_refl _
  queries := Nat.le_refl _
  columns := Nat.le_refl _
  table _ _ := rfl
  field _ _ := rfl
  query _ _ _ := rfl
  column _ _ := rfl

/-- Things are added again, and the same query may differ, or a new one. -/
theorem trans {s'' : Store} (h : s.KeepsAllBut q s') (h' : s'.KeepsAllBut r s'')
    (hr : s.queries.size ≤ r.index) : s.KeepsAllBut q s'' where
  tables := h.tables.trans h'.tables
  fields := h.fields.trans h'.fields
  queries := h.queries.trans h'.queries
  columns := h.columns.trans h'.columns
  table t ht := by rw [h'.table t (Nat.lt_of_lt_of_le ht h.tables), h.table t ht]
  field f hf := by rw [h'.field f (Nat.lt_of_lt_of_le hf h.fields), h.field f hf]
  query p hp hne := by
    have hpr : p ≠ r := by
      rintro rfl
      exact Nat.not_le_of_lt hp hr
    rw [h'.query p (Nat.lt_of_lt_of_le hp h.queries) hpr, h.query p hp hne]
  column c hc := by rw [h'.column c (Nat.lt_of_lt_of_le hc h.columns), h.column c hc]

theorem pushTable (h : s.KeepsAllBut q s') (table : Table) :
    s.KeepsAllBut q { s' with tables := s'.tables.push table } where
  tables := by
    have hle := h.tables
    rw [Array.size_push]
    omega
  fields := h.fields
  queries := h.queries
  columns := h.columns
  table t ht := by
    rw [← h.table t ht, Store.table, Store.table,
      Array.getElem?_push_lt (Nat.lt_of_lt_of_le ht h.tables)]
    simp [Array.getElem?_eq_getElem (Nat.lt_of_lt_of_le ht h.tables)]
  field := h.field
  query := h.query
  column := h.column

theorem pushField (h : s.KeepsAllBut q s') (field : Field) :
    s.KeepsAllBut q { s' with fields := s'.fields.push field } where
  tables := h.tables
  fields := by
    have hle := h.fields
    rw [Array.size_push]
    omega
  queries := h.queries
  columns := h.columns
  table := h.table
  field f hf := by
    have hlt := Nat.lt_of_lt_of_le hf h.fields
    rw [← h.field f hf, Store.field, Store.field, Array.getElem?_push]
    simp [Nat.ne_of_lt hlt]
  query := h.query
  column := h.column

/-- A new table changes. -/
theorem modifyTable (h : s.KeepsAllBut q s') {t : TableRef} (ht : s.tables.size ≤ t.index)
    (f : Table → Table) : s.KeepsAllBut q (s'.modifyTable t f) where
  tables := by
    rw [Store.modifyTable, Array.size_modify]
    exact h.tables
  fields := h.fields
  queries := h.queries
  columns := h.columns
  table r hr := by
    have hne : t.index ≠ r.index := by omega
    rw [← h.table r hr]
    simp [Store.table, Store.modifyTable, Array.getElem?_modify, hne]
  field := h.field
  query := h.query
  column := h.column

theorem addQuery (h : s.KeepsAllBut q s') (parent : Option QueryRef) :
    s.KeepsAllBut q (s'.addQuery parent).2 where
  tables := h.tables
  fields := h.fields
  queries := by
    have hle := h.queries
    rw [Store.addQuery, Array.size_push]
    omega
  columns := h.columns
  table := h.table
  field := h.field
  query r hr hne := by
    rw [query_addQuery parent (Nat.lt_of_lt_of_le hr h.queries), h.query r hr hne]
  column := h.column

/-- A new query changes, or the one that may differ. -/
theorem modifyQuery (h : s.KeepsAllBut q s') (hr : r = q ∨ s.queries.size ≤ r.index)
    (f : Query → Query) : s.KeepsAllBut q (s'.modifyQuery r f) where
  tables := h.tables
  fields := h.fields
  queries := by
    rw [size_modifyQuery]
    exact h.queries
  columns := h.columns
  table := h.table
  field := h.field
  query p hp hne := by
    have hpr : p ≠ r := by
      rintro rfl
      rcases hr with hr | hr
      · exact hne hr
      · omega
    rw [query_modifyQuery_ne hpr, h.query p hp hne]
  column := h.column

theorem pushColumn (h : s.KeepsAllBut q s') (column : OutputColumn) :
    s.KeepsAllBut q { s' with columns := s'.columns.push column } where
  tables := h.tables
  fields := h.fields
  queries := h.queries
  columns := by
    have hle := h.columns
    rw [Array.size_push]
    omega
  table := h.table
  field := h.field
  query := h.query
  column c hc := by
    have hlt := Nat.lt_of_lt_of_le hc h.columns
    rw [← h.column c hc, Store.column, Store.column, Array.getElem?_push]
    simp [Nat.ne_of_lt hlt]

/-- A column is added to a new query. -/
theorem addFreshColumn (h : s.KeepsAllBut q s') (hr : s.queries.size ≤ r.index) (e : Scalar)
    (aliasName : Option String) : s.KeepsAllBut q (s'.addFreshColumn r e aliasName).2 :=
  (h.pushColumn _).modifyQuery (.inr hr) _

theorem copyFields (h : s.KeepsAllBut q s') {t : TableRef} (ht : s.tables.size ≤ t.index)
    (fields : List FieldRef) : s.KeepsAllBut q (s'.copyFields t fields).2 := by
  induction fields generalizing s' with
  | nil => exact h
  | cons f rest ih => exact ih ((h.pushField _).modifyTable ht _)

theorem copyTable (h : s.KeepsAllBut q s') (t : TableRef) : s.KeepsAllBut q (s'.copyTable t).2 :=
  ((h.pushTable _).copyFields h.tables _).modifyTable h.tables _

end KeepsAllBut

/-! ## Counterparts -/

/-- A field has a counterpart in a copy of its table. -/
structure Copied (s s' : Store) (copy : TableRef) (f f' : FieldRef) : Prop where
  fresh : s.fields.size ≤ f'.index
  valid : f'.index < s'.fields.size
  field : s'.field f' = { s.field f with table := copy }
  listed : f' ∈ (s'.table copy).fields

theorem paired_of_mem {α : Type} [BEq α] [LawfulBEq α] {mapping : List (α × α)} {a : α}
    (h : a ∈ mapping.map (·.1)) : ∃ b, paired mapping a = some b ∧ (a, b) ∈ mapping := by
  obtain ⟨pair, hpair, rfl⟩ := List.mem_map.mp h
  have hsome : (mapping.find? (·.1 == pair.1)).isSome = true :=
    List.find?_isSome.mpr ⟨pair, hpair, beq_self_eq_true _⟩
  obtain ⟨found, hfound⟩ := Option.isSome_iff_exists.mp hsome
  have hfirst : found.1 = pair.1 := by simpa using List.find?_some hfound
  refine ⟨found.2, ?_, ?_⟩
  · rw [paired, hfound]
    rfl
  · rw [← hfirst]
    exact List.mem_of_find?_eq_some hfound

theorem paired_of_notMem {α : Type} [BEq α] [LawfulBEq α] {mapping : List (α × α)} {a : α}
    (h : a ∉ mapping.map (·.1)) : paired mapping a = none := by
  have hnone : mapping.find? (·.1 == a) = none := by
    apply List.find?_eq_none.mpr
    intro pair hpair heq
    exact h (List.mem_map.mpr ⟨pair, hpair, beq_iff_eq.mp heq⟩)
  rw [paired, hnone]
  rfl

/-- The store in which the first of some fields has been copied. -/
def copyField (s : Store) (t : TableRef) (f : FieldRef) : Store :=
  Store.modifyTable { s with fields := s.fields.push { s.field f with table := t } } t fun table =>
    { table with fields := table.fields ++ [⟨s.fields.size⟩] }

section

variable {t : TableRef} {f : FieldRef}

theorem copyFields_cons (fields : List FieldRef) :
    s.copyFields t (f :: fields) =
      ((f, ⟨s.fields.size⟩) :: ((s.copyField t f).copyFields t fields).1,
        ((s.copyField t f).copyFields t fields).2) := rfl

theorem size_copyField : (s.copyField t f).fields.size = s.fields.size + 1 := by
  simp [copyField, modifyTable]

theorem field_copyField {g : FieldRef} (hg : g.index < s.fields.size) :
    (s.copyField t f).field g = s.field g := by
  simp [copyField, modifyTable, field, Array.getElem?_push, Nat.ne_of_lt hg]

theorem table_copyField (ht : t.index < s.tables.size) :
    ((s.copyField t f).table t) =
      { s.table t with fields := (s.table t).fields ++ [⟨s.fields.size⟩] } := by
  simp [copyField, modifyTable, table, Array.getElem?_modify, Array.getElem?_eq_getElem ht]

theorem tables_copyField : (s.copyField t f).tables.size = s.tables.size := by
  simp [copyField, modifyTable]

/-- A field is copied. -/
theorem copied_copyField {copy : TableRef} (hfields : s.fields.size ≤ s'.fields.size)
    (hf : s'.field f = s.field f) (hcopy : copy.index < s'.tables.size) :
    s.Copied (s'.copyField copy f) copy f ⟨s'.fields.size⟩ where
  fresh := hfields
  valid := by simp [size_copyField]
  field := by
    rw [← hf]
    simp [copyField, modifyTable, field]
  listed := by
    rw [table_copyField hcopy]
    exact List.mem_append_right _ List.mem_cons_self

/-- A counterpart stays when further fields are copied. -/
theorem Copied.copyFields {copy : TableRef} {g g' : FieldRef} (h : s.Copied s' copy g g')
    (hcopy : copy.index < s'.tables.size) (fields : List FieldRef) :
    s.Copied (s'.copyFields copy fields).2 copy g g' := by
  induction fields generalizing s' with
  | nil => exact h
  | cons f rest ih =>
    have hfirst : s.Copied (s'.copyField copy f) copy g g' :=
      { fresh := h.fresh
        valid := by
          rw [size_copyField]
          exact Nat.lt_succ_of_lt h.valid
        field := by rw [field_copyField h.valid, h.field]
        listed := by
          rw [table_copyField hcopy]
          exact List.mem_append_left _ h.listed }
    have htables : copy.index < (s'.copyField copy f).tables.size := by rwa [tables_copyField]
    exact ih hfirst htables

/-- Every field of a list gets a counterpart. -/
theorem copied_copyFields (s s' : Store) (copy : TableRef) (fields : List FieldRef)
    (hfields : s.fields.size ≤ s'.fields.size) (hcopy : copy.index < s'.tables.size)
    (hold : ∀ f : FieldRef, f.index < s.fields.size → s'.field f = s.field f)
    (hvalid : ∀ f ∈ fields, f.index < s.fields.size) :
    (s'.copyFields copy fields).1.map (·.1) = fields ∧
      ∀ pair ∈ (s'.copyFields copy fields).1,
        s.Copied (s'.copyFields copy fields).2 copy pair.1 pair.2 := by
  induction fields generalizing s' with
  | nil => exact ⟨rfl, fun _ hpair => nomatch hpair⟩
  | cons f rest ih =>
    have hf := hvalid f List.mem_cons_self
    have hfirst := copied_copyField hfields (hold f hf) hcopy
    have hsize : (s'.copyField copy f).fields.size = s'.fields.size + 1 := size_copyField
    have htables : copy.index < (s'.copyField copy f).tables.size := by rwa [tables_copyField]
    have hrest := ih (s'.copyField copy f) (by omega) htables
      (fun g hg => by rw [field_copyField (Nat.lt_of_lt_of_le hg hfields), hold g hg])
      fun g hg => hvalid g (List.mem_cons_of_mem _ hg)
    rw [copyFields_cons]
    constructor
    · rw [List.map_cons, hrest.1]
    · intro pair hpair
      rcases List.mem_cons.mp hpair with rfl | hpair
      · exact hfirst.copyFields htables rest
      · exact hrest.2 pair hpair

end

/-! ## The copy -/

section

variable {target : TableRef}

theorem tables_copyTable (s : Store) (target : TableRef) :
    (s.copyTable target).2.tables.size = s.tables.size + 1 := by
  have hfields (s : Store) (t : TableRef) (fields : List FieldRef) :
      (s.copyFields t fields).2.tables.size = s.tables.size := by
    induction fields generalizing s with
    | nil => rfl
    | cons f rest ih => rw [copyFields_cons, ih, tables_copyField]
  rw [copyTable]
  dsimp only
  rw [modifyTable, Array.size_modify, hfields, Array.size_push]

/-- Every field of a table has a counterpart in a copy of it. -/
theorem copied_copyTable (hvalid : ∀ f ∈ (s.table target).fields, f.index < s.fields.size) :
    (s.copyTable target).1.2.map (·.1) = (s.table target).fields ∧
      ∀ pair ∈ (s.copyTable target).1.2,
        s.Copied (s.copyTable target).2 ⟨s.tables.size⟩ pair.1 pair.2 := by
  have hcopied := copied_copyFields s
    { s with tables := s.tables.push { s.table target with fields := [] } } ⟨s.tables.size⟩
    (s.table target).fields (Nat.le_refl _) (by simp) (fun _ _ => rfl) hvalid
  constructor
  · exact hcopied.1
  · intro pair hpair
    have hpair := hcopied.2 pair hpair
    refine ⟨hpair.fresh, hpair.valid, hpair.field, ?_⟩
    have hfields := apply_modifyTable (g := Table.fields) (f := fun table => { table with
      subtypes := table.subtypes.map fun subtype => { subtype with
        discriminator := (paired (s.copyTable target).1.2 subtype.discriminator).getD
          subtype.discriminator } }) (fun _ => rfl)
      ({ s with tables := s.tables.push { s.table target with fields := [] } }.copyFields
        ⟨s.tables.size⟩ (s.table target).fields).2 ⟨s.tables.size⟩ ⟨s.tables.size⟩
    exact hfields ▸ hpair.listed

/-! ## The filter -/

/-- The fields that a copy is matched on: the primary key, or all of them if there is none. -/
def targetKeys (s : Store) (target : TableRef) : List FieldRef :=
  if (s.primaryKeys target).isEmpty then (s.table target).fields else s.primaryKeys target

theorem targetKeys_subset : s.targetKeys target ⊆ (s.table target).fields := by
  unfold targetKeys
  split
  · exact List.Subset.refl _
  · intro f hf
    rw [primaryKeys, List.mem_mergeSort] at hf
    exact (List.mem_filter.mp hf).1

theorem queries_copyTable (s : Store) (target : TableRef) :
    (s.copyTable target).2.queries.size = s.queries.size := by rw [content_copyTable]

theorem addQuery_copyTable :
    ((s.copyTable target).2.addQuery none).1 = ⟨s.queries.size⟩ := by
  rw [← queries_copyTable s target]
  rfl

theorem rebase_fst (s : Store) (q : QueryRef) (target : TableRef) :
    (s.rebase q target).1 = ⟨⟨s.queries.size⟩, ⟨s.tables.size⟩, (s.copyTable target).1.2,
      keyEqualities (s.copyTable target).1.2 (s.targetKeys target)⟩ := by
  rw [← queries_copyTable s target]
  rfl

/-- A new query is put above one once the target has been copied. -/
theorem KeepsAllBut.rebase (h : s.KeepsAllBut q (s'.copyTable target).2) :
    s.KeepsAllBut q (s'.rebase q target).2 := by
  have hfresh : s.queries.size ≤ ((s'.copyTable target).2.addQuery none).1.index := h.queries
  exact (((h.addQuery none).modifyQuery (.inr hfresh) _).modifyQuery (.inl rfl) _).modifyQuery
    (.inr hfresh) _

theorem keepsAllBut_rebase (s : Store) (q : QueryRef) (target : TableRef) :
    s.KeepsAllBut q (s.rebase q target).2 :=
  ((KeepsAllBut.refl s q).copyTable target).rebase

theorem queries_rebase (s : Store) (q : QueryRef) (target : TableRef) :
    (s.rebase q target).2.queries.size = s.queries.size + 1 := by
  rw [rebase]
  dsimp only
  rw [size_modifyQuery, size_modifyQuery, size_modifyQuery, addQuery, Array.size_push,
    queries_copyTable]

/-- A query over the copy, filtered by the query that it has been put above. -/
theorem query_rebase_outer (hq : q.index < s.queries.size) :
    (s.rebase q target).2.query ⟨s.queries.size⟩ =
      { sources := [.ofTable ⟨s.tables.size⟩]
        whereClause := Condition.empty.conjoin (.existsIn q) } := by
  have hne : (⟨s.queries.size⟩ : QueryRef) ≠ q := by
    rintro rfl
    exact Nat.lt_irrefl _ hq
  have hlt : (⟨s.queries.size⟩ : QueryRef).index <
      ((s.copyTable target).2.addQuery none).2.queries.size := by
    simp [addQuery, queries_copyTable]
  rw [rebase]
  dsimp only
  rw [addQuery_copyTable, query_modifyQuery_self (by simpa using hlt), query_modifyQuery_ne hne,
    query_modifyQuery_self hlt, ← addQuery_copyTable, query_addQuery_self]
  rfl

/-- The query that has become a filter. -/
theorem query_rebase_self (hq : q.index < s.queries.size) :
    (s.rebase q target).2.query q =
      { s.query q with
        parent := some ⟨s.queries.size⟩
        columns := []
        whereClause := (s.query q).whereClause.conjoinAll
          (keyEqualities (s.copyTable target).1.2 (s.targetKeys target)) } := by
  have hne : q ≠ ⟨s.queries.size⟩ := by
    rintro rfl
    exact Nat.lt_irrefl _ hq
  have hquery : (s.copyTable target).2.query q = s.query q := by
    rw [content_copyTable]
    rfl
  have hcopied : q.index < (s.copyTable target).2.queries.size := by
    rwa [queries_copyTable]
  rw [rebase]
  dsimp only
  rw [addQuery_copyTable, query_modifyQuery_ne hne,
    query_modifyQuery_self (by simp [addQuery]; omega),
    query_modifyQuery_ne hne, query_addQuery none hcopied, hquery]
  rfl

end

/-! ## The values -/

/-- Whether a query selects a value over the sources of a filter, with its condition. -/
def SelectsValue (s : Store) (filter : Query) (rebased : Rebased) (sub : QueryRef) (e : Scalar) :
    Prop :=
  sub.index < s.queries.size ∧ ∃ c : ColumnRef, c.index < s.columns.size ∧
    (s.column c).expression = e ∧
    s.query sub =
      { parent := some rebased.outer
        sources := filter.sources
        whereClause :=
          if filter.whereClause.isEmpty then rebased.keyCondition else filter.whereClause
        columns := [c] }

/-- What becomes of an assigned value when an update is moved to a copy of its target: it is renamed,
or selected by a new query over the sources of the filter if it reads anything else. -/
inductive MovedValue (s s' : Store) (filter : Query) (target : TableRef) (rebased : Rebased) :
    Option Scalar → Option Scalar → Prop where
  | absent : MovedValue s s' filter target rebased none none
  | own {e : Scalar} (hreads : s.readsOther target e = false) :
    MovedValue s s' filter target rebased (some e)
      (some ((fieldRenaming rebased.mapping).scalar e))
  | other {e : Scalar} {sub : QueryRef} (hreads : s.readsOther target e = true)
      (hfresh : s.queries.size ≤ sub.index) (hselects : s'.SelectsValue filter rebased sub e) :
    MovedValue s s' filter target rebased (some e) (some (.query sub))

/-- What becomes of an assignment when an update is moved to a copy of its target. -/
structure MovedItem (s s' : Store) (filter : Query) (target : TableRef) (rebased : Rebased)
    (item item' : Assignment) : Prop where
  value : s.MovedValue s' filter target rebased item.value item'.value
  target : item'.target = (fieldRenaming rebased.mapping).scalar item.target

section

variable {target : TableRef} {rebased : Rebased} {e : Scalar}

theorem KeepsAllBut.valueQuery (h : s.KeepsAllBut r s') (q : QueryRef) (rebased : Rebased) (e : Scalar) :
    s.KeepsAllBut r (s'.valueQuery q rebased e).2 :=
  ((h.addQuery _).modifyQuery (.inr h.queries) _).addFreshColumn h.queries _ _

theorem KeepsAllBut.rebaseItems (h : s.KeepsAllBut r s') (q : QueryRef) (target : TableRef)
    (rebased : Rebased) (items : List Assignment) :
    s.KeepsAllBut r (s'.rebaseItems q target rebased items).2 := by
  induction items generalizing s' with
  | nil => exact h
  | cons item rest ih =>
    rw [Store.rebaseItems]
    dsimp only
    split
    · exact ih h
    · split
      · exact ih (h.valueQuery q rebased _)
      · exact ih h

theorem size_valueQuery (s : Store) (q : QueryRef) (rebased : Rebased) (e : Scalar) :
    (s.valueQuery q rebased e).2.queries.size = s.queries.size + 1 ∧
      (s.valueQuery q rebased e).2.columns.size = s.columns.size + 1 := by
  simp [valueQuery, addFreshColumn, addQuery, modifyQuery]

theorem query_valueQuery (s : Store) (q : QueryRef) (rebased : Rebased) (e : Scalar) :
    (s.valueQuery q rebased e).2.query ⟨s.queries.size⟩ =
      { parent := some rebased.outer
        sources := (s.query q).sources
        whereClause := if (s.query q).whereClause.isEmpty then rebased.keyCondition
          else (s.query q).whereClause
        columns := [⟨s.columns.size⟩] } := by
  have hlt : (⟨s.queries.size⟩ : QueryRef).index <
      (s.addQuery (some rebased.outer)).2.queries.size := by simp [addQuery]
  have hadded : (s.addQuery (some rebased.outer)).1 = ⟨s.queries.size⟩ := rfl
  have hpushed (s : Store) (columns : Array OutputColumn) :
      Store.query { s with columns } = s.query := rfl
  rw [valueQuery]
  dsimp only
  rw [addFreshColumn]
  dsimp only
  rw [hadded, query_modifyQuery_self (by simpa using hlt), hpushed, query_modifyQuery_self hlt,
    ← hadded, query_addQuery_self]
  rfl

theorem column_valueQuery (s : Store) (q : QueryRef) (rebased : Rebased) (e : Scalar) :
    ((s.valueQuery q rebased e).2.column ⟨s.columns.size⟩).expression = e := by
  simp [valueQuery, addFreshColumn, addQuery, modifyQuery, column]

/-- The query of a value selects it. -/
theorem selectsValue_valueQuery (s : Store) (q : QueryRef) (rebased : Rebased) (e : Scalar) :
    (s.valueQuery q rebased e).2.SelectsValue (s.query q) rebased ⟨s.queries.size⟩ e := by
  have hsizes := size_valueQuery s q rebased e
  refine ⟨?_, ⟨s.columns.size⟩, ?_, column_valueQuery s q rebased e, query_valueQuery s q rebased e⟩
  · rw [hsizes.1]
    exact Nat.lt_succ_self _
  · rw [hsizes.2]
    exact Nat.lt_succ_self _

/-- A query selects a value when further things are added. -/
theorem SelectsValue.later {s'' : Store} {filter : Query} {sub : QueryRef}
    (h : s'.SelectsValue filter rebased sub e)
    (hadded : s'.KeepsAllBut ⟨s'.queries.size⟩ s'') : s''.SelectsValue filter rebased sub e := by
  obtain ⟨hsub, c, hc, hcolumn, hquery⟩ := h
  have hne : sub ≠ ⟨s'.queries.size⟩ := by
    rintro rfl
    exact Nat.lt_irrefl _ hsub
  refine ⟨Nat.lt_of_lt_of_le hsub hadded.queries, c, Nat.lt_of_lt_of_le hc hadded.columns, ?_, ?_⟩
  · rw [hadded.column c hc, hcolumn]
  · rw [hadded.query sub hsub hne, hquery]

/-- A value that has been moved stays so when further things are added. -/
theorem MovedValue.later {s'' : Store} {filter : Query} {v v' : Option Scalar}
    (h : s.MovedValue s' filter target rebased v v')
    (hadded : s'.KeepsAllBut ⟨s'.queries.size⟩ s'') : s.MovedValue s'' filter target rebased v v' := by
  cases h with
  | absent => exact .absent
  | own hreads => exact .own hreads
  | other hreads hfresh hselects => exact .other hreads hfresh (hselects.later hadded)

/-- Every assignment is moved. -/
theorem moved_rebaseItems {base : Store} {filter : Query} (items : List Assignment)
    (hsize : base.queries.size ≤ s.queries.size) (hq : q.index < s.queries.size)
    (hfilter : s.query q = filter)
    (hreads : ∀ item ∈ items, ∀ e, item.value = some e →
      s.readsOther target e = base.readsOther target e) :
    List.Forall₂
      (base.MovedItem (s.rebaseItems q target rebased items).2 filter target rebased) items
      (s.rebaseItems q target rebased items).1 := by
  induction items generalizing s with
  | nil => exact .nil
  | cons item rest ih =>
    have hrestReads : ∀ later ∈ rest, ∀ e, later.value = some e →
        s.readsOther target e = base.readsOther target e :=
      fun later hlater => hreads later (List.mem_cons_of_mem _ hlater)
    rw [rebaseItems]
    dsimp only
    split
    · next hvalue =>
      exact .cons ⟨by rw [hvalue]; exact .absent, rfl⟩ (ih hsize hq hfilter hrestReads)
    · next e hvalue =>
      have hreads := hreads item List.mem_cons_self e hvalue
      split
      · next hother =>
        have hsizes := size_valueQuery s q rebased e
        have hadded := (KeepsAllBut.refl s ⟨s.queries.size⟩).valueQuery q rebased e
        have hne : q ≠ ⟨s.queries.size⟩ := by
          rintro rfl
          exact Nat.lt_irrefl _ hq
        have hmoved : base.MovedValue (s.valueQuery q rebased e).2 filter target rebased (some e)
            (some (.query (s.valueQuery q rebased e).1)) :=
          .other (by rw [← hreads, hother]) hsize (hfilter ▸ selectsValue_valueQuery s q rebased e)
        have hrest := ih (s := (s.valueQuery q rebased e).2) (by omega) (by omega)
          (by rw [hadded.query q hq hne, hfilter]) hrestReads
        apply List.Forall₂.cons _ hrest
        constructor
        · rw [hvalue]
          exact hmoved.later ((KeepsAllBut.refl _ _).rebaseItems q target rebased rest)
        · rfl
      · next hown =>
        apply List.Forall₂.cons _ (ih hsize hq hfilter hrestReads)
        constructor
        · rw [hvalue]
          exact .own (by rw [← hreads]; simpa using hown)
        · rfl

/-- Every query that is added selects one of the values. -/
theorem selectsValue_rebaseItems {filter : Query} (items : List Assignment)
    (hq : q.index < s.queries.size) (hfilter : s.query q = filter)
    (hr : s.queries.size ≤ r.index)
    (hlt : r.index < (s.rebaseItems q target rebased items).2.queries.size) :
    ∃ item ∈ items, ∃ e, item.value = some e ∧
      (s.rebaseItems q target rebased items).2.SelectsValue filter rebased r e := by
  induction items generalizing s with
  | nil => exact absurd hlt (Nat.not_lt_of_le hr)
  | cons item rest ih =>
    have hlater {s : Store} (hq : q.index < s.queries.size) (hfilter : s.query q = filter)
        (hr : s.queries.size ≤ r.index)
        (hlt : r.index < (s.rebaseItems q target rebased rest).2.queries.size) :
        ∃ later ∈ item :: rest, ∃ e, later.value = some e ∧
          (s.rebaseItems q target rebased rest).2.SelectsValue filter rebased r e := by
      obtain ⟨later, hmem, hselects⟩ := ih hq hfilter hr hlt
      exact ⟨later, List.mem_cons_of_mem _ hmem, hselects⟩
    cases hvalue : item.value with
    | none =>
      have hstep : (s.rebaseItems q target rebased (item :: rest)).2 =
          (s.rebaseItems q target rebased rest).2 := by simp only [rebaseItems, hvalue]
      rw [hstep] at hlt ⊢
      exact hlater hq hfilter hr hlt
    | some e =>
      by_cases hother : s.readsOther target e = true
      · have hstep : (s.rebaseItems q target rebased (item :: rest)).2 =
            ((s.valueQuery q rebased e).2.rebaseItems q target rebased rest).2 := by
          simp only [rebaseItems, hvalue, hother, if_true]
        rw [hstep] at hlt ⊢
        have hsizes := size_valueQuery s q rebased e
        have hadded := (KeepsAllBut.refl s ⟨s.queries.size⟩).valueQuery q rebased e
        have hne : q ≠ ⟨s.queries.size⟩ := by
          rintro rfl
          exact Nat.lt_irrefl _ hq
        by_cases hself : r = ⟨s.queries.size⟩
        · have hselects := selectsValue_valueQuery s q rebased e
          rw [hfilter, ← hself] at hselects
          exact ⟨item, List.mem_cons_self, e, hvalue,
            hselects.later ((KeepsAllBut.refl _ _).rebaseItems q target rebased rest)⟩
        · have hindex : r.index ≠ s.queries.size := fun heq => hself (congrArg QueryRef.mk heq)
          exact hlater (by omega) (by rw [hadded.query q hq hne, hfilter]) (by omega) hlt
      · have hstep : (s.rebaseItems q target rebased (item :: rest)).2 =
            (s.rebaseItems q target rebased rest).2 := by
          simp only [rebaseItems, hvalue, hother, Bool.false_eq_true, if_false]
        rw [hstep] at hlt ⊢
        exact hlater hq hfilter hr hlt

end

end SqlCompiler.Store
