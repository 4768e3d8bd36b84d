import SqlCompiler.Proofs.Lowering.Frames
import SqlCompiler.Proofs.Lowering.Sequences
import SqlCompiler.Proofs.Lowering.Steps

/-!
# Mapped entities as sequences

The rows of a mapped entity stand for records of its members.

Main results:

- Definition `EntityMapping.element`: the record a row of the table stands for.
- Definition `Schema.Maps`: a name that is mapped to an entity.
- Definition `Projection.ReadsTable`, `Lowered.ReadsTable`: members that are read from a table, and
  a query that reads nothing else.
- Theorem `LowerM.Gives.readType`: reading a mapped entity gives its elements.
-/

namespace SqlCompiler

/-! ## Tables with fields -/

namespace Store

variable {s : Store} {t : TableRef}

/-- The fields of a table. -/
def fieldsOf (s : Store) (t : TableRef) : List Field := (s.table t).fields.map s.field

/-- Fields were added to a table. -/
structure AddsFields (s s' : Store) (t : TableRef) (added : List Field) : Prop where
  hasTable : s'.HasTable t
  fields : s'.fieldsOf t = s.fieldsOf t ++ added
  name : (s'.table t).name = (s.table t).name
  queries : s'.queries = s.queries
  columns : s'.columns = s.columns

theorem table_modifyTable (h : t.index < s.tables.size) (f : Table → Table) :
    (s.modifyTable t f).table t = f (s.table t) := by
  simp [modifyTable, Store.table, Array.getElem?_modify, Array.getElem?_eq_getElem h]

theorem addField_addsFields (h : s.HasTable t) (spec : FieldSpec) :
    s.AddsFields (s.addField t spec).2 t [spec.toField t] := by
  have htable : (s.addField t spec).2.table t =
      { s.table t with fields := (s.table t).fields ++ [⟨s.fields.size⟩] } :=
    table_modifyTable (s := { s with fields := s.fields.push (spec.toField t) }) h.table _
  have hold : ∀ f : FieldRef, f.index < s.fields.size →
      (s.addField t spec).2.field f = s.field f := fun f hf => by
    simp [addField, modifyTable, Store.field, Array.getElem?_push, Nat.ne_of_lt hf]
  have hnew : (s.addField t spec).2.field ⟨s.fields.size⟩ = spec.toField t := by
    simp [addField, modifyTable, Store.field]
  refine ⟨⟨by simpa [addField, modifyTable] using h.table, fun f hf => ?_⟩, ?_, by rw [htable],
    rfl, rfl⟩
  · rw [htable, List.mem_append] at hf
    have hsize : (s.addField t spec).2.fields.size = s.fields.size + 1 := by
      simp [addField, modifyTable]
    rw [hsize]
    rcases hf with hf | hf
    · exact Nat.lt_succ_of_lt (h.field f hf)
    · rw [List.mem_singleton.mp hf]
      exact Nat.lt_succ_self _
  · rw [fieldsOf, htable, List.map_append, List.map_singleton, hnew]
    congr 1
    exact List.map_congr_left fun f hf => hold f (h.field f hf)

theorem foldl_addField_addsFields (specs : List FieldSpec) (h : s.HasTable t) :
    s.AddsFields (specs.foldl (fun s spec => (s.addField t spec).2) s) t
      (specs.map (·.toField t)) := by
  induction specs generalizing s with
  | nil => exact ⟨h, (List.append_nil _).symm, rfl, rfl, rfl⟩
  | cons spec rest ih =>
    have hfirst := addField_addsFields h spec
    have hrest := ih hfirst.hasTable
    refine ⟨hrest.hasTable, ?_, hrest.name.trans hfirst.name, hrest.queries.trans hfirst.queries,
      hrest.columns.trans hfirst.columns⟩
    rw [List.foldl_cons, hrest.fields, hfirst.fields, List.append_assoc, List.map_cons]
    rfl

/-- A new table has the given fields. -/
theorem addTable_addsFields (s : Store) (table : Table) (hfields : table.fields = [])
    (specs : List FieldSpec) :
    (s.addTable table specs).2.HasTable (s.addTable table specs).1 ∧
      (s.addTable table specs).2.fieldsOf (s.addTable table specs).1 =
        specs.map (·.toField (s.addTable table specs).1) ∧
      ((s.addTable table specs).2.table (s.addTable table specs).1).name = table.name ∧
      (s.addTable table specs).2.queries = s.queries ∧
      (s.addTable table specs).2.columns = s.columns := by
  have hself : Store.table { s with tables := s.tables.push table } ⟨s.tables.size⟩ = table := by
    simp [Store.table]
  have hadds := foldl_addField_addsFields (s := { s with tables := s.tables.push table })
    (t := ⟨s.tables.size⟩) specs ⟨by simp, fun f hf => by rw [hself, hfields] at hf; cases hf⟩
  refine ⟨hadds.hasTable, ?_, hadds.name.trans (by rw [hself]), hadds.queries, hadds.columns⟩
  refine hadds.fields.trans ?_
  rw [fieldsOf, hself, hfields]
  rfl

end Store

/-! ## Looking up by a key -/

/-- An item is the first one with its key if keys differ. -/
theorem find?_key_eq {α β : Type} [BEq β] (key : α → β) {items : List α}
    (hreflexive : ∀ a ∈ items, (key a == key a) = true)
    (hdiffer : (items.map key).Pairwise fun a b => (a == b) = false) {a : α} (ha : a ∈ items) :
    items.find? (fun b => key b == key a) = some a := by
  induction items with
  | nil => cases ha
  | cons b rest ih =>
    rw [List.map_cons, List.pairwise_cons] at hdiffer
    rcases List.mem_cons.mp ha with rfl | ha
    · exact List.find?_cons_of_pos (hreflexive a List.mem_cons_self)
    · rw [List.find?_cons_of_neg (by simp [hdiffer.1 _ (List.mem_map_of_mem ha)])]
      exact ih (fun c hc => hreflexive c (List.mem_cons_of_mem b hc)) hdiffer.2 ha

theorem find?_key_eq_of_nodup {α β : Type} [BEq β] [LawfulBEq β] (key : α → β) {items : List α}
    (hnodup : (items.map key).Nodup) {a : α} (ha : a ∈ items) :
    items.find? (fun b => key b == key a) = some a :=
  find?_key_eq key (fun a _ => beq_self_eq_true (key a)) (hnodup.imp beq_false_of_ne) ha

/-! ## Instances of entities -/

/-- A name that is mapped to an entity, whose sub types are told apart by members of it. -/
structure Schema.Maps (schema : Schema) (name : String) (entity : EntityMapping) : Prop where
  find : schema.entities.find? (·.name == name) = some entity
  discriminators : ∀ subtype ∈ entity.subtypes,
    ∃ c ∈ entity.columns, c.member = subtype.discriminator

theorem StoreM.runOn_mapM_of_ok {α β : Type} {f : α → Except SqlError β} {g : α → β}
    {items : List α} (h : ∀ item ∈ items, f item = .ok (g item)) (s : Store) :
    (items.mapM fun item => (liftM (f item) : StoreM β)).runOn s = (.ok (items.map g), s) := by
  induction items with
  | nil => rfl
  | cons item rest ih =>
    have hfirst : (liftM (f item) : StoreM β).runOn s = (.ok (g item), s) := by
      rw [h item List.mem_cons_self]
      rfl
    have hrest := ih fun other hother => h other (List.mem_cons_of_mem _ hother)
    rw [List.mapM_cons, StoreM.runOn_bind_ok hfirst, StoreM.runOn_bind_ok hrest]
    rfl

theorem ColumnMapping.fieldSpec_names (c : ColumnMapping) :
    c.fieldSpec.name = c.member ∧ c.fieldSpec.physicalName = c.column := by
  unfold ColumnMapping.fieldSpec
  cases c.primaryKey <;> cases c.identity <;> exact ⟨rfl, rfl⟩

/-- The name a member is stored under. -/
def ColumnMapping.physicalName (c : ColumnMapping) : String := c.column.getD c.member

@[simp]
theorem ColumnMapping.name_toField (c : ColumnMapping) (t : TableRef) :
    (c.fieldSpec.toField t).name = c.member := c.fieldSpec_names.1

@[simp]
theorem ColumnMapping.physicalName_toField (c : ColumnMapping) (t : TableRef) :
    (c.fieldSpec.toField t).physicalName = c.physicalName := by
  rw [FieldSpec.toField, c.fieldSpec_names.1, c.fieldSpec_names.2, ColumnMapping.physicalName]

namespace EntityMapping

/-- The name of the table of an entity. -/
def objectName (e : EntityMapping) : ObjectName := { schema := e.schema, name := e.tableName }

/-- A sub type in a table whose fields are the columns of its entity. -/
def subtypeOf (s : Store) (t : TableRef) (m : SubtypeMapping) : Subtype where
  typeName := m.typeName
  discriminator := (s.fieldByName t m.discriminator).getD default
  code := m.code.constant
  isDefault := m.isDefault

/-- A new table for an entity has a field for each of its columns, and its sub types. -/
theorem instantiate_gives (e : EntityMapping) (s : Store)
    (hdiscriminators : ∀ subtype ∈ e.subtypes,
      ∃ c ∈ e.columns, c.member = subtype.discriminator) :
    ∃ t s', e.instantiate.runOn s = (.ok t, s') ∧
      s'.fieldsOf t = e.columns.map (fun c => c.fieldSpec.toField t) ∧
      (s'.table t).name = e.objectName ∧ (s'.table t).subtypes = e.subtypes.map (subtypeOf s' t) ∧
      s'.HasTable t ∧ s.tables.size ≤ t.index := by
  obtain ⟨hasTable, hfields, hname, -, -⟩ :=
    s.addTable_addsFields { name := e.objectName } rfl (e.columns.map (·.fieldSpec))
  let t := (s.addTable { name := e.objectName } (e.columns.map (·.fieldSpec))).1
  let s₁ := (s.addTable { name := e.objectName } (e.columns.map (·.fieldSpec))).2
  have hsubtype : ∀ m ∈ e.subtypes, e.subtypeIn s₁ t m = .ok (subtypeOf s₁ t m) := by
    intro m hm
    obtain ⟨c, hc, hmember⟩ := hdiscriminators m hm
    have hfield : c.fieldSpec.toField t ∈ s₁.fieldsOf t := by
      rw [hfields, List.map_map]
      exact List.mem_map_of_mem hc
    obtain ⟨f, hf, hfield⟩ := List.mem_map.mp hfield
    have hfound : ((s₁.table t).fields.find? fun f =>
        (s₁.field f).name == m.discriminator).isSome = true :=
      List.find?_isSome.mpr ⟨f, hf, beq_iff_eq.mpr (by rw [hfield, c.name_toField, hmember])⟩
    obtain ⟨f', hf'⟩ := Option.isSome_iff_exists.mp hfound
    simp [subtypeIn, subtypeOf, Store.fieldByName, hf']
  let withSubtypes (table : Table) : Table :=
    { table with subtypes := e.subtypes.map (subtypeOf s₁ t) }
  have htable := Store.table_modifyTable hasTable.table withSubtypes
  refine ⟨t, s₁.modifyTable t withSubtypes, ?_, ?_, ?_, ?_, ⟨?_, ?_⟩, Nat.le_refl _⟩
  · have hadd : (modifyGet fun s : Store =>
        s.addTable { name := e.objectName } (e.columns.map (·.fieldSpec)) :
          StoreM TableRef).runOn s = (.ok t, s₁) := rfl
    refine (StoreM.runOn_bind_ok hadd).trans ((StoreM.runOn_bind_ok (StoreM.runOn_get s₁)).trans ?_)
    exact StoreM.runOn_bind_ok (StoreM.runOn_mapM_of_ok hsubtype s₁)
  · rw [Store.fieldsOf, htable]
    exact hfields.trans (List.map_map ..)
  · rw [htable]
    exact hname
  · have hsame (m : SubtypeMapping) :
        subtypeOf (s₁.modifyTable t withSubtypes) t m = subtypeOf s₁ t m := by
      rw [subtypeOf, Store.fieldByName, htable]
      rfl
    rw [htable]
    exact List.map_congr_left fun m _ => (hsame m).symm
  · simpa [Store.modifyTable] using hasTable.table
  · rw [htable]
    exact hasTable.field

section

variable {V : Type}

/-- The shape of the elements of an entity. -/
def shape (e : EntityMapping) : Shape :=
  .record (Members.ofList (e.columns.map fun c => (c.member, .value false)))

/-- The record that a row of the table of an entity stands for. -/
def element (e : EntityMapping) (row : String → V) : Element V :=
  .record (Members.ofList (e.columns.map fun c => (c.member, .value (row c.physicalName))))

/-- The elements of an entity. -/
def elements (e : EntityMapping) (db : Database V) : List (Element V) :=
  (db e.objectName).map e.element

end

end EntityMapping

/-! ## Reading an entity -/

section

variable {V : Type} [DecidableEq V] {I : Interpretation V} {db : Database V}
  {ctx : LowerContext} {st : LowerState} {s : Store} {t : TableRef} {e : EntityMapping}

/-- The projection of a table for an entity. -/
theorem Projection.ofTable_eq
    (hfields : s.fieldsOf t = e.columns.map fun c => c.fieldSpec.toField t) (name : String) :
    ∃ members : List (String × FieldRef),
      Projection.ofTable s name t =
        .entity name (some t) (members.map fun m => (m.1, .field m.2)) ∧
      (∀ m ∈ members, m.2 ∈ (s.table t).fields) ∧
      ∀ {α : Type} (f : Field → α),
        members.map (fun m => (m.1, f (s.field m.2))) =
          Members.ofList (e.columns.map fun c => (c.member, f (c.fieldSpec.toField t))) := by
  let pairs := (s.table t).fields.map fun f => ((s.field f).name, f)
  refine ⟨Members.ofList pairs, ?_, fun m hm => ?_, fun f => ?_⟩
  · rw [Projection.ofTable, ← Members.ofList_map, List.map_map]
    rfl
  · obtain ⟨pair, hpair, heq⟩ := Members.exists_of_mem_ofList hm
    obtain ⟨field, hfield, rfl⟩ := List.mem_map.mp hpair
    exact heq ▸ hfield
  · rw [← Members.ofList_map (fun r => f (s.field r)), List.map_map]
    have hcolumns := congrArg (List.map fun field : Field => (field.name, f field)) hfields
    rw [Store.fieldsOf, List.map_map, List.map_map] at hcolumns
    refine congrArg Members.ofList (hcolumns.trans (List.map_congr_left fun c _ => ?_))
    rw [Function.comp_apply, c.name_toField]

theorem Store.HasTable.grows {s' : Store} (h : s.HasTable t) (hgrows : s.GrowsTables s') :
    s'.HasTable t where
  table := Nat.lt_of_lt_of_le h.table hgrows.tables
  field f hf := by
    rw [hgrows.table t h.table] at hf
    exact Nat.lt_of_lt_of_le (h.field f hf) hgrows.fields

/-- The projection of the members of an entity that are read from a table. -/
structure Projection.ReadsTable (s : Store) (e : EntityMapping) (t : TableRef) (p : Projection) :
    Prop where
  projection : p = .ofTable s e.name t
  fields : s.fieldsOf t = e.columns.map fun c => c.fieldSpec.toField t
  name : (s.table t).name = e.objectName
  hasTable : s.HasTable t

namespace Projection.ReadsTable

variable {p : Projection}

theorem fits (h : p.ReadsTable s e t) : p.Fits e.shape := by
  obtain ⟨members, hprojection, -, hmap⟩ := Projection.ofTable_eq h.fields e.name
  rw [h.projection, hprojection]
  refine ⟨_, congrArg Shape.record (hmap fun _ => Shape.value false).symm, ?_⟩
  rw [List.forall₂_map_left_iff, List.forall₂_map_right_iff, List.forall₂_same]
  exact fun m _ => ⟨rfl, fun hnull => hnull⟩

theorem parts (h : p.ReadsTable s e t) (s' : Store) (q : QueryRef) :
    p.All (Scalar.IsPart s' q) := by
  obtain ⟨members, hprojection, -, -⟩ := Projection.ofTable_eq h.fields e.name
  rw [h.projection, hprojection]
  refine Projection.all_entity.mpr fun m hm => ?_
  obtain ⟨m', -, rfl⟩ := List.mem_map.mp hm
  exact .of_plain rfl

omit [DecidableEq V] in
/-- Where the fields of the table have the values of a row, the members are those of the row. -/
theorem denote (h : p.ReadsTable s e t) {ρ : Env V} {row : String → V}
    (hρ : ∀ f ∈ (s.table t).fields, ρ.field f = row (s.field f).physicalName) :
    p.denote I ρ = e.element row := by
  obtain ⟨members, hprojection, hmembers, hmap⟩ := Projection.ofTable_eq h.fields e.name
  rw [h.projection, hprojection, Projection.denote, EntityMapping.element, List.map_map]
  refine congrArg Element.record (Eq.trans (List.map_congr_left fun m hm => ?_)
    ((hmap fun field => Element.value (row field.physicalName)).trans ?_))
  · exact congrArg (fun v => (m.1, Element.value v)) (hρ m.2 (hmembers m hm))
  · simp only [ColumnMapping.physicalName_toField]

/-- A table that is there stays as it is while the store grows. -/
theorem keepsTables (h : p.ReadsTable s e t) {s' : Store} (hkeeps : s.KeepsTables s') :
    p.ReadsTable s' e t := by
  have htable := hkeeps.table t h.hasTable.table
  have hfields : ∀ f ∈ (s.table t).fields, s'.field f = s.field f := fun f hf =>
    hkeeps.field f (h.hasTable.field f hf)
  refine ⟨h.projection.trans ?_, ?_, by rw [htable, h.name], ?_⟩
  · rw [Projection.ofTable, Projection.ofTable, htable]
    refine congrArg (fun members => Projection.entity e.name (some t) (Members.ofList members)) ?_
    exact List.map_congr_left fun f hf => by rw [hfields f hf]
  · rw [← h.fields, Store.fieldsOf, Store.fieldsOf, htable]
    exact List.map_congr_left hfields
  · refine ⟨Nat.lt_of_lt_of_le h.hasTable.table hkeeps.tables, fun f hf => ?_⟩
    rw [htable] at hf
    exact Nat.lt_of_lt_of_le (h.hasTable.field f hf) hkeeps.fields

theorem keeps (h : p.ReadsTable s e t) {s' : Store} {n : Nat} (hkeeps : s.KeepsBelow n s') :
    p.ReadsTable s' e t := h.keepsTables hkeeps.toKeepsTables

end Projection.ReadsTable

/-- A lowered sequence whose query, the newest one, does nothing but to read a table that an
earlier store does not have. -/
structure Lowered.ReadsTable (before s : Store) (parent : Option QueryRef) (e : EntityMapping)
    (t : TableRef) (lowered : Lowered) : Prop where
  outcome : lowered.outcome = .sequence
  newest : lowered.query.index + 1 = s.queries.size
  query : s.query lowered.query = { parent, sources := [.ofTable t] }
  projection : lowered.projection.ReadsTable s e t
  fresh : before.tables.size ≤ t.index
  ordered : before.Ordered → s.Ordered

/-- The rows of a table stand for the elements of its entity. -/
theorem Lowered.ReadsTable.represents {before : Store} {parent : Option QueryRef}
    {lowered : Lowered} (h : lowered.ReadsTable before s parent e t) (hordered : before.Ordered)
    (I : Interpretation V) (db : Database V) :
    lowered.Represents I db s e.shape (e.elements db) := by
  have hyields : s.Yields I db lowered.query _ :=
    .table (by rw [h.query]; rfl) (by rw [h.query]; exact ⟨rfl, rfl, rfl, rfl⟩)
  rw [h.query, Query.rowsOf_bare] at hyields
  refine ⟨⟨h.outcome, h.ordered hordered, h.newest, h.projection.fits,
    h.projection.parts s lowered.query, _, hyields, ?_⟩,
    ⟨fun _ => by rw [h.query], fun hdistinct => ?_⟩⟩
  · rw [List.map_map, EntityMapping.elements, ← h.projection.name]
    exact List.map_congr_left fun row _ => h.projection.denote fun f hf => if_pos hf
  · rw [h.query] at hdistinct
    cases hdistinct

/-- A new query reads a new table for an entity. -/
theorem LowerM.Gives.readEntity (ctx : LowerContext) (st : LowerState) (parent : Option QueryRef)
    (hdiscriminators : ∀ subtype ∈ e.subtypes,
      ∃ c ∈ e.columns, c.member = subtype.discriminator) :
    ∃ lowered t s', (LowerM.readEntity e parent).Gives ctx st (lowered, t) { st with store := s' } ∧
      lowered.ReadsTable st.store s' parent e t := by
  obtain ⟨t, s₁, hinstance, hfields, hname, -, hasTable, hfresh⟩ :=
    e.instantiate_gives st.store hdiscriminators
  have hgrows : st.store.GrowsTables s₁ := by
    have hgrows := e.instantiate_grows st.store
    rwa [hinstance] at hgrows
  let q : QueryRef := ⟨s₁.queries.size⟩
  let addSource (query : Query) : Query :=
    { query with sources := query.sources ++ [.ofTable t] }
  let s₂ := (s₁.addQuery parent).2.modifyQuery q addSource
  have hsize : (s₁.addQuery parent).2.queries.size = s₁.queries.size + 1 := by simp [Store.addQuery]
  have hvalid : q.index < (s₁.addQuery parent).2.queries.size := by
    rw [hsize]
    exact Nat.lt_succ_self _
  have hnew : (s₁.addQuery parent).2.query q = { parent } := Store.query_addQuery_self parent
  have hquery : s₂.query q = { parent, sources := [.ofTable t] } := by
    rw [Store.query_modifyQuery_self hvalid, hnew]
    rfl
  refine ⟨{ query := q, projection := .ofTable s₁ e.name t }, t, s₂, ?_, rfl, ?_, hquery,
    ⟨rfl, hfields, hname, hasTable.congr rfl rfl⟩, hfresh, fun hordered => ?_⟩
  · refine (LowerM.Gives.ofStoreM hinstance).bind ((LowerM.Gives.allocate _).bind ?_)
    refine (LowerM.Gives.modifyQuery _ _).bind (LowerM.Gives.store.bind ?_)
    exact LowerM.Gives.pure _
  · rw [Store.size_modifyQuery, hsize]
  · have hordered₁ : s₁.Ordered := by
      refine ⟨fun r source hsource => ?_, fun r source hsource t ht => ?_, fun r c hc => ?_⟩
      · rw [Store.query, hgrows.queries] at hsource
        exact hordered.source r source hsource
      · rw [Store.query, hgrows.queries] at hsource
        exact (hordered.table r source hsource t ht).grows hgrows
      · rw [Store.query, hgrows.queries] at hc
        rw [Store.column, hgrows.columns]
        exact hordered.column r c hc
    refine (hordered₁.addQuery parent).modifyQuery hvalid (fun source hsource r hr => ?_)
      (fun source hsource r hr => ?_) rfl
    · rw [hnew] at hsource
      rw [List.mem_singleton.mp hsource] at hr
      cases hr
    · rw [hnew] at hsource
      rw [List.mem_singleton.mp hsource] at hr
      cases hr
      exact hasTable.congr rfl rfl

/-- A new query reads a new table for a mapped name. -/
theorem LowerM.Gives.readTable {name : String} (hmaps : ctx.schema.Maps name e)
    (st : LowerState) (parent : Option QueryRef) :
    ∃ lowered t s', (LowerM.readType name parent).Gives ctx st lowered { st with store := s' } ∧
      lowered.ReadsTable st.store s' parent e t := by
  have hresolve : ctx.schema.resolve name = .ok (e, none) := by
    rw [Schema.resolve, hmaps.find]
  have hname : e.name = name :=
    eq_of_beq (List.find?_some (p := fun e : EntityMapping => e.name == name) hmaps.find)
  have hentity : ctx.schema.entity e.name = .ok e := by
    rw [Schema.entity, hname, hmaps.find]
  obtain ⟨lowered, t, s', hread, hreads⟩ := readEntity ctx st parent hmaps.discriminators
  refine ⟨lowered, t, s', LowerM.Gives.read.bind ?_, hreads⟩
  refine (ofExcept hresolve).bind ((ofExcept hentity).bind (hread.bind ?_))
  exact pure lowered

/-- Reading a mapped entity gives its elements. -/
theorem LowerM.Gives.readType (I : Interpretation V) (db : Database V) {name : String}
    (hmaps : ctx.schema.Maps name e) (parent : Option QueryRef) (hordered : st.store.Ordered) :
    ∃ lowered s', (LowerM.readType name parent).Gives ctx st lowered { st with store := s' } ∧
      lowered.Represents I db s' e.shape (e.elements db) := by
  obtain ⟨lowered, t, s', hread, hreads⟩ := readTable hmaps st parent
  exact ⟨lowered, s', hread, hreads.represents hordered I db⟩

end

end SqlCompiler
