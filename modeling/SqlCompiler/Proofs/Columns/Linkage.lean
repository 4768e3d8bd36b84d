import Mathlib.Data.List.Forall2
import Mathlib.Data.List.Range
import SqlCompiler.Proofs.Columns.Rewriting
import SqlCompiler.Proofs.Lowering.History
import SqlCompiler.Proofs.Modifications.Copies

/-!
# Links between nodes

A query lists its columns, and a column says which query it belongs to; a table lists its fields, and
a field says which table it belongs to.  Both directions agree whatever operations have led to a
store.  So a copy of a table has fields of its own, one for each field of the table, and its sub types
are told apart by the copied fields.

Main results:

- Definition `Store.Linkage`: both directions agree.
- Definition `Store.IsCopy`: a table and its copy.
- Theorem `Store.TableLinked.isCopy_copyTable`: what copying a table gives.
- Theorem `Store.Linkage.operation`, `Store.Linkage.operates`: both directions still agree after one
  operation, and after any number of them.
- Definition `LowerM.Builds`: a step of lowering that changes the store by operations.
- Theorem `Store.linkage_of_operates`: both directions agree in every store that operations lead to,
  as lowering, rewriting and legalizing a statement do.
-/

namespace SqlCompiler

namespace Store

variable {s s' : Store} {q r : QueryRef} {c : ColumnRef} {t copy : TableRef}

/-- A table and its fields refer to each other, and its sub types are told apart by its fields. -/
structure TableLinked (s : Store) (t : TableRef) : Prop where
  valid : ∀ f ∈ (s.table t).fields, f.index < s.fields.size
  owner : ∀ f ∈ (s.table t).fields, (s.field f).table = t
  nodup : (s.table t).fields.Nodup
  discriminator : ∀ subtype ∈ (s.table t).subtypes, subtype.discriminator ∈ (s.table t).fields

/-- Queries and their columns refer to each other, and so do tables and their fields. -/
structure Linkage (s : Store) : Prop where
  columns : s.Owned
  tables : ∀ t, s.TableLinked t

theorem tableLinked_of_nil (hfields : (s.table t).fields = []) (hsubtypes : (s.table t).subtypes = []) :
    s.TableLinked t where
  valid := by
    rw [hfields]
    exact nofun
  owner := by
    rw [hfields]
    exact nofun
  nodup := by
    rw [hfields]
    exact List.nodup_nil
  discriminator := by
    rw [hsubtypes]
    exact nofun

theorem linkage_empty : ({} : Store).Linkage :=
  ⟨owned_empty, fun _ => tableLinked_of_nil rfl rfl⟩

/-- A column is listed by one query at most. -/
theorem Linkage.notMem_columns (h : s.Linkage) (hc : c ∈ (s.query q).columns) (hne : r ≠ q) :
    c ∉ (s.query r).columns :=
  fun hr => hne ((h.columns.parent r c hr).symm.trans (h.columns.parent q c hc))

/-! ## Stores with other tables -/

/-- Fields have been added, and each table has stayed or is linked anew. -/
theorem Linkage.ofTables (h : s.Linkage) (howned : s'.Owned) (hsize : s.fields.size ≤ s'.fields.size)
    (hfield : ∀ f : FieldRef, f.index < s.fields.size → s'.field f = s.field f)
    (htables : ∀ t, s'.table t = s.table t ∨ s'.TableLinked t) : s'.Linkage := by
  refine ⟨howned, fun t => ?_⟩
  obtain htable | hlinked := htables t
  · have ht := h.tables t
    refine ⟨fun f hf => ?_, fun f hf => ?_, ?_, ?_⟩
    · rw [htable] at hf
      exact Nat.lt_of_lt_of_le (ht.valid f hf) hsize
    · rw [htable] at hf
      rw [hfield f (ht.valid f hf)]
      exact ht.owner f hf
    · rw [htable]
      exact ht.nodup
    · rw [htable]
      exact ht.discriminator
  · exact hlinked

/-- Tables and fields have stayed. -/
theorem Linkage.ofOwned (h : s.Linkage) (howned : s'.Owned) (htables : s'.tables = s.tables)
    (hfields : s'.fields = s.fields) : s'.Linkage :=
  h.ofTables howned (by rw [hfields]) (fun f _ => by rw [field, field, hfields])
    fun t => .inl (by rw [table, table, htables])

theorem table_push (s : Store) (added : Table) (t : TableRef) :
    Store.table { s with tables := s.tables.push added } t =
      if t.index = s.tables.size then added else s.table t := by
  rw [table, Array.getElem?_push]
  split <;> rfl

/-- A table is changed or stays as it is. -/
theorem table_modifyTable_cases (s : Store) (t r : TableRef) (f : Table → Table) :
    (r = t ∧ t.index < s.tables.size ∧ (s.modifyTable t f).table r = f (s.table t)) ∨
      (s.modifyTable t f).table r = s.table r := by
  by_cases hr : r = t
  · subst hr
    by_cases hsize : r.index < s.tables.size
    · exact .inl ⟨rfl, hsize, table_modifyTable hsize f⟩
    · exact .inr (by simp [table, modifyTable, hsize])
  · have hindex : t.index ≠ r.index := fun heq => hr (by cases t; cases r; simp_all)
    exact .inr (by simp [table, modifyTable, Array.getElem?_modify, hindex])

/-- An empty table is added. -/
theorem Linkage.pushTable (h : s.Linkage) {added : Table} (hfields : added.fields = [])
    (hsubtypes : added.subtypes = []) :
    Linkage { s with tables := s.tables.push added } := by
  refine h.ofTables (h.columns.evolves (.ofContent rfl rfl)) (Nat.le_refl _) (fun _ _ => rfl)
    fun t => ?_
  rw [table_push]
  split
  · next ht =>
    have htable := table_push s added t
    rw [if_pos ht] at htable
    exact .inr (tableLinked_of_nil (by rw [htable, hfields]) (by rw [htable, hsubtypes]))
  · exact .inl rfl

theorem Linkage.addField (h : s.Linkage) (t : TableRef) (spec : FieldSpec) :
    (s.addField t spec).2.Linkage := by
  have hsize : (s.addField t spec).2.fields.size = s.fields.size + 1 := by
    simp [Store.addField, modifyTable]
  have hold (f : FieldRef) (hf : f.index < s.fields.size) :
      (s.addField t spec).2.field f = s.field f := by
    simp [Store.addField, modifyTable, field, Array.getElem?_push, Nat.ne_of_lt hf]
  have hnew : (s.addField t spec).2.field ⟨s.fields.size⟩ = spec.toField t := by
    simp [Store.addField, modifyTable, field]
  refine h.ofTables (h.columns.evolves (.ofContent rfl rfl)) (by omega) hold fun r => ?_
  refine (table_modifyTable_cases { s with fields := s.fields.push (spec.toField t) } t r
    fun table => { table with fields := table.fields ++ [⟨s.fields.size⟩] }).symm.imp_right ?_
  rintro ⟨rfl, -, htable⟩
  have hr := h.tables r
  have hfields : ((s.addField r spec).2.table r).fields = (s.table r).fields ++ [⟨s.fields.size⟩] :=
    congrArg Table.fields htable
  have hsubtypes : ((s.addField r spec).2.table r).subtypes = (s.table r).subtypes :=
    (congrArg Table.subtypes htable :)
  refine ⟨?_, ?_, ?_, ?_⟩
  · rw [hfields, hsize, List.forall_mem_append]
    exact ⟨fun f hf => Nat.lt_succ_of_lt (hr.valid f hf),
      List.forall_mem_singleton.mpr (Nat.lt_succ_self _)⟩
  · rw [hfields, List.forall_mem_append]
    refine ⟨fun f hf => ?_, List.forall_mem_singleton.mpr ?_⟩
    · rw [hold f (hr.valid f hf)]
      exact hr.owner f hf
    · rw [hnew]
      rfl
  · rw [hfields]
    refine hr.nodup.append (List.nodup_singleton _) fun f hf hf' => ?_
    rw [List.mem_singleton.mp hf'] at hf
    exact Nat.lt_irrefl _ (hr.valid _ hf)
  · rw [hfields, hsubtypes]
    exact fun subtype hsubtype => List.mem_append_left _ (hr.discriminator subtype hsubtype)

theorem Linkage.addTable (h : s.Linkage) {added : Table} (specs : List FieldSpec)
    (hfields : added.fields = []) (hsubtypes : added.subtypes = []) :
    (s.addTable added specs).2.Linkage := by
  have hspecs (t : TableRef) (s : Store) (hs : s.Linkage) :
      (specs.foldl (fun s spec => (s.addField t spec).2) s).Linkage := by
    induction specs generalizing s with
    | nil => exact hs
    | cons spec rest ih => exact ih _ (hs.addField t spec)
  exact hspecs _ _ (h.pushTable hfields hsubtypes)

theorem Linkage.setSubtypes (h : s.Linkage) {subtypes : List Subtype}
    (hsubtypes : ∀ subtype ∈ subtypes, subtype.discriminator ∈ (s.table t).fields) :
    (s.modifyTable t fun table => { table with subtypes }).Linkage := by
  refine h.ofTables (h.columns.evolves (.ofContent rfl rfl)) (Nat.le_refl _) (fun _ _ => rfl)
    fun r => (table_modifyTable_cases s t r _).symm.imp_right ?_
  rintro ⟨rfl, -, htable⟩
  have hr := h.tables r
  refine ⟨?_, ?_, ?_, ?_⟩
  all_goals rw [htable]
  · exact hr.valid
  · exact hr.owner
  · exact hr.nodup
  · exact hsubtypes

/-! ## Copies of tables -/

/-- The fields that are added to a table for copies of some. -/
theorem snd_copyFields (s : Store) (copy : TableRef) (fields : List FieldRef) :
    (s.copyFields copy fields).1.map (·.2) =
      (List.range' s.fields.size fields.length).map FieldRef.mk := by
  induction fields generalizing s with
  | nil => rfl
  | cons f rest ih =>
    rw [copyFields_cons, List.map_cons, ih, size_copyField, List.length_cons, List.range'_succ,
      List.map_cons]

theorem fields_copyFields (hcopy : copy.index < s.tables.size) (fields : List FieldRef) :
    ((s.copyFields copy fields).2.table copy).fields =
      (s.table copy).fields ++ (s.copyFields copy fields).1.map (·.2) := by
  induction fields generalizing s with
  | nil => exact (List.append_nil _).symm
  | cons f rest ih =>
    rw [copyFields_cons, ih (by rwa [tables_copyField]), table_copyField hcopy, List.append_assoc]
    rfl

/-- The tables and the fields of a store, and a copy of a table with the pairs of fields: the copy is
new, and so are its fields.  They correspond to those of the table one to one, in order, and are like
them but for the table that they belong to.  The copy is like the table otherwise, where its sub types
are told apart by the copied fields. -/
structure IsCopy (s : Store) (t copy : TableRef) (pairs : List (FieldRef × FieldRef)) (s' : Store) :
    Prop where
  fresh : copy.index = s.tables.size
  old : pairs.map (·.1) = (s.table t).fields
  new : pairs.map (·.2) = (s'.table copy).fields
  nodup : (pairs.map (·.2)).Nodup
  fresh_fields : ∀ f ∈ (s'.table copy).fields, s.fields.size ≤ f.index
  disjoint : List.Disjoint (s'.table copy).fields (s.table t).fields
  field : ∀ pair ∈ pairs, s'.field pair.2 = { s.field pair.1 with table := copy }
  subtypes : List.Forall₂
    (fun subtype copied => (subtype.discriminator, copied.discriminator) ∈ pairs ∧
      copied = { subtype with discriminator := copied.discriminator })
    (s.table t).subtypes (s'.table copy).subtypes
  like : s'.table copy =
    { s.table t with
      fields := (s'.table copy).fields, subtypes := (s'.table copy).subtypes }
  other : ∀ r, r ≠ copy → s'.table r = s.table r
  kept : ∀ f : FieldRef, f.index < s.fields.size → s'.field f = s.field f

/-- The store with a table that is like another one but has no fields yet. -/
def pushLike (s : Store) (t : TableRef) : Store :=
  { s with tables := s.tables.push { s.table t with fields := [] } }

theorem table_pushLike : (s.pushLike t).table ⟨s.tables.size⟩ = { s.table t with fields := [] } :=
  (table_push s _ _).trans (if_pos rfl)

/-- A copied table with its sub types told apart by the copied fields. -/
def mapSubtypes (pairs : List (FieldRef × FieldRef)) (table : Table) : Table :=
  { table with
    subtypes := table.subtypes.map fun subtype =>
      { subtype with
        discriminator := (paired pairs subtype.discriminator).getD subtype.discriminator } }

theorem copyTable_eq (s : Store) (t : TableRef) :
    s.copyTable t =
      let copied := (s.pushLike t).copyFields ⟨s.tables.size⟩ (s.table t).fields
      ((⟨s.tables.size⟩, copied.1), copied.2.modifyTable ⟨s.tables.size⟩ (mapSubtypes copied.1)) := rfl

/-- The copy of a table. -/
theorem table_copyTable (s : Store) (t : TableRef) :
    (s.copyTable t).2.table ⟨s.tables.size⟩ =
      mapSubtypes (s.copyTable t).1.2
        { s.table t with fields := (s.copyTable t).1.2.map (·.2) } := by
  have hsize : (s.pushLike t).tables.size = s.tables.size + 1 := Array.size_push _
  have hcopied : ((s.pushLike t).copyFields ⟨s.tables.size⟩ (s.table t).fields).2.tables.size =
      s.tables.size + 1 := by
    have hcopy := tables_copyTable s t
    simpa [copyTable_eq, modifyTable] using hcopy
  have hcopy : (⟨s.tables.size⟩ : TableRef).index < (s.pushLike t).tables.size := by simp [hsize]
  have hfields := fields_copyFields hcopy (s.table t).fields
  have hrest := apply_copyFields (g := fun table : Table => { table with fields := [] })
    (fun _ _ => rfl) (s.pushLike t) ⟨s.tables.size⟩ ⟨s.tables.size⟩ (s.table t).fields
  rw [table_pushLike] at hfields hrest
  rw [copyTable_eq]
  dsimp only
  rw [table_modifyTable (by simp [hcopied])]
  congr 1
  generalize ((s.pushLike t).copyFields ⟨s.tables.size⟩ (s.table t).fields).2.table
    ⟨s.tables.size⟩ = copied at hfields hrest
  obtain ⟨name, kind, fields, subtypes, tableId, isTemporary⟩ := copied
  simp only [Table.mk.injEq, List.nil_append] at hfields hrest ⊢
  exact ⟨hrest.1, hrest.2.1, hfields, hrest.2.2.2⟩

/-- A copy of a table is one, if the table is linked to its fields. -/
theorem TableLinked.isCopy_copyTable (h : s.TableLinked t) :
    s.IsCopy t (s.copyTable t).1.1 (s.copyTable t).1.2 (s.copyTable t).2 := by
  obtain ⟨hold, hpairs⟩ := copied_copyTable h.valid
  have hnew : (s.copyTable t).1.2.map (·.2) =
      (List.range' s.fields.size (s.table t).fields.length).map FieldRef.mk :=
    snd_copyFields (s.pushLike t) ⟨s.tables.size⟩ _
  have hfields : (s.copyTable t).1.2.map (·.2) =
      ((s.copyTable t).2.table ⟨s.tables.size⟩).fields :=
    (congrArg Table.fields (table_copyTable s t)).symm
  have hfresh : ∀ f ∈ ((s.copyTable t).2.table ⟨s.tables.size⟩).fields,
      s.fields.size ≤ f.index := by
    rw [← hfields]
    exact List.forall_mem_map.mpr fun pair hpair => (hpairs pair hpair).fresh
  have hkept := (KeepsAllBut.refl s default).copyTable t
  refine
    { fresh := rfl
      old := hold
      new := hfields
      nodup := ?_
      fresh_fields := hfresh
      disjoint := fun f hf hf' => Nat.not_le_of_lt (h.valid f hf') (hfresh f hf)
      field := fun pair hpair => (hpairs pair hpair).field
      subtypes := ?_
      like := ?_
      other := fun r hr => ?_
      kept := hkept.field }
  · rw [hnew]
    exact (List.nodup_range').map fun _ _ heq => congrArg FieldRef.index heq
  · have hsubtypes := congrArg Table.subtypes (table_copyTable s t)
    rw [show ((s.copyTable t).2.table (s.copyTable t).1.1).subtypes = _ from hsubtypes, mapSubtypes,
      List.forall₂_map_right_iff, List.forall₂_same]
    intro subtype hsubtype
    have hmem := h.discriminator subtype hsubtype
    rw [← hold] at hmem
    obtain ⟨f, hf, hpair⟩ := paired_of_mem hmem
    rw [hf]
    exact ⟨hpair, rfl⟩
  · rw [show (s.copyTable t).2.table (s.copyTable t).1.1 = _ from table_copyTable s t]
    rfl
  · have hne : r.index ≠ s.tables.size := fun heq => hr (by cases r; exact congrArg TableRef.mk heq)
    by_cases hlt : r.index < s.tables.size
    · exact hkept.table r hlt
    · have hsize := tables_copyTable s t
      rw [table, table, Array.getElem?_eq_none (by omega), Array.getElem?_eq_none (by omega)]

theorem Linkage.copyTable (h : s.Linkage) (t : TableRef) : (s.copyTable t).2.Linkage := by
  have hcopy := (h.tables t).isCopy_copyTable
  obtain ⟨hold, hpairs⟩ := copied_copyTable (h.tables t).valid
  refine h.ofTables (h.columns.evolves (evolves_copyTable s t))
    ((KeepsAllBut.refl s default).copyTable t).fields hcopy.kept fun r => ?_
  by_cases hr : r = (s.copyTable t).1.1
  · subst hr
    refine .inr ⟨?_, ?_, ?_, ?_⟩
    · rw [← hcopy.new]
      exact List.forall_mem_map.mpr fun pair hpair => (hpairs pair hpair).valid
    · rw [← hcopy.new]
      refine List.forall_mem_map.mpr fun pair hpair => ?_
      rw [hcopy.field pair hpair]
    · rw [← hcopy.new]
      exact hcopy.nodup
    · rw [← hcopy.new]
      have hsubtypes := hcopy.subtypes.flip.imp fun copied _ hpair =>
        (⟨List.mem_map_of_mem hpair.1, trivial⟩ :
          copied.discriminator ∈ (s.copyTable t).1.2.map (·.2) ∧ True)
      exact ((List.forall₂_and_left (R := fun _ _ => True) _ _).mp hsubtypes).1
  · exact .inl (hcopy.other r hr)

/-! ## Operations -/

theorem Owned.modifyColumn (h : s.Owned) (c : ColumnRef) {f : OutputColumn → OutputColumn}
    (hf : ∀ column, (f column).parent = column.parent) : (s.modifyColumn c f).Owned where
  valid q d hd := by
    rw [Store.modifyColumn, Array.size_modify]
    exact h.valid q d hd
  parent q d hd := by
    rw [← h.parent q d hd]
    rcases column_modifyColumn s c d f with hcolumn | hcolumn
    · rw [hcolumn]
    · rw [hcolumn, hf]
  nodup := h.nodup

/-- Both directions still agree after one operation. -/
theorem Linkage.operation (h : s.Linkage) (hs : s.Operation s') : s'.Linkage := by
  cases hs with
  | addTable specs hfields hsubtypes => exact h.addTable specs hfields hsubtypes
  | addField spec _ => exact h.addField _ spec
  | setSubtypes t hsubtypes => exact h.setSubtypes hsubtypes
  | copyTable t => exact h.copyTable t
  | addQuery parent => exact h.ofOwned (h.columns.evolves (.addQuery s parent)) rfl rfl
  | addColumn q e aliasName =>
    unfold Store.addColumn
    split
    · exact h
    · exact h.ofOwned (h.columns.evolves (.addFreshColumn s q e aliasName)) rfl rfl
  | addFreshColumn q e aliasName =>
    exact h.ofOwned (h.columns.evolves (.addFreshColumn s q e aliasName)) rfl rfl
  | modifyQuery q hf => exact h.ofOwned (h.columns.evolves (.modifyQuery s q hf)) rfl rfl
  | modifyColumn c hf => exact h.ofOwned (h.columns.modifyColumn c hf) rfl rfl
  | setStatements statements => exact h.ofOwned (h.columns.evolves (.ofContent rfl rfl)) rfl rfl

/-- Both directions agree after any number of operations. -/
theorem Linkage.operates (h : s.Linkage) (hs : s.Operates s') : s'.Linkage := by
  induction hs with
  | refl => exact h
  | tail _ hlast ih => exact ih.operation hlast

/-! ## Compiling -/

/-- Aliases are given out by operations. -/
theorem operates_finalizeAliases (s : Store) (t : StatementRef) : s.Operates (s.finalizeAliases t) := by
  have hsources (byName : QueryRef → Bool) (queries : List QueryRef) (used : AliasSet) (s : Store) :
      s.Operates (queries.foldl (fun state q => aliasSourcesOf (byName q) state q) (used, s)).2 := by
    induction queries generalizing used s with
    | nil => exact .refl s
    | cons q rest ih =>
      have hnamed : s.Operates (aliasSourcesOf (byName q) (used, s) q).2 :=
        .modifyClause s q fun _ => rfl
      exact hnamed.trans (ih _ _)
  have hcolumn (state : AliasSet × Store) (c : ColumnRef) :
      state.2.Operates (aliasColumn state c).2 := by
    unfold aliasColumn
    dsimp only
    split
    · exact .refl _
    · exact .modifyColumn _ c fun _ => rfl
  have hcolumns (columns : List ColumnRef) (state : AliasSet × Store) :
      state.2.Operates (columns.foldl aliasColumn state).2 := by
    induction columns generalizing state with
    | nil => exact .refl _
    | cons c rest ih => exact (hcolumn state c).trans (ih _)
  have hnamed : s.Operates (s.withNamedSources t) := hsources _ _ _ _
  exact hnamed.trans (.foldl (fun _ _ => hcolumns _ (_, _)) _ _)

/-- A statement is legalized by operations, also if it is refused. -/
theorem operates_legalizeStatement (s : Store) (p : Provider) (t : StatementRef) :
    s.Operates ((legalizeStatement p t).runOn s).2 := by
  have hrestructured := Operates.rewriting.restructured s p t
  have hrun : (StoreM.ofPair fun s => s.restructured p t).runOn s = s.restructured p t := rfl
  rw [legalizeStatement, StoreM.runOn_bind, hrun]
  rcases h : s.restructured p t with ⟨outcome, legal⟩
  rw [h] at hrestructured
  cases outcome with
  | error e => exact hrestructured
  | ok _ =>
    exact (hrestructured.trans (Operates.rewriting.legalizeExpressions legal p t)).trans
      (operates_finalizeAliases _ t)

end Store

/-- A step of lowering changes the store by operations, also if it fails. -/
def LowerM.Builds {α : Type} (step : LowerM α) : Prop :=
  ∀ (ctx : LowerContext) (st : LowerState), st.store.Operates (step.runOn ctx st).2.store

namespace LowerM.Builds

variable {α β : Type}

theorem bind {step : LowerM α} {next : α → LowerM β} (hstep : step.Builds)
    (hnext : ∀ ctx st a st', step.Gives ctx st a st' → (next a).Builds) :
    (step >>= next).Builds := by
  intro ctx st
  have h := hstep ctx st
  rw [runOn_bind]
  rcases hrun : step.runOn ctx st with ⟨result, st'⟩
  rw [hrun] at h
  cases result with
  | ok a => exact h.trans (hnext ctx st a st' hrun ctx st')
  | error e => exact h

/-- Everything but the choice of a rule does so. -/
theorem pervasive : LowerM.Pervasive fun {_} step => step.Builds where
  pure _ _ st := .refl st.store
  throw _ _ st := .refl st.store
  bind := bind
  read _ st := .refl st.store
  store _ st := .refl st.store
  withVariables h _ st := h _ st
  annotate _ hstore _ st := by
    have hsame := hstore st
    exact (congrArg st.store.Operates hsame).mpr (.refl st.store)
  allocate _ hoperates _ st := hoperates st.store

/-- So does choosing a rule. -/
theorem dispatch {rules : List Rule} {l : Lowerer}
    (hrules : ∀ rule ∈ rules, ∀ t parent, (rule.lower l t parent).Builds) (t : Term)
    (parent : Option QueryRef) : (SqlCompiler.dispatch rules l t parent).Builds := by
  intro ctx st
  rw [runOn_dispatch]
  cases hfind : st.ranking.find? rules t with
  | none => exact .refl st.store
  | some found =>
    obtain ⟨position, rule⟩ := found
    have hlower := hrules rule (Ranking.mem_of_find? hfind).1 t parent ctx st
    rw [lowerBy, runOn_bind]
    rcases hrun : (rule.lower l t parent).runOn ctx st with ⟨result, st'⟩
    rw [hrun] at hlower
    cases result with
    | ok lowered => exact hlower
    | error e => exact hlower

end LowerM.Builds

/-- Lowering a term and closing it changes the store by operations. -/
theorem lowerStatement_builds (t : Term) :
    LowerM.Builds (do (← lowerSequence standardRules t).toStatement) :=
  lowerStatement_pervasive LowerM.Builds.pervasive (fun _ hrules => LowerM.Builds.dispatch hrules) t

/-- Whatever operations have led to a store: a column that a query lists says that it belongs to that
query, and no other query lists it; a field that a table lists says that it belongs to that table; and
copying a table gives a new one with fields of its own, one for each field in their order.  Lowering,
dropping columns, moving the body of a query, putting a query above a copy of its target and legalizing
are operations in a row, so that the same holds of what they leave. -/
theorem Store.linkage_of_operates {s : Store} (h : ({} : Store).Operates s) :
    (∀ q, (s.query q).columns.Nodup ∧ ∀ c ∈ (s.query q).columns,
      (s.column c).parent = q ∧ ∀ r, r ≠ q → c ∉ (s.query r).columns) ∧
    (∀ t, (s.table t).fields.Nodup ∧ ∀ f ∈ (s.table t).fields, (s.field f).table = t) ∧
    (∀ t, s.IsCopy t (s.copyTable t).1.1 (s.copyTable t).1.2 (s.copyTable t).2) ∧
    (∀ q, s.Operates (s.wrapBody q).2) ∧
    (∀ q target, s.Operates (s.rebase q target).2) ∧
    (∀ root, s.Operates (s.pruneColumns root)) ∧
    (∀ p root, s.Operates ((legalizeStatement p root).runOn s).2) ∧
    ∀ (t : Term) (ctx : LowerContext) (st : LowerState), st.store = s →
      s.Operates
        (LowerM.runOn (do (← lowerSequence standardRules t).toStatement) ctx st).2.store := by
  have hlinkage := linkage_empty.operates h
  refine ⟨fun q => ⟨hlinkage.columns.nodup q, fun c hc => ?_⟩, fun t => ?_, fun t => ?_,
    Operates.rewriting.wrapBody s, Operates.rewriting.rebase s, Operates.rewriting.pruneColumns s,
    operates_legalizeStatement s, ?_⟩
  · exact ⟨hlinkage.columns.parent q c hc, fun r hr => hlinkage.notMem_columns hc hr⟩
  · exact ⟨(hlinkage.tables t).nodup, (hlinkage.tables t).owner⟩
  · exact (hlinkage.tables t).isCopy_copyTable
  · rintro t ctx st rfl
    exact lowerStatement_builds t ctx st

/-- People, some of whom are students: the kind tells. -/
def Store.studentsAndOthers : Store :=
  (Store.addTable {} { name := { name := "Person" } }
    [{ name := "Id", type := .int32 }, { name := "Kind", type := .int32 }]).2.modifyTable ⟨0⟩
      fun table => { table with subtypes := [⟨"Student", ⟨1⟩, .integer 1, false⟩] }

/-- In a copy of the people, the students are told apart by the copy of the kind. -/
theorem Store.linkage_of_operates_students :
    ({} : Store).Operates studentsAndOthers ∧
      studentsAndOthers.IsCopy ⟨0⟩ ⟨1⟩ [(⟨0⟩, ⟨2⟩), (⟨1⟩, ⟨3⟩)]
        (studentsAndOthers.copyTable ⟨0⟩).2 ∧
      ((studentsAndOthers.copyTable ⟨0⟩).2.table ⟨1⟩).subtypes.map (·.discriminator) = [⟨3⟩] := by
  have hpeople (specs : List FieldSpec) :
      ({} : Store).Operates (Store.addTable {} { name := { name := "Person" } } specs).2 :=
    .single (.addTable {} specs rfl rfl)
  have hstudents : ({} : Store).Operates studentsAndOthers :=
    (hpeople _).trans (.single (.setSubtypes _ _ (by decide)))
  exact ⟨hstudents, (linkage_of_operates hstudents).2.2.1 ⟨0⟩, by decide⟩

end SqlCompiler
