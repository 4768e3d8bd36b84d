import SqlCompiler.Proofs.Columns.Following
import SqlCompiler.Proofs.Lowering.Frames
import SqlCompiler.Proofs.Renaming.References

/-!
# Renamed copies of stores

One store is found in another one if each of its nodes is there under its other number, renamed.
Questions about the nodes have the same answers in both, and nodes that are added to both of them
keep this up, as long as new nodes are numbered in the order in which they are added.

Main results:

- Definition `Renaming.Copies`: the nodes of a store are found renamed in another one.
- Theorems `Renaming.Copies.typeOf`, `Renaming.Copies.canBeNull`: types and nullability are the
  same.
- Definition `Renaming.Tracks`: new nodes are numbered in order, up to a bound.
- Definition `Renaming.Allocates`: an allocation in one store and the same one in the other.
- Theorems `Renaming.allocates_addQuery`, `Renaming.allocates_addColumn`,
  `Renaming.allocates_addTable`, `Renaming.allocates_instantiate`: the allocations of lowering.
- Definition `Renaming.Embeds`: a store is found in another one, whatever the new nodes of the two
  will be called.
- Theorem `Renaming.Embeds.grow`: the other store may get nodes that the first one does not have.
-/

namespace SqlCompiler

/-- The number of nodes of a kind. -/
def Store.count (s : Store) : NodeKind → Nat
  | .table => s.tables.size
  | .field => s.fields.size
  | .query => s.queries.size
  | .column => s.columns.size

/-! ## Arrays -/

section

variable {α : Type} {f : Nat → Nat} {g : α → α} {xs ys : Array α}

/-- What is found in an array is found in another one, at another place and changed. -/
def Copied (f : Nat → Nat) (g : α → α) (xs ys : Array α) : Prop :=
  ∀ i, ys[f i]? = xs[i]?.map g

theorem Copied.getD (h : Copied f g xs ys) {a : α} (ha : g a = a) (i : Nat) :
    ys[f i]?.getD a = g (xs[i]?.getD a) := by
  rw [h i]
  cases xs[i]? with
  | none => exact ha.symm
  | some b => rfl

theorem Copied.push (h : Copied f g xs ys) (hf : Function.Injective f) (hsize : f xs.size = ys.size)
    (a : α) : Copied f g (xs.push a) (ys.push (g a)) := by
  intro i
  by_cases hi : i = xs.size
  · rw [hi, hsize, Array.getElem?_push_size, Array.getElem?_push_size]
    rfl
  · have hne : f i ≠ ys.size := fun heq => hi (hf (heq.trans hsize.symm))
    rw [Array.getElem?_push, Array.getElem?_push, if_neg hi, if_neg hne, h i]

theorem Copied.modify (h : Copied f g xs ys) (hf : Function.Injective f) (j : Nat) {F F' : α → α}
    (hF : ∀ a, F' (g a) = g (F a)) : Copied f g (xs.modify j F) (ys.modify (f j) F') := by
  intro i
  rw [Array.getElem?_modify, Array.getElem?_modify, h i]
  by_cases hi : j = i
  · rw [if_pos hi, if_pos (congrArg f hi), Option.map_map, Option.map_map]
    exact congrArg (Option.map · _) (funext hF)
  · rw [if_neg hi, if_neg fun heq => hi (hf heq)]

end

/-! ## Copies -/

namespace Renaming

/-- The nodes of a store are found renamed in another one, and no other ones at other numbers of
references that lead nowhere. -/
structure Copies (ρ : Renaming) (s s' : Store) : Prop where
  tables : Copied (ρ.number .table) ρ.tableNode s.tables s'.tables
  fields : Copied (ρ.number .field) ρ.fieldNode s.fields s'.fields
  queries : Copied (ρ.number .query) ρ.queryNode s.queries s'.queries
  columns : Copied (ρ.number .column) ρ.columnNode s.columns s'.columns

namespace Copies

variable {ρ : Renaming} {s s' : Store} (h : ρ.Copies s s')
include h

theorem table (t : TableRef) : s'.table (ρ.table t) = ρ.tableNode (s.table t) :=
  h.tables.getD rfl t.index

theorem query (q : QueryRef) : s'.query (ρ.query q) = ρ.queryNode (s.query q) :=
  h.queries.getD ρ.queryNode_default q.index

theorem column (c : ColumnRef) : s'.column (ρ.column c) = ρ.columnNode (s.column c) :=
  h.columns.getD ρ.columnNode_default c.index

/-- A field has the same attributes apart from its table. -/
theorem field (f : FieldRef) :
    { s'.field (ρ.field f) with table := ⟨0⟩ } = { s.field f with table := ⟨0⟩ } := by
  have hfield := h.fields f.index
  change { s'.fields[ρ.number .field f.index]?.getD default with table := ⟨0⟩ } =
    { s.fields[f.index]?.getD default with table := ⟨0⟩ }
  rw [hfield]
  cases s.fields[f.index]? <;> rfl

theorem field_name (f : FieldRef) : (s'.field (ρ.field f)).name = (s.field f).name :=
  congrArg (·.name) (h.field f)

theorem field_type (f : FieldRef) : (s'.field (ρ.field f)).type = (s.field f).type :=
  congrArg (·.type) (h.field f)

theorem field_canBeNull (f : FieldRef) :
    (s'.field (ρ.field f)).canBeNull = (s.field f).canBeNull :=
  congrArg (·.canBeNull) (h.field f)

theorem fieldByName (t : TableRef) (name : String) :
    s'.fieldByName (ρ.table t) name = (s.fieldByName t name).map ρ.field := by
  rw [Store.fieldByName, h.table, tableNode, List.find?_map]
  exact congrArg (fun test => Option.map ρ.field (List.find? test _))
    (funext fun f => by rw [Function.comp_apply, h.field_name])

/-- The fields of a table are found under the same names. -/
theorem projection_ofTable (name : String) (t : TableRef) :
    Projection.ofTable s' name (ρ.table t) = ρ.projection (Projection.ofTable s name t) := by
  rw [Projection.ofTable, Projection.ofTable, projection_ofScalars, h.table, tableNode,
    List.map_map, List.map_map]
  refine congrArg (fun pairs => Projection.entity name _ (Members.ofList pairs)) ?_
  exact List.map_congr_left fun f _ => by simp [h.field_name]

theorem findColumn? (q : QueryRef) (e : Scalar) :
    s'.findColumn? (ρ.query q) (ρ.scalar e) = (s.findColumn? q e).map ρ.column := by
  rw [Store.findColumn?, h.query, queryNode, List.find?_map]
  refine congrArg (fun test => Option.map ρ.column (List.find? test _)) (funext fun c => ?_)
  rw [Function.comp_apply, h.column, columnNode, scalar_beq]

/-! ## Types -/

theorem typeWithin (n : Nat) (e : Scalar) : s'.typeWithin n (ρ.scalar e) = s.typeWithin n e := by
  induction n generalizing e with
  | zero =>
    cases e with
    | field f => exact h.field_type f
    | function call =>
      cases call
      simp [Store.typeWithin]
    | _ => simp [Store.typeWithin]
  | succ n ih =>
    cases e with
    | field f => exact h.field_type f
    | function call =>
      cases call
      simp [Store.typeWithin]
    | column c =>
      rw [scalar_column, Store.typeWithin, Store.typeWithin, h.column, columnNode, ih]
    | query q =>
      rw [scalar_query, Store.typeWithin, Store.typeWithin, h.query, queryNode]
      cases (s.query q).columns with
      | nil => rfl
      | cons c rest =>
        rw [List.map_cons]
        dsimp only
        rw [h.column, columnNode, ih]
    | _ => simp [Store.typeWithin]

/-- A scalar has the same type in both stores. -/
theorem typeOf (e : Scalar) : s'.typeOf (ρ.scalar e) = s.typeOf e := by
  have hn : s.columns.size < s.columns.size + s'.columns.size + 1 := by omega
  have hn' : s'.columns.size < s.columns.size + s'.columns.size + 1 := by omega
  rw [← Store.typeWithin_eq hn', ← Store.typeWithin_eq hn, h.typeWithin]

omit h in
mutual

theorem nullableBy (h : ρ.Copies s s') {known known' : ColumnRef → Bool}
    (hknown : ∀ c, known' (ρ.column c) = known c) (e : Scalar) :
    s'.nullableBy known' (ρ.scalar e) = s.nullableBy known e := by
  match e with
  | .field f => exact h.field_canBeNull f
  | .column c => exact hknown c
  | .function call => exact callNullableBy h hknown call
  | .binary l op r type =>
    simp [Store.nullableBy, nullableBy h hknown l, nullableBy h hknown r]
  | .raw format args type precedence =>
    simp [Store.nullableBy, anyNullableBy h hknown args]
  | .convert target source e keep => simp [Store.nullableBy, nullableBy h hknown e]
  | .value _ | .parameter _ | .query _ | .condition _ | .type _ | .row _ | .allFields _
  | .tableSource _ | .deferredName _ => simp [Store.nullableBy]
termination_by structural e

theorem anyNullableBy (h : ρ.Copies s s') {known known' : ColumnRef → Bool}
    (hknown : ∀ c, known' (ρ.column c) = known c) (items : List Scalar) :
    s'.anyNullableBy known' (items.map ρ.scalar) = s.anyNullableBy known items := by
  match items with
  | [] => rfl
  | e :: rest =>
    rw [List.map_cons, Store.anyNullableBy, Store.anyNullableBy, nullableBy h hknown e,
      anyNullableBy h hknown rest]
termination_by structural items

theorem callNullableBy (h : ρ.Copies s s') {known known' : ColumnRef → Bool}
    (hknown : ∀ c, known' (ρ.column c) = known c) (call : Call) :
    s'.callNullableBy known' (ρ.call call) = s.callNullableBy known call := by
  match call with
  | ⟨name, args, type, isAggregate, keep⟩ =>
    rw [call_mk, Store.callNullableBy, Store.callNullableBy, anyNullableBy h hknown args]
termination_by structural call

end

theorem columnNullableWithin (n : Nat) (c : ColumnRef) :
    s'.columnNullableWithin n (ρ.column c) = s.columnNullableWithin n c := by
  induction n generalizing c with
  | zero => rfl
  | succ n ih =>
    rw [Store.columnNullableWithin, Store.columnNullableWithin, h.column, columnNode,
      nullableBy h ih]

/-- A scalar may be absent in both stores or in none. -/
theorem canBeNull (e : Scalar) : s'.canBeNull (ρ.scalar e) = s.canBeNull e := by
  have hn : s.columns.size < s.columns.size + s'.columns.size + 1 := by omega
  have hn' : s'.columns.size < s.columns.size + s'.columns.size + 1 := by omega
  rw [Store.canBeNull, Store.canBeNull, ← Store.columnNullableWithin_eq hn',
    ← Store.columnNullableWithin_eq hn, nullableBy h (h.columnNullableWithin _)]

/-! ## Sub types and lists -/

/-- The test of a list of constants and parameters. -/
theorem membership (item : Scalar) {members : List Scalar}
    (hmembers : ∀ e ∈ members, ρ.scalar e = e) :
    Condition.membership s' (ρ.scalar item) members =
      ρ.condition (Condition.membership s item members) := by
  have hmap : members.map ρ.scalar = members := by
    conv_rhs => rw [← List.map_id' members]
    exact List.map_congr_left hmembers
  rw [Condition.membership, Condition.membership, condition_ofPredicate, predicate_inList, hmap,
    h.canBeNull]

theorem subtypeTest (subtypes : List Subtype) (subtype : Subtype) (discriminator : Scalar) :
    SqlCompiler.subtypeTest s' (subtypes.map ρ.subtype) (ρ.subtype subtype)
        (ρ.scalar discriminator) =
      ρ.condition (SqlCompiler.subtypeTest s subtypes subtype discriminator) := by
  have hothers : ((subtypes.map ρ.subtype).filter (·.typeName != subtype.typeName)).map
        (fun other => Scalar.constant other.code) =
      (subtypes.filter (·.typeName != subtype.typeName)).map
        (fun other => Scalar.constant other.code) := by
    rw [List.filter_map, List.map_map]
    rfl
  have hconstants : ((subtypes.filter (·.typeName != subtype.typeName)).map
        fun other => Scalar.constant other.code).map ρ.scalar =
      (subtypes.filter (·.typeName != subtype.typeName)).map
        fun other => Scalar.constant other.code := by
    rw [List.map_map]
    rfl
  unfold SqlCompiler.subtypeTest
  simp only [Renaming.subtype, hothers, h.field_canBeNull]
  split
  · split
    · rfl
    · rw [condition_ofPredicate, predicate_inList, hconstants]
  · rfl

theorem subtypeCondition (t : TableRef) (p : Projection) (typeName : String) :
    SqlCompiler.subtypeCondition s' (ρ.table t) (ρ.projection p) typeName =
      (SqlCompiler.subtypeCondition s t p typeName).map ρ.condition := by
  have hfind : (s'.table (ρ.table t)).subtypes.find? (·.typeName == typeName) =
      ((s.table t).subtypes.find? (·.typeName == typeName)).map ρ.subtype := by
    rw [h.table, tableNode, List.find?_map]
    rfl
  have hname : (s'.table (ρ.table t)).name = (s.table t).name := by rw [h.table, tableNode]
  have hsubtypes : (s'.table (ρ.table t)).subtypes = (s.table t).subtypes.map ρ.subtype := by
    rw [h.table, tableNode]
  unfold SqlCompiler.subtypeCondition
  dsimp only
  rw [hfind, hname, hsubtypes]
  cases (s.table t).subtypes.find? (·.typeName == typeName) with
  | none => rfl
  | some subtype =>
    simp only [Option.map_some, projection_member, Renaming.subtype, h.field_name]
    cases p.member (s.field subtype.discriminator).name with
    | error e => rfl
    | ok member =>
      have htest := h.subtypeTest (s.table t).subtypes subtype
        (member.asScalar?.getD (.field subtype.discriminator))
      refine congrArg Except.ok (Eq.trans ?_ htest)
      rw [projection_asScalar?]
      cases member.asScalar? <;> rfl

end Copies

/-! ## Allocations -/

/-- A store is found in another one, and the next nodes of both, up to a bound on their numbers, are
numbered in order. -/
structure Tracks (ρ : Renaming) (bound : NodeKind → Nat) (s s' : Store) : Prop extends
    ρ.Copies s s' where
  next : ∀ kind i, s.count kind + i < bound kind →
    ρ.number kind (s.count kind + i) = s'.count kind + i

/-- What one store allocates, the other one allocates renamed. -/
structure Allocates (ρ : Renaming) {α : Type} (rename : α → α) (f f' : Store → α × Store) :
    Prop where
  grows : ∀ (s : Store) (kind : NodeKind), s.count kind ≤ (f s).2.count kind
  tracks : ∀ {bound : NodeKind → Nat} {s s' : Store}, (∀ kind, (f s).2.count kind ≤ bound kind) →
    ρ.Tracks bound s s' → (f' s').1 = rename (f s).1 ∧ ρ.Tracks bound (f s).2 (f' s').2

variable {ρ : Renaming} {bound : NodeKind → Nat} {s s' t t' : Store}

namespace Tracks

/-- Stores that have grown alike. -/
theorem of_copies (h : ρ.Tracks bound s s') (hcopies : ρ.Copies t t') (added : NodeKind → Nat)
    (hcount : ∀ kind, t.count kind = s.count kind + added kind)
    (hcount' : ∀ kind, t'.count kind = s'.count kind + added kind) : ρ.Tracks bound t t' where
  toCopies := hcopies
  next kind i hi := by
    rw [hcount] at hi ⊢
    rw [hcount', Nat.add_assoc, Nat.add_assoc]
    exact h.next kind _ (by omega)

theorem size (h : ρ.Tracks bound s s') (kind : NodeKind) (hsize : s.count kind < bound kind) :
    ρ.number kind (s.count kind) = s'.count kind :=
  h.next kind 0 hsize

theorem modifyTable (h : ρ.Tracks bound s s') (t : TableRef) {F F' : Table → Table}
    (hF : ∀ table, F' (ρ.tableNode table) = ρ.tableNode (F table)) :
    ρ.Tracks bound (s.modifyTable t F) (s'.modifyTable (ρ.table t) F') :=
  h.of_copies { h.toCopies with tables := h.tables.modify (ρ.injective .table) t.index hF }
    (fun _ => 0) (fun kind => by cases kind <;> simp [Store.count, Store.modifyTable])
    (fun kind => by cases kind <;> simp [Store.count, Store.modifyTable])

theorem modifyQuery (h : ρ.Tracks bound s s') (q : QueryRef) {F F' : Query → Query}
    (hF : ∀ query, F' (ρ.queryNode query) = ρ.queryNode (F query)) :
    ρ.Tracks bound (s.modifyQuery q F) (s'.modifyQuery (ρ.query q) F') :=
  h.of_copies { h.toCopies with queries := h.queries.modify (ρ.injective .query) q.index hF }
    (fun _ => 0) (fun kind => by cases kind <;> simp [Store.count, Store.modifyQuery])
    (fun kind => by cases kind <;> simp [Store.count, Store.modifyQuery])

theorem pushTable (h : ρ.Tracks bound s s') (hsize : s.tables.size < bound .table)
    (table : Table) : ρ.Tracks bound { s with tables := s.tables.push table }
      { s' with tables := s'.tables.push (ρ.tableNode table) } := by
  refine h.of_copies
    { h.toCopies with tables := h.tables.push (ρ.injective .table) (h.size .table hsize) _ }
    (fun kind => match kind with | .table => 1 | _ => 0) ?_ ?_
  all_goals
    intro kind
    cases kind <;> simp [Store.count]

theorem pushField (h : ρ.Tracks bound s s') (hsize : s.fields.size < bound .field) (field : Field) :
    ρ.Tracks bound { s with fields := s.fields.push field }
      { s' with fields := s'.fields.push (ρ.fieldNode field) } := by
  refine h.of_copies
    { h.toCopies with fields := h.fields.push (ρ.injective .field) (h.size .field hsize) _ }
    (fun kind => match kind with | .field => 1 | _ => 0) ?_ ?_
  all_goals
    intro kind
    cases kind <;> simp [Store.count]

theorem pushQuery (h : ρ.Tracks bound s s') (hsize : s.queries.size < bound .query)
    (query : Query) :
    ρ.Tracks bound { s with queries := s.queries.push query }
      { s' with queries := s'.queries.push (ρ.queryNode query) } := by
  refine h.of_copies
    { h.toCopies with queries := h.queries.push (ρ.injective .query) (h.size .query hsize) _ }
    (fun kind => match kind with | .query => 1 | _ => 0) ?_ ?_
  all_goals
    intro kind
    cases kind <;> simp [Store.count]

theorem pushColumn (h : ρ.Tracks bound s s') (hsize : s.columns.size < bound .column)
    (column : OutputColumn) : ρ.Tracks bound { s with columns := s.columns.push column }
      { s' with columns := s'.columns.push (ρ.columnNode column) } := by
  refine h.of_copies
    { h.toCopies with columns := h.columns.push (ρ.injective .column) (h.size .column hsize) _ }
    (fun kind => match kind with | .column => 1 | _ => 0) ?_ ?_
  all_goals
    intro kind
    cases kind <;> simp [Store.count]

end Tracks

/-! ### Queries and columns -/

theorem allocates_addQuery (ρ : Renaming) (parent : Option QueryRef) :
    ρ.Allocates ρ.query (fun s => s.addQuery parent)
      (fun s => s.addQuery (parent.map ρ.query)) where
  grows s kind := by cases kind <;> simp [Store.count, Store.addQuery]
  tracks {bound s s'} hbound h := by
    have hsize : s.queries.size + 1 ≤ bound .query := by
      simpa [Store.count, Store.addQuery] using hbound .query
    exact ⟨congrArg QueryRef.mk (h.size .query hsize).symm, h.pushQuery hsize _⟩

theorem allocates_addFreshColumn (ρ : Renaming) (q : QueryRef) (e : Scalar)
    (aliasName : Option String) :
    ρ.Allocates ρ.column (fun s => s.addFreshColumn q e aliasName)
      (fun s => s.addFreshColumn (ρ.query q) (ρ.scalar e) aliasName) where
  grows s kind := by
    cases kind <;> simp [Store.count, Store.addFreshColumn, Store.modifyQuery]
  tracks {bound s s'} hbound h := by
    have hsize : s.columns.size + 1 ≤ bound .column := by
      simpa [Store.count, Store.addFreshColumn, Store.modifyQuery] using hbound .column
    have hnew : (⟨s'.columns.size⟩ : ColumnRef) = ρ.column ⟨s.columns.size⟩ :=
      congrArg ColumnRef.mk (h.size .column hsize).symm
    refine ⟨hnew, (h.pushColumn hsize _).modifyQuery q fun query => ?_⟩
    rw [hnew]
    simp [queryNode]

theorem allocates_addColumn (ρ : Renaming) (q : QueryRef) (e : Scalar)
    (aliasName : Option String) :
    ρ.Allocates ρ.column (fun s => s.addColumn q e aliasName)
      (fun s => s.addColumn (ρ.query q) (ρ.scalar e) aliasName) where
  grows s kind := by
    unfold Store.addColumn
    split
    · exact Nat.le_refl _
    · exact (ρ.allocates_addFreshColumn q e aliasName).grows s kind
  tracks {bound s s'} hbound h := by
    have hfind := h.findColumn? q e
    unfold Store.addColumn at hbound ⊢
    rw [hfind]
    cases hfound : s.findColumn? q e with
    | some c => exact ⟨rfl, h⟩
    | none =>
      rw [hfound] at hbound
      exact (ρ.allocates_addFreshColumn q e aliasName).tracks hbound h

/-! ### Tables -/

theorem count_addField (s : Store) (t : TableRef) (spec : FieldSpec) (kind : NodeKind) :
    (s.addField t spec).2.count kind =
      s.count kind + (match kind with | .field => 1 | _ => 0) := by
  cases kind <;> simp [Store.count, Store.addField, Store.modifyTable]

theorem Tracks.addField (h : ρ.Tracks bound s s') (hsize : s.fields.size < bound .field)
    (t : TableRef) (spec : FieldSpec) :
    ρ.Tracks bound (s.addField t spec).2 (s'.addField (ρ.table t) spec).2 := by
  have hnew : (⟨s'.fields.size⟩ : FieldRef) = ρ.field ⟨s.fields.size⟩ :=
    congrArg FieldRef.mk (h.size .field hsize).symm
  refine (h.pushField hsize (spec.toField t)).modifyTable t fun table => ?_
  rw [hnew]
  simp [tableNode]

/-- The fields of a new table. -/
theorem Tracks.addFields (t : TableRef) (specs : List FieldSpec) {s s' : Store}
    (h : ρ.Tracks bound s s') (hsize : s.fields.size + specs.length ≤ bound .field) :
    ρ.Tracks bound (specs.foldl (fun s spec => (s.addField t spec).2) s)
      (specs.foldl (fun s spec => (s.addField (ρ.table t) spec).2) s') := by
  induction specs generalizing s s' with
  | nil => exact h
  | cons spec rest ih =>
    rw [List.length_cons] at hsize
    refine ih (h.addField (by omega) t spec) ?_
    rw [show (s.addField t spec).2.fields.size = s.fields.size + 1 from
      count_addField s t spec .field]
    omega

theorem count_addFields (t : TableRef) (specs : List FieldSpec) (s : Store) (kind : NodeKind) :
    (specs.foldl (fun s spec => (s.addField t spec).2) s).count kind =
      s.count kind + (match kind with | .field => specs.length | _ => 0) := by
  induction specs generalizing s with
  | nil => cases kind <;> rfl
  | cons spec rest ih =>
    rw [List.foldl_cons, ih, count_addField]
    cases kind with
    | field => simp only [List.length_cons]; omega
    | _ => rfl

theorem count_addTable (s : Store) (table : Table) (specs : List FieldSpec) (kind : NodeKind) :
    (s.addTable table specs).2.count kind =
      s.count kind + (match kind with | .table => 1 | .field => specs.length | _ => 0) := by
  rw [Store.addTable, count_addFields]
  cases kind <;> simp [Store.count]

theorem allocates_addTable (ρ : Renaming) (table : Table) (specs : List FieldSpec) :
    ρ.Allocates ρ.table (fun s => s.addTable table specs)
      (fun s => s.addTable (ρ.tableNode table) specs) where
  grows s kind := by
    rw [count_addTable]
    exact Nat.le_add_right _ _
  tracks {bound s s'} hbound h := by
    have hsize : s.tables.size + 1 ≤ bound .table :=
      count_addTable s table specs .table ▸ hbound .table
    have hfields : s.fields.size + specs.length ≤ bound .field :=
      count_addTable s table specs .field ▸ hbound .field
    have hnew : (⟨s'.tables.size⟩ : TableRef) = ρ.table ⟨s.tables.size⟩ :=
      congrArg TableRef.mk (h.size .table hsize).symm
    refine ⟨hnew, ?_⟩
    rw [Store.addTable, Store.addTable]
    dsimp only
    rw [hnew]
    exact (h.pushTable hsize table).addFields _ specs hfields

theorem Copies.subtypeIn (h : ρ.Copies s s') (entity : EntityMapping) (t : TableRef)
    (m : SubtypeMapping) :
    entity.subtypeIn s' (ρ.table t) m = (entity.subtypeIn s t m).map ρ.subtype := by
  unfold EntityMapping.subtypeIn
  rw [h.fieldByName]
  cases s.fieldByName t m.discriminator <;> rfl

/-- A list of results, renamed. -/
theorem mapM_map {α β : Type} {f f' : α → Except SqlError β} {g : β → β}
    (h : ∀ a, f' a = (f a).map g) (items : List α) :
    items.mapM f' = (items.mapM f).map (List.map g) := by
  induction items with
  | nil => rfl
  | cons a rest ih =>
    rw [List.mapM_cons, List.mapM_cons, h, ih]
    cases f a with
    | error e => rfl
    | ok b => cases rest.mapM f <;> rfl

theorem count_instantiate (entity : EntityMapping) (s : Store) (kind : NodeKind) :
    (entity.instantiate.runOn s).2.count kind =
      (s.addTable { name := { schema := entity.schema, name := entity.tableName } }
        (entity.columns.map (·.fieldSpec))).2.count kind := by
  rw [entity.runOn_instantiate]
  split
  · rfl
  · cases kind <;> simp [Store.count, Store.modifyTable]

/-- An entity gets the same table in both stores, or is refused for the same reason. -/
theorem allocates_instantiate (ρ : Renaming) (entity : EntityMapping) :
    ρ.Allocates (Except.map ρ.table) entity.instantiate.runOn entity.instantiate.runOn where
  grows s kind := by
    rw [count_instantiate, count_addTable]
    exact Nat.le_add_right _ _
  tracks {bound s s'} hbound h := by
    let table : Table := { name := { schema := entity.schema, name := entity.tableName } }
    let added (s : Store) := s.addTable table (entity.columns.map (·.fieldSpec))
    obtain ⟨hnew, htracks⟩ := (ρ.allocates_addTable table (entity.columns.map (·.fieldSpec))).tracks
      (fun kind => count_instantiate entity s kind ▸ hbound kind) h
    have hnew : (added s').1 = ρ.table (added s).1 := hnew
    have htracks : ρ.Tracks bound (added s).2 (added s').2 := htracks
    have hsubtypes : entity.subtypes.mapM (entity.subtypeIn (added s').2 (added s').1) =
        (entity.subtypes.mapM (entity.subtypeIn (added s).2 (added s).1)).map
          (List.map ρ.subtype) := by
      rw [hnew]
      exact mapM_map (htracks.subtypeIn entity (added s).1) entity.subtypes
    rw [entity.runOn_instantiate, entity.runOn_instantiate]
    rw [show entity.subtypes.mapM (entity.subtypeIn _ _) = _ from hsubtypes]
    cases entity.subtypes.mapM (entity.subtypeIn (added s).2 (added s).1) with
    | error e => exact ⟨rfl, htracks⟩
    | ok subtypes =>
      refine ⟨congrArg Except.ok hnew, ?_⟩
      dsimp only [Except.map]
      rw [hnew]
      exact htracks.modifyTable _ fun table => rfl

/-! ## Stores that grow apart -/

/-- Renamings that call the nodes of a store the same, and call nothing else what a second store
has. -/
structure Agrees (ρ σ : Renaming) (s s' : Store) : Prop where
  below : ∀ kind i, i < s.count kind → σ.number kind i = ρ.number kind i
  above : ∀ kind i, s.count kind ≤ i → s'.count kind ≤ σ.number kind i

/-- A store is found renamed in another one whatever the nodes that it does not have are called, and
the next nodes of both are numbered in order. -/
structure Embeds (ρ : Renaming) (s s' : Store) : Prop where
  copies : ∀ {σ : Renaming}, ρ.Agrees σ s s' → σ.Copies s s'
  next : ∀ kind i, ρ.number kind (s.count kind + i) = s'.count kind + i

/-- The renaming that leaves all numbers as they are. -/
def refl : Renaming where
  number _ i := i
  injective _ _ _ h := h
  first := rfl

/-- Nothing is found in nothing. -/
theorem embeds_empty : refl.Embeds {} {} where
  copies _ := ⟨fun _ => rfl, fun _ => rfl, fun _ => rfl, fun _ => rfl⟩
  next _ _ := rfl

/-- A renaming that keeps the numbers below some, and numbers what comes then in order from others
on. -/
def shift (ρ : Renaming) (n m : NodeKind → Nat)
    (hlt : ∀ kind i, i < n kind → ρ.number kind i < m kind)
    (hpos : 0 < n .query) : Renaming where
  number kind i := if i < n kind then ρ.number kind i else m kind + (i - n kind)
  injective kind i j hij := by
    have hi := hlt kind i
    have hj := hlt kind j
    dsimp only at hij
    split at hij <;> split at hij
    · exact ρ.injective kind hij
    all_goals omega
  first := by rw [if_pos hpos, ρ.first]

namespace Embeds

variable {s s' t t' : Store}

theorem agrees (h : ρ.Embeds s s') : ρ.Agrees ρ s s' where
  below _ _ _ := rfl
  above kind i hi := by
    obtain ⟨j, rfl⟩ := Nat.exists_eq_add_of_le hi
    rw [h.next]
    exact Nat.le_add_right _ _

theorem tracks (h : ρ.Embeds s s') (bound : NodeKind → Nat) : ρ.Tracks bound s s' where
  toCopies := h.copies h.agrees
  next kind i _ := h.next kind i

/-- The nodes of the store are nodes of the other one. -/
theorem number_lt (h : ρ.Embeds s s') (kind : NodeKind) (i : Nat) (hi : i < s.count kind) :
    ρ.number kind i < s'.count kind := by
  have hcopied : ∀ {α : Type} {f : Nat → Nat} {g : α → α} {xs ys : Array α}, Copied f g xs ys →
      i < xs.size → f i < ys.size := by
    intro α f g xs ys h hi
    have hget := h i
    rw [Array.getElem?_eq_getElem hi] at hget
    exact (Array.getElem?_eq_some_iff.mp hget).1
  have hcopies := h.copies h.agrees
  cases kind with
  | table => exact hcopied hcopies.tables hi
  | field => exact hcopied hcopies.fields hi
  | query => exact hcopied hcopies.queries hi
  | column => exact hcopied hcopies.columns hi

/-- A store that is found as it is in another one is as large. -/
theorem count_eq (h : refl.Embeds s t) (kind : NodeKind) : t.count kind = s.count kind :=
  (h.next kind 0).symm

/-- Stores in which a store is found as it is have the same nodes. -/
theorem exchange (hself : refl.Embeds s s) (hsame : refl.Embeds s t) (h : ρ.Embeds s s') :
    ρ.Embeds t s' := by
  have hcopied : ∀ {α : Type} {g : α → α} {xs ys : Array α}, Copied (fun i => i) g xs xs →
      Copied (fun i => i) g xs ys → ys = xs := fun h h' => Array.ext_getElem? fun i => by
    rw [h' i, ← h i]
  have hs := hself.copies hself.agrees
  have ht := hsame.copies hsame.agrees
  refine ⟨fun {σ} hσ => ?_, fun kind i => by rw [hsame.count_eq, h.next]⟩
  have hcopies := h.copies (σ := σ) ⟨by simpa only [hsame.count_eq] using hσ.below,
    by simpa only [hsame.count_eq] using hσ.above⟩
  exact ⟨hcopied hs.tables ht.tables ▸ hcopies.tables, hcopied hs.fields ht.fields ▸ hcopies.fields,
    hcopied hs.queries ht.queries ▸ hcopies.queries,
    hcopied hs.columns ht.columns ▸ hcopies.columns⟩

/-- The second store may get other nodes, which what comes next is numbered after. -/
theorem grow (h : ρ.Embeds s s') (hkeeps : s'.KeepsBelow s'.queries.size t')
    (hpos : 0 < s.count .query) :
    ∃ σ : Renaming, σ.Embeds s t' ∧ ∀ τ : Renaming, σ.Agrees τ s t' → ρ.Agrees τ s s' := by
  have hgrows : ∀ kind, s'.count kind ≤ t'.count kind := fun kind => by
    cases kind
    exacts [hkeeps.tables, hkeeps.fields, hkeeps.queries, hkeeps.columns]
  let σ := ρ.shift s.count t'.count
    (fun kind i hi => Nat.lt_of_lt_of_le (h.number_lt kind i hi) (hgrows kind)) hpos
  have hagrees : ∀ τ : Renaming, σ.Agrees τ s t' → ρ.Agrees τ s s' := fun τ hτ =>
    ⟨fun kind i hi => (hτ.below kind i hi).trans (if_pos hi),
      fun kind i hi => Nat.le_trans (hgrows kind) (hτ.above kind i hi)⟩
  refine ⟨σ, ⟨fun {τ} hτ => ?_, fun kind i => by simp [σ, shift]⟩, hagrees⟩
  -- the nodes of the store are among those that were kept
  have hcopies := h.copies (hagrees τ hτ)
  have hcopied : ∀ {α : Type} {f : Nat → Nat} {g : α → α} {xs ys zs : Array α} {a : α},
      Copied f g xs ys → ys.size ≤ zs.size →
      (∀ i < ys.size, zs[i]?.getD a = ys[i]?.getD a) → (∀ i, xs.size ≤ i → zs.size ≤ f i) →
      Copied f g xs zs := by
    intro α f g xs ys zs a h hsize hsame habove i
    by_cases hi : i < xs.size
    · have hget := h i
      rw [Array.getElem?_eq_getElem hi] at hget
      have hlt := (Array.getElem?_eq_some_iff.mp hget).1
      have hvalue := hsame (f i) hlt
      rw [hget, Array.getElem?_eq_getElem (Nat.lt_of_lt_of_le hlt hsize)] at hvalue
      rw [Array.getElem?_eq_getElem (Nat.lt_of_lt_of_le hlt hsize), Array.getElem?_eq_getElem hi]
      exact congrArg some hvalue
    · rw [Array.getElem?_eq_none (Nat.le_of_not_lt hi),
        Array.getElem?_eq_none (habove i (Nat.le_of_not_lt hi))]
      rfl
  exact ⟨hcopied hcopies.tables hkeeps.tables (fun i => hkeeps.table ⟨i⟩) (hτ.above .table),
    hcopied hcopies.fields hkeeps.fields (fun i => hkeeps.field ⟨i⟩) (hτ.above .field),
    hcopied hcopies.queries hkeeps.queries (fun i => hkeeps.query ⟨i⟩) (hτ.above .query),
    hcopied hcopies.columns hkeeps.columns (fun i => hkeeps.column ⟨i⟩) (hτ.above .column)⟩

end Embeds

end Renaming

end SqlCompiler
