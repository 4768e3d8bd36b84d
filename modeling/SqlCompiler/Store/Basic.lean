import SqlCompiler.Error
import SqlCompiler.Sql.Equality
import SqlCompiler.Sql.Statement

/-!
# The store of a compilation

The nodes of the statements of one compilation, addressed by references.  References are
given out in order of allocation and are never taken back.

Main definitions:

- `Store` with a look-up and an update for each kind of node.
- `Store.addTable`, `Store.addField`, `Store.copyTable`, `Store.addQuery`,
  `Store.addColumn`, `Store.addFreshColumn`, `Store.addStatement`, `Store.addCteTable`:
  allocation.
- `Store.primaryKeys`, `Store.fieldByName`, `Store.isSameOrAncestor`: questions about it.
- `StoreM`: steps that change a store and may fail.  A step that fails leaves the store as the
  failure found it.
- `StoreM.runOn`, `StoreM.ofPair`.
- Theorem `StoreM.runOn_bind`: a step after another one.
-/

namespace SqlCompiler

/-- The nodes of one compilation. -/
structure Store where
  tables : Array Table := #[]
  fields : Array Field := #[]
  queries : Array Query := #[]
  columns : Array OutputColumn := #[]
  statements : Array Statement := #[]
  ctes : Array Cte := #[]
  deriving Inhabited

namespace Store

/-! ## Look-up and update -/

/-- The table of a reference. -/
def table (s : Store) (t : TableRef) : Table := s.tables[t.index]?.getD default

/-- The field of a reference. -/
def field (s : Store) (f : FieldRef) : Field := s.fields[f.index]?.getD default

/-- The query of a reference. -/
def query (s : Store) (q : QueryRef) : Query := s.queries[q.index]?.getD default

/-- The column of a reference. -/
def column (s : Store) (c : ColumnRef) : OutputColumn := s.columns[c.index]?.getD default

/-- The statement of a reference. -/
def statement (s : Store) (t : StatementRef) : Statement := s.statements[t.index]?.getD default

/-- The common table expression of a reference. -/
def cte (s : Store) (c : CteRef) : Cte := s.ctes[c.index]?.getD default

/-- Change a table. -/
def modifyTable (s : Store) (t : TableRef) (f : Table → Table) : Store :=
  { s with tables := s.tables.modify t.index f }

/-- Change a query. -/
def modifyQuery (s : Store) (q : QueryRef) (f : Query → Query) : Store :=
  { s with queries := s.queries.modify q.index f }

/-- Change a column. -/
def modifyColumn (s : Store) (c : ColumnRef) (f : OutputColumn → OutputColumn) : Store :=
  { s with columns := s.columns.modify c.index f }

/-- Change a statement. -/
def modifyStatement (s : Store) (t : StatementRef) (f : Statement → Statement) : Store :=
  { s with statements := s.statements.modify t.index f }

/-- Change a common table expression. -/
def modifyCte (s : Store) (c : CteRef) (f : Cte → Cte) : Store :=
  { s with ctes := s.ctes.modify c.index f }

/-! ## Allocation -/

/-- Add a field at the end of a table. -/
def addField (s : Store) (t : TableRef) (spec : FieldSpec) : FieldRef × Store :=
  let ref : FieldRef := ⟨s.fields.size⟩
  let s := { s with fields := s.fields.push (spec.toField t) }
  (ref, s.modifyTable t fun table => { table with fields := table.fields ++ [ref] })

/-- Add a table with the given fields. -/
def addTable (s : Store) (table : Table) (specs : List FieldSpec) : TableRef × Store :=
  let ref : TableRef := ⟨s.tables.size⟩
  let s := { s with tables := s.tables.push table }
  (ref, specs.foldl (fun s spec => (s.addField ref spec).2) s)

/-- Add copies of fields to a table, and pair each field with its copy. -/
def copyFields (s : Store) (t : TableRef) : List FieldRef → List (FieldRef × FieldRef) × Store
  | [] => ([], s)
  | old :: rest =>
    let new : FieldRef := ⟨s.fields.size⟩
    let s := { s with fields := s.fields.push { s.field old with table := t } }
    let s := s.modifyTable t fun table => { table with fields := table.fields ++ [new] }
    let (pairs, s) := s.copyFields t rest
    ((old, new) :: pairs, s)

/-- The counterpart of a reference under a pairing, the first one if there are several. -/
def paired {α : Type} [BEq α] (mapping : List (α × α)) (a : α) : Option α :=
  (mapping.find? (·.1 == a)).map (·.2)

/-- A fresh instance of a table with fields of its own.  Every reference of a query to the
same physical table needs an instance of its own. -/
def copyTable (s : Store) (t : TableRef) : (TableRef × List (FieldRef × FieldRef)) × Store :=
  let source := s.table t
  let copy : TableRef := ⟨s.tables.size⟩
  let s := { s with tables := s.tables.push { source with fields := [] } }
  let (mapping, s) := s.copyFields copy source.fields
  let remap (subtype : Subtype) : Subtype :=
    { subtype with
      discriminator := (paired mapping subtype.discriminator).getD subtype.discriminator }
  let s := s.modifyTable copy fun table => { table with subtypes := table.subtypes.map remap }
  ((copy, mapping), s)

/-- Add an empty query. -/
def addQuery (s : Store) (parent : Option QueryRef) : QueryRef × Store :=
  (⟨s.queries.size⟩, { s with queries := s.queries.push { parent } })

/-- Add a column to a query, even if an equal one is there. -/
def addFreshColumn (s : Store) (q : QueryRef) (expression : Scalar) (aliasName : Option String) :
    ColumnRef × Store :=
  let ref : ColumnRef := ⟨s.columns.size⟩
  let s := { s with columns := s.columns.push { parent := q, expression, aliasName } }
  (ref, s.modifyQuery q fun query => { query with columns := query.columns ++ [ref] })

/-- The column of a query that selects the expression, if there is one. -/
def findColumn? (s : Store) (q : QueryRef) (expression : Scalar) : Option ColumnRef :=
  (s.query q).columns.find? fun c => (s.column c).expression == expression

/-- Add a column to a query, or take the one that selects the same expression. -/
def addColumn (s : Store) (q : QueryRef) (expression : Scalar) (aliasName : Option String) :
    ColumnRef × Store :=
  match s.findColumn? q expression with
  | some found => (found, s)
  | none => s.addFreshColumn q expression aliasName

/-- Add a statement. -/
def addStatement (s : Store) (statement : Statement) : StatementRef × Store :=
  (⟨s.statements.size⟩, { s with statements := s.statements.push statement })

/-- Add a common table expression and the table that reads it.  The body may be filled in
later, so that it can read that table itself. -/
def addCteTable (s : Store) (name : String) (body : QueryRef) (specs : List FieldSpec) :
    (CteRef × TableRef) × Store :=
  let ref : CteRef := ⟨s.ctes.size⟩
  let s := { s with ctes := s.ctes.push { name, body, fields := [] } }
  let (table, s) := s.addTable { name := { name }, kind := .cte ref } specs
  let fields := (s.table table).fields
  ((ref, table), s.modifyCte ref fun cte => { cte with fields })

/-! ## Questions -/

/-- The field of a table with that member name, the first one if there are several. -/
def fieldByName (s : Store) (t : TableRef) (name : String) : Option FieldRef :=
  (s.table t).fields.find? fun f => (s.field f).name == name

/-- The fields of the primary key, in key order. -/
def primaryKeys (s : Store) (t : TableRef) : List FieldRef :=
  ((s.table t).fields.filter fun f => (s.field f).isPrimaryKey).mergeSort fun a b =>
    (s.field a).primaryKeyOrder ≤ (s.field b).primaryKeyOrder

/-- Whether `ancestor` is among the first `fuel` queries from `q` outwards. -/
def ancestorWithin (s : Store) (ancestor : QueryRef) : Nat → Option QueryRef → Bool
  | 0, _ => false
  | _, none => false
  | fuel + 1, some q => q == ancestor || s.ancestorWithin ancestor fuel (s.query q).parent

/-- Whether `ancestor` is `q` or one of its enclosing queries. -/
def isSameOrAncestor (s : Store) (ancestor q : QueryRef) : Bool :=
  s.ancestorWithin ancestor (s.queries.size + 1) (some q)

/-- The number of nodes, a bound on how often references can be followed without coming back
to a node. -/
def nodeCount (s : Store) : Nat :=
  s.tables.size + s.fields.size + s.queries.size + s.columns.size + s.statements.size +
    s.ctes.size

/-! ## What a change leaves alone -/

section

variable {s : Store} {q r : QueryRef} {f : Query → Query}

theorem query_modifyQuery_self (h : q.index < s.queries.size) :
    (s.modifyQuery q f).query q = f (s.query q) := by
  simp [modifyQuery, query, Array.getElem?_modify, Array.getElem?_eq_getElem h]

theorem query_modifyQuery_ne (h : r ≠ q) : (s.modifyQuery q f).query r = s.query r := by
  have hindex : q.index ≠ r.index := fun heq => h (by cases q; cases r; simp_all)
  simp [modifyQuery, query, Array.getElem?_modify, hindex]

/-- A query is changed or stays as it is. -/
theorem query_modifyQuery (s : Store) (q r : QueryRef) (f : Query → Query) :
    r = q ∧ (s.modifyQuery q f).query r = f (s.query q) ∨
      (s.modifyQuery q f).query r = s.query r := by
  by_cases hr : r = q
  · subst hr
    by_cases hsize : r.index < s.queries.size
    · exact .inl ⟨rfl, query_modifyQuery_self hsize⟩
    · exact .inr (by simp [query, modifyQuery, hsize])
  · exact .inr (query_modifyQuery_ne hr)

/-- A change that changes nothing. -/
theorem modifyQuery_eq_self (h : f (s.query q) = s.query q) : s.modifyQuery q f = s := by
  have hqueries : s.queries.modify q.index f = s.queries := by
    refine Array.ext_getElem? fun i => ?_
    rw [Array.getElem?_modify]
    split
    · next hi =>
      subst hi
      cases hget : s.queries[q.index]? with
      | none => rfl
      | some query =>
        have hquery : s.query q = query := by rw [Store.query, hget, Option.getD_some]
        rw [hquery] at h
        rw [Option.map_some, h]
    · rfl
  rw [modifyQuery, hqueries]

@[simp]
theorem size_modifyQuery : (s.modifyQuery q f).queries.size = s.queries.size := by
  simp [modifyQuery]

theorem query_addQuery (parent : Option QueryRef) (h : r.index < s.queries.size) :
    (s.addQuery parent).2.query r = s.query r := by
  simp [addQuery, query, Array.getElem?_push, Nat.ne_of_lt h]

@[simp]
theorem query_addQuery_self (parent : Option QueryRef) :
    (s.addQuery parent).2.query (s.addQuery parent).1 = { parent } := by
  simp [addQuery, query]

/-- A query is there or it is empty. -/
theorem query_addQuery_cases (s : Store) (parent : Option QueryRef) (r : QueryRef) :
    (s.addQuery parent).2.query r = s.query r ∨ (s.addQuery parent).2.query r = { parent } := by
  by_cases h : r.index = s.queries.size
  · exact .inr (by simp [query, addQuery, h])
  · exact .inl (by simp [query, addQuery, Array.getElem?_push, h])

/-- A reference beyond the end of the store stands for the empty query. -/
theorem query_of_le (h : s.queries.size ≤ q.index) : s.query q = {} := by
  simp [query, Array.getElem?_eq_none h, default, instInhabitedQuery.default]

end

end Store

/-! ## Steps on a store -/

/-- Steps that change the store; a failed step keeps the changes made before it. -/
abbrev StoreM := ExceptT SqlError (StateM Store)

/-- Run a step, giving its result and the store it leaves. -/
def StoreM.runOn {α : Type} (step : StoreM α) (s : Store) : Except SqlError α × Store :=
  Id.run (StateT.run (ExceptT.run step) s)

/-- A step given by its result and the store it leaves. -/
def StoreM.ofPair {α : Type} (f : Store → Except SqlError α × Store) : StoreM α :=
  ExceptT.mk (modifyGet f)

@[simp]
theorem StoreM.runOn_get (s : Store) : (get : StoreM Store).runOn s = (.ok s, s) := rfl

/-- A step after another one runs if that gave a result. -/
theorem StoreM.runOn_bind {α β : Type} (step : StoreM α) (next : α → StoreM β) (s : Store) :
    (step >>= next).runOn s =
      match step.runOn s with
      | (.ok a, s') => (next a).runOn s'
      | (.error e, s') => (.error e, s') := by
  change (ExceptT.bindCont next (step s).1) (step s).2 = _
  cases h : step s with
  | mk result s' =>
    cases result with
    | ok a => simp [StoreM.runOn, h, StateT.run, ExceptT.run, ExceptT.bindCont, Id.run]
    | error e =>
      simp only [StoreM.runOn, h, StateT.run, ExceptT.run, ExceptT.bindCont, Id.run]
      rfl

theorem StoreM.runOn_bind_ok {α β : Type} {step : StoreM α} {next : α → StoreM β} {s s' : Store}
    {a : α} (h : step.runOn s = (.ok a, s')) : (step >>= next).runOn s = (next a).runOn s' := by
  rw [StoreM.runOn_bind, h]

end SqlCompiler
