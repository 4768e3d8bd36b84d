import Mathlib.Data.List.Basic
import Mathlib.Logic.Relation
import SqlCompiler.Store.Basic

/-!
# Columns belong to queries

A column is made for one query and is never moved to another one.  What compiling does to a store
adds columns at the end of queries, or drops some; a column keeps its alias until aliases are given
out.

Building a statement, and rewriting one, changes the store by a few operations only.  Tables are new
and empty before fields are added to them, or are copies.

Main results:

- Definition `Store.Owned`: each query selects columns of its own, each once.
- Definition `Store.Evolves`: columns are added and dropped, and none is moved or renamed.
- Theorem `Store.Owned.evolves`: queries keep to columns of their own.
- Definitions `Store.Operation`, `Store.Operates`: one operation on a store, and any number of them.
-/

namespace SqlCompiler.Store

variable {s s' s'' : Store} {q : QueryRef} {c d : ColumnRef}

/-- Each query selects columns that were made for it, each once. -/
structure Owned (s : Store) : Prop where
  valid : ∀ q, ∀ c ∈ (s.query q).columns, c.index < s.columns.size
  parent : ∀ q, ∀ c ∈ (s.query q).columns, (s.column c).parent = q
  nodup : ∀ q, (s.query q).columns.Nodup

theorem owned_of_columns_nil (hcolumns : ∀ q, (s.query q).columns = []) : s.Owned := by
  refine ⟨fun q c hc => ?_, fun q c hc => ?_, fun q => ?_⟩
  · rw [hcolumns] at hc
    cases hc
  · rw [hcolumns] at hc
    cases hc
  · rw [hcolumns]
    exact List.nodup_nil

theorem owned_empty : ({} : Store).Owned :=
  owned_of_columns_nil fun q => by rw [query_of_le (Nat.zero_le _)]

/-- Each query selects some of the columns it selected and then new ones made for it.  The columns
that were there belong to the same queries under the same aliases. -/
structure Evolves (s s' : Store) : Prop where
  size : s.columns.size ≤ s'.columns.size
  parent : ∀ c : ColumnRef, c.index < s.columns.size → (s'.column c).parent = (s.column c).parent
  aliasName : ∀ c : ColumnRef, c.index < s.columns.size →
    (s'.column c).aliasName = (s.column c).aliasName
  selects : ∀ q, ∃ kept new, (s'.query q).columns = kept ++ new ∧
    kept.Sublist (s.query q).columns ∧ new.Nodup ∧
      ∀ c ∈ new, s.columns.size ≤ c.index ∧ c.index < s'.columns.size ∧ (s'.column c).parent = q

/-- Queries keep to columns of their own. -/
theorem Owned.evolves (h : s.Owned) (hs : s.Evolves s') : s'.Owned := by
  refine ⟨fun q c hc => ?_, fun q c hc => ?_, fun q => ?_⟩
  all_goals obtain ⟨kept, new, hcolumns, hkept, hnodup, hnew⟩ := hs.selects q
  · rw [hcolumns] at hc
    rcases List.mem_append.mp hc with hc | hc
    · exact Nat.lt_of_lt_of_le (h.valid q c (hkept.subset hc)) hs.size
    · exact (hnew c hc).2.1
  · rw [hcolumns] at hc
    rcases List.mem_append.mp hc with hc | hc
    · rw [hs.parent c (h.valid q c (hkept.subset hc))]
      exact h.parent q c (hkept.subset hc)
    · exact (hnew c hc).2.2
  · rw [hcolumns]
    refine List.nodup_append.mpr ⟨hkept.nodup (h.nodup q), hnodup, ?_⟩
    rintro a ha b hb rfl
    exact Nat.not_le_of_lt (h.valid q a (hkept.subset ha)) (hnew a hb).1

/-! ## Steps -/

/-- A column is changed or stays as it is. -/
theorem column_modifyColumn (s : Store) (c d : ColumnRef) (f : OutputColumn → OutputColumn) :
    (s.modifyColumn c f).column d = s.column d ∨
      (s.modifyColumn c f).column d = f (s.column d) := by
  simp only [column, modifyColumn, Array.getElem?_modify]
  split
  · cases s.columns[d.index]? with
    | none => exact .inl rfl
    | some found => exact .inr rfl
  · exact .inl rfl

namespace Evolves

/-- No query selects other columns, and no column is moved or renamed. -/
theorem ofColumns (hcolumns : ∀ q, (s'.query q).columns.Sublist (s.query q).columns)
    (hsize : s'.columns.size = s.columns.size)
    (hparent : ∀ c, (s'.column c).parent = (s.column c).parent)
    (halias : ∀ c, (s'.column c).aliasName = (s.column c).aliasName) : s.Evolves s' where
  size := Nat.le_of_eq hsize.symm
  parent c _ := hparent c
  aliasName c _ := halias c
  selects q := ⟨_, [], (List.append_nil _).symm, hcolumns q, List.nodup_nil, fun _ h => by cases h⟩

/-- Neither queries nor columns have changed. -/
theorem ofContent (hqueries : s'.queries = s.queries) (hcolumns : s'.columns = s.columns) :
    s.Evolves s' := by
  have hcolumn : ∀ c, s'.column c = s.column c := fun c => by rw [column, column, hcolumns]
  refine .ofColumns (fun q => ?_) (by rw [hcolumns]) (fun c => by rw [hcolumn])
    fun c => by rw [hcolumn]
  rw [query, query, hqueries]

theorem refl (s : Store) : s.Evolves s := .ofContent rfl rfl

theorem trans (h : s.Evolves s') (h' : s'.Evolves s'') : s.Evolves s'' where
  size := Nat.le_trans h.size h'.size
  parent c hc := (h'.parent c (Nat.lt_of_lt_of_le hc h.size)).trans (h.parent c hc)
  aliasName c hc := (h'.aliasName c (Nat.lt_of_lt_of_le hc h.size)).trans (h.aliasName c hc)
  selects q := by
    obtain ⟨kept, new, hcolumns, hkept, hnodup, hnew⟩ := h.selects q
    obtain ⟨kept', new', hcolumns', hkept', hnodup', hnew'⟩ := h'.selects q
    rw [hcolumns] at hkept'
    obtain ⟨old, recent, rfl, hold, hrecent⟩ := List.sublist_append_iff.mp hkept'
    refine ⟨old, recent ++ new', by rw [hcolumns', List.append_assoc], hold.trans hkept,
      List.nodup_append.mpr ⟨hrecent.nodup hnodup, hnodup', ?_⟩, fun c hc => ?_⟩
    · rintro a ha b hb rfl
      exact Nat.not_le_of_lt (hnew a (hrecent.subset ha)).2.1 (hnew' a hb).1
    · rcases List.mem_append.mp hc with hc | hc
      · obtain ⟨hle, hlt, hparent⟩ := hnew c (hrecent.subset hc)
        exact ⟨hle, Nat.lt_of_lt_of_le hlt h'.size, (h'.parent c hlt).trans hparent⟩
      · obtain ⟨hle, hlt, hparent⟩ := hnew' c hc
        exact ⟨Nat.le_trans h.size hle, hlt, hparent⟩

/-- A query keeps some of its columns. -/
theorem modifyQuery (s : Store) (q : QueryRef) {f : Query → Query}
    (hf : (f (s.query q)).columns.Sublist (s.query q).columns) : s.Evolves (s.modifyQuery q f) := by
  refine .ofColumns (fun r => ?_) rfl (fun _ => rfl) fun _ => rfl
  rcases query_modifyQuery s q r f with ⟨rfl, hquery⟩ | hquery
  · rw [hquery]
    exact hf
  · rw [hquery]

/-- The expression of a column changes. -/
theorem modifyColumn (s : Store) (c : ColumnRef) {f : OutputColumn → OutputColumn}
    (hparent : ∀ column, (f column).parent = column.parent)
    (halias : ∀ column, (f column).aliasName = column.aliasName) :
    s.Evolves (s.modifyColumn c f) := by
  refine .ofColumns (fun _ => List.Sublist.refl _) (by simp [Store.modifyColumn]) (fun d => ?_)
    fun d => ?_
  · rcases column_modifyColumn s c d f with h | h <;> rw [h]
    exact hparent _
  · rcases column_modifyColumn s c d f with h | h <;> rw [h]
    exact halias _

theorem addQuery (s : Store) (parent : Option QueryRef) : s.Evolves (s.addQuery parent).2 := by
  refine .ofColumns (fun r => ?_) rfl (fun _ => rfl) fun _ => rfl
  rcases query_addQuery_cases s parent r with h | h
  · rw [h]
  · rw [h]
    exact List.nil_sublist _

theorem addFreshColumn (s : Store) (q : QueryRef) (e : Scalar) (aliasName : Option String) :
    s.Evolves (s.addFreshColumn q e aliasName).2 := by
  let added : OutputColumn := { parent := q, expression := e, aliasName }
  let pushed : Store := { s with columns := s.columns.push added }
  have hcolumn : ∀ c : ColumnRef, c.index < s.columns.size → pushed.column c = s.column c :=
    fun c hc => by simp [pushed, column, Array.getElem?_push, Nat.ne_of_lt hc]
  have hadded : pushed.column ⟨s.columns.size⟩ = added := by simp [pushed, column]
  have hsize : pushed.columns.size = s.columns.size + 1 := Array.size_push _
  refine ⟨?_, fun c hc => congrArg OutputColumn.parent (hcolumn c hc),
    fun c hc => congrArg OutputColumn.aliasName (hcolumn c hc), fun r => ?_⟩
  · exact Nat.le_of_lt (Nat.lt_of_lt_of_eq (Nat.lt_succ_self _) hsize.symm)
  · rcases query_modifyQuery pushed q r
      (fun query => { query with columns := query.columns ++ [⟨s.columns.size⟩] }) with
      ⟨rfl, hquery⟩ | hquery
    · refine ⟨(s.query r).columns, [⟨s.columns.size⟩], congrArg Query.columns hquery,
        List.Sublist.refl _, List.pairwise_singleton _ _, fun c hc => ?_⟩
      obtain rfl := List.mem_singleton.mp hc
      exact ⟨Nat.le_refl _, Nat.lt_of_lt_of_eq (Nat.lt_succ_self _) hsize.symm,
        congrArg OutputColumn.parent hadded⟩
    · exact ⟨(s.query r).columns, [],
        (congrArg Query.columns hquery).trans (List.append_nil _).symm, List.Sublist.refl _,
        List.nodup_nil, fun _ h => by cases h⟩

theorem addColumn (s : Store) (q : QueryRef) (e : Scalar) (aliasName : Option String) :
    s.Evolves (s.addColumn q e aliasName).2 := by
  unfold Store.addColumn
  split
  · exact .refl s
  · exact .addFreshColumn s q e aliasName

end Evolves

/-! ## Operations -/

/-- One operation on a store. -/
inductive Operation : Store → Store → Prop where
  | addTable (s : Store) {table : Table} (specs : List FieldSpec) (hfields : table.fields = [])
      (hsubtypes : table.subtypes = []) : Operation s (s.addTable table specs).2
  | addField (s : Store) {t : TableRef} (spec : FieldSpec) (ht : t.index < s.tables.size) :
      Operation s (s.addField t spec).2
  /-- The sub types of a table are told apart by its fields. -/
  | setSubtypes (s : Store) (t : TableRef) {subtypes : List Subtype}
      (hsubtypes : ∀ subtype ∈ subtypes, subtype.discriminator ∈ (s.table t).fields) :
      Operation s (s.modifyTable t fun table => { table with subtypes })
  | copyTable (s : Store) (t : TableRef) : Operation s (s.copyTable t).2
  | addQuery (s : Store) (parent : Option QueryRef) : Operation s (s.addQuery parent).2
  | addColumn (s : Store) (q : QueryRef) (e : Scalar) (aliasName : Option String) :
      Operation s (s.addColumn q e aliasName).2
  | addFreshColumn (s : Store) (q : QueryRef) (e : Scalar) (aliasName : Option String) :
      Operation s (s.addFreshColumn q e aliasName).2
  /-- The clauses of a query change, or some of its columns are dropped. -/
  | modifyQuery (s : Store) (q : QueryRef) {f : Query → Query}
      (hf : (f (s.query q)).columns.Sublist (s.query q).columns) : Operation s (s.modifyQuery q f)
  /-- The expression of a column changes, or its alias. -/
  | modifyColumn (s : Store) (c : ColumnRef) {f : OutputColumn → OutputColumn}
      (hf : ∀ column, (f column).parent = column.parent) : Operation s (s.modifyColumn c f)
  | setStatements (s : Store) (statements : Array Statement) : Operation s { s with statements }

/-- Any number of operations on a store. -/
def Operates : Store → Store → Prop := Relation.ReflTransGen Operation

namespace Operates

theorem refl (s : Store) : s.Operates s := Relation.ReflTransGen.refl

theorem trans (h : s.Operates s') (h' : s'.Operates s'') : s.Operates s'' :=
  Relation.ReflTransGen.trans h h'

theorem single (h : s.Operation s') : s.Operates s' := Relation.ReflTransGen.single h

theorem foldl {α : Type} {f : Store → α → Store} (h : ∀ (s : Store) (a : α), s.Operates (f s a))
    (items : List α) (s : Store) : s.Operates (items.foldl f s) := by
  induction items generalizing s with
  | nil => exact .refl s
  | cons a rest ih => exact (h s a).trans (ih _)

theorem addQuery (s : Store) (parent : Option QueryRef) : s.Operates (s.addQuery parent).2 :=
  .single (.addQuery s parent)

theorem addColumn (s : Store) (q : QueryRef) (e : Scalar) (aliasName : Option String) :
    s.Operates (s.addColumn q e aliasName).2 := .single (.addColumn s q e aliasName)

theorem addFreshColumn (s : Store) (q : QueryRef) (e : Scalar) (aliasName : Option String) :
    s.Operates (s.addFreshColumn q e aliasName).2 := .single (.addFreshColumn s q e aliasName)

theorem modifyQuery (s : Store) (q : QueryRef) {f : Query → Query}
    (hf : (f (s.query q)).columns.Sublist (s.query q).columns) : s.Operates (s.modifyQuery q f) :=
  .single (.modifyQuery s q hf)

theorem modifyClause (s : Store) (q : QueryRef) {f : Query → Query}
    (hf : ∀ query, (f query).columns = query.columns) : s.Operates (s.modifyQuery q f) := by
  refine .modifyQuery s q ?_
  rw [hf]

theorem modifyColumn (s : Store) (c : ColumnRef) {f : OutputColumn → OutputColumn}
    (hf : ∀ column, (f column).parent = column.parent) : s.Operates (s.modifyColumn c f) :=
  .single (.modifyColumn s c hf)

theorem modifyStatement (s : Store) (t : StatementRef) (f : Statement → Statement) :
    s.Operates (s.modifyStatement t f) := .single (.setStatements s _)

end Operates

end SqlCompiler.Store
