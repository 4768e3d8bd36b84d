import Mathlib.Data.List.Basic
import SqlCompiler.Legalize.TargetCopy
import SqlCompiler.Proofs.Modifications.Moves
import SqlCompiler.Proofs.Rendering.Occurrences
import SqlCompiler.Render.Page

/-!
# References of modifications

A reference of a statement is looked up in the queries around the place where it stands, the
innermost one first: a field in the query that has its table as a source, a column in the query that
it belongs to or in one that has this query as a source.

Which updates and deletes refer to nothing that is not there, and keep what they write and hand back
to single fields of their target.  When such a statement is moved to a copy of the target, the scopes
of its parts go on below the query over the copy.

Main results:

- Definition `Store.Resolves`: a reference is found in some scopes.
- Definition `Store.Stands`: what stands at some place of a statement, and in which scopes.
- Theorem `Frame.tableQualifier_isOk`, `Frame.columnPlace_isOk`: references that resolve are the ones
  that can be printed, once the sources have aliases.
- Theorem `Scalar.walk_renamed`: the parts of an expression with renamed fields.
- Definition `Store.Grounded`, `Store.KeepsToRow`, `Store.OwnSource`: the statements that are moved.
- Definition `Store.Carried`: scopes in which everything is found that was found in others.
- Theorem `Store.Moved.standsBelow_filter`, `Store.Moved.standsBelow_selected`: what the queries below
  the one over the copy hold.
-/

namespace SqlCompiler

/-- The rows that a data modification writes, old or new, which are in view in its clauses. -/
def TableKind.isPseudo : TableKind → Bool
  | .inserted | .deleted => true
  | _ => false

/-- What a value that is handed back reads, and the columns without names. -/
def OutputClause.parts (o : OutputClause) : List Scalar :=
  o.items.flatMap (fun item => (item.value.getD item.target).walk) ++ walkScalars o.columns

/-- The scalars of a statement that stand outside its query. -/
def StatementBody.parts : StatementBody → List Scalar
  | .update u output =>
    targetsOf u.items ++ walkAssignments u.items ++ (output.map OutputClause.parts).getD []
  | .delete _ top output =>
    (top.map Scalar.walk).getD [] ++ (output.map OutputClause.parts).getD []
  | body => body.targets ++ body.walk

namespace Store

variable (s : Store)

/-! ## Resolution -/

/-- Whether a query has an item as one of its sources. -/
def Reads (q : QueryRef) (item : SourceItem) : Prop :=
  ∃ x ∈ (s.query q).allSources, x.item = item

/-- Whether a table is in view in some scopes. -/
def Shows (scopes : List QueryRef) (t : TableRef) : Prop :=
  (s.table t).kind.isPseudo = true ∨ ∃ q ∈ scopes, s.Reads q (.table t)

/-- Whether what a part of an expression refers to is found in some scopes. -/
def Resolves (scopes : List QueryRef) : Scalar → Prop
  | .field f => s.Shows scopes (s.field f).table
  | .allFields t | .tableSource t => s.Shows scopes t
  | .column c => ∃ q ∈ scopes, q = (s.column c).parent ∨ s.Reads q (.query (s.column c).parent)
  | _ => True

/-- Whether a column is found in the query that it belongs to, and so stands for its expression. -/
def IsHere (c : ColumnRef) : List QueryRef → Prop
  | [] => False
  | q :: outer => ¬s.Reads q (.query (s.column c).parent) ∧
      (q = (s.column c).parent ∨ IsHere c outer)

/-! ## Places -/

/-- The scalars of a source that is no query: the arguments of a text, or rows written in place. -/
def itemParts : SourceItem → List Scalar
  | .table t => (s.table t).kind.walk
  | .query _ => []

/-- The scalars that stand in a query, but for the queries that it reads or is combined with. -/
def clauses (q : QueryRef) : List Scalar :=
  (s.query q).columns.flatMap (fun c => (s.column c).expression.walk) ++
    ((s.query q).take.map Scalar.walk).getD [] ++
    ((s.query q).skip.map Scalar.walk).getD [] ++
    ((s.query q).sources.flatMap joinConditions).flatMap Condition.walk ++
    (s.query q).allSources.flatMap (fun x => s.itemParts x.item) ++
    (s.query q).whereClause.walk ++
    walkScalars (s.query q).grouping.items ++
    (s.query q).having.walk ++
    (s.query q).orderBy.flatMap fun item => item.expression.walk

/-- What stands at some place of a statement, and the queries around it, the innermost one first and
those around the statement last.  A query stands where it is opened; that of the statement itself is
open from the start. -/
inductive Stands (t : StatementRef) (around : List QueryRef) : List QueryRef → Scalar → Prop where
  | cte {c : CteRef} (hc : c ∈ (s.statement t).ctes) : Stands t around around (.query (s.cte c).body)
  | body {p : Scalar} (hp : p ∈ (s.statement t).body.parts) :
    Stands t around ((s.statement t).query :: around) p
  | rootSource {r : QueryRef} (hr : s.Reads (s.statement t).query (.query r)) :
    Stands t around ((s.statement t).query :: around) (.query r)
  | rootBranch {operator : SetOperator}
      (hoperator : operator ∈ (s.query (s.statement t).query).setOperators) :
    Stands t around around (.query operator.query)
  | rootClause {p : Scalar} (hp : p ∈ s.clauses (s.statement t).query) :
    Stands t around ((s.statement t).query :: around) p
  | source {scopes : List QueryRef} {q r : QueryRef} (h : Stands t around scopes (.query q))
      (hr : s.Reads q (.query r)) : Stands t around (q :: scopes) (.query r)
  | branch {scopes : List QueryRef} {q : QueryRef} {operator : SetOperator}
      (h : Stands t around scopes (.query q)) (hoperator : operator ∈ (s.query q).setOperators) :
    Stands t around scopes (.query operator.query)
  | clause {scopes : List QueryRef} {q : QueryRef} {p : Scalar}
      (h : Stands t around scopes (.query q)) (hp : p ∈ s.clauses q) : Stands t around (q :: scopes) p
  | column {scopes : List QueryRef} {c : ColumnRef} {p : Scalar}
      (h : Stands t around scopes (.column c)) (hc : s.IsHere c scopes)
      (hp : p ∈ (s.column c).expression.walk) : Stands t around scopes p

end Store

/-! ## Printing -/

namespace Frame

variable {f : Frame}

/-- Whether every source in view has an alias, or is a table that is known by its name. -/
def Aliased (f : Frame) : Prop :=
  ∀ q ∈ f.scopes, ∀ x ∈ (f.store.query q).allSources,
    (writtenAlias? x.aliasName).isSome = true ∨
      x.aliasName = some unaliased ∧ ∀ r, x.item ≠ .query r

theorem reads_iff {s : Store} {q : QueryRef} {item : SourceItem} :
    s.Reads q item ↔ ((s.query q).allSources.find? (·.item == item)).isSome = true := by
  simp [Store.Reads, List.find?_isSome]

theorem findSource?_isSome (item : SourceItem) :
    (f.findSource? item).isSome = true ↔ ∃ q ∈ f.scopes, f.store.Reads q item := by
  simp [findSource?, List.findSome?_isSome_iff, Store.Reads, List.find?_isSome]

/-- A table is found if it is in view. -/
theorem tableQualifier_isOk (h : f.Aliased) (t : TableRef) :
    (∃ name, f.tableQualifier t = .ok name) ↔ f.store.Shows f.scopes t := by
  have hfound := f.findSource?_isSome (.table t)
  unfold Store.Shows tableQualifier
  rw [← hfound]
  dsimp only
  split
  · next hkind => simp [hkind, TableKind.isPseudo]
  · next hkind => simp [hkind, TableKind.isPseudo]
  · next hinserted hdeleted =>
    have hpseudo : (f.store.table t).kind.isPseudo = false := by
      cases hkind : (f.store.table t).kind with
      | inserted => exact absurd hkind hinserted
      | deleted => exact absurd hkind hdeleted
      | _ => rfl
    cases hsource : f.findSource? (.table t) with
    | none => simp [hpseudo]
    | some source =>
      have hnamed : source.aliasName = some unaliased ∨
          (writtenAlias? source.aliasName).isSome = true := by
        obtain ⟨q, hq, hfind⟩ := List.exists_of_findSome?_eq_some hsource
        exact (h q hq source (List.mem_of_find?_eq_some hfind)).symm.imp_left And.left
      rcases hnamed with hname | hname
      · simp [hname]
      · obtain ⟨name, hname⟩ := Option.isSome_iff_exists.mp hname
        by_cases hunaliased : source.aliasName = some unaliased
        · simp [hunaliased]
        · simp [hunaliased, hname]

/-- A column is found if it resolves. -/
theorem columnPlace_isOk (h : f.Aliased) (c : ColumnRef) :
    (∃ place, f.columnPlace c = .ok place) ↔ f.store.Resolves f.scopes (.column c) := by
  unfold Aliased at h
  change (∃ place, f.columnPlaceIn (f.store.column c) f.scopes = .ok place) ↔
    ∃ q ∈ f.scopes, q = (f.store.column c).parent ∨
      f.store.Reads q (.query (f.store.column c).parent)
  generalize f.scopes = scopes at h
  induction scopes with
  | nil => simp [columnPlaceIn]
  | cons q outer ih =>
    have houter := ih fun r hr => h r (List.mem_cons_of_mem _ hr)
    rw [columnPlaceIn, List.exists_mem_cons_iff, ← houter, reads_iff]
    cases hfind : (f.store.query q).allSources.find?
        (·.item == .query (f.store.column c).parent) with
    | some source =>
      have hitem : source.item = .query (f.store.column c).parent := by
        simpa using List.find?_some hfind
      have hnamed : (writtenAlias? source.aliasName).isSome = true :=
        (h q List.mem_cons_self source (List.mem_of_find?_eq_some hfind)).resolve_right
          fun hname => hname.2 _ hitem
      obtain ⟨name, hname⟩ := Option.isSome_iff_exists.mp hnamed
      simp [hname]
    | none =>
      by_cases hself : q = (f.store.column c).parent
      · simp [hself]
      · simp [hself]

end Frame

/-! ## Renamed references -/

section

variable {mapping : List (FieldRef × FieldRef)}

mutual

/-- The parts of an expression with renamed fields are its own parts with renamed fields. -/
theorem Scalar.walk_renamed (e : Scalar) :
    ((fieldRenaming mapping).scalar e).walk = e.walk.map (fieldRenaming mapping).scalar := by
  cases e with
  | function call => exact congrArg (List.cons _) (Call.walk_renamed call)
  | binary l op r type =>
    have hl := Scalar.walk_renamed l
    have hr := Scalar.walk_renamed r
    refine congrArg (List.cons _) ?_
    rw [hl, hr, ← List.map_append]
  | raw format args type precedence => exact congrArg (List.cons _) (walkScalars_renamed args)
  | convert target source e keep => exact congrArg (List.cons _) (Scalar.walk_renamed e)
  | condition c => exact congrArg (List.cons _) (Condition.walk_renamed c)
  | row items => exact congrArg (List.cons _) (walkScalars_renamed items)
  | _ => rfl
termination_by structural e

theorem walkScalars_renamed (items : List Scalar) :
    walkScalars ((fieldRenaming mapping).scalars items) =
      (walkScalars items).map (fieldRenaming mapping).scalar := by
  cases items with
  | nil => rfl
  | cons e rest =>
    rw [Transformer.scalars, walkScalars, walkScalars, Scalar.walk_renamed e,
      walkScalars_renamed rest, List.map_append]
termination_by structural items

theorem Call.walk_renamed (c : Call) :
    ((fieldRenaming mapping).call c).walk = c.walk.map (fieldRenaming mapping).scalar := by
  cases c with
  | mk name args type isAggregate keep => exact walkScalars_renamed args
termination_by structural c

theorem Predicate.walk_renamed (p : Predicate) :
    ((fieldRenaming mapping).predicate p).walk = p.walk.map (fieldRenaming mapping).scalar := by
  cases p with
  | compare l op r withNull =>
    have hl := Scalar.walk_renamed l
    have hr := Scalar.walk_renamed r
    change _ ++ _ = List.map _ (_ ++ _)
    rw [hl, hr, List.map_append]
  | isDistinct l r negated =>
    have hl := Scalar.walk_renamed l
    have hr := Scalar.walk_renamed r
    change _ ++ _ = List.map _ (_ ++ _)
    rw [hl, hr, List.map_append]
  | like e pattern escape negated =>
    have he := Scalar.walk_renamed e
    have hpattern := Scalar.walk_renamed pattern
    cases escape with
    | none =>
      change _ ++ _ = List.map _ (_ ++ _)
      rw [he, hpattern, List.map_append]
    | some escape =>
      change _ ++ _ ++ _ = List.map _ (_ ++ _ ++ _)
      rw [he, hpattern, Scalar.walk_renamed escape, List.map_append, List.map_append]
  | search e kind pattern caseSensitive negated =>
    have he := Scalar.walk_renamed e
    have hpattern := Scalar.walk_renamed pattern
    change _ ++ _ = List.map _ (_ ++ _)
    rw [he, hpattern, List.map_append]
  | between e low high negated =>
    have he := Scalar.walk_renamed e
    have hlow := Scalar.walk_renamed low
    have hhigh := Scalar.walk_renamed high
    change _ ++ _ ++ _ = List.map _ (_ ++ _ ++ _)
    rw [he, hlow, hhigh, List.map_append, List.map_append]
  | isNull e negated => exact Scalar.walk_renamed e
  | inQuery e q negated =>
    have he := Scalar.walk_renamed e
    change _ ++ [_] = List.map _ (_ ++ [_])
    rw [he, List.map_append]
    rfl
  | inList e items negated withNull =>
    have he := Scalar.walk_renamed e
    have hitems := walkScalars_renamed items
    change _ ++ _ = List.map _ (_ ++ _)
    rw [he, hitems, List.map_append]
  | functionLike call => exact Call.walk_renamed call
  | notScalar e negated precedence => exact Scalar.walk_renamed e
  | scalar e precedence => exact Scalar.walk_renamed e
  | nested c => exact Condition.walk_renamed c
termination_by structural p

theorem Branch.walk_renamed (b : Branch) :
    ((fieldRenaming mapping).branch b).walk = b.walk.map (fieldRenaming mapping).scalar := by
  cases b with
  | mk negated predicate joinsOr => exact Predicate.walk_renamed predicate
termination_by structural b

theorem walkBranches_renamed (items : List Branch) :
    walkBranches ((fieldRenaming mapping).branches items) =
      (walkBranches items).map (fieldRenaming mapping).scalar := by
  cases items with
  | nil => rfl
  | cons b rest =>
    rw [Transformer.branches, walkBranches, walkBranches, Branch.walk_renamed b,
      walkBranches_renamed rest, List.map_append]
termination_by structural items

theorem Condition.walk_renamed (c : Condition) :
    ((fieldRenaming mapping).condition c).walk = c.walk.map (fieldRenaming mapping).scalar := by
  cases c with
  | mk branches => exact walkBranches_renamed branches
termination_by structural c

end

/-- The values that are handed back are renamed. -/
theorem OutputClause.parts_renamed {o : OutputClause}
    (hvalues : ∀ item ∈ o.items, item.value.isSome = true) :
    ((fieldRenaming mapping).output o).parts = o.parts.map (fieldRenaming mapping).scalar := by
  rw [OutputClause.parts, OutputClause.parts, Transformer.output, Transformer.assignments,
    List.flatMap_map, List.map_append, List.map_flatMap]
  congr 1
  · apply List.flatMap_congr
    intro item hitem
    obtain ⟨e, he⟩ := Option.isSome_iff_exists.mp (hvalues item hitem)
    rw [he]
    exact Scalar.walk_renamed e
  · exact walkScalars_renamed o.columns

end

/-! ## Well formed statements -/

/-- A reference to a field, a table, a column or a query. -/
def Scalar.isReference : Scalar → Bool
  | .field _ | .allFields _ | .tableSource _ | .column _ | .query _ => true
  | _ => false

namespace Store

/-- Whether a query is open somewhere in a statement. -/
def IsOpen (s : Store) (t : StatementRef) (around : List QueryRef) (q : QueryRef) : Prop :=
  q = (s.statement t).query ∨ ∃ scopes, s.Stands t around scopes (.query q)

/-- Whether a statement refers to nothing that is not there, and opens its query only once. -/
structure Grounded (s : Store) (t : StatementRef) (around : List QueryRef) : Prop where
  statement : t.index < s.statements.size
  query : (s.statement t).query.index < s.queries.size
  outside : ∀ r ∈ around, r.index < s.queries.size ∧ r ≠ (s.statement t).query
  parts : ∀ scopes p, s.Stands t around scopes p → s.Knows (s.statement t).query p
  tables : ∀ r, s.IsOpen t around r → ∀ table, s.Reads r (.table table) →
    table.index < s.tables.size
  columns : ∀ r, s.IsOpen t around r → ∀ c ∈ (s.query r).columns, c.index < s.columns.size
  parents : ∀ scopes c, s.Stands t around scopes (.column c) →
    (s.column c).parent.index < s.queries.size ∧ (s.column c).parent ≠ (s.statement t).query

/-- Whether a part of an expression reads a row that is in view without any scope but the target's:
single fields of the target, or rows that the modification writes. -/
def ReadsRow (s : Store) (target : TableRef) : Scalar → Prop
  | .field f => (s.field f).table = target ∨ (s.table (s.field f).table).kind.isPseudo = true
  | .allFields t | .tableSource t => (s.table t).kind.isPseudo = true
  | .column _ | .query _ => False
  | _ => True

/-- Whether a part of an expression refers to a table instance. -/
def SpeaksOf (s : Store) (target : TableRef) : Scalar → Prop
  | .field f => (s.field f).table = target
  | .allFields t | .tableSource t => t = target
  | _ => False

/-- Whether what an update or a delete writes, and what it hands back, reads rows of its target by
single fields.  The values of an update that read anything else are left out. -/
structure KeepsToRow (s : Store) (t : StatementRef) (target : TableRef) : Prop where
  top : ∀ table top output, (s.statement t).body = .delete table (some top) output →
    ∀ p ∈ top.walk, p.isReference = false
  output : ∀ o, (s.statement t).body.output? = some o →
    (∀ item ∈ o.items, item.value.isSome = true) ∧ ∀ p ∈ o.parts, s.ReadsRow target p
  targets : ∀ item ∈ (s.statement t).body.assigned, ∀ p ∈ item.target.walk, s.ReadsRow target p
  values : ∀ item ∈ (s.statement t).body.assigned, ∀ e, item.value = some e →
    s.readsOther target e = false → e.anyPart Scalar.isWholeRow = false

/-- Whether a table is a source of a query and of no other one, and holds its own rows. -/
structure OwnSource (s : Store) (q : QueryRef) (target : TableRef) : Prop where
  listed : s.Reads q (.table target)
  alone : ∀ r, s.Reads r (.table target) → r = q
  parts : (s.table target).kind.walk = []
  stored : (s.table target).kind.isPseudo = false

/-! ## Scopes that go on -/

/-- Whether everything that is found in some scopes is found in others, after the query of a statement
has been put below a new one. -/
structure Carried (s s' : Store) (q : QueryRef) (scopes scopes' : List QueryRef) : Prop where
  reads : ∀ item, (∃ r ∈ scopes, s.Reads r item) → ∃ r ∈ scopes', s'.Reads r item
  mem : ∀ r ∈ scopes, r ≠ q → r ∈ scopes'
  here : ∀ c : ColumnRef, c.index < s.columns.size → (s.column c).parent.index < s.queries.size →
    (s.column c).parent ≠ q → s'.IsHere c scopes' → s.IsHere c scopes
  moved : q ∈ scopes → ∃ r ∈ scopes', r = q ∨ s.queries.size < r.index

variable {s s' : Store} {q r : QueryRef} {scopes scopes' : List QueryRef}

theorem KeepsAllBut.reads_iff (h : s.KeepsAllBut q s') (hr : r.index < s.queries.size) (hne : r ≠ q)
    (item : SourceItem) : s'.Reads r item ↔ s.Reads r item := by
  unfold Reads
  rw [h.query r hr hne]

namespace Carried

/-- The scopes around a statement stay. -/
theorem refl (h : s.KeepsAllBut q s')
    (hscopes : ∀ r ∈ scopes, r.index < s.queries.size ∧ r ≠ q) : s.Carried s' q scopes scopes where
  reads item := by
    rintro ⟨r, hr, hreads⟩
    exact ⟨r, hr, (h.reads_iff (hscopes r hr).1 (hscopes r hr).2 item).mpr hreads⟩
  mem r hr _ := hr
  here c hc hparent hne := by
    have hcolumn := h.column c hc
    induction scopes with
    | nil => exact id
    | cons r outer ih =>
      have hr := hscopes r List.mem_cons_self
      have houter := ih fun r hr => hscopes r (List.mem_cons_of_mem _ hr)
      rw [IsHere, IsHere, hcolumn, h.reads_iff hr.1 hr.2]
      exact And.imp_right (Or.imp_right houter)
  moved hq := absurd rfl (hscopes q hq).2

/-- A query that stays is entered on both sides. -/
theorem cons (h : s.KeepsAllBut q s') (hcarried : s.Carried s' q scopes scopes')
    (hr : r.index < s.queries.size) (hne : r ≠ q) :
    s.Carried s' q (r :: scopes) (r :: scopes') where
  reads item := by
    rintro ⟨x, hx, hreads⟩
    rcases List.mem_cons.mp hx with rfl | hx
    · exact ⟨x, List.mem_cons_self, (h.reads_iff hr hne item).mpr hreads⟩
    · obtain ⟨y, hy, hyreads⟩ := hcarried.reads item ⟨x, hx, hreads⟩
      exact ⟨y, List.mem_cons_of_mem _ hy, hyreads⟩
  mem x hx hxq := by
    rcases List.mem_cons.mp hx with rfl | hx
    · exact List.mem_cons_self
    · exact List.mem_cons_of_mem _ (hcarried.mem x hx hxq)
  here c hc hparent hparentq := by
    rw [IsHere, IsHere, h.column c hc, h.reads_iff hr hne]
    exact And.imp_right (Or.imp_right (hcarried.here c hc hparent hparentq))
  moved hq := by
    obtain ⟨x, hx, hmoved⟩ := hcarried.moved
      ((List.mem_cons.mp hq).resolve_left fun heq => hne heq.symm)
    exact ⟨x, List.mem_cons_of_mem _ hx, hmoved⟩

/-- A new query is entered on one side. -/
theorem enter (hkeeps : s.KeepsAllBut q s') (hcarried : s.Carried s' q scopes scopes')
    (hr : s.queries.size ≤ r.index) : s.Carried s' q scopes (r :: scopes') where
  reads item hreads := by
    obtain ⟨y, hy, hyreads⟩ := hcarried.reads item hreads
    exact ⟨y, List.mem_cons_of_mem _ hy, hyreads⟩
  mem x hx hxq := List.mem_cons_of_mem _ (hcarried.mem x hx hxq)
  here c hc hparent hparentq := by
    rw [IsHere, hkeeps.column c hc]
    rintro ⟨-, rfl | hhere⟩
    · omega
    · exact hcarried.here c hc hparent hparentq hhere
  moved hq := by
    obtain ⟨x, hx, hmoved⟩ := hcarried.moved hq
    exact ⟨x, List.mem_cons_of_mem _ hx, hmoved⟩

/-- The query of a statement is entered, and on the other side itself or a new one that reads the
same. -/
theorem replace (hkeeps : s.KeepsAllBut q s') (hcarried : s.Carried s' q scopes scopes')
    (hr : r = q ∨ s.queries.size < r.index) (hsame : ∀ item, s'.Reads r item ↔ s.Reads q item) :
    s.Carried s' q (q :: scopes) (r :: scopes') where
  reads item := by
    rintro ⟨x, hx, hreads⟩
    rcases List.mem_cons.mp hx with rfl | hx
    · exact ⟨r, List.mem_cons_self, (hsame item).mpr hreads⟩
    · obtain ⟨y, hy, hyreads⟩ := hcarried.reads item ⟨x, hx, hreads⟩
      exact ⟨y, List.mem_cons_of_mem _ hy, hyreads⟩
  mem x hx hxq :=
    List.mem_cons_of_mem _ (hcarried.mem x ((List.mem_cons.mp hx).resolve_left hxq) hxq)
  here c hc hparent hparentq := by
    have hne : r ≠ (s.column c).parent := by
      rintro rfl
      rcases hr with hr | hr
      · exact hparentq hr
      · omega
    rw [IsHere, IsHere, hkeeps.column c hc, hsame]
    rintro ⟨hreads, hhere⟩
    exact ⟨hreads, .inr (hcarried.here c hc hparent hparentq (hhere.resolve_left hne))⟩
  moved _ := ⟨r, List.mem_cons_self, hr⟩

end Carried

/-! ## What stands in a modification -/

section

variable {t : StatementRef} {target : TableRef} {around : List QueryRef} {p : Scalar}

theorem mem_clauses_joins {c : Condition} (hc : c ∈ (s.query q).sources.flatMap joinConditions)
    (hp : p ∈ c.walk) : p ∈ s.clauses q := by
  have hjoins := List.mem_flatMap_of_mem hc hp
  simp only [clauses, List.mem_append]
  tauto

theorem mem_clauses_where (hp : p ∈ (s.query q).whereClause.walk) : p ∈ s.clauses q := by
  simp only [clauses, List.mem_append]
  tauto

theorem mem_parts_value {body : StatementBody} {item : Assignment} {e : Scalar}
    (hitem : item ∈ body.assigned) (he : item.value = some e) (hp : p ∈ e.walk) :
    p ∈ body.parts := by
  cases body with
  | update u output =>
    have hassigned : p ∈ walkAssignments u.items :=
      List.mem_flatMap.mpr ⟨item, hitem, by rw [he]; exact hp⟩
    exact List.mem_append_left _ (List.mem_append_right _ hassigned)
  | _ => cases hitem

theorem mem_parts_target {body : StatementBody} {item : Assignment}
    (hitem : item ∈ body.assigned) (hp : p ∈ item.target.walk) : p ∈ body.parts := by
  cases body with
  | update u output =>
    have htargets : p ∈ targetsOf u.items := List.mem_flatMap.mpr ⟨item, hitem, hp⟩
    exact List.mem_append_left _ (List.mem_append_left _ htargets)
  | _ => cases hitem

/-- A value that reads nothing but single fields of the target. -/
theorem readsRow_of_own {e : Scalar} (hreads : s.readsOther target e = false)
    (hrows : e.anyPart Scalar.isWholeRow = false) (hp : p ∈ e.walk) : s.ReadsRow target p := by
  have hother := List.any_eq_false.mp hreads p hp
  have hwhole := List.any_eq_false.mp hrows p hp
  cases p with
  | field f => exact .inl (by simpa using hother)
  | allFields table => exact absurd rfl hwhole
  | tableSource table => exact absurd rfl hwhole
  | column c => exact absurd rfl hother
  | query r => exact absurd rfl hother
  | _ => trivial

/-- A statement that refers to nothing that is not there is one that can be moved. -/
theorem Grounded.knowsModification (h : s.Grounded t around) : s.KnowsModification t where
  statement := h.statement
  query := h.query
  sources x hx := by
    cases hitem : x.item with
    | table table => exact h.tables _ (.inl rfl) table ⟨x, hx, hitem⟩
    | query r => exact h.parts _ _ (.rootSource ⟨x, hx, hitem⟩)
  joins c hc p hp := h.parts _ _ (.rootClause (mem_clauses_joins hc hp))
  whereClause p hp := h.parts _ _ (.rootClause (mem_clauses_where hp))
  values item hitem e he p hp := h.parts _ _ (.body (mem_parts_value hitem he hp))
  targets item hitem p hp := h.parts _ _ (.body (mem_parts_target hitem hp))

/-- What a condition holds that grows along a list comes from one of the items. -/
theorem exists_of_mem_walk_foldl {α : Type} {P : α → Prop} {add : Condition → α → Condition}
    (hadd : ∀ c a, p ∈ (add c a).walk → p ∈ c.walk ∨ P a) (items : List α) (c : Condition)
    (hp : p ∈ (items.foldl add c).walk) : p ∈ c.walk ∨ ∃ a ∈ items, P a := by
  induction items generalizing c with
  | nil => exact .inl hp
  | cons a rest ih =>
    rcases ih (add c a) hp with hfirst | ⟨b, hb, hP⟩
    · exact (hadd c a hfirst).imp_right fun hP => ⟨a, List.mem_cons_self, hP⟩
    · exact .inr ⟨b, List.mem_cons_of_mem _ hb, hP⟩

/-- The key of a copy is compared by fields of the target and their counterparts. -/
theorem mem_walk_keyEqualities {mapping : List (FieldRef × FieldRef)} {keys : List FieldRef}
    (hp : p ∈ (keyEqualities mapping keys).walk) :
    ∃ k ∈ keys, p = .field k ∨ ∃ k', paired mapping k = some k' ∧ p = .field k' := by
  apply (exists_of_mem_walk_foldl ?_ keys .empty hp).resolve_left List.not_mem_nil
  intro c k hp
  split at hp
  · next k' hpaired =>
    rcases Condition.mem_walk_conjoin.mp hp with hc | hkey
    · exact .inl hc
    · rcases List.mem_cons.mp hkey with rfl | hkey
      · exact .inr (.inl rfl)
      · exact .inr (.inr ⟨k', hpaired, List.mem_singleton.mp hkey⟩)
  · exact .inl hp

end

/-! ## Queries below the copy -/

section

variable {t : StatementRef} {target : TableRef} {around : List QueryRef}

/-- A query below the one over the copy: the old query of the statement, or a new one that selects a
value over the same sources.  It holds what stood in the statement, and the key of the copy. -/
structure StandsBelow (s s' : Store) (t : StatementRef) (target : TableRef)
    (around : List QueryRef) (r : QueryRef) : Prop where
  moved : r = (s.statement t).query ∨ s.queries.size < r.index
  reads : ∀ item, s'.Reads r item ↔ s.Reads (s.statement t).query item
  operators : (s'.query r).setOperators ⊆ (s.query (s.statement t).query).setOperators
  clauses : ∀ p ∈ s'.clauses r, s.Stands t around ((s.statement t).query :: around) p ∨
    ∃ k ∈ (s.table target).fields, p = .field k ∨
      ∃ k', s.Copied s' ⟨s.tables.size⟩ k k' ∧ p = .field k'

variable (hmoved : s.Moved t target s') (hgrounded : s.Grounded t around)
include hmoved hgrounded

theorem Moved.itemParts_eq {x : Source} (hx : x ∈ (s.query (s.statement t).query).allSources) :
    s'.itemParts x.item = s.itemParts x.item := by
  cases hitem : x.item with
  | table table =>
    have htable := hgrounded.tables _ (.inl rfl) table ⟨x, hx, hitem⟩
    rw [itemParts, itemParts, hmoved.keeps.table table htable]
  | query r => rfl

omit hgrounded in
theorem Moved.mem_key {p : Scalar}
    (hp : p ∈ (s.rebase (s.statement t).query target).1.keyCondition.walk) :
    ∃ k ∈ (s.table target).fields, p = .field k ∨
      ∃ k', s.Copied s' ⟨s.tables.size⟩ k k' ∧ p = .field k' := by
  rw [keyCondition_rebase] at hp
  obtain ⟨k, hk, hp⟩ := mem_walk_keyEqualities hp
  have hfield := targetKeys_subset hk
  refine ⟨k, hfield, hp.imp_right ?_⟩
  rintro ⟨k', hpaired, hp⟩
  obtain ⟨found, hfound, hcopied⟩ := hmoved.copied k hfield
  rw [hpaired] at hfound
  cases hfound
  exact ⟨k', hcopied, hp⟩

/-- The old query of the statement. -/
theorem Moved.standsBelow_filter : s.StandsBelow s' t target around (s.statement t).query where
  moved := .inl rfl
  reads item := by
    unfold Reads
    rw [hmoved.filter]
    exact Iff.rfl
  operators := by
    rw [hmoved.filter]
    exact List.Subset.refl _
  clauses p hp := by
    have hitems : (s.query (s.statement t).query).allSources.flatMap
        (fun x => s'.itemParts x.item) = (s.query (s.statement t).query).allSources.flatMap
        (fun x => s.itemParts x.item) :=
      List.flatMap_congr fun x hx => hmoved.itemParts_eq hgrounded hx
    have hsplit : p ∈ s.clauses (s.statement t).query ∨
        p ∈ (s.rebase (s.statement t).query target).1.keyCondition.walk := by
      rw [Store.clauses, hmoved.filter] at hp
      rw [Store.clauses]
      simp only [Query.allSources, List.flatMap_nil, List.nil_append, List.mem_append,
        Condition.mem_walk_conjoinAll] at hitems hp ⊢
      rw [hitems] at hp
      grind
    exact hsplit.imp .rootClause (hmoved.mem_key)

/-- A new query that selects a value. -/
theorem Moved.standsBelow_selected {sub : QueryRef} {e : Scalar}
    (hfresh : s.queries.size ≤ sub.index)
    (hselects : s'.SelectsValue (s'.query (s.statement t).query)
      (s.rebase (s.statement t).query target).1 sub e)
    (he : ∀ p ∈ e.walk, s.Stands t around ((s.statement t).query :: around) p) :
    s.StandsBelow s' t target around sub := by
  have hfilter := hmoved.standsBelow_filter hgrounded
  obtain ⟨-, c, -, hcolumn, hquery⟩ := hselects
  have hne : sub ≠ ⟨s.queries.size⟩ := by
    rintro rfl
    rw [hmoved.outer] at hquery
    cases congrArg Query.columns hquery
  constructor
  · have hindex : sub.index ≠ s.queries.size := fun heq => hne (congrArg QueryRef.mk heq)
    exact .inr (by omega)
  · intro item
    rw [← hfilter.reads item]
    unfold Reads
    rw [hquery]
    exact Iff.rfl
  · rw [hquery]
    exact List.nil_subset _
  · intro p hp
    have hsplit : p ∈ e.walk ∨ p ∈ s'.clauses (s.statement t).query ∨
        p ∈ (s.rebase (s.statement t).query target).1.keyCondition.walk := by
      rw [Store.clauses, hquery] at hp
      rw [Store.clauses]
      simp only [Query.allSources, List.flatMap_cons, List.flatMap_nil, List.append_nil, hcolumn,
        Option.map_none, Option.getD_none, walkScalars, Condition.mem_walk_empty,
        List.mem_append, or_false] at hp ⊢
      split at hp <;> grind
    rcases hsplit with hp | hp | hp
    · exact .inl (he p hp)
    · exact hfilter.clauses p hp
    · exact .inr (hmoved.mem_key hp)

end

end Store

end SqlCompiler
