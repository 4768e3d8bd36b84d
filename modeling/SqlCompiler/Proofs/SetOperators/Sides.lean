import Mathlib.Data.List.Nodup
import SqlCompiler.Proofs.Columns.Steps
import SqlCompiler.Proofs.Lowering.Pipelines
import SqlCompiler.Proofs.SetOperators.Trees

/-!
# Sides of set operators

A query that selects the scalars of its projection in order has one column for each member.  Whoever
reads the query finds these columns again by their expressions, so it finds the right ones if no two
of the expressions are equal.

A lowered sequence that becomes a side of a set operator selects the members of its projection in
order.  That the queries that are read for it have the form of a tree then lasts: while the other side
is lowered, while the query is read from outside and while it gets a set operator.

Main results:

- Definition `Store.TellsApart`: the expressions of the columns of a query differ.
- Theorem `Lowered.wrap_apart`: each member is read from outside by its column.
- Theorem `LowerM.Gives.selectProjection_apart`: each member of the result is at its position.
- Theorem `LowerM.Gives.materialize_fresh`: a new column for each member.
- Definition `Lowered.Lists`: a query selects the members of its projection, and has the form of a
  tree if the columns of queries with set operators are told apart.
- Theorem `Lowered.Represents.asSide`: a chain as a side.
- Theorem `Lowered.Lists.asSide`: a tree as a side of another set operator.
- Theorem `Lowered.Lists.combine`: two sides combined.
-/

namespace SqlCompiler

variable {ctx : LowerContext} {st : LowerState} {s s' : Store} {q : QueryRef} {p : Projection}
  {E : Scalar → Prop}

/-! ## Columns that are told apart -/

/-- The columns of a query are told apart by their expressions: each one is equal to itself and to
no later one. -/
structure Store.TellsApart (s : Store) (q : QueryRef) : Prop where
  reflexive : ∀ e ∈ s.selected q, e.IsReflexive
  differ : (s.selected q).Pairwise fun a b => (a == b) = false

instance (s : Store) (q : QueryRef) : Decidable (s.TellsApart q) :=
  decidable_of_iff ((∀ e ∈ s.selected q, (e == e) = true) ∧
      (s.selected q).Pairwise fun a b => (a == b) = false)
    ⟨fun ⟨hreflexive, hdiffer⟩ => ⟨hreflexive, hdiffer⟩, fun h => ⟨h.reflexive, h.differ⟩⟩

namespace Store.TellsApart

theorem findColumn? (h : s.TellsApart q) {c : ColumnRef} (hc : c ∈ (s.query q).columns) :
    s.findColumn? q (s.column c).expression = some c :=
  find?_key_eq (fun c => (s.column c).expression)
    (fun _ hc => h.reflexive _ (List.mem_map_of_mem hc)) h.differ hc

theorem nodup (h : s.TellsApart q) : (s.query q).columns.Nodup := by
  refine (List.pairwise_map.mp h.differ).imp_of_mem fun hc _ hdiffer heq => ?_
  rw [← heq, h.reflexive _ (List.mem_map_of_mem hc)] at hdiffer
  cases hdiffer

/-- Fewer columns are told apart if more are. -/
theorem mono (h : s'.TellsApart q) (hselected : s.selected q <+: s'.selected q) :
    s.TellsApart q where
  reflexive e he := h.reflexive e (hselected.subset he)
  differ := h.differ.sublist hselected.sublist

end Store.TellsApart

/-! ## Reading from outside -/

section

variable {f : String → Scalar → LowerM Scalar} {g : Scalar → Scalar}

mutual

/-- Each leaf is replaced by a step that leaves the state alone. -/
theorem Projection.mapLeavesAt_gives (p : Projection) (path : String)
    (h : ∀ leaf ∈ p.leavesAt path, (f leaf.1 leaf.2).Gives ctx st (g leaf.2) st) :
    ∃ p', LowerM.Gives (p.mapLeavesAt f path) ctx st p' st ∧
      p'.leavesAt path = (p.leavesAt path).map fun leaf => (leaf.1, g leaf.2) := by
  cases p with
  | entity name table members =>
    rw [Projection.leavesAt, List.forall_mem_map] at h
    have hsteps : LowerM.Gives (members.mapM fun (name, e) => do
        return (name, ← f (Projection.memberPath path name) e)) ctx st
        (members.map fun m => (m.1, g m.2)) st := by
      refine .mapM (List.forall₂_map_right_iff.mpr (List.forall₂_same.mpr fun m hm => ?_))
      exact (h m hm).bind (.pure (m.1, g m.2))
    refine ⟨_, hsteps.bind (.pure _), ?_⟩
    rw [Projection.leavesAt, Projection.leavesAt, List.map_map, List.map_map]
    rfl
  | record members =>
    obtain ⟨members', hsteps, hleaves⟩ := mapLeavesOfMembers_gives members path h
    exact ⟨_, hsteps.bind (.pure _), hleaves⟩
  | scalar e =>
    have hstep := h (path, e) (List.mem_singleton_self _)
    exact ⟨_, hstep.bind (.pure _), rfl⟩
  | grouping key element =>
    obtain ⟨key', hsteps, hleaves⟩ := Projection.mapLeavesAt_gives key _ h
    exact ⟨_, hsteps.bind (.pure _), hleaves⟩
termination_by structural p

/-- Each leaf of some members is replaced by a step that leaves the state alone. -/
theorem mapLeavesOfMembers_gives (members : List (String × Projection)) (path : String)
    (h : ∀ leaf ∈ Projection.leavesOfMembers path members,
      (f leaf.1 leaf.2).Gives ctx st (g leaf.2) st) :
    ∃ members', LowerM.Gives (Projection.mapLeavesOfMembers f path members) ctx st members' st ∧
      Projection.leavesOfMembers path members' =
        (Projection.leavesOfMembers path members).map fun leaf => (leaf.1, g leaf.2) := by
  cases members with
  | nil => exact ⟨[], .pure _, rfl⟩
  | cons m rest =>
    obtain ⟨name, p⟩ := m
    rw [Projection.leavesOfMembers, List.forall_mem_append] at h
    obtain ⟨p', hstep, hleaves⟩ := Projection.mapLeavesAt_gives p _ h.1
    obtain ⟨rest', hsteps, hrest⟩ := mapLeavesOfMembers_gives rest path h.2
    refine ⟨(name, p') :: rest', hstep.bind (hsteps.bind (.pure _)), ?_⟩
    rw [Projection.leavesOfMembers, Projection.leavesOfMembers, hleaves, hrest, List.map_append]
termination_by structural members

end

end

/-- A scalar that a query selects is read from outside by its column. -/
theorem LowerM.Gives.columnFor_apart (hapart : st.store.TellsApart q) {c : ColumnRef}
    (hc : c ∈ (st.store.query q).columns)
    (hpart : (st.store.column c).expression.IsPart st.store q) (path : String) :
    (LowerM.columnFor q (st.store.column c).expression path).Gives ctx st c st := by
  have hadd : st.store.addColumn q (st.store.column c).expression (Projection.leafAlias path) =
      (c, st.store) := by
    rw [Store.addColumn, hapart.findColumn? hc]
  have hallocate : (LowerM.allocate fun s => s.addColumn q (st.store.column c).expression
      (Projection.leafAlias path)).Gives ctx st c st := allocate_eq hadd
  refine store.bind ?_
  split
  · next d hd =>
    have hbelow := (hpart.column d hd).2
    have hparent : ((st.store.column d).parent == q) = false :=
      beq_eq_false_iff_ne.mpr fun heq => by rw [heq] at hbelow; omega
    rw [hparent]
    exact hallocate
  · exact hallocate

/-- The members of a query whose columns are told apart are read from outside by their columns, in
order. -/
theorem LowerM.Gives.expose_apart {σ : Shape} (ctx : LowerContext) (st : LowerState)
    (hapart : st.store.TellsApart q)
    (hselected : st.store.selected q = p.scalars) (hfits : p.Fits σ)
    (hparts : p.All (Scalar.IsPart st.store q)) :
    ∃ p', (LowerM.expose q p).Gives ctx st p' st ∧
      p'.leaves.map (·.1) = p.leaves.map (·.1) ∧
      p'.scalars = (st.store.query q).columns.map Scalar.column := by
  let g (e : Scalar) : Scalar := .column ((st.store.findColumn? q e).getD default)
  have hg : ∀ c ∈ (st.store.query q).columns, g (st.store.column c).expression = .column c :=
    fun c hc => by simp only [g, hapart.findColumn? hc, Option.getD_some]
  have hleaf : ∀ leaf ∈ p.leavesAt "",
      (LowerM.exposeLeaf q leaf.1 leaf.2).Gives ctx st (g leaf.2) st := by
    intro leaf hleaf
    have hmem : leaf.2 ∈ st.store.selected q := hselected ▸ List.mem_map_of_mem hleaf
    obtain ⟨c, hc, heq⟩ := List.mem_map.mp hmem
    have hpart : (st.store.column c).expression.IsPart st.store q :=
      heq ▸ Projection.all_iff_leaves.mp hparts leaf hleaf
    rw [← heq, hg c hc]
    exact (columnFor_apart hapart hc hpart leaf.1).bind (pure _)
  obtain ⟨p', hgives, hleaves⟩ := p.mapLeavesAt_gives "" hleaf
  refine ⟨p', ?_, ?_, ?_⟩
  · rw [LowerM.expose_eq hfits]
    exact hgives
  · rw [Projection.leaves, hleaves, List.map_map]
    rfl
  · rw [Projection.scalars, Projection.leaves, hleaves, List.map_map]
    have hmap : (p.leavesAt "").map (Prod.snd ∘ fun leaf : String × Scalar => (leaf.1, g leaf.2)) =
        (st.store.selected q).map g := by
      rw [hselected, Projection.scalars, List.map_map]
      rfl
    rw [hmap, Store.selected, List.map_map]
    exact List.map_congr_left hg

/-- A query whose columns are told apart is read from outside by these columns, and gets no other
ones. -/
theorem Lowered.wrap_apart {lowered : Lowered} {σ : Shape} (ctx : LowerContext)
    (hvalid : lowered.query.index < st.store.queries.size)
    (hapart : st.store.TellsApart lowered.query)
    (hselected : st.store.selected lowered.query = lowered.projection.scalars)
    (hfits : lowered.projection.Fits σ)
    (hparts : lowered.projection.All (Scalar.IsPart st.store lowered.query)) :
    ∃ p', (LowerM.wrap lowered).Gives ctx st
        { query := ⟨st.store.queries.size⟩, projection := p', outcome := lowered.outcome }
        { st with
          store := st.store.wrapped lowered.query ⟨st.store.queries.size⟩
            (st.store.query lowered.query).parent } ∧
      p'.leaves.map (·.1) = lowered.projection.leaves.map (·.1) ∧
      p'.scalars = (st.store.query lowered.query).columns.map Scalar.column := by
  let s₁ := st.store.wrapped lowered.query ⟨st.store.queries.size⟩
    (st.store.query lowered.query).parent
  have hcolumns : (s₁.query lowered.query).columns = (st.store.query lowered.query).columns := by
    rw [Store.query_wrapped_inner _ hvalid rfl]
  have hsame : s₁.selected lowered.query = st.store.selected lowered.query := by
    rw [Store.selected, hcolumns]
    rfl
  obtain ⟨p', hexpose, hpaths, hscalars⟩ := LowerM.Gives.expose_apart ctx
    { st with store := s₁ } (hapart.mono (hsame ▸ List.prefix_rfl))
    (hsame.trans hselected) hfits (hparts.imp fun e he => ⟨he.solid, he.column, he.raw⟩)
  refine ⟨p', ?_, hpaths, hscalars.trans (by rw [hcolumns])⟩
  refine LowerM.Gives.store.bind ((LowerM.Gives.allocate _).bind ?_)
  refine (LowerM.Gives.modifyQuery _ _).bind ((LowerM.Gives.modifyQuery _ _).bind ?_)
  exact LowerM.Gives.bind hexpose (LowerM.Gives.pure _)

/-! ## Columns of the result -/

/-- The columns of a result at their positions. -/
def resultColumns (paths : List String) : List ResultColumn :=
  paths.zipIdx.map fun (path, index) => { path, index }

/-- The members of a query whose columns are told apart are selected already, each at its
position. -/
theorem LowerM.Gives.selectProjection_apart (ctx : LowerContext)
    (hapart : st.store.TellsApart q) (hselected : st.store.selected q = p.scalars)
    (hgrouping : p.isGrouping = false) :
    (LowerM.selectProjection q p).Gives ctx st (resultColumns (p.leaves.map (·.1))) st := by
  have hlength : (st.store.query q).columns.length = p.leaves.length := by
    rw [← Store.length_selected, hselected, Projection.scalars, List.length_map]
  have hrefuse : (LowerM.refuseGrouping p).Gives ctx st () st := by
    rw [LowerM.refuseGrouping, hgrouping]
    exact pure ()
  refine hrefuse.bind (mapM (List.forall₂_iff_get.mpr ⟨by simp [resultColumns], fun i hi hi' => ?_⟩))
  have hcolumn : i < (st.store.query q).columns.length := hlength ▸ hi
  let c := (st.store.query q).columns[i]
  have hc : c ∈ (st.store.query q).columns := List.getElem_mem hcolumn
  have hleaf : (st.store.column c).expression = p.leaves[i].2 := by
    have hsame : (st.store.selected q)[i]? = p.scalars[i]? := by rw [hselected]
    simpa [Store.selected, Projection.scalars, List.getElem?_map, hcolumn, hi] using hsame
  have hadd : st.store.addColumn q p.leaves[i].2 (Projection.leafAlias p.leaves[i].1) =
      (c, st.store) := by
    rw [Store.addColumn, ← hleaf, hapart.findColumn? hc]
  have hindex : (st.store.query q).columns.findIdx? (· == c) = some i := by
    refine List.findIdx?_eq_some_iff_getElem.mpr ⟨hcolumn, beq_self_eq_true c, fun j hj => ?_⟩
    intro heq
    have hsame := hapart.nodup.getElem_inj_iff.mp (eq_of_beq heq)
    omega
  have hresult : (resultColumns (p.leaves.map (·.1))).get ⟨i, hi'⟩ =
      { path := p.leaves[i].1
        index := (((st.store.query q).columns.findIdx? (· == c)).getD 0) } := by
    simp [resultColumns, hindex]
  rw [hresult]
  exact (allocate_eq hadd).bind (store.bind (pure _))

/-! ## New columns -/

/-- Every leaf becomes a new column. -/
theorem LowerM.Gives.selectFresh (ctx : LowerContext) (q : QueryRef) :
    ∀ (leaves : List (String × Scalar)) (st : LowerState), q.index < st.store.queries.size →
      (∀ leaf ∈ leaves, E leaf.2) →
      ∃ s', LowerM.Gives (forIn leaves PUnit.unit fun (path, e) _ => do
            let _ ← LowerM.allocate fun s => s.addFreshColumn q e (Projection.leafAlias path)
            return ForInStep.yield PUnit.unit)
          ctx st PUnit.unit { st with store := s' } ∧ st.store.Grows E q s'
  | [], st, _, _ => ⟨st.store, pure _, .refl E q st.store⟩
  | (path, e) :: rest, st, hq, hE => by
    have hgrows := Store.grows_addFreshColumn hq (hE (path, e) List.mem_cons_self)
      (Projection.leafAlias path)
    obtain ⟨s', hrest, hgrows'⟩ := selectFresh ctx q rest
      { st with store := (st.store.addFreshColumn q e (Projection.leafAlias path)).2 }
      (by rw [hgrows.size]; exact hq) fun leaf hleaf => hE leaf (List.mem_cons_of_mem _ hleaf)
    refine ⟨s', ?_, hgrows.trans hgrows'⟩
    rw [List.forIn_cons]
    refine bind ((allocate _).bind (pure (ForInStep.yield PUnit.unit))) ?_
    exact hrest

theorem LowerM.Gives.materialize_nil (ctx : LowerContext) (hleaves : p.leaves = [])
    (hgrouping : p.isGrouping = false) : (LowerM.materialize q p true).Gives ctx st () st := by
  have hrefuse : (LowerM.refuseGrouping p).Gives ctx st () st := by
    rw [LowerM.refuseGrouping, hgrouping]
    exact pure ()
  unfold LowerM.materialize
  rw [hleaves]
  exact hrefuse.bind (pure ())

/-- A query without columns comes to select the scalars of its projection. -/
theorem LowerM.Gives.materialize_fresh (ctx : LowerContext) (st : LowerState)
    (hq : q.index < st.store.queries.size)
    (hnone : (st.store.query q).columns = []) (hgrouping : p.isGrouping = false)
    (hE : ∀ leaf ∈ p.leaves, E leaf.2) :
    ∃ s', (LowerM.materialize q p true).Gives ctx st () { st with store := s' } ∧
      st.store.Grows E q s' ∧ s'.selected q = p.scalars := by
  obtain ⟨s', hselect, hgrows⟩ := selectFresh ctx q p.leaves st hq hE
  have hrefuse : (LowerM.refuseGrouping p).Gives ctx st () st := by
    rw [LowerM.refuseGrouping, hgrouping]
    exact pure ()
  have hgives : (LowerM.materialize q p true).Gives ctx st () { st with store := s' } := by
    unfold LowerM.materialize
    simp only [if_true]
    exact hrefuse.bind (hselect.bind (pure ()))
  have hvalid : ∀ c ∈ (st.store.query q).columns, c.index < st.store.columns.size := by
    rw [hnone]
    exact fun c hc => by cases hc
  have hselected := (LowerM.Triple.materialize_fresh hq hvalid st () _ rfl hgives).2
  refine ⟨s', hgives, hgrows, ?_⟩
  have hempty : st.store.selected q = [] := by rw [Store.selected, hnone, List.map_nil]
  rwa [hempty, List.nil_append] at hselected

/-! ## Paths of projections -/

mutual

/-- A projection of a shape has the paths of the shape. -/
theorem Projection.Fits.paths (p : Projection) {σ : Shape} (h : p.Fits σ) (path : String) :
    (p.leavesAt path).map (·.1) = σ.pathsAt path := by
  cases p with
  | entity name table members =>
    obtain ⟨shapes, rfl, hfits⟩ := h
    rw [Projection.leavesAt, Shape.pathsAt]
    induction hfits with
    | nil => rfl
    | @cons m shape members shapes hm _ ih =>
      obtain ⟨name', σ⟩ := shape
      obtain ⟨rfl, hfit⟩ := hm
      cases σ with
      | value absent =>
        rw [List.map_cons, List.map_cons, ih, pathsOfMembers]
        rfl
      | record shapes' => exact hfit.elim
  | record members =>
    obtain ⟨shapes, rfl, hfits⟩ := h
    exact membersFit_paths members hfits path
  | scalar e =>
    cases σ with
    | value absent => rfl
    | record shapes => exact h.elim
  | grouping key element => exact h.elim
termination_by structural p

/-- The members of a record of a shape have the paths of the shape. -/
theorem membersFit_paths (members : List (String × Projection)) {shapes : List (String × Shape)}
    (h : membersFit members shapes) (path : String) :
    (Projection.leavesOfMembers path members).map (·.1) = pathsOfMembers path shapes := by
  cases members with
  | nil =>
    rw [membersFit_nil] at h
    subst h
    rfl
  | cons m rest =>
    obtain ⟨name, p⟩ := m
    rw [membersFit_cons] at h
    obtain ⟨τ, others, rfl, hp, hrest⟩ := h
    rw [Projection.leavesOfMembers, List.map_append, Projection.Fits.paths p hp,
      membersFit_paths rest hrest, pathsOfMembers]
termination_by structural members

end

namespace Store

variable {s s' s'' : Store} {q r : QueryRef} {lo n : Nat} {E : Scalar → Prop}

/-! ## Stores that grow -/

/-- The queries from a bound on read no query below it. -/
def ReadsAbove (lo : Nat) (s : Store) : Prop :=
  ∀ q r : QueryRef, lo ≤ q.index → r ∈ (s.query q).reads → lo ≤ r.index

theorem readsAbove_size (s : Store) : s.ReadsAbove s.queries.size := by
  intro q r hq hr
  rw [query_of_le hq] at hr
  cases hr

theorem ReadsAbove.keeps (h : s.ReadsAbove lo) (hkeeps : s.KeepsBelow lo s') :
    s'.ReadsAbove lo := fun q r hq hr => (hkeeps.reads q r hr).elim (h q r hq) id

theorem KeepsBelow.sameQuery (h : s.KeepsBelow n s') (hordered : s.Ordered) (hq : q.index < n) :
    s.SameQuery s' q where
  query := ⟨(s.query q).parent, (s.query q).setOperators, by rw [h.query q hq]⟩
  column c hc := h.column c (hordered.column q c hc).1
  table source hsource t ht := by
    have hasTable := hordered.table q source hsource t ht
    exact ⟨h.table t hasTable.table, fun f hf => h.field f (hasTable.field f hf)⟩
  setOperators := by rw [h.query q hq]

theorem Grows.sameQuery (h : s.Grows E r s') (hordered : s.Ordered) (hne : q ≠ r) :
    s.SameQuery s' q where
  query := ⟨(s.query q).parent, (s.query q).setOperators, by rw [h.query q hne]⟩
  column c hc := h.column c (hordered.column q c hc).1
  table source hsource t ht := by
    refine ⟨?_, fun f hf => ?_⟩
    · rw [Store.table, h.tables]
      rfl
    · rw [Store.field, h.fields]
      rfl
  setOperators := by rw [h.query q hne]

theorem SameQuery.trans (h : s.SameQuery s' q) (h' : s'.SameQuery s'' q) : s.SameQuery s'' q where
  query := by
    obtain ⟨parent, setOperators, hquery⟩ := h.query
    obtain ⟨parent', setOperators', hquery'⟩ := h'.query
    exact ⟨parent', setOperators', by rw [hquery', hquery]⟩
  column c hc := (h'.column c (h.columns ▸ hc)).trans (h.column c hc)
  table source hsource t ht := by
    obtain ⟨htable, hfields⟩ := h.table source hsource t ht
    obtain ⟨htable', hfields'⟩ := h'.table source (h.sources ▸ hsource) t ht
    exact ⟨htable'.trans htable, fun f hf =>
      (hfields' f (htable ▸ hf)).trans (hfields f hf)⟩
  setOperators := h'.setOperators.trans h.setOperators

/-! ## Queries with set operators -/

/-- The columns of every query with set operators are told apart. -/
def MembersApart (s : Store) : Prop :=
  ∀ q : QueryRef, (s.query q).setOperators ≠ [] → s.TellsApart q

/-- The queries with set operators stay so, and still select what they select. -/
def KeepsMembers (s s' : Store) : Prop :=
  ∀ q : QueryRef, (s.query q).setOperators ≠ [] →
    (s'.query q).setOperators ≠ [] ∧ s.selected q <+: s'.selected q

theorem KeepsMembers.trans (h : s.KeepsMembers s') (h' : s'.KeepsMembers s'') :
    s.KeepsMembers s'' := fun q hq =>
  ⟨(h' q (h q hq).1).1, (h q hq).2.trans (h' q (h q hq).1).2⟩

theorem KeepsMembers.membersApart (h : s.KeepsMembers s') (hapart : s'.MembersApart) :
    s.MembersApart := fun q hq => (hapart q (h q hq).1).mono (h q hq).2

/-- Only queries that are there have set operators. -/
theorem index_lt_of_setOperators (h : (s.query q).setOperators ≠ []) :
    q.index < s.queries.size := by
  by_contra hsize
  rw [query_of_le (Nat.le_of_not_lt hsize)] at h
  exact h rfl

instance (s : Store) : Decidable s.MembersApart :=
  decidable_of_iff (∀ i < s.queries.size, (s.query ⟨i⟩).setOperators ≠ [] → s.TellsApart ⟨i⟩)
    ⟨fun h q hq => h q.index (index_lt_of_setOperators hq) hq, fun h i _ => h ⟨i⟩⟩

theorem KeepsBelow.keepsMembers (h : s.KeepsBelow s.queries.size s') (hordered : s.Ordered) :
    s.KeepsMembers s' := by
  intro q hq
  have hsame := h.sameQuery hordered (index_lt_of_setOperators hq)
  exact ⟨hsame.setOperators.symm ▸ hq, hsame.selected ▸ List.prefix_rfl⟩

theorem Grows.keepsMembers (h : s.Grows E r s') (hordered : s.Ordered) : s.KeepsMembers s' := by
  intro q hq
  refine ⟨?_, h.selected fun c hc => (hordered.column q c hc).1⟩
  by_cases hne : q = r
  · subst hne
    obtain ⟨new, hquery, -⟩ := h.added
    rw [hquery]
    exact hq
  · rw [h.query q hne]
    exact hq

theorem sameQuery_wrapped {inner outer : QueryRef} (parent : Option QueryRef)
    (hinner : inner.index < s.queries.size) (houter : outer = ⟨s.queries.size⟩)
    (hq : q.index < s.queries.size) : s.SameQuery (s.wrapped inner outer parent) q := by
  have hquery : ∃ parent', (s.wrapped inner outer parent).query q =
      { s.query q with parent := parent' } := by
    by_cases heq : q = inner
    · subst heq
      exact ⟨some outer, query_wrapped_inner parent hinner houter⟩
    · exact ⟨(s.query q).parent, query_wrapped_ne hq heq houter⟩
  obtain ⟨parent', hquery⟩ := hquery
  exact ⟨⟨⟨parent', _, hquery⟩, fun _ _ => rfl, fun _ _ _ _ => ⟨rfl, fun _ _ => rfl⟩⟩,
    by rw [hquery]⟩

theorem keepsMembers_wrapped {inner outer : QueryRef} (parent : Option QueryRef)
    (hinner : inner.index < s.queries.size) (houter : outer = ⟨s.queries.size⟩) :
    s.KeepsMembers (s.wrapped inner outer parent) := by
  intro q hq
  have hsame := sameQuery_wrapped parent hinner houter (index_lt_of_setOperators hq)
  exact ⟨hsame.setOperators.symm ▸ hq, hsame.selected ▸ List.prefix_rfl⟩

end Store

/-! ## Lowered sides -/

section

variable {V : Type} [DecidableEq V] {I : Interpretation V} {db : Database V} {ctx : LowerContext}
  {st : LowerState} {s s' : Store} {lo : Nat} {names : List String} {tree : SetTree}
  {lowered side : Lowered} {σ : Shape} {elements : List (Element V)} {test : Query → Bool}

/-- A lowered sequence whose query is an unpaged block that selects the members of its projection,
in order. -/
structure Lowered.SelectsMembers (s : Store) (names : List String) (lowered : Lowered) : Prop where
  outcome : lowered.outcome = .sequence
  ordered : s.Ordered
  valid : lowered.query.index < s.queries.size
  fits : ∃ σ, lowered.projection.Fits σ ∧ σ.pathsAt "" = names
  parts : lowered.projection.All (Scalar.IsPart s lowered.query)
  selected : s.selected lowered.query = lowered.projection.scalars
  block : (s.query lowered.query).IsBlock
  unpaged : (s.query lowered.query).hasPagination = false

omit [DecidableEq V] in
theorem Lowered.SelectsMembers.paths (h : lowered.SelectsMembers s names) :
    lowered.projection.leaves.map (·.1) = names := by
  obtain ⟨σ, hfits, hnames⟩ := h.fits
  exact (Projection.Fits.paths _ hfits "").trans hnames

/-- A lowered sequence whose query selects the members of its projection and has the form of a tree,
if the columns of queries with set operators are told apart. -/
structure Lowered.Lists (I : Interpretation V) (db : Database V) (s : Store) (lo : Nat)
    (names : List String) (tree : SetTree) (lowered : Lowered) : Prop extends
    lowered.SelectsMembers s names where
  builds : s.MembersApart → s.Builds I db names lo s.queries.size lowered.query
    (s.query lowered.query).setOperators tree

omit [DecidableEq V] in
/-- A query becomes a side by the way of being wrapped and getting its columns. -/
theorem LowerM.Gives.asSide {s'' : Store}
    (hordering : (st.store.query lowered.query).orderBy = [])
    (hwrap : (LowerM.wrapIf (fun q => q.hasPagination || (!q.columns.isEmpty && !q.hasSetOperators) ||
      test q) lowered).Gives ctx st side { st with store := s' })
    (hempty : (s'.query side.query).columns = [] →
      (LowerM.materialize side.query side.projection true).Gives ctx { st with store := s' } ()
        { st with store := s'' })
    (hfull : (s'.query side.query).columns ≠ [] → s'' = s') :
    (lowered.asSide test).Gives ctx st side { st with store := s'' } := by
  have hclear : (LowerM.modifyQuery lowered.query fun q =>
      if q.hasPagination then q else { q with orderBy := [] }).Gives ctx st () st := by
    have hgives : (LowerM.modifyQuery lowered.query fun q =>
        if q.hasPagination then q else { q with orderBy := [] }).Gives ctx st () _ :=
      modifyQuery _ _
    rwa [Store.modifyQuery_eq_self] at hgives
    split
    · rfl
    · rw [← hordering]
  refine hclear.bind (hwrap.bind (store.bind ?_))
  by_cases hcolumns : (s'.query side.query).columns = []
  · simp only [hcolumns, List.isEmpty_nil, if_true]
    exact (hempty hcolumns).bind (pure side)
  · have hsome : (s'.query side.query).columns.isEmpty = false := by simpa using hcolumns
    simp only [hsome, Bool.false_eq_true, if_false]
    rw [hfull hcolumns]
    exact pure side

/-- A chain as a side lists its rows. -/
theorem Lowered.Represents.asSide {name : String} {entity : EntityMapping} {operators : Pipeline}
    (h : lowered.Represents I db st.store σ (operators.run I (entity.elements db)))
    (hnames : σ.pathsAt "" = names) (ctx : LowerContext)
    (htest : ∀ parent sources, test { parent, sources } = false)
    (hlo : lo ≤ lowered.query.index) (habove : st.store.ReadsAbove lo) :
    ∃ side s', (lowered.asSide test).Gives ctx st side { st with store := s' } ∧
      side.Lists I db s' lo names (.chain name entity operators) := by
  obtain ⟨rows, hyields, -⟩ := h.yields
  obtain ⟨side, s₁, hwrap, h₁, hwrapped⟩ := h.wrapIf ctx
    (fun q => q.hasPagination || (!q.columns.isEmpty && !q.hasSetOperators) || test q)
    fun parent sources => by simp [htest, Query.hasPagination]
  obtain ⟨rows₁, hyields₁, helements⟩ := h₁.yields
  have hplain := hyields₁.isPlain
  have hoperators : (s₁.query side.query).hasSetOperators = false := by
    simp [Query.hasSetOperators, hplain.setOperators]
  simp only [hoperators, Bool.not_false, Bool.and_true, Bool.or_eq_false_iff, Bool.not_eq_false',
    List.isEmpty_iff] at hwrapped
  obtain ⟨⟨hunpaged, hcolumns⟩, -⟩ := hwrapped
  let E : Scalar → Prop := fun e => ∀ ρ ρ' : Env V,
    side.projection.denote I ρ = side.projection.denote I ρ' → e.eval I ρ = e.eval I ρ'
  obtain ⟨s₂, hmaterialize, hgrows, hselected⟩ := LowerM.Gives.materialize_fresh (E := E) ctx
    { st with store := s₁ } h₁.valid hcolumns h₁.fits.isGrouping
    fun leaf hleaf ρ ρ' => Projection.eval_eq_of_denote_eq hleaf
  have hgives : (lowered.asSide test).Gives ctx st side { st with store := s₂ } :=
    .asSide hyields.isPlain.orderBy hwrap (fun _ => hmaterialize) fun hne => absurd hcolumns hne
  have hyields₂ : s₂.Yields I db side.query rows₁ :=
    hgrows.yields h₁.ordered hyields₁ fun hdistinct e he ρ ρ' heq =>
      he ρ ρ' ((h₁.selects.same hdistinct ρ ρ').mp heq)
  have hvalid : side.query.index < s₂.queries.size := by
    rw [hgrows.size]
    exact h₁.valid
  obtain ⟨hkeeps, hlo'⟩ :=
    (LowerM.keeps_bounded lo).asSide hlo test ctx st side _ (Nat.le_trans hlo (Nat.le_of_lt h.valid)) hgives
  have htuples := hyields₂.tuples (hgrows.ordered h₁.ordered) (habove.keeps hkeeps) hlo' hvalid
  obtain ⟨new, hquery, -⟩ := hgrows.added
  have hrun : (SetTree.chain name entity operators).run I db =
      rows₁.map fun ρ => side.projection.leaves.map (evalLeaf I ρ) := by
    rw [SetTree.run, ← helements, List.map_map]
    exact List.map_congr_left fun ρ _ => side.projection.leaves_denote I ρ
  refine ⟨side, s₂, hgives, ⟨h₁.outcome, hgrows.ordered h₁.ordered, hvalid, ⟨σ, h₁.fits, hnames⟩,
    h₁.parts.imp fun e he => he.grows hgrows, hselected, hyields₂.isPlain.isBlock, ?_⟩, fun _ => ?_⟩
  · rw [hquery]
    exact hunpaged
  · rw [hyields₂.isPlain.setOperators]
    refine .chain (fun row hrow => ?_) ?_
    · rw [hrun] at hrow
      obtain ⟨ρ, -, rfl⟩ := List.mem_map.mp hrow
      rw [List.map_map, ← hnames, ← Projection.Fits.paths _ h₁.fits]
      rfl
    · rw [hrun, List.map_map]
      refine (List.map_congr_left fun ρ _ => ?_) ▸ htuples
      have htuple : s₂.tuple I (s₂.query side.query) ρ =
          (s₂.selected side.query).map fun e => e.eval I ρ := (List.map_map ..).symm
      rw [htuple, hselected, Projection.scalars, List.map_map, Function.comp_apply, rowValues,
        List.map_map]
      rfl

/-- A tree that is read from outside lists its rows. -/
theorem Lowered.Lists.wrap (h : lowered.Lists I db st.store lo names tree)
    (hoperators : (st.store.query lowered.query).setOperators ≠ []) (ctx : LowerContext) :
    ∃ side s₁ s₂, (LowerM.wrap lowered).Gives ctx st side { st with store := s₁ } ∧
      (s₁.query side.query).columns = [] ∧
      (LowerM.materialize side.query side.projection true).Gives ctx { st with store := s₁ } ()
        { st with store := s₂ } ∧
      side.Lists I db s₂ lo names tree := by
  obtain ⟨σ, hfits, hnames⟩ := h.fits
  let parent := (st.store.query lowered.query).parent
  let outer : QueryRef := ⟨st.store.queries.size⟩
  obtain ⟨p', s₁, hwrap, hgrows, hexposed, houter⟩ := Lowered.wrap_gives I ctx
    (E := fun _ => True) h.ordered h.valid hfits (h.parts.imp fun _ he => ⟨he, trivial⟩)
  have hordered : (st.store.wrapped lowered.query outer parent).Ordered :=
    h.ordered.wrapped h.valid rfl
  have hordered₁ := hgrows.ordered hordered
  have hvalid₁ : outer.index < s₁.queries.size := by
    rw [hgrows.size, Store.size_wrapped]
    exact Nat.lt_succ_self _
  obtain ⟨s₂, hmaterialize, hgrows', hselected⟩ := LowerM.Gives.materialize_fresh
    (E := fun _ => True) ctx { st with store := s₁ } (q := outer) (p := p') hvalid₁
    (by rw [houter]) hexposed.fits.isGrouping fun _ _ => trivial
  obtain ⟨new, hquery, -⟩ := hgrows'.added
  rw [houter] at hquery
  have hvalid₂ : outer.index < s₂.queries.size := by
    rw [hgrows'.size]
    exact hvalid₁
  refine ⟨_, s₁, s₂, hwrap, by rw [houter], hmaterialize, ⟨h.outcome, hgrows'.ordered hordered₁,
    hvalid₂, ⟨σ, hexposed.fits, hnames⟩, ?_, hselected, ?_, ?_⟩, fun hapart => ?_⟩
  · refine (hexposed.parts s₁ (.refl _ _ _)).imp fun e he => ?_
    exact (he.isPart hordered₁ h.valid).grows hgrows'
  · rw [hquery]
    exact ⟨rfl, rfl, rfl, fun _ => rfl⟩
  · rw [hquery]
    rfl
  · have hkeeps : st.store.KeepsMembers s₂ :=
      (Store.keepsMembers_wrapped parent h.valid rfl).trans
        ((hgrows.keepsMembers hordered).trans (hgrows'.keepsMembers hordered₁))
    have hapart₀ := hkeeps.membersApart hapart
    -- no column was added to the query that is read, as all of them were found
    obtain ⟨p'', hwrap', -, hscalars⟩ :=
      Lowered.wrap_apart ctx h.valid (hapart₀ _ hoperators) h.selected hfits h.parts
    obtain ⟨hlowered, hstate⟩ := hwrap.unique hwrap'
    cases hlowered
    cases hstate
    have hsame : ∀ r : QueryRef, r.index < st.store.queries.size → st.store.SameQuery s₂ r :=
      fun r hr => (Store.sameQuery_wrapped parent h.valid rfl hr).trans
        (hgrows'.sameQuery hordered fun heq => by subst heq; exact Nat.lt_irrefl _ hr)
    have hinner := hsame lowered.query h.valid
    have hcolumns : (s₂.query lowered.query).columns = (st.store.query lowered.query).columns :=
      hinner.columns
    have hbuilds := (h.builds hapart₀).same fun r _ hr => hsame r hr
    rw [← hinner.setOperators] at hbuilds
    rw [show (s₂.query outer).setOperators = [] by rw [hquery]]
    refine .nested hvalid₂ hquery (hselected.trans ?_) ?_ ?_ hbuilds
    · rw [hcolumns]
      exact hscalars
    · rw [hcolumns]
      exact (hapart₀ _ hoperators).nodup
    · rw [hcolumns, ← Store.length_selected, h.selected, Projection.scalars, List.length_map,
        ← h.paths, List.length_map]

/-- A tree as a side of another set operator lists its rows. -/
theorem Lowered.Lists.asSide (h : lowered.Lists I db st.store lo names tree)
    (hoperators : (st.store.query lowered.query).setOperators ≠ []) (ctx : LowerContext)
    (test : Query → Bool) :
    ∃ side s', (lowered.asSide test).Gives ctx st side { st with store := s' } ∧
      side.Lists I db s' lo names tree := by
  have htest : ((st.store.query lowered.query).hasPagination ||
      (!(st.store.query lowered.query).columns.isEmpty &&
        !(st.store.query lowered.query).hasSetOperators) || test (st.store.query lowered.query)) =
      test (st.store.query lowered.query) := by
    have hsome : (st.store.query lowered.query).hasSetOperators = true := by
      simpa [Query.hasSetOperators] using hoperators
    simp [hsome, h.unpaged]
  cases hwrapped : test (st.store.query lowered.query) with
  | false =>
    refine ⟨lowered, st.store, .asSide h.block.orderBy (.wrapIf_false (htest.trans hwrapped))
      (fun hnone => ?_) fun _ => rfl, h⟩
    have hleaves : lowered.projection.leaves = [] := by
      have hselected := h.selected
      rw [Store.selected, hnone] at hselected
      exact List.map_eq_nil_iff.mp hselected.symm
    obtain ⟨σ, hfits, -⟩ := h.fits
    exact .materialize_nil ctx hleaves hfits.isGrouping
  | true =>
    obtain ⟨side, s₁, s₂, hwrap, hnone, hmaterialize, hlists⟩ := h.wrap hoperators ctx
    exact ⟨side, s₂, .asSide h.block.orderBy (.wrapIf_true (htest.trans hwrapped) hwrap)
      (fun _ => hmaterialize) fun hne => absurd hnone hne, hlists⟩

/-! ## Two sides -/

omit [DecidableEq V] in
theorem Scalar.IsPart.keeps {e : Scalar} {q : QueryRef} {n : Nat} (h : e.IsPart s q)
    (hkeeps : s.KeepsBelow n s') : e.IsPart s' q where
  solid := h.solid
  column c hc := by
    obtain ⟨hindex, hparent⟩ := h.column c hc
    rw [hkeeps.column c hindex]
    exact ⟨Nat.lt_of_lt_of_le hindex hkeeps.columns, hparent⟩
  raw := h.raw

/-- Two sides that are combined by a set operator have the form of the combined tree. -/
theorem Lowered.Lists.combine {left right : Lowered} {tree' : SetTree}
    (hleft : left.Lists I db s lo names tree)
    (hright : right.Lists I db s' s.queries.size names tree')
    (hkeeps : s.KeepsBelow s.queries.size s') (operation : SetOperation) :
    left.Lists I db (s'.modifyQuery left.query fun q =>
        { q with setOperators := q.setOperators ++ [⟨operation, right.query⟩] })
      lo names (.combine operation tree tree') := by
  let f (q : Query) : Query :=
    { q with setOperators := q.setOperators ++ [⟨operation, right.query⟩] }
  let s'' := s'.modifyQuery left.query f
  obtain ⟨σ, hfits, hnames⟩ := hleft.fits
  have hvalid : left.query.index < s'.queries.size :=
    Nat.lt_of_lt_of_le hleft.valid hkeeps.queries
  have hquery : s'.query left.query = s.query left.query := hkeeps.query _ hleft.valid
  have hself : s''.query left.query = f (s'.query left.query) :=
    Store.query_modifyQuery_self hvalid
  have hsame : ∀ r : QueryRef, r ≠ left.query → s'.SameQuery s'' r := fun r hr => by
    have hquery : s''.query r = s'.query r := Store.query_modifyQuery_ne hr
    exact ⟨⟨⟨_, _, hquery⟩, fun _ _ => rfl, fun _ _ _ _ => ⟨rfl, fun _ _ => rfl⟩⟩, by rw [hquery]⟩
  have hroot : s.SameBlock s'' left.query :=
    have hblock := (hkeeps.sameQuery hleft.ordered hleft.valid).toSameBlock
    ⟨⟨_, _, hself.trans (by rw [hquery])⟩, hblock.column, hblock.table⟩
  have hblock : (s''.query left.query).IsBlock := by
    rw [hself, hquery]
    exact ⟨hleft.block.grouping, hleft.block.having, hleft.block.orderBy, fun _ => hleft.unpaged⟩
  refine ⟨⟨hleft.outcome, ?_, ?_, ⟨σ, hfits, hnames⟩, ?_, ?_, hblock, ?_⟩, fun hapart => ?_⟩
  · exact hright.ordered.modifyQuery hvalid (hright.ordered.source left.query)
      (hright.ordered.table left.query) rfl
  · rw [Store.size_modifyQuery]
    exact hvalid
  · exact hleft.parts.imp fun e he =>
      have he := he.keeps hkeeps
      ⟨he.solid, he.column, he.raw⟩
  · exact hroot.selected.trans hleft.selected
  · rw [hself, hquery]
    exact hleft.unpaged
  · have hkeeps' : s'.KeepsMembers s'' := fun q hq => by
      by_cases heq : q = left.query
      · subst heq
        refine ⟨by rw [hself]; simp [f], ?_⟩
        rw [Store.selected, Store.selected, hself]
        exact List.prefix_rfl
      · have hsame := hsame q heq
        exact ⟨hsame.setOperators.symm ▸ hq, hsame.selected ▸ List.prefix_rfl⟩
    have hapart' := hkeeps'.membersApart hapart
    have hbuilds := (hleft.builds ((hkeeps.keepsMembers hleft.ordered).membersApart hapart')).congr
      hroot hblock fun r _ hr hne =>
        (hkeeps.sameQuery hleft.ordered hr).trans (hsame r hne)
    have hne : ∀ r : QueryRef, s.queries.size ≤ r.index → r ≠ left.query := fun r hr heq => by
      subst heq
      exact Nat.lt_irrefl _ (Nat.lt_of_lt_of_le hleft.valid hr)
    have hbuilds' := (hright.builds hapart').same fun r hr _ => hsame r (hne r hr)
    have hside := hsame right.query (hne _ hbuilds'.tuples.bounds.1)
    rw [← hside.setOperators] at hbuilds'
    have hoperators : (s''.query left.query).setOperators =
        (s.query left.query).setOperators ++ [⟨operation, right.query⟩] := by
      rw [hself, hquery]
    rw [hoperators, Store.size_modifyQuery]
    exact .combine hbuilds hbuilds'

end

end SqlCompiler
