import SqlCompiler.Proofs.Lowering.Growth
import SqlCompiler.Proofs.Lowering.Shapes
import SqlCompiler.Proofs.Lowering.Steps

/-!
# Queries read from outside

A query that is read as a subquery gets a column for every scalar of its projection.  What the
projection says of a row inside, the exposed projection says of the row outside.

Main results:

- Definition `Store.Exposes`: a column that has the value of a scalar.
- Theorem `Projection.mapLeavesAt_exposes`: the exposed projection stands for the same elements.
- Theorem `LowerM.Gives.materialize`: every leaf of a projection becomes a column.
-/

namespace SqlCompiler

variable {V : Type} {I : Interpretation V} {ctx : LowerContext} {st : LowerState}
  {s s' : Store} {q : QueryRef} {e : Scalar} {E : Scalar → Prop}

/-! ## Columns for scalars -/

/-- A column of a query that has the value of a scalar. -/
structure Store.Exposes (I : Interpretation V) (s : Store) (q : QueryRef) (e : Scalar)
    (c : ColumnRef) : Prop where
  mem : c ∈ (s.query q).columns
  eval_eq : ∀ ρ, (s.column c).expression.eval I ρ = e.eval I ρ

theorem Store.Exposes.grows {c : ColumnRef} (h : s.Exposes I q e c) (hordered : s.Ordered)
    (hgrows : s.Grows E q s') : s'.Exposes I q e c where
  mem := hgrows.mem_columns h.mem
  eval_eq ρ := by rw [hgrows.column c (hordered.column q c h.mem).1, h.eval_eq]

theorem Scalar.IsPart.grows {r : QueryRef} (h : e.IsPart s q) (hgrows : s.Grows E r s') :
    e.IsPart s' q where
  solid := h.solid
  column c hc := by
    obtain ⟨hindex, hparent⟩ := h.column c hc
    rw [hgrows.column c hindex]
    exact ⟨Nat.lt_of_lt_of_le hindex hgrows.columns, hparent⟩
  raw := h.raw

/-- A column is added unless an equal one is there. -/
theorem Store.addColumn_exposes (hq : q.index < s.queries.size) (he : E e)
    (aliasName : Option String) :
    s.Grows E q (s.addColumn q e aliasName).2 ∧
      (s.addColumn q e aliasName).2.Exposes I q e (s.addColumn q e aliasName).1 := by
  unfold Store.addColumn
  cases hfound : s.findColumn? q e with
  | some c =>
    have hequal : ((s.column c).expression == e) = true :=
      List.find?_some (p := fun c => (s.column c).expression == e) hfound
    exact ⟨.refl E q s, List.mem_of_find?_eq_some hfound,
      fun ρ => Scalar.eval_congr I ρ _ _ hequal⟩
  | none =>
    refine ⟨Store.grows_addFreshColumn hq he aliasName,
      Store.mem_columns_addFreshColumn hq e aliasName, fun ρ => ?_⟩
    rw [Store.column_addFreshColumn]

/-- A scalar that elements are made of is no column of the query, so it gets one. -/
theorem LowerM.Gives.columnFor (I : Interpretation V) (ctx : LowerContext)
    (hq : q.index < st.store.queries.size) (hpart : e.IsPart st.store q) (he : E e)
    (path : String) :
    ∃ c s', (LowerM.columnFor q e path).Gives ctx st c { st with store := s' } ∧
      st.store.Grows E q s' ∧ s'.Exposes I q e c := by
  obtain ⟨hgrows, hexposes⟩ :=
    Store.addColumn_exposes (I := I) hq he (Projection.leafAlias path)
  refine ⟨_, _, LowerM.Gives.store.bind ?_, hgrows, hexposes⟩
  cases e with
  | column c =>
    have hparent : ((st.store.column c).parent == q) = false := by
      have hbelow := (hpart.column c rfl).2
      exact beq_eq_false_iff_ne.mpr fun heq => by rw [heq] at hbelow; omega
    simp only [hparent, Bool.false_eq_true, if_false]
    exact LowerM.Gives.allocate _
  | _ => exact LowerM.Gives.allocate _

/-! ## Exposed projections -/

/-- A scalar that is a column of a query. -/
def Scalar.IsColumnOf (s : Store) (q : QueryRef) (e : Scalar) : Prop :=
  ∃ c, e = .column c ∧ c ∈ (s.query q).columns

/-- A column takes the place of any scalar. -/
theorem Scalar.Fits.column {c : ColumnRef} {σ : Shape} (h : e.Fits σ) :
    (Scalar.column c).Fits σ := by
  cases σ with
  | value absent => exact fun hnull => by cases hnull
  | record shapes => exact h.elim

/-- A projection says of the rows outside of a query what another one says of the rows inside,
however the query grows. -/
structure Projection.Exposed (I : Interpretation V) (E : Scalar → Prop) (q : QueryRef)
    (σ : Shape) (s : Store) (p p' : Projection) : Prop where
  fits : p'.Fits σ
  parts : ∀ s', s.Grows E q s' → p'.All (Scalar.IsColumnOf s' q)
  denote_eq : ∀ s', s.Grows E q s' → ∀ ρ, p'.denote I (s'.queryEnv I q ρ) = p.denote I ρ

theorem Store.Exposes.exposed {c : ColumnRef} {σ : Shape} (h : s.Exposes I q e c)
    (hordered : s.Ordered) (hfits : e.Fits σ) :
    Projection.Exposed I E q σ s (.scalar e) (.scalar (.column c)) where
  fits := hfits.column
  parts s' hgrows := Projection.all_scalar.mpr ⟨c, rfl, hgrows.mem_columns h.mem⟩
  denote_eq s' hgrows ρ := by
    have hc := h.grows hordered hgrows
    rw [Projection.denote, Projection.denote, Scalar.eval, Store.queryEnv]
    simp only [if_pos hc.mem, hc.eval_eq]

theorem Projection.Exposed.grows {σ : Shape} {p p' : Projection}
    (h : Projection.Exposed I E q σ s p p') (hgrows : s.Grows E q s') :
    Projection.Exposed I E q σ s' p p' where
  fits := h.fits
  parts s'' hgrows' := h.parts s'' (hgrows.trans hgrows')
  denote_eq s'' hgrows' := h.denote_eq s'' (hgrows.trans hgrows')

/-- The step by which a leaf becomes a column. -/
def LowerM.exposeLeaf (q : QueryRef) (path : String) (e : Scalar) : LowerM Scalar :=
  return .column (← LowerM.columnFor q e path)

theorem LowerM.Gives.exposeLeaf (I : Interpretation V) (ctx : LowerContext)
    {σ : Shape} (hfits : e.Fits σ) (hordered : st.store.Ordered)
    (hq : q.index < st.store.queries.size) (hpart : e.IsPart st.store q) (he : E e)
    (path : String) :
    ∃ e' s', (LowerM.exposeLeaf q path e).Gives ctx st e' { st with store := s' } ∧
      st.store.Grows E q s' ∧ Projection.Exposed I E q σ s' (.scalar e) (.scalar e') := by
  obtain ⟨c, s', hc, hgrows, hexposes⟩ := columnFor I ctx hq hpart he path
  exact ⟨.column c, s', hc.bind (pure _), hgrows,
    hexposes.exposed (hgrows.ordered hordered) hfits⟩

theorem Projection.Exposed.nil :
    Projection.Exposed I E q (.record []) s (.record []) (.record []) where
  fits := ⟨[], rfl, membersFit_nil.mpr rfl⟩
  parts _ _ := Projection.all_record.mpr (by simp)
  denote_eq _ _ _ := rfl

/-- Exposed members are an exposed record. -/
theorem Projection.Exposed.cons {name : String} {p p' : Projection} {τ : Shape}
    {members members' : List (String × Projection)} {shapes : List (String × Shape)}
    (h : Projection.Exposed I E q τ s p p')
    (hrest : Projection.Exposed I E q (.record shapes) s (.record members) (.record members')) :
    Projection.Exposed I E q (.record ((name, τ) :: shapes)) s (.record ((name, p) :: members))
      (.record ((name, p') :: members')) := by
  refine ⟨?_, fun s' hgrows => Projection.all_record.mpr fun m hm => ?_, fun s' hgrows ρ => ?_⟩
  · obtain ⟨_, heq, hfits⟩ := hrest.fits
    cases heq
    exact ⟨_, rfl, τ, shapes, rfl, h.fits, hfits⟩
  · rcases List.mem_cons.mp hm with rfl | hm
    · exact h.parts s' hgrows
    · exact Projection.all_record.mp (hrest.parts s' hgrows) m hm
  · have htail : denoteMembers I (s'.queryEnv I q ρ) members' = denoteMembers I ρ members :=
      Element.record.inj (hrest.denote_eq s' hgrows ρ)
    rw [Projection.denote, Projection.denote, denoteMembers, denoteMembers,
      h.denote_eq s' hgrows, htail]

/-- The members of an entity, each exposed. -/
theorem LowerM.Gives.exposeMembers (I : Interpretation V) (ctx : LowerContext) (path : String)
    {members : List (String × Scalar)} {shapes : List (String × Shape)}
    (hfits : List.Forall₂ (fun m shape => m.1 = shape.1 ∧ m.2.Fits shape.2) members shapes) :
    ∀ st : LowerState, st.store.Ordered → q.index < st.store.queries.size →
      (∀ m ∈ members, m.2.IsPart st.store q ∧ E m.2) →
      ∃ members' s',
        LowerM.Gives (members.mapM fun (name, e) => do
            return (name, ← LowerM.exposeLeaf q (Projection.memberPath path name) e))
          ctx st members' { st with store := s' } ∧
        st.store.Grows E q s' ∧
        Projection.Exposed I E q (.record shapes) s'
          (.record (members.map fun m => (m.1, .scalar m.2)))
          (.record (members'.map fun m => (m.1, .scalar m.2))) := by
  induction hfits with
  | nil =>
    exact fun st _ _ _ => ⟨[], st.store, pure [], .refl E q st.store, .nil⟩
  | @cons m shape members shapes hm _ ih =>
    intro st hordered hq hparts
    obtain ⟨name, e⟩ := m
    obtain ⟨_, τ⟩ := shape
    obtain ⟨rfl, hfit⟩ := hm
    obtain ⟨hpart, he⟩ := hparts (name, e) List.mem_cons_self
    obtain ⟨e', s₁, hstep, hgrows, hexposed⟩ :=
      exposeLeaf I ctx hfit hordered hq hpart he (Projection.memberPath path name)
    obtain ⟨members', s₂, hsteps, hgrows', hall⟩ :=
      ih { st with store := s₁ } (hgrows.ordered hordered) (by rw [hgrows.size]; exact hq)
        fun m hm => ⟨(hparts m (List.mem_cons_of_mem _ hm)).1.grows hgrows,
          (hparts m (List.mem_cons_of_mem _ hm)).2⟩
    refine ⟨(name, e') :: members', s₂, ?_, hgrows.trans hgrows',
      (hexposed.grows hgrows').cons hall⟩
    rw [List.mapM_cons]
    exact (hstep.bind (pure (name, e'))).bind (hsteps.bind (pure ((name, e') :: members')))

/-- An entity is exposed as the record of its members is. -/
theorem Projection.Exposed.entity {name : String} {table : Option TableRef} {σ : Shape}
    {members members' : List (String × Scalar)}
    (h : Projection.Exposed I E q σ s (.record (members.map fun m => (m.1, .scalar m.2)))
      (.record (members'.map fun m => (m.1, .scalar m.2)))) :
    Projection.Exposed I E q σ s (.entity name table members) (.entity name table members') := by
  refine ⟨?_, fun s' hgrows => ?_, fun s' hgrows ρ => ?_⟩
  · obtain ⟨shapes, hσ, hfit⟩ := h.fits
    exact ⟨shapes, hσ, membersFit_scalars.mp hfit⟩
  · have hall := Projection.all_record.mp (h.parts s' hgrows)
    rw [List.forall_mem_map] at hall
    exact Projection.all_entity.mpr hall
  · rw [← Projection.denote_record_scalars, ← Projection.denote_record_scalars]
    exact h.denote_eq s' hgrows ρ

mutual

/-- The exposed projection stands for the same elements. -/
theorem Projection.mapLeavesAt_exposes (I : Interpretation V) (ctx : LowerContext)
    (st : LowerState) (p : Projection) {σ : Shape} (hfits : p.Fits σ)
    (hordered : st.store.Ordered) (hq : q.index < st.store.queries.size)
    (hparts : p.All fun e => e.IsPart st.store q ∧ E e) (path : String) :
    ∃ p' s', LowerM.Gives (p.mapLeavesAt (LowerM.exposeLeaf q) path) ctx st p'
        { st with store := s' } ∧
      st.store.Grows E q s' ∧ Projection.Exposed I E q σ s' p p' := by
  cases p with
  | entity name table members =>
    obtain ⟨shapes, rfl, hfits⟩ := hfits
    obtain ⟨members', s', hsteps, hgrows, hexposed⟩ := LowerM.Gives.exposeMembers I ctx path
      hfits st hordered hq (Projection.all_entity.mp hparts)
    exact ⟨_, s', hsteps.bind (LowerM.Gives.pure _), hgrows, hexposed.entity⟩
  | record members =>
    obtain ⟨shapes, rfl, hfits⟩ := hfits
    obtain ⟨members', s', hsteps, hgrows, hexposed⟩ :=
      mapLeavesOfMembers_exposes I ctx st members hfits hordered hq hparts path
    exact ⟨_, s', hsteps.bind (LowerM.Gives.pure _), hgrows, hexposed⟩
  | scalar e =>
    obtain ⟨hpart, he⟩ := Projection.all_scalar.mp hparts
    obtain ⟨e', s', hstep, hgrows, hexposed⟩ :=
      LowerM.Gives.exposeLeaf I ctx hfits hordered hq hpart he path
    exact ⟨_, s', hstep.bind (LowerM.Gives.pure _), hgrows, hexposed⟩
  | grouping key element => exact hfits.elim
termination_by structural p

/-- The exposed members stand for the same elements. -/
theorem mapLeavesOfMembers_exposes (I : Interpretation V) (ctx : LowerContext)
    (st : LowerState) (members : List (String × Projection))
    {shapes : List (String × Shape)} (hfits : membersFit members shapes)
    (hordered : st.store.Ordered) (hq : q.index < st.store.queries.size)
    (hparts : allMembers (fun e => e.IsPart st.store q ∧ E e) members) (path : String) :
    ∃ members' s',
      LowerM.Gives (Projection.mapLeavesOfMembers (LowerM.exposeLeaf q) path members) ctx st
        members' { st with store := s' } ∧
      st.store.Grows E q s' ∧
      Projection.Exposed I E q (.record shapes) s' (.record members) (.record members') := by
  cases members with
  | nil =>
    rw [membersFit_nil] at hfits
    subst hfits
    exact ⟨[], st.store, LowerM.Gives.pure _, .refl E q st.store, .nil⟩
  | cons m rest =>
    obtain ⟨name, p⟩ := m
    rw [membersFit_cons] at hfits
    obtain ⟨τ, others, rfl, hp, hrest⟩ := hfits
    rw [allMembers] at hparts
    obtain ⟨p', s₁, hstep, hgrows, hexposed⟩ :=
      Projection.mapLeavesAt_exposes I ctx st p hp hordered hq hparts.1
        (Projection.memberPath path name)
    have hparts' : allMembers (fun e => e.IsPart s₁ q ∧ E e) rest :=
      allMembers_iff.mpr fun m hm =>
        (allMembers_iff.mp hparts.2 m hm).imp fun e he => ⟨he.1.grows hgrows, he.2⟩
    obtain ⟨members', s₂, hsteps, hgrows', hexposed'⟩ :=
      mapLeavesOfMembers_exposes I ctx { st with store := s₁ } rest hrest
        (hgrows.ordered hordered) (by rw [hgrows.size]; exact hq) hparts' path
    exact ⟨(name, p') :: members', s₂, hstep.bind (hsteps.bind (LowerM.Gives.pure _)),
      hgrows.trans hgrows', (hexposed.grows hgrows').cons hexposed'⟩
termination_by structural members

end

/-! ## Selected leaves -/

/-- Every leaf becomes a column, unless an equal one is there. -/
theorem LowerM.Gives.selectLeaves (I : Interpretation V) (ctx : LowerContext)
    (q : QueryRef) :
    ∀ (leaves : List (String × Scalar)) (st : LowerState), st.store.Ordered →
      q.index < st.store.queries.size →
      (∀ leaf ∈ leaves, leaf.2.IsPart st.store q ∧ E leaf.2) →
      ∃ s', LowerM.Gives (forIn leaves PUnit.unit fun (path, e) _ => do
            let _ ← LowerM.columnFor q e path
            return ForInStep.yield PUnit.unit)
          ctx st PUnit.unit { st with store := s' } ∧
        st.store.Grows E q s' ∧ ∀ leaf ∈ leaves, ∃ c, s'.Exposes I q leaf.2 c
  | [], st, _, _, _ => ⟨st.store, pure _, .refl E q st.store, by simp⟩
  | (path, e) :: rest, st, hordered, hq, hparts => by
    obtain ⟨hpart, he⟩ := hparts (path, e) List.mem_cons_self
    obtain ⟨c, s₁, hc, hgrows, hexposes⟩ := columnFor I ctx hq hpart he path
    obtain ⟨s₂, hrest, hgrows', hall⟩ :=
      selectLeaves I ctx q rest { st with store := s₁ } (hgrows.ordered hordered)
        (by rw [hgrows.size]; exact hq) fun leaf hleaf =>
          ⟨(hparts leaf (List.mem_cons_of_mem _ hleaf)).1.grows hgrows,
            (hparts leaf (List.mem_cons_of_mem _ hleaf)).2⟩
    refine ⟨s₂, ?_, hgrows.trans hgrows', fun leaf hleaf => ?_⟩
    · rw [List.forIn_cons]
      refine bind (hc.bind (pure (ForInStep.yield PUnit.unit))) ?_
      exact hrest
    · rcases List.mem_cons.mp hleaf with rfl | hleaf
      · exact ⟨c, hexposes.grows (hgrows.ordered hordered) hgrows'⟩
      · exact hall leaf hleaf

theorem LowerM.Gives.materialize (I : Interpretation V) (ctx : LowerContext) (st : LowerState)
    {p : Projection} {σ : Shape} (hfits : p.Fits σ) (hordered : st.store.Ordered)
    (hq : q.index < st.store.queries.size)
    (hparts : p.All fun e => e.IsPart st.store q ∧ E e) :
    ∃ s', (LowerM.materialize q p false).Gives ctx st () { st with store := s' } ∧
      st.store.Grows E q s' ∧ ∀ leaf ∈ p.leaves, ∃ c, s'.Exposes I q leaf.2 c := by
  obtain ⟨s', hselect, hgrows, hexposes⟩ := selectLeaves I ctx q p.leaves st hordered hq
    (Projection.all_iff_leaves.mp hparts)
  have hrefuse : (LowerM.refuseGrouping p).Gives ctx st () st := by
    rw [LowerM.refuseGrouping, hfits.isGrouping]
    exact pure ()
  refine ⟨s', ?_, hgrows, hexposes⟩
  unfold LowerM.materialize
  simp only [Bool.false_eq_true, if_false]
  exact hrefuse.bind (hselect.bind (pure ()))

end SqlCompiler
