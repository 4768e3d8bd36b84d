import SqlCompiler.Proofs.Columns.Selection

/-!
# Steps that add columns

Columns are added to a query that no set operator is about, or nothing is added: the scalar is
selected already.

Main results:

- Theorem `LowerM.Gives.expose_sound`: reading a query from outside adds no column to one that
  has set operators.
- Theorem `LowerM.Triple.wrap`: a wrapped query leaves a bare one.
- Theorem `LowerM.Triple.asSide`: a side of a set operator selects the scalars of its projection.
-/

namespace SqlCompiler

/-- A sound store with a property. -/
def Store.At (X : QueryRef → Prop) (F : Store → Prop) (s : Store) : Prop := s.Sound X ∧ F s

/-- A query gets columns. -/
abbrev Store.Widens (q : QueryRef) (s s' : Store) : Prop := s.Grows (fun _ => True) q s'

open Store (At Bare Open Active Fits Lasting Structural)

variable {s s' : Store} {q : QueryRef} {X : QueryRef → Prop} {F G : Store → Prop}

theorem Store.widens_addColumn (hq : q.index < s.queries.size) (e : Scalar)
    (aliasName : Option String) : s.Widens q (s.addColumn q e aliasName).2 := by
  unfold Store.addColumn
  split
  · exact .refl _ q s
  · exact Store.grows_addFreshColumn hq trivial aliasName

theorem Store.selected_addFreshColumn (hq : q.index < s.queries.size)
    (hvalid : ∀ c ∈ (s.query q).columns, c.index < s.columns.size) (e : Scalar)
    (aliasName : Option String) :
    (s.addFreshColumn q e aliasName).2.selected q = s.selected q ++ [e] := by
  have hgrows := Store.grows_addFreshColumn (E := fun _ => True) hq trivial (e := e) aliasName
  have hquery : (s.addFreshColumn q e aliasName).2.query q =
      { s.query q with columns := (s.query q).columns ++ [⟨s.columns.size⟩] } :=
    Store.query_modifyQuery_self (s := { s with columns := s.columns.push _ }) hq
  have hold : (s.query q).columns.map
      (fun c => ((s.addFreshColumn q e aliasName).2.column c).expression) = s.selected q :=
    List.map_congr_left fun c hc => by rw [hgrows.column c (hvalid c hc)]
  have hnew := Store.column_addFreshColumn (s := s) (q := q) e aliasName
  simp only [Store.selected, hquery, List.map_append, List.map_cons, List.map_nil] at hold ⊢
  rw [hold]
  simp [Store.addFreshColumn, Store.modifyQuery, Store.column]

/-- A query is not changed, or a scalar is added that it does not select. -/
theorem Store.addColumn_cases (s : Store) (q : QueryRef) (e : Scalar)
    (aliasName : Option String) :
    (s.addColumn q e aliasName).2 = s ∨
      (∀ selected ∈ s.selected q, (selected == e) = false) ∧
        (s.addColumn q e aliasName).2 = (s.addFreshColumn q e aliasName).2 := by
  unfold Store.addColumn
  cases hfound : s.findColumn? q e with
  | some c => exact .inl rfl
  | none =>
    refine .inr ⟨fun selected hselected => ?_, rfl⟩
    obtain ⟨c, hc, rfl⟩ := List.mem_map.mp hselected
    simpa using List.find?_eq_none.mp hfound c hc

/-! ## Sound stores -/

namespace Store

/-- More tables and fields do not matter. -/
theorem GrowsTables.at [Structural F] (h : s.GrowsTables s') (hs : s.At X F) : s'.At X F := by
  have hquery : ∀ q, s'.query q = s.query q := fun q => by simp only [Store.query, h.queries]
  have hsame : s.SameOutline s' :=
    ⟨⟨fun q => by rw [hquery], fun q => by rw [hquery], h.columns, by rw [h.queries]⟩,
      fun q => by rw [hquery], fun q => by rw [hquery], fun q => by rw [hquery]⟩
  exact ⟨hsame.sound hs.1, Structural.congr hsame hs.2⟩

/-- A bare query that selects nothing yet and has no groups. -/
structure Fresh (q : QueryRef) (s : Store) : Prop extends Bare q s where
  columns : (s.query q).columns = []
  ungrouped : (s.query q).isGrouped = false

/-- A new query, which reads nothing either. -/
structure Empty (q : QueryRef) (s : Store) : Prop extends Fresh q s where
  sources : (s.query q).sources = []

instance : Lasting (Fresh q) :=
  ⟨fun h hs => ⟨Lasting.keeps h hs.toBare, by rw [h.query q hs.valid, hs.columns],
    by rw [h.query q hs.valid, hs.ungrouped]⟩⟩

instance : Structural (Fresh q) :=
  ⟨fun h hs => ⟨Structural.congr h hs.toBare, (h.columns q).trans hs.columns,
    by rw [Query.isGrouped, h.grouping]; exact hs.ungrouped⟩⟩

instance : Lasting (Empty q) :=
  ⟨fun h hs => ⟨Lasting.keeps h hs.toFresh, by rw [h.query q hs.valid, hs.sources]⟩⟩

theorem Sound.addQuery (h : s.Sound X) (parent : Option QueryRef) :
    (s.addQuery parent).2.At X (Empty (s.addQuery parent).1) := by
  have hcases := query_addQuery_cases s parent
  have hself := query_addQuery_self (s := s) parent
  have hsize : (s.addQuery parent).2.queries.size = s.queries.size + 1 := by simp [Store.addQuery]
  have hselected : ∀ q, (s.addQuery parent).2.selected q = s.selected q ∨
      (s.addQuery parent).2.selected q = [] := fun q => by
    rcases hcases q with hquery | hquery
    · exact .inl (by simp only [Store.selected, hquery]; rfl)
    · exact .inr (by simp only [Store.selected, hquery]; rfl)
  refine ⟨⟨fun q c hc => ?_, fun c hc => ?_, fun q r hr => ?_, fun q r side hside => ?_,
    fun q hX hreflexive side hside => ?_, fun q hq => ?_⟩, ⟨⟨⟨⟨⟨?_, fun r hr => ?_⟩,
      fun c hc hparent => ?_⟩, ?_⟩, ?_, ?_⟩, ?_⟩⟩
  · rcases hcases q with hquery | hquery
    · rw [hquery] at hc
      exact h.columns q c hc
    · rw [hquery] at hc
      cases hc
  · exact Nat.lt_of_lt_of_le (h.parents c hc) (by omega)
  · rcases hcases q with hquery | hquery
    · rw [hquery] at hr
      exact Nat.lt_of_lt_of_le (h.reads q r hr) (by omega)
    · rw [hquery] at hr
      cases hr
  · rcases hcases q with hquery | hquery
    · rw [hquery] at hside
      rcases hcases r with hquery' | hquery'
      · rw [hquery']
        exact h.apart q r side hside
      · rw [hquery']
        exact List.not_mem_nil
    · rw [hquery] at hside
      cases hside
  · rcases hcases q with hquery | hquery
    · rw [hquery] at hside ⊢
      have hvalid := h.reads q side (List.mem_append_right _ hside)
      rw [query_addQuery parent hvalid]
      refine h.agree q hX (fun e he => hreflexive e ?_) side hside
      simp only [Store.selected, hquery] at he ⊢
      exact he
    · rw [hquery] at hside
      cases hside
  · rcases hcases q with hquery | hquery
    · rw [hquery] at hq ⊢
      obtain ⟨hkind, hempty⟩ := h.groups q hq
      exact ⟨hkind, hempty⟩
    · rw [hquery]
      exact ⟨rfl, rfl⟩
  · simp [Store.addQuery]
  · rcases hcases r with hquery | hquery
    · rw [hquery] at hr
      exact absurd (h.reads r _ hr) (Nat.lt_irrefl _)
    · rw [hquery] at hr
      cases hr
  · have hlt := h.parents c hc
    have hparent : (s.column c).parent = ⟨s.queries.size⟩ := hparent
    rw [hparent] at hlt
    exact absurd hlt (Nat.lt_irrefl _)
  · rw [hself]
    rfl
  · rw [hself]
  · rw [hself]
    rfl
  · rw [hself]

/-- A query without groups still has no condition on them after a change of other clauses. -/
theorem Sound.groups_modifyQuery (h : s.Sound X) {f : Query → Query}
    (hgrouping : (f (s.query q)).grouping = (s.query q).grouping)
    (hhaving : (f (s.query q)).having = (s.query q).having) (r : QueryRef)
    (hr : ((s.modifyQuery q f).query r).isGrouped = false) :
    ((s.modifyQuery q f).query r).KeepsGroups := by
  rcases query_modifyQuery s q r f with ⟨rfl, hquery⟩ | hquery
  · rw [hquery, Query.isGrouped, hgrouping] at hr
    obtain ⟨hkind, hempty⟩ := h.groups r hr
    rw [hquery]
    exact ⟨hgrouping ▸ hkind, hhaving ▸ hempty⟩
  · rw [hquery] at hr ⊢
    exact h.groups r hr

/-- The columns of a query that is no side are exchanged for others, if the numbers still
agree. -/
theorem Sound.modifyColumns (h : s.Sound X) (hq : q.index < s.queries.size)
    (hside : ∀ r, q ∉ (s.query r).sides) (f : List ColumnRef → List ColumnRef)
    (hvalid : ∀ c ∈ f (s.query q).columns, c.index < s.columns.size)
    (hagree : ¬ X q → (∀ c ∈ f (s.query q).columns, (s.column c).expression.IsReflexive) →
      ∀ side ∈ (s.query q).sides,
        (s.query side).columns.length = (f (s.query q).columns).length) :
    (s.modifyQuery q fun query => { query with columns := f query.columns }).Sound X := by
  have hself := query_modifyQuery_self (s := s)
    (f := fun query => { query with columns := f query.columns }) hq
  have hother : ∀ r, r ≠ q → (s.modifyQuery q fun query =>
      { query with columns := f query.columns }).query r = s.query r :=
    fun r hr => query_modifyQuery_ne hr
  have hsame : ∀ r, ((s.modifyQuery q fun query =>
        { query with columns := f query.columns }).query r).sides = (s.query r).sides ∧
      ((s.modifyQuery q fun query =>
        { query with columns := f query.columns }).query r).subqueries =
          (s.query r).subqueries := by
    intro r
    by_cases hr : r = q
    · subst hr
      rw [hself]
      exact ⟨rfl, rfl⟩
    · rw [hother r hr]
      exact ⟨rfl, rfl⟩
  refine ⟨fun r c hc => ?_, fun c hc => ?_, fun r t ht => ?_, fun r t side hmem => ?_,
    fun r hX hreflexive side hmem => ?_, fun r hr => ?_⟩
  · by_cases heq : r = q
    · subst heq
      rw [hself] at hc
      exact hvalid c hc
    · rw [hother r heq] at hc
      exact h.columns r c hc
  · rw [size_modifyQuery]
    exact h.parents c hc
  · rw [Query.reads, (hsame r).1, (hsame r).2] at ht
    rw [size_modifyQuery]
    exact h.reads r t ht
  · rw [(hsame r).1] at hmem
    rw [(hsame t).2]
    exact h.apart r t side hmem
  · rw [(hsame r).1] at hmem
    have hne : side ≠ q := fun heq => hside r (heq ▸ hmem)
    rw [hother side hne]
    by_cases heq : r = q
    · subst heq
      rw [Store.selected, hself] at hreflexive
      rw [hself]
      exact hagree hX (fun c hc => hreflexive _ (List.mem_map.mpr ⟨c, hc, rfl⟩)) side hmem
    · rw [Store.selected, hother r heq] at hreflexive
      rw [hother r heq]
      exact h.agree r hX hreflexive side hmem
  · exact h.groups_modifyQuery rfl rfl r hr

/-- A query gets a set operator whose other side is an open query that selects as many
columns. -/
theorem Sound.addSetOperator (h : s.Sound X) {operator : SetOperator} (hq : q.index < s.queries.size)
    (hopen : s.Open operator.query)
    (hagree : ∀ side ∈ (s.query q).sides ++ [operator.query],
      (s.query side).columns.length = (s.query q).columns.length) :
    (s.modifyQuery q fun query =>
      { query with setOperators := query.setOperators ++ [operator] }).Sound X := by
  have hself := query_modifyQuery_self (s := s)
    (f := fun query => { query with setOperators := query.setOperators ++ [operator] }) hq
  have hother : ∀ r, r ≠ q → (s.modifyQuery q fun query =>
      { query with setOperators := query.setOperators ++ [operator] }).query r = s.query r :=
    fun r hr => query_modifyQuery_ne hr
  have hsame : ∀ r, ((s.modifyQuery q fun query =>
        { query with setOperators := query.setOperators ++ [operator] }).query r).columns =
          (s.query r).columns ∧
      ((s.modifyQuery q fun query =>
        { query with setOperators := query.setOperators ++ [operator] }).query r).subqueries =
          (s.query r).subqueries := by
    intro r
    by_cases hr : r = q
    · subst hr
      rw [hself]
      exact ⟨rfl, rfl⟩
    · rw [hother r hr]
      exact ⟨rfl, rfl⟩
  have hsides : ∀ r, ∀ side ∈ ((s.modifyQuery q fun query =>
        { query with setOperators := query.setOperators ++ [operator] }).query r).sides,
      side ∈ (s.query r).sides ∨ r = q ∧ side = operator.query := by
    intro r side hside
    by_cases hr : r = q
    · subst hr
      rw [hself, Query.sides, List.map_append, List.mem_append] at hside
      exact hside.imp_right fun hmem => ⟨rfl, List.mem_singleton.mp hmem⟩
    · rw [hother r hr] at hside
      exact .inl hside
  refine ⟨fun r c hc => ?_, fun c hc => ?_, fun r t ht => ?_, fun r t side hside => ?_,
    fun r hX hreflexive side hside => ?_, fun r hr => ?_⟩
  · rw [(hsame r).1] at hc
    exact h.columns r c hc
  · rw [size_modifyQuery]
    exact h.parents c hc
  · rw [size_modifyQuery]
    rcases List.mem_append.mp ht with ht | ht
    · rw [(hsame r).2] at ht
      exact h.reads r t (List.mem_append_left _ ht)
    · rcases hsides r t ht with ht | ⟨-, rfl⟩
      · exact h.reads r t (List.mem_append_right _ ht)
      · exact hopen.valid
  · rw [(hsame t).2]
    rcases hsides r side hside with hside | ⟨-, rfl⟩
    · exact h.apart r t side hside
    · exact hopen.not_subquery t
  · rw [(hsame side).1, (hsame r).1]
    rcases hsides r side hside with hside | ⟨rfl, rfl⟩
    · refine h.agree r hX (fun e he => hreflexive e ?_) side hside
      rwa [Store.selected, (hsame r).1]
    · exact hagree _ (List.mem_append_right _ (List.mem_singleton_self _))
  · exact h.groups_modifyQuery rfl rfl r hr

end Store

namespace LowerM.Triple

variable {α : Type} {ctx : LowerContext}

/-! ## Properties of sound stores -/

/-- A fact that is not about the store. -/
theorem assume {φ : Prop} {step : LowerM α} {Q : α → Store → Prop}
    (h : φ → step.Triple ctx (At X F) Q) : step.Triple ctx (At X fun s => φ ∧ F s) Q :=
  fun st a st' hs hgives => h hs.2.1 st a st' ⟨hs.1, hs.2.2⟩ hgives

/-- What keeps stores sound may be followed by what relies on a lasting property. -/
theorem frameAt {step : LowerM α} {A : Nat → α → Prop} {Y : α → QueryRef → Prop}
    {G : α → Store → Prop} [Lasting F] (hkeeps : ∀ n, step.Keeps n (A n))
    (h : step.Triple ctx (·.Sound X) fun a => At (Y a) (G a)) :
    step.Triple ctx (At X F) fun a => At (Y a) fun s => G a s ∧ F s :=
  (frame (F := F) hkeeps h).post fun _ _ hs => ⟨hs.1.1, hs.1.2, hs.2⟩

/-- A step that keeps stores sound and keeps the queries that are there. -/
theorem keepAt {step : LowerM α} {A : Nat → α → Prop} [Lasting F]
    (hkeeps : ∀ n, step.Keeps n (A n))
    (h : step.Triple ctx (·.Sound X) fun _ => (·.Sound X)) :
    step.Triple ctx (At X F) fun _ => At X F :=
  frame (F := F) hkeeps h

/-- A change of a clause that is not about columns, reads and groups. -/
theorem modifyClause [Structural F] {f : Query → Query}
    (hf : ∀ query : Query, query.SameOutline (f query)) :
    Triple ctx (At X F) (LowerM.modifyQuery q f) fun _ => At X F := by
  refine modifyQuery fun s hs => ?_
  have hsame := Store.sameOutline_modifyQuery (q := q) (hf (s.query q))
  exact ⟨hsame.sound hs.1, Structural.congr hsame hs.2⟩

theorem addWhere [Structural F] (condition : Condition) :
    Triple ctx (At X F) (LowerM.addWhere q condition) fun _ => At X F :=
  modifyClause fun _ => ⟨rfl, rfl, rfl, rfl, rfl⟩

theorem instantiate [Structural F] (entity : EntityMapping) :
    Triple ctx (At X F) (LowerM.ofStoreM entity.instantiate) fun _ => At X F := by
  refine (allocate (Q := fun _ => At X F) fun s hs => (entity.instantiate_grows s).at hs).bind
    fun result => ?_
  cases result with
  | ok t => exact done t
  | error e => exact throw e

theorem addTable [Structural F] (table : Table) (specs : List FieldSpec) :
    Triple ctx (At X F) (LowerM.allocate fun s => s.addTable table specs) fun _ => At X F :=
  allocate fun s hs => (Store.GrowsTables.addTable s table specs).at hs

theorem tableOf [Structural F] (t : Term) :
    Triple ctx (At X F) (LowerM.tableOf t) fun _ => At X F := by
  fun_induction LowerM.tableOf t with
  | case1 name =>
    exact read (checked.bind fun _ => (instantiate _).bind fun _ => store fun _ => done _)
  | case2 inner ih => exact ih
  | case3 => exact refuse _ _

theorem newQuery [Lasting F] (parent : Option QueryRef) :
    Triple ctx (At X F) (LowerM.newQuery parent) fun q => At X fun s => s.Empty q ∧ F s :=
  frameAt (Y := fun _ => X) (fun _ => (LowerM.keeps_bounded _).newQuery parent)
    (allocate fun _ hs => hs.addQuery parent)

/-- A new query is none that was there. -/
theorem newQuery_ne [Lasting F] (parent : Option QueryRef) (hq : ∀ s, F s → q.index < s.queries.size) :
    Triple ctx (At X F) (LowerM.newQuery parent) fun r =>
      At X fun s => q ≠ r ∧ s.Fresh r ∧ F s := by
  have habove : ∀ s : Store, s.At X F → q.index + 1 ≤ s.queries.size := fun s hs => hq s hs.2
  refine (above (fun _ => (LowerM.keeps_bounded _).newQuery parent) habove (newQuery parent)).post
    fun r s hs => ⟨hs.1.1, fun heq => ?_, hs.1.2.1.toFresh, hs.1.2.2⟩
  subst heq
  exact absurd hs.2 (Nat.not_succ_le_self _)

theorem addTableSource [Structural F] (t : TableRef) :
    Triple ctx (At X F) (LowerM.addSource q (.ofTable t)) fun _ => At X F := by
  refine modifyClause fun query => ⟨rfl, ?_, rfl, rfl, rfl⟩
  simp [Query.subqueries, Query.allSources, Source.ofTable, Source.all, Source.joined,
    Source.query?]

end LowerM.Triple

/-! ## Columns for scalars -/

/-- A group is exposed without its elements, which have no leaves. -/
theorem LowerM.Triple.expose {P : Store → Prop} (p : Projection) (ctx : LowerContext)
    (hcolumn : ∀ e ∈ p.scalars, ∀ path ctx, (LowerM.columnFor q e path).Triple ctx P fun _ => P) :
    (LowerM.expose q p).Triple ctx P fun _ => P := by
  refine Projection.mapLeavesAt_closed (LowerM.keeping_closed P) _ "" (fun leaf hleaf path ctx => ?_) ctx
  refine (hcolumn leaf.2 ?_ path ctx).bind fun _ => .done _
  cases p with
  | grouping key element => exact List.mem_map.mpr ⟨leaf, hleaf, rfl⟩
  | _ => exact List.mem_map.mpr ⟨leaf, hleaf, rfl⟩

/-- A step that gives columns to a query and changes nothing else. -/
def LowerM.Widens (ctx : LowerContext) (q : QueryRef) {α : Type} (step : LowerM α) : Prop :=
  ∀ s : Store, q.index < s.queries.size → step.Triple ctx (s.Widens q) fun _ => s.Widens q

namespace LowerM.Widens

variable {α : Type} {ctx : LowerContext}

theorem addColumn (e : Scalar) (aliasName : Option String) :
    Widens ctx q (LowerM.allocate fun s => s.addColumn q e aliasName) := fun _ hq =>
  .allocate fun _ hs => hs.trans (Store.widens_addColumn (hs.size ▸ hq) e aliasName)

theorem addFreshColumn (e : Scalar) (aliasName : Option String) :
    Widens ctx q (LowerM.allocate fun s => s.addFreshColumn q e aliasName) := fun _ hq =>
  .allocate fun _ hs => hs.trans (Store.grows_addFreshColumn (hs.size ▸ hq) trivial aliasName)

theorem columnFor (e : Scalar) (path : String) : Widens ctx q (LowerM.columnFor q e path) := by
  intro s hq
  have hadd : Triple ctx (s.Widens q)
      (LowerM.allocate fun s => s.addColumn q e (Projection.leafAlias path)) fun _ => s.Widens q :=
    addColumn e (Projection.leafAlias path) s hq
  refine .store fun s' => ?_
  cases e with
  | column c => exact .ite (.done _) hadd
  | _ => exact hadd

theorem expose (p : Projection) : Widens ctx q (LowerM.expose q p) := fun s hq =>
  LowerM.Triple.expose p ctx fun e _ path _ => columnFor e path s hq

theorem materialize (p : Projection) (fresh : Bool) :
    Widens ctx q (LowerM.materialize q p fresh) := by
  intro s hq
  refine (LowerM.Triple.refuseGrouping p).bind fun _ =>
    LowerM.Triple.bind (LowerM.Triple.forIn (fun _ => s.Widens q) (b := [])
      fun _ leaf _ => ?_) fun _ => .done _
  refine .ite ?_ ?_
  · exact (addFreshColumn leaf.2 _ s hq).bind fun _ => .pure fun _ h => ⟨rfl, h⟩
  · exact (columnFor leaf.2 leaf.1 s hq).bind fun _ => .pure fun _ h => ⟨rfl, h⟩

/-- A query without set operators that is no side of one may get columns. -/
theorem triple {step : LowerM α} (h : step.Widens ctx q) (hbare : ∀ s, G s → s.Bare q)
    (hlast : ∀ {s s' : Store}, s.Widens q s' → G s → G s') :
    step.Triple ctx (At X G) fun _ => At X G := by
  refine .ofStores fun s hs => (h s (hbare s hs.2).valid).mono (fun s' h => ?_)
    fun _ s' hwidens => ⟨?_, hlast hwidens hs.2⟩
  · subst h
    exact .refl _ q _
  · refine hs.1.grows hwidens (hbare s hs.2).valid (hbare s hs.2).toOpen.not_side ?_
    intro _ _ side hside
    rw [(hbare s hs.2).sides] at hside
    cases hside

theorem bareAt {step : LowerM α} (h : step.Widens ctx q) :
    step.Triple ctx (At X (Bare q)) fun _ => At X (Bare q) :=
  h.triple (fun _ => id) fun hwidens hs => hs.grows hwidens

end LowerM.Widens

/-! ## Reading a query from outside -/

/-- The columns of a query are those it had, or one of them is not equal to itself. -/
def Store.SelectsAsIn (s : Store) (q : QueryRef) (s' : Store) : Prop :=
  (∀ e ∈ s'.selected q, e.IsReflexive) → s'.selected q = s.selected q

/-- A scalar that a query selects gets no column, if it is equal to itself. -/
theorem Store.SelectsAsIn.addColumn {s' : Store} {e : Scalar} (h : s.SelectsAsIn q s')
    (he : e ∈ s.selected q) (hq : q.index < s'.queries.size)
    (hvalid : ∀ c ∈ (s'.query q).columns, c.index < s'.columns.size)
    (aliasName : Option String) : s.SelectsAsIn q (s'.addColumn q e aliasName).2 := by
  rcases s'.addColumn_cases q e aliasName with hsame | ⟨hnew, hadded⟩
  · rw [hsame]
    exact h
  · intro hreflexive
    rw [hadded, selected_addFreshColumn hq hvalid] at hreflexive
    have hold := h fun e he => hreflexive e (List.mem_append_left _ he)
    have hself : (e == e) = true :=
      hreflexive e (List.mem_append_right _ (List.mem_singleton_self e))
    have hdiffers := hnew e (hold ▸ he)
    rw [hself] at hdiffers
    cases hdiffers

/-- The columns of a query that got columns are there. -/
theorem Store.Grows.valid {E : Scalar → Prop} (h : s.Grows E q s')
    (hvalid : ∀ c ∈ (s.query q).columns, c.index < s.columns.size) :
    ∀ c ∈ (s'.query q).columns, c.index < s'.columns.size := by
  intro c hc
  obtain ⟨new, hquery, hnew⟩ := h.added
  rw [hquery] at hc
  rcases List.mem_append.mp hc with hc | hc
  · exact Nat.lt_of_lt_of_le (hvalid c hc) h.columns
  · exact (hnew c hc).1

variable {ctx : LowerContext} {st st' : LowerState} {p p' : Projection}

/-- A column for a scalar that a query selects is there already, or the scalar differs from
itself. -/
theorem LowerM.Triple.columnFor_selected {e : Scalar} (hq : q.index < s.queries.size)
    (hvalid : ∀ c ∈ (s.query q).columns, c.index < s.columns.size) (he : e ∈ s.selected q)
    (path : String) :
    (LowerM.columnFor q e path).Triple ctx (fun s' => s.Widens q s' ∧ s.SelectsAsIn q s')
      fun _ s' => s.Widens q s' ∧ s.SelectsAsIn q s' := by
  have hadd : (LowerM.allocate fun s => s.addColumn q e (Projection.leafAlias path)).Triple ctx
      (fun s' => s.Widens q s' ∧ s.SelectsAsIn q s') fun _ s' =>
        s.Widens q s' ∧ s.SelectsAsIn q s' :=
    .allocate fun s' hs => ⟨hs.1.trans (Store.widens_addColumn (hs.1.size ▸ hq) e _),
      hs.2.addColumn he (hs.1.size ▸ hq) (hs.1.valid hvalid) _⟩
  refine .store fun s' => ?_
  cases e with
  | column c => exact .ite (.done _) hadd
  | _ => exact hadd

/-- Reading a query from outside adds no column to one that has set operators, unless one of its
columns differs from itself. -/
theorem LowerM.Gives.expose_sound (hsound : st.store.Sound X) (hreadable : st.store.Readable q p)
    (h : (LowerM.expose q p).Gives ctx st p' st') :
    st'.store.Sound X ∧ st.store.Widens q st'.store := by
  have hwidens := LowerM.Widens.expose p st.store hreadable.valid st p' st' (.refl _ q _) h
  refine ⟨hsound.grows hwidens hreadable.valid hreadable.not_side
    fun _ hreflexive side hmem => ?_, hwidens⟩
  rcases hreadable.fits with hsides | hfits
  · rw [hsides] at hmem
    cases hmem
  · have htriple : (LowerM.expose q p).Triple ctx
        (fun s' => st.store.Widens q s' ∧ st.store.SelectsAsIn q s') fun _ s' =>
          st.store.Widens q s' ∧ st.store.SelectsAsIn q s' := .expose p ctx fun e he path _ =>
      .columnFor_selected hreadable.valid hfits.valid (hfits.selected ▸ he) path
    have hsame := (htriple st p' st' ⟨.refl _ q _, fun _ => rfl⟩ h).2 hreflexive
    rw [(hfits.sides side hmem).2, ← Store.length_selected, ← Store.length_selected, hsame]

/-- The clauses of a bare query are changed, and open queries may become subqueries of it. -/
theorem Store.Sound.read {outer : QueryRef} (hsound : s.Sound X) (houter : s.Bare outer)
    {f : Query → Query}
    (hcolumns : (f (s.query outer)).columns = (s.query outer).columns)
    (hsides : (f (s.query outer)).sides = (s.query outer).sides)
    (hgroups : (f (s.query outer)).isGrouped = false → (f (s.query outer)).KeepsGroups)
    (hnew : ∀ r ∈ (f (s.query outer)).reads,
      r ∈ (s.query outer).reads ∨ s.Open r ∧ r ≠ outer) :
    (s.modifyQuery outer f).At X (Bare outer) := by
  have hsame : s.SameSelection (s.modifyQuery outer f) :=
    Store.sameSelection_modifyQuery hcolumns hsides
  have hsubqueries : ∀ r ∈ (f (s.query outer)).subqueries,
      r ∈ (s.query outer).subqueries ∨ s.Open r ∧ r ≠ outer := fun r hr => by
    simpa [Query.reads, houter.sides] using hnew r (List.mem_append_left _ hr)
  have hreads : ∀ q, ∀ r ∈ ((s.modifyQuery outer f).query q).subqueries,
      r ∈ (s.query q).subqueries ∨ s.Open r ∧ r ≠ outer := by
    intro q r hr
    rcases Store.query_modifyQuery s outer q f with ⟨rfl, hquery⟩ | hquery
    · exact hsubqueries r (hquery ▸ hr)
    · exact .inl (hquery ▸ hr)
  refine ⟨hsound.congr hsame (fun q r hr => ?_) fun q hq => ?_,
    houter.congr hsame ⟨by rw [hsame.size]; exact houter.valid, fun r hr => ?_⟩⟩
  · exact (hreads q r hr).imp_right And.left
  · rcases Store.query_modifyQuery s outer q f with ⟨rfl, hquery⟩ | hquery
    · rw [hquery] at hq ⊢
      exact hgroups hq
    · rw [hquery] at hq ⊢
      exact hsound.groups q hq
  · rcases List.mem_append.mp hr with hr | hr
    · rcases hreads r outer hr with hr | ⟨-, hne⟩
      · exact houter.not_subquery r hr
      · exact hne rfl
    · rw [hsame.sides] at hr
      exact houter.not_side r hr

namespace LowerM.Triple

variable {lowered : Lowered}

/-- A lowered sequence becomes the subquery of a fresh query. -/
theorem addSubquery {outer : QueryRef} (hne : lowered.query ≠ outer) :
    Triple ctx (At X fun s => s.Fresh outer ∧ lowered.Selected s)
      (LowerM.modifyQuery outer fun q =>
        { q with sources := q.sources ++ [.ofQuery lowered.query] })
      fun _ => At X fun s => s.Fresh outer ∧ s.Readable lowered.query lowered.projection := by
  refine modifyQuery fun s ⟨hsound, hfresh, hselected⟩ => ?_
  have hsame : s.SameSelection (s.modifyQuery outer fun q =>
      { q with sources := q.sources ++ [.ofQuery lowered.query] }) :=
    Store.sameSelection_modifyQuery rfl rfl
  obtain ⟨hsound', hbare⟩ := hsound.read hfresh.toBare
    (f := fun q => { q with sources := q.sources ++ [.ofQuery lowered.query] }) rfl rfl
    (fun hungrouped => ⟨(hsound.groups outer hungrouped).kind, (hsound.groups outer hungrouped).having⟩)
    fun r hr => ((Query.reads_addSource _ _ r).mp hr).imp_right fun hmem => by
      cases hmem
      exact ⟨hselected.active.toOpen, hne⟩
  refine ⟨hsound', ⟨hbare, (hsame.columns outer).trans hfresh.columns, ?_⟩,
    hselected.readable.congr hsame⟩
  rw [Store.query_modifyQuery_self hfresh.valid]
  exact hfresh.ungrouped

/-- What is exposed may still be changed, if it could be before. -/
theorem exposeAt {q : QueryRef} {p : Projection} (hreadable : ∀ s, F s → s.Readable q p)
    (hlast : ∀ s s', s.Widens q s' → F s → G s') :
    Triple ctx (At X F) (LowerM.expose q p) fun _ => At X G := by
  intro st p' st' hs h
  obtain ⟨hsound, hwidens⟩ := h.expose_sound hs.1 (hreadable _ hs.2)
  exact ⟨hsound, hlast _ _ hwidens hs.2⟩

/-- A wrapped query is read by a new one that selects nothing yet. -/
theorem wrap : Triple ctx (At X lowered.Selected) (LowerM.wrap lowered) fun wrapped =>
    At X fun s => wrapped.outcome = .sequence ∧ s.Fresh wrapped.query := by
  refine knowing (fun s hs => hs.2.outcome) fun houtcome => store fun _ =>
    (newQuery_ne _ fun s hs => hs.active.valid).bind fun outer => assume fun hne => ?_
  refine (modifyClause fun _ => ?_).bind fun _ => (addSubquery hne).bind fun _ =>
    (exposeAt (G := fun s => s.Fresh outer) (fun _ h => h.2) fun s s' hwidens hs => ?_).bind fun _ =>
      pure fun s hs => ⟨hs.1, houtcome, hs.2⟩
  · exact ⟨rfl, rfl, rfl, rfl, rfl⟩
  · refine ⟨hs.1.toBare.grows hwidens, ?_, ?_⟩
    · rw [hwidens.query outer hne.symm, hs.1.columns]
    · rw [hwidens.query outer hne.symm, hs.1.ungrouped]

/-- If a test holds for set operators, what it does not hold for is bare. -/
theorem wrapIf {test : Query → Bool} (htest : ∀ query : Query, query.sides ≠ [] → test query = true) :
    Triple ctx (At X lowered.Selected) (LowerM.wrapIf test lowered) fun wrapped =>
      At X wrapped.Plain := by
  refine storeAt fun s hs => ?_
  split
  · exact wrap.mono (fun s' h => h ▸ hs) fun wrapped s h => ⟨h.1, h.2.1, h.2.2.toBare⟩
  · next h =>
    refine pure fun s' heq => ?_
    subst heq
    refine ⟨hs.1, hs.2.outcome, hs.2.active, ?_⟩
    by_contra hsides
    exact h (htest _ hsides)

/-- Columns for every leaf of a projection, after the ones that are there. -/
theorem materialize_fresh {q : QueryRef} {p : Projection} {s : Store}
    (hq : q.index < s.queries.size) (hvalid : ∀ c ∈ (s.query q).columns, c.index < s.columns.size) :
    Triple ctx (fun s' => s' = s) (LowerM.materialize q p true) fun _ s' =>
      s.Widens q s' ∧ s'.selected q = s.selected q ++ p.scalars := by
  refine (refuseGrouping p).bind fun _ => ?_
  refine (bind (forIn (fun (leaves : List (String × Scalar)) s' => s.Widens q s' ∧
    s'.selected q = s.selected q ++ leaves.map (·.2)) (b := []) fun before leaf _ => ?_)
      fun _ => done _).pre fun s' h => ?_
  · refine (allocate (Q := fun _ s' => s.Widens q s' ∧ s'.selected q =
      s.selected q ++ (before ++ [leaf]).map (·.2)) fun s' hs => ⟨?_, ?_⟩).bind fun _ =>
        pure fun s' hs => ⟨rfl, hs⟩
    · exact hs.1.trans (Store.grows_addFreshColumn (hs.1.size ▸ hq) trivial _)
    · rw [Store.selected_addFreshColumn (hs.1.size ▸ hq) (hs.1.valid hvalid), hs.2,
        List.append_assoc, List.map_append]
      rfl
  · subst h
    exact ⟨.refl _ q _, (List.append_nil _).symm⟩

/-- A query that selects nothing yet comes to select the scalars of its projection. -/
theorem materialize_selected (hselected : lowered.Selected s) (hsound : s.Sound X)
    (hcolumns : (s.query lowered.query).columns = []) :
    Triple ctx (fun s' => s' = s) (LowerM.materialize lowered.query lowered.projection true)
      fun _ => At X fun s' => s'.Active lowered.query ∧
        s'.Fits lowered.query lowered.projection := by
  have hq := hselected.active.valid
  have hvalid := hsound.columns lowered.query
  have hnone : s.selected lowered.query = [] := by simp [Store.selected, hcolumns]
  refine (materialize_fresh hq hvalid).post fun _ s' hs' => ?_
  obtain ⟨hwidens, hafter⟩ := hs'
  rw [hnone, List.nil_append] at hafter
  have hsides : ∀ side ∈ (s.query lowered.query).sides, side.index < s.queries.size ∧
      (s.query side).columns.length = (s'.query lowered.query).columns.length := by
    intro side hside
    rcases hselected.fits with hempty | hfits
    · rw [hempty] at hside
      cases hside
    · obtain ⟨hindex, hlength⟩ := hfits.sides side hside
      rw [hlength, ← Store.length_selected s', hafter, ← hfits.selected, Store.length_selected]
      exact ⟨hindex, rfl⟩
  refine ⟨hsound.grows hwidens hq hselected.active.not_side fun _ _ side hside =>
    (hsides side hside).2, hselected.active.grows hwidens, hwidens.valid hvalid, hafter,
    fun side hside => ?_⟩
  rw [(hwidens.outline _).2.1] at hside
  have hne : side ≠ lowered.query := fun heq => hselected.active.not_side _ (heq ▸ hside)
  rw [hwidens.size, hwidens.query side hne]
  exact hsides side hside

/-- A side of a set operator selects the scalars of its projection. -/
theorem asSide {test : Query → Bool} :
    Triple ctx (At X lowered.Selected) (lowered.asSide test) fun side => At X side.Side := by
  refine (modifyClause fun query => ?_).bind fun _ => bind (Q := fun side => At X fun s =>
    side.Selected s ∧ ((s.query side.query).columns = [] ∨ (s.query side.query).sides ≠ [])) ?_
      fun side => storeAt fun s ⟨hsound, hselected, hcolumns⟩ => ?_
  · split <;> exact ⟨rfl, rfl, rfl, rfl, rfl⟩
  · refine storeAt fun s hs => ?_
    split
    · exact wrap.mono (fun s' h => h ▸ hs) fun wrapped s h =>
        ⟨h.1, (⟨h.2.1, h.2.2.toBare⟩ : wrapped.Plain s).selected, .inl h.2.2.columns⟩
    · next htest =>
      refine pure fun s' heq => ?_
      subst heq
      refine ⟨hs.1, hs.2, ?_⟩
      by_cases hempty : (s'.query lowered.query).columns = []
      · exact .inl hempty
      · refine .inr fun hsides => htest ?_
        have hnone : (s'.query lowered.query).setOperators = [] := List.map_eq_nil_iff.mp hsides
        simp [Query.hasSetOperators, hnone, hempty]
  · split
    · next hempty =>
      exact (materialize_selected hselected hsound (List.isEmpty_iff.mp hempty)).bind fun _ =>
        pure fun s' hs => ⟨hs.1, hselected.outcome, hs.2.1, hs.2.2⟩
    · next hempty =>
      refine pure fun s' heq => ?_
      subst heq
      have hsides := hcolumns.resolve_left fun h => hempty (List.isEmpty_iff.mpr h)
      exact ⟨hsound, hselected.outcome, hselected.active, hselected.fits.resolve_left hsides⟩

end LowerM.Triple

end SqlCompiler
