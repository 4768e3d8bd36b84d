import SqlCompiler.Proofs.Idempotence.Grafts

/-!
# Modifications over several tables

An update or a delete over several tables is rebuilt as one over a single table: its inner joins
become further sources where the dialect has those, else its query is put below a new one.  It is not
rebuilt again.

Main results:

- Definition `Store.Undivided`: a statement that is not to be rebuilt.
- Definition `Store.Rebuilds`: a statement has been rebuilt, and its queries are paged as they were.
- Theorem `Store.ready_restructureDml`: a statement is not rebuilt twice.
- Theorem `Store.rebuilds_restructureDml`: what rebuilding a statement does.
-/

namespace SqlCompiler

/-- The table that a statement names as its target. -/
def StatementBody.target? : StatementBody → Option TableRef
  | .update u _ => u.table
  | .delete table _ _ => table
  | _ => none

namespace Store

variable {s s' : Store} {t : StatementRef} {q r : QueryRef}

/-! ## Statements that are not to be rebuilt -/

/-- A statement is an update or a delete over a single table, or one that the dialect has for several
tables. -/
def Undivided (s : Store) (rules : Capabilities) (t : StatementRef) : Prop :=
  rules.multiTableDml = false →
    ((s.statement t).body.isDelete = true →
      (s.query (s.statement t).query).isMultiTable = false) ∧
    ((s.statement t).body.isUpdate = true →
      if rules.updateFrom then ∀ lone ∈ (s.query (s.statement t).query).lone, lone = true
      else (s.query (s.statement t).query).isMultiTable = false)

theorem Undivided.of_single {rules : Capabilities}
    (h : (s.query (s.statement t).query).isMultiTable = false) : s.Undivided rules t := by
  refine fun _ => ⟨fun _ => h, fun _ => ?_⟩
  split
  · rw [Query.isMultiTable_eq, Bool.or_eq_false_iff, List.any_eq_false] at h
    exact fun lone hlone => by simpa using h.2 lone hlone
  · exact h

/-- What is undivided is not restructured. -/
theorem Undivided.restructureDml {rules : Capabilities} (h : s.Undivided rules t) :
    s.restructureDml rules t = (.ok (), s) := by
  unfold Store.restructureDml
  split
  · rfl
  · next hrules =>
    obtain ⟨hdelete, hupdate⟩ := h (Bool.eq_false_iff.mpr hrules)
    split
    · next hbody =>
      have hsingle := hdelete (by rw [hbody]; rfl)
      rw [splitDelete]
      simp only [hbody, hsingle, Bool.not_false, if_true]
    · next hbody =>
      have hsingle := hupdate (by rw [hbody]; rfl)
      split
      · next hfrom =>
        rw [if_pos hfrom] at hsingle
        have hlone : ((s.query (s.statement t).query).sources.all fun source =>
            source.joins.isEmpty) = true :=
          List.all_eq_true.mpr fun source hsource => hsingle _ (List.mem_map_of_mem hsource)
        rw [flattenUpdate]
        simp only [hbody, hlone, if_true]
      · next hfrom =>
        rw [if_neg hfrom] at hsingle
        rw [splitUpdate]
        simp only [hbody, hsingle, Bool.not_false, if_true]
    · rfl

theorem statement_modifyStatement (f : Statement → Statement) (h : t.index < s.statements.size) :
    (s.modifyStatement t f).statement t = f (s.statement t) := by
  simp [statement, modifyStatement, Array.getElem?_modify, Array.getElem?_eq_getElem h]

/-- A statement is not to be rebuilt, and its query is in the store. -/
structure Ready (s : Store) (rules : Capabilities) (t : StatementRef) : Prop where
  undivided : s.Undivided rules t
  valid : (s.statement t).query.index < s.queries.size

/-- A statement over a query of a single table. -/
theorem ready_modifyStatement {rules : Capabilities} {f : Statement → Statement}
    (hlone : ∀ statement, (s.query (f statement).query).lone = [true])
    (hvalid : ∀ statement, (f statement).query.index < s.queries.size) :
    (s.modifyStatement t f).Ready rules t := by
  by_cases ht : t.index < s.statements.size
  · have hstatement := statement_modifyStatement f ht
    refine ⟨.of_single ?_, by rw [hstatement]; exact hvalid _⟩
    rw [hstatement, Query.isMultiTable_eq]
    change (decide ((s.query _).lone.length > 1) || (s.query _).lone.any (!·)) = false
    rw [hlone]
    rfl
  · have hsize : (s.modifyStatement t f).statements.size ≤ t.index := by
      simpa [modifyStatement] using Nat.le_of_not_lt ht
    have hnone : (s.modifyStatement t f).statement t = default := by
      rw [statement, Array.getElem?_eq_none hsize]
      rfl
    refine ⟨?_, by rw [hnone]; exact Nat.zero_lt_of_lt (hvalid default)⟩
    rw [Undivided, hnone]
    exact fun _ => ⟨fun h => (by cases h), fun h => (by cases h)⟩

/-- A statement has been rebuilt: it is not to be rebuilt again, and a query that is paged was, and is
about distinct rows if it was. -/
structure Rebuilds (s : Store) (rules : Capabilities) (t : StatementRef) (s' : Store) : Prop
    extends s'.Ready rules t where
  paged : ∀ q, s'.Reaches t q → (s'.query q).hasPagination = true →
    s.Reaches t q ∧ (s.query q).hasPagination = true ∧ (s'.query q).distinct = (s.query q).distinct

theorem Rebuilds.refl {rules : Capabilities} (h : s.Ready rules t) : s.Rebuilds rules t s where
  toReady := h
  paged _ hq hpagination := ⟨hq, hpagination, rfl⟩

/-- Queries that are paged were, in the same way. -/
theorem Grafts.paged {s'' : Store} (h : s.Grafts t s') (hquery : s''.query = s'.query)
    (hsuccessors : s''.successors = s'.successors)
    (hroots : ∀ r ∈ s''.rootQueries (s''.statement t), s.Admits t r) :
    ∀ q, s''.Reaches t q → (s''.query q).hasPagination = true → s.Reaches t q ∧
      (s.query q).hasPagination = true ∧ (s''.query q).distinct = (s.query q).distinct := by
  intro q hq hpagination
  have hadmits : s.Admits t q := by
    clear hpagination
    induction hq with
    | root hroot => exact hroots _ hroot
    | step _ hr ih => exact h.successors _ ih _ (hsuccessors ▸ hr)
  rw [hquery] at hpagination ⊢
  have hold : ¬s.queries.size ≤ q.index := fun hnew => by
    rw [h.fresh q hnew] at hpagination
    cases hpagination
  have hsize := Nat.lt_of_not_le hold
  refine ⟨hadmits.resolve_right hold, ?_, h.distinct q hsize⟩
  rwa [h.hasPagination q hsize] at hpagination

/-- A statement that has a query put above its own has been rebuilt. -/
theorem Grafts.rebuilds {rules : Capabilities} {f : Statement → Statement} (h : s.Grafts t s')
    (ht : t.index < s.statements.size)
    (hready : (s'.modifyStatement t f).Ready rules t)
    (hfresh : s.queries.size ≤ (f (s.statement t)).query.index)
    (hctes : (f (s.statement t)).ctes = (s.statement t).ctes)
    (hbody : ∀ r, .query r ∈ (f (s.statement t)).body.walk → s.Admits t r) :
    s.Rebuilds rules t (s'.modifyStatement t f) := by
  have hstatement : (s'.modifyStatement t f).statement t = f (s.statement t) := by
    rw [statement_modifyStatement f (by rw [h.statements]; exact ht), statement, h.statements]
    rfl
  have hcte : (s'.modifyStatement t f).cte = s.cte := by
    funext c
    rw [cte, cte, ← h.ctes]
    rfl
  refine ⟨hready, h.paged rfl rfl fun r hroot => ?_⟩
  rw [hstatement, rootQueries, hctes, hcte] at hroot
  rcases List.mem_append.mp hroot with hroot | hroot
  · rcases List.mem_cons.mp hroot with rfl | hroot
    · exact .inr hfresh
    · exact .inl (.root (List.mem_append_left _ (List.mem_cons_of_mem _ hroot)))
  · exact hbody _ (mem_queriesOf.mp hroot)

/-- The target of an update or a delete reads what the statement leads to, if it is not named. -/
theorem admits_dmlTarget {table : Option TableRef} {target : TableRef}
    (hnamed : ∀ target, table = some target → s.cteBody? (.ofTable target) = none)
    (hq : s.Reaches t q) (htarget : s.dmlTarget? q table = some target)
    (hr : s.cteBody? (.ofTable target) = some r) : s.Admits t r := by
  cases table with
  | some named =>
    obtain rfl : named = target := Option.some.inj htarget
    rw [hnamed named rfl] at hr
    cases hr
  | none =>
    simp only [dmlTarget?, Option.bind_eq_bind, Option.bind_eq_some_iff] at htarget
    obtain ⟨source, hsource, htable⟩ := htarget
    refine .inl (.step hq (mem_successors.mpr (.inr ⟨source, ?_, ?_⟩)))
    · refine List.mem_flatMap.mpr ⟨source, List.mem_of_mem_head? hsource, ?_⟩
      cases source
      exact List.mem_cons_self
    · rw [← hr, cteBody?, htable]
      rfl

theorem reaches_query (s : Store) (t : StatementRef) : s.Reaches t (s.statement t).query :=
  .root (List.mem_append_left _ List.mem_cons_self)

theorem reaches_body (h : .query r ∈ (s.statement t).body.walk) : s.Reaches t r :=
  .root (List.mem_append_right _ (mem_queriesOf.mpr h))

/-- A statement that is not a selecting one is in the store. -/
theorem lt_of_body_ne (h : (s.statement t).body ≠ .select) : t.index < s.statements.size := by
  by_contra hsize
  refine h ?_
  rw [statement, Array.getElem?_eq_none (Nat.le_of_not_lt hsize)]
  rfl

/-! ## Inner joins as further sources -/

mutual

theorem flatSources_eq (source : Source) :
    flatSources source = source.all.map fun x => { x with joins := [] } := by
  obtain ⟨item, aliasName, joins⟩ := source
  rw [flatSources, Source.all, List.map_cons, flatJoined_eq joins]

theorem flatJoin_eq (join : Join) :
    flatJoin join = (Source.ofJoin join).map fun x => { x with joins := [] } := by
  obtain ⟨kind, source, condition⟩ := join
  exact flatSources_eq source

theorem flatJoined_eq (joins : List Join) :
    flatJoined joins = (Source.joined joins).map fun x => { x with joins := [] } := by
  cases joins with
  | nil => rfl
  | cons join rest =>
    rw [flatJoined, Source.joined, List.map_append, flatJoin_eq join, flatJoined_eq rest]

end

mutual

/-- The conditions below a source are those of joins of its sources. -/
theorem mem_joinConditions {c : Condition} (source : Source) (h : c ∈ joinConditions source) :
    ∃ x ∈ source.all, c ∈ x.joins.map (·.condition) := by
  obtain ⟨item, aliasName, joins⟩ := source
  rcases mem_conditionsOf joins h with h | ⟨x, hx, h⟩
  · exact ⟨_, List.mem_cons_self, h⟩
  · exact ⟨x, List.mem_cons_of_mem _ hx, h⟩

theorem mem_conditionsOfJoin {c : Condition} (join : Join) (h : c ∈ conditionsOfJoin join) :
    c = join.condition ∨ ∃ x ∈ Source.ofJoin join, c ∈ x.joins.map (·.condition) := by
  obtain ⟨kind, source, condition⟩ := join
  exact (List.mem_cons.mp h).imp_right (mem_joinConditions source)

theorem mem_conditionsOf {c : Condition} (joins : List Join) (h : c ∈ conditionsOf joins) :
    c ∈ joins.map (·.condition) ∨ ∃ x ∈ Source.joined joins, c ∈ x.joins.map (·.condition) := by
  cases joins with
  | nil => cases h
  | cons join rest =>
    rw [conditionsOf, List.mem_append] at h
    rcases h with h | h
    · rcases mem_conditionsOfJoin join h with rfl | ⟨x, hx, h⟩
      · exact .inl List.mem_cons_self
      · exact .inr ⟨x, List.mem_append_left _ hx, h⟩
    · rcases mem_conditionsOf rest h with h | ⟨x, hx, h⟩
      · exact .inl (List.mem_cons_of_mem _ h)
      · exact .inr ⟨x, List.mem_append_right _ hx, h⟩

end

theorem mem_walk_foldl_conjoinAll {e : Scalar} (conditions : List Condition) (c : Condition) :
    e ∈ (conditions.foldl Condition.conjoinAll c).walk ↔
      e ∈ c.walk ∨ ∃ other ∈ conditions, e ∈ other.walk := by
  induction conditions generalizing c with
  | nil => simp
  | cons other rest ih =>
    rw [List.foldl_cons, ih, Condition.mem_walk_conjoinAll]
    simp [or_assoc]

/-- The conditions of inner joins are moved to the filter of a query. -/
theorem grafts_flatten (hq : s.Reaches t q) :
    s.Grafts t (s.modifyQuery q fun query => { query with
      sources := (s.query q).sources.flatMap flatSources
      whereClause := (((s.query q).sources.flatMap joinConditions).foldl
        Condition.conjoinAll .empty).conjoinAll query.whereClause }) := by
  have hsources {source : Source}
      (h : source ∈ ((s.query q).sources.flatMap flatSources).flatMap Source.all) :
      ∃ x ∈ (s.query q).allSources, source = { x with joins := [] } := by
    simp only [List.mem_flatMap, flatSources_eq, List.mem_map] at h
    obtain ⟨_, ⟨tree, htree, x, hx, rfl⟩, hsource⟩ := h
    exact ⟨x, List.mem_flatMap.mpr ⟨tree, htree, hx⟩, List.mem_singleton.mp hsource⟩
  have hrefl := Grafts.refl s t
  refine hrefl.modifyQuery (.inl hq) (fun _ => rfl) (fun _ => rfl) (fun r hr => ?_)
    fun source hsource r hr => ?_
  · have hold (hr : _) : s.Admits t r := hrefl.admits (.inl hq) (.inl (Query.mem_scalars.mpr hr))
    rw [Query.mem_scalars] at hr
    rcases hr with hr | hr | hr | ⟨source, hsource, hr⟩ | hr | hr
    · exact hold (.inl hr)
    · exact hold (.inr (.inl hr))
    · exact hold (.inr (.inr (.inl hr)))
    · obtain ⟨x, hx, rfl⟩ := hsources hsource
      refine hold (.inr (.inr (.inr (.inl ⟨x, hx, ?_⟩))))
      rw [Source.walk, List.mem_append] at hr ⊢
      exact .inl (hr.resolve_right (by simp))
    · rw [Condition.mem_walk_conjoinAll, mem_walk_foldl_conjoinAll] at hr
      rcases hr with (hr | ⟨c, hc, hr⟩) | hr
      · exact absurd hr Condition.mem_walk_empty
      · obtain ⟨tree, htree, hc⟩ := List.mem_flatMap.mp hc
        obtain ⟨x, hx, hc⟩ := mem_joinConditions tree hc
        obtain ⟨join, hjoin, rfl⟩ := List.mem_map.mp hc
        refine hold (.inr (.inr (.inr (.inl ⟨x, List.mem_flatMap.mpr ⟨tree, htree, hx⟩, ?_⟩))))
        exact List.mem_append_right _ (List.mem_flatMap.mpr ⟨join, hjoin, hr⟩)
      · exact hold (.inr (.inr (.inr (.inr (.inl hr)))))
    · exact hold (.inr (.inr (.inr (.inr (.inr hr)))))
  · obtain ⟨x, hx, rfl⟩ := hsources hsource
    exact hrefl.admits (.inl hq) (.inr ⟨x, hx, hr⟩)

/-! ## Updates and deletes -/

section

variable {rules : Capabilities} (hvalid : (s.statement t).query.index < s.queries.size)
include hvalid

theorem ready_splitDelete {table : Option TableRef} {top : Option Scalar}
    {output : Option OutputClause} (hbody : (s.statement t).body = .delete table top output)
    (h : s.splitDelete t = (.ok (), s')) : s'.Ready rules t := by
  simp only [splitDelete, hbody] at h
  split at h
  · next hsingle =>
    obtain rfl := (Prod.mk.inj h).2
    exact ⟨.of_single (by simpa using hsingle), hvalid⟩
  · split at h
    · cases h
    · next target _ =>
      obtain rfl := (Prod.mk.inj h).2
      obtain ⟨hlone, -, hlt⟩ := s.lone_rebase (s.statement t).query target
      exact ready_modifyStatement (fun _ => hlone) fun _ => hlt

theorem ready_splitUpdate {update : UpdateClause} {output : Option OutputClause}
    (hbody : (s.statement t).body = .update update output)
    (h : s.splitUpdate t = (.ok (), s')) : s'.Ready rules t := by
  simp only [splitUpdate, hbody] at h
  split at h
  · next hsingle =>
    obtain rfl := (Prod.mk.inj h).2
    exact ⟨.of_single (by simpa using hsingle), hvalid⟩
  · split at h
    · cases h
    · next target _ =>
      obtain rfl := (Prod.mk.inj h).2
      obtain ⟨hlone, -, hlt⟩ := s.lone_rebase (s.statement t).query target
      have hleaves := leaves_rebaseItems (s.statement t).query target
        (s.rebase (s.statement t).query target).1 update.items hlt
      refine ready_modifyStatement (fun _ => ?_) fun _ => Nat.lt_of_lt_of_le hlt hleaves.size
      rw [← hlone, hleaves.query]

theorem ready_flattenUpdate {update : UpdateClause} {output : Option OutputClause}
    (hbody : (s.statement t).body = .update update output) (hfrom : rules.updateFrom = true)
    (h : s.flattenUpdate t = (.ok (), s')) : s'.Ready rules t := by
  have hkind (s' : Store) (hstatement : s'.statement t = s.statement t)
      (hlone : ∀ lone ∈ (s'.query (s.statement t).query).lone, lone = true) :
      s'.Undivided rules t := by
    rw [Undivided, hstatement, hbody, if_pos hfrom]
    exact fun _ => ⟨fun h => (by cases h), fun _ => hlone⟩
  simp only [flattenUpdate, hbody] at h
  split at h
  · next hjoined =>
    obtain rfl := (Prod.mk.inj h).2
    refine ⟨hkind s rfl fun lone hlone => ?_, hvalid⟩
    obtain ⟨source, hsource, rfl⟩ := List.mem_map.mp hlone
    exact List.all_eq_true.mp hjoined source hsource
  · split at h
    · exact ready_splitUpdate hvalid hbody h
    · obtain rfl := (Prod.mk.inj h).2
      refine ⟨hkind _ rfl fun lone hlone => ?_, by rw [size_modifyQuery]; exact hvalid⟩
      rw [query_modifyQuery_self hvalid, Query.lone, List.map_flatMap] at hlone
      obtain ⟨source, -, hlone⟩ := List.mem_flatMap.mp hlone
      rw [flatSources_eq, List.map_map] at hlone
      obtain ⟨_, -, rfl⟩ := List.mem_map.mp hlone
      rfl

/-- A statement is not rebuilt twice. -/
theorem ready_restructureDml (h : s.restructureDml rules t = (.ok (), s')) :
    s'.Ready rules t := by
  unfold restructureDml at h
  split at h
  · next hrules =>
    obtain rfl := (Prod.mk.inj h).2
    refine ⟨fun hnone => ?_, hvalid⟩
    rw [hrules] at hnone
    cases hnone
  · split at h
    · next hbody => exact ready_splitDelete hvalid hbody h
    · next hbody =>
      split at h
      · next hfrom => exact ready_flattenUpdate hvalid hbody hfrom h
      · exact ready_splitUpdate hvalid hbody h
    · next hdelete hupdate =>
      obtain rfl := (Prod.mk.inj h).2
      refine ⟨fun _ => ⟨fun hkind => ?_, fun hkind => ?_⟩, hvalid⟩
      · cases hbody : (s.statement t).body <;> rw [hbody] at hkind <;> cases hkind
        exact absurd hbody (hdelete _ _ _)
      · cases hbody : (s.statement t).body <;> rw [hbody] at hkind <;> cases hkind
        exact absurd hbody (hupdate _ _)

theorem rebuilds_splitDelete {table : Option TableRef} {top : Option Scalar}
    {output : Option OutputClause} (hbody : (s.statement t).body = .delete table top output)
    (hnamed : ∀ target, table = some target → s.cteBody? (.ofTable target) = none)
    (h : s.splitDelete t = (.ok (), s')) : s.Rebuilds rules t s' := by
  have hready : s'.Ready rules t := ready_splitDelete hvalid hbody h
  simp only [splitDelete, hbody] at h
  split at h
  · obtain rfl := (Prod.mk.inj h).2
    exact .refl hready
  · split at h
    · cases h
    · next target htarget =>
      obtain rfl := (Prod.mk.inj h).2
      have hgrafts := grafts_rebase (s.reaches_query t) fun r =>
        admits_dmlTarget hnamed (s.reaches_query t) htarget
      obtain ⟨-, hnew, -⟩ := s.lone_rebase (s.statement t).query target
      refine hgrafts.rebuilds (lt_of_body_ne (by simp [hbody])) hready hnew rfl fun r hr => ?_
      rw [StatementBody.walk, List.mem_append] at hr
      refine .inl (reaches_body ?_)
      rw [hbody, StatementBody.walk, List.mem_append]
      exact hr.imp_right ((keepsToQueries_fieldRenaming _).output output)

theorem rebuilds_splitUpdate {update : UpdateClause} {output : Option OutputClause}
    (hbody : (s.statement t).body = .update update output)
    (hnamed : ∀ target, update.table = some target → s.cteBody? (.ofTable target) = none)
    (h : s.splitUpdate t = (.ok (), s')) : s.Rebuilds rules t s' := by
  have hready : s'.Ready rules t := ready_splitUpdate hvalid hbody h
  simp only [splitUpdate, hbody] at h
  split at h
  · obtain rfl := (Prod.mk.inj h).2
    exact .refl hready
  · split at h
    · cases h
    · next target htarget =>
      obtain rfl := (Prod.mk.inj h).2
      have hreaches := s.reaches_query t
      have hwalk {r : QueryRef} (hr : .query r ∈ (StatementBody.update update output).walk) :
          s.Admits t r := .inl (reaches_body (hbody ▸ hr))
      simp only [StatementBody.walk, List.mem_append] at hwalk
      have hrebased := grafts_rebase hreaches fun r => admits_dmlTarget hnamed hreaches htarget
      have hkeys : ∀ r, .query r ∉
          (s.rebase (s.statement t).query target).1.keyCondition.walk :=
        query_notMem_keyEqualities _ _
      obtain ⟨hgrafts, hitems⟩ := grafts_rebaseItems target (.inl hreaches) hkeys update.items
        hrebased fun r hr => hwalk (.inl (.inr hr))
      obtain ⟨-, hnew, -⟩ := s.lone_rebase (s.statement t).query target
      refine hgrafts.rebuilds (lt_of_body_ne (by simp [hbody])) hready hnew rfl fun r hr => ?_
      rw [StatementBody.walk, List.mem_append, List.mem_append] at hr
      rcases hr with (hr | hr) | hr
      · exact hwalk (.inl (.inl hr))
      · exact hitems r hr
      · exact hwalk (.inr ((keepsToQueries_fieldRenaming _).output output hr))

theorem rebuilds_flattenUpdate {update : UpdateClause} {output : Option OutputClause}
    (hbody : (s.statement t).body = .update update output) (hfrom : rules.updateFrom = true)
    (hnamed : ∀ target, update.table = some target → s.cteBody? (.ofTable target) = none)
    (h : s.flattenUpdate t = (.ok (), s')) : s.Rebuilds rules t s' := by
  have hready : s'.Ready rules t := ready_flattenUpdate hvalid hbody hfrom h
  simp only [flattenUpdate, hbody] at h
  split at h
  · obtain rfl := (Prod.mk.inj h).2
    exact .refl hready
  · split at h
    · exact rebuilds_splitUpdate hvalid hbody hnamed h
    · obtain rfl := (Prod.mk.inj h).2
      have hgrafts := grafts_flatten (s.reaches_query t)
      exact ⟨hready, hgrafts.paged rfl rfl fun r hr => .inl (.root hr)⟩

/-- What rebuilding a statement does.  If it names its target, that is no common table expression. -/
theorem rebuilds_restructureDml
    (hnamed : ∀ target, (s.statement t).body.target? = some target →
      s.cteBody? (.ofTable target) = none)
    (h : s.restructureDml rules t = (.ok (), s')) : s.Rebuilds rules t s' := by
  have hready := ready_restructureDml hvalid h
  unfold restructureDml at h
  split at h
  · obtain rfl := (Prod.mk.inj h).2
    exact .refl hready
  · split at h
    · next hbody =>
      rw [hbody] at hnamed
      exact rebuilds_splitDelete hvalid hbody hnamed h
    · next hbody =>
      rw [hbody] at hnamed
      split at h
      · next hfrom => exact rebuilds_flattenUpdate hvalid hbody hfrom hnamed h
      · exact rebuilds_splitUpdate hvalid hbody hnamed h
    · obtain rfl := (Prod.mk.inj h).2
      exact .refl hready

end

end Store

end SqlCompiler
