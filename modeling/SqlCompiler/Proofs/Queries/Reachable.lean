import Mathlib.Algebra.BigOperators.Group.List.Basic
import Mathlib.Algebra.GroupWithZero.Nat
import SqlCompiler.Proofs.Lowering.Frames
import SqlCompiler.Store.Reach

/-!
# Queries that a statement leads to

The queries of a statement are looked for breadth first, with as much fuel as there are references
to queries.  That is enough: what is found is exactly what can be reached by following references.

The query of a statement, the bodies of its common table expressions and every subquery that is read
by a block of an embedded query stand for themselves in the text: they are a statement, or are put
in parentheses.  The sides of set operators do not.

Main results:

- Definition `Store.Reaches`: the queries a statement leads to in any number of steps.
- Theorem `Store.mem_statementQueries`: these are the queries of the statement.
- Definition `Store.Embeds`: the queries embedded in a statement.
- Theorem `Store.Embeds.congr`: they are found by subqueries and set operators.
-/

namespace SqlCompiler.Store

variable {s : Store} {t : StatementRef} {q r : QueryRef}

/-- The queries a statement leads to, in any number of steps. -/
inductive Reaches (s : Store) (t : StatementRef) : QueryRef → Prop where
  | root {q : QueryRef} (h : q ∈ s.rootQueries (s.statement t)) : Reaches s t q
  | step {q r : QueryRef} (hq : Reaches s t q) (hr : r ∈ s.successors q) : Reaches s t r

/-- A statement leads to no other queries if it and its queries do not. -/
theorem Reaches.of_subset {s' : Store}
    (hroots : ∀ r ∈ s'.rootQueries (s'.statement t), r ∈ s.rootQueries (s.statement t))
    (hsuccessors : ∀ q, ∀ r ∈ s'.successors q, r ∈ s.successors q) (h : s'.Reaches t q) :
    s.Reaches t q := by
  induction h with
  | root hroot => exact .root (hroots _ hroot)
  | step _ hr ih => exact .step ih (hsuccessors _ _ hr)

/-- A reference beyond the end of the store leads nowhere. -/
theorem successors_of_le (h : s.queries.size ≤ q.index) : s.successors q = [] := by
  simp [successors, walkQuery, query_of_le h, Query.allSources, Condition.empty, Condition.walk,
    walkBranches, walkScalars, queriesOf]

/-! ## The search -/

theorem nodup_reachFrom (fuel : Nat) : ∀ (seen pending : List QueryRef), seen.Nodup →
    (s.reachFrom fuel seen pending).Nodup := by
  induction fuel with
  | zero => exact fun _ _ h => h
  | succ fuel ih =>
    intro seen pending h
    cases pending with
    | nil => exact h
    | cons q pending =>
      unfold reachFrom
      split
      · exact ih seen pending h
      · next hnew =>
        refine ih _ _ (List.nodup_append.mpr ⟨h, List.pairwise_singleton _ q, ?_⟩)
        rintro a ha b hb rfl
        exact hnew (List.contains_iff_mem.mpr (List.mem_singleton.mp hb ▸ ha))

theorem prefix_reachFrom (fuel : Nat) : ∀ seen pending : List QueryRef,
    seen <+: s.reachFrom fuel seen pending := by
  induction fuel with
  | zero => exact fun seen _ => List.prefix_refl seen
  | succ fuel ih =>
    intro seen pending
    cases pending with
    | nil => exact List.prefix_refl seen
    | cons q pending =>
      unfold reachFrom
      split
      · exact ih seen pending
      · exact (List.prefix_append seen [q]).trans (ih _ _)

/-! ## Everything that is found is reached -/

theorem reaches_of_mem_reachFrom (fuel : Nat) : ∀ {seen pending : List QueryRef},
    (∀ q ∈ seen, s.Reaches t q) → (∀ q ∈ pending, s.Reaches t q) →
      ∀ q ∈ s.reachFrom fuel seen pending, s.Reaches t q := by
  induction fuel with
  | zero => exact fun hseen _ => hseen
  | succ fuel ih =>
    intro seen pending hseen hpending
    cases pending with
    | nil => exact hseen
    | cons q pending =>
      obtain ⟨hq, hrest⟩ := List.forall_mem_cons.mp hpending
      unfold reachFrom
      split
      · exact ih hseen hrest
      · refine ih (fun r hr => ?_) fun r hr => ?_
        · rcases List.mem_append.mp hr with hr | hr
          · exact hseen r hr
          · rw [List.mem_singleton.mp hr]
            exact hq
        · rcases List.mem_append.mp hr with hr | hr
          · exact hrest r hr
          · exact .step hq hr

/-! ## Everything that is reached is found -/

/-- The queries of a store that have not been seen yet. -/
def unseen (s : Store) (seen : List QueryRef) : List Nat :=
  (List.range s.queries.size).filter fun i => !seen.contains ⟨i⟩

/-- The number of references to queries in those that have not been seen yet. -/
def unseenReferences (s : Store) (seen : List QueryRef) : Nat :=
  ((s.unseen seen).map fun i => (s.successors ⟨i⟩).length).sum

theorem unseenReferences_nil (s : Store) : s.unseenReferences [] = s.queryReferences := by
  have hfold : ∀ (items : List Nat) (total : Nat),
      items.foldl (fun total i => total + (s.successors ⟨i⟩).length) total =
        total + (items.map fun i => (s.successors ⟨i⟩).length).sum := by
    intro items
    induction items with
    | nil => exact fun total => by simp
    | cons i rest ih =>
      intro total
      rw [List.foldl_cons, ih, List.map_cons, List.sum_cons, Nat.add_assoc]
  rw [queryReferences, hfold, Nat.zero_add, unseenReferences, unseen, List.filter_eq_self.mpr]
  exact fun _ _ => rfl

/-- When a new query is seen, its references no longer count. -/
theorem unseenReferences_append {seen : List QueryRef} (hq : q ∉ seen) :
    (s.successors q).length + s.unseenReferences (seen ++ [q]) = s.unseenReferences seen := by
  have hnodup : (s.unseen seen).Nodup := List.nodup_range.filter _
  have herase : s.unseen (seen ++ [q]) = (s.unseen seen).erase q.index := by
    rw [hnodup.erase_eq_filter, unseen, unseen, List.filter_filter]
    refine List.filter_congr fun i _ => ?_
    have hsame : (⟨i⟩ : QueryRef) = q ↔ i = q.index := by
      cases q
      simp
    simp [hsame, Bool.and_comm, bne, beq_eq_decide]
  rw [unseenReferences, unseenReferences, herase]
  by_cases hsize : q.index < s.queries.size
  · have hmem : q.index ∈ s.unseen seen :=
      List.mem_filter.mpr ⟨List.mem_range.mpr hsize, by simpa using hq⟩
    exact List.sum_map_erase (fun i => (s.successors ⟨i⟩).length) hmem
  · have hnot : q.index ∉ s.unseen seen := fun hmem =>
      hsize (List.mem_range.mp (List.mem_filter.mp hmem).1)
    rw [List.erase_of_not_mem hnot, successors_of_le (Nat.le_of_not_lt hsize), List.length_nil,
      Nat.zero_add]

/-- With enough fuel, everything that is pending is found, and everything that found queries lead
to. -/
theorem reachFrom_closed (fuel : Nat) : ∀ (seen pending : List QueryRef),
    s.unseenReferences seen + pending.length ≤ fuel →
      (∀ q ∈ seen, ∀ r ∈ s.successors q, r ∈ seen ∨ r ∈ pending) →
        pending ⊆ s.reachFrom fuel seen pending ∧
          ∀ q ∈ s.reachFrom fuel seen pending, ∀ r ∈ s.successors q,
            r ∈ s.reachFrom fuel seen pending := by
  induction fuel with
  | zero =>
    intro seen pending hfuel hseen
    obtain rfl : pending = [] := List.eq_nil_of_length_eq_zero (by omega)
    exact ⟨List.nil_subset _, fun q hq r hr => (hseen q hq r hr).resolve_right (by simp)⟩
  | succ fuel ih =>
    intro seen pending hfuel hseen
    cases pending with
    | nil => exact ⟨List.nil_subset _, fun q hq r hr => (hseen q hq r hr).resolve_right (by simp)⟩
    | cons q pending =>
      rw [List.length_cons] at hfuel
      unfold reachFrom
      split
      · next hold =>
        have hold : q ∈ seen := List.contains_iff_mem.mp hold
        obtain ⟨hpending, hclosed⟩ := ih seen pending (by omega)
          fun a ha r hr => (hseen a ha r hr).elim .inl fun h =>
            (List.mem_cons.mp h).elim (fun h => .inl (h ▸ hold)) .inr
        exact ⟨List.cons_subset.mpr
          ⟨(prefix_reachFrom fuel seen pending).subset hold, hpending⟩, hclosed⟩
      · next hnew =>
        have hnew : q ∉ seen := fun h => hnew (List.contains_iff_mem.mpr h)
        have hfewer := unseenReferences_append (s := s) hnew
        obtain ⟨hpending, hclosed⟩ := ih (seen ++ [q])
          (pending ++ s.successors q) (by rw [List.length_append]; omega)
          fun a ha r hr => by
            rcases List.mem_append.mp ha with ha | ha
            · rcases hseen a ha r hr with h | h
              · exact .inl (List.mem_append_left _ h)
              · exact (List.mem_cons.mp h).elim (fun h => .inl (by simp [h]))
                  fun h => .inr (List.mem_append_left _ h)
            · rw [List.mem_singleton.mp ha] at hr
              exact .inr (List.mem_append_right _ hr)
        refine ⟨List.cons_subset.mpr ⟨?_, (List.append_subset.mp hpending).1⟩, hclosed⟩
        exact (prefix_reachFrom fuel _ _).subset (by simp)

/-- Every query of a statement is listed once. -/
theorem nodup_statementQueries (s : Store) (t : StatementRef) : (s.statementQueries t).Nodup :=
  nodup_reachFrom _ _ _ List.nodup_nil

/-- The queries of a statement are those it leads to. -/
theorem mem_statementQueries : q ∈ s.statementQueries t ↔ s.Reaches t q := by
  refine ⟨reaches_of_mem_reachFrom _ (by simp) (fun _ h => .root h) q, fun h => ?_⟩
  obtain ⟨hroots, hclosed⟩ := reachFrom_closed (s := s)
    ((s.rootQueries (s.statement t)).length + s.queryReferences + 1) []
    (s.rootQueries (s.statement t)) (by rw [unseenReferences_nil]; omega) (by simp)
  induction h with
  | root h => exact hroots h
  | step _ hr ih => exact hclosed _ ih _ hr

/-! ## Embedded queries -/

/-- The blocks of a query: its own and those of the queries after its set operators. -/
inductive HasBlock (s : Store) (q : QueryRef) : QueryRef → Prop where
  | self : HasBlock s q q
  | side {b r : QueryRef} (hb : HasBlock s q b) (hr : r ∈ (s.query b).sides) : HasBlock s q r

/-- The queries embedded in a statement. -/
inductive Embeds (s : Store) (t : StatementRef) : QueryRef → Prop where
  | root : Embeds s t (s.statement t).query
  | cte {c : CteRef} (hc : c ∈ (s.statement t).ctes) : Embeds s t (s.cte c).body
  | subquery {q b r : QueryRef} (hq : Embeds s t q) (hb : s.HasBlock q b)
      (hr : r ∈ (s.query b).subqueries) : Embeds s t r

theorem subquery_mem_successors {s : Store} {q r : QueryRef} (h : r ∈ (s.query q).subqueries) :
    r ∈ s.successors q := by
  obtain ⟨source, hsource, hr⟩ := List.mem_filterMap.mp h
  refine List.mem_append_left _ (List.mem_filterMap.mpr ⟨.query r, ?_, rfl⟩)
  simp only [walkQuery, List.mem_append, List.mem_flatMap]
  exact .inl (.inl (.inl (.inl (.inl (.inr ⟨source, hsource, by simp [Source.walk, hr]⟩)))))

theorem side_mem_successors {s : Store} {q r : QueryRef} (h : r ∈ (s.query q).sides) :
    r ∈ s.successors q := by
  obtain ⟨operator, hoperator, rfl⟩ := List.mem_map.mp h
  refine List.mem_append_left _ (List.mem_filterMap.mpr ⟨.query operator.query, ?_, rfl⟩)
  exact List.mem_append_right _ (List.mem_map_of_mem hoperator)

variable {s s' : Store} {t : StatementRef} {q b : QueryRef}

theorem HasBlock.reaches (h : s.HasBlock q b) (hq : s.Reaches t q) : s.Reaches t b := by
  induction h with
  | self => exact hq
  | side _ hr ih => exact .step ih (side_mem_successors hr)

/-- A statement leads to the queries embedded in it. -/
theorem Embeds.reaches (h : s.Embeds t q) : s.Reaches t q := by
  induction h with
  | root => exact .root (List.mem_append_left _ List.mem_cons_self)
  | cte hc =>
    exact .root (List.mem_append_left _ (List.mem_cons_of_mem _ (List.mem_map_of_mem hc)))
  | subquery _ hb hr ih => exact .step (hb.reaches ih) (subquery_mem_successors hr)

/-- Statements read the same queries in two stores. -/
structure SameReads (s s' : Store) (t : StatementRef) : Prop where
  root : (s'.statement t).query = (s.statement t).query
  ctes : (s'.statement t).ctes = (s.statement t).ctes
  bodies : ∀ c, (s'.cte c).body = (s.cte c).body
  subqueries : ∀ q, (s'.query q).subqueries = (s.query q).subqueries
  sides : ∀ q, (s'.query q).sides = (s.query q).sides

theorem HasBlock.congr (hsides : ∀ q, (s'.query q).sides = (s.query q).sides)
    (h : s.HasBlock q b) : s'.HasBlock q b := by
  induction h with
  | self => exact .self
  | side _ hr ih => exact .side ih (by rw [hsides]; exact hr)

/-- The same queries are embedded where the same ones are read. -/
theorem Embeds.congr (hsame : s.SameReads s' t) (h : s.Embeds t q) : s'.Embeds t q := by
  induction h with
  | root =>
    rw [← hsame.root]
    exact .root
  | cte hc =>
    rw [← hsame.bodies]
    exact .cte (by rw [hsame.ctes]; exact hc)
  | subquery _ hb hr ih =>
    exact .subquery ih (hb.congr hsame.sides) (by rw [hsame.subqueries]; exact hr)

end SqlCompiler.Store
