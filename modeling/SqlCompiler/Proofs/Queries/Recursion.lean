import Mathlib.Logic.Relation
import SqlCompiler.Proofs.Paging.Runs
import SqlCompiler.Proofs.Queries.Reachable

/-!
# Common table expressions that read themselves

Whether a common table expression is recursive is found by a search from its body, depth first: a query
that has not been seen yet is looked at, and then the queries it owns are put in front of those that are
still to be looked at.  Queries may own each other in circles, or share what they own.  The search ends
all the same, since only a query that is seen for the first time puts others in front, and it misses
nothing, since what a seen query owns is seen or still to be looked at.

Main results:

- Definition `Store.Owns`: the queries that a query owns.
- Definition `Store.Searches`: the turns of the search until it has an answer.
- Theorem `Store.searches_readsCteWithin`: the search ends.
- Theorem `Store.Searches.eq_true_iff`: its answer, from any state on.
- Theorem `Store.isRecursiveCte_iff`: which common table expressions are recursive.
-/

namespace SqlCompiler.Store

variable {s : Store} {c : CteRef} {q r : QueryRef} {seen pending : List QueryRef} {answer : Bool}

/-! ## Queries that own queries -/

/-- What occurs in the expressions of a query. -/
inductive HasPart (s : Store) (q : QueryRef) (e : Scalar) : Prop where
  | column {column : ColumnRef} (hcolumn : column ∈ (s.query q).columns)
      (he : e ∈ (s.column column).expression.walk)
  | take {count : Scalar} (hcount : (s.query q).take = some count) (he : e ∈ count.walk)
  | skip {count : Scalar} (hcount : (s.query q).skip = some count) (he : e ∈ count.walk)
  | joined {source : Source} {join : Join} (hsource : source ∈ (s.query q).allSources)
      (hjoin : join ∈ source.joins) (he : e ∈ join.condition.walk)
  | filter (he : e ∈ (s.query q).whereClause.walk)
  | grouping (he : e ∈ walkScalars (s.query q).grouping.items)
  | having (he : e ∈ (s.query q).having.walk)
  | order {item : OrderItem} (hitem : item ∈ (s.query q).orderBy) (he : e ∈ item.expression.walk)

/-- A query owns the queries it reads as sources, those after its set operators and those in its
expressions. -/
inductive Owns (s : Store) (q : QueryRef) : QueryRef → Prop where
  | source {source : Source} {r : QueryRef} (hsource : source ∈ (s.query q).allSources)
      (hr : source.item = .query r) : Owns s q r
  | side {operator : SetOperator} (h : operator ∈ (s.query q).setOperators) : Owns s q operator.query
  | expression {r : QueryRef} (h : s.HasPart q (.query r)) : Owns s q r

/-- A query reads a table of a common table expression, as a source or joined to one. -/
def ReadsCte (s : Store) (c : CteRef) (q : QueryRef) : Prop :=
  ∃ source ∈ (s.query q).allSources, ∃ t, source.item = .table t ∧ (s.table t).kind = .cte c

theorem source_query?_eq_some {source : Source} : source.query? = some r ↔ source.item = .query r := by
  rw [Source.query?]
  cases source.item <;> simp

/-- What a source leads to: the query it reads, or a part of the condition of one of its joins. -/
theorem query_mem_source_walk {source : Source} : .query r ∈ source.walk ↔
    source.item = .query r ∨ ∃ join ∈ source.joins, .query r ∈ join.condition.walk := by
  simp [Source.walk, source_query?_eq_some]

/-- The queries a query owns are those among its scalars. -/
theorem query_mem_walkQuery : .query r ∈ s.walkQuery q ↔ s.Owns q r := by
  rw [← scalars_query, Query.mem_scalars]
  constructor
  · rintro (⟨e, he, hr⟩ | ⟨e, he, hr⟩ | ⟨e, he, hr⟩ | ⟨source, hsource, hr⟩ | hr | hr | hr |
      ⟨item, hitem, hr⟩ | ⟨operator, hoperator, hr⟩)
    · obtain ⟨column, hcolumn, rfl⟩ := List.mem_map.mp he
      exact .expression (.column hcolumn hr)
    · exact .expression (.take he hr)
    · exact .expression (.skip he hr)
    · rcases query_mem_source_walk.mp hr with hitem | ⟨join, hjoin, hr⟩
      · exact .source hsource hitem
      · exact .expression (.joined hsource hjoin hr)
    · exact .expression (.filter hr)
    · exact .expression (.grouping hr)
    · exact .expression (.having hr)
    · exact .expression (.order hitem hr)
    · cases hr
      exact .side hoperator
  · have hfrom {source : Source} (hsource : source ∈ (s.query q).allSources)
        (hr : .query r ∈ source.walk) : ∃ source ∈ (s.query q).allSources, .query r ∈ source.walk :=
      ⟨source, hsource, hr⟩
    rintro (⟨hsource, hitem⟩ | hoperator | hpart)
    · exact .inr (.inr (.inr (.inl (hfrom hsource (query_mem_source_walk.mpr (.inl hitem))))))
    · exact .inr (.inr (.inr (.inr (.inr (.inr (.inr (.inr ⟨_, hoperator, rfl⟩)))))))
    · cases hpart with
      | column hcolumn hr => exact .inl ⟨_, List.mem_map_of_mem hcolumn, hr⟩
      | take hcount hr => exact .inr (.inl ⟨_, hcount, hr⟩)
      | skip hcount hr => exact .inr (.inr (.inl ⟨_, hcount, hr⟩))
      | joined hsource hjoin hr =>
        exact .inr (.inr (.inr (.inl (hfrom hsource
          (query_mem_source_walk.mpr (.inr ⟨_, hjoin, hr⟩))))))
      | filter hr => exact .inr (.inr (.inr (.inr (.inl hr))))
      | grouping hr => exact .inr (.inr (.inr (.inr (.inr (.inl hr)))))
      | having hr => exact .inr (.inr (.inr (.inr (.inr (.inr (.inl hr))))))
      | order hitem hr =>
        exact .inr (.inr (.inr (.inr (.inr (.inr (.inr (.inl ⟨_, hitem, hr⟩)))))))

theorem mem_queriesOf_walkQuery : r ∈ queriesOf (s.walkQuery q) ↔ s.Owns q r :=
  mem_queriesOf.trans query_mem_walkQuery

theorem readsCte_iff : s.readsCte c q = true ↔ s.ReadsCte c q := by
  rw [readsCte, List.any_eq_true, ReadsCte]
  refine exists_congr fun source => and_congr_right fun _ => ?_
  rw [Source.table?]
  cases source.item with
  | query r => simp
  | table t =>
    simp only [SourceItem.table.injEq, exists_eq_left']
    cases (s.table t).kind <;> simp

/-! ## The search -/

/-- The turns of the search for a query that reads a common table expression, from the queries that
have been seen and those that are still to be looked at until there is an answer. -/
inductive Searches (s : Store) (c : CteRef) : List QueryRef → List QueryRef → Bool → Prop where
  | done (seen : List QueryRef) : Searches s c seen [] false
  | known {seen pending : List QueryRef} {q : QueryRef} {answer : Bool} (hq : q ∈ seen)
      (h : Searches s c seen pending answer) : Searches s c seen (q :: pending) answer
  | found {seen pending : List QueryRef} {q : QueryRef} (hq : q ∉ seen) (hreads : s.ReadsCte c q) :
      Searches s c seen (q :: pending) true
  | turn {seen pending : List QueryRef} {q : QueryRef} {answer : Bool} (hq : q ∉ seen)
      (hreads : ¬s.ReadsCte c q)
      (h : Searches s c (q :: seen) ((queriesOf (s.walkQuery q)).reverse ++ pending) answer) :
      Searches s c seen (q :: pending) answer

/-- When a new query is seen, what it owns no longer counts. -/
theorem unseenReferences_cons (hq : q ∉ seen) :
    (queriesOf (s.walkQuery q)).length + s.unseenReferences (q :: seen) ≤
      s.unseenReferences seen := by
  have hsame : s.unseenReferences (q :: seen) = s.unseenReferences (seen ++ [q]) := by
    have hunseen : s.unseen (q :: seen) = s.unseen (seen ++ [q]) :=
      List.filter_congr fun i _ => by simp [Bool.and_comm]
    rw [unseenReferences, unseenReferences, hunseen]
  have hcount := unseenReferences_append (s := s) hq
  rw [successors, List.length_append] at hcount
  omega

/-- With more fuel than there are references left, the search ends. -/
theorem searches_readsCteWithin (fuel : Nat) : ∀ (seen pending : List QueryRef),
    s.unseenReferences seen + pending.length < fuel →
      s.Searches c seen pending (s.readsCteWithin c fuel seen pending) := by
  induction fuel with
  | zero => exact fun _ _ hfuel => absurd hfuel (Nat.not_lt_zero _)
  | succ fuel ih =>
    intro seen pending hfuel
    cases pending with
    | nil => exact .done seen
    | cons q pending =>
      rw [List.length_cons] at hfuel
      unfold readsCteWithin
      by_cases hq : q ∈ seen
      · rw [if_pos (List.contains_iff_mem.mpr hq)]
        exact .known hq (ih seen pending (by omega))
      · rw [if_neg fun h => hq (List.contains_iff_mem.mp h)]
        by_cases hreads : s.readsCte c q = true
        · rw [hreads, Bool.true_or]
          exact .found hq (readsCte_iff.mp hreads)
        · rw [Bool.eq_false_iff.mpr hreads, Bool.false_or]
          refine .turn hq (fun h => hreads (readsCte_iff.mpr h)) (ih _ _ ?_)
          have hfewer := unseenReferences_cons (s := s) hq
          rw [List.length_append, List.length_reverse]
          omega

/-! ## The answer -/

/-- A query that reads a common table expression is at the end of a chain of queries each of which
owns the next one. -/
def LeadsTo (s : Store) (c : CteRef) (q : QueryRef) : Prop :=
  ∃ r, Relation.ReflTransGen s.Owns q r ∧ s.ReadsCte c r

/-- A query leads to a common table expression if it reads it or owns one that leads to it. -/
theorem leadsTo_iff : s.LeadsTo c q ↔ s.ReadsCte c q ∨ ∃ r, s.Owns q r ∧ s.LeadsTo c r := by
  constructor
  · rintro ⟨r, hchain, hr⟩
    rcases hchain.cases_head with rfl | ⟨next, hnext, hrest⟩
    · exact .inl hr
    · exact .inr ⟨next, hnext, r, hrest, hr⟩
  · rintro (hq | ⟨next, hnext, r, hrest, hr⟩)
    · exact ⟨q, .refl, hq⟩
    · exact ⟨r, .head hnext hrest, hr⟩

/-- If no seen query reads a common table expression, and all that they own is seen or still to be
looked at, then a seen query leads to it only by way of one that is still to be looked at. -/
theorem LeadsTo.of_seen
    (hseen : ∀ q ∈ seen, ¬s.ReadsCte c q ∧ ∀ r, s.Owns q r → r ∈ seen ∨ r ∈ pending)
    (hq : q ∈ seen) (h : s.LeadsTo c q) : ∃ r ∈ pending, s.LeadsTo c r := by
  obtain ⟨last, hchain, hlast⟩ := h
  induction hchain using Relation.ReflTransGen.head_induction_on with
  | refl => exact absurd hlast (hseen last hq).1
  | head hstep hrest ih =>
    rcases (hseen _ hq).2 _ hstep with hnext | hnext
    · exact ih hnext
    · exact ⟨_, hnext, last, hrest, hlast⟩

/-- The answer of the search is whether a query that is still to be looked at leads to the common
table expression. -/
theorem Searches.eq_true_iff (h : s.Searches c seen pending answer)
    (hseen : ∀ q ∈ seen, ¬s.ReadsCte c q ∧ ∀ r, s.Owns q r → r ∈ seen ∨ r ∈ pending) :
    answer = true ↔ ∃ q ∈ pending, s.LeadsTo c q := by
  induction h with
  | done seen => simp
  | @known seen pending q answer hq _ ih =>
    have hrest : ∀ p ∈ seen, ¬s.ReadsCte c p ∧ ∀ r, s.Owns p r → r ∈ seen ∨ r ∈ pending := by
      refine fun p hp => ⟨(hseen p hp).1, fun r hr => ?_⟩
      rcases (hseen p hp).2 r hr with hr | hr
      · exact .inl hr
      · exact (List.mem_cons.mp hr).imp_left fun heq : r = q => heq ▸ hq
    rw [ih hrest]
    constructor
    · exact fun ⟨p, hp, hleads⟩ => ⟨p, List.mem_cons_of_mem _ hp, hleads⟩
    · rintro ⟨p, hp, hleads⟩
      rcases List.mem_cons.mp hp with rfl | hp
      · exact LeadsTo.of_seen hrest hq hleads
      · exact ⟨p, hp, hleads⟩
  | @found seen pending q hq hreads =>
    exact iff_of_true rfl ⟨q, List.mem_cons_self, leadsTo_iff.mpr (.inl hreads)⟩
  | @turn seen pending q answer hq hreads _ ih =>
    have howned (r : QueryRef) : r ∈ (queriesOf (s.walkQuery q)).reverse ↔ s.Owns q r :=
      List.mem_reverse.trans mem_queriesOf_walkQuery
    rw [ih ?_]
    · simp only [List.mem_append, List.mem_cons, or_and_right, exists_or, exists_eq_left, howned,
        leadsTo_iff (q := q), hreads, false_or]
    · intro p hp
      rcases List.mem_cons.mp hp with rfl | hp
      · exact ⟨hreads, fun r hr => .inr (List.mem_append_left _ ((howned r).mpr hr))⟩
      · refine ⟨(hseen p hp).1, fun r hr => ?_⟩
        rcases (hseen p hp).2 r hr with hr | hr
        · exact .inl (List.mem_cons_of_mem _ hr)
        · rcases List.mem_cons.mp hr with rfl | hr
          · exact .inl List.mem_cons_self
          · exact .inr (List.mem_append_right _ hr)

/-- The search from the body of a common table expression ends, and its answer is whether the body
leads back to the expression. -/
theorem isRecursiveCte_iff (s : Store) (c : CteRef) :
    s.Searches c [] [(s.cte c).body] (s.isRecursiveCte c) ∧
      (s.isRecursiveCte c = true ↔
        ∃ q, Relation.ReflTransGen s.Owns (s.cte c).body q ∧ s.ReadsCte c q) := by
  have hsearch : s.Searches c [] [(s.cte c).body] (s.isRecursiveCte c) := by
    refine searches_readsCteWithin _ _ _ ?_
    rw [unseenReferences_nil, List.length_singleton]
    exact Nat.lt_succ_self _
  refine ⟨hsearch, ?_⟩
  rw [hsearch.eq_true_iff (by simp)]
  simp [LeadsTo]

end SqlCompiler.Store
