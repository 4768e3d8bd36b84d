import SqlCompiler.Legalize.Predicate
import SqlCompiler.Sql.Equality
import SqlCompiler.Sql.Traversal

/-!
# Parts of expressions

The scalars of a condition are those of its branches, however the branches are joined.  Equal
expressions have equal parts, so that one of them computes an aggregate if and only if the other one
does.

Main results:

- Theorem `mem_walkScalars`: the scalars of a list.
- Theorems `Condition.mem_walk_conjoin` and `Condition.mem_walk_disjoin`: the scalars of a condition
  that grows.
- Theorem `Scalar.anyPart_isAggregate_congr`: equal expressions compute aggregates alike.
-/

namespace SqlCompiler

variable {e : Scalar} {c other : Condition} {p : Predicate}

theorem mem_walkScalars {items : List Scalar} : e ∈ walkScalars items ↔ ∃ x ∈ items, e ∈ x.walk := by
  induction items with
  | nil => simp [walkScalars]
  | cons first rest ih => simp [walkScalars, ih]

theorem Transformer.scalars_eq_map (w : Transformer) (items : List Scalar) :
    w.scalars items = items.map w.scalar := by
  induction items with
  | nil => rfl
  | cons first rest ih => rw [Transformer.scalars, ih, List.map_cons]

theorem mem_walkBranches {branches : List Branch} :
    e ∈ walkBranches branches ↔ ∃ p ∈ branches.map (·.predicate), e ∈ p.walk := by
  induction branches with
  | nil => simp [walkBranches]
  | cons b rest ih =>
    cases b
    simp [walkBranches, Branch.walk, ih]

namespace Condition

theorem mem_walk : e ∈ c.walk ↔ ∃ p ∈ c.branches.map (·.predicate), e ∈ p.walk := by
  cases c
  rw [walk, mem_walkBranches]

@[simp]
theorem mem_walk_empty : e ∉ empty.walk := by
  rw [mem_walk]
  simp [empty]

@[simp]
theorem predicates_joinLast (joinsOr : Bool) (branches : List Branch) :
    (joinLast joinsOr branches).map (·.predicate) = branches.map (·.predicate) := by
  fun_induction joinLast joinsOr branches <;> simp_all

@[simp]
theorem mem_walk_ofPredicate : e ∈ (ofPredicate p).walk ↔ e ∈ p.walk := by
  simp [mem_walk, ofPredicate, branch]

@[simp]
theorem mem_walk_conjoin : e ∈ (c.conjoin p).walk ↔ e ∈ c.walk ∨ e ∈ p.walk := by
  have hadded (branches : List Branch) :
      e ∈ Condition.walk ⟨joinLast false c.branches ++ branches⟩ ↔
        e ∈ c.walk ∨ e ∈ walkBranches branches := by
    simp only [mem_walk, mem_walkBranches, List.map_append, predicates_joinLast, List.mem_append,
      or_and_right, exists_or]
  have hsingle : e ∈ walkBranches [branch p] ↔ e ∈ p.walk := by
    simp [mem_walkBranches, branch]
  unfold conjoin
  dsimp only
  rw [hadded]
  cases p with
  | nested inner =>
    dsimp only
    split
    · rw [hsingle]
    · cases inner
      rfl
  | _ => rw [hsingle]

@[simp]
theorem mem_walk_disjoin : e ∈ (c.disjoin p).walk ↔ e ∈ c.walk ∨ e ∈ p.walk := by
  simp [disjoin, mem_walk, branch, or_and_right, exists_or]

theorem mem_walk_conjoinAll : e ∈ (c.conjoinAll other).walk ↔ e ∈ c.walk ∨ e ∈ other.walk := by
  have hempty {c : Condition} (h : c.isEmpty = true) : e ∉ c.walk := by
    rw [mem_walk, List.isEmpty_iff.mp h]
    simp
  unfold conjoinAll
  dsimp only
  split
  · next h => simp [hempty h]
  · split
    · next h => simp [hempty h]
    · split <;> simp [Predicate.walk]

@[simp]
theorem predicates_negateLast (branches : List Branch) :
    (negateLast branches).map (·.predicate) = branches.map (·.predicate) := by
  fun_induction negateLast branches <;> simp_all

theorem mem_walk_negateLast : e ∈ Condition.walk ⟨negateLast c.branches⟩ ↔ e ∈ c.walk := by
  rw [mem_walk, mem_walk, predicates_negateLast]

end Condition

/-! ## Aggregates in equal expressions -/

/-- A test of a pattern is equal to nothing but another one. -/
theorem Predicate.beq_like {pattern : Scalar} {escape : Option Scalar} {negated : Bool}
    (h : ∀ e' pattern' escape' negated', p ≠ .like e' pattern' escape' negated') :
    p.beq (.like e pattern escape negated) = false := by
  cases p with
  | like => exact absurd rfl (h _ _ _ _)
  | _ => cases escape <;> rfl

/-- Nothing but another test of a pattern is equal to one. -/
theorem Predicate.like_of_beq {pattern : Scalar} {escape : Option Scalar} {negated : Bool}
    (h : (Predicate.like e pattern escape negated).beq p = true) :
    ∃ e' pattern' escape' negated', p = .like e' pattern' escape' negated' := by
  cases p with
  | like => exact ⟨_, _, _, _, rfl⟩
  | _ => cases escape <;> exact nomatch h

/-- Equal scalars are both calls of aggregate functions, or neither is. -/
theorem Scalar.isAggregate_congr (a b : Scalar) (h : a.beq b = true) :
    a.isAggregate = b.isAggregate := by
  cases a <;> cases b <;> simp only [Scalar.beq, Bool.false_eq_true] at h <;> try rfl
  case function.function c d =>
    obtain ⟨name, args, type, isAggregate, keep⟩ := c
    obtain ⟨name', args', type', isAggregate', keep'⟩ := d
    simp only [Call.beq, Bool.and_eq_true, beq_iff_eq] at h
    exact h.1.2

mutual

/-- Equal scalars compute aggregates alike. -/
theorem Scalar.aggregates_congr (a b : Scalar) (h : a.beq b = true) :
    a.walk.any Scalar.isAggregate = b.walk.any Scalar.isAggregate := by
  have hself := Scalar.isAggregate_congr a b h
  cases a <;> cases b <;> simp only [Scalar.beq, Bool.false_eq_true] at h <;>
    try simp only [Scalar.walk, List.any_cons, List.any_nil, hself]
  case function.function c d => rw [Call.aggregates_congr c d h]
  case binary.binary l op r type l' op' r' type' =>
    simp only [Bool.and_eq_true] at h
    rw [List.any_append, List.any_append, Scalar.aggregates_congr l l' h.1.1.1,
      Scalar.aggregates_congr r r' h.1.2]
  case raw.raw format args type p format' args' type' p' =>
    simp only [Bool.and_eq_true] at h
    rw [walkScalars_aggregates_congr args args' h.1.1.2]
  case convert.convert target source e keep target' source' e' keep' =>
    simp only [Bool.and_eq_true] at h
    rw [Scalar.aggregates_congr e e' h.1.2]
  case condition.condition c d => rw [Condition.aggregates_congr c d h]
  case row.row as bs => rw [walkScalars_aggregates_congr as bs h]
termination_by structural a

/-- Scalars of equal lists compute aggregates alike. -/
theorem walkScalars_aggregates_congr (as bs : List Scalar) (h : beqScalars as bs = true) :
    (walkScalars as).any Scalar.isAggregate = (walkScalars bs).any Scalar.isAggregate := by
  match as, bs with
  | [], [] => rfl
  | [], _ :: _ | _ :: _, [] => simp [beqScalars] at h
  | a :: as, b :: bs =>
    rw [beqScalars, Bool.and_eq_true] at h
    rw [walkScalars, walkScalars, List.any_append, List.any_append,
      Scalar.aggregates_congr a b h.1, walkScalars_aggregates_congr as bs h.2]
termination_by structural as

/-- Equal calls compute aggregates alike. -/
theorem Call.aggregates_congr (a b : Call) (h : a.beq b = true) :
    a.walk.any Scalar.isAggregate = b.walk.any Scalar.isAggregate := by
  obtain ⟨name, args, type, isAggregate, keep⟩ := a
  obtain ⟨name', args', type', isAggregate', keep'⟩ := b
  simp only [Call.beq, Bool.and_eq_true] at h
  exact walkScalars_aggregates_congr args args' h.1.1.1.2
termination_by structural a

/-- Equal predicates compute aggregates alike. -/
theorem Predicate.aggregates_congr (a b : Predicate) (h : a.beq b = true) :
    a.walk.any Scalar.isAggregate = b.walk.any Scalar.isAggregate := by
  cases a <;> cases b
  case compare.compare l op r withNull l' op' r' withNull' =>
    simp only [Predicate.beq, Bool.and_eq_true] at h
    simp only [Predicate.walk, List.any_append, Scalar.aggregates_congr l l' h.1.1.1,
      Scalar.aggregates_congr r r' h.1.2]
  case like.like e p escape negated e' p' escape' negated' =>
    cases escape with
    | none =>
      cases escape' with
      | none =>
        simp only [Predicate.beq, Bool.and_eq_true] at h
        simp only [Predicate.walk, List.any_append, Scalar.aggregates_congr e e' h.1.1,
          Scalar.aggregates_congr p p' h.1.2]
      | some x' => exact nomatch h
    | some x =>
      cases escape' with
      | none => exact nomatch h
      | some x' =>
        simp only [Predicate.beq, Bool.and_eq_true] at h
        simp only [Predicate.walk, List.any_append, Scalar.aggregates_congr e e' h.1.1.1,
          Scalar.aggregates_congr p p' h.1.1.2, Scalar.aggregates_congr x x' h.1.2]
  case search.search e kind p sensitive negated e' kind' p' sensitive' negated' =>
    simp only [Predicate.beq, Bool.and_eq_true] at h
    simp only [Predicate.walk, List.any_append, Scalar.aggregates_congr e e' h.1.1.1.1,
      Scalar.aggregates_congr p p' h.1.1.2]
  case between.between e low high negated e' low' high' negated' =>
    simp only [Predicate.beq, Bool.and_eq_true] at h
    simp only [Predicate.walk, List.any_append, Scalar.aggregates_congr e e' h.1.1.1,
      Scalar.aggregates_congr low low' h.1.1.2, Scalar.aggregates_congr high high' h.1.2]
  case isNull.isNull e negated e' negated' =>
    simp only [Predicate.beq, Bool.and_eq_true] at h
    exact Scalar.aggregates_congr e e' h.1
  case isDistinct.isDistinct l r negated l' r' negated' =>
    simp only [Predicate.beq, Bool.and_eq_true] at h
    simp only [Predicate.walk, List.any_append, Scalar.aggregates_congr l l' h.1.1,
      Scalar.aggregates_congr r r' h.1.2]
  case inQuery.inQuery e q negated e' q' negated' =>
    simp only [Predicate.beq, Bool.and_eq_true] at h
    simp only [Predicate.walk, List.any_append, Scalar.aggregates_congr e e' h.1.1,
      eq_of_beq h.1.2]
  case inList.inList e items negated withNull e' items' negated' withNull' =>
    simp only [Predicate.beq, Bool.and_eq_true] at h
    simp only [Predicate.walk, List.any_append, Scalar.aggregates_congr e e' h.1.1.1,
      walkScalars_aggregates_congr items items' h.1.1.2]
  case functionLike.functionLike c d => exact Call.aggregates_congr c d h
  case notScalar.notScalar e negated p e' negated' p' =>
    simp only [Predicate.beq, Bool.and_eq_true] at h
    exact Scalar.aggregates_congr e e' h.1.1
  case scalar.scalar e p e' p' =>
    simp only [Predicate.beq, Bool.and_eq_true] at h
    exact Scalar.aggregates_congr e e' h.1
  case nested.nested c d => exact Condition.aggregates_congr c d h
  all_goals
    first
    | obtain ⟨_, _, _, _, heq⟩ := Predicate.like_of_beq h
      cases heq
    | exact nomatch h
termination_by structural a

/-- Equal branches compute aggregates alike. -/
theorem Branch.aggregates_congr (a b : Branch) (h : a.beq b = true) :
    a.walk.any Scalar.isAggregate = b.walk.any Scalar.isAggregate := by
  obtain ⟨negated, predicate, joinsOr⟩ := a
  obtain ⟨negated', predicate', joinsOr'⟩ := b
  simp only [Branch.beq, Bool.and_eq_true] at h
  exact Predicate.aggregates_congr predicate predicate' h.1.2
termination_by structural a

/-- Branches of equal lists compute aggregates alike. -/
theorem walkBranches_aggregates_congr (as bs : List Branch) (h : beqBranches as bs = true) :
    (walkBranches as).any Scalar.isAggregate = (walkBranches bs).any Scalar.isAggregate := by
  match as, bs with
  | [], [] => rfl
  | [], _ :: _ | _ :: _, [] => simp [beqBranches] at h
  | a :: as, b :: bs =>
    rw [beqBranches, Bool.and_eq_true] at h
    rw [walkBranches, walkBranches, List.any_append, List.any_append,
      Branch.aggregates_congr a b h.1, walkBranches_aggregates_congr as bs h.2]
termination_by structural as

/-- Equal conditions compute aggregates alike. -/
theorem Condition.aggregates_congr (a b : Condition) (h : a.beq b = true) :
    a.walk.any Scalar.isAggregate = b.walk.any Scalar.isAggregate := by
  obtain ⟨as⟩ := a
  obtain ⟨bs⟩ := b
  exact walkBranches_aggregates_congr as bs h
termination_by structural a

end

/-- Equal expressions compute aggregates alike. -/
theorem Scalar.anyPart_isAggregate_congr {a b : Scalar} (h : (a == b) = true) :
    a.anyPart Scalar.isAggregate = b.anyPart Scalar.isAggregate :=
  Scalar.aggregates_congr a b h

end SqlCompiler
