import SqlCompiler.Legalize.Statement
import SqlCompiler.Proofs.Paging.Clauses
import SqlCompiler.Proofs.Queries.Parts

/-!
# Statements that lead to fewer queries

What replaces a part of an expression while it is legalized may drop a part or repeat it, and brings
in texts, numbers and functions.  It never brings in a subquery.

So when the expressions of a statement are legalized, it may come to lead to fewer queries, never to
other ones, and nothing that its structure depends on changes.  So it is when aliases are given out.

Main results:

- Definition `Transformer.KeepsToQueries`: a transformer brings in no subquery.
- Theorem `Transformer.KeepsToQueries.scalar`: so it is with whole expressions.
- Theorem `Store.keepsToQueries_legalizerWithin`: so it is with legal expressions.
- Definition `Store.Narrows`: a statement leads to some of the queries it led to, and these have the
  same form.
- Theorem `Store.narrows_legalizeExpressions`: legalizing the expressions of a statement.
- Theorem `Store.narrows_finalizeAliases`: giving out aliases.
-/

namespace SqlCompiler

/-- A transformer brings in no subquery. -/
structure Transformer.KeepsToQueries (w : Transformer) : Prop where
  onScalar : ∀ e r, .query r ∈ (w.onScalar e).walk → .query r ∈ e.walk
  onPredicate : ∀ p r, .query r ∈ (w.onPredicate p).walk → .query r ∈ p.walk

namespace Transformer.KeepsToQueries

variable {w : Transformer} {r : QueryRef}

mutual

theorem scalar (h : w.KeepsToQueries) (e : Scalar) (hr : .query r ∈ (w.scalar e).walk) :
    .query r ∈ e.walk := by
  cases e with
  | function c =>
    have hr := h.onScalar _ r hr
    simp only [Scalar.walk, List.mem_cons, reduceCtorEq, false_or] at hr ⊢
    exact h.call c hr
  | binary left op right type =>
    have hr := h.onScalar _ r hr
    simp only [Scalar.walk, List.mem_cons, List.mem_append, reduceCtorEq, false_or] at hr ⊢
    exact hr.imp (h.scalar left) (h.scalar right)
  | raw format args type precedence =>
    have hr := h.onScalar _ r hr
    simp only [Scalar.walk, List.mem_cons, reduceCtorEq, false_or] at hr ⊢
    exact h.scalars args hr
  | convert target source operand keep =>
    have hr := h.onScalar _ r hr
    simp only [Scalar.walk, List.mem_cons, reduceCtorEq, false_or] at hr ⊢
    exact h.scalar operand hr
  | condition c =>
    have hr := h.onScalar _ r hr
    simp only [Scalar.walk, List.mem_cons, reduceCtorEq, false_or] at hr ⊢
    exact h.condition c hr
  | row items =>
    have hr := h.onScalar _ r hr
    simp only [Scalar.walk, List.mem_cons, reduceCtorEq, false_or] at hr ⊢
    exact h.scalars items hr
  | _ => exact h.onScalar _ r hr
termination_by structural e

theorem scalars (h : w.KeepsToQueries) (items : List Scalar)
    (hr : .query r ∈ walkScalars (w.scalars items)) : .query r ∈ walkScalars items := by
  cases items with
  | nil => exact hr
  | cons e rest =>
    rw [Transformer.scalars, walkScalars, List.mem_append] at hr
    rw [walkScalars, List.mem_append]
    exact hr.imp (h.scalar e) (h.scalars rest)
termination_by structural items

theorem call (h : w.KeepsToQueries) (c : Call) (hr : .query r ∈ (w.call c).walk) :
    .query r ∈ c.walk := by
  obtain ⟨name, args, type, isAggregate, keep⟩ := c
  exact h.scalars args hr
termination_by structural c

theorem predicate (h : w.KeepsToQueries) (p : Predicate) (hr : .query r ∈ (w.predicate p).walk) :
    .query r ∈ p.walk := by
  cases p with
  | compare left op right withNull =>
    have hr := h.onPredicate _ r hr
    simp only [Predicate.walk, List.mem_append] at hr ⊢
    exact hr.imp (h.scalar left) (h.scalar right)
  | like operand pattern escape negated =>
    cases escape with
    | none =>
      have hr := h.onPredicate _ r hr
      simp only [Predicate.walk, List.mem_append] at hr ⊢
      exact hr.imp (h.scalar operand) (h.scalar pattern)
    | some escape =>
      have hr := h.onPredicate _ r hr
      simp only [Predicate.walk, List.mem_append] at hr ⊢
      exact hr.imp (Or.imp (h.scalar operand) (h.scalar pattern)) (h.scalar escape)
  | search operand kind pattern caseSensitive negated =>
    have hr := h.onPredicate _ r hr
    simp only [Predicate.walk, List.mem_append] at hr ⊢
    exact hr.imp (h.scalar operand) (h.scalar pattern)
  | between operand low high negated =>
    have hr := h.onPredicate _ r hr
    simp only [Predicate.walk, List.mem_append] at hr ⊢
    exact hr.imp (Or.imp (h.scalar operand) (h.scalar low)) (h.scalar high)
  | isNull operand negated => exact h.scalar operand (h.onPredicate _ r hr)
  | isDistinct left right negated =>
    have hr := h.onPredicate _ r hr
    simp only [Predicate.walk, List.mem_append] at hr ⊢
    exact hr.imp (h.scalar left) (h.scalar right)
  | inQuery operand query negated =>
    have hr := h.onPredicate _ r hr
    simp only [Predicate.walk, List.mem_append] at hr ⊢
    exact hr.imp_left (h.scalar operand)
  | inList operand items negated withNull =>
    have hr := h.onPredicate _ r hr
    simp only [Predicate.walk, List.mem_append] at hr ⊢
    exact hr.imp (h.scalar operand) (h.scalars items)
  | functionLike c => exact h.call c (h.onPredicate _ r hr)
  | notScalar operand negated precedence => exact h.scalar operand (h.onPredicate _ r hr)
  | scalar operand precedence => exact h.scalar operand (h.onPredicate _ r hr)
  | nested c => exact h.condition c (h.onPredicate _ r hr)
termination_by structural p

theorem branch (h : w.KeepsToQueries) (b : Branch) (hr : .query r ∈ (w.branch b).walk) :
    .query r ∈ b.walk := by
  obtain ⟨negated, p, joinsOr⟩ := b
  exact h.predicate p hr
termination_by structural b

theorem branches (h : w.KeepsToQueries) (items : List Branch)
    (hr : .query r ∈ walkBranches (w.branches items)) : .query r ∈ walkBranches items := by
  cases items with
  | nil => exact hr
  | cons b rest =>
    rw [Transformer.branches, walkBranches, List.mem_append] at hr
    rw [walkBranches, List.mem_append]
    exact hr.imp (h.branch b) (h.branches rest)
termination_by structural items

theorem condition (h : w.KeepsToQueries) (c : Condition) (hr : .query r ∈ (w.condition c).walk) :
    .query r ∈ c.walk := by
  obtain ⟨items⟩ := c
  exact h.branches items hr
termination_by structural c

end

end Transformer.KeepsToQueries

/-! ## Legal scalars -/

namespace Store

variable {s : Store} {d : Dialect} {e left right operand pattern : Scalar} {r : QueryRef}

theorem query_mem_walk_spelled (h : .query r ∈ (d.spelled e).walk) : .query r ∈ e.walk := by
  unfold Dialect.spelled at h
  split at h
  · simpa [Scalar.walk, walkScalars] using h
  · simp only [xorBySum, Scalar.walk, Scalar.int, Scalar.constant, List.mem_cons,
      List.mem_append, List.not_mem_nil, reduceCtorEq, false_or, or_false, or_self] at h ⊢
    exact h
  · split at h <;>
      simpa [Scalar.call, Call.plain, Scalar.walk, Call.walk, walkScalars] using h
  · split at h
    · simpa [Scalar.call, Call.plain, Scalar.walk, Call.walk, walkScalars] using h
    · exact h
  · exact h

theorem query_mem_walk_legalConversion {target source : SqlType} {keep : Bool}
    (h : .query r ∈ (s.legalConversion d target source operand keep).walk) :
    .query r ∈ operand.walk := by
  have hconvert {keep : Bool} (h : .query r ∈ (Scalar.convert target source operand keep).walk) :
      .query r ∈ operand.walk := by
    simpa [Scalar.walk] using h
  unfold legalConversion at h
  generalize (if source.kind == .undefined then s.typeOf operand else source) = actual at h
  dsimp only at h
  split at h
  · exact hconvert h
  · split at h
    · exact hconvert h
    · split at h
      · exact hconvert h
      · exact h

theorem foldBinary?_eq_value {op : BinaryOperator} {type : SqlType} {folded : Scalar}
    (h : foldBinary? left op right type = some folded) : ∃ value, folded = .value value := by
  unfold foldBinary? at h
  simp only [Option.bind_eq_bind, Option.bind_eq_some_iff] at h
  obtain ⟨_, _, _, _, value, _, hfolded⟩ := h
  exact ⟨_, (Option.some.inj hfolded).symm⟩

theorem query_mem_walk_legalBinary {op : BinaryOperator} {type : SqlType}
    (h : .query r ∈ (s.legalBinary d left op right type).walk) :
    .query r ∈ left.walk ∨ .query r ∈ right.walk := by
  unfold legalBinary at h
  split at h
  · next folded hfolded =>
    obtain ⟨value, rfl⟩ := foldBinary?_eq_value hfolded
    simp [Scalar.walk] at h
  · simpa [Scalar.walk] using h

theorem query_mem_walk_legalScalar (h : .query r ∈ (s.legalScalar d e).walk) :
    .query r ∈ e.walk := by
  refine query_mem_walk_spelled (d := d) ?_
  unfold legalScalar at h
  split at h
  · next hspelled =>
    rw [hspelled, Scalar.walk]
    exact List.mem_cons_of_mem _ (query_mem_walk_legalConversion h)
  · next hspelled =>
    rw [hspelled, Scalar.walk]
    exact List.mem_cons_of_mem _ (List.mem_append.mpr (query_mem_walk_legalBinary h))
  · exact h

/-! ## Legal predicates -/

theorem query_mem_walk_escapeLikeScalar {specials : List Char} {escape : Char}
    (h : .query r ∈ (escapeLikeScalar specials escape pattern).walk) :
    .query r ∈ pattern.walk := by
  unfold escapeLikeScalar at h
  generalize specials.filter (· == escape) ++ specials.filter (· != escape) = ordered at h
  induction ordered generalizing pattern with
  | nil => exact h
  | cons c rest ih =>
    simpa [Scalar.call, Call.plain, Scalar.walk, Call.walk, walkScalars, Scalar.text,
      Scalar.constant] using ih h

theorem query_mem_walk_decorateScalar {kind : SearchKind} {joiner : BinaryOperator}
    (h : .query r ∈ (kind.decorateScalar joiner e).walk) : .query r ∈ e.walk := by
  cases kind <;>
    simpa [SearchKind.decorateScalar, Scalar.walk, Scalar.text, Scalar.constant] using h

theorem query_mem_walk_likePattern {kind : SearchKind}
    (h : .query r ∈ (d.likePattern kind pattern).1.walk) : .query r ∈ pattern.walk := by
  have hcomputed (h : .query r ∈ (kind.decorateScalar d.concatOperator
      (escapeLikeScalar d.likeSpecials Dialect.likeEscape pattern)).walk) :
      .query r ∈ pattern.walk :=
    query_mem_walk_escapeLikeScalar (query_mem_walk_decorateScalar h)
  unfold Dialect.likePattern at h
  split at h
  · simp [Scalar.walk] at h
  · split at h
    · simp [Scalar.walk] at h
    · exact hcomputed h
  · exact hcomputed h

theorem query_mem_walk_likeSearch {kind : SearchKind} {negated : Bool}
    (h : .query r ∈ (d.likeSearch operand kind pattern negated).walk) :
    .query r ∈ operand.walk ∨ .query r ∈ pattern.walk := by
  have hpattern : .query r ∈ (d.likePattern kind pattern).1.walk → .query r ∈ pattern.walk :=
    query_mem_walk_likePattern
  unfold Dialect.likeSearch at h
  split at h
  next found isEscaped heq =>
  rw [heq] at hpattern
  cases isEscaped
  all_goals
    simp [Predicate.walk, Scalar.walk, Scalar.text, Scalar.constant] at h
    exact h.imp_right hpattern

theorem query_mem_walk_caseSensitiveCheck {kind : SearchKind}
    (h : .query r ∈ (caseSensitiveCheck kind operand pattern).walk) :
    .query r ∈ operand.walk ∨ .query r ∈ pattern.walk := by
  cases kind <;>
    simpa [caseSensitiveCheck, Predicate.equal, Predicate.comparison, Predicate.walk, Scalar.walk,
      Scalar.call, Call.plain, Call.walk, walkScalars, Scalar.int, Scalar.constant, or_assoc] using h

theorem query_mem_walk_legalSearch {p : Predicate} (h : .query r ∈ (d.legalSearch p).walk) :
    .query r ∈ p.walk := by
  unfold Dialect.legalSearch at h
  split at h
  · next operand kind pattern caseSensitive negated =>
    rw [Predicate.walk, List.mem_append]
    dsimp only at h
    split at h
    · rw [Predicate.walk] at h
      cases negated with
      | false =>
        rw [if_neg Bool.false_ne_true] at h
        simp only [Condition.mem_walk_conjoin, Condition.mem_walk_ofPredicate] at h
        exact h.elim query_mem_walk_likeSearch query_mem_walk_caseSensitiveCheck
      | true =>
        rw [if_pos rfl, Condition.mem_walk_negateLast] at h
        simp only [Condition.mem_walk_disjoin, Condition.mem_walk_ofPredicate] at h
        exact h.elim query_mem_walk_likeSearch query_mem_walk_caseSensitiveCheck
    · exact query_mem_walk_likeSearch h
  · exact h

theorem query_mem_walk_nullAwareComparison {op : Comparison} {leftNull rightNull : Bool}
    (h : .query r ∈ (nullAwareComparison left op right leftNull rightNull).walk) :
    .query r ∈ left.walk ∨ .query r ∈ right.walk := by
  unfold nullAwareComparison at h
  dsimp only at h
  split at h <;>
    simp only [Predicate.comparison, Predicate.walk, Condition.mem_walk_conjoin,
      Condition.mem_walk_disjoin, Condition.mem_walk_ofPredicate, List.mem_append] at h <;>
    grind

theorem query_mem_walk_legalComparison {op : Comparison} {withNull : Option Bool}
    (h : .query r ∈ (s.legalComparison left op right withNull).walk) :
    .query r ∈ left.walk ∨ .query r ∈ right.walk := by
  unfold legalComparison at h
  split at h
  · simp [Predicate.constant, Predicate.ofScalar, Predicate.walk, Scalar.constant, Scalar.walk] at h
  · split at h
    · exact .inl h
    · split at h
      · exact .inr h
      · split at h
        · exact List.mem_append.mp h
        · exact query_mem_walk_nullAwareComparison h

theorem query_mem_walk_distinctByCase {negated : Bool}
    (h : .query r ∈ (distinctByCase left right negated).walk) :
    .query r ∈ left.walk ∨ .query r ∈ right.walk := by
  simp [distinctByCase, Predicate.equal, Predicate.comparison, Predicate.walk, Scalar.call,
    Call.plain, Scalar.walk, Call.walk, walkScalars, Scalar.int, Scalar.constant] at h
  grind

theorem query_mem_walk_legalDateComparison {p : Predicate}
    (h : .query r ∈ (s.legalDateComparison (s.legalScalar d) p).walk) : .query r ∈ p.walk := by
  unfold legalDateComparison at h
  split at h
  · next left op right withNull =>
    have hwrap {e : Scalar} {type : SqlType} (h : .query r ∈ (if e.isConversion then e else
        s.legalScalar d (.convert type type e true)).walk) : .query r ∈ e.walk := by
      split at h
      · exact h
      · simpa [Scalar.walk] using query_mem_walk_legalScalar h
    dsimp only at h
    split at h
    · exact h
    · rw [Predicate.walk, List.mem_append] at h ⊢
      exact h.imp hwrap hwrap
  · exact h

theorem query_mem_walk_plainLegalPredicate {provider : Provider} {p : Predicate}
    (h : .query r ∈ (s.plainLegalPredicate provider p).walk) : .query r ∈ p.walk := by
  have hequal {e : Scalar} {constant : Constant} {other : Predicate} {b : Bool}
      (hother : .query r ∈ other.walk → .query r ∈ e.walk)
      (h : .query r ∈ (if b then Predicate.equal e (.constant constant) else other).walk) :
      .query r ∈ e.walk := by
    split at h
    · simpa [Predicate.equal, Predicate.comparison, Predicate.walk, Scalar.constant, Scalar.walk]
        using h
    · exact hother h
  unfold plainLegalPredicate at h
  split at h
  · rw [Predicate.walk, List.mem_append]
    exact query_mem_walk_legalComparison h
  · exact query_mem_walk_legalSearch h
  · split at h
    · exact h
    · rw [Predicate.walk, List.mem_append]
      exact query_mem_walk_distinctByCase h
  · exact hequal id h
  · exact hequal id h
  · exact h

theorem query_mem_walk_legalPredicate {provider : Provider} {p : Predicate}
    (h : .query r ∈ (s.legalPredicate provider p).walk) : .query r ∈ p.walk := by
  unfold legalPredicate at h
  split at h
  · exact query_mem_walk_legalDateComparison (query_mem_walk_plainLegalPredicate h)
  · exact query_mem_walk_plainLegalPredicate h

/-- Legal expressions bring in no subquery. -/
theorem keepsToQueries_legalizerWithin (s : Store) (provider : Provider) (fuel : Nat) :
    (s.legalizerWithin provider fuel).KeepsToQueries := by
  induction fuel with
  | zero => exact ⟨fun _ _ => query_mem_walk_legalScalar, fun _ _ => query_mem_walk_legalPredicate⟩
  | succ fuel ih =>
    refine ⟨fun _ _ => query_mem_walk_legalScalar, fun p r hr => ?_⟩
    have hlegal : .query r ∈ (s.legalPredicate provider p).walk := by
      dsimp only [legalizerWithin] at hr
      split at hr
      · next c hnested =>
        rw [hnested]
        exact ih.condition c hr
      · exact hr
    exact query_mem_walk_legalPredicate hlegal

end Store

/-- Fields for fields bring in no subquery. -/
theorem keepsToQueries_fieldRenaming (mapping : List (FieldRef × FieldRef)) :
    (fieldRenaming mapping).KeepsToQueries := by
  refine ⟨fun e r hr => ?_, fun _ _ => id⟩
  dsimp only [fieldRenaming] at hr
  split at hr
  · simp [Scalar.walk] at hr
  · exact hr

/-! ## Subqueries of transformed clauses -/

namespace Transformer.KeepsToQueries

variable {w : Transformer} {r : QueryRef}

theorem joins (h : w.KeepsToQueries) (items : List Join)
    (hr : .query r ∈ (w.joins items).flatMap fun join => join.condition.walk) :
    .query r ∈ items.flatMap fun join => join.condition.walk := by
  induction items with
  | nil => exact hr
  | cons join rest ih =>
    obtain ⟨kind, source, condition⟩ := join
    rw [Transformer.joins, List.flatMap_cons, List.mem_append] at hr
    rw [List.flatMap_cons, List.mem_append]
    exact hr.imp (h.condition condition) ih

theorem source (h : w.KeepsToQueries) (source : Source) (hr : .query r ∈ (w.source source).walk) :
    .query r ∈ source.walk := by
  obtain ⟨item, aliasName, joins⟩ := source
  rw [Transformer.source, Source.walk, List.mem_append] at hr
  rw [Source.walk, List.mem_append]
  exact hr.imp_right (h.joins joins)

theorem option (h : w.KeepsToQueries) {e : Option Scalar}
    (hr : ∃ x ∈ e.map w.scalar, .query r ∈ x.walk) : ∃ x ∈ e, .query r ∈ x.walk := by
  obtain ⟨x, hx, hr⟩ := hr
  obtain ⟨y, hy, rfl⟩ := Option.map_eq_some_iff.mp hx
  exact ⟨y, hy, h.scalar y hr⟩

/-- The clauses of a query bring in no subquery. -/
theorem query (h : w.KeepsToQueries) (query : Query) (selected : List Scalar)
    (hr : .query r ∈ (w.query query).scalars selected) : .query r ∈ query.scalars selected := by
  have hsources (hr : ∃ source ∈ (w.query query).allSources, .query r ∈ source.walk) :
      ∃ source ∈ query.allSources, .query r ∈ source.walk := by
    rw [allSources_query] at hr
    obtain ⟨source, hsource, hr⟩ := hr
    obtain ⟨old, hold, rfl⟩ := List.mem_map.mp hsource
    exact ⟨old, hold, h.source old hr⟩
  have horder (hr : ∃ item ∈ (w.query query).orderBy, .query r ∈ item.expression.walk) :
      ∃ item ∈ query.orderBy, .query r ∈ item.expression.walk := by
    obtain ⟨item, hitem, hr⟩ := hr
    obtain ⟨old, hold, rfl⟩ := List.mem_map.mp hitem
    exact ⟨old, hold, h.scalar _ hr⟩
  rw [Query.mem_scalars] at hr ⊢
  exact hr.imp_right (.imp h.option (.imp h.option (.imp hsources (.imp (h.condition _)
    (.imp (h.scalars _) (.imp (h.condition _) (.imp_left horder)))))))

theorem assignments (h : w.KeepsToQueries) (items : List Assignment)
    (hr : .query r ∈ walkAssignments (w.assignments items)) : .query r ∈ walkAssignments items := by
  simp only [walkAssignments, Transformer.assignments, List.mem_flatMap, mem_getD_map] at hr ⊢
  obtain ⟨item, hitem, hr⟩ := hr
  obtain ⟨old, hold, rfl⟩ := List.mem_map.mp hitem
  exact ⟨old, hold, h.option hr⟩

theorem output (h : w.KeepsToQueries) (output : Option OutputClause)
    (hr : .query r ∈ OutputClause.walk (output.map w.output)) :
    .query r ∈ OutputClause.walk output := by
  cases output with
  | none => exact hr
  | some o =>
    rw [Option.map_some, OutputClause.walk, List.mem_append] at hr
    rw [OutputClause.walk, List.mem_append]
    exact hr.imp (h.assignments o.items) (h.scalars o.columns)

/-- The clauses of a statement outside its query bring in no subquery. -/
theorem body (h : w.KeepsToQueries) (body : StatementBody) (hr : .query r ∈ (w.body body).walk) :
    .query r ∈ body.walk := by
  have hcondition {c : Option Condition}
      (hr : .query r ∈ ((c.map w.condition).map Condition.walk).getD []) :
      .query r ∈ (c.map Condition.walk).getD [] := by
    cases c with
    | none => exact hr
    | some c => exact h.condition c hr
  have hoperation (o : MergeOperation) (hr : .query r ∈ (w.operation o).walk) :
      .query r ∈ o.walk := by
    rw [MergeOperation.walk, List.mem_append, List.mem_append] at hr ⊢
    exact hr.imp (.imp hcondition hcondition) (h.assignments o.items)
  have hinsert (b : ConditionalInsert) (hr : .query r ∈ (w.conditionalInsert b).walk) :
      .query r ∈ b.walk := by
    rw [ConditionalInsert.walk, List.mem_append] at hr ⊢
    exact hr.imp hcondition (h.assignments b.insert.items)
  cases body with
  | insert i o =>
    rw [Transformer.body, StatementBody.walk, List.mem_append] at hr
    rw [StatementBody.walk, List.mem_append]
    exact hr.imp (h.assignments i.items) (h.output o)
  | update u o =>
    rw [Transformer.body, StatementBody.walk, List.mem_append, List.mem_append] at hr
    rw [StatementBody.walk, List.mem_append, List.mem_append]
    exact hr.imp (.imp (h.assignments u.keys) (h.assignments u.items)) (h.output o)
  | delete table top o =>
    rw [Transformer.body, StatementBody.walk, List.mem_append, mem_getD_map] at hr
    rw [StatementBody.walk, List.mem_append, mem_getD_map]
    exact hr.imp h.option (h.output o)
  | upsert i u =>
    rw [Transformer.body, StatementBody.walk, List.mem_append, List.mem_append] at hr
    rw [StatementBody.walk, List.mem_append, List.mem_append]
    exact hr.imp (.imp (h.assignments i.items) (h.assignments u.keys)) (h.assignments u.items)
  | merge on operations o hint =>
    rw [Transformer.body, StatementBody.walk, List.mem_append, List.mem_append,
      List.flatMap_map, List.mem_flatMap] at hr
    rw [StatementBody.walk, List.mem_append, List.mem_append, List.mem_flatMap]
    exact hr.imp (.imp (h.condition on) (.imp fun a => .imp_right (hoperation a))) (h.output o)
  | multiInsert mode inserts =>
    rw [Transformer.body, StatementBody.walk, List.flatMap_map, List.mem_flatMap] at hr
    rw [StatementBody.walk, List.mem_flatMap]
    obtain ⟨b, hb, hr⟩ := hr
    exact ⟨b, hb, hinsert b hr⟩
  | _ => exact hr

end Transformer.KeepsToQueries

/-! ## Queries of the same form -/

/-- Which sources of a query have no other ones joined to them. -/
def Query.lone (q : Query) : List Bool := q.sources.map (·.joins.isEmpty)

/-- What the structure of a statement depends on is the same in two queries, apart from how they are
paged.  An order may have been given. -/
structure Query.SameForm (query query' : Query) : Prop where
  distinct : query'.distinct = query.distinct
  lone : query'.lone = query.lone
  orderBy : query.orderBy ≠ [] → query'.orderBy ≠ []

namespace Query.SameForm

variable {query query' query'' : Query}

theorem refl (query : Query) : query.SameForm query := ⟨rfl, rfl, id⟩

theorem trans (h : query.SameForm query') (h' : query'.SameForm query'') :
    query.SameForm query'' where
  distinct := h'.distinct.trans h.distinct
  lone := h'.lone.trans h.lone
  orderBy := h'.orderBy ∘ h.orderBy

end Query.SameForm

/-- Whether a query reads more than one table depends on its sources only. -/
theorem Query.isMultiTable_eq (q : Query) :
    q.isMultiTable = (decide (q.lone.length > 1) || q.lone.any (!·)) := by
  simp [isMultiTable, lone, List.any_map, Function.comp_def]

theorem Transformer.sameForm_query (w : Transformer) (query : Query) :
    query.SameForm (w.query query) where
  distinct := rfl
  lone := by
    have hsource (source : Source) : (w.source source).joins.isEmpty = source.joins.isEmpty := by
      obtain ⟨item, aliasName, joins⟩ := source
      cases joins <;> rfl
    simp only [Query.lone, Transformer.query, List.map_map, Function.comp_def, hsource]
  orderBy h := by simpa [Transformer.query] using h

/-- Deletes. -/
def StatementBody.isDelete : StatementBody → Bool
  | .delete .. => true
  | _ => false

/-- Updates. -/
def StatementBody.isUpdate : StatementBody → Bool
  | .update .. => true
  | _ => false

namespace Store

/-- A statement leads to some of the queries it led to, and these have the same form. -/
structure Narrows (s s' : Store) (t : StatementRef) : Prop extends PagesAlike s s' t where
  reaches : ∀ q, s'.Reaches t q → s.Reaches t q
  form : ∀ q, (s.query q).SameForm (s'.query q)
  isDelete : (s'.statement t).body.isDelete = (s.statement t).body.isDelete
  isUpdate : (s'.statement t).body.isUpdate = (s.statement t).body.isUpdate

namespace Narrows

variable {s s' s'' : Store} {t : StatementRef} {q : QueryRef}

theorem refl (s : Store) (t : StatementRef) : s.Narrows s t where
  toPagesAlike := .refl s t
  reaches _ := id
  form _ := .refl _
  isDelete := rfl
  isUpdate := rfl

theorem trans (h : s.Narrows s' t) (h' : s'.Narrows s'' t) : s.Narrows s'' t where
  toPagesAlike := h.toPagesAlike.trans h'.toPagesAlike
  reaches q := h.reaches q ∘ h'.reaches q
  form q := (h.form q).trans (h'.form q)
  isDelete := h'.isDelete.trans h.isDelete
  isUpdate := h'.isUpdate.trans h.isUpdate

theorem foldl {α : Type} {f : Store → α → Store} (hf : ∀ (s : Store) (a : α), s.Narrows (f s a) t)
    (items : List α) (s : Store) : s.Narrows (items.foldl f s) t := by
  induction items generalizing s with
  | nil => exact .refl s t
  | cons a rest ih => exact (hf s a).trans (ih _)

end Narrows

variable {s s' : Store} {t : StatementRef} {q r : QueryRef}

theorem mem_successors : r ∈ s.successors q ↔
    .query r ∈ (s.query q).scalars (s.selected q) ∨
      ∃ source ∈ (s.query q).allSources, s.cteBody? source = some r := by
  rw [successors, List.mem_append, mem_queriesOf, List.mem_filterMap, scalars_query]

/-! ## Expressions -/

/-- The clauses of a query change, and lead to no other queries. -/
theorem Narrows.modifyQuery (s : Store) (q : QueryRef) {f : Query → Query}
    (hpaged : ∀ query : Query, query.PagedAlike (f query) ∧ (f query).subqueries = query.subqueries)
    (hform : ∀ query : Query, query.SameForm (f query))
    (hcolumns : ∀ query, (f query).columns = query.columns)
    (hscalars : ∀ query selected r, .query r ∈ (f query).scalars selected →
      .query r ∈ query.scalars selected)
    (htables : ∀ query r, (∃ source ∈ (f query).allSources, s.cteBody? source = some r) →
      ∃ source ∈ query.allSources, s.cteBody? source = some r) :
    s.Narrows (s.modifyQuery q f) t where
  toPagesAlike := .modifyQuery s q hpaged
  reaches r := by
    refine Reaches.of_subset (fun _ => id) fun p r hr => ?_
    rw [mem_successors] at hr ⊢
    rw [selected] at hr
    rcases query_modifyQuery s q p f with ⟨rfl, hquery⟩ | hquery
    · rw [hquery, hcolumns] at hr
      exact hr.imp (hscalars _ _ r) (htables _ r)
    · rw [hquery] at hr
      exact hr
  form r := by
    rcases query_modifyQuery s q r f with ⟨rfl, hquery⟩ | hquery
    · rw [hquery]
      exact hform _
    · rw [hquery]
      exact .refl _
  isDelete := rfl
  isUpdate := rfl

theorem narrows_transformColumn {transformer : Store → Transformer}
    (h : ∀ s, (transformer s).KeepsToQueries) (s : Store) (c : ColumnRef) :
    s.Narrows (s.transformColumn transformer c) t where
  toPagesAlike := .ofContent rfl rfl rfl
  reaches q := by
    let change (column : OutputColumn) : OutputColumn :=
      { column with expression := (transformer s).scalar (s.column c).expression }
    refine Reaches.of_subset (fun _ => id) fun p r hr => ?_
    rw [mem_successors, Query.mem_scalars] at hr ⊢
    refine hr.imp_left (.imp_left ?_)
    rintro ⟨e, he, hr⟩
    obtain ⟨d, hd, rfl⟩ := List.mem_map.mp he
    refine ⟨_, List.mem_map_of_mem hd, ?_⟩
    change .query r ∈ ((s.modifyColumn c change).column d).expression.walk at hr
    by_cases hdc : d = c
    · rcases column_modifyColumn s c d change with hcolumn | hcolumn
      · rwa [hcolumn] at hr
      · rw [hcolumn] at hr
        rw [hdc]
        exact (h s).scalar _ hr
    · rwa [column_modifyColumn_ne hdc] at hr
  form q := .refl _
  isDelete := rfl
  isUpdate := rfl

theorem narrows_transformClauses {w : Transformer} (h : w.KeepsToQueries) (s : Store)
    (q : QueryRef) : s.Narrows (s.modifyQuery q w.query) t := by
  refine .modifyQuery s q (fun query => ⟨w.pagedAlike_query query, w.subqueries_query query⟩)
    w.sameForm_query (fun _ => rfl) (fun query selected _ => h.query query selected)
    fun query r hr => ?_
  obtain ⟨source, hsource, hr⟩ := hr
  rw [Transformer.allSources_query] at hsource
  obtain ⟨old, hold, rfl⟩ := List.mem_map.mp hsource
  exact ⟨old, hold, by cases old; exact hr⟩

theorem narrows_transformQuery {transformer : Store → Transformer}
    (h : ∀ s, (transformer s).KeepsToQueries) (s : Store) (q : QueryRef) :
    s.Narrows (s.transformQuery transformer q) t :=
  (Narrows.foldl (narrows_transformColumn h) (s.query q).columns s).trans
    (narrows_transformClauses (h _) _ q)

theorem narrows_transformBody {w : Transformer} (h : w.KeepsToQueries) :
    s.Narrows (s.modifyStatement t fun statement =>
      { statement with body := w.body statement.body }) t where
  toPagesAlike := .transformBody w
  reaches q := by
    refine Reaches.of_subset (fun r hr => ?_) fun _ _ => id
    rw [statement_transformBody, rootQueries, List.mem_append, mem_queriesOf] at hr
    rw [rootQueries, List.mem_append, mem_queriesOf]
    exact hr.imp_right (h.body _)
  form q := .refl _
  isDelete := by
    rw [statement_transformBody]
    cases (s.statement t).body <;> rfl
  isUpdate := by
    rw [statement_transformBody]
    cases (s.statement t).body <;> rfl

/-- When its expressions are legalized, a statement leads to no other queries. -/
theorem narrows_legalizeExpressions (p : Provider) : s.Narrows (s.legalizeExpressions p t) t := by
  have hkeeps (s' : Store) := s'.keepsToQueries_legalizerWithin p (2 * s.weight + 8)
  exact (Narrows.foldl (narrows_transformQuery hkeeps) (s.statementQueries t) s).trans
    (narrows_transformBody (hkeeps _))

/-! ## Structure and aliases -/

theorem narrows_orderForOffset (s : Store) (q : QueryRef) : s.Narrows (s.orderForOffset q) t := by
  refine .modifyQuery s q (fun query => ?_) (fun query => ?_) (fun query => ?_)
    (fun query selected r hr => ?_) fun query r hr => ?_
  · split
    · exact ⟨⟨rfl, rfl, rfl, rfl⟩, rfl⟩
    · exact ⟨.refl _, rfl⟩
  · split
    · exact ⟨rfl, rfl, fun _ h => by cases h⟩
    · exact .refl _
  · split <;> rfl
  · split at hr
    · next hcondition =>
      have horder : query.orderBy = [] := List.isEmpty_iff.mp ((Bool.and_eq_true _ _ ▸ hcondition).2)
      rw [Query.mem_scalars] at hr ⊢
      simpa [Query.allSources, Scalar.formatted, Scalar.walk, walkScalars, horder] using hr
    · exact hr
  · split at hr <;> exact hr

theorem lone_sourcesWithAliases (byName : Bool) (used : AliasSet) (sources : List Source) :
    (sourcesWithAliases byName used sources).1.map (·.joins.isEmpty) =
      sources.map (·.joins.isEmpty) := by
  have hsource (used : AliasSet) (source : Source) :
      (source.withAliases byName used).1.joins.isEmpty = source.joins.isEmpty := by
    obtain ⟨item, aliasName, joins⟩ := source
    cases joins <;> rfl
  induction sources generalizing used with
  | nil => rfl
  | cons source rest ih =>
    rw [sourcesWithAliases, List.map_cons, List.map_cons, hsource, ih]

theorem lone_aliasSourcesOf (byName : Bool) (used : AliasSet) (s : Store) (q r : QueryRef) :
    ((aliasSourcesOf byName (used, s) q).2.query r).lone = (s.query r).lone := by
  let names : Query → Query := fun query => { query with
    sources := (sourcesWithAliases (byName && !(s.query q).isMultiTable &&
      (s.query q).sources.length == 1) used (s.query q).sources).1 }
  change ((s.modifyQuery q names).query r).lone = (s.query r).lone
  rcases query_modifyQuery s q r names with ⟨rfl, hquery⟩ | hquery
  · rw [hquery]
    exact lone_sourcesWithAliases _ used _
  · rw [hquery]

theorem lone_aliasSources (queries : List QueryRef) (root : QueryRef) (rootByName : Bool)
    (r : QueryRef) : ((s.aliasSources queries root rootByName).query r).lone = (s.query r).lone := by
  have hfold : ∀ (queries : List QueryRef) (state : AliasSet × Store),
      ((queries.foldl (fun state q => aliasSourcesOf (rootByName && q == root) state q)
        state).2.query r).lone = (state.2.query r).lone := by
    intro queries
    induction queries with
    | nil => exact fun state => rfl
    | cons q rest ih => exact fun (used, s) => (ih _).trans (lone_aliasSourcesOf _ used s q r)
  exact hfold queries (s.sourceAliases queries, s)

/-- When aliases are given out, a statement leads to the queries that it led to. -/
theorem narrows_finalizeAliases (hs : s.Owned) : s.Narrows (s.finalizeAliases t) t := by
  have hnames := namesColumns_finalizeAliases s t
  have hstatement : (s.finalizeAliases t).statement = s.statement := by
    rw [hnames.content, (namesSources_withNamedSources s t).content]
    rfl
  have hclauses := sameClauses_finalizeAliases s t
  refine ⟨pagesAlike_finalizeAliases, fun q hq => ?_,
    fun q => ⟨(hclauses q).distinct, ?_, fun h => (hclauses q).orderBy ▸ h⟩, ?_, ?_⟩
  · rwa [← mem_statementQueries, statementQueries_finalizeAliases hs, mem_statementQueries] at hq
  · rw [hnames.query, withNamedSources, lone_aliasSources]
  · rw [hstatement]
  · rw [hstatement]

end Store

end SqlCompiler
