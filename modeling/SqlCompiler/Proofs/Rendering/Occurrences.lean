import SqlCompiler.Legalize.Predicate
import SqlCompiler.Proofs.Queries.Parts
import SqlCompiler.Store.Reach

/-!
# Occurrences of references

Where parameters and queries occur in the statements of a store, and which of them the printed form
of a statement can refer to.  Printing keeps every reference as it is, except that a search which
is left in a statement is spelled as `LIKE`, with a parameter whose value is the pattern.

Main results:

- Definition `Printing`: what is printed, and what it may refer to.
- Definition `Within`: the references among some scalars are allowed ones.
- Definitions `Store.Mentions` and `Store.Carries`: the parameters of a store, and those with
  their `LIKE` patterns.
- Theorem `Within.legalPredicate_search`, `Within.legalPredicate_isDistinct`: the legal form of
  a predicate refers to nothing else.
-/

namespace SqlCompiler

/-! ## Allowed references -/

/-- What is printed: for a provider and over a store, in the scopes of some queries, and with allowed
references only. -/
structure Printing where
  provider : Provider
  store : Store
  /-- Whether what has been printed may be changed later. -/
  edits : Prop
  /-- The parameters that placeholders may stand for. -/
  parameter : Parameter → Prop
  /-- The queries that may be opened. -/
  query : QueryRef → Prop
  /-- The queries whose sources may be in view. -/
  scope : QueryRef → Prop
  inScope : ∀ q, query q → scope q

/-- Whether a part of an expression is an allowed reference, or refers to nothing that is limited. -/
@[simp]
def Printing.Allows (P : Printing) : Scalar → Prop
  | .parameter p => P.parameter p
  | .query q => P.query q
  | _ => True

/-- Every reference among some scalars is an allowed one. -/
def Within (P : Printing) (scalars : List Scalar) : Prop :=
  ∀ e ∈ scalars, P.Allows e

namespace Within

variable {P : Printing}

@[simp]
theorem nil : Within P [] := by simp [Within]

@[simp]
theorem append {xs ys : List Scalar} : Within P (xs ++ ys) ↔ Within P xs ∧ Within P ys := by
  simp [Within, or_imp, forall_and]

@[simp]
theorem cons {e : Scalar} {rest : List Scalar} :
    Within P (e :: rest) ↔ P.Allows e ∧ Within P rest := by
  simp [Within]

theorem flatMap {α : Type} {f : α → List Scalar} {xs : List α} :
    Within P (xs.flatMap f) ↔ ∀ x ∈ xs, Within P (f x) := by
  simp only [Within, List.mem_flatMap]
  exact ⟨fun h x hx e he => h e ⟨x, hx, he⟩, fun h e ⟨x, hx, he⟩ => h x hx e he⟩

/-- A look at the scalars of some part that may be missing. -/
theorem of_option {α : Type} {f : α → List Scalar} {o : Option α} {a : α}
    (h : Within P ((o.map f).getD [])) (ha : o = some a) : Within P (f a) := by
  simpa [ha] using h

/-- The scalars of a list are the scalars of its items. -/
theorem walkScalars {items : List Scalar} :
    Within P (walkScalars items) ↔ ∀ e ∈ items, Within P e.walk := by
  simp only [Within, mem_walkScalars]
  exact ⟨fun h e he p hp => h p ⟨e, he, hp⟩, fun h p ⟨e, he, hp⟩ => h e he p hp⟩

theorem conjoin {c : Condition} {p : Predicate} :
    Within P (c.conjoin p).walk ↔ Within P c.walk ∧ Within P p.walk := by
  simp [Within, or_imp, forall_and]

theorem disjoin {c : Condition} {p : Predicate} :
    Within P (c.disjoin p).walk ↔ Within P c.walk ∧ Within P p.walk := by
  simp [Within, or_imp, forall_and]

theorem ofPredicate {p : Predicate} :
    Within P (Condition.ofPredicate p).walk ↔ Within P p.walk := by
  simp [Within]

/-- Negating the last branch of a condition keeps its scalars. -/
theorem negateLast {c : Condition} :
    Within P (Condition.walk ⟨negateLast c.branches⟩) ↔ Within P c.walk := by
  simp only [Within, Condition.mem_walk_negateLast]

end Within

/-! ## Parameters of a store -/

/-- The scalars of a table's rows or of its text. -/
def TableKind.walk : TableKind → List Scalar
  | .raw _ args => walkScalars args
  | .values rows => rows.flatMap walkScalars
  | _ => []

/-- The scalars a list of assignments writes to. -/
def targetsOf (items : List Assignment) : List Scalar :=
  items.flatMap fun item => item.target.walk

/-- The scalars an output clause names. -/
def OutputClause.targets (output : Option OutputClause) : List Scalar :=
  match output with
  | none => []
  | some o => targetsOf o.items

/-- The scalars a statement writes to. -/
def StatementBody.targets : StatementBody → List Scalar
  | .insert i output => targetsOf i.items ++ OutputClause.targets output
  | .update u output => targetsOf u.keys ++ targetsOf u.items ++ OutputClause.targets output
  | .delete _ _ output => OutputClause.targets output
  | .upsert i u => targetsOf i.items ++ targetsOf u.keys ++ targetsOf u.items
  | .merge _ operations output _ =>
    operations.flatMap (fun operation => targetsOf operation.items) ++ OutputClause.targets output
  | .multiInsert _ inserts => inserts.flatMap fun branch => targetsOf branch.insert.items
  | .select | .createTable .. | .dropTable .. | .truncateTable .. => []

/-- A parameter that occurs in the expressions of a store. -/
inductive Store.Mentions (s : Store) (p : Parameter) : Prop where
  | column (c : ColumnRef) (h : .parameter p ∈ (s.column c).expression.walk)
  | query (q : QueryRef) (h : .parameter p ∈ s.walkQuery q)
  | table (t : TableRef) (h : .parameter p ∈ (s.table t).kind.walk)
  | statement (t : StatementRef) (h : .parameter p ∈ (s.statement t).body.walk)
  | target (t : StatementRef) (h : .parameter p ∈ (s.statement t).body.targets)

/-- A set of parameters that is closed under spelling searches as `LIKE`. -/
def ClosedUnderPatterns (S : Parameter → Prop) (d : Dialect) : Prop :=
  ∀ kind q p, S q → (d.likePattern kind (.parameter q)).1 = .parameter p → S p

/-- The parameters of a store, and the ones searches by them are spelled with. -/
inductive Store.Carries (s : Store) (d : Dialect) : Parameter → Prop where
  | occurs {p : Parameter} (h : s.Mentions p) : Carries s d p
  | pattern {q p : Parameter} (kind : SearchKind) (hq : Carries s d q)
      (h : (d.likePattern kind (.parameter q)).1 = .parameter p) : Carries s d p

theorem Store.Carries.closed (s : Store) (d : Dialect) : ClosedUnderPatterns (s.Carries d) d :=
  fun kind _ _ hq h => .pattern kind hq h

/-! ## Legal forms -/

namespace Within

variable {P : Printing} {d : Dialect}

theorem escapeLikeScalar {pattern : Scalar} (specials : List Char) (escape : Char)
    (h : Within P pattern.walk) : Within P (escapeLikeScalar specials escape pattern).walk := by
  unfold SqlCompiler.escapeLikeScalar
  generalize specials.filter (· == escape) ++ specials.filter (· != escape) = ordered
  induction ordered generalizing pattern with
  | nil => exact h
  | cons c rest ih =>
    refine ih ?_
    simp [Scalar.call, Call.plain, Scalar.walk, Call.walk, SqlCompiler.walkScalars, Scalar.text,
      Scalar.constant, h]

theorem decorateScalar {e : Scalar} (kind : SearchKind) (joiner : BinaryOperator)
    (h : Within P e.walk) : Within P (kind.decorateScalar joiner e).walk := by
  cases kind <;>
    simp [SearchKind.decorateScalar, Scalar.walk, Scalar.text, Scalar.constant, h]

/-- The pattern of a search refers to the parameters of what is searched for, or to one of
their patterns. -/
theorem likePattern (hclosed : ClosedUnderPatterns P.parameter d) (kind : SearchKind)
    {pattern : Scalar} (h : Within P pattern.walk) : Within P (d.likePattern kind pattern).1.walk := by
  have hcomputed : Within P (kind.decorateScalar d.concatOperator
      (SqlCompiler.escapeLikeScalar d.likeSpecials Dialect.likeEscape pattern)).walk :=
    decorateScalar kind _ (escapeLikeScalar _ _ h)
  unfold Dialect.likePattern
  split
  · simp [Scalar.walk]
  · rename_i p
    split
    · rename_i s hs
      have hp : P.parameter p := h (.parameter p) (by simp [Scalar.walk])
      have hpattern := hclosed kind p _ hp (by simp only [Dialect.likePattern, hs]; rfl)
      simpa [Scalar.walk] using hpattern
    · exact hcomputed
  · exact hcomputed

theorem likeSearch (hclosed : ClosedUnderPatterns P.parameter d) (kind : SearchKind)
    {operand pattern : Scalar} (negated : Bool) (ho : Within P operand.walk) (hp : Within P pattern.walk) :
    Within P (d.likeSearch operand kind pattern negated).walk := by
  have hpattern := likePattern hclosed kind hp
  unfold Dialect.likeSearch
  split
  rename_i found isEscaped heq
  rw [heq] at hpattern
  cases isEscaped <;>
    simp [Predicate.walk, Scalar.walk, Scalar.text, Scalar.constant, ho, hpattern]

theorem caseSensitiveCheck (kind : SearchKind) {operand pattern : Scalar}
    (ho : Within P operand.walk) (hp : Within P pattern.walk) :
    Within P (caseSensitiveCheck kind operand pattern).walk := by
  cases kind <;>
    simp [SqlCompiler.caseSensitiveCheck, Predicate.equal, Predicate.comparison, Predicate.walk,
      Scalar.walk, Scalar.call, Call.plain, Call.walk, SqlCompiler.walkScalars, Scalar.int,
      Scalar.constant, ho, hp]

/-- The legal form of a search refers to its parameters and to their patterns. -/
theorem legalPredicate_search {s : Store} {provider : Provider}
    (hclosed : ClosedUnderPatterns P.parameter provider.dialect) {operand pattern : Scalar}
    {kind : SearchKind} {caseSensitive negated : Bool}
    (h : Within P (Predicate.search operand kind pattern caseSensitive negated).walk) :
    Within P (s.legalPredicate provider
      (.search operand kind pattern caseSensitive negated)).walk := by
  have hlegal : s.legalPredicate provider (.search operand kind pattern caseSensitive negated) =
      provider.dialect.legalSearch (.search operand kind pattern caseSensitive negated) := by
    simp [Store.legalPredicate, Store.plainLegalPredicate, Store.legalDateComparison]
  obtain ⟨ho, hp⟩ := by simpa [Predicate.walk] using h
  have hlike := likeSearch hclosed kind negated ho hp
  have hcheck := caseSensitiveCheck kind ho hp
  rw [hlegal]
  unfold Dialect.legalSearch
  simp only
  split
  · cases negated
    · have hwhole : Within P ((Condition.ofPredicate (provider.dialect.likeSearch operand kind
          pattern false)).conjoin (SqlCompiler.caseSensitiveCheck kind operand pattern)).walk :=
        conjoin.mpr ⟨ofPredicate.mpr hlike, hcheck⟩
      simpa [Predicate.walk] using hwhole
    · have hwhole : Within P ((Condition.ofPredicate (provider.dialect.likeSearch operand kind
          pattern true)).disjoin (SqlCompiler.caseSensitiveCheck kind operand pattern)).walk :=
        disjoin.mpr ⟨ofPredicate.mpr hlike, hcheck⟩
      simpa [Predicate.walk, negateLast] using hwhole
  · exact hlike

/-- The legal form of a test for distinctness refers to its parameters. -/
theorem legalPredicate_isDistinct {s : Store} {provider : Provider} {left right : Scalar}
    {negated : Bool} (h : Within P (Predicate.isDistinct left right negated).walk) :
    Within P (s.legalPredicate provider (.isDistinct left right negated)).walk := by
  have hlegal : s.legalPredicate provider (.isDistinct left right negated) =
      if provider.rules.distinctFrom then .isDistinct left right negated
      else distinctByCase left right negated := by
    simp [Store.legalPredicate, Store.plainLegalPredicate, Store.legalDateComparison]
  rw [hlegal]
  split
  · exact h
  · simp only [Predicate.walk, append] at h
    simp [distinctByCase, Predicate.equal, Predicate.comparison, Predicate.walk, Scalar.call,
      Call.plain, Scalar.walk, Call.walk, SqlCompiler.walkScalars, conjoin, disjoin, ofPredicate,
      Scalar.int, Scalar.constant, h]

end Within

end SqlCompiler
