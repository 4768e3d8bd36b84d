import SqlCompiler.Legalize.Statement
import SqlCompiler.Proofs.Columns.Agreement
import SqlCompiler.Proofs.Columns.Ownership

/-!
# Rewriting statements

Dropping unused columns, restructuring a statement and legalizing its expressions change a store by
operations that neither move nor rename a column.  A relation between stores that lasts through such
operations holds between a store and what any of this leaves.

Main results:

- Definition `Store.Rewriting`: a relation that lasts through operations that keep names.
- Theorem `Store.Rewriting.pruneColumns`, `Store.Rewriting.restructured`,
  `Store.Rewriting.legalizeExpressions`: it lasts through the rewriting of statements.
- Theorem `Store.Evolves.rewriting`, `Store.Operates.rewriting`: two relations that do.
-/

namespace SqlCompiler.Store

/-- A relation between stores that lasts through operations that neither move nor rename a column. -/
structure Rewriting (R : Store → Store → Prop) : Prop where
  refl : ∀ s : Store, R s s
  trans : ∀ {s s' s'' : Store}, R s s' → R s' s'' → R s s''
  copyTable : ∀ (s : Store) (t : TableRef), R s (s.copyTable t).2
  addQuery : ∀ (s : Store) (parent : Option QueryRef), R s (s.addQuery parent).2
  addColumn : ∀ (s : Store) (q : QueryRef) (e : Scalar) (aliasName : Option String),
    R s (s.addColumn q e aliasName).2
  addFreshColumn : ∀ (s : Store) (q : QueryRef) (e : Scalar) (aliasName : Option String),
    R s (s.addFreshColumn q e aliasName).2
  modifyQuery : ∀ (s : Store) (q : QueryRef) {f : Query → Query},
    (f (s.query q)).columns.Sublist (s.query q).columns → R s (s.modifyQuery q f)
  modifyColumn : ∀ (s : Store) (c : ColumnRef) {f : OutputColumn → OutputColumn},
    (∀ column, (f column).parent = column.parent) →
      (∀ column, (f column).aliasName = column.aliasName) → R s (s.modifyColumn c f)
  modifyStatement : ∀ (s : Store) (t : StatementRef) (f : Statement → Statement),
    R s (s.modifyStatement t f)

theorem evolves_copyTable (s : Store) (t : TableRef) : s.Evolves (s.copyTable t).2 := by
  have hfields : ∀ (fields : List FieldRef) (copy : TableRef) (s : Store),
      (s.copyFields copy fields).2.queries = s.queries ∧
        (s.copyFields copy fields).2.columns = s.columns := by
    intro fields
    induction fields with
    | nil => exact fun _ _ => ⟨rfl, rfl⟩
    | cons f rest ih => exact fun copy s => ih copy _
  unfold copyTable
  exact .ofContent (hfields _ _ _).1 (hfields _ _ _).2

theorem Evolves.rewriting : Rewriting Evolves where
  refl := .refl
  trans := .trans
  copyTable := evolves_copyTable
  addQuery := .addQuery
  addColumn := .addColumn
  addFreshColumn := .addFreshColumn
  modifyQuery := .modifyQuery
  modifyColumn := .modifyColumn
  modifyStatement _ _ _ := .ofContent rfl rfl

theorem Operates.rewriting : Rewriting Operates where
  refl := .refl
  trans := .trans
  copyTable s t := .single (.copyTable s t)
  addQuery := .addQuery
  addColumn := .addColumn
  addFreshColumn := .addFreshColumn
  modifyQuery := .modifyQuery
  modifyColumn s c _ hparent _ := .modifyColumn s c hparent
  modifyStatement := .modifyStatement

namespace Rewriting

variable {R : Store → Store → Prop} (h : Rewriting R)
include h

theorem foldl {α : Type} {f : Store → α → Store} (hf : ∀ (s : Store) (a : α), R s (f s a))
    (items : List α) (s : Store) : R s (items.foldl f s) := by
  induction items generalizing s with
  | nil => exact h.refl s
  | cons a rest ih => exact h.trans (hf s a) (ih _)

/-- The clauses of a query change. -/
theorem modifyClause (s : Store) (q : QueryRef) {f : Query → Query}
    (hf : ∀ query, (f query).columns = query.columns) : R s (s.modifyQuery q f) := by
  refine h.modifyQuery s q ?_
  rw [hf]

/-! ## Unused columns -/

theorem pruneQuery (used : List ColumnRef) (s : Store) (q : QueryRef) :
    R s (s.pruneQuery used q) := by
  have hkept : (s.keptColumns used q).Sublist (s.query q).columns := by
    unfold keptColumns
    dsimp only
    split
    · exact List.Sublist.refl _
    · split
      · exact List.take_sublist _ _
      · exact List.filter_sublist
  unfold Store.pruneQuery
  dsimp only
  split
  · exact h.modifyQuery s q hkept
  · exact h.refl s

theorem pruneColumns (s : Store) (t : StatementRef) : R s (s.pruneColumns t) :=
  pruneColumns_of_queries t h.refl h.trans h.pruneQuery s

/-! ## Paging -/

theorem moveColumn (inner : QueryRef) (s : Store) (c : ColumnRef) : R s (s.moveColumn inner c) :=
  h.trans (h.addFreshColumn s inner _ _) (h.modifyColumn _ c (by intro; rfl) (by intro; rfl))

theorem wrapBody (s : Store) (q : QueryRef) : R s (s.wrapBody q).2 := by
  unfold Store.wrapBody
  refine h.trans ?_ (h.modifyClause _ q (by intro; rfl))
  refine h.trans ?_ (h.foldl (h.moveColumn _) _ _)
  refine h.trans ?_ (h.modifyClause _ _ (by intro; rfl))
  exact h.trans (h.addQuery s (some q)) (h.modifyClause _ q (by intro; rfl))

theorem projectOrder (inner : QueryRef) (items : List OrderItem) (s : Store) :
    R s (s.projectOrder inner items).2 := by
  induction items generalizing s with
  | nil => exact h.refl s
  | cons item rest ih => exact h.trans (h.addColumn s inner item.expression none) (ih _)

theorem separateDistinctOf (s : Store) (q : QueryRef) : R s (s.separateDistinctOf q) := by
  unfold Store.separateDistinctOf
  refine h.trans ?_ (h.modifyClause _ q (by intro; rfl))
  refine h.trans ?_ (h.projectOrder _ _ _)
  exact h.trans (h.wrapBody s q) (h.modifyClause _ q (by intro; rfl))

theorem separateDistinct (s : Store) (t : StatementRef) : R s (s.separateDistinct t) :=
  h.foldl h.separateDistinctOf _ s

theorem numberRowsOf (s : Store) (q : QueryRef) : R s (s.numberRowsOf q) := by
  unfold Store.numberRowsOf
  refine h.trans ?_ (h.modifyClause _ q (by intro; rfl))
  exact h.trans (h.wrapBody s q) (h.addFreshColumn _ _ _ _)

theorem numberRows (s : Store) (t : StatementRef) (onlySkip : Bool) :
    R s (s.numberRows t onlySkip) := h.foldl h.numberRowsOf _ s

theorem orderForOffset (s : Store) (q : QueryRef) : R s (s.orderForOffset q) :=
  h.modifyClause s q fun _ => by split <;> rfl

/-! ## Updates and deletes over several tables -/

theorem rebase (s : Store) (q : QueryRef) (target : TableRef) : R s (s.rebase q target).2 := by
  unfold Store.rebase
  refine h.trans ?_ (h.modifyClause _ _ (by intro; rfl))
  refine h.trans ?_ (h.modifyQuery _ q (List.nil_sublist _))
  refine h.trans ?_ (h.modifyClause _ _ (by intro; rfl))
  exact h.trans (h.copyTable s target) (h.addQuery _ none)

theorem valueQuery (s : Store) (q : QueryRef) (rebased : Rebased) (e : Scalar) :
    R s (s.valueQuery q rebased e).2 := by
  unfold Store.valueQuery
  refine h.trans ?_ (h.addFreshColumn _ _ _ _)
  exact h.trans (h.addQuery s (some rebased.outer)) (h.modifyClause _ _ (by intro; rfl))

theorem rebaseItems (q : QueryRef) (target : TableRef) (rebased : Rebased)
    (items : List Assignment) (s : Store) : R s (s.rebaseItems q target rebased items).2 := by
  induction items generalizing s with
  | nil => exact h.refl s
  | cons item rest ih =>
    unfold Store.rebaseItems
    dsimp only
    split
    · exact ih s
    · split
      · exact h.trans (h.valueQuery s q rebased _) (ih _)
      · exact ih s

theorem splitDelete (s : Store) (t : StatementRef) : R s (s.splitDelete t).2 := by
  unfold Store.splitDelete
  dsimp only
  split
  · split
    · exact h.refl s
    · split
      · exact h.refl s
      · exact h.trans (h.rebase s _ _) (h.modifyStatement _ t _)
  · exact h.refl s

theorem splitUpdate (s : Store) (t : StatementRef) : R s (s.splitUpdate t).2 := by
  unfold Store.splitUpdate
  dsimp only
  split
  · split
    · exact h.refl s
    · split
      · exact h.refl s
      · exact h.trans (h.trans (h.rebase s _ _) (h.rebaseItems _ _ _ _ _)) (h.modifyStatement _ t _)
  · exact h.refl s

theorem flattenUpdate (s : Store) (t : StatementRef) : R s (s.flattenUpdate t).2 := by
  unfold Store.flattenUpdate
  dsimp only
  split
  · split
    · exact h.refl s
    · split
      · exact h.splitUpdate s t
      · exact h.modifyClause s _ fun _ => rfl
  · exact h.refl s

theorem restructureDml (s : Store) (rules : Capabilities) (t : StatementRef) :
    R s (s.restructureDml rules t).2 := by
  unfold Store.restructureDml
  split
  · exact h.refl s
  · split
    · exact h.splitDelete s t
    · split
      · exact h.flattenUpdate s t
      · exact h.splitUpdate s t
    · exact h.refl s

/-- A relation that lasts through operations lasts through the restructuring of a statement. -/
theorem restructured (s : Store) (p : Provider) (t : StatementRef) :
    R s (s.restructured p t).2 := by
  have hpaging : R s (if p.rules.pagingWithDistinct then s else s.separateDistinct t) := by
    split
    · exact h.refl s
    · exact h.separateDistinct s t
  have hstructure := h.trans hpaging (h.restructureDml _ p.rules t)
  unfold Store.restructured
  dsimp only
  split
  · next heq => exact heq ▸ hstructure
  · next heq =>
    rw [heq] at hstructure
    refine h.trans hstructure ?_
    dsimp only
    split
    · exact h.foldl h.orderForOffset _ _
    · exact h.numberRows _ t true
    · exact h.refl _

/-! ## Expressions -/

theorem transformColumn (transformer : Store → Transformer) (s : Store) (c : ColumnRef) :
    R s (s.transformColumn transformer c) := h.modifyColumn s c (fun _ => rfl) fun _ => rfl

theorem transformQuery (transformer : Store → Transformer) (s : Store) (q : QueryRef) :
    R s (s.transformQuery transformer q) :=
  h.trans (h.foldl (h.transformColumn transformer) _ s) (h.modifyClause _ q fun _ => rfl)

theorem legalizeExpressions (s : Store) (p : Provider) (t : StatementRef) :
    R s (s.legalizeExpressions p t) :=
  h.trans (h.foldl (h.transformQuery _) _ s) (h.modifyStatement _ t _)

end Rewriting

end SqlCompiler.Store
