import SqlCompiler.Lowering.Merging
import SqlCompiler.Lowering.Scalar
import SqlCompiler.Lowering.Folding
import SqlCompiler.Proofs.Lowering.Shapes
import SqlCompiler.Proofs.Queries.Parts

/-!
# Renaming references

References number the nodes of a store in the order in which they were added.  What an expression, a
clause or a projection says does not depend on these numbers: whatever is made of them commutes with
giving the nodes other numbers, as long as different nodes keep different numbers.

Main results:

- Definition `Renaming`: other numbers for the nodes of each kind.
- Definitions `Renaming.scalar`, `Renaming.condition`, `Renaming.projection`, `Renaming.queryNode`:
  what is renamed by it.
- Theorem `Renaming.scalar_beq`: renamed scalars are equal if and only if the scalars are.
- Theorem `FunctionCatalog.natural_functions`: the functions of the dialects commute with renaming.
-/

namespace SqlCompiler

/-! ## References -/

/-- The kinds of nodes that lowering adds to a store. -/
inductive NodeKind where
  | table | field | query | column

/-- Other numbers for nodes, such that different nodes have different ones.  A reference that leads
nowhere is read as one to the first query, which keeps its number. -/
structure Renaming where
  number : NodeKind → Nat → Nat
  injective : ∀ kind, Function.Injective (number kind)
  first : number .query 0 = 0

namespace Renaming

variable (ρ : Renaming)

def table (t : TableRef) : TableRef := ⟨ρ.number .table t.index⟩

def field (f : FieldRef) : FieldRef := ⟨ρ.number .field f.index⟩

def query (q : QueryRef) : QueryRef := ⟨ρ.number .query q.index⟩

def column (c : ColumnRef) : ColumnRef := ⟨ρ.number .column c.index⟩

@[simp]
theorem table_inj {t t' : TableRef} : ρ.table t = ρ.table t' ↔ t = t' := by
  cases t
  cases t'
  simp [table, (ρ.injective .table).eq_iff]

@[simp]
theorem field_inj {f f' : FieldRef} : ρ.field f = ρ.field f' ↔ f = f' := by
  cases f
  cases f'
  simp [field, (ρ.injective .field).eq_iff]

@[simp]
theorem query_inj {q q' : QueryRef} : ρ.query q = ρ.query q' ↔ q = q' := by
  cases q
  cases q'
  simp [query, (ρ.injective .query).eq_iff]

@[simp]
theorem column_inj {c c' : ColumnRef} : ρ.column c = ρ.column c' ↔ c = c' := by
  cases c
  cases c'
  simp [column, (ρ.injective .column).eq_iff]

/-! ## Expressions -/

/-- Renaming the references of one node of an expression. -/
def rewriter : Transformer where
  onScalar
    | .field f => .field (ρ.field f)
    | .allFields t => .allFields (ρ.table t)
    | .column c => .column (ρ.column c)
    | .query q => .query (ρ.query q)
    | .tableSource t => .tableSource (ρ.table t)
    | other => other
  onPredicate
    | .inQuery e q negated => .inQuery e (ρ.query q) negated
    | other => other

def scalar : Scalar → Scalar := ρ.rewriter.scalar

def call : Call → Call := ρ.rewriter.call

def predicate : Predicate → Predicate := ρ.rewriter.predicate

def branch : Branch → Branch := ρ.rewriter.branch

def condition (c : Condition) : Condition := ⟨c.branches.map ρ.branch⟩

section

variable (l r e : Scalar) (args : List Scalar)

@[simp]
theorem scalars_eq : ρ.rewriter.scalars args = args.map ρ.scalar :=
  ρ.rewriter.scalars_eq_map args

@[simp]
theorem branches_eq (branches : List Branch) :
    ρ.rewriter.branches branches = branches.map ρ.branch := by
  induction branches with
  | nil => rfl
  | cons b rest ih => rw [Transformer.branches, ih, List.map_cons, branch]

theorem condition_eq (c : Condition) : ρ.rewriter.condition c = ρ.condition c := by
  obtain ⟨branches⟩ := c
  rw [Transformer.condition, branches_eq, condition]

@[simp]
theorem scalar_value (v : TypedValue) : ρ.scalar (.value v) = .value v := rfl

@[simp]
theorem scalar_parameter (p : Parameter) : ρ.scalar (.parameter p) = .parameter p := rfl

@[simp]
theorem scalar_field (f : FieldRef) : ρ.scalar (.field f) = .field (ρ.field f) := rfl

@[simp]
theorem scalar_allFields (t : TableRef) : ρ.scalar (.allFields t) = .allFields (ρ.table t) := rfl

@[simp]
theorem scalar_column (c : ColumnRef) : ρ.scalar (.column c) = .column (ρ.column c) := rfl

@[simp]
theorem scalar_query (q : QueryRef) : ρ.scalar (.query q) = .query (ρ.query q) := rfl

@[simp]
theorem scalar_tableSource (t : TableRef) :
    ρ.scalar (.tableSource t) = .tableSource (ρ.table t) := rfl

@[simp]
theorem scalar_function (c : Call) : ρ.scalar (.function c) = .function (ρ.call c) := rfl

@[simp]
theorem scalar_binary (op : BinaryOperator) (type : SqlType) :
    ρ.scalar (.binary l op r type) = .binary (ρ.scalar l) op (ρ.scalar r) type := rfl

@[simp]
theorem scalar_raw (format : String) (type : SqlType) (precedence : Precedence) :
    ρ.scalar (.raw format args type precedence) =
      .raw format (args.map ρ.scalar) type precedence := by
  rw [← scalars_eq]
  rfl

@[simp]
theorem scalar_convert (target source : SqlType) (keep : Bool) :
    ρ.scalar (.convert target source e keep) = .convert target source (ρ.scalar e) keep := rfl

@[simp]
theorem scalar_condition (c : Condition) :
    ρ.scalar (.condition c) = .condition (ρ.condition c) := by
  rw [← condition_eq]
  rfl

@[simp]
theorem scalar_type (type : SqlType) : ρ.scalar (.type type) = .type type := rfl

@[simp]
theorem scalar_row : ρ.scalar (.row args) = .row (args.map ρ.scalar) := by
  rw [← scalars_eq]
  rfl

@[simp]
theorem scalar_deferredName (name : DeferredName) :
    ρ.scalar (.deferredName name) = .deferredName name := rfl

@[simp]
theorem call_mk (name : String) (type : SqlType) (isAggregate keep : Bool) :
    ρ.call ⟨name, args, type, isAggregate, keep⟩ =
      ⟨name, args.map ρ.scalar, type, isAggregate, keep⟩ := by
  rw [← scalars_eq]
  rfl

@[simp]
theorem predicate_compare (op : Comparison) (withNull : Option Bool) :
    ρ.predicate (.compare l op r withNull) = .compare (ρ.scalar l) op (ρ.scalar r) withNull := rfl

@[simp]
theorem predicate_like (escape : Option Scalar) (negated : Bool) :
    ρ.predicate (.like l r escape negated) =
      .like (ρ.scalar l) (ρ.scalar r) (escape.map ρ.scalar) negated := by
  cases escape <;> rfl

@[simp]
theorem predicate_between (negated : Bool) :
    ρ.predicate (.between e l r negated) =
      .between (ρ.scalar e) (ρ.scalar l) (ρ.scalar r) negated := rfl

@[simp]
theorem predicate_isDistinct (negated : Bool) :
    ρ.predicate (.isDistinct l r negated) = .isDistinct (ρ.scalar l) (ρ.scalar r) negated := rfl

@[simp]
theorem predicate_notScalar (negated : Bool) (precedence : Precedence) :
    ρ.predicate (.notScalar e negated precedence) = .notScalar (ρ.scalar e) negated precedence :=
  rfl

@[simp]
theorem predicate_search (kind : SearchKind) (caseSensitive negated : Bool) :
    ρ.predicate (.search l kind r caseSensitive negated) =
      .search (ρ.scalar l) kind (ρ.scalar r) caseSensitive negated := rfl

@[simp]
theorem predicate_isNull (negated : Bool) :
    ρ.predicate (.isNull e negated) = .isNull (ρ.scalar e) negated := rfl

@[simp]
theorem predicate_inQuery (q : QueryRef) (negated : Bool) :
    ρ.predicate (.inQuery e q negated) = .inQuery (ρ.scalar e) (ρ.query q) negated := rfl

@[simp]
theorem predicate_inList (negated : Bool) (withNull : Option Bool) :
    ρ.predicate (.inList e args negated withNull) =
      .inList (ρ.scalar e) (args.map ρ.scalar) negated withNull := by
  rw [← scalars_eq]
  rfl

@[simp]
theorem predicate_functionLike (c : Call) :
    ρ.predicate (.functionLike c) = .functionLike (ρ.call c) := rfl

@[simp]
theorem predicate_scalar (precedence : Precedence) :
    ρ.predicate (.scalar e precedence) = .scalar (ρ.scalar e) precedence := rfl

@[simp]
theorem predicate_nested (c : Condition) :
    ρ.predicate (.nested c) = .nested (ρ.condition c) := by
  rw [← condition_eq]
  rfl

@[simp]
theorem branch_mk (negated joinsOr : Bool) (p : Predicate) :
    ρ.branch ⟨negated, p, joinsOr⟩ = ⟨negated, ρ.predicate p, joinsOr⟩ := rfl

@[simp]
theorem condition_mk (branches : List Branch) :
    ρ.condition ⟨branches⟩ = ⟨branches.map ρ.branch⟩ := rfl

end

/-! ## Equal expressions -/

mutual

theorem beq_scalar (a b : Scalar) : (ρ.scalar a).beq (ρ.scalar b) = a.beq b := by
  match a with
  | .value _ | .parameter _ | .type _ | .deferredName _ => cases b <;> simp [Scalar.beq]
  | .field _ | .allFields _ | .column _ | .query _ | .tableSource _ =>
    cases b <;> simp [Scalar.beq, BEq.beq]
  | .function a => cases b <;> simp [Scalar.beq, beq_call a]
  | .binary l op r t => cases b <;> simp [Scalar.beq, beq_scalar l, beq_scalar r]
  | .raw f args t p => cases b <;> simp [Scalar.beq, beq_scalars args]
  | .convert t s e k => cases b <;> simp [Scalar.beq, beq_scalar e]
  | .condition c => cases b <;> simp [Scalar.beq, beq_condition c]
  | .row args => cases b <;> simp [Scalar.beq, beq_scalars args]
termination_by structural a

theorem beq_scalars (as bs : List Scalar) :
    beqScalars (as.map ρ.scalar) (bs.map ρ.scalar) = beqScalars as bs := by
  match as with
  | [] => cases bs <;> rfl
  | a :: rest => cases bs <;> simp [beqScalars, beq_scalar a, beq_scalars rest]
termination_by structural as

theorem beq_call (a b : Call) : (ρ.call a).beq (ρ.call b) = a.beq b := by
  match a with
  | ⟨name, args, type, isAggregate, keep⟩ => cases b; simp [Call.beq, beq_scalars args]
termination_by structural a

theorem beq_predicate (a b : Predicate) : (ρ.predicate a).beq (ρ.predicate b) = a.beq b := by
  match a with
  | .like l r none n =>
    cases b with
    | like _ _ s _ => cases s <;> simp [Predicate.beq, beq_scalar l, beq_scalar r]
    | _ => simp [Predicate.beq]
  | .like l r (some e) n =>
    cases b with
    | like _ _ s _ => cases s <;> simp [Predicate.beq, beq_scalar l, beq_scalar r, beq_scalar e]
    | _ => simp [Predicate.beq]
  | .compare l op r n | .isDistinct l r n | .search l k r c n =>
    cases b <;> simp [Predicate.beq, Predicate.beq_like, beq_scalar l, beq_scalar r]
  | .between e l h n =>
    cases b <;> simp [Predicate.beq, Predicate.beq_like, beq_scalar e, beq_scalar l, beq_scalar h]
  | .isNull e n | .notScalar e n p | .scalar e p =>
    cases b <;> simp [Predicate.beq, Predicate.beq_like, beq_scalar e]
  | .inQuery e q n => cases b <;> simp [Predicate.beq, Predicate.beq_like, beq_scalar e, BEq.beq]
  | .inList e items n w =>
    cases b <;> simp [Predicate.beq, Predicate.beq_like, beq_scalar e, beq_scalars items]
  | .functionLike c => cases b <;> simp [Predicate.beq, Predicate.beq_like, beq_call c]
  | .nested c => cases b <;> simp [Predicate.beq, Predicate.beq_like, beq_condition c]
termination_by structural a

theorem beq_branch (a b : Branch) : (ρ.branch a).beq (ρ.branch b) = a.beq b := by
  match a with
  | ⟨negated, p, joinsOr⟩ => cases b; simp [Branch.beq, beq_predicate p]
termination_by structural a

theorem beq_branches (as bs : List Branch) :
    beqBranches (as.map ρ.branch) (bs.map ρ.branch) = beqBranches as bs := by
  match as with
  | [] => cases bs <;> rfl
  | a :: rest => cases bs <;> simp [beqBranches, beq_branch a, beq_branches rest]
termination_by structural as

theorem beq_condition (a b : Condition) : (ρ.condition a).beq (ρ.condition b) = a.beq b := by
  match a with
  | ⟨as⟩ => cases b; simp [Condition.beq, beq_branches as]
termination_by structural a

end

/-- Renamed scalars are equal if and only if the scalars are. -/
@[simp]
theorem scalar_beq (a b : Scalar) : (ρ.scalar a == ρ.scalar b) = (a == b) := ρ.beq_scalar a b

/-! ## Binding strength -/

@[simp]
theorem branch_joinsOr (b : Branch) : (ρ.branch b).joinsOr = b.joinsOr := by
  cases b
  rfl

@[simp]
theorem condition_branches (c : Condition) :
    (ρ.condition c).branches = c.branches.map ρ.branch := rfl

@[simp]
theorem condition_hasOr (c : Condition) : (ρ.condition c).hasOr = c.hasOr := by
  simp [Condition.hasOr, ← List.map_dropLast, List.any_map, Function.comp_def]

mutual

theorem scalar_precedence (e : Scalar) : (ρ.scalar e).precedence = e.precedence := by
  match e with
  | .condition c => simp [Scalar.precedence, condition_precedence c]
  | .value _ | .parameter _ | .type _ | .deferredName _ | .field _ | .allFields _ | .column _
  | .query _ | .tableSource _ | .function _ | .binary .. | .raw .. | .convert .. | .row _ =>
    simp [Scalar.precedence]

theorem predicate_precedence (p : Predicate) : (ρ.predicate p).precedence = p.precedence := by
  match p with
  | .nested c => simp [Predicate.precedence, condition_precedence c]
  | .like l r none n | .like l r (some e) n => simp [Predicate.precedence]
  | .compare .. | .search .. | .between .. | .isNull .. | .isDistinct .. | .inQuery .. | .inList ..
  | .functionLike _ | .notScalar .. | .scalar .. => simp [Predicate.precedence]

theorem branch_precedence (b : Branch) : (ρ.branch b).precedence = b.precedence := by
  match b with
  | ⟨negated, p, joinsOr⟩ => simp [Branch.precedence, predicate_precedence p]

theorem condition_precedence (c : Condition) : (ρ.condition c).precedence = c.precedence := by
  match c with
  | ⟨[]⟩ => rfl
  | ⟨[single]⟩ => simp [Condition.precedence, branch_precedence single]
  | ⟨first :: second :: rest⟩ =>
    have hor := ρ.condition_hasOr ⟨first :: second :: rest⟩
    simp only [condition_mk, List.map_cons] at hor
    simp [Condition.precedence, hor]

end

/-! ## Conditions -/

section

variable (p : Predicate) (c d : Condition) (e : Scalar)

@[simp]
theorem scalar_constant (value : Constant) : ρ.scalar (.constant value) = .constant value := rfl

@[simp]
theorem scalar_int (n : Int) : ρ.scalar (.int n) = .int n := rfl

@[simp]
theorem scalar_null : ρ.scalar .null = .null := rfl

@[simp]
theorem scalar_call (name : String) (args : List Scalar) (type : SqlType) :
    ρ.scalar (.call name args type) = .call name (args.map ρ.scalar) type := by
  simp [Scalar.call, Call.plain]

@[simp]
theorem scalar_formatted (format : String) (args : List Scalar) (type : SqlType) :
    ρ.scalar (.formatted format args type) = .formatted format (args.map ρ.scalar) type := by
  simp [Scalar.formatted]

@[simp]
theorem scalar_cast (target source : SqlType) :
    ρ.scalar (.cast target source e) = .cast target source (ρ.scalar e) := rfl

@[simp]
theorem call_aggregate (name : String) (args : List Scalar) (type : SqlType) :
    ρ.call (.aggregate name args type) = .aggregate name (args.map ρ.scalar) type := by
  simp [Call.aggregate]

@[simp]
theorem scalar_asValue? : (ρ.scalar e).asValue? = e.asValue? := by
  cases e with
  | condition c => simp [Scalar.asValue?]
  | _ => rfl

@[simp]
theorem scalar_isNullValue : (ρ.scalar e).isNullValue = e.isNullValue := by
  simp [Scalar.isNullValue]

@[simp]
theorem predicate_ofScalar : ρ.predicate (.ofScalar e) = .ofScalar (ρ.scalar e) := by
  simp [Predicate.ofScalar, scalar_precedence]

@[simp]
theorem predicate_constant (b : Bool) : ρ.predicate (.constant b) = .constant b := rfl

@[simp]
theorem predicate_existsIn (q : QueryRef) :
    ρ.predicate (.existsIn q) = .existsIn (ρ.query q) := by
  simp [Predicate.existsIn, Call.plain]

@[simp]
theorem predicate_equal (l r : Scalar) :
    ρ.predicate (.equal l r) = .equal (ρ.scalar l) (ρ.scalar r) := rfl

@[simp]
theorem predicate_comparison (op : Comparison) (l r : Scalar) :
    ρ.predicate (op.predicate l r) = op.predicate (ρ.scalar l) (ρ.scalar r) := by
  simp only [Comparison.predicate, scalar_isNullValue]
  split
  · split <;> rfl
  · rfl

@[simp]
theorem condition_empty : ρ.condition .empty = .empty := rfl

@[simp]
theorem condition_ofPredicate : ρ.condition (.ofPredicate p) = .ofPredicate (ρ.predicate p) := rfl

@[simp]
theorem condition_isEmpty : (ρ.condition c).isEmpty = c.isEmpty := by
  simp [Condition.isEmpty]

@[simp]
theorem joinLast_map (joinsOr : Bool) (branches : List Branch) :
    Condition.joinLast joinsOr (branches.map ρ.branch) =
      (Condition.joinLast joinsOr branches).map ρ.branch := by
  fun_induction Condition.joinLast joinsOr branches with
  | case1 => rfl
  | case2 last =>
    cases last
    rfl
  | case3 first rest hrest ih =>
    cases rest with
    | nil => exact absurd rfl hrest
    | cons second rest =>
      rw [List.map_cons, List.map_cons, List.map_cons, ← ih]
      rfl

@[simp]
theorem condition_disjoin :
    ρ.condition (c.disjoin p) = (ρ.condition c).disjoin (ρ.predicate p) := by
  simp [Condition.disjoin, Condition.branch]

@[simp]
theorem condition_conjoinNot :
    ρ.condition (c.conjoinNot p) = (ρ.condition c).conjoinNot (ρ.predicate p) := by
  simp [Condition.conjoinNot]

@[simp]
theorem condition_conjoin :
    ρ.condition (c.conjoin p) = (ρ.condition c).conjoin (ρ.predicate p) := by
  cases p with
  | nested inner =>
    by_cases hor : inner.hasOr = true <;> simp [Condition.conjoin, Condition.branch, hor]
  | like l r escape negated => cases escape <;> simp [Condition.conjoin, Condition.branch]
  | _ => simp [Condition.conjoin, Condition.branch]

@[simp]
theorem condition_conjoinAll :
    ρ.condition (c.conjoinAll d) = (ρ.condition c).conjoinAll (ρ.condition d) := by
  simp only [Condition.conjoinAll, condition_isEmpty, condition_hasOr]
  split
  · rfl
  · split
    · rfl
    · split <;> simp

@[simp]
theorem condition_negation : ρ.condition c.negation = (ρ.condition c).negation := by
  obtain ⟨branches⟩ := c
  match branches with
  | [] => simp [Condition.negation]
  | [single] =>
    cases single
    simp [Condition.negation]
  | first :: second :: rest => simp [Condition.negation]

@[simp]
theorem predicate_asPredicate : ρ.predicate c.asPredicate = (ρ.condition c).asPredicate := by
  obtain ⟨branches⟩ := c
  match branches with
  | [] => simp [Condition.asPredicate]
  | [single] =>
    cases single with
    | mk negated p joinsOr => cases negated <;> simp [Condition.asPredicate]
  | first :: second :: rest => simp [Condition.asPredicate]

@[simp]
theorem condition_disjunction :
    ρ.condition (c.disjunction d) = (ρ.condition c).disjunction (ρ.condition d) := by
  simp [Condition.disjunction]

@[simp]
theorem condition_keyCondition (left right : List Scalar) :
    ρ.condition (keyCondition left right) =
      keyCondition (left.map ρ.scalar) (right.map ρ.scalar) := by
  have hfold : ∀ (pairs : List (Scalar × Scalar)) (c : Condition),
      ρ.condition (pairs.foldl (fun c pair => c.conjoin (.equal pair.1 pair.2)) c) =
        (pairs.map (Prod.map ρ.scalar ρ.scalar)).foldl
          (fun c pair => c.conjoin (.equal pair.1 pair.2)) (ρ.condition c) := by
    intro pairs
    induction pairs with
    | nil => exact fun _ => rfl
    | cons pair rest ih =>
      intro c
      rw [List.foldl_cons, ih, List.map_cons, List.foldl_cons]
      simp
  rw [keyCondition, keyCondition, List.zip_map]
  exact hfold _ _

end

/-! ## Nodes of a store -/

def sourceItem : SourceItem → SourceItem
  | .table t => .table (ρ.table t)
  | .query q => .query (ρ.query q)

mutual

def source (ρ : Renaming) : Source → Source
  | ⟨item, aliasName, joins⟩ => ⟨ρ.sourceItem item, aliasName, ρ.joins joins⟩
termination_by structural s => s

def join (ρ : Renaming) : Join → Join
  | ⟨kind, source, c⟩ => ⟨kind, ρ.source source, ρ.condition c⟩
termination_by structural j => j

def joins (ρ : Renaming) : List Join → List Join
  | [] => []
  | j :: rest => ρ.join j :: ρ.joins rest
termination_by structural js => js

end

def orderItem (item : OrderItem) : OrderItem :=
  { item with expression := ρ.scalar item.expression }

def setOperator (operator : SetOperator) : SetOperator :=
  { operator with query := ρ.query operator.query }

def queryNode (q : Query) : Query where
  columns := q.columns.map ρ.column
  distinct := q.distinct
  take := q.take.map ρ.scalar
  takeHints := q.takeHints
  skip := q.skip.map ρ.scalar
  sources := q.sources.map ρ.source
  whereClause := ρ.condition q.whereClause
  grouping := { q.grouping with items := q.grouping.items.map ρ.scalar }
  having := ρ.condition q.having
  orderBy := q.orderBy.map ρ.orderItem
  setOperators := q.setOperators.map ρ.setOperator
  name := q.name
  parent := q.parent.map ρ.query

def columnNode (c : OutputColumn) : OutputColumn :=
  { parent := ρ.query c.parent, expression := ρ.scalar c.expression, aliasName := c.aliasName }

def fieldNode (f : Field) : Field := { f with table := ρ.table f.table }

def tableKind : TableKind → TableKind
  | .raw sql args => .raw sql (args.map ρ.scalar)
  | .values rows => .values (rows.map (·.map ρ.scalar))
  | other => other

def subtype (m : Subtype) : Subtype := { m with discriminator := ρ.field m.discriminator }

def tableNode (t : Table) : Table :=
  { t with
    kind := ρ.tableKind t.kind
    fields := t.fields.map ρ.field
    subtypes := t.subtypes.map ρ.subtype }

section

variable (source : Source) (q : Query)

@[simp]
theorem source_ofTable (t : TableRef) : ρ.source (.ofTable t) = .ofTable (ρ.table t) := rfl

@[simp]
theorem source_ofQuery (q : QueryRef) : ρ.source (.ofQuery q) = .ofQuery (ρ.query q) := rfl

@[simp]
theorem joins_eq (joins : List Join) : ρ.joins joins = joins.map ρ.join := by
  induction joins with
  | nil => rfl
  | cons j rest ih => rw [joins, ih, List.map_cons]

@[simp]
theorem source_mk (item : SourceItem) (aliasName : Option String) (joins : List Join) :
    ρ.source ⟨item, aliasName, joins⟩ = ⟨ρ.sourceItem item, aliasName, joins.map ρ.join⟩ := by
  rw [Renaming.source, joins_eq]

@[simp]
theorem join_mk (kind : JoinKind) (source : Source) (c : Condition) :
    ρ.join ⟨kind, source, c⟩ = ⟨kind, ρ.source source, ρ.condition c⟩ := rfl

@[simp]
theorem queryNode_columns : (ρ.queryNode q).columns = q.columns.map ρ.column := rfl

@[simp]
theorem queryNode_sources : (ρ.queryNode q).sources = q.sources.map ρ.source := rfl

@[simp]
theorem queryNode_whereClause : (ρ.queryNode q).whereClause = ρ.condition q.whereClause := rfl

@[simp]
theorem queryNode_having : (ρ.queryNode q).having = ρ.condition q.having := rfl

@[simp]
theorem queryNode_onlyTable? : (ρ.queryNode q).onlyTable? = q.onlyTable?.map ρ.table := by
  unfold Query.onlyTable? queryNode
  match q.sources with
  | [] => rfl
  | [⟨.table t, aliasName, []⟩] => simp [sourceItem]
  | [⟨.table t, aliasName, j :: rest⟩] => simp [sourceItem]
  | [⟨.query r, aliasName, joins⟩] => simp [sourceItem]
  | first :: second :: rest => simp

@[simp]
theorem queryNode_hasPagination : (ρ.queryNode q).hasPagination = q.hasPagination := by
  simp [queryNode, Query.hasPagination]

@[simp]
theorem queryNode_hasSetOperators : (ρ.queryNode q).hasSetOperators = q.hasSetOperators := by
  simp [queryNode, Query.hasSetOperators]

@[simp]
theorem queryNode_isGrouped : (ρ.queryNode q).isGrouped = q.isGrouped := by
  simp [queryNode, Query.isGrouped]

@[simp]
theorem queryNode_hasFixedRows : (ρ.queryNode q).hasFixedRows = q.hasFixedRows := by
  simp [Query.hasFixedRows, show (ρ.queryNode q).distinct = q.distinct from rfl]

@[simp]
theorem queryNode_hasFixedColumns : (ρ.queryNode q).hasFixedColumns = q.hasFixedColumns := by
  simp [Query.hasFixedColumns, show (ρ.queryNode q).distinct = q.distinct from rfl]

@[simp]
theorem queryNode_isLimited : (ρ.queryNode q).isLimited = q.isLimited := by
  simp [Query.isLimited, show (ρ.queryNode q).take = q.take.map ρ.scalar from rfl]

end

theorem queryNode_default : ρ.queryNode default = default := rfl

theorem columnNode_default : ρ.columnNode default = default := by
  simp only [columnNode, default, instInhabitedOutputColumn.default, OutputColumn.mk.injEq,
    and_true]
  exact ⟨congrArg QueryRef.mk ρ.first, rfl⟩

/-! ## Projections -/

mutual

def projection (ρ : Renaming) : Projection → Projection
  | .entity name t members =>
    .entity name (t.map ρ.table) (members.map fun m => (m.1, ρ.scalar m.2))
  | .record members => .record (ρ.members members)
  | .scalar e => .scalar (ρ.scalar e)
  | .grouping key element => .grouping (ρ.projection key) (ρ.projection element)
termination_by structural p => p

def members (ρ : Renaming) : List (String × Projection) → List (String × Projection)
  | [] => []
  | (name, p) :: rest => (name, ρ.projection p) :: ρ.members rest
termination_by structural ms => ms

end

section

variable (p : Projection)

@[simp]
theorem members_eq (members : List (String × Projection)) :
    ρ.members members = members.map fun m => (m.1, ρ.projection m.2) := by
  induction members with
  | nil => rfl
  | cons m rest ih => rw [members, ih, List.map_cons]

@[simp]
theorem projection_entity (name : String) (t : Option TableRef) (members : List (String × Scalar)) :
    ρ.projection (.entity name t members) =
      .entity name (t.map ρ.table) (members.map fun m => (m.1, ρ.scalar m.2)) := rfl

@[simp]
theorem projection_record (members : List (String × Projection)) :
    ρ.projection (.record members) = .record (members.map fun m => (m.1, ρ.projection m.2)) := by
  rw [projection, members_eq]

@[simp]
theorem projection_scalar (e : Scalar) : ρ.projection (.scalar e) = .scalar (ρ.scalar e) := rfl

@[simp]
theorem projection_grouping (key element : Projection) :
    ρ.projection (.grouping key element) = .grouping (ρ.projection key) (ρ.projection element) :=
  rfl

@[simp]
theorem projection_describe : (ρ.projection p).describe = p.describe := by
  cases p with
  | record members => simp [Projection.describe, List.map_map, Function.comp_def]
  | _ => rfl

@[simp]
theorem projection_isGrouping : (ρ.projection p).isGrouping = p.isGrouping := by
  cases p <;> rfl

@[simp]
theorem projection_member? (name : String) :
    (ρ.projection p).member? name = (p.member? name).map ρ.projection := by
  cases p with
  | entity entityName t members =>
    rw [projection_entity, Projection.member?, Members.get?_map, Option.map_map]
    change _ = ((Members.get? name members).map _).map _
    rw [Option.map_map]
    rfl
  | record members =>
    rw [projection_record]
    exact Members.get?_map ρ.projection name members
  | scalar e => rfl
  | grouping key element =>
    simp only [projection_grouping, Projection.member?]
    split <;> rfl

@[simp]
theorem projection_asScalar? : (ρ.projection p).asScalar? = p.asScalar?.map ρ.scalar := by
  cases p <;> rfl

theorem projection_member (name : String) :
    (ρ.projection p).member name = (p.member name).map ρ.projection := by
  rw [Projection.member, projection_member?, projection_describe, Projection.member]
  cases p.member? name <;> rfl

theorem projection_toScalar (term : Term) :
    (ρ.projection p).toScalar term = (p.toScalar term).map ρ.scalar := by
  cases p with
  | scalar e => rfl
  | _ => simp [Projection.toScalar, Projection.describe, Except.map, Function.comp_def]

theorem projection_ofList (pairs : List (String × Projection)) :
    ρ.projection (.record (Members.ofList pairs)) =
      .record (Members.ofList (pairs.map fun m => (m.1, ρ.projection m.2))) := by
  rw [projection_record, Members.ofList_map]

theorem projection_ofScalars (name : String) (t : Option TableRef)
    (pairs : List (String × Scalar)) :
    ρ.projection (.entity name t (Members.ofList pairs)) =
      .entity name (t.map ρ.table) (Members.ofList (pairs.map fun m => (m.1, ρ.scalar m.2))) := by
  rw [projection_entity, Members.ofList_map]

mutual

theorem projection_leavesAt (p : Projection) (path : String) :
    (ρ.projection p).leavesAt path =
      (p.leavesAt path).map fun leaf => (leaf.1, ρ.scalar leaf.2) := by
  match p with
  | .entity name t members => simp [Projection.leavesAt]
  | .record members => exact projection_leavesOfMembers members path
  | .scalar e => rfl
  | .grouping key element => exact projection_leavesAt key _
termination_by structural p

theorem projection_leavesOfMembers (members : List (String × Projection)) (path : String) :
    Projection.leavesOfMembers path (ρ.members members) =
      (Projection.leavesOfMembers path members).map fun leaf => (leaf.1, ρ.scalar leaf.2) := by
  match members with
  | [] => rfl
  | (name, p) :: rest =>
    rw [Renaming.members, Projection.leavesOfMembers, Projection.leavesOfMembers,
      projection_leavesAt p, projection_leavesOfMembers rest path, List.map_append]
termination_by structural members

end

@[simp]
theorem projection_leaves :
    (ρ.projection p).leaves = p.leaves.map fun leaf => (leaf.1, ρ.scalar leaf.2) :=
  ρ.projection_leavesAt p ""

@[simp]
theorem projection_scalars : (ρ.projection p).scalars = p.scalars.map ρ.scalar := by
  simp [Projection.scalars]

@[simp]
theorem projection_isComputedKey : (ρ.projection p).isComputedKey = p.isComputedKey := by
  rw [Projection.isComputedKey, projection_scalars, List.any_map]
  refine congrArg (p.scalars.any ·) (funext fun e => ?_)
  cases e with
  | raw | condition | row => simp
  | _ => rfl

@[simp]
theorem projection_isSelectedFrom (source : Projection) :
    (ρ.projection p).isSelectedFrom (ρ.projection source) = p.isSelectedFrom source := by
  simp [Projection.isSelectedFrom, List.all_map, List.any_map, Function.comp_def]

end

/-! ## Results of lowering -/

def groupRows (rows : GroupRows) : GroupRows where
  projection := ρ.projection rows.projection
  filter := ρ.condition rows.filter
  distinct := rows.distinct

/-- The outcome of rows and of values has no references. -/
def lowered (lowered : Lowered) : Lowered :=
  { lowered with
    query := ρ.query lowered.query
    projection := ρ.projection lowered.projection }

theorem groupRows_filtered (rows : GroupRows) (e : Scalar) :
    (ρ.groupRows rows).filtered (ρ.scalar e) = ρ.scalar (rows.filtered e) := by
  unfold GroupRows.filtered
  simp only [groupRows, condition_isEmpty]
  split
  · rfl
  · cases e <;> simp

theorem groupRows_deduplicated (rows : GroupRows) (e : Scalar) (type : SqlType) :
    (ρ.groupRows rows).deduplicated (ρ.scalar e) type = ρ.scalar (rows.deduplicated e type) := by
  unfold GroupRows.deduplicated
  rw [show (ρ.groupRows rows).distinct = rows.distinct from rfl]
  split <;> simp

def scope (scope : List (String × Projection)) : List (String × Projection) :=
  scope.map fun v => (v.1, ρ.projection v.2)

def assignment (item : Assignment) : Assignment :=
  { target := ρ.scalar item.target, value := item.value.map ρ.scalar }

end Renaming

/-! ## Member functions -/

/-- An expansion that does the same to renamed arguments. -/
def Expansion.Natural (t : Expansion) : Prop :=
  ∀ (ρ : Renaming) (args : List Scalar) (type : SqlType),
    t.apply (args.map ρ.scalar) type = ρ.scalar (t.apply args type)

namespace FunctionCatalog

/-- A catalog of such expansions. -/
def Natural (catalog : FunctionCatalog) : Prop :=
  ∀ entry ∈ catalog.entries, ∀ t ∈ entry.2, t.Natural

variable {catalog : FunctionCatalog}

theorem natural_find? (h : catalog.Natural) {name : String} {arity : Nat}
    {expansions : List Expansion} (hfind : catalog.find? name arity = some expansions) :
    ∀ t ∈ expansions, t.Natural := by
  obtain ⟨entry, hentry, rfl⟩ := Option.map_eq_some_iff.mp hfind
  exact h entry (List.mem_of_find?_eq_some hentry)

/-- A call is expanded to the same, renamed. -/
theorem expand_renamed (h : catalog.Natural) (ρ : Renaming) (name : String) (args : List Scalar)
    (type : SqlType) :
    catalog.expand name (args.map ρ.scalar) type =
      (catalog.expand name args type).map (Option.map ρ.scalar) := by
  unfold expand
  rw [List.length_map]
  cases hfind : catalog.find? name args.length with
  | none => rfl
  | some expansions =>
    match expansions with
    | [] => rfl
    | [t] =>
      have ht := natural_find? h hfind t (.head _) ρ args type
      exact congrArg (fun e => Except.ok (some e)) ht
    | first :: second :: rest => rfl

theorem natural_empty : empty.Natural := fun _ hentry => nomatch hentry

theorem natural_alter (h : catalog.Natural) (name : String) (arity : Nat)
    {f : List Expansion → List Expansion}
    (hf : ∀ expansions : List Expansion, (∀ t ∈ expansions, t.Natural) →
      ∀ t ∈ f expansions, t.Natural) : (catalog.alter name arity f).Natural := by
  intro entry hentry
  simp only [alter] at hentry
  split at hentry
  · obtain ⟨old, hold, rfl⟩ := List.mem_map.mp hentry
    split
    · exact hf old.2 (h old hold)
    · exact h old hold
  · rcases List.mem_append.mp hentry with hentry | hentry
    · exact h entry hentry
    · cases List.mem_singleton.mp hentry
      exact hf [] fun _ ht => nomatch ht

theorem natural_register (h : catalog.Natural) (name : String) (arity : Nat) {t : Expansion}
    (ht : t.Natural) : (catalog.register name arity t).Natural :=
  natural_alter h name arity fun expansions hall other hother => by
    rcases List.mem_append.mp hother with hother | hother
    · exact hall other hother
    · exact List.mem_singleton.mp hother ▸ ht

theorem natural_replace (h : catalog.Natural) (name : String) (arity : Nat) {t : Expansion}
    (ht : t.Natural) : (catalog.replace name arity t).Natural :=
  natural_alter h name arity fun _ _ _ hother => List.mem_singleton.mp hother ▸ ht

theorem natural_foldl {α : Type} {f : FunctionCatalog → α → FunctionCatalog}
    (hf : ∀ catalog a, catalog.Natural → (f catalog a).Natural) (items : List α)
    (h : catalog.Natural) : (items.foldl f catalog).Natural := by
  induction items generalizing catalog with
  | nil => exact h
  | cons a rest ih => exact ih (hf catalog a h)

theorem natural_renamed (sqlName : String) : (renamed sqlName).Natural :=
  fun ρ args type => (ρ.scalar_call sqlName args type).symm

theorem natural_formatted (label format : String) : (formatted label format).Natural :=
  fun ρ args type => (ρ.scalar_formatted format args type).symm

theorem getD_renamed (ρ : Renaming) (args : List Scalar) (i : Nat) :
    (args.map ρ.scalar)[i]?.getD .null = ρ.scalar (args[i]?.getD .null) := by
  rw [List.getElem?_map]
  cases args[i]? <;> rfl

theorem natural_substringFrom (label : String) {rest : Scalar → Scalar → Scalar}
    (h : ∀ (ρ : Renaming) text start,
      rest (ρ.scalar text) (ρ.scalar start) = ρ.scalar (rest text start)) :
    (substringFrom label rest).Natural := by
  intro ρ args type
  simp only [substringFrom, getD_renamed, h, oneBased]
  simp

theorem natural_substringOf (label sqlName : String) : (substringOf label sqlName).Natural := by
  intro ρ args type
  simp only [substringOf, getD_renamed, oneBased]
  simp

theorem natural_rename (h : catalog.Natural) (name : String) (arity : Nat) (sqlName : String) :
    (catalog.rename name arity sqlName).Natural :=
  natural_replace h name arity (natural_renamed sqlName)

theorem natural_withTimeParts (h : catalog.Natural) (format : String → String) :
    (catalog.withTimeParts format).Natural :=
  natural_foldl (fun _ part hcatalog => natural_replace hcatalog part 1 (natural_formatted _ _)) _ h

theorem natural_standard : standard.Natural := by
  refine natural_withTimeParts (natural_register (natural_register
    (natural_foldl ?_ _ natural_empty) _ _ (natural_substringFrom _ fun ρ text start => ?_)) _ _
    (natural_substringOf _ _)) _
  · exact fun _ (name, arity, sqlName) hcatalog =>
      natural_register hcatalog name arity (natural_renamed sqlName)
  · simp

/-- The functions of the dialects do the same to renamed arguments. -/
theorem natural_functions (dialect : Dialect) : dialect.functions.Natural := by
  have hrenamed := fun name sqlName => natural_rename natural_standard name 1 sqlName
  cases dialect with
  | generic => exact natural_standard
  | sqlServer =>
    exact natural_withTimeParts (natural_replace (hrenamed "Length" "Len") _ _
      (natural_substringFrom _ fun ρ text start => by simp)) _
  | postgreSql => exact hrenamed "Ceiling" "Ceil"
  | sqlite =>
    exact natural_withTimeParts (natural_replace (hrenamed "Ceiling" "Ceil") _ _
      (natural_substringOf _ _)) _
  | db2 =>
    rw [Dialect.functions]
    exact natural_foldl (fun _ part hcatalog => natural_rename hcatalog part 1 part) _
      natural_standard

end FunctionCatalog

end SqlCompiler
