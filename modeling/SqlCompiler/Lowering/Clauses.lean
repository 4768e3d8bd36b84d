import SqlCompiler.Lowering.Basic
import SqlCompiler.Lowering.Reading
import SqlCompiler.Store.Typing

/-!
# Conditions and operators that add a clause

Each operator lowers its sequence and adds a clause to the query.  A query whose rows the clause
would change in another way than the operator does is wrapped first.

Main definitions:

- `Condition.negation`, `Condition.asPredicate`: a condition as a part of another one.
- `Comparison.predicate`: a comparison, in which an absent constant is tested for.
- `Term.listMembers?`: the items of a list that is written in a term.
- `Lowered.filter`: a condition on the elements.
- `whereRule`, `selectRule`, `orderByRule`, `groupByRule`, `takeSkipRule`, `distinctRule`,
  `modifierRule`.
-/

namespace SqlCompiler

/-! ## Conditions from conditions -/

namespace Condition

/-- The negation of a condition. -/
def negation (c : Condition) : Condition :=
  match c.branches with
  | [single] => ⟨[{ single with negated := !single.negated }]⟩
  | _ => empty.conjoinNot (.nested c)

/-- A condition as one predicate; a single branch that is not negated is its predicate. -/
def asPredicate (c : Condition) : Predicate :=
  match c.branches with
  | [single] => if single.negated then .nested c else single.predicate
  | _ => .nested c

/-- The disjunction of two conditions. -/
def disjunction (left right : Condition) : Condition :=
  (empty.conjoin left.asPredicate).disjoin right.asPredicate

/-- One of the items is equal to a scalar, where an absent item matches an absent one if the
scalar can be absent. -/
def membership (s : Store) (item : Scalar) (members : List Scalar) : Condition :=
  ofPredicate (.inList item members false (if s.canBeNull item then some true else none))

end Condition

/-- Whether a scalar is the absent constant. -/
def Scalar.isNullValue (e : Scalar) : Bool :=
  match e.asValue? with
  | some c => c.isNull
  | none => false

/-- A comparison of two scalars.  Equality with the absent constant is a test for absence. -/
def Comparison.predicate (c : Comparison) (left right : Scalar) : Predicate :=
  if (c == .equal || c == .notEqual) && (right.isNullValue || left.isNullValue) then
    .isNull (if right.isNullValue then left else right) (c == .notEqual)
  else .comparison left c right

/-- The items of a constant list; a list given as a parameter is one item. -/
def Term.listMembers? : Term → Option (List Scalar)
  | constant (.list items) => some (items.map Scalar.constant)
  | parameter name (.list items) => some [.parameter (.natural name (.list items))]
  | quote inner => inner.listMembers?
  | _ => none

/-! ## Conditions -/

/-- Add the condition of a function to a lowered sequence: on groups to `HAVING`, else to
`WHERE`. -/
def Lowered.filter (lowered : Lowered) (l : Lowerer) (f : Term) (negated : Bool) :
    LowerM Lowered := do
  let lowered ← LowerM.wrapIf Query.hasFixedRows lowered
  let condition ← l.applyCondition f [lowered.projection] lowered.query
  let condition := if negated then condition.negation else condition
  let query := (← LowerM.store).query lowered.query
  if lowered.projection.isGrouping && query.isGrouped then
    LowerM.modifyQuery lowered.query fun q =>
      { q with having := q.having.conjoinAll condition }
  else LowerM.addWhere lowered.query condition
  return lowered

/-- Add the condition of a function if there is one. -/
def Lowered.filterIf (lowered : Lowered) (l : Lowerer) (f : Option Term) : LowerM Lowered :=
  match f with
  | some f => lowered.filter l f false
  | none => return lowered

/-- The elements that satisfy a condition. -/
def whereRule : Rule :=
  .ofCall "Where" (fun operator _ => operator == .filter) fun l c => do
    let lowered ← c.lowerSource l
    lowered.filter l (← c.arg 1) false

/-! ## Selection, order and groups -/

/-- What a function makes of each element. -/
def selectRule : Rule :=
  .ofCall "Select" (fun operator _ => operator == .select) fun l c => do
    let lowered ← LowerM.wrapIf Query.hasFixedColumns (← c.lowerSource l)
    let projection ← l.applyProjection (← c.arg 1) [lowered.projection] lowered.query
    return { lowered with projection }

/-- Whether an operator orders, and if so whether after the order there is, and descending. -/
def SequenceOperator.ordering? : SequenceOperator → Option (Bool × Bool)
  | orderBy => some (false, false)
  | orderByDescending => some (false, true)
  | thenBy => some (true, false)
  | thenByDescending => some (true, true)
  | _ => none

/-- Order a sequence by a key, instead of the order there is or after it. -/
def lowerOrdering (l : Lowerer) (c : CallSite) (after descending : Bool) : LowerM Lowered := do
  let lowered ← c.lowerSource l
  let lowered ← if after then pure lowered else LowerM.wrapIf Query.hasFixedRows lowered
  let key ← l.applyProjection (← c.arg 1) [lowered.projection] lowered.query
  let items := key.scalars.map fun expression => { expression, descending : OrderItem }
  LowerM.modifyQuery lowered.query fun q =>
    { q with orderBy := (if after then q.orderBy else []) ++ items }
  return lowered

/-- The orders. -/
def orderByRule : Rule :=
  .ofCall "OrderBy" (fun operator _ => operator.ordering?.isSome) fun l c =>
    let (after, descending) := c.operator.ordering?.getD (true, true)
    lowerOrdering l c after descending

/-- Whether a key is more than fields, columns and constants. -/
def Projection.isComputedKey (key : Projection) : Bool :=
  key.scalars.any fun e =>
    match e with
    | .field _ | .column _ | .value _ => false
    | _ => true

/-- Whether every scalar of a key is one of a source as it stands. -/
def Projection.isSelectedFrom (key source : Projection) : Bool :=
  key.scalars.all fun e => source.scalars.any (· == e)

/-- The last function of one argument and the last one of two among some terms.  What is no
function of two arguments is taken for the former. -/
def groupSelectors (args : List Term) : Option Term × Option Term :=
  args.foldl
    (fun (element, result) arg =>
      match arg.functionOf 2 with
      | .ok _ => (element, some arg)
      | .error _ => (some arg, result))
    (none, none)

/-- Group a sequence.  A computed key that the sequence selects is read from a subquery, so that
it is a column of it. -/
def lowerGroupBy (l : Lowerer) (c : CallSite) : LowerM Lowered := do
  let lowered ← LowerM.wrapIf (fun q => q.hasFixedRows || q.isGrouped) (← c.lowerSource l)
  let selector ← c.arg 1
  let keyOf (lowered : Lowered) : LowerM Projection :=
    l.applyProjection selector [lowered.projection] lowered.query
  let key ← keyOf lowered
  let (lowered, key) ←
    if key.isComputedKey && key.isSelectedFrom lowered.projection then do
      let wrapped ← LowerM.wrap lowered
      pure (wrapped, ← keyOf wrapped)
    else pure (lowered, key)
  let (elementSelector, resultSelector) := groupSelectors (c.args.drop 2)
  let element ←
    match elementSelector with
    | some f => l.applyProjection f [lowered.projection] lowered.query
    | none => pure lowered.projection
  LowerM.modifyQuery lowered.query fun q =>
    { q with grouping := { q.grouping with items := key.scalars } }
  let grouping := Projection.grouping key element
  let projection ←
    match resultSelector with
    | some f => l.applyProjection f [key, grouping] lowered.query
    | none => pure grouping
  return { lowered with projection }

/-- Groups. -/
def groupByRule : Rule :=
  .ofCall "GroupBy" (fun operator _ => operator == .groupBy) lowerGroupBy

/-! ## Paging and distinctness -/

/-- Limit or skip rows.  Rows that are limited already are limited or skipped from outside. -/
def lowerPaging (l : Lowerer) (c : CallSite) : LowerM Lowered := do
  let lowered ← LowerM.wrapIf Query.isLimited (← c.lowerSource l)
  let count ← l.scalar (← c.arg 1) lowered.query
  LowerM.modifyQuery lowered.query fun q =>
    if c.operator == .take then { q with take := some count }
    else
      match q.skip with
      | some previous => { q with skip := some (.binary previous .add count .int32) }
      | none => { q with skip := some count }
  return lowered

/-- Limits and offsets. -/
def takeSkipRule : Rule :=
  .ofCall "TakeSkip" (fun operator _ => operator == .take || operator == .skip) lowerPaging

/-- Each element once.  `DISTINCT` is about the selected columns, which are fixed by it. -/
def distinctRule : Rule :=
  .ofCall "Distinct" (fun operator _ => operator == .distinct) fun l c => do
    let lowered ←
      LowerM.wrapIf (fun q => q.hasPagination || q.hasSetOperators) (← c.lowerSource l)
    LowerM.materialize lowered.query lowered.projection false
    LowerM.modifyQuery lowered.query fun q => { q with distinct := true }
    return lowered

/-! ## Annotations -/

/-- Operators that annotate or reshape a query and keep its rows. -/
def SequenceOperator.isModifier : SequenceOperator → Bool
  | asSubquery | removeOrderBy | tagQuery _ | queryName _ | queryHint _ | asQueryable
  | defaultIfEmpty => true
  | _ => false

/-- Annotate or reshape a query. -/
def lowerModifier (l : Lowerer) (c : CallSite) : LowerM Lowered := do
  let lowered ← c.lowerSource l
  match c.operator with
  | .asSubquery => return ← LowerM.wrap lowered
  | .removeOrderBy => LowerM.modifyQuery lowered.query fun q => { q with orderBy := [] }
  | .tagQuery tag => modify fun s => { s with tags := s.tags ++ [tag] }
  | .queryName name => LowerM.modifyQuery lowered.query fun q => { q with name := some name }
  | .queryHint hint => modify fun s => { s with hints := s.hints ++ [hint] }
  | _ => pure ()
  return lowered

/-- Annotations. -/
def modifierRule : Rule :=
  .ofCall "Modifier" (fun operator _ => operator.isModifier) lowerModifier

end SqlCompiler
