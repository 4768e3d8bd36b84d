import SqlCompiler.Lowering.Clauses
import SqlCompiler.Lowering.Grouped

/-!
# Operators that end a sequence

Main definitions:

- `firstSingleRule`: one element.
- `aggregationRule`: an aggregate of all elements.
- `anyAllRule`: a condition on a sequence, as `EXISTS` or `IN`.
-/

namespace SqlCompiler

/-! ## One element -/

/-- The first element, or the only one.  At the top, the only one is read with one row more, so
that a second one is noticed. -/
def lowerElement (l : Lowerer) (c : CallSite) : LowerM Lowered := do
  let lowered ← (← c.lowerSource l).filterIf l c.args[1]?
  let lowered ← LowerM.wrapIf Query.isLimited lowered
  let single := c.operator == .single || c.operator == .singleOrDefault
  let orDefault := c.operator == .firstOrDefault || c.operator == .singleOrDefault
  let rows := if single && c.parent.isNone then 2 else 1
  LowerM.modifyQuery lowered.query fun q => { q with take := some (.int rows) }
  return { lowered with outcome := .element single orDefault }

/-- First and only elements. -/
def firstSingleRule : Rule :=
  .ofCall "FirstSingle" (fun operator _ => operator.isElement) lowerElement

/-! ## Aggregates -/

/-- The call of an aggregate function over a lowered sequence. -/
def aggregateOf (l : Lowerer) (c : CallSite) (lowered : Lowered) : LowerM Call := do
  if c.operator.isCount then
    return .aggregate "Count" [] (c.operator.aggregateType .undefined)
  else
    let value ←
      match c.args[1]? with
      | some selector => l.applyScalar selector [lowered.projection] lowered.query
      | none => LowerM.ofExcept (lowered.projection.toScalar (.call c.operator c.args))
    let type := c.operator.aggregateType ((← LowerM.store).typeOf value)
    return .aggregate c.operator.functionName [value] type

/-- An aggregate of all elements. -/
def lowerAggregate (l : Lowerer) (c : CallSite) : LowerM Lowered := do
  let lowered ← c.lowerSource l
  let lowered ← if c.operator.isCount then lowered.filterIf l c.args[1]? else pure lowered
  let lowered ← LowerM.wrapIf (fun q => q.hasFixedRows || q.isGrouped) lowered
  LowerM.modifyQuery lowered.query fun q => { q with orderBy := [] }
  let call ← aggregateOf l c lowered
  return { query := lowered.query, projection := .scalar (.function call), outcome := .scalar }

/-- Aggregates. -/
def aggregationRule : Rule :=
  .ofCall "Aggregation" (fun operator _ => operator.isAggregate) lowerAggregate

/-! ## Conditions on a sequence -/

/-- Whether an item is among the elements of a lowered sequence of single values. -/
def lowerContains (l : Lowerer) (c : CallSite) (outer : QueryRef) (lowered : Lowered) :
    LowerM Condition := do
  let item ← l.scalar (← c.arg 1) outer
  match lowered.projection.leaves with
  | [(path, value)] =>
    let column ← LowerM.columnFor lowered.query value path
    LowerM.selectOnly lowered.query column
    return .ofPredicate (.inQuery item lowered.query false)
  | _ => c.refuseWhole "Contains needs a sequence of single values"

/-- The condition that some element, every element or an item satisfies. -/
def lowerTest (l : Lowerer) (c : CallSite) (outer : QueryRef) : LowerM Condition := do
  let source ← c.arg 0
  let nested : LowerM Condition := do
    let lowered ← l.sequence source (some outer)
    c.checkSequence source lowered
    match c.operator with
    | .any =>
      let lowered ← lowered.filterIf l c.args[1]?
      return .ofPredicate (.existsIn lowered.query)
    | .all =>
      let lowered ← lowered.filter l (← c.arg 1) true
      return Condition.empty.conjoinNot (.existsIn lowered.query)
    | _ => lowerContains l c outer lowered
  match c.operator, source.listMembers? with
  | .contains, some members =>
    let item ← l.scalar (← c.arg 1) outer
    return .membership (← LowerM.store) item members
  | _, _ => nested

/-- Conditions on a sequence, the value of an otherwise empty query. -/
def anyAllRule : Rule :=
  .ofCall "AnyAll"
    (fun operator _ => operator == .any || operator == .all || operator == .contains)
    fun l c => do
      let query ← LowerM.newQuery c.parent
      let condition ← lowerTest l c query
      return { query, projection := .scalar (.condition condition), outcome := .scalar }

end SqlCompiler
