import SqlCompiler.Lowering.Clauses
import SqlCompiler.Lowering.Rule

/-!
# Aggregates over a group

An aggregate over a group, `g.Where(…).Select(…).Distinct().Sum()`, is a call of the aggregate
function in the query that has the groups.

Main definitions:

- `GroupRows`: the rows of a group that an aggregate runs over.
- `Lowerer.groupSource`: the rows a term reads from a group, if it reads from one.
- `GroupRows.aggregate`: the call of the aggregate function.
-/

namespace SqlCompiler

namespace SequenceOperator

/-- The function of an aggregate. -/
def functionName : SequenceOperator → String
  | min => "Min"
  | max => "Max"
  | sum => "Sum"
  | average => "Avg"
  | _ => "Count"

/-- The type of an aggregate.  An average of whole numbers is not whole. -/
def aggregateType (operator : SequenceOperator) (argument : SqlType) : SqlType :=
  match operator with
  | average => if argument.kind.isInteger then .double else argument
  | count => .int32
  | longCount => .int64
  | _ => argument

/-- Whether an aggregate counts rows. -/
def isCount : SequenceOperator → Bool
  | count | longCount => true
  | _ => false

end SequenceOperator

/-- The rows of a group that an aggregate runs over. -/
structure GroupRows where
  projection : Projection
  filter : Condition := .empty
  distinct : Bool := false

/-- The rows a term reads from a group, if it reads from one. -/
def Lowerer.groupSource (l : Lowerer) (q : QueryRef) : Term → LowerM (Option GroupRows)
  | .bound name => do
    match ← LowerM.lookUp name with
    | .grouping _ element => return some { projection := element }
    | _ => return none
  | .call operator (source :: rest) => do
    let site : CallSite := { operator, args := source :: rest, parent := some q }
    match operator with
    | .filter =>
      let some rows ← l.groupSource q source | return none
      let condition ← l.applyCondition (← site.arg 1) [rows.projection] q
      return some { rows with filter := rows.filter.conjoinAll condition }
    | .select =>
      let some rows ← l.groupSource q source | return none
      let projection ← l.applyProjection (← site.arg 1) [rows.projection] q
      return some { rows with projection }
    | .distinct =>
      let some rows ← l.groupSource q source | return none
      return some { rows with distinct := true }
    | _ => return none
  | .call operator [] => do
    let site : CallSite := { operator, args := [], parent := some q }
    match operator with
    | .filter | .select | .distinct =>
      let _ ← site.arg 0
      return none
    | _ => return none
  | _ => return none

namespace GroupRows

variable (rows : GroupRows)

/-- A value that is absent on the rows that are filtered out. -/
def filtered (e : Scalar) : Scalar :=
  if rows.filter.isEmpty then e
  else
    let type :=
      match e with
      | .value v => v.type
      | _ => .undefined
    .call "CASE" [.condition rows.filter, e] type

/-- A value of which each one counts once if the rows are distinct. -/
def deduplicated (e : Scalar) (type : SqlType) : Scalar :=
  if rows.distinct then .formatted "DISTINCT {0}" [e] type else e

/-- The aggregate of the rows. -/
def aggregate (whole : Term) (operator : SequenceOperator) : LowerM Scalar := do
  if operator.isCount then
    let args := if rows.filter.isEmpty then [] else [rows.filtered (.int 1)]
    return .function (.aggregate "Count" args (operator.aggregateType .undefined))
  else
    let argument ← LowerM.ofExcept (rows.projection.toScalar whole)
    let type := (← LowerM.store).typeOf argument
    let argument := rows.deduplicated (rows.filtered argument) type
    return .function (.aggregate operator.functionName [argument] (operator.aggregateType type))

end GroupRows

end SqlCompiler
