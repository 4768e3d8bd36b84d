import SqlCompiler.Lowering.Grouped

/-!
# Values

Lowering of the terms that stand for a value inside of a query.  A term lowers to a projection,
a scalar or a condition, whichever its context asks for.

Main definitions:

- `Lowerer.projectionOf`, `Lowerer.scalarOf`, `Lowerer.conditionOf`: one level of a term; the
  parts are lowered by the `Lowerer`.
-/

namespace SqlCompiler

namespace Lowerer

variable (l : Lowerer)

/-! ## Member functions -/

/-- Member functions that give a number whatever they are applied to. -/
def countingFunctions : List String :=
  ["Length", "IndexOf", "Year", "Month", "Day", "Hour", "Minute", "Second"]

/-- The type of a member function: a number, or the type of its first argument. -/
def functionType (s : Store) (name : String) (args : List Scalar) : SqlType :=
  if countingFunctions.contains name then .int32
  else (args.head?.map s.typeOf).getD .undefined

/-- A call of a member function. -/
def expand (name : String) (args : List Scalar) (refused : SqlError) : LowerM Scalar := do
  let type := functionType (← LowerM.store) name args
  match ← LowerM.ofExcept ((← read).provider.functions.expand name args type) with
  | some e => return e
  | none => throw refused

/-- The searches among the member functions. -/
def searchKind? : String → Option SearchKind
  | "StartsWith" => some .startsWith
  | "EndsWith" => some .endsWith
  | "Contains" => some .contains
  | _ => none

/-- Whether a search is sensitive to case, as its last argument says. -/
def caseSensitivity (whole : Term) : List Term → LowerM Bool
  | [] => return false
  | [.constant (.boolean b)] => return b
  | _ => LowerM.refuse whole.text "case sensitivity must be a boolean constant"

/-- A member function applied to terms. -/
def functionOf (whole : Term) (name : String) (args : List Term) (q : QueryRef) :
    LowerM Scalar := do
  match searchKind? name, args with
  | some kind, receiver :: pattern :: rest =>
    let caseSensitive ← caseSensitivity whole rest
    let receiver ← l.scalar receiver q
    let pattern ← l.scalar pattern q
    return .condition (.ofPredicate (.search receiver kind pattern caseSensitive false))
  | _, _ =>
    let args ← args.mapM fun t => l.scalar t q
    expand name args (.untranslatable whole.text
      ("'" ++ name ++ "' with " ++ toString args.length ++ " argument(s) has no SQL translation"))

/-! ## Operators on sequences -/

/-- The value of a lowered sequence that has one. -/
def valueOf (whole : Term) (lowered : Lowered) : LowerM Scalar := do
  let refused := LowerM.refuse whole.text
    (lowered.projection.describe ++ " cannot be used as a single value")
  let select (e : Scalar) : LowerM Scalar := do
    let c ← LowerM.columnFor lowered.query e ""
    LowerM.selectOnly lowered.query c
    return .query lowered.query
  match lowered.outcome, lowered.projection with
  | .scalar, .scalar (.condition c) => return .condition c
  | .scalar, .scalar e => select e
  | .element .., .scalar e => select e
  | _, _ => refused

/-- An operator on a sequence that stands for a value. -/
def callOf (operator : SequenceOperator) (args : List Term) (q : QueryRef) : LowerM Scalar := do
  let whole := Term.call operator args
  let site : CallSite := { operator, args, parent := some q }
  let nested : LowerM Scalar := do valueOf whole (← l.sequence whole (some q))
  if operator.isAggregate then
    match ← l.groupSource q (← site.arg 0) with
    | some rows => rows.aggregate whole operator
    | none => nested
  else if operator == .contains then
    match (← site.arg 0).listMembers? with
    | some members =>
      let item ← l.scalar (← site.arg 1) q
      return .condition (.membership (← LowerM.store) item members)
    | none => nested
  else nested

/-! ## Terms -/

/-- Lower a term to a projection. -/
def projectionOf (t : Term) (q : QueryRef) : LowerM Projection := do
  match t with
  | .bound name => LowerM.lookUp name
  | .member owner name =>
    match ← l.projection owner q with
    | .scalar e =>
      return .scalar (← expand name [e]
        (.untranslatable t.text ("member '" ++ name ++ "' has no SQL translation")))
    | p => LowerM.ofExcept (p.member name)
  | .record members =>
    let members ← members.mapM fun (name, t) => return (name, ← l.projection t q)
    return .record (Members.ofList members)
  | .entity name members =>
    let members ← members.mapM fun (name, t) => return (name, ← l.scalar t q)
    return .entity name none (Members.ofList members)
  | .quote inner => l.projection inner q
  | .call operator args => return .scalar (← l.callOf operator args q)
  | .table _ | .lambda .. => LowerM.refuse t.text "a sequence cannot be used as a value"
  | _ => return .scalar (← l.scalar t q)

/-- Lower a term to a scalar. -/
def scalarOf (t : Term) (q : QueryRef) : LowerM Scalar := do
  let typeOf (e : Scalar) : LowerM SqlType := return (← LowerM.store).typeOf e
  match t with
  | .constant value => return .constant value
  | .parameter name value => return .parameter (.natural name value)
  | .binary operator left right =>
    if operator.comparison?.isSome || operator.isLogical then
      return .condition (← l.condition t q)
    let left ← l.scalar left q
    let right ← l.scalar right q
    let leftType ← typeOf left
    let type ← if leftType == .undefined then typeOf right else pure leftType
    match operator.arithmetic? with
    | some op => return .binary left op right type
    | none => return .call "Coalesce" [left, right] type
  | .not _ => return .condition (← l.condition t q)
  | .negate operand =>
    let operand ← l.scalar operand q
    return .binary (.int (-1)) .multiply operand (← typeOf operand)
  | .conditional test yes no =>
    let test ← l.condition test q
    let yes ← l.scalar yes q
    let no ← l.scalar no q
    return .call "CASE" [.condition test, yes, no] (← typeOf yes)
  | .convert operand target =>
    let operand ← l.scalar operand q
    return .cast (.plain target) (← typeOf operand) operand
  | .function name args => l.functionOf t name args q
  | _ => LowerM.ofExcept ((← l.projection t q).toScalar t)

/-- Lower a term to a condition. -/
def conditionOf (t : Term) (q : QueryRef) : LowerM Condition := do
  let byScalar : LowerM Condition := do
    match ← l.scalar t q with
    | .condition c => return c
    | e => return .ofPredicate (.ofScalar e)
  match t with
  | .binary operator left right =>
    match operator, operator.comparison? with
    | .and, _ =>
      let left ← l.condition left q
      return left.conjoinAll (← l.condition right q)
    | .or, _ =>
      let left ← l.condition left q
      return left.disjunction (← l.condition right q)
    | _, some comparison =>
      let left ← l.scalar left q
      let right ← l.scalar right q
      return .ofPredicate (comparison.predicate left right)
    | _, none => byScalar
  | .not operand => return (← l.condition operand q).negation
  | .constant (.boolean b) => return .ofPredicate (.constant b)
  | _ => byScalar

end Lowerer

end SqlCompiler
