import SqlCompiler.Data.Constant
import SqlCompiler.Sql.Operators

/-!
# Scalars, predicates and conditions

The expressions of a statement.  Nodes that other nodes point back to live in a `Store` and are
referred to by their number; each kind of node has a type of references of its own.  A condition
is a list of branches, each joined to the next one by `AND` or `OR`; `AND` binds tighter.

Main definitions:

- `TableRef`, `FieldRef`, `QueryRef`, `ColumnRef`, `StatementRef`, `CteRef`: references.
- `Scalar`, `Call`, `Predicate`, `Branch`, `Condition`.
- `Scalar.precedence`, `Predicate.precedence`, `Condition.precedence`: binding strength.
- `Condition.conjoin`, `Condition.disjoin`, `Condition.conjoinNot`, `Condition.conjoinAll`:
  the ways a condition grows.
-/

namespace SqlCompiler

/-! ## References -/

/-- A table instance. -/
structure TableRef where
  index : Nat
  deriving DecidableEq, Repr, Inhabited

/-- A field of a table instance. -/
structure FieldRef where
  index : Nat
  deriving DecidableEq, Repr, Inhabited

/-- A query block. -/
structure QueryRef where
  index : Nat
  deriving DecidableEq, Repr, Inhabited

/-- A selected column of a query block. -/
structure ColumnRef where
  index : Nat
  deriving DecidableEq, Repr, Inhabited

/-- A statement. -/
structure StatementRef where
  index : Nat
  deriving DecidableEq, Repr, Inhabited

/-- A common table expression. -/
structure CteRef where
  index : Nat
  deriving DecidableEq, Repr, Inhabited

/-! ## Expressions -/

/-- Which part of a table's place in the rendered text a name stands for. -/
inductive TableNameKind where
  | aliasName | name | path
  deriving DecidableEq, Repr, Inhabited

/-- A name of a table with a diagnostic id, known once the whole statement is rendered. -/
structure DeferredName where
  kind : TableNameKind
  id : String
  deriving DecidableEq, Repr, Inhabited

mutual

/-- A value-producing expression. -/
inductive Scalar where
  | value (value : TypedValue)
  | parameter (parameter : Parameter)
  | field (field : FieldRef)
  /-- Every field of a table, `alias.*`. -/
  | allFields (table : TableRef)
  | column (column : ColumnRef)
  | function (call : Call)
  | binary (left : Scalar) (operator : BinaryOperator) (right : Scalar) (type : SqlType)
  /-- A text in which `{0}`, `{1}`, ... stand for the arguments. -/
  | raw (format : String) (args : List Scalar) (type : SqlType) (precedence : Precedence)
  /-- `CAST(operand AS target)`. -/
  | convert (target source : SqlType) (operand : Scalar) (keep : Bool)
  | condition (condition : Condition)
  /-- A subquery used as one value. -/
  | query (query : QueryRef)
  | type (type : SqlType)
  | row (items : List Scalar)
  /-- A whole table source as a value, compared by its primary key. -/
  | tableSource (table : TableRef)
  | deferredName (name : DeferredName)

/-- A call of a database function. -/
structure Call where
  name : String
  args : List Scalar
  type : SqlType
  isAggregate : Bool
  keep : Bool

/-- A truth-valued expression. -/
inductive Predicate where
  /-- A comparison.  With `withNull` set, absent operands compare like values. -/
  | compare (left : Scalar) (operator : Comparison) (right : Scalar) (withNull : Option Bool)
  | like (operand pattern : Scalar) (escape : Option Scalar) (negated : Bool)
  | search (operand : Scalar) (kind : SearchKind) (pattern : Scalar) (caseSensitive negated : Bool)
  | between (operand low high : Scalar) (negated : Bool)
  | isNull (operand : Scalar) (negated : Bool)
  | isDistinct (left right : Scalar) (negated : Bool)
  | inQuery (operand : Scalar) (query : QueryRef) (negated : Bool)
  | inList (operand : Scalar) (items : List Scalar) (negated : Bool) (withNull : Option Bool)
  /-- A function in predicate position, such as `EXISTS`. -/
  | functionLike (call : Call)
  | notScalar (operand : Scalar) (negated : Bool) (precedence : Precedence)
  | scalar (operand : Scalar) (precedence : Precedence)
  | nested (condition : Condition)

/-- One branch of a condition. -/
structure Branch where
  negated : Bool
  predicate : Predicate
  /-- Joined to the next branch by `OR` instead of `AND`. -/
  joinsOr : Bool

/-- Branches, each joined to the next one. -/
structure Condition where
  branches : List Branch

end

instance : Inhabited Scalar := ⟨.value ⟨.undefined, .null⟩⟩

instance : Inhabited Condition := ⟨⟨[]⟩⟩

/-! ## Scalars -/

namespace Call

/-- An ordinary function call. -/
def plain (name : String) (args : List Scalar) (type : SqlType) : Call :=
  ⟨name, args, type, false, false⟩

/-- A call of an aggregate function. -/
def aggregate (name : String) (args : List Scalar) (type : SqlType) : Call :=
  ⟨name, args, type, true, false⟩

end Call

namespace Scalar

/-- A constant of its natural type. -/
def constant (value : Constant) : Scalar :=
  .value (.natural value)

/-- An integer constant. -/
def int (n : Int) : Scalar := constant (.integer n)

/-- A text constant. -/
def text (s : String) : Scalar := constant (.text s)

/-- The absent value. -/
def null : Scalar := constant .null

/-- A function call. -/
def call (name : String) (args : List Scalar) (type : SqlType) : Scalar :=
  .function (.plain name args type)

/-- A raw text that binds as tightly as a name. -/
def formatted (format : String) (args : List Scalar) (type : SqlType) : Scalar :=
  .raw format args type .primary

/-- A conversion that may be simplified. -/
def cast (target source : SqlType) (operand : Scalar) : Scalar :=
  .convert target source operand false

/-- The constant, if the scalar is one. -/
def asValue? : Scalar → Option Constant
  | .value v => some v.value
  | _ => none

/-- The constant value, looking through parameters that are written in place. -/
def evaluate? : Scalar → Option Constant
  | .value v => some v.value
  | .parameter p => if p.isQuery then none else some p.value
  | _ => none

/-- A constant or written-in-place parameter that is absent. -/
def isNullConstant (s : Scalar) : Bool :=
  match s.evaluate? with
  | some .null => true
  | _ => false

/-- A call of an aggregate function. -/
def isAggregate : Scalar → Bool
  | .function call => call.isAggregate
  | _ => false

/-- A scalar that is a field. -/
def isField : Scalar → Bool
  | .field _ => true
  | _ => false

end Scalar

/-! ## Binding strength -/

/-- Whether a branch other than the last is joined by `OR`. -/
def Condition.hasOr (c : Condition) : Bool :=
  c.branches.dropLast.any (·.joinsOr)

/-- A literal's strength: a negative number is a signed operand. -/
def TypedValue.precedence (v : TypedValue) : Precedence :=
  match v.value with
  | .integer i => if i < 0 then .unary else .primary
  | .float f => if f < 0.0 then .unary else .primary
  | _ => .primary

mutual

/-- Binding strength of a scalar. -/
def Scalar.precedence : Scalar → Precedence
  | .value v => v.precedence
  | .binary _ operator _ _ => operator.precedence
  | .raw _ _ _ precedence => precedence
  | .condition c => c.precedence
  | _ => .primary

/-- Binding strength of a predicate. -/
def Predicate.precedence : Predicate → Precedence
  | .functionLike _ => .primary
  | .notScalar _ negated precedence => if negated then .logicalNegation else precedence
  | .scalar _ precedence => precedence
  | .nested c => c.precedence
  | _ => .comparison
termination_by structural p => p

/-- Binding strength of a branch. -/
def Branch.precedence : Branch → Precedence
  | ⟨negated, predicate, _⟩ => if negated then .logicalNegation else predicate.precedence
termination_by structural b => b

/-- Binding strength of a condition. -/
def Condition.precedence : Condition → Precedence
  | ⟨[]⟩ => .primary
  | ⟨[single]⟩ => single.precedence
  | ⟨branches⟩ =>
    if Condition.hasOr ⟨branches⟩ then .logicalDisjunction else .logicalConjunction
termination_by structural c => c

end

/-! ## Predicates -/

namespace Predicate

/-- A comparison in which absent operands compare as unknown. -/
def comparison (left : Scalar) (operator : Comparison) (right : Scalar) : Predicate :=
  .compare left operator right none

/-- Equality. -/
def equal (left right : Scalar) : Predicate :=
  comparison left .equal right

/-- A scalar in predicate position. -/
def ofScalar (operand : Scalar) : Predicate :=
  .scalar operand operand.precedence

/-- A constant truth value. -/
def constant (value : Bool) : Predicate :=
  ofScalar (.constant (.boolean value))

/-- `EXISTS` over a query. -/
def existsIn (query : QueryRef) : Predicate :=
  .functionLike (.plain "EXISTS" [.query query] .boolean)

/-- The truth value a predicate is the constant of. -/
def asConstant? : Predicate → Option Bool
  | .scalar operand _ =>
    match operand.asValue? with
    | some (.boolean b) => some b
    | _ => none
  | _ => none

end Predicate

/-! ## Conditions -/

namespace Condition

/-- The condition without branches, which always holds. -/
def empty : Condition := ⟨[]⟩

/-- A branch that is neither negated nor joined by `OR`. -/
def branch (predicate : Predicate) : Branch := ⟨false, predicate, false⟩

/-- The condition of one predicate. -/
def ofPredicate (predicate : Predicate) : Condition :=
  ⟨[branch predicate]⟩

/-- The condition a predicate stands for; a nested condition loses its parentheses. -/
def ofPredicateFlat : Predicate → Condition
  | .nested c => c
  | predicate => ofPredicate predicate

/-- No branches. -/
def isEmpty (c : Condition) : Bool :=
  c.branches.isEmpty

/-- The number of branches. -/
def size (c : Condition) : Nat :=
  c.branches.length

/-- Join the last branch to a coming one by `OR` or `AND`. -/
def joinLast (joinsOr : Bool) : List Branch → List Branch
  | [] => []
  | [last] => [{ last with joinsOr }]
  | first :: rest => first :: joinLast joinsOr rest

/-- Append with `AND`.  A nested condition of `AND`s alone is flattened. -/
def conjoin (c : Condition) (predicate : Predicate) : Condition :=
  let added :=
    match predicate with
    | .nested inner => if inner.hasOr then [branch predicate] else inner.branches
    | _ => [branch predicate]
  ⟨joinLast false c.branches ++ added⟩

/-- Append with `OR`. -/
def disjoin (c : Condition) (predicate : Predicate) : Condition :=
  ⟨joinLast true c.branches ++ [branch predicate]⟩

/-- Append the negation of a predicate with `AND`. -/
def conjoinNot (c : Condition) (predicate : Predicate) : Condition :=
  ⟨joinLast false c.branches ++ [⟨true, predicate, false⟩]⟩

/-- Conjunction of two conditions; a part with an `OR` is put in parentheses. -/
def conjoinAll (c other : Condition) : Condition :=
  if other.isEmpty then c
  else if c.isEmpty then other
  else
    let grouped := if c.hasOr then ofPredicate (.nested c) else c
    grouped.conjoin (.nested other)

/-- The truth value a condition is the constant of, if it has at most one branch. -/
def asConstant? : Condition → Option Bool
  | ⟨[]⟩ => some true
  | ⟨[single]⟩ => single.predicate.asConstant?.map fun b => b != single.negated
  | _ => none

@[simp] theorem isEmpty_empty : empty.isEmpty = true := rfl

@[simp] theorem conjoinAll_empty (c : Condition) : c.conjoinAll empty = c := by
  simp [conjoinAll]

/-- Joining the last branch keeps the number of branches. -/
@[simp] theorem length_joinLast (joinsOr : Bool) (branches : List Branch) :
    (joinLast joinsOr branches).length = branches.length := by
  fun_induction joinLast joinsOr branches <;> simp_all

end Condition

end SqlCompiler
