import SqlCompiler.Exchange.Constant
import SqlCompiler.Sql.Expression

/-!
# Expressions as JSON

A scalar and a predicate are lists that begin with the name of their kind, a condition is the
list of its branches.  When read, parts at the end may be missing.

Main definitions:

- `readScalar`, `readPredicate`, `readCondition`.
- `writeScalar`, `writePredicate`, `writeCondition`.
-/

namespace SqlCompiler.Exchange

/-! ## Names and references -/

/-- Binary operators by their signs. -/
def binaryOperators : List (String × BinaryOperator) :=
  BinaryOperator.all.map fun op => (op.sign, op)

/-- Comparisons by their signs. -/
def comparisons : List (String × Comparison) :=
  Comparison.all.map fun op => (op.sign, op)

/-- Kinds of searches by their names. -/
def searchKinds : List (String × SearchKind) :=
  [("StartsWith", .startsWith), ("EndsWith", .endsWith), ("Contains", .contains)]

/-- Kinds of deferred names by their names. -/
def tableNameKinds : List (String × TableNameKind) :=
  [("alias", .aliasName), ("name", .name), ("path", .path)]

/-- A table. -/
def readTable (j : Json) : Decode TableRef := return ⟨← readNat j⟩

/-- A field. -/
def readField (j : Json) : Decode FieldRef := return ⟨← readNat j⟩

/-- A query. -/
def readQuery (j : Json) : Decode QueryRef := return ⟨← readNat j⟩

/-- A column. -/
def readColumn (j : Json) : Decode ColumnRef := return ⟨← readNat j⟩

/-- A statement. -/
def readStatementRef (j : Json) : Decode StatementRef := return ⟨← readNat j⟩

/-- A common table expression. -/
def readCte (j : Json) : Decode CteRef := return ⟨← readNat j⟩

/-- A table. -/
def writeTable (t : TableRef) : Json := .nat t.index

/-- A field. -/
def writeField (f : FieldRef) : Json := .nat f.index

/-- A query. -/
def writeQuery (q : QueryRef) : Json := .nat q.index

/-- A column. -/
def writeColumn (c : ColumnRef) : Json := .nat c.index

/-- A statement. -/
def writeStatementRef (t : StatementRef) : Json := .nat t.index

/-- A common table expression. -/
def writeCte (c : CteRef) : Json := .nat c.index

/-! ## Reading -/

/-- Readers of the parts of an expression. -/
structure ExpressionReaders where
  scalar : Json → Decode Scalar
  condition : Json → Decode Condition

namespace ExpressionReaders

variable (inner : ExpressionReaders)

/-- The parts of a function call from the second one on. -/
def call (j : Json) : Decode Call :=
  return {
    name := ← readText (j.item 1)
    args := ← readList inner.scalar (j.item 2)
    type := ← readType (j.item 3)
    isAggregate := ← readFlag (j.item 4)
    keep := ← readFlag (j.item 5) }

/-- A scalar whose parts are read by `inner`. -/
def scalarOf (j : Json) : Decode Scalar := do
  let part (i : Nat) : Json := j.item i
  match ← readText (part 0) with
  | "val" =>
    let value ← readConstant (part 1)
    return .value ⟨← readTypeOf value (part 2), value⟩
  | "par" => return .parameter (← readParameter j 1)
  | "field" => return .field (← readField (part 1))
  | "col" => return .column (← readColumn (part 1))
  | "query" => return .query (← readQuery (part 1))
  | "all" => return .allFields (← readTable (part 1))
  | "src" => return .tableSource (← readTable (part 1))
  | "func" => return .function (← inner.call j)
  | "bin" =>
    return .binary (← inner.scalar (part 2)) (← readTag binaryOperators (part 1))
      (← inner.scalar (part 3)) (← readType (part 4))
  | "raw" =>
    return .raw (← readText (part 1)) (← readList inner.scalar (part 2)) (← readType (part 3))
      ((← optional readInt (part 4)).getD Precedence.primary)
  | "conv" =>
    return .convert (← readType (part 1)) (← readType (part 2)) (← inner.scalar (part 3))
      (← readFlag (part 4))
  | "cond" => return .condition (← inner.condition (part 1))
  | "type" => return .type (← readType (part 1))
  | "row" => return .row (← readList inner.scalar (part 1))
  | "id" => return .deferredName ⟨← readTag tableNameKinds (part 1), ← readText (part 2)⟩
  | other => .error ("unknown scalar " ++ other)

/-- A predicate whose parts are read by `inner`. -/
def predicateOf (j : Json) : Decode Predicate := do
  let part (i : Nat) : Json := j.item i
  let scalar (i : Nat) : Decode Scalar := inner.scalar (part i)
  let given (i : Nat) : Decode Bool := readFlag (part i)
  match ← readText (part 0) with
  | "cmp" =>
    return .compare (← scalar 2) (← readTag comparisons (part 1)) (← scalar 3)
      (← optional readFlag (part 4))
  | "like" =>
    return .like (← scalar 1) (← scalar 2) (← optional inner.scalar (part 3)) (← given 4)
  | "search" =>
    return .search (← scalar 1) (← readTag searchKinds (part 2)) (← scalar 3) (← given 4)
      (← given 5)
  | "between" => return .between (← scalar 1) (← scalar 2) (← scalar 3) (← given 4)
  | "isnull" => return .isNull (← scalar 1) (← given 2)
  | "distinct" => return .isDistinct (← scalar 1) (← scalar 2) (← given 3)
  | "insub" => return .inQuery (← scalar 1) (← readQuery (part 2)) (← given 3)
  | "inlist" =>
    return .inList (← scalar 1) (← readList inner.scalar (part 2)) (← given 3)
      (← optional readFlag (part 4))
  | "funclike" => return .functionLike (← inner.call (part 1))
  | "notexpr" =>
    let e ← scalar 1
    return .notScalar e (← given 2) ((← optional readInt (part 3)).getD e.precedence)
  | "expr" =>
    let e ← scalar 1
    return .scalar e ((← optional readInt (part 2)).getD e.precedence)
  | "nested" => return .nested (← inner.condition (part 1))
  | other => .error ("unknown predicate " ++ other)

/-- A branch whose parts are read by `inner`. -/
def branchOf (j : Json) : Decode Branch :=
  return ⟨← readFlag (j.item 0), ← inner.predicateOf (j.item 1), ← readFlag (j.item 2)⟩

/-- Readers of expressions nested at most `fuel` deep. -/
def within : Nat → ExpressionReaders
  | 0 => ⟨fun _ => .error "expression expected", fun _ => .error "condition expected"⟩
  | fuel + 1 =>
    { scalar := fun j => (within fuel).scalarOf j
      condition := fun j => return ⟨← readList (within fuel).branchOf j⟩ }

end ExpressionReaders

/-- A scalar. -/
def readScalar (j : Json) : Decode Scalar :=
  (ExpressionReaders.within (j.depth + 1)).scalar j

/-- A predicate. -/
def readPredicate (j : Json) : Decode Predicate :=
  (ExpressionReaders.within (j.depth + 1)).predicateOf j

/-- A condition. -/
def readCondition (j : Json) : Decode Condition :=
  (ExpressionReaders.within (j.depth + 1)).condition j

/-! ## Writing -/

mutual

/-- A scalar. -/
def writeScalar : Scalar → Json
  | .value v => .list [.text "val", writeConstant v.value, writeType v.type]
  | .parameter p => .list (.text "par" :: writeParameterParts p)
  | .field f => .list [.text "field", writeField f]
  | .allFields t => .list [.text "all", writeTable t]
  | .column c => .list [.text "col", writeColumn c]
  | .function call => writeCall call
  | .binary l op r type =>
    .list [.text "bin", .text op.sign, writeScalar l, writeScalar r, writeType type]
  | .raw format args type precedence =>
    .list [.text "raw", .text format, .list (writeScalars args), writeType type,
      .integer precedence]
  | .convert target source operand keep =>
    .list [.text "conv", writeType target, writeType source, writeScalar operand, .bool keep]
  | .condition c => .list [.text "cond", writeCondition c]
  | .query q => .list [.text "query", writeQuery q]
  | .type type => .list [.text "type", writeType type]
  | .row items => .list [.text "row", .list (writeScalars items)]
  | .tableSource t => .list [.text "src", writeTable t]
  | .deferredName name => .list [.text "id", writeTag tableNameKinds name.kind, .text name.id]
termination_by structural e => e

/-- A list of scalars. -/
def writeScalars : List Scalar → List Json
  | [] => []
  | e :: rest => writeScalar e :: writeScalars rest
termination_by structural es => es

/-- A function call. -/
def writeCall : Call → Json
  | ⟨name, args, type, isAggregate, keep⟩ =>
    .list [.text "func", .text name, .list (writeScalars args), writeType type,
      .bool isAggregate, .bool keep]
termination_by structural c => c

/-- A predicate. -/
def writePredicate : Predicate → Json
  | .compare l op r withNull =>
    .list [.text "cmp", .text op.sign, writeScalar l, writeScalar r,
      Json.orNull .bool withNull]
  | .like e pattern none negated =>
    .list [.text "like", writeScalar e, writeScalar pattern, .null, .bool negated]
  | .like e pattern (some escape) negated =>
    .list [.text "like", writeScalar e, writeScalar pattern, writeScalar escape, .bool negated]
  | .search e kind pattern caseSensitive negated =>
    .list [.text "search", writeScalar e, writeTag searchKinds kind, writeScalar pattern,
      .bool caseSensitive, .bool negated]
  | .between e low high negated =>
    .list [.text "between", writeScalar e, writeScalar low, writeScalar high, .bool negated]
  | .isNull e negated => .list [.text "isnull", writeScalar e, .bool negated]
  | .isDistinct l r negated =>
    .list [.text "distinct", writeScalar l, writeScalar r, .bool negated]
  | .inQuery e q negated => .list [.text "insub", writeScalar e, writeQuery q, .bool negated]
  | .inList e items negated withNull =>
    .list [.text "inlist", writeScalar e, .list (writeScalars items), .bool negated,
      Json.orNull .bool withNull]
  | .functionLike call => .list [.text "funclike", writeCall call]
  | .notScalar e negated precedence =>
    .list [.text "notexpr", writeScalar e, .bool negated, .integer precedence]
  | .scalar e precedence => .list [.text "expr", writeScalar e, .integer precedence]
  | .nested c => .list [.text "nested", writeCondition c]
termination_by structural p => p

/-- A branch of a condition. -/
def writeBranch : Branch → Json
  | ⟨negated, predicate, joinsOr⟩ =>
    .list [.bool negated, writePredicate predicate, .bool joinsOr]
termination_by structural b => b

/-- The branches of a condition. -/
def writeBranches : List Branch → List Json
  | [] => []
  | b :: rest => writeBranch b :: writeBranches rest
termination_by structural bs => bs

/-- A condition. -/
def writeCondition : Condition → Json
  | ⟨branches⟩ => .list (writeBranches branches)
termination_by structural c => c

end

/-- The kind of a predicate. -/
def predicateKind : Predicate → String
  | .compare .. => "ExprExprPredicate"
  | .like .. => "LikePredicate"
  | .search .. => "SearchStringPredicate"
  | .between .. => "BetweenPredicate"
  | .isNull .. => "IsNullPredicate"
  | .isDistinct .. => "IsDistinctPredicate"
  | .inQuery .. => "InSubQueryPredicate"
  | .inList .. => "InListPredicate"
  | .functionLike .. => "FuncLikePredicate"
  | .notScalar .. => "NotExprPredicate"
  | .scalar .. => "ExprPredicate"
  | .nested .. => "SearchCondition"

end SqlCompiler.Exchange
