import SqlCompiler.Provider.Dialect
import SqlCompiler.Store.Typing

/-!
# Scalars

Constants are combined, needless conversions removed, and operators a dialect lacks are
spelled by means of others.

Main definitions:

- `foldBinary?`: the value of an operation on two constants.
- `Store.legalConversion`, `Store.legalBinary`: the legal forms shared by the dialects.
- `Dialect.spelled`: operators and conversions a dialect spells differently.
- `Store.legalScalar`: the legal form of a scalar whose parts are legal.
-/

namespace SqlCompiler

/-- An integer that fits into 64 bits. -/
def checkedInt64 (n : Int) : Option Constant :=
  if -(Nat.pow 2 63 : Int) ≤ n ∧ n < Nat.pow 2 63 then some (.integer n) else none

/-- The value of an operation on two constants.  Parameters are never combined; they have to
reach the database as parameters. -/
def foldConstants? (a : Constant) (op : BinaryOperator) (b : Constant) : Option Constant :=
  match a, op, b with
  | .integer m, .add, .integer n => checkedInt64 (m + n)
  | .integer m, .subtract, .integer n => checkedInt64 (m - n)
  | .integer m, .multiply, .integer n => checkedInt64 (m * n)
  | .text s, .add, .text t | .text s, .concat, .text t => some (.text (s ++ t))
  | _, _, _ => none

/-- The value of an operation on two constant scalars, of the type of the operation or, if it
has none, of its natural type. -/
def foldBinary? (left : Scalar) (op : BinaryOperator) (right : Scalar) (type : SqlType) :
    Option Scalar := do
  let value ← foldConstants? (← left.asValue?) op (← right.asValue?)
  return .value ⟨if type.kind == .undefined then value.naturalType else type, value⟩

namespace Store

/-- A conversion to the type its operand has is removed, or kept for good where the dialect
keeps them.  A conversion to a sized type may cut, so only an equal type counts. -/
def legalConversion (s : Store) (d : Dialect) (target source : SqlType) (operand : Scalar)
    (keep : Bool) : Scalar :=
  if keep || operand.isNullConstant then .convert target source operand keep
  else
    let actual := if source.kind == .undefined then s.typeOf operand else source
    let isSame := target == actual ||
      (target.sameKind actual && target.length.isNone && target.precision.isNone)
    if !isSame then .convert target source operand keep
    else if d.keepsSameTypeConversion then .convert target source operand true
    else operand

/-- Whether an operation joins texts. -/
def isConcatenation (s : Store) (left : Scalar) (op : BinaryOperator) (right : Scalar)
    (type : SqlType) : Bool :=
  match op with
  | .concat => true
  | .add => type.kind.isText || (s.typeOf left).kind.isText || (s.typeOf right).kind.isText
  | _ => false

/-- Constants are combined, and texts are joined by the operator of the dialect. -/
def legalBinary (s : Store) (d : Dialect) (left : Scalar) (op : BinaryOperator) (right : Scalar)
    (type : SqlType) : Scalar :=
  match foldBinary? left op right type with
  | some folded => folded
  | none =>
    .binary left (if s.isConcatenation left op right type then d.concatOperator else op) right type

end Store

/-- `a ^ b` as `(a + b) - (a & b) * 2`. -/
def xorBySum (left right : Scalar) (type : SqlType) : Scalar :=
  .binary (.binary left .add right type) .subtract
    (.binary (.binary left .bitAnd right type) .multiply (.int 2) type) type

/-- The function a dialect without an operator has for it. -/
def BinaryOperator.functionName? : BinaryOperator → Option String
  | .modulo => some "Mod"
  | .bitAnd => some "BitAnd"
  | .bitOr => some "BitOr"
  | .bitXor => some "BitXor"
  | _ => none

/-- Operators and conversions that a dialect spells differently. -/
def Dialect.spelled (d : Dialect) (e : Scalar) : Scalar :=
  match d, e with
  | .postgreSql, .binary l .bitXor r type => .raw "{0} # {1}" [l, r] type .bitwise
  | .sqlite, .binary l .bitXor r type => xorBySum l r type
  | .sqlite, .convert target source operand keep =>
    match target.kind with
    | .date => .call "Date" [operand] target
    | .dateTime | .dateTime2 | .smallDateTime | .timestamp => .call "DateTime" [operand] target
    | _ => .convert target source operand keep
  | .db2, .binary l op r type =>
    match op.functionName? with
    | some name => .call name [l, r] type
    | none => e
  | _, _ => e

/-- The legal form of a scalar whose parts are legal. -/
def Store.legalScalar (s : Store) (d : Dialect) (e : Scalar) : Scalar :=
  match d.spelled e with
  | .convert target source operand keep => s.legalConversion d target source operand keep
  | .binary l op r type => s.legalBinary d l op r type
  | other => other

end SqlCompiler
