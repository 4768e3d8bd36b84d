import SqlCompiler.Store.Basic
import SqlCompiler.Text.Letters

/-!
# Types and nullability of expressions

What the type of a scalar is, and whether it can be absent.  Both follow column references;
a chain of columns that visits more columns than there are has come back to one of them.

Main definitions:

- `Store.typeOf`: the database type of a scalar.
- `Store.canBeNull`: whether a scalar may be absent on some row.
-/

namespace SqlCompiler

namespace Store

/-- The type of a scalar, following at most `fuel` columns. -/
def typeWithin (s : Store) : Nat → Scalar → SqlType
  | _, .value v => v.type
  | _, .parameter p => p.type
  | _, .field f => (s.field f).type
  | _, .function call => call.type
  | _, .binary _ _ _ type => type
  | _, .raw _ _ type _ => type
  | _, .convert target _ _ _ => target
  | _, .condition _ => .boolean
  | _, .type type => type
  | _, .allFields _ | _, .row _ | _, .tableSource _ | _, .deferredName _ => .undefined
  | 0, .column _ | 0, .query _ => .undefined
  | fuel + 1, .column c => s.typeWithin fuel (s.column c).expression
  | fuel + 1, .query q =>
    match (s.query q).columns with
    | [] => .undefined
    | c :: _ => s.typeWithin fuel (s.column c).expression

/-- The type of a scalar. -/
def typeOf (s : Store) (e : Scalar) : SqlType :=
  s.typeWithin (s.columns.size + 1) e

mutual

/-- Whether a scalar can be absent, given which columns can. -/
def nullableBy (s : Store) (column : ColumnRef → Bool) : Scalar → Bool
  | .value v => v.value.isNull
  | .parameter p => p.isQuery || p.value.isNull
  | .field f => (s.field f).canBeNull
  | .column c => column c
  | .function call => s.callNullableBy column call
  | .binary l _ r _ => s.nullableBy column l || s.nullableBy column r
  | .raw _ args _ _ => s.anyNullableBy column args
  | .convert _ _ e _ => s.nullableBy column e
  | .query _ => true
  | .condition _ | .type _ | .row _ | .allFields _ | .tableSource _ | .deferredName _ => false
termination_by structural e => e

/-- Whether some scalar of a list can be absent. -/
def anyNullableBy (s : Store) (column : ColumnRef → Bool) : List Scalar → Bool
  | [] => false
  | e :: rest => s.nullableBy column e || s.anyNullableBy column rest
termination_by structural es => es

/-- Whether a call can be absent: an aggregate unless it counts, any other function if an
argument can. -/
def callNullableBy (s : Store) (column : ColumnRef → Bool) : Call → Bool
  | ⟨name, args, _, isAggregate, _⟩ =>
    if isAggregate then !Text.equalAscii name "COUNT" else s.anyNullableBy column args
termination_by structural c => c

end

/-- Whether a column can be absent, following at most `fuel` columns. -/
def columnNullableWithin (s : Store) : Nat → ColumnRef → Bool
  | 0, _ => false
  | fuel + 1, c => s.nullableBy (s.columnNullableWithin fuel) (s.column c).expression

/-- Whether a scalar can be absent. -/
def canBeNull (s : Store) (e : Scalar) : Bool :=
  s.nullableBy (s.columnNullableWithin (s.columns.size + 1)) e

end Store

end SqlCompiler
