/-!
# Types of database values

Main definitions:

- `TypeKind`: the logical types, with their classes `isText`, `isDateTime`, `isInteger`
  and `isBinary`.
- `SqlType`: a kind with its optional length, precision and scale.
-/

namespace SqlCompiler

/-- Logical type of a value, a field or an expression. -/
inductive TypeKind where
  | undefined
  | char | varChar | text | nChar | nVarChar | nText
  | binary | varBinary | blob
  | boolean | guid
  | byte | sByte | int16 | int32 | int64 | uInt16 | uInt32 | uInt64
  | single | double | decimal | money | smallMoney
  | date | time | dateTime | dateTime2 | smallDateTime | dateTimeOffset | timestamp
  | json | xml
  deriving DecidableEq, Repr, Inhabited

namespace TypeKind

/-- Every kind, in declaration order. -/
def all : List TypeKind :=
  [undefined, char, varChar, text, nChar, nVarChar, nText, binary, varBinary, blob, boolean,
    guid, byte, sByte, int16, int32, int64, uInt16, uInt32, uInt64, single, double, decimal,
    money, smallMoney, date, time, dateTime, dateTime2, smallDateTime, dateTimeOffset,
    timestamp, json, xml]

/-- The name a mapping or a script calls the kind by. -/
def name : TypeKind → String
  | undefined => "Undefined"
  | char => "Char"
  | varChar => "VarChar"
  | text => "Text"
  | nChar => "NChar"
  | nVarChar => "NVarChar"
  | nText => "NText"
  | binary => "Binary"
  | varBinary => "VarBinary"
  | blob => "Blob"
  | boolean => "Boolean"
  | guid => "Guid"
  | byte => "Byte"
  | sByte => "SByte"
  | int16 => "Int16"
  | int32 => "Int32"
  | int64 => "Int64"
  | uInt16 => "UInt16"
  | uInt32 => "UInt32"
  | uInt64 => "UInt64"
  | single => "Single"
  | double => "Double"
  | decimal => "Decimal"
  | money => "Money"
  | smallMoney => "SmallMoney"
  | date => "Date"
  | time => "Time"
  | dateTime => "DateTime"
  | dateTime2 => "DateTime2"
  | smallDateTime => "SmallDateTime"
  | dateTimeOffset => "DateTimeOffset"
  | timestamp => "Timestamp"
  | json => "Json"
  | xml => "Xml"

/-- The kind of that name. -/
def ofName? (name : String) : Option TypeKind :=
  all.find? (·.name == name)

/-- Character strings of any width and length. -/
def isText : TypeKind → Bool
  | char | varChar | text | nChar | nVarChar | nText => true
  | _ => false

/-- Dates, times and their combinations. -/
def isDateTime : TypeKind → Bool
  | date | time | dateTime | dateTime2 | smallDateTime | dateTimeOffset | timestamp => true
  | _ => false

/-- Whole numbers of any width. -/
def isInteger : TypeKind → Bool
  | byte | sByte | int16 | int32 | int64 | uInt16 | uInt32 | uInt64 => true
  | _ => false

/-- Byte strings. -/
def isBinary : TypeKind → Bool
  | binary | varBinary | blob => true
  | _ => false

end TypeKind

/-- A kind with its optional size facets. -/
structure SqlType where
  kind : TypeKind := .undefined
  length : Option Nat := none
  precision : Option Nat := none
  scale : Option Nat := none
  deriving DecidableEq, Repr, Inhabited

namespace SqlType

/-- A kind without facets. -/
def plain (kind : TypeKind) : SqlType := { kind }

/-- The type of values nothing is known about. -/
def undefined : SqlType := plain .undefined

/-- Truth values. -/
def boolean : SqlType := plain .boolean

/-- 32-bit integers. -/
def int32 : SqlType := plain .int32

/-- 64-bit integers. -/
def int64 : SqlType := plain .int64

/-- Double precision numbers. -/
def double : SqlType := plain .double

/-- Unicode strings. -/
def nVarChar : SqlType := plain .nVarChar

/-- The type with a length. -/
def withLength (t : SqlType) (length : Nat) : SqlType :=
  { t with length := some length }

/-- The type with a precision and a scale. -/
def withPrecision (t : SqlType) (precision scale : Nat) : SqlType :=
  { t with precision := some precision, scale := some scale }

/-- Same kind, whatever the facets. -/
def sameKind (a b : SqlType) : Bool :=
  a.kind == b.kind

end SqlType

end SqlCompiler
