import SqlCompiler.Sql.Expression
import SqlCompiler.Sql.Query
import SqlCompiler.Sql.Table
import SqlCompiler.Text.Decimal
import SqlCompiler.Text.Numeral

/-!
# Dialects

The textual conventions of the five supported dialects, and what a database can express natively.
Statements are legalized around what is missing, and what is still missing then is refused.

Main definitions:

- `Capabilities`: what a database can express.
- `Dialect` and its `capabilities`.
- `Dialect.literal?`: the literal form of a constant, if it has one.
- `Dialect.typeName`: the name of a type with its facets.
- `Dialect.firstFormat`, `Dialect.limitFormat`, `Dialect.offsetFormat`: paging clauses.
- The conventions for identifiers, parameters, identities, output clauses and upserts.
-/

namespace SqlCompiler

/-! ## Capabilities of a database -/

/-- What a database can express. -/
structure Capabilities where
  take : Bool := true
  skip : Bool := true
  /-- A row offset is legal together with a row limit. -/
  skipIfTake : Bool := true
  subqueryTake : Bool := true
  subquerySkip : Bool := true
  pagingWithDistinct : Bool := true
  distinctOrderBy : Bool := true
  /-- `UPDATE target SET ... FROM other WHERE ...`. -/
  updateFrom : Bool := false
  /-- `DELETE alias FROM target alias JOIN ...` and the same for `UPDATE`. -/
  multiTableDml : Bool := false
  /-- `SET (a, b) = (SELECT ...)`. -/
  updateSetRow : Bool := false
  upsert : Bool := true
  merge : Bool := false
  mergeBySource : Bool := false
  multiInsert : Bool := false
  crossJoin : Bool := true
  applyJoin : Bool := false
  exceptAll : Bool := true
  intersectAll : Bool := true
  groupingSets : Bool := true
  /-- A condition can be used as a value. -/
  booleanType : Bool := false
  distinctFrom : Bool := true
  cte : Bool := true
  recursiveCteKeyword : Bool := true
  truncate : Bool := true
  dropTableIfExists : Bool := true
  /-- A query block can be named by a comment. -/
  namedQueryBlock : Bool := false
  /-- The longest list of values; unlimited if absent. -/
  maxInListValues : Option Nat := none
  deriving DecidableEq, Repr, Inhabited

/-- Whether a row offset can be written next to the given row limit. -/
def Capabilities.allowsSkip (c : Capabilities) (take skip : Option Scalar) : Bool :=
  skip.isNone || c.skip || (c.skipIfTake && take.isSome)

/-! ## Conventions -/

/-- A supported dialect. -/
inductive Dialect where
  | generic | sqlServer | postgreSql | sqlite | db2
  deriving DecidableEq, Repr, Inhabited

/-- How identifiers are quoted. -/
inductive Quoting where
  | none
  /-- `[name]`. -/
  | brackets
  /-- `"name"`. -/
  | doubleQuotes
  /-- `"name"` unless the name is plain lower case. -/
  | doubleQuotesWhenNeeded
  deriving DecidableEq, Repr, Inhabited

/-- Where the values a data modification hands back are named. -/
inductive OutputStyle where
  | unsupported
  /-- `OUTPUT` between the target and the data. -/
  | output
  /-- `RETURNING` at the end. -/
  | returning
  deriving DecidableEq, Repr, Inhabited

/-- How a generated identity is read back. -/
inductive IdentityStyle where
  | unsupported
  /-- A text appended to the insert. -/
  | sameCommand (sql : String)
  /-- `RETURNING` the identity field. -/
  | returning
  /-- A command of its own after the insert. -/
  | secondCommand (sql : String)
  deriving DecidableEq, Repr, Inhabited

/-- How an upsert is written. -/
inductive UpsertStyle where
  | merge | onConflict | updateThenInsert
  deriving DecidableEq, Repr, Inhabited

namespace Dialect

/-- Every dialect. -/
def all : List Dialect := [generic, sqlServer, postgreSql, sqlite, db2]

/-- The dialect's name. -/
def name : Dialect → String
  | generic => "Generic"
  | sqlServer => "SqlServer"
  | postgreSql => "PostgreSQL"
  | sqlite => "SQLite"
  | db2 => "DB2"

/-- What the dialect can express. -/
def capabilities : Dialect → Capabilities
  | generic => {}
  | sqlServer =>
    { skipIfTake := false, updateFrom := true, multiTableDml := true, merge := true
      mergeBySource := true, applyJoin := true, exceptAll := false, intersectAll := false
      distinctFrom := false, recursiveCteKeyword := false }
  | postgreSql =>
    { updateFrom := true, updateSetRow := true, booleanType := true, applyJoin := true }
  | sqlite =>
    { updateFrom := true, exceptAll := false, intersectAll := false, groupingSets := false
      truncate := false }
  | db2 =>
    { pagingWithDistinct := false, distinctOrderBy := false, merge := true
      dropTableIfExists := false, recursiveCteKeyword := false }

/-! ## Names and parameters -/

/-- How identifiers are quoted. -/
def quoting : Dialect → Quoting
  | generic => .none
  | sqlServer | sqlite => .brackets
  | postgreSql | db2 => .doubleQuotesWhenNeeded

/-- The character before a parameter's name. -/
def parameterPrefix : Dialect → Char
  | postgreSql => ':'
  | _ => '@'

/-- Written between the target of an update or a delete and its alias. -/
def dmlAliasKeyword : Dialect → String
  | sqlite => " AS "
  | _ => " "

/-- Updates and deletes over several tables name their target by its alias. -/
def dmlTargetIsAlias : Dialect → Bool
  | sqlServer => true
  | _ => false

/-! ## Paging -/

/-- The row limit written right after `SELECT`. -/
def firstFormat (d : Dialect) (q : Query) : Option String :=
  match d with
  | sqlServer => if q.skip.isNone then some "TOP ({0})" else none
  | _ => none

/-- The row limit written at the end. -/
def limitFormat (d : Dialect) (q : Query) : Option String :=
  match d with
  | sqlServer => if q.skip.isSome && q.take.isSome then some "FETCH NEXT {0} ROWS ONLY" else none
  | sqlite =>
    if q.take.isSome then some "LIMIT {0}"
    else if q.skip.isSome then some "LIMIT -1"
    else none
  | db2 => if q.take.isSome then some "FETCH FIRST {0} ROWS ONLY" else none
  | _ => if q.take.isSome then some "LIMIT {0}" else none

/-- The row offset written at the end. -/
def offsetFormat (d : Dialect) (q : Query) : Option String :=
  match d with
  | sqlServer => if q.skip.isSome then some "OFFSET {0} ROWS" else none
  | db2 => none
  | _ => if q.skip.isSome then some "OFFSET {0}" else none

/-- The row offset comes before the row limit. -/
def offsetFirst : Dialect → Bool
  | sqlServer => true
  | _ => false

/-- A row limit after `SELECT` may be followed by `PERCENT` and `WITH TIES`. -/
def takeHints : Dialect → Bool
  | sqlServer => true
  | _ => false

/-! ## Literals -/

/-- A truth value. -/
def booleanLiteral (d : Dialect) (value : Bool) : String :=
  match d with
  | postgreSql => if value then "True" else "False"
  | _ => if value then "1" else "0"

/-- Written before the quote of a text literal. -/
def textPrefix (d : Dialect) (type : SqlType) : String :=
  match d, type.kind with
  | sqlServer, .nChar | sqlServer, .nVarChar | sqlServer, .nText | sqlServer, .undefined => "N"
  | _, _ => ""

/-- Two hexadecimal digits for each byte, in upper case. -/
def hex (bytes : List UInt8) : String :=
  (Text.hexOf bytes).map Char.toUpper

/-- A byte string. -/
def binaryLiteral (d : Dialect) (bytes : List UInt8) : String :=
  match d with
  | sqlServer => "0x" ++ hex bytes
  | postgreSql => "'\\x" ++ hex bytes ++ "'::bytea"
  | db2 => "BX'" ++ hex bytes ++ "'"
  | _ => "X'" ++ hex bytes ++ "'"

/-- Write every occurrence of a character twice. -/
def doubled (mark : Char) (s : String) : String :=
  String.ofList (s.toList.flatMap fun c => if c == mark then [c, c] else [c])

/-- A text in quotes. -/
def quoted (s : String) : String :=
  "'" ++ doubled '\'' s ++ "'"

/-- The literal form of a constant; infinite numbers, lists and records have none. -/
def literal? (d : Dialect) (value : Constant) (type : SqlType) : Option String :=
  match value with
  | .null => some "NULL"
  | .boolean b => some (d.booleanLiteral b)
  | .integer i => some (toString i)
  | .float f => if f.isFinite then some (Text.FloatStyle.literal.text f) else none
  | .decimal text => some text
  | .text s => some (d.textPrefix type ++ quoted s)
  | .binary bytes => some (d.binaryLiteral bytes)
  | .date value => some ("'" ++ value.text ++ "'")
  | .time value => some ("'" ++ value.text ++ "'")
  | .timestamp value => some ("'" ++ value.text ++ "'")
  | .list _ | .record _ => none

/-! ## Types -/

/-- The name a kind has where the dialect has no other. -/
def defaultTypeName : TypeKind → String
  | .undefined => ""
  | .boolean => "Bit"
  | .guid => "UniqueIdentifier"
  | .byte => "TinyInt"
  | .sByte | .int16 => "SmallInt"
  | .int32 | .uInt16 => "Int"
  | .int64 | .uInt32 => "BigInt"
  | .uInt64 => "Decimal"
  | .single => "Real"
  | .double => "Float"
  | kind => kind.name

/-- A type name with its length, or with its precision and scale. -/
def withFacets (name : String) (type : SqlType) : String :=
  let byPrecision :=
    match type.precision with
    | some precision =>
      name ++ "(" ++ toString precision ++ ", " ++ toString (type.scale.getD 0) ++ ")"
    | none => name
  match type.length with
  | some length => if length > 0 then name ++ "(" ++ toString length ++ ")" else byPrecision
  | none => byPrecision

/-- The name of a type without its facets. -/
def kindName (d : Dialect) (kind : TypeKind) : String :=
  match d with
  | postgreSql =>
    match kind with
    | .boolean => "Boolean"
    | .byte | .sByte | .int16 => "SmallInt"
    | .double => "Double Precision"
    | .nChar => "Char"
    | .nVarChar => "VarChar"
    | .nText => "Text"
    | .binary | .varBinary | .blob => "Bytea"
    | .guid => "Uuid"
    | .dateTime | .dateTime2 | .smallDateTime => "TimeStamp"
    | .dateTimeOffset => "TimeStampTZ"
    | .money | .smallMoney => "Money"
    | kind => defaultTypeName kind
  | db2 =>
    match kind with
    | .boolean | .byte | .sByte => "SmallInt"
    | .double => "Double"
    | .binary | .varBinary => "Blob"
    | .dateTime | .dateTime2 | .smallDateTime => "Timestamp"
    | .guid => "Char(16) For Bit Data"
    | kind => defaultTypeName kind
  | _ => defaultTypeName kind

/-- The name of a type. -/
def typeName (d : Dialect) (type : SqlType) : String :=
  match d with
  | sqlServer =>
    match type.kind with
    | .varChar | .nVarChar | .varBinary =>
      if type.length.getD 0 == 0 then defaultTypeName type.kind ++ "(Max)"
      else withFacets (defaultTypeName type.kind) type
    | kind => withFacets (defaultTypeName kind) type
  | sqlite => if type.kind.isInteger then "INTEGER" else withFacets (d.kindName type.kind) type
  | _ => withFacets (d.kindName type.kind) type

/-! ## Data modification and tables -/

/-- Marks an identity column of a new table. -/
def identityColumn : Dialect → Option String
  | sqlServer => some "IDENTITY"
  | postgreSql => some "GENERATED BY DEFAULT AS IDENTITY"
  | db2 => some "GENERATED ALWAYS AS IDENTITY"
  | _ => none

/-- How a generated identity is read back. -/
def identityStyle : Dialect → IdentityStyle
  | generic => .unsupported
  | sqlServer => .sameCommand "SELECT SCOPE_IDENTITY()"
  | postgreSql => .returning
  | sqlite => .secondCommand "SELECT last_insert_rowid()"
  | db2 => .secondCommand "SELECT IDENTITY_VAL_LOCAL() FROM SYSIBM.SYSDUMMY1"

/-- Where output values are named. -/
def outputStyle : Dialect → OutputStyle
  | sqlServer => .output
  | postgreSql | sqlite => .returning
  | _ => .unsupported

/-- The name of the table of new or old rows in an output clause. -/
def pseudoTable (d : Dialect) (kind : TableKind) : String :=
  match d, kind with
  | sqlServer, .deleted => "DELETED"
  | sqlServer, _ => "INSERTED"
  | _, .deleted => "OLD"
  | _, _ => "NEW"

/-- How an upsert is written. -/
def upsertStyle : Dialect → UpsertStyle
  | generic => .updateThenInsert
  | sqlServer | db2 => .merge
  | postgreSql | sqlite => .onConflict

/-- A table with one row, for selects without a source. -/
def dummyTable : Dialect → Option String
  | db2 => some "SYSIBM.SYSDUMMY1"
  | _ => none

/-- Ends a merge. -/
def mergeTerminator : Dialect → String
  | sqlServer => ";"
  | _ => ""

/-- Written after the name of a truncated table. -/
def truncateSuffix (d : Dialect) (resetIdentity : Bool) : String :=
  match d with
  | postgreSql => if resetIdentity then " RESTART IDENTITY" else ""
  | db2 => if resetIdentity then " RESTART IDENTITY IMMEDIATE" else " IMMEDIATE"
  | _ => ""

/-- A command that resets a table's identity, where truncating does not. -/
def resetIdentityCommand (d : Dialect) (table : String) : Option String :=
  match d with
  | sqlite => some ("UPDATE SQLITE_SEQUENCE SET SEQ=0 WHERE NAME=" ++ quoted table)
  | _ => none

/-! ## Search patterns and operators -/

/-- The characters with a meaning of their own in a `LIKE` pattern, the escape included. -/
def likeSpecials : Dialect → List Char
  | sqlServer => ['%', '_', '~', '[']
  | _ => ['%', '_', '~']

/-- The escape character of `LIKE` patterns. -/
def likeEscape : Char := '~'

/-- The operator that joins texts. -/
def concatOperator : Dialect → BinaryOperator
  | sqlServer => .add
  | _ => .concat

/-- Conversions to the type a value already has are kept. -/
def keepsSameTypeConversion : Dialect → Bool
  | sqlite => true
  | _ => false

end Dialect

end SqlCompiler
