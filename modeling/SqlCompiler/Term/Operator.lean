import SqlCompiler.Sql.Query

/-!
# Operators of query terms

Main definitions:

- `SequenceOperator`: what a query term applies to a sequence, with `name` and `text`.
- `TermOperator`: the infix operators of terms.
-/

namespace SqlCompiler

/-- An operator applied to a sequence.  The comments list the arguments after the sequence;
`f(x)` stands for a function of one argument. -/
inductive SequenceOperator where
  /-- A condition `f(x)`. -/
  | filter
  /-- A selector `f(x)`. -/
  | select
  | orderBy | orderByDescending | thenBy | thenByDescending
  /-- A key `f(x)`, then perhaps an element `f(x)` and a result `f(key, group)`. -/
  | groupBy
  /-- Another sequence, a key `f(outer)`, a key `f(inner)` and a result `f(outer, inner)`. -/
  | join (kind : JoinKind)
  | take | skip | elementAt | distinct
  | first | firstOrDefault | single | singleOrDefault
  | count | longCount | min | max | sum | average
  | any | all
  /-- An item; the sequence may be a list. -/
  | contains
  | union | concat | except | exceptAll | intersect | intersectAll
  | defaultIfEmpty
  | ofType (typeName : String)
  | asSubquery | removeOrderBy
  | tagQuery (tag : String)
  | queryName (name : String)
  | queryHint (hint : String)
  | asQueryable
  /-- Of a table: a setter `f()`.  Of a sequence: a table and a setter `f(row)`. -/
  | insert
  | insertWithIdentity
  /-- Begins a chain of values; in a multi-table insert a table and a setter `f(row)`. -/
  | into
  /-- A member `f(x)` and its value. -/
  | value
  /-- An insert setter `f()`, an update setter `f(target)`, then perhaps a key `f(target)`. -/
  | insertOrUpdate
  /-- A setter `f(x)`, perhaps after a condition `f(x)`. -/
  | update
  /-- A member `f(x)` and its value. -/
  | set
  | delete
  | merge | mergeUsing
  /-- A condition `f(target, source)`, or a key `f(target)` and a key `f(source)`. -/
  | mergeOn
  | insertWhenNotMatched | updateWhenMatched | updateWhenMatchedThenDelete | deleteWhenMatched
  | updateWhenNotMatchedBySource | deleteWhenNotMatchedBySource
  | multiInsert
  /-- A condition `f(row)`, a table and a setter `f(row)`. -/
  | insertWhen
  | insertElse
  | insertAll | insertFirst
  | createTable
  | dropTable (ifExists : Bool)
  | truncateTable (resetIdentity : Bool)
  deriving DecidableEq, Repr, Inhabited

namespace SequenceOperator

/-- The operator's name in method syntax. -/
def name : SequenceOperator → String
  | filter => "Where"
  | select => "Select"
  | orderBy => "OrderBy"
  | orderByDescending => "OrderByDescending"
  | thenBy => "ThenBy"
  | thenByDescending => "ThenByDescending"
  | groupBy => "GroupBy"
  | join .left => "LeftJoin"
  | join .right => "RightJoin"
  | join .full => "FullJoin"
  | join _ => "Join"
  | take => "Take"
  | skip => "Skip"
  | elementAt => "ElementAt"
  | distinct => "Distinct"
  | first => "First"
  | firstOrDefault => "FirstOrDefault"
  | single => "Single"
  | singleOrDefault => "SingleOrDefault"
  | count => "Count"
  | longCount => "LongCount"
  | min => "Min"
  | max => "Max"
  | sum => "Sum"
  | average => "Average"
  | any => "Any"
  | all => "All"
  | contains => "Contains"
  | union => "Union"
  | concat => "Concat"
  | except => "Except"
  | exceptAll => "ExceptAll"
  | intersect => "Intersect"
  | intersectAll => "IntersectAll"
  | defaultIfEmpty => "DefaultIfEmpty"
  | ofType _ => "OfType"
  | asSubquery => "AsSubQuery"
  | removeOrderBy => "RemoveOrderBy"
  | tagQuery _ => "TagQuery"
  | queryName _ => "QueryName"
  | queryHint _ => "QueryHint"
  | asQueryable => "AsQueryable"
  | insert => "Insert"
  | insertWithIdentity => "InsertWithIdentity"
  | into => "Into"
  | value => "Value"
  | insertOrUpdate => "InsertOrUpdate"
  | update => "Update"
  | set => "Set"
  | delete => "Delete"
  | merge => "Merge"
  | mergeUsing => "Using"
  | mergeOn => "On"
  | insertWhenNotMatched => "InsertWhenNotMatched"
  | updateWhenMatched => "UpdateWhenMatched"
  | updateWhenMatchedThenDelete => "UpdateWhenMatchedThenDelete"
  | deleteWhenMatched => "DeleteWhenMatched"
  | updateWhenNotMatchedBySource => "UpdateWhenNotMatchedBySource"
  | deleteWhenNotMatchedBySource => "DeleteWhenNotMatchedBySource"
  | multiInsert => "MultiInsert"
  | insertWhen => "When"
  | insertElse => "Else"
  | insertAll => "InsertAll"
  | insertFirst => "InsertFirst"
  | createTable => "CreateTable"
  | dropTable _ => "DropTable"
  | truncateTable _ => "TruncateTable"

/-- The operator as it is written in a term. -/
def text : SequenceOperator → String
  | ofType typeName => "OfType<" ++ typeName ++ ">"
  | tagQuery tag => "TagQuery(\"" ++ tag ++ "\")"
  | queryName name => "QueryName(\"" ++ name ++ "\")"
  | queryHint hint => "QueryHint(\"" ++ hint ++ "\")"
  | operator => operator.name

/-- Operators that fold a sequence into one value. -/
def isAggregate : SequenceOperator → Bool
  | count | longCount | min | max | sum | average => true
  | _ => false

/-- Operators that pick one element. -/
def isElement : SequenceOperator → Bool
  | first | firstOrDefault | single | singleOrDefault => true
  | _ => false

/-- Operators whose result is a sequence again. -/
def returnsSequence : SequenceOperator → Bool
  | filter | select | orderBy | orderByDescending | thenBy | thenByDescending | groupBy | join _
  | take | skip | distinct | union | concat | except | exceptAll | intersect | intersectAll
  | defaultIfEmpty | ofType _ | asSubquery | removeOrderBy | tagQuery _ | queryName _
  | queryHint _ | asQueryable => true
  | _ => false

end SequenceOperator

/-- Infix operators of terms. -/
inductive TermOperator where
  | add | subtract | multiply | divide | modulo | bitAnd | bitOr | bitXor
  | equal | notEqual | greater | greaterOrEqual | less | lessOrEqual
  | and | or | coalesce
  deriving DecidableEq, Repr, Inhabited

namespace TermOperator

/-- Every operator. -/
def all : List TermOperator :=
  [add, subtract, multiply, divide, modulo, bitAnd, bitOr, bitXor, equal, notEqual, greater,
    greaterOrEqual, less, lessOrEqual, and, or, coalesce]

/-- The operator's sign. -/
def sign : TermOperator → String
  | add => "+"
  | subtract => "-"
  | multiply => "*"
  | divide => "/"
  | modulo => "%"
  | bitAnd => "&"
  | bitOr => "|"
  | bitXor => "^"
  | equal => "=="
  | notEqual => "!="
  | greater => ">"
  | greaterOrEqual => ">="
  | less => "<"
  | lessOrEqual => "<="
  | and => "&&"
  | or => "||"
  | coalesce => "??"

/-- The comparison an operator makes. -/
def comparison? : TermOperator → Option Comparison
  | equal => some .equal
  | notEqual => some .notEqual
  | greater => some .greater
  | greaterOrEqual => some .greaterOrEqual
  | less => some .less
  | lessOrEqual => some .lessOrEqual
  | _ => none

/-- The operator on values that an operator of terms stands for. -/
def arithmetic? : TermOperator → Option BinaryOperator
  | add => some .add
  | subtract => some .subtract
  | multiply => some .multiply
  | divide => some .divide
  | modulo => some .modulo
  | bitAnd => some .bitAnd
  | bitOr => some .bitOr
  | bitXor => some .bitXor
  | _ => none

/-- Operators on truth values. -/
def isLogical : TermOperator → Bool
  | and | or => true
  | _ => false

end TermOperator

end SqlCompiler
