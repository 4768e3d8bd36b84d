import SqlCompiler.Exchange.Query
import SqlCompiler.Term.Basic

/-!
# Terms as JSON

A term is a list that begins with the name of its kind.  An operator is its name, or a list of
its name and what it carries.

Main definitions:

- `readOperator`, `writeOperator`.
- `readTerm`, `writeTerm`.
-/

namespace SqlCompiler.Exchange

/-! ## Operators -/

/-- The operators that carry nothing. -/
def plainOperators : List SequenceOperator :=
  [.filter, .select, .orderBy, .orderByDescending, .thenBy, .thenByDescending, .groupBy, .take,
    .skip, .elementAt, .distinct, .first, .firstOrDefault, .single, .singleOrDefault, .count,
    .longCount, .min, .max, .sum, .average, .any, .all, .contains, .union, .concat, .except,
    .exceptAll, .intersect, .intersectAll, .defaultIfEmpty, .asSubquery, .removeOrderBy,
    .asQueryable, .insert, .insertWithIdentity, .into, .value, .insertOrUpdate, .update, .set,
    .delete, .merge, .mergeUsing, .mergeOn, .insertWhenNotMatched, .updateWhenMatched,
    .updateWhenMatchedThenDelete, .deleteWhenMatched, .updateWhenNotMatchedBySource,
    .deleteWhenNotMatchedBySource, .multiInsert, .insertWhen, .insertElse, .insertAll,
    .insertFirst, .createTable]

/-- The operators that carry nothing by their names. -/
def operatorNames : List (String × SequenceOperator) :=
  plainOperators.map fun operator => (operator.name, operator)

/-- An operator. -/
def readOperator (j : Json) : Decode SequenceOperator := do
  match j with
  | .list (.text name :: carried :: _) =>
    match name with
    | "Join" => return .join (← readTag joinKinds carried)
    | "OfType" => return .ofType (← readText carried)
    | "TagQuery" => return .tagQuery (← readText carried)
    | "QueryName" => return .queryName (← readText carried)
    | "QueryHint" => return .queryHint (← readText carried)
    | "DropTable" => return .dropTable (← readFlag carried)
    | "TruncateTable" => return .truncateTable (← readFlag carried)
    | other => .error ("unknown operator " ++ other)
  | _ => readTag operatorNames j

/-- An operator. -/
def writeOperator : SequenceOperator → Json
  | .join kind => .list [.text "Join", writeTag joinKinds kind]
  | .ofType name => .list [.text "OfType", .text name]
  | .tagQuery tag => .list [.text "TagQuery", .text tag]
  | .queryName name => .list [.text "QueryName", .text name]
  | .queryHint hint => .list [.text "QueryHint", .text hint]
  | .dropTable ifExists => .list [.text "DropTable", .bool ifExists]
  | .truncateTable reset => .list [.text "TruncateTable", .bool reset]
  | operator => .text operator.name

/-- Infix operators by their signs. -/
def termOperators : List (String × TermOperator) :=
  TermOperator.all.map fun operator => (operator.sign, operator)

/-! ## Terms -/

/-- A term nested at most `fuel` deep. -/
def readTermWithin : Nat → Json → Decode Term
  | 0, _ => .error "term expected"
  | fuel + 1, j => do
    let part (i : Nat) : Json := j.item i
    let term (i : Nat) : Decode Term := readTermWithin fuel (part i)
    let terms (i : Nat) : Decode (List Term) := readList (readTermWithin fuel) (part i)
    let members (i : Nat) : Decode (List (String × Term)) :=
      readList (readPair readText (readTermWithin fuel)) (part i)
    match ← readText (part 0) with
    | "const" => return .constant (← readConstant (part 1))
    | "parameter" => return .parameter (← readText (part 1)) (← readConstant (part 2))
    | "p" => return .bound (← readText (part 1))
    | "table" => return .table (← readText (part 1))
    | "m" => return .member (← term 1) (← readText (part 2))
    | "call" => return .call (← readOperator (part 1)) (← terms 2)
    | "fn" => return .function (← readText (part 1)) (← terms 2)
    | "lam" => return .lambda (← readList readText (part 1)) (← term 2)
    | "bin" => return .binary (← readTag termOperators (part 1)) (← term 2) (← term 3)
    | "not" => return .not (← term 1)
    | "neg" => return .negate (← term 1)
    | "quote" => return .quote (← term 1)
    | "cond" => return .conditional (← term 1) (← term 2) (← term 3)
    | "conv" => return .convert (← term 1) (← readKind (part 2))
    | "new" => return .record (← members 1)
    | "init" => return .entity (← readText (part 1)) (← members 2)
    | other => .error ("unknown term " ++ other)

/-- A term. -/
def readTerm (j : Json) : Decode Term := readTermWithin j.depth j

mutual

/-- A term. -/
def writeTerm : Term → Json
  | .constant value => .list [.text "const", writeConstant value]
  | .parameter name value => .list [.text "parameter", .text name, writeConstant value]
  | .bound name => .list [.text "p", .text name]
  | .table name => .list [.text "table", .text name]
  | .member owner name => .list [.text "m", writeTerm owner, .text name]
  | .call operator args =>
    .list [.text "call", writeOperator operator, .list (writeTerms args)]
  | .function name args => .list [.text "fn", .text name, .list (writeTerms args)]
  | .lambda params body => .list [.text "lam", .listOf .text params, writeTerm body]
  | .binary operator left right =>
    .list [.text "bin", .text operator.sign, writeTerm left, writeTerm right]
  | .not operand => .list [.text "not", writeTerm operand]
  | .negate operand => .list [.text "neg", writeTerm operand]
  | .quote body => .list [.text "quote", writeTerm body]
  | .conditional test yes no =>
    .list [.text "cond", writeTerm test, writeTerm yes, writeTerm no]
  | .convert operand target => .list [.text "conv", writeTerm operand, .text target.name]
  | .record members => .list [.text "new", .list (writeTermMembers members)]
  | .entity name members =>
    .list [.text "init", .text name, .list (writeTermMembers members)]
termination_by structural t => t

/-- A list of terms. -/
def writeTerms : List Term → List Json
  | [] => []
  | t :: rest => writeTerm t :: writeTerms rest
termination_by structural ts => ts

/-- Named members. -/
def writeTermMembers : List (String × Term) → List Json
  | [] => []
  | (name, t) :: rest => .list [.text name, writeTerm t] :: writeTermMembers rest
termination_by structural ms => ms

end

end SqlCompiler.Exchange
