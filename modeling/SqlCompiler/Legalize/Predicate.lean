import SqlCompiler.Legalize.Scalar
import SqlCompiler.Provider.Basic
import SqlCompiler.Provider.Dialect
import SqlCompiler.Sql.Traversal
import SqlCompiler.Store.Typing

/-!
# Legal predicates

Comparisons of constants are decided while a statement is compiled.  A comparison with an
absent constant becomes a test for absence, and one that treats absent operands as values is
spelled out.

A test that a text starts with, ends with or contains another one becomes a `LIKE` whose
pattern has its special characters escaped.

Main definitions:

- `foldComparison?`: the outcome of a comparison of two constants.
- `Store.legalComparison`: the legal form of a comparison.
- `distinctByCase`: `IS [NOT] DISTINCT FROM` by means of `CASE`.
- `escapeLike`: a pattern text with its special characters escaped.
- `escapeLikeScalar`: the same for a pattern only the database knows.
- `Dialect.likeSearch`: a search as `LIKE`.
- `Dialect.legalSearch`: the form a dialect gives a search; where `LIKE` ignores case, a
  case-sensitive search also compares the matched part.
- `Store.legalPredicate`: the legal form of a predicate whose parts are legal.
- `Store.legalizerWithin`: the transformer that legalizes scalars and predicates.  A predicate that
  becomes a condition has its branches legalized again.
-/

namespace SqlCompiler

/-! ## Comparisons -/

/-- The order of two constants of one kind, where constants have one. -/
def Constant.order? : Constant → Constant → Option Ordering
  | .integer a, .integer b => some (compare a b)
  | .text a, .text b => some (compare a b)
  | .boolean a, .boolean b => some (compare a b)
  | _, _ => none

/-- Whether a comparison holds for operands in the given order. -/
def Comparison.holds? (op : Comparison) (order : Ordering) : Option Bool :=
  match op with
  | .equal => some (order == .eq)
  | .notEqual => some (order != .eq)
  | .greater => some (order == .gt)
  | .greaterOrEqual | .notLess => some (order != .lt)
  | .less => some (order == .lt)
  | .lessOrEqual | .notGreater => some (order != .gt)
  | .overlaps => none

/-- The outcome of a comparison of two constants. -/
def foldComparison? (left : Scalar) (op : Comparison) (right : Scalar) : Option Bool := do
  let a ← left.asValue?
  let b ← right.asValue?
  op.holds? (← a.order? b)

/-- Comparison that takes absence for a value: both operands may be absent. -/
def nullAwareComparison (left : Scalar) (op : Comparison) (right : Scalar)
    (leftNull rightNull : Bool) : Predicate :=
  let plain := Predicate.comparison left op right
  let start := Condition.ofPredicate plain
  let absent (e : Scalar) := Predicate.isNull e false
  let present (e : Scalar) := Predicate.isNull e true
  match op == .notEqual, leftNull, rightNull with
  | false, true, true =>
    .nested ((start.disjoin (absent left)).conjoin (absent right))
  | true, true, true =>
    .nested ((((start.disjoin (absent left)).conjoin (present right)).disjoin
      (present left)).conjoin (absent right))
  | true, true, false => .nested (start.disjoin (absent left))
  | true, false, true => .nested (start.disjoin (absent right))
  | _, _, _ => plain

/-- The legal form of a comparison. -/
def Store.legalComparison (s : Store) (left : Scalar) (op : Comparison) (right : Scalar)
    (withNull : Option Bool) : Predicate :=
  match foldComparison? left op right with
  | some outcome => .constant outcome
  | none =>
    if op.isEquality && right.isNullConstant then .isNull left (op == .notEqual)
    else if op.isEquality && left.isNullConstant then .isNull right (op == .notEqual)
    else if withNull != some true || !op.isEquality then .compare left op right none
    else nullAwareComparison left op right (s.canBeNull left) (s.canBeNull right)

/-- `CASE WHEN left = right OR left IS NULL AND right IS NULL THEN 0 ELSE 1 END` compared with
1, or with 0 for the negation. -/
def distinctByCase (left right : Scalar) (negated : Bool) : Predicate :=
  let same := ((Condition.ofPredicate (.equal left right)).disjoin (.isNull left false)).conjoin
    (.isNull right false)
  .equal (.call "CASE" [.condition same, .int 0, .int 1] .int32) (.int (if negated then 0 else 1))

/-! ## Dates stored as text -/

/-- A conversion, or a call that converts to a date or a timestamp. -/
def Scalar.isConversion : Scalar → Bool
  | .convert .. => true
  | .function call => Text.equalAscii call.name "DateTime" || Text.equalAscii call.name "Date"
  | _ => false

/-- Convert both sides of a comparison of dates or times to their own types, by `convert`.
Sides that are conversions already, and comparisons with an absent constant, stay. -/
def Store.legalDateComparison (s : Store) (convert : Scalar → Scalar) (p : Predicate) : Predicate :=
  match p with
  | .compare left op right withNull =>
    let leftType := s.typeOf left
    let rightType := s.typeOf right
    let isDate := leftType.kind.isDateTime || rightType.kind.isDateTime
    if !isDate || left.isNullConstant || right.isNullConstant then p
    else
      let wrap (e : Scalar) (type : SqlType) : Scalar :=
        if e.isConversion then e else convert (.convert type type e true)
      .compare (wrap left leftType) op (wrap right rightType) withNull
  | _ => p

/-! ## Search strings -/

/-- A pattern text with every special character escaped. -/
def escapeLike (specials : List Char) (escape : Char) (s : String) : String :=
  String.ofList (s.toList.flatMap fun c => if specials.contains c then [escape, c] else [c])

/-- Whether a text holds a special character. -/
def hasSpecials (specials : List Char) (s : String) : Bool :=
  s.toList.any specials.contains

/-- A pattern text with the wildcards of the search around it. -/
def SearchKind.decorate (kind : SearchKind) (s : String) : String :=
  match kind with
  | .startsWith => s ++ "%"
  | .endsWith => "%" ++ s
  | .contains => "%" ++ s ++ "%"

/-- A pattern scalar with the wildcards of the search around it. -/
def SearchKind.decorateScalar (kind : SearchKind) (joiner : BinaryOperator) (e : Scalar) :
    Scalar :=
  let join (a b : Scalar) : Scalar := .binary a joiner b .nVarChar
  match kind with
  | .startsWith => join e (.text "%")
  | .endsWith => join (.text "%") e
  | .contains => join (join (.text "%") e) (.text "%")

/-- `Replace` calls that escape a pattern.  The escape character goes first, so that the ones
put before the other characters are left alone. -/
def escapeLikeScalar (specials : List Char) (escape : Char) (pattern : Scalar) : Scalar :=
  (specials.filter (· == escape) ++ specials.filter (· != escape)).foldl
    (fun pattern c =>
      .call "Replace"
        [pattern, .text (String.singleton c), .text (String.ofList [escape, c])] .nVarChar)
    pattern

namespace Dialect

/-- A search pattern for `LIKE`, and whether it needs the escape character. -/
def likePattern (d : Dialect) (kind : SearchKind) (pattern : Scalar) : Scalar × Bool :=
  let decorated (s : String) : String := kind.decorate (escapeLike d.likeSpecials likeEscape s)
  let computed : Scalar × Bool :=
    (kind.decorateScalar d.concatOperator (escapeLikeScalar d.likeSpecials likeEscape pattern),
      true)
  match pattern with
  | .value ⟨type, .text s⟩ => (.value ⟨type, .text (decorated s)⟩, hasSpecials d.likeSpecials s)
  | .parameter p =>
    match p.value with
    | .text s =>
      (.parameter { p with value := .text (decorated s) }, hasSpecials d.likeSpecials s)
    | _ => computed
  | _ => computed

/-- A search as `LIKE`. -/
def likeSearch (d : Dialect) (operand : Scalar) (kind : SearchKind) (pattern : Scalar)
    (negated : Bool) : Predicate :=
  let (pattern, isEscaped) := d.likePattern kind pattern
  .like operand pattern (if isEscaped then some (.text (String.singleton likeEscape)) else none)
    negated

end Dialect

/-- Compare the part of a text a search matches, case included. -/
def caseSensitiveCheck (kind : SearchKind) (operand pattern : Scalar) : Predicate :=
  let length : Scalar := .call "Length" [pattern] .int32
  match kind with
  | .startsWith => .equal (.call "Substr" [operand, .int 1, length] .nVarChar) pattern
  | .endsWith =>
    .equal (.call "Substr" [operand, .raw "-{0}" [length] .int32 .unary] .nVarChar) pattern
  | .contains => .comparison (.call "InStr" [operand, pattern] .int32) .greater (.int 0)

/-- Negate the last branch. -/
def negateLast : List Branch → List Branch
  | [] => []
  | [last] => [{ last with negated := true }]
  | first :: rest => first :: negateLast rest

/-- The form a dialect gives a search; any other predicate stays. -/
def Dialect.legalSearch (d : Dialect) (p : Predicate) : Predicate :=
  match p with
  | .search operand kind pattern caseSensitive negated =>
    let like := d.likeSearch operand kind pattern negated
    if d == .sqlite && caseSensitive then
      let check := caseSensitiveCheck kind operand pattern
      let start := Condition.ofPredicate like
      .nested (if negated then ⟨negateLast (start.disjoin check).branches⟩
        else start.conjoin check)
    else like
  | _ => p

/-! ## Predicates and the legalizing transformer -/

namespace Store

/-- A truth value that has to be compared to stand as a predicate where the database has no
truth values. -/
def isBooleanOperand (s : Store) (e : Scalar) : Bool :=
  match e with
  | .field _ | .column _ | .parameter _ => (s.typeOf e).kind == .boolean
  | _ => false

/-- The legal form shared by the dialects. -/
def plainLegalPredicate (s : Store) (p : Provider) (predicate : Predicate) : Predicate :=
  match predicate with
  | .compare left op right withNull => s.legalComparison left op right withNull
  | .search .. => p.dialect.legalSearch predicate
  | .isDistinct left right negated =>
    if p.rules.distinctFrom then predicate else distinctByCase left right negated
  | .scalar e _ =>
    if !p.rules.booleanType && s.isBooleanOperand e then
      .equal e (.constant (.boolean true))
    else predicate
  | .notScalar e true _ =>
    if !p.rules.booleanType && s.isBooleanOperand e then
      .equal e (.constant (.boolean false))
    else predicate
  | other => other

/-- The legal form of a predicate whose parts are legal. -/
def legalPredicate (s : Store) (p : Provider) (predicate : Predicate) : Predicate :=
  if p.dialect == .sqlite then
    s.plainLegalPredicate p (s.legalDateComparison (s.legalScalar p.dialect) predicate)
  else s.plainLegalPredicate p predicate

/-- The transformer that legalizes expressions, entering conditions it makes at most `fuel` deep. -/
def legalizerWithin (s : Store) (p : Provider) : Nat → Transformer
  | 0 => ⟨s.legalScalar p.dialect, s.legalPredicate p⟩
  | fuel + 1 =>
    { onScalar := s.legalScalar p.dialect
      onPredicate := fun predicate =>
        match s.legalPredicate p predicate with
        | .nested c => .nested ((s.legalizerWithin p fuel).condition c)
        | other => other }

end Store

end SqlCompiler
