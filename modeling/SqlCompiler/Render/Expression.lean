import SqlCompiler.Legalize.Predicate
import SqlCompiler.Render.Page
import SqlCompiler.Text.Template

/-!
# Printing expressions

Scalars, predicates and conditions are printed by recursion on them.  What they only refer to
is printed by the printers of the next level: subqueries, columns that stand for their
expression, and predicates that have to be legalized first.

Main definitions:

- `NextLevel`: the printers of what an expression refers to.
- `Scalar.print`, `Predicate.print`, `Condition.print`: an expression under a parent of given
  binding strength; `Scalar.print` alone decides about the parentheses of a scalar.
- `printMembership`: `IN` and `NOT IN` with a list of values.
-/

namespace SqlCompiler

/-- Prints an expression under a parent of given binding strength; the flag asks for a
condition to be printed as a value. -/
abbrev Printer := Precedence → Bool → Print Unit

/-- The printers of what an expression refers to. -/
structure NextLevel where
  /-- A query in the frame it is met in. -/
  query : QueryRef → Print Unit
  /-- A scalar without parentheses. -/
  scalar : Scalar → Printer
  predicate : Predicate → Precedence → Bool → Print Unit

/-! ## Leaves -/

/-- Print a constant. -/
def printConstant (value : Constant) (type : SqlType) : Print Unit := do
  match (← read).dialect.literal? value type with
  | some literal => Print.text literal
  | none => throw (.unusableValue "value has no literal form")

/-- Print a parameter: in place if it is no query parameter and has a literal form. -/
def printParameter (p : Parameter) : Print Unit := do
  let dialect := (← read).dialect
  match if p.isQuery then none else dialect.literal? p.value p.type with
  | some literal => Print.text literal
  | none => Print.write fun w => w.parameter p

/-- Print a field behind its qualifier. -/
def printField (f : FieldRef) : Print Unit := do
  let frame ← read
  let field := frame.store.field f
  let qualifier ← frame.tableQualifier field.table
  Print.write fun w => w.column qualifier field.physicalName

/-- Print every field of a table. -/
def printAllFields (t : TableRef) : Print Unit := do
  match ← (← read).tableQualifier t with
  | some qualifier => Print.text (qualifier ++ ".*")
  | none => Print.text "*"

/-- Print a column: by the alias of its source, or as its expression. -/
def printColumn (next : NextLevel) (c : ColumnRef) : Printer := fun parent asValue => do
  let frame ← read
  let column := frame.store.column c
  match ← frame.columnPlace c with
  | .source aliasName =>
    match column.aliasName with
    | some name => Print.write fun w => w.column (some aliasName) name
    | none => throw (.resolution ("Column of '" ++ aliasName ++ "' has no alias."))
  | .here => next.scalar column.expression parent asValue

/-- The mark that stands for a deferred name until the statement is complete. -/
def DeferredName.mark (name : DeferredName) : String :=
  let kind :=
    match name.kind with
    | .aliasName => "a"
    | .name => "n"
    | .path => "p"
  "$$$" ++ kind ++ ":" ++ name.id ++ "$$$"

/-- Print a mark and remember to fill it in. -/
def printDeferred (name : DeferredName) : Print Unit := do
  Print.text name.mark
  modify fun page => { page with pending := page.pending ++ [name] }

/-- Print a subquery in parentheses, under the alias of the source it is read by. -/
def printSubquery (next : NextLevel) (q : QueryRef) (aliasName : Option String) : Print Unit := do
  Print.line "("
  Print.nestedQuery (next.query q) aliasName true
  Print.indentation
  Print.text ")"

/-- Print a template with its arguments. -/
def printTemplate (template : String) (args : List (Print Unit)) : Print Unit :=
  (Text.pieces template).forM fun piece =>
    match piece with
    | .literal text => Print.text text
    | .argument index =>
      match args[index]? with
      | some act => act
      | none => throw (.untranslatable template ("missing argument " ++ toString index))

/-! ## Function calls -/

/-- Print the branches of a `CASE`: pairs of a condition and a value, then perhaps the value
of `ELSE`. -/
def printCaseBranches : List Printer → Print Unit
  | condition :: value :: rest => do
    Print.indentation
    Print.text "WHEN "
    condition .unknown false
    Print.text " THEN "
    value .unknown true
    Print.newline
    printCaseBranches rest
  | [otherwise] => do
    Print.indentation
    Print.text "ELSE "
    otherwise .unknown true
    Print.newline
  | [] => pure ()

/-- Print a `CASE`. -/
def printCase (args : List Printer) : Print Unit := do
  Print.line "CASE"
  Print.indented (printCaseBranches args)
  Print.indentation
  Print.text "END"

/-- Print values with commas between them. -/
def printList (items : List Printer) : Print Unit :=
  Print.separated ", " (items.map fun item => item .unknown true)

/-- Print a function call whose arguments print as `printers`. -/
def printCall (next : NextLevel) (name : String) (args : List Scalar) (printers : List Printer) :
    Print Unit :=
  match name, args with
  | "CASE", _ => printCase printers
  | "EXISTS", [.query q] => do
    Print.text "EXISTS"
    printSubquery next q none
  | "EXISTS", _ => do
    Print.text "EXISTS("
    printList printers
    Print.text ")"
  | _, _ =>
    if args.isEmpty && Text.equalAscii name "COUNT" then Print.text "Count(*)"
    else do
      Print.text (name ++ "(")
      printList printers
      Print.text ")"

/-! ## Membership in a list -/

/-- Cut a list into parts of the given length; the last one may be shorter. -/
def chunksWithin {α : Type} (size : Nat) : Nat → List α → List (List α)
  | 0, _ => []
  | _, [] => []
  | fuel + 1, items => items.take size :: chunksWithin size fuel (items.drop size)

/-- Cut a list into parts of at most `size`, which is at least 1. -/
def chunks {α : Type} (size : Nat) (items : List α) : List (List α) :=
  chunksWithin (max size 1) items.length items

/-- What follows an operand in a test for absence. -/
def absenceTest (negated : Bool) : String :=
  if negated then " IS NOT NULL" else " IS NULL"

/-- The items of a list with their printers.  A single parameter with a list stands for the
items of that list; with an absent value it stands for no list at all. -/
def listItems? (items : List Scalar) (printers : List Printer) :
    Option (List (Scalar × Printer)) :=
  match items with
  | [.parameter p] =>
    match p.value with
    | .list values =>
      some (values.map fun value =>
        (.value ⟨p.type, value⟩, fun _ _ => printConstant value p.type))
    | .null => none
    | _ => some (items.zip printers)
  | _ => some (items.zip printers)

/-- Compare a key field with the value a record has for it. -/
def printKeyTest (key : FieldRef) (members : Members Constant) : Print Unit := do
  let field := (← read).store.field key
  match Members.get? field.name members with
  | none => throw (.resolution "Cannot create IN expression.")
  | some .null =>
    printField key
    Print.text (absenceTest false)
  | some value =>
    printField key
    Print.text " = "
    printConstant value field.type

/-- Compare the key of a table with the one of a record. -/
def printRecordTest (keys : List FieldRef) (item : Scalar) : Print Unit :=
  match item.evaluate? with
  | some (.record members) =>
    Print.parenthesized (keys.length > 1)
      (Print.separated " AND " (keys.map fun key => printKeyTest key members))
  | _ => throw (.unusableValue "entity lists must hold records")

/-- Compare a whole table with a list of records: one group of key tests for each. -/
def printRecordMembership (t : TableRef) (items : List Scalar) (negated : Bool) : Print Unit := do
  let keys := (← read).store.primaryKeys t
  if keys.isEmpty then throw (.resolution "Cannot create IN expression.")
  if negated then Print.text "NOT "
  Print.parenthesized true (Print.separated " OR " (items.map (printRecordTest keys)))

/-- Print the lists of values a provider accepts, and the test for absence if one is needed. -/
def printValueMembership (operand : Scalar) (printOperand : Print Unit)
    (items : List (Scalar × Printer)) (negated : Bool) (withNull : Option Bool) : Print Unit := do
  let frame ← read
  let present := if withNull.isSome then items.filter fun item => !item.1.isNullConstant else items
  let hasNull := present.length != items.length
  if present.isEmpty then
    printOperand
    Print.text (absenceTest negated)
  else
    let absence : Option String :=
      if hasNull then some (if negated then " AND " else " OR ")
      else if withNull == some true && negated && frame.store.canBeNull operand then some " OR "
      else none
    let size := (frame.options.maxInListValues <|> frame.capabilities.maxInListValues).getD
      present.length
    let lists := chunks size present
    Print.parenthesized (lists.length > 1 || absence.isSome) do
      Print.separated (if negated then " AND " else " OR ") (lists.map fun list => do
        printOperand
        Print.text (if negated then " NOT IN (" else " IN (")
        printList (list.map (·.2))
        Print.text ")")
      match absence with
      | none => pure ()
      | some connective =>
        Print.text connective
        printOperand
        Print.text (absenceTest (negated && hasNull))

/-- Print a test for membership in a list.  Nothing is a member of no list. -/
def printMembership (operand : Scalar) (printOperand : Print Unit)
    (items : Option (List (Scalar × Printer))) (negated : Bool) (withNull : Option Bool) :
    Print Unit :=
  let items := items.getD []
  if items.isEmpty then Print.text (if negated then "1 = 1" else "1 = 0")
  else
    match operand with
    | .tableSource t => printRecordMembership t (items.map (·.1)) negated
    | _ => printValueMembership operand printOperand items negated withNull

/-! ## Scalars, predicates and conditions -/

/-- The binding strength of a scalar as it is going to be printed. -/
def printedPrecedence (e : Scalar) (asValue : Bool) : Print Precedence := do
  let frame ← read
  match e with
  | .condition c =>
    return if asValue && !frame.capabilities.booleanType then .primary else c.precedence
  | .column c =>
    match ← frame.columnPlace c with
    | .here => return (frame.store.column c).expression.precedence
    | .source _ => return e.precedence
  | _ => return e.precedence

/-- Put the text of a scalar in parentheses where its parent asks for it. -/
def enclose (bare : Bool) (e : Scalar) (parent : Precedence) (asValue : Bool) (act : Print Unit) :
    Print Unit := do
  if bare then act
  else
    let precedence ← printedPrecedence e asValue
    Print.parenthesized (precedence.needsWrap parent) act

/-- Whether a multiplication is the negation of its right operand. -/
def isNegation (left : Scalar) (op : BinaryOperator) : Bool :=
  match op, left.asValue? with
  | .multiply, some (.integer (-1)) => true
  | _, _ => false

/-- How the branches of a condition are laid out. -/
structure BranchLayout where
  /-- The binding strength around a branch that is not negated. -/
  strength : Precedence
  wrapLines : Bool
  count : Nat
  /-- The length of the page before the condition. -/
  start : Nat

/-- Print what joins a branch to the next one: a blank while the condition is short or has to
stay on its line, else a line break. -/
def printJoint (layout : BranchLayout) (joinsOr : Bool) : Print Unit := do
  Print.text (if joinsOr then " OR" else " AND")
  let fits := layout.count < 4 && (← Print.length) - layout.start < 50
  if fits || !layout.wrapLines then Print.text " "
  else
    Print.newline
    Print.indentation

/-- Print a predicate the provider has no form for in its legal form, unless it has none. -/
def printLegal (next : NextLevel) (p : Predicate) : Precedence → Bool → Print Unit :=
  fun parent wrapLines => do
    let frame ← read
    match p, frame.store.legalPredicate frame.provider p with
    | .isDistinct .., .isDistinct .. => Print.unsupported "IsDistinctPredicate"
    | .search .., .search .. => Print.unsupported "SearchStringPredicate"
    | _, legal => next.predicate legal parent wrapLines

mutual

/-- Print a scalar. -/
def Scalar.print (next : NextLevel) (bare : Bool) (e : Scalar) : Printer := fun parent asValue =>
  enclose bare e parent asValue <|
    match e with
    | .value v => printConstant v.value v.type
    | .parameter p => printParameter p
    | .field f => printField f
    | .allFields t => printAllFields t
    | .column c => printColumn next c parent asValue
    | .function call => call.print next
    | .binary l op r _ =>
      if isNegation l op then do
        Print.text "-"
        r.print next false .unary true
      else do
        l.print next false op.precedence true
        Print.text (" " ++ op.sign ++ " ")
        r.print next false op.precedence true
    | .raw format args _ precedence =>
      printTemplate format ((scalarPrinters next args).map fun arg => arg precedence true)
    | .convert target _ operand _ => do
      Print.text "CAST("
      operand.print next false .unknown true
      Print.text (" AS " ++ (← read).dialect.typeName target ++ ")")
    | .condition c => do
      let frame ← read
      if c.isEmpty then Print.text (frame.dialect.booleanLiteral true)
      else if asValue && !frame.capabilities.booleanType then
        Print.text "CASE WHEN "
        c.print next .unknown false
        Print.text " THEN 1 ELSE 0 END"
      else c.print next .unknown false
    | .query q => printSubquery next q none
    | .type type => do Print.text ((← read).dialect.typeName type)
    | .row items => do
      Print.text "("
      printList (scalarPrinters next items)
      Print.text ")"
    | .tableSource t => do
      throw (.untranslatable ((← read).store.table t).name.name
        "a table can only be compared, not rendered as a value")
    | .deferredName name => printDeferred name
termination_by structural e

/-- The printers of a list of scalars. -/
def scalarPrinters (next : NextLevel) : List Scalar → List Printer
  | [] => []
  | e :: rest => e.print next false :: scalarPrinters next rest
termination_by structural es => es

/-- Print a function call. -/
def Call.print (next : NextLevel) : Call → Print Unit
  | ⟨name, args, _, _, _⟩ => printCall next name args (scalarPrinters next args)
termination_by structural c => c

/-- Print a predicate. -/
def Predicate.print (next : NextLevel) (p : Predicate) : Precedence → Bool → Print Unit :=
  fun parent wrapLines =>
    let enclosed (act : Print Unit) : Print Unit :=
      Print.parenthesized (p.precedence.needsWrap parent) act
    match p with
    | .nested c => c.print next parent wrapLines
    | .compare l op r _ =>
      enclosed <|
        if op.isEquality && r.isNullConstant then do
          l.print next false .comparison true
          Print.text (absenceTest (op == .notEqual))
        else if op.isEquality && l.isNullConstant then do
          r.print next false .comparison true
          Print.text (absenceTest (op == .notEqual))
        else do
          l.print next false .comparison true
          Print.text (" " ++ op.sign ++ " ")
          r.print next false .comparison true
    | .like operand pattern none negated => enclosed do
      operand.print next false .comparison true
      Print.text (if negated then " NOT LIKE " else " LIKE ")
      pattern.print next false .comparison true
    | .like operand pattern (some escape) negated => enclosed do
      operand.print next false .comparison true
      Print.text (if negated then " NOT LIKE " else " LIKE ")
      pattern.print next false .comparison true
      Print.text " ESCAPE "
      escape.print next false .comparison true
    | .search operand kind pattern caseSensitive negated =>
      printLegal next (.search operand kind pattern caseSensitive negated) parent wrapLines
    | .between operand low high negated => enclosed do
      operand.print next false .comparison true
      Print.text (if negated then " NOT BETWEEN " else " BETWEEN ")
      low.print next false .comparison true
      Print.text " AND "
      high.print next false .comparison true
    | .isNull operand negated => enclosed do
      operand.print next false .comparison true
      Print.text (absenceTest negated)
    | .isDistinct l r negated => do
      if !(← read).capabilities.distinctFrom then
        printLegal next (.isDistinct l r negated) parent wrapLines
      else
        enclosed do
          l.print next false .comparison true
          Print.text (if negated then " IS NOT DISTINCT FROM " else " IS DISTINCT FROM ")
          r.print next false .comparison true
    | .inQuery operand q negated => enclosed do
      operand.print next false .comparison true
      Print.text (if negated then " NOT IN " else " IN ")
      printSubquery next q none
    | .inList operand items negated withNull => enclosed <|
      printMembership operand (operand.print next false .comparison true)
        (listItems? items (scalarPrinters next items)) negated withNull
    | .functionLike call => enclosed (call.print next)
    | .notScalar operand negated precedence => enclosed <|
      if negated then do
        Print.text "NOT "
        operand.print next false .logicalNegation false
      else operand.print next false precedence false
    | .scalar operand precedence => enclosed <|
      match operand.evaluate? with
      | some (.boolean b) => Print.text (if b then "1 = 1" else "1 = 0")
      | _ => operand.print next false precedence false
termination_by structural p

/-- Print a branch without what joins it to the next one. -/
def Branch.print (next : NextLevel) (layout : BranchLayout) : Branch → Print Unit
  | ⟨negated, predicate, _⟩ => do
    if negated then
      Print.text "NOT "
      predicate.print next .logicalNegation layout.wrapLines
    else predicate.print next layout.strength layout.wrapLines
termination_by structural b => b

/-- Print the branches of a condition. -/
def printBranches (next : NextLevel) (layout : BranchLayout) : List Branch → Print Unit
  | [] => pure ()
  | b :: rest => do
    b.print next layout
    if !rest.isEmpty then printJoint layout b.joinsOr
    printBranches next layout rest
termination_by structural bs => bs

/-- Print a condition; its lines may only be broken if the flag allows it. -/
def Condition.print (next : NextLevel) : Condition → Precedence → Bool → Print Unit
  | ⟨branches⟩, parent, wrapLines =>
    let c : Condition := ⟨branches⟩
    Print.parenthesized (c.precedence.needsWrap parent) do
      let layout : BranchLayout :=
        { strength :=
            (if c.hasOr then .logicalDisjunction else .logicalConjunction : Precedence) + 1
          wrapLines
          count := branches.length
          start := ← Print.length }
      printBranches next layout branches
termination_by structural c => c

end

/-- Print a scalar that nothing surrounds. -/
def printScalar (next : NextLevel) (e : Scalar) : Print Unit :=
  e.print next false .unknown true

end SqlCompiler
