import SqlCompiler.Proofs.Rendering.Run
import SqlCompiler.Render.Expression

/-!
# References of printed expressions

Printing an expression is a run whose placeholders stand for parameters of the expression, or
of something it refers to, and it opens only queries that the expression refers to.  The induction is
on the expression, with one case for each constructor; what it refers to is left to the printers of
the next level, and it does not matter which ones these are as long as they are alike.

Main results:

- Definition `Printing.Closed`: whatever is allowed refers to allowed things only.
- Definition `NextLevel.Alike`: printers that are alike on what is allowed.
- Theorem `Scalar.print_alike`, `Predicate.print_alike`, `Condition.print_alike`.
-/

namespace SqlCompiler

/-! ## Assumptions -/

/-- Whether a source reads an allowed query, or a table that holds allowed references. -/
def Printing.Reads (P : Printing) : SourceItem → Prop
  | .table t => Within P (P.store.table t).kind.walk
  | .query q => P.query q

/-- A query block holds allowed references only. -/
structure Query.Allowed (P : Printing) (q : Query) : Prop where
  columns : ∀ c ∈ q.columns, Within P (P.store.column c).expression.walk
  take : ∀ e, q.take = some e → Within P e.walk
  skip : ∀ e, q.skip = some e → Within P e.walk
  items : ∀ source ∈ q.allSources, P.Reads source.item
  joins : ∀ source ∈ q.allSources, ∀ join ∈ source.joins, Within P join.condition.walk
  whereClause : Within P q.whereClause.walk
  grouping : ∀ e ∈ q.grouping.items, Within P e.walk
  having : Within P q.having.walk
  orderBy : ∀ item ∈ q.orderBy, Within P item.expression.walk
  operators : ∀ operator ∈ q.setOperators, P.query operator.query

/-- Whatever is allowed refers to allowed things only, and so do the columns in view. -/
structure Printing.Closed (P : Printing) : Prop where
  patterns : ClosedUnderPatterns P.parameter P.provider.dialect
  column : ∀ c, P.scope (P.store.column c).parent → Within P (P.store.column c).expression.walk
  query : ∀ q, P.query q → (P.store.query q).Allowed P

/-- Printers that are alike on what is allowed. -/
structure NextLevel.Alike (P : Printing) (next next' : NextLevel) : Prop where
  closed : P.Closed
  query : ∀ q, P.query q → Print.Alike P (next.query q) (next'.query q)
  scalar : ∀ {e : Scalar}, Within P e.walk → ∀ parent asValue,
    Print.Alike P (next.scalar e parent asValue) (next'.scalar e parent asValue)
  predicate : ∀ {p : Predicate}, Within P p.walk → ∀ parent wrapLines,
    Print.Alike P (next.predicate p parent wrapLines) (next'.predicate p parent wrapLines)

/-- A column stands for its expression in a query that is in view. -/
theorem Frame.parent_mem_of_here {f : Frame} {column : OutputColumn} {scopes : List QueryRef}
    (h : f.columnPlaceIn column scopes = .ok .here) : column.parent ∈ scopes := by
  induction scopes with
  | nil => cases h
  | cons q outer ih =>
    rw [columnPlaceIn] at h
    split at h
    · split at h
      · cases h
      · cases h
    · split at h
      · next hself => exact List.mem_cons.mpr (.inl (beq_iff_eq.mp hself).symm)
      · exact List.mem_cons_of_mem _ (ih h)

namespace Print.Alike

variable {P : Printing} {next next' : NextLevel}

/-! ## Leaves -/

theorem printConstant (value : Constant) (type : SqlType) :
    Runs P (SqlCompiler.printConstant value type) := by
  refine .read fun frame _ => ?_
  split
  · exact text _
  · exact .throw _

theorem printParameter {p : Parameter} (hp : P.parameter p) :
    Runs P (SqlCompiler.printParameter p) := by
  refine .read fun frame _ => ?_
  dsimp only
  split
  · exact text _
  · exact parameter hp

theorem printField (f : FieldRef) : Runs P (SqlCompiler.printField f) :=
  .read fun _ _ => (except _).bind fun _ => column _ _

theorem printAllFields (t : TableRef) : Runs P (SqlCompiler.printAllFields t) := by
  refine .read fun frame _ => (except _).bind fun qualifier => ?_
  cases qualifier with
  | none => exact text _
  | some q => exact text _

theorem ok_of_except {α : Type} {r : Except SqlError α} {frame : Frame} {page page' : Page} {a : α}
    (h : (liftM r : Print α) frame page = .ok (a, page')) : r = .ok a := by
  cases r with
  | error e => cases h
  | ok a' =>
    cases h
    rfl

theorem printColumn (hnext : next.Alike P next') (c : ColumnRef) (parent : Precedence)
    (asValue : Bool) : Alike P (SqlCompiler.printColumn next c parent asValue)
      (SqlCompiler.printColumn next' c parent asValue) := by
  refine .read fun frame hframe => (except _).bindOf (fun _ _ _ _ _ => ok_of_except) ?_
  intro place hplace
  cases place with
  | source aliasName =>
    dsimp only
    split
    · exact column _ _
    · exact .throw _
  | here =>
    have hscope := hframe.scopes _ (Frame.parent_mem_of_here hplace)
    rw [hframe.store] at hscope ⊢
    exact hnext.scalar (hnext.closed.column c hscope) parent asValue

theorem printDeferred (name : DeferredName) : Runs P (SqlCompiler.printDeferred name) := by
  refine self fun frame _ page a page' hrun => ?_
  cases hrun
  exact (Page.Run.refl page).defer name

theorem printSubquery (hnext : next.Alike P next') {q : QueryRef} (hq : P.query q)
    (aliasName : Option String) :
    Alike P (SqlCompiler.printSubquery next q aliasName)
      (SqlCompiler.printSubquery next' q aliasName) :=
  (line _).andThen <| (nestedQuery _ _ (hnext.query q hq)).andThen <| indentation.andThen (text _)

/-- Related lists have related items at the same places. -/
theorem getElem?_of_forall₂ {α : Type} {R : α → α → Prop} {items items' : List α}
    (h : List.Forall₂ R items items') (i : Nat) :
    (items[i]? = none ∧ items'[i]? = none) ∨
      ∃ a a', items[i]? = some a ∧ items'[i]? = some a' ∧ R a a' := by
  induction h generalizing i with
  | nil => simp
  | cons hab _ ih =>
    cases i with
    | zero => exact .inr ⟨_, _, rfl, rfl, hab⟩
    | succ i => simpa using ih i

theorem printTemplate (template : String) {args args' : List (Print Unit)}
    (h : List.Forall₂ (Alike P) args args') :
    Alike P (SqlCompiler.printTemplate template args)
      (SqlCompiler.printTemplate template args') := by
  refine forM fun piece _ => ?_
  cases piece with
  | literal s => exact text s
  | argument index =>
    dsimp only
    rcases getElem?_of_forall₂ h index with ⟨hnone, hnone'⟩ | ⟨act, act', hsome, hsome', hact⟩
    · rw [hnone, hnone']
      exact .throw _
    · rw [hsome, hsome']
      exact hact

/-! ## Function calls -/

/-- Printers that are alike wherever they stand. -/
abbrev Each (P : Printing) (printer printer' : Printer) : Prop :=
  ∀ parent asValue, Alike P (printer parent asValue) (printer' parent asValue)

/-- Lists of printers that are alike wherever they stand. -/
abbrev All (P : Printing) (printers printers' : List Printer) : Prop :=
  List.Forall₂ (Each P) printers printers'

theorem All.map {printers printers' : List Printer} (h : All P printers printers')
    (parent : Precedence) (asValue : Bool) :
    List.Forall₂ (Alike P) (printers.map fun printer => printer parent asValue)
      (printers'.map fun printer => printer parent asValue) := by
  rw [List.forall₂_map_left_iff, List.forall₂_map_right_iff]
  exact h.imp fun _ _ hprinter => hprinter parent asValue

theorem printCaseBranches :
    ∀ {printers printers' : List Printer}, All P printers printers' →
      Alike P (SqlCompiler.printCaseBranches printers) (SqlCompiler.printCaseBranches printers')
  | _, _, .nil => .pure ()
  | _, _, .cons hotherwise .nil =>
    indentation.andThen <| (text _).andThen <| (hotherwise _ _).andThen newline
  | _, _, .cons hcondition (.cons hvalue hrest) =>
    indentation.andThen <| (text _).andThen <| (hcondition _ _).andThen <|
      (text _).andThen <| (hvalue _ _).andThen <| newline.andThen <| printCaseBranches hrest

theorem printCase {printers printers' : List Printer} (h : All P printers printers') :
    Alike P (SqlCompiler.printCase printers) (SqlCompiler.printCase printers') :=
  (line _).andThen <| (indented (printCaseBranches h)).andThen <| indentation.andThen (text _)

theorem printList {printers printers' : List Printer} (h : All P printers printers') :
    Alike P (SqlCompiler.printList printers) (SqlCompiler.printList printers') :=
  separated _ (h.map _ _)

theorem printCall (hnext : next.Alike P next') (name : String) {args : List Scalar}
    (hargs : Within P (walkScalars args)) {printers printers' : List Printer}
    (h : All P printers printers') :
    Alike P (SqlCompiler.printCall next name args printers)
      (SqlCompiler.printCall next' name args printers') := by
  unfold SqlCompiler.printCall
  split
  · exact printCase h
  · simp only [walkScalars, Scalar.walk, Within.append, Within.cons] at hargs
    exact (text _).andThen (printSubquery hnext hargs.1.1 none)
  · exact (text _).andThen ((printList h).andThen (text _))
  · split
    · exact text _
    · exact (text _).andThen ((printList h).andThen (text _))

/-! ## Membership in a list -/

theorem printKeyTest (key : FieldRef) (members : Members Constant) :
    Runs P (SqlCompiler.printKeyTest key members) := by
  refine .read fun frame _ => ?_
  dsimp only
  split
  · exact .throw _
  · exact (printField key).andThen (text _)
  · exact (printField key).andThen ((text _).andThen (printConstant _ _))

theorem printRecordTest (keys : List FieldRef) (item : Scalar) :
    Runs P (SqlCompiler.printRecordTest keys item) := by
  unfold SqlCompiler.printRecordTest
  split
  · exact parenthesized _ (separated _ (forItems fun key _ => printKeyTest key _))
  · exact .throw _

theorem printRecordMembership (t : TableRef) (items : List Scalar) (negated : Bool) :
    Runs P (SqlCompiler.printRecordMembership t items negated) :=
  .read fun _ _ => whenThen (.throw _) fun _ => whenThen (text _) fun _ =>
    parenthesized _ (separated _ (forItems fun item _ => printRecordTest _ item))

/-- The same items with printers that are alike. -/
abbrev AllItems (P : Printing) (items items' : List (Scalar × Printer)) : Prop :=
  List.Forall₂ (fun item item' => item.1 = item'.1 ∧ Each P item.2 item'.2) items items'

namespace AllItems

variable {items items' : List (Scalar × Printer)}

theorem scalars (h : AllItems P items items') : items.map (·.1) = items'.map (·.1) := by
  induction h with
  | nil => rfl
  | cons hitem _ ih => rw [List.map_cons, List.map_cons, hitem.1, ih]

theorem printers (h : AllItems P items items') : All P (items.map (·.2)) (items'.map (·.2)) := by
  rw [All, List.forall₂_map_left_iff, List.forall₂_map_right_iff]
  exact h.imp fun _ _ hitem => hitem.2

theorem filter (h : AllItems P items items') (keep : Scalar → Bool) :
    AllItems P (items.filter fun item => keep item.1) (items'.filter fun item => keep item.1) := by
  induction h with
  | nil => exact .nil
  | @cons item item' _ _ hitem _ ih =>
    rw [List.filter_cons, List.filter_cons, hitem.1]
    split
    · exact .cons hitem ih
    · exact ih

theorem chunksWithin (size : Nat) (fuel : Nat) (h : AllItems P items items') :
    List.Forall₂ (AllItems P) (chunksWithin size fuel items) (chunksWithin size fuel items') := by
  induction fuel generalizing items items' with
  | zero => exact .nil
  | succ fuel ih =>
    cases h with
    | nil => exact .nil
    | cons hitem hrest =>
      have hall : AllItems P (_ :: _) (_ :: _) := .cons hitem hrest
      exact .cons (List.forall₂_take _ hall) (ih (List.forall₂_drop _ hall))

end AllItems

theorem printValueMembership (operand : Scalar) {printOperand printOperand' : Print Unit}
    (hoperand : Alike P printOperand printOperand') {items items' : List (Scalar × Printer)}
    (h : AllItems P items items') (negated : Bool) (withNull : Option Bool) :
    Alike P (SqlCompiler.printValueMembership operand printOperand items negated withNull)
      (SqlCompiler.printValueMembership operand printOperand' items' negated withNull) := by
  refine .read fun frame _ => ?_
  have hpresent (c : Bool) : AllItems P
      (if c then items.filter fun item => !item.1.isNullConstant else items)
      (if c then items'.filter fun item => !item.1.isNullConstant else items') := by
    split
    · exact h.filter fun e => !e.isNullConstant
    · exact h
  specialize hpresent withNull.isSome
  dsimp only
  rw [h.length_eq]
  generalize (if withNull.isSome then items.filter fun item => !item.1.isNullConstant
    else items) = present at hpresent ⊢
  generalize (if withNull.isSome then items'.filter fun item => !item.1.isNullConstant
    else items') = present' at hpresent ⊢
  have hempty : present.isEmpty = present'.isEmpty := by cases hpresent <;> rfl
  have hchunks (size : Nat) : List.Forall₂ (AllItems P) (chunks size present)
      (chunks size present') := by
    unfold chunks
    rw [hpresent.length_eq]
    exact hpresent.chunksWithin _ _
  rw [hempty, hpresent.length_eq]
  split
  · exact hoperand.andThen (text _)
  · rw [(hchunks _).length_eq]
    refine parenthesized _ ((separated _ ?_).andThen ?_)
    · rw [List.forall₂_map_left_iff, List.forall₂_map_right_iff]
      exact (hchunks _).imp fun _ _ hchunk => hoperand.andThen <| (text _).andThen <|
        (printList hchunk.printers).andThen (text _)
    · split
      · exact .pure ()
      · exact (text _).andThen (hoperand.andThen (text _))

/-- The items of a list that can be listed are those of other printers. -/
theorem listItems (items : List Scalar) {printers printers' : List Printer}
    (h : All P printers printers') :
    (listItems? items printers = none ∧ listItems? items printers' = none) ∨
      ∃ listed listed', listItems? items printers = some listed ∧
        listItems? items printers' = some listed' ∧ AllItems P listed listed' := by
  have hzip : AllItems P (items.zip printers) (items.zip printers') := by
    induction h generalizing items with
    | nil => simp
    | cons hprinter _ ih =>
      cases items with
      | nil => simp
      | cons e rest => exact .cons ⟨rfl, hprinter⟩ (ih rest)
  unfold listItems?
  split
  · split
    · refine .inr ⟨_, _, rfl, rfl, ?_⟩
      rw [AllItems, List.forall₂_same]
      intro item hitem
      obtain ⟨value, -, rfl⟩ := List.mem_map.mp hitem
      exact ⟨rfl, fun _ _ => printConstant _ _⟩
    · exact .inl ⟨rfl, rfl⟩
    · exact .inr ⟨_, _, rfl, rfl, hzip⟩
  · exact .inr ⟨_, _, rfl, rfl, hzip⟩

theorem printMembership (operand : Scalar) {printOperand printOperand' : Print Unit}
    (hoperand : Alike P printOperand printOperand') {items : List Scalar}
    {printers printers' : List Printer} (h : All P printers printers') (negated : Bool)
    (withNull : Option Bool) :
    Alike P (SqlCompiler.printMembership operand printOperand
        (listItems? items printers) negated withNull)
      (SqlCompiler.printMembership operand printOperand'
        (listItems? items printers') negated withNull) := by
  unfold SqlCompiler.printMembership
  rcases listItems items h with ⟨hnone, hnone'⟩ | ⟨listed, listed', hsome, hsome', hall⟩
  · rw [hnone, hnone']
    exact text _
  · have hempty : listed.isEmpty = listed'.isEmpty := by cases hall <;> rfl
    rw [hsome, hsome']
    dsimp only [Option.getD]
    rw [hempty, hall.scalars]
    split
    · exact text _
    · split
      · exact printRecordMembership _ _ _
      · exact printValueMembership _ hoperand hall _ _

/-! ## Around an expression -/

theorem printedPrecedence (e : Scalar) (asValue : Bool) :
    Runs P (SqlCompiler.printedPrecedence e asValue) := by
  refine .read fun frame _ => ?_
  cases e with
  | column c =>
    refine (except _).bind fun place => ?_
    cases place with
    | source aliasName => exact .pure _
    | here => exact .pure _
  | _ => exact .pure _

theorem enclose (bare : Bool) (e : Scalar) (parent : Precedence) (asValue : Bool)
    {act act' : Print Unit} (h : Alike P act act') :
    Alike P (SqlCompiler.enclose bare e parent asValue act)
      (SqlCompiler.enclose bare e parent asValue act') := by
  unfold SqlCompiler.enclose
  split
  · exact h
  · exact (printedPrecedence e asValue).bind fun _ => parenthesized _ h

theorem length : Runs P Print.length := .get fun _ => .pure _

theorem printJoint (layout : BranchLayout) (joinsOr : Bool) :
    Runs P (SqlCompiler.printJoint layout joinsOr) := by
  refine (text _).andThen (length.bind fun _ => ?_)
  dsimp only
  split
  · exact text _
  · exact newline.andThen indentation

theorem printLegal (hnext : next.Alike P next') {p : Predicate}
    (hp : Within P (P.store.legalPredicate P.provider p).walk) (parent : Precedence)
    (wrapLines : Bool) :
    Alike P (SqlCompiler.printLegal next p parent wrapLines)
      (SqlCompiler.printLegal next' p parent wrapLines) := by
  refine .read fun frame hframe => ?_
  rw [hframe.provider, hframe.store]
  split
  · exact unsupported _
  · exact unsupported _
  · exact hnext.predicate hp parent wrapLines

end Print.Alike

/-! ## Scalars, predicates and conditions -/

variable {P : Printing} {next next' : NextLevel}

mutual

/-- A scalar prints references of its own, or of what it refers to. -/
theorem Scalar.print_alike (hnext : next.Alike P next') (e : Scalar)
    (h : Within P e.walk) (bare : Bool) (parent : Precedence) (asValue : Bool) :
    Print.Alike P (e.print next bare parent asValue) (e.print next' bare parent asValue) := by
  unfold Scalar.print
  refine .enclose _ _ _ _ ?_
  cases e with
  | value v => exact .printConstant _ _
  | parameter p => exact .printParameter (h (.parameter p) (by simp [Scalar.walk]))
  | field f => exact .printField f
  | allFields t => exact .printAllFields t
  | column c => exact .printColumn hnext c _ _
  | function call =>
    simp only [Scalar.walk, Within.cons] at h
    exact call.print_alike hnext h.2
  | binary l op r type =>
    simp only [Scalar.walk, Within.cons, Within.append] at h
    dsimp only
    split
    · exact (Print.Alike.text _).andThen (r.print_alike hnext h.2.2 _ _ _)
    · exact (l.print_alike hnext h.2.1 _ _ _).andThen <|
        (Print.Alike.text _).andThen (r.print_alike hnext h.2.2 _ _ _)
  | raw format args type precedence =>
    simp only [Scalar.walk, Within.cons] at h
    exact .printTemplate _ ((scalarPrinters_alike hnext args h.2).map _ _)
  | convert target source operand keep =>
    simp only [Scalar.walk, Within.cons] at h
    exact (Print.Alike.text _).andThen <| (operand.print_alike hnext h.2 _ _ _).andThen <|
      .read fun _ _ => .text _
  | condition c =>
    simp only [Scalar.walk, Within.cons] at h
    refine .read fun frame _ => ?_
    split
    · exact .text _
    · split
      · exact (Print.Alike.text _).andThen
          ((c.print_alike hnext h.2 _ _).andThen (Print.Alike.text _))
      · exact c.print_alike hnext h.2 _ _
  | query q => exact .printSubquery hnext (h (.query q) (by simp [Scalar.walk])) none
  | type t => exact .read fun _ _ => .text _
  | row items =>
    simp only [Scalar.walk, Within.cons] at h
    exact (Print.Alike.text _).andThen
      ((Print.Alike.printList (scalarPrinters_alike hnext items h.2)).andThen (Print.Alike.text _))
  | tableSource t => exact .read fun _ _ => .throw _
  | deferredName name => exact .printDeferred name

/-- The printers of a list of scalars. -/
theorem scalarPrinters_alike (hnext : next.Alike P next') (items : List Scalar)
    (h : Within P (walkScalars items)) :
    Print.Alike.All P (scalarPrinters next items) (scalarPrinters next' items) := by
  cases items with
  | nil => exact .nil
  | cons e rest =>
    simp only [walkScalars, Within.append] at h
    exact .cons (fun parent asValue => e.print_alike hnext h.1 _ parent asValue)
      (scalarPrinters_alike hnext rest h.2)

/-- A function call. -/
theorem Call.print_alike (hnext : next.Alike P next') (call : Call)
    (h : Within P call.walk) :
    Print.Alike P (call.print next) (call.print next') := by
  obtain ⟨name, args, type, isAggregate, keep⟩ := call
  exact .printCall hnext name h (scalarPrinters_alike hnext args h)

/-- A predicate prints references of its own, the patterns of its searches, or references of what it
refers to. -/
theorem Predicate.print_alike (hnext : next.Alike P next') (p : Predicate)
    (h : Within P p.walk) (parent : Precedence) (wrapLines : Bool) :
    Print.Alike P (p.print next parent wrapLines) (p.print next' parent wrapLines) := by
  cases p with
  | nested c => exact c.print_alike hnext h parent wrapLines
  | compare l op r withNull =>
    simp only [Predicate.walk, Within.append] at h
    refine .parenthesized _ ?_
    split
    · exact (l.print_alike hnext h.1 _ _ _).andThen (.text _)
    · split
      · exact (r.print_alike hnext h.2 _ _ _).andThen (.text _)
      · exact (l.print_alike hnext h.1 _ _ _).andThen
          ((Print.Alike.text _).andThen (r.print_alike hnext h.2 _ _ _))
  | like operand pattern escape negated =>
    cases escape with
    | none =>
      simp only [Predicate.walk, Within.append] at h
      exact .parenthesized _ <| (operand.print_alike hnext h.1 _ _ _).andThen <|
        (Print.Alike.text _).andThen (pattern.print_alike hnext h.2 _ _ _)
    | some escape =>
      simp only [Predicate.walk, Within.append] at h
      exact .parenthesized _ <| (operand.print_alike hnext h.1.1 _ _ _).andThen <|
        (Print.Alike.text _).andThen <| (pattern.print_alike hnext h.1.2 _ _ _).andThen <|
        (Print.Alike.text _).andThen (escape.print_alike hnext h.2 _ _ _)
  | search operand kind pattern caseSensitive negated =>
    exact .printLegal hnext (.legalPredicate_search hnext.closed.patterns h) parent wrapLines
  | between operand low high negated =>
    simp only [Predicate.walk, Within.append] at h
    exact .parenthesized _ <| (operand.print_alike hnext h.1.1 _ _ _).andThen <|
      (Print.Alike.text _).andThen <| (low.print_alike hnext h.1.2 _ _ _).andThen <|
      (Print.Alike.text _).andThen (high.print_alike hnext h.2 _ _ _)
  | isNull operand negated =>
    exact .parenthesized _ <| (operand.print_alike hnext h _ _ _).andThen (.text _)
  | isDistinct l r negated =>
    refine .read fun frame _ => ?_
    split
    · exact .printLegal hnext (.legalPredicate_isDistinct h) parent wrapLines
    · simp only [Predicate.walk, Within.append] at h
      exact .parenthesized _ <| (l.print_alike hnext h.1 _ _ _).andThen <|
        (Print.Alike.text _).andThen (r.print_alike hnext h.2 _ _ _)
  | inQuery operand q negated =>
    simp only [Predicate.walk, Within.append, Within.cons] at h
    exact .parenthesized _ <| (operand.print_alike hnext h.1 _ _ _).andThen <|
      (Print.Alike.text _).andThen (.printSubquery hnext h.2.1 none)
  | inList operand items negated withNull =>
    simp only [Predicate.walk, Within.append] at h
    exact .parenthesized _ (.printMembership operand (operand.print_alike hnext h.1 _ _ _)
      (scalarPrinters_alike hnext items h.2) negated withNull)
  | functionLike call => exact .parenthesized _ (call.print_alike hnext h)
  | notScalar operand negated precedence =>
    refine .parenthesized _ ?_
    split
    · exact (Print.Alike.text _).andThen (operand.print_alike hnext h _ _ _)
    · exact operand.print_alike hnext h _ _ _
  | scalar operand precedence =>
    refine .parenthesized _ ?_
    split
    · exact .text _
    · exact operand.print_alike hnext h _ _ _

/-- A branch of a condition. -/
theorem Branch.print_alike (hnext : next.Alike P next') (layout : BranchLayout)
    (b : Branch) (h : Within P b.walk) :
    Print.Alike P (b.print next layout) (b.print next' layout) := by
  obtain ⟨negated, predicate, joinsOr⟩ := b
  unfold Branch.print
  split
  · exact (Print.Alike.text _).andThen (predicate.print_alike hnext h _ _)
  · exact predicate.print_alike hnext h _ _

/-- The branches of a condition. -/
theorem printBranches_alike (hnext : next.Alike P next') (layout : BranchLayout)
    (branches : List Branch) (h : Within P (walkBranches branches)) :
    Print.Alike P (printBranches next layout branches) (printBranches next' layout branches) := by
  cases branches with
  | nil => exact .pure ()
  | cons b rest =>
    simp only [walkBranches, Within.append] at h
    exact (b.print_alike hnext layout h.1).andThen <|
      .whenThen (.printJoint _ _) fun _ => printBranches_alike hnext layout rest h.2

/-- A condition prints references of its own, or of what it refers to. -/
theorem Condition.print_alike (hnext : next.Alike P next') (c : Condition)
    (h : Within P c.walk) (parent : Precedence) (wrapLines : Bool) :
    Print.Alike P (c.print next parent wrapLines) (c.print next' parent wrapLines) := by
  obtain ⟨branches⟩ := c
  exact .parenthesized _ (.bind .length fun _ => printBranches_alike hnext _ branches h)

end

end SqlCompiler
