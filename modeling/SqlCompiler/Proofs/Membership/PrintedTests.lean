import SqlCompiler.Proofs.Membership.Negation
import SqlCompiler.Proofs.Reading.Conditions
import SqlCompiler.Proofs.Reading.Operators

/-!
# Reading tests for membership back

A test for membership is printed as several comparisons and connectives.  This module opens the
tests in the text of a condition: a reader for whom comparisons bind tighter than `NOT`, and do not
chain, finds the operands, the lists and the tests for absence, and with them the truth that
membership has, whatever the sizes of the lists.  An operand that binds like a comparison is not put
in parentheses, and its test cannot be read.

Main results:

- Definition `TestText`: the text of a condition with its tests opened; `Frame.openTests`.
- Definition `Frame.testOperators`: how tightly the parts of such a text bind.
- Theorem `ListTest.lexemes_reads`: the text of a test is read with its truth.
- Theorem `Frame.read?_looseOperand`: a test of an operand that binds like a comparison cannot be
  read.
- Theorem `Condition.printed_keepsTests`: tests for membership survive printing.
-/

namespace SqlCompiler

open Precedence (comparison logicalDisjunction logicalConjunction logicalNegation)

/-! ## The text of tests -/

/-- An operand of a text with opened tests. -/
inductive TestUnit where
  | leaf (u : LogicUnit)
  /-- The operand of a test, in parentheses if it is printed so. -/
  | operand (e : Scalar)
  | list (items : List (Scalar × Printer))
  | null
  /-- `1 = 1` or `1 = 0`. -/
  | decided (holds : Bool)

/-- A connective or a comparison of a text with opened tests. -/
inductive TestJoint where
  | logic (joint : LogicJoint)
  | isIn (negated : Bool)
  | is (negated : Bool)

/-- The text of a condition with opened tests. -/
abbrev TestText := List (Lexeme TestUnit Unit TestJoint)

/-- How the parts of such a text are grouped. -/
abbrev TestTree := ReadTree TestUnit Unit TestJoint

/-- Print an operand. -/
def TestUnit.print (fuel : Nat) : TestUnit → Print Unit
  | leaf u => u.print fuel
  | operand e => e.print (.within (fuel + 1)) false .comparison true
  | list items => Print.parenthesized true (printList (items.map (·.2)))
  | null => Print.text "NULL"
  | decided holds => Print.text (if holds then "1 = 1" else "1 = 0")

/-- Print a connective or a comparison. -/
def TestJoint.print : TestJoint → Print Unit
  | logic joint => joint.print
  | isIn negated => Print.text (if negated then " NOT IN " else " IN ")
  | is negated => Print.text (if negated then " IS NOT " else " IS ")

/-- Print a text with opened tests. -/
def printTests (fuel : Nat) : TestText → Print Unit :=
  printLexemes (TestUnit.print fuel) (fun _ => Print.text "NOT ") TestJoint.print

section

variable (operand : TestUnit)

/-- `x IN (…)`. -/
def comparedText (negated : Bool) (part : List (Scalar × Printer)) : TestText :=
  [.operand operand, .joint (.isIn negated), .operand (.list part)]

/-- `x IS NULL`. -/
def absenceText (negated : Bool) : TestText :=
  [.operand operand, .joint (.is negated), .operand .null]

/-- `x IN (…) OR x IN (…)`, or `x NOT IN (…) AND x NOT IN (…)`. -/
def comparedTexts (negated : Bool) : List (List (Scalar × Printer)) → TestText
  | [] => []
  | [part] => comparedText operand negated part
  | part :: rest =>
    comparedText operand negated part ++
      .joint (.logic ⟨!negated, false⟩) :: comparedTexts negated rest

/-- The text of a test. -/
def ListTest.lexemes : ListTest (Scalar × Printer) → TestText
  | .decided holds => [.operand (.decided holds)]
  | .absent negated => absenceText operand negated
  | .lists negated parts none => parenthesize (parts.length > 1) (comparedTexts operand negated parts)
  | .lists negated parts (some present) =>
    parenthesize true (comparedTexts operand negated parts ++
      .joint (.logic ⟨!present, false⟩) :: absenceText operand present)

end

/-! ### Printing -/

theorem printTests_append (fuel : Nat) (ls rs : TestText) :
    printTests fuel (ls ++ rs) = (do printTests fuel ls; printTests fuel rs) :=
  printLexemes_append ls rs

theorem printTests_cons (fuel : Nat) (l : Lexeme TestUnit Unit TestJoint) (ls : TestText) :
    printTests fuel (l :: ls) =
      (do
        l.print (TestUnit.print fuel) (fun _ => Print.text "NOT ") TestJoint.print
        printTests fuel ls) := rfl

theorem printTests_single (fuel : Nat) (l : Lexeme TestUnit Unit TestJoint) :
    printTests fuel [l] =
      l.print (TestUnit.print fuel) (fun _ => Print.text "NOT ") TestJoint.print :=
  printLexemes_single l

/-- A connective that does not break its line. -/
theorem TestJoint.print_logic (joinsOr : Bool) :
    (TestJoint.logic ⟨joinsOr, false⟩).print = Print.text (if joinsOr then " OR " else " AND ") := by
  have hprint : (TestJoint.logic ⟨joinsOr, false⟩).print = (do
      Print.text (if joinsOr then " OR" else " AND")
      Print.text " ") := rfl
  rw [hprint, ← Print.text_append]
  cases joinsOr <;> rfl

section

variable (fuel : Nat) (e : Scalar)

theorem printTests_comparedText (negated : Bool) (part : List (Scalar × Printer)) :
    printTests fuel (comparedText (.operand e) negated part) = (do
      e.print (.within (fuel + 1)) false .comparison true
      Print.text (if negated then " NOT IN (" else " IN (")
      printList (part.map (·.2))
      Print.text ")") := by
  have hopening : Print.text (if negated then " NOT IN (" else " IN (") = (do
      Print.text (if negated then " NOT IN " else " IN ")
      Print.text "(") := by
    rw [← Print.text_append]
    cases negated <;> rfl
  rw [hopening, comparedText, printTests_cons, printTests_cons, printTests_single]
  simp [Lexeme.print, TestUnit.print, TestJoint.print, Print.parenthesized]

theorem printTests_absenceText (negated : Bool) :
    printTests fuel (absenceText (.operand e) negated) = (do
      e.print (.within (fuel + 1)) false .comparison true
      Print.text (absenceTest negated)) := by
  have habsence : Print.text (absenceTest negated) = (do
      Print.text (if negated then " IS NOT " else " IS ")
      Print.text "NULL") := by
    rw [← Print.text_append]
    cases negated <;> rfl
  rw [habsence, absenceText, printTests_cons, printTests_cons, printTests_single]
  rfl

theorem printTests_comparedTexts (negated : Bool) (parts : List (List (Scalar × Printer))) :
    printTests fuel (comparedTexts (.operand e) negated parts) =
      Print.separated (if negated then " AND " else " OR ") (parts.map fun part => do
        e.print (.within (fuel + 1)) false .comparison true
        Print.text (if negated then " NOT IN (" else " IN (")
        printList (part.map (·.2))
        Print.text ")") := by
  induction parts with
  | nil => rfl
  | cons part rest ih =>
    cases rest with
    | nil => exact printTests_comparedText fuel e negated part
    | cons part' rest =>
      have hconnective : (TestJoint.logic ⟨!negated, false⟩).print =
          Print.text (if negated then " AND " else " OR ") := by
        rw [TestJoint.print_logic]
        cases negated <;> rfl
      rw [comparedTexts, printTests_append, printTests_cons, Lexeme.print, hconnective, ih,
        printTests_comparedText]
      · rfl
      · simp

/-- The text of a test is what is printed for it. -/
theorem ListTest.printTests_lexemes (test : ListTest (Scalar × Printer)) :
    printTests fuel (test.lexemes (.operand e)) =
      test.print (e.print (.within (fuel + 1)) false .comparison true) fun part => printList (part.map (·.2)) := by
  cases test with
  | decided holds => exact printTests_single fuel _
  | absent negated => exact printTests_absenceText fuel e negated
  | lists negated parts absence =>
    cases absence with
    | none =>
      refine (printLexemes_parenthesize _ _).trans ?_
      change Print.parenthesized _ (printTests fuel _) = _
      rw [printTests_comparedTexts]
      simp [ListTest.print]
    | some present =>
      refine (printLexemes_parenthesize _ _).trans ?_
      change Print.parenthesized _ (printTests fuel _) = _
      have hconnective : (TestJoint.logic ⟨!present, false⟩).print =
          Print.text (if present then " AND " else " OR ") := by
        rw [TestJoint.print_logic]
        cases present <;> rfl
      rw [printTests_append, printTests_cons, printTests_comparedTexts, printTests_absenceText,
        Lexeme.print, hconnective]
      simp [ListTest.print]

end

/-! ## Opened texts -/

/-- Whether a scalar is a whole table. -/
def Scalar.isTableSource : Scalar → Bool
  | .tableSource _ => true
  | _ => false

/-- The items of a list: those of a single parameter with a list, and none of an absent one. -/
def listScalars (items : List Scalar) : List Scalar :=
  match items with
  | [.parameter p] =>
    match p.value with
    | .list values => values.map fun value => .value ⟨p.type, value⟩
    | .null => []
    | _ => items
  | _ => items

/-- What is printed for the items of a list are the items. -/
theorem listItems?_scalars (next : NextLevel) (items : List Scalar) :
    ((listItems? items (scalarPrinters next items)).getD []).map (·.1) = listScalars items := by
  have hzip (items : List Scalar) : (items.zip (scalarPrinters next items)).map (·.1) = items :=
    List.map_fst_zip (Nat.le_of_eq (length_scalarPrinters next items).symm)
  unfold listItems?
  split
  · next p =>
    obtain ⟨name, type, value, isQuery⟩ := p
    cases value with
    | list values => simp [listScalars]
    | _ => rfl
  · next hother =>
    rw [listScalars]
    · exact hzip items
    · exact hother

section

variable (fuel : Nat) (frame : Frame)

/-- The text of a leaf with its test opened, if it is one. -/
def Frame.openUnit : LogicUnit → TestText
  | .predicate (.inList operand items negated withNull) isLeaf parent wrapLines =>
    if operand.isTableSource then
      [.operand (.leaf
        (.predicate (.inList operand items negated withNull) isLeaf parent wrapLines))]
    else
      parenthesize (comparison.needsWrap parent)
        ((frame.listTest operand
          ((listItems? items (scalarPrinters (.within (fuel + 1)) items)).getD []) negated
            withNull).lexemes (.operand operand))
  | u => [.operand (.leaf u)]

/-- The text of a condition with its tests opened. -/
def Frame.openTests (ls : LogicText) : TestText := openOperands (frame.openUnit fuel) .logic ls

variable {fuel frame}

theorem printTests_openUnit (u : LogicUnit) :
    printTests fuel (frame.openUnit fuel u) frame = u.print fuel frame := by
  cases u with
  | scalar | spelled => exact congrFun (printTests_single fuel _) frame
  | predicate p isLeaf parent wrapLines =>
    cases p with
    | inList operand items negated withNull =>
      rw [Frame.openUnit]
      cases htable : operand.isTableSource with
      | true => exact congrFun (printTests_single fuel _) frame
      | false =>
        have hvalue : ∀ t, operand ≠ .tableSource t := by
          rintro t rfl
          cases htable
        rw [if_neg Bool.false_ne_true]
        refine (congrFun (printLexemes_parenthesize _ _) frame).trans ?_
        rw [LogicUnit.print, Predicate.print]
        refine parenthesized_congr ?_ _
        rw [printMembership_eq hvalue]
        exact congrFun (ListTest.printTests_lexemes fuel operand _) frame
    | _ => exact congrFun (printTests_single fuel _) frame

/-- Opening tests does not change what is printed. -/
theorem printTests_openTests (ls : LogicText) :
    printTests fuel (frame.openTests fuel ls) frame = printLogic fuel ls frame :=
  printLexemes_openOperands printTests_openUnit (fun _ => rfl) ls

end

/-! ## Reading tests -/

/-- How tightly the operand of a test binds for a reader. -/
def Frame.operandLevel (frame : Frame) (e : Scalar) : Int :=
  if (frame.textStrength e).needsWrap .comparison then Precedence.primary else frame.textLevel e

/-- Comparisons bind tighter than `NOT`, and do not chain. -/
def Frame.testOperators (frame : Frame) : OperatorTable TestUnit Unit TestJoint where
  operand
    | .operand e => frame.operandLevel e
    | .decided _ => comparison
    | _ => Precedence.primary
  sign := conditionOperators.sign
  joint
    | .logic joint => conditionOperators.joint joint
    | _ => comparison
  chains
    | .logic _ => true
    | _ => false

/-- What the parts of a test mean. -/
inductive TestMeaning (V : Type) where
  | truth (t : Truth)
  | value (v : V)
  | values (vs : List V)
  | null

/-- The truth that is meant, if it is one. -/
def TestMeaning.toTruth {V : Type} : TestMeaning V → Truth
  | truth t => t
  | _ => none

/-- A row of a database: what scalars are worth on it.  What is known not to be nullable is not
absent. -/
structure TestRow (store : Store) (V : Type) where
  reading : Interpretation V
  value : Scalar → V
  decidesEquality : reading.DecidesEquality
  isNull_constant : ∀ c, reading.isNull (reading.constant c) = c.isNull
  isNull_value : ∀ e, store.canBeNull e = false → reading.isNull (value e) = false

section

variable {store : Store} {V : Type} (row : TestRow store V) (α : Leaves)

/-- What an item of a list is worth: a constant is worth itself, and a parameter what is bound to
it. -/
def TestRow.item : Scalar → V
  | .value v => row.reading.constant v.value
  | .parameter p => row.reading.constant p.value
  | _ => row.reading.unknown

/-- What an operand means. -/
def TestUnit.meaning : TestUnit → TestMeaning V
  | leaf u => .truth (u.truth α)
  | operand e => .value (row.value e)
  | list items => .values (items.map fun item => row.item item.1)
  | null => .null
  | decided holds => .truth (some holds)

/-- What is meant by two parts with a connective or a comparison between them. -/
def TestJoint.apply (I : Interpretation V) :
    TestJoint → TestMeaning V → TestMeaning V → TestMeaning V
  | logic joint, a, b => .truth (joint.apply a.toTruth b.toTruth)
  | isIn negated, .value v, .values vs =>
    .truth (if negated then Truth.not (I.among v vs) else I.among v vs)
  | is negated, .value v, .null => .truth (some (I.isNull v != negated))
  | _, _, _ => .truth none

/-- The truth of a text with opened tests on a row. -/
def TestTree.truth (t : TestTree) : Truth :=
  (t.value (TestUnit.meaning row α) (fun _ a => .truth (Truth.not a.toTruth))
    (TestJoint.apply row.reading)).toTruth

end

/-! ### The text of a test -/

section

variable {frame : Frame} {e : Scalar}

theorem comparedText_reads (hoperand : comparison < frame.operandLevel e) (negated : Bool)
    (part : List (Scalar × Printer)) :
    frame.testOperators.Reads comparison (comparedText (.operand e) negated part)
      (.joined (.operand (.operand e)) (.isIn negated) (.operand (.list part))) := by
  have hleft : frame.testOperators.Reads (frame.testOperators.left (.isIn negated))
      [.operand (.operand e)] (.operand (.operand e)) := .operand hoperand
  have hlist : frame.testOperators.Reads (frame.testOperators.joint (.isIn negated) + 1)
      [.operand (.list part)] (.operand (.list part)) :=
    .operand (show comparison + 1 ≤ Precedence.primary by decide)
  exact .joined (Int.le_refl _) hleft hlist

theorem absenceText_reads (hoperand : comparison < frame.operandLevel e) (negated : Bool) :
    frame.testOperators.Reads comparison (absenceText (.operand e) negated)
      (.joined (.operand (.operand e)) (.is negated) (.operand .null)) := by
  have hleft : frame.testOperators.Reads (frame.testOperators.left (.is negated))
      [.operand (.operand e)] (.operand (.operand e)) := .operand hoperand
  have hnull : frame.testOperators.Reads (frame.testOperators.joint (.is negated) + 1)
      [.operand .null] (.operand .null) :=
    .operand (show comparison + 1 ≤ Precedence.primary by decide)
  exact .joined (Int.le_refl _) hleft hnull

/-- There are lists in a test, and `AND` is behind comparisons that are joined by `AND`. -/
def ListTest.IsGrouped {α : Type} : ListTest α → Prop
  | .lists negated parts absence => parts ≠ [] ∧ (absence = some true → negated = true)
  | _ => True

theorem ListTest.isGrouped_of {α : Type} {isAbsent : α → Bool} {canBeNull : Bool}
    {size : Nat → Nat} {items : List α} {negated : Bool} {withNull : Option Bool} :
    (ListTest.of isAbsent canBeNull size items negated withNull).IsGrouped := by
  unfold ListTest.of
  generalize (if withNull.isSome then items.filter fun item => !isAbsent item else items) = present
  split
  · trivial
  · dsimp only
    split
    · trivial
    · next hpresent =>
      refine ⟨chunks_ne_nil _ (by simpa using hpresent), fun habsence => ?_⟩
      split at habsence
      · exact Option.some.inj habsence
      · split at habsence <;> cases habsence

theorem Frame.isGrouped_listTest (frame : Frame) (operand : Scalar)
    (items : List (Scalar × Printer)) (negated : Bool) (withNull : Option Bool) :
    (frame.listTest operand items negated withNull).IsGrouped :=
  ListTest.isGrouped_of

/-- The strength of the connective between the lists of a test. -/
def listsLevel (negated : Bool) : Int :=
  if negated then logicalConjunction else logicalDisjunction

theorem joint_logic (frame : Frame) (negated breaksLine : Bool) :
    frame.testOperators.joint (.logic ⟨!negated, breaksLine⟩) = listsLevel negated := by
  cases negated <;> rfl

/-- The truth of a text of a test is that of the test. -/
def TestTree.Says (t : TestTree) (e : Scalar) (test : ListTest (Scalar × Printer)) : Prop :=
  ∀ {store : Store} {V : Type} (row : TestRow store V) (α : Leaves),
    t.truth row α = test.truth row.reading (row.value e) fun item => row.item item.1

/-- The comparisons with the lists of a test are read as a chain. -/
theorem comparedTexts_chain (hoperand : comparison < frame.operandLevel e) (negated : Bool)
    {parts : List (List (Scalar × Printer))} (hparts : parts ≠ []) :
    ∃ t : TestTree, frame.testOperators.Chain (listsLevel negated) (listsLevel negated + 1)
        (∃ breaksLine, · = .logic ⟨!negated, breaksLine⟩)
        (comparedTexts (.operand e) negated parts) t ∧
      t.Says e (.lists negated parts none) := by
  have hlevel : listsLevel negated + 1 ≤ comparison := by cases negated <;> decide
  induction parts with
  | nil => exact absurd rfl hparts
  | cons part rest ih =>
    have hfirst := (comparedText_reads hoperand negated part).mono hlevel
    cases rest with
    | nil =>
      refine ⟨_, .first hfirst, fun row α => ?_⟩
      cases negated with
      | true => exact (Truth.and_true _).symm
      | false => exact (Truth.or_false _).symm
    | cons part' rest =>
      obtain ⟨t, ht, htold⟩ := ih (List.cons_ne_nil _ _)
      obtain ⟨u, hu, hvalue⟩ := OperatorTable.Chain.extend (.logic ⟨!negated, false⟩)
        (.first hfirst) (joint_logic frame negated false) rfl ⟨false, rfl⟩ ht fun _ h => h
      refine ⟨u, hu, fun row α => ?_⟩
      have hassoc : ∀ op' : TestJoint, (∃ breaksLine, op' = .logic ⟨!negated, breaksLine⟩) →
          ∀ a b c, TestJoint.apply row.reading (.logic ⟨!negated, false⟩) a
              (op'.apply row.reading b c) =
            op'.apply row.reading
              (TestJoint.apply row.reading (.logic ⟨!negated, false⟩) a b) c := by
        rintro _ ⟨breaksLine, rfl⟩ a b c
        cases negated with
        | true => exact congrArg TestMeaning.truth (Truth.and_assoc _ _ _).symm
        | false => exact congrArg TestMeaning.truth (Truth.or_assoc _ _ _).symm
      have htruth := congrArg TestMeaning.toTruth (hvalue (TestUnit.meaning row α)
        (fun _ a => .truth (Truth.not a.toTruth)) _ hassoc)
      refine htruth.trans ?_
      cases negated with
      | true => exact congrArg (Truth.and _) (htold row α)
      | false => exact congrArg (Truth.or _) (htold row α)

/-- The text of a test, in parentheses or not, binds tighter than `NOT`, and is read with the truth
of the test. -/
theorem ListTest.lexemes_reads (hoperand : comparison < frame.operandLevel e)
    {test : ListTest (Scalar × Printer)} (htest : test.IsGrouped) :
    ∃ t : TestTree, frame.testOperators.Reads (logicalNegation + 1)
        (test.lexemes (.operand e)) t ∧ t.Says e test := by
  cases test with
  | decided holds =>
    refine ⟨.operand (.decided holds), .operand ?_, fun row α => rfl⟩
    exact (by decide : (logicalNegation + 1 : Int) ≤ comparison)
  | absent negated =>
    exact ⟨_, (absenceText_reads hoperand negated).mono (by decide), fun row α => rfl⟩
  | lists negated parts absence =>
    obtain ⟨hparts, habsence⟩ := htest
    obtain ⟨t, ht, htold⟩ := comparedTexts_chain hoperand negated hparts
    have hreads := ht.reads (Int.le_of_lt (Int.lt_succ _))
    have hunknown : Precedence.unknown ≤ listsLevel negated := by cases negated <;> decide
    cases absence with
    | none =>
      rw [lexemes]
      match parts, hparts with
      | [part], _ =>
        exact ⟨_, (comparedText_reads hoperand negated part).mono (by decide), fun row α => by
          cases negated with
          | true => exact (Truth.and_true _).symm
          | false => exact (Truth.or_false _).symm⟩
      | part :: part' :: rest, _ =>
        refine ⟨t, ?_, htold⟩
        have hmany : decide ((part :: part' :: rest).length > 1) = true := by simp
        rw [hmany]
        exact .group (by decide) (hreads.mono hunknown)
    | some present =>
      have hlevel : listsLevel present ≤ listsLevel negated := by
        cases present with
        | true => exact Int.le_of_eq (by rw [habsence rfl])
        | false => cases negated <;> decide
      have hright : listsLevel present + 1 ≤ comparison := by cases present <;> decide
      have hzero : Precedence.unknown ≤ listsLevel present := by cases present <;> decide
      rw [← joint_logic frame present false] at hlevel hright hzero
      refine ⟨.joined t (.logic ⟨!present, false⟩) _, .group (by decide) (.joined hzero
        (hreads.mono hlevel) ((absenceText_reads hoperand present).mono hright)),
        fun row α => ?_⟩
      rw [truth_absence, ← htold row α]
      cases present with
      | true => exact congrArg (Truth.and _) (congrArg some (Bool.bne_true _))
      | false => exact congrArg (Truth.or _) (congrArg some (Bool.bne_false _))

end

/-! ## Conditions with tests -/

/-- A constant, a parameter that is written in place, or one that is bound to something. -/
def Scalar.isListItem : Scalar → Bool
  | .value _ => true
  | .parameter p => !p.isQuery || !p.value.isNull
  | _ => false

/-- The tests that can be read: those of scalars that do not bind like a comparison, in lists of
constants and parameters. -/
def Frame.readsTest (frame : Frame) : Legibility := fun operand items =>
  !operand.isTableSource && frame.textStrength operand != comparison &&
    (listScalars items).all Scalar.isListItem

/-- Tests for membership have the truth they are meant to have on a row. -/
def Leaves.withTests (α : Leaves) {store : Store} {V : Type} (row : TestRow store V) : Leaves :=
  { α with
    predicate := fun p =>
      match p with
      | .inList operand items negated withNull =>
        row.reading.listed withNull negated (row.value operand)
          ((listScalars items).map row.item)
      | p => α.predicate p }

/-- The truth that a reader finds in the text of a condition on a row. -/
def Frame.readTests (frame : Frame) {V : Type} (row : TestRow frame.store V) (α : Leaves)
    (ls : TestText) : Option Truth :=
  (frame.testOperators.read? ls).map (TestTree.truth row α)

section

variable {frame : Frame}

/-- What binds like no comparison binds tighter, or is put in parentheses. -/
theorem Frame.operandLevel_gt {e : Scalar} (h : frame.textStrength e ≠ comparison) :
    comparison < frame.operandLevel e := by
  unfold operandLevel
  cases hwrap : (frame.textStrength e).needsWrap comparison with
  | true =>
    rw [if_pos rfl]
    decide
  | false =>
    have hle : comparison ≤ frame.textStrength e := Precedence.le_of_needsWrap hwrap
    have hlt : comparison < frame.textStrength e :=
      Int.lt_iff_le_and_ne.mpr ⟨hle, Ne.symm h⟩
    rw [if_neg Bool.false_ne_true]
    cases e with
    | parameter p =>
      rw [textLevel]
      split
      · decide
      · exact Int.lt_of_lt_of_le (by decide) (OperatorTree.unary_le_precedence _)
    | _ => exact hlt

theorem Scalar.isNullConstant_eq {e : Scalar} (h : e.isListItem = true) {store : Store} {V : Type}
    (row : TestRow store V) : e.isNullConstant = row.reading.isNull (row.item e) := by
  cases e with
  | value v =>
    rw [TestRow.item, row.isNull_constant]
    cases hv : v.value <;> simp [isNullConstant, evaluate?, hv, Constant.isNull]
  | parameter p =>
    rw [TestRow.item, row.isNull_constant]
    cases hquery : p.isQuery with
    | true =>
      have hnull : p.value.isNull = false := by simpa [isListItem, hquery] using h
      rw [hnull]
      simp [isNullConstant, evaluate?, hquery]
    | false => cases hp : p.value <;> simp [isNullConstant, evaluate?, hquery, hp, Constant.isNull]
  | _ => cases h

/-- A test in a list of constants and parameters has the truth it is meant to have. -/
theorem Frame.truth_listTest {operand : Scalar} {items : List Scalar}
    (hitems : (listScalars items).all Scalar.isListItem = true) (next : NextLevel)
    (negated : Bool) (withNull : Option Bool) {V : Type} (row : TestRow frame.store V) :
    (frame.listTest operand ((listItems? items (scalarPrinters next items)).getD []) negated
        withNull).truth row.reading (row.value operand) (fun item => row.item item.1) =
      row.reading.listed withNull negated (row.value operand)
        ((listScalars items).map row.item) := by
  have hscalars := listItems?_scalars next items
  rw [← hscalars, List.all_map, List.all_eq_true] at hitems
  refine (ListTest.truth_of row.decidesEquality
    (fun item hitem => Scalar.isNullConstant_eq (hitems item hitem) row)
    (row.isNull_value operand) negated withNull).trans ?_
  rw [← hscalars, List.map_map]
  rfl

/-- Opened tests that can be read are read with the truth they are meant to have. -/
theorem Frame.testOperators_opens {fuel : Nat} :
    (logicOperators frame.readsTest).Opens frame.testOperators (frame.openUnit fuel) .logic
      (logicalNegation + 1) fun (t' : TestTree) t =>
        ∀ {V : Type} (row : TestRow frame.store V) (α : Leaves),
          t'.truth row ((α.withTests row).spelled frame.dialect) =
            LogicTree.truth ((α.withTests row).spelled frame.dialect) t where
  sign_eq _ := rfl
  joint_eq _ := rfl
  chains_eq _ := rfl
  sign_lt _ := Int.lt_succ _
  joint_lt op := by
    obtain ⟨joinsOr, breaksLine⟩ := op
    cases joinsOr with
    | true => exact (by decide : logicalDisjunction < logicalNegation + 1)
    | false => exact (by decide : logicalConjunction < logicalNegation + 1)
  signed p _ _ h _ row α := congrArg Truth.not (h row α)
  joined op _ _ _ _ hl hr _ row α := congrArg₂ op.apply (hl row α) (hr row α)
  operand u hu := by
    have hleaf (hopen : frame.openUnit fuel u = [.operand (.leaf u)]) :
        ∃ t' : TestTree, frame.testOperators.Reads (logicalNegation + 1) (frame.openUnit fuel u) t' ∧
          ∀ {V : Type} (row : TestRow frame.store V) (α : Leaves),
            t'.truth row ((α.withTests row).spelled frame.dialect) =
              u.truth ((α.withTests row).spelled frame.dialect) := by
      rw [hopen]
      exact ⟨.operand (.leaf u), .operand (show logicalNegation + 1 ≤ Precedence.primary by decide),
        fun _ _ => rfl⟩
    cases u with
    | scalar | spelled => exact hleaf rfl
    | predicate p isLeaf parent wrapLines =>
      cases p with
      | inList operand items negated withNull =>
        have hreads : frame.readsTest operand items = true := by
          by_contra hnot
          have hu : Precedence.unknown ≤ (if frame.readsTest operand items then
            Precedence.primary else Precedence.unknown - 1) := hu
          rw [if_neg hnot] at hu
          exact absurd hu (by decide)
        simp only [readsTest, Bool.and_eq_true, Bool.not_eq_true', bne_iff_ne] at hreads
        obtain ⟨⟨htable, hstrength⟩, hitems⟩ := hreads
        obtain ⟨t, ht, htold⟩ := ListTest.lexemes_reads (operandLevel_gt hstrength) (frame.isGrouped_listTest operand
            ((listItems? items (scalarPrinters (.within (fuel + 1)) items)).getD []) negated withNull)
        refine ⟨t, ?_, fun row α => (htold row _).trans (truth_listTest hitems _ _ _ row)⟩
        rw [openUnit, htable, if_neg Bool.false_ne_true]
        cases Precedence.needsWrap comparison parent with
        | true => exact .group (by decide) (ht.mono (by decide))
        | false => exact ht
      | _ => exact hleaf rfl

/-- A text with an operand of a comparison that binds no tighter than that cannot be read. -/
theorem Frame.read?_looseOperand {e : Scalar}
    (he : frame.operandLevel e ≤ comparison) {op : TestJoint}
    (hop : frame.testOperators.left op = comparison + 1) (before after : TestText) :
    frame.testOperators.read? (before ++ .operand (.operand e) :: .joint op :: after) =
      none := by
  refine OperatorTable.readFrom_append_none (fun pending last => ?_) before _ _
  cases last with
  | some last => rw [OperatorTable.readFrom]; all_goals simp
  | none =>
    rw [OperatorTable.readFrom]
    split
    · have hloose : ¬frame.testOperators.left op ≤
          frame.testOperators.operand (.operand e) := by
        rw [hop]
        exact Int.not_le.mpr (Int.lt_add_one_of_le he)
      rw [OperatorTable.readFrom]
      exact if_neg fun h => hloose h.1
    · rfl

/-- The text of a test has a comparison of its operand, if the test is not decided. -/
theorem ListTest.lexemes_eq_append (frame : Frame) {test : ListTest (Scalar × Printer)}
    (htest : test.IsGrouped) (hdecided : ∀ holds, test ≠ .decided holds) (operand : TestUnit) :
    ∃ before op after, test.lexemes operand = before ++ .operand operand :: .joint op :: after ∧
      frame.testOperators.left op = comparison + 1 := by
  cases test with
  | decided holds => exact absurd rfl (hdecided holds)
  | absent negated => exact ⟨[], .is negated, _, rfl, rfl⟩
  | lists negated parts absence =>
    obtain ⟨after, hafter⟩ : ∃ after, comparedTexts operand negated parts =
        .operand operand :: .joint (.isIn negated) :: after := by
      rcases parts with _ | ⟨part, _ | ⟨part', rest⟩⟩
      · exact absurd rfl htest.1
      · exact ⟨_, rfl⟩
      · exact ⟨_, rfl⟩
    cases absence with
    | none =>
      rw [lexemes, hafter]
      cases decide (parts.length > 1) with
      | true => exact ⟨[.opening], .isIn negated, _, rfl, rfl⟩
      | false => exact ⟨[], .isIn negated, _, rfl, rfl⟩
    | some present =>
      rw [lexemes, hafter]
      exact ⟨[.opening], .isIn negated, _, rfl, rfl⟩

/-- Nobody can read a test of an operand that binds like a comparison in a list that has items. -/
theorem Frame.read?_openUnit {operand : Scalar} {items : List Scalar}
    (hoperand : frame.textStrength operand = comparison) (hitems : listScalars items ≠ [])
    (fuel : Nat) (negated : Bool) (withNull : Option Bool)
    (isLeaf : (Predicate.inList operand items negated withNull).isLeaf = true)
    (parent : Precedence) (wrapLines : Bool) (before after : TestText) :
    frame.testOperators.read? (before ++ frame.openUnit fuel
      (.predicate (.inList operand items negated withNull) isLeaf parent wrapLines) ++ after) =
        none := by
  have htable : operand.isTableSource = false := by
    cases operand with
    | tableSource t => exact absurd (show Precedence.primary = comparison from hoperand) (by decide)
    | _ => rfl
  have hlevel : frame.operandLevel operand ≤ comparison := by
    rw [operandLevel, hoperand]
    cases operand with
    | parameter p => exact absurd (show Precedence.primary = comparison from hoperand) (by decide)
    | _ => exact Int.le_of_eq hoperand
  have hdecided : ∀ holds, frame.listTest operand
      ((listItems? items (scalarPrinters (.within (fuel + 1)) items)).getD []) negated withNull ≠
        .decided holds := by
    rw [← listItems?_scalars (.within (fuel + 1)), Ne, List.map_eq_nil_iff] at hitems
    exact ListTest.of_ne_decided hitems
  obtain ⟨first, op, last, hlexemes, hop⟩ := ListTest.lexemes_eq_append frame
    (frame.isGrouped_listTest operand _ negated withNull) hdecided (.operand operand)
  obtain ⟨before', after', htext⟩ : ∃ before' after', frame.openUnit fuel
      (.predicate (.inList operand items negated withNull) isLeaf parent wrapLines) =
        before' ++ .operand (.operand operand) :: .joint op :: after' := by
    rw [openUnit, htable, if_neg Bool.false_ne_true, hlexemes]
    cases Precedence.needsWrap comparison parent with
    | true => exact ⟨.opening :: first, last ++ [.closing], by simp [parenthesize]⟩
    | false => exact ⟨first, last, rfl⟩
  have hrow : before ++ frame.openUnit fuel
      (.predicate (.inList operand items negated withNull) isLeaf parent wrapLines) ++ after =
        (before ++ before') ++ .operand (.operand operand) :: .joint op :: (after' ++ after) := by
    rw [htext]
    simp
  rw [hrow]
  exact read?_looseOperand hlevel hop _ _

/-- The text of a condition whose tests can be read is that of its leaves with the tests opened, and it
is read with the truth of the condition. -/
theorem Condition.print_readsTests {c : Condition} (hne : c.branches ≠ []) (hfilled : c.isFilled = true)
    (hlegible : c.isLegible frame.readsTest = true) (fuel : Nat) (parent : Precedence)
    (wrapLines : Bool) (page : Page) :
    ∃ ls : LogicText,
      c.print (.within (fuel + 1)) parent wrapLines frame page =
          printTests fuel (frame.openTests fuel ls) frame page ∧
        (∀ page', c.print (.within (fuel + 1)) parent wrapLines frame page = .ok ((), page') →
          ls.AddsTo fuel frame page page') ∧
        ∀ {V : Type} (row : TestRow frame.store V) (α : Leaves),
          let tests := (α.withTests row).spelled frame.dialect
          frame.readTests row tests (frame.openTests fuel ls) = some (c.truthUnder tests) := by
  obtain ⟨ls, ⟨v, hreads, htruth⟩, hprint⟩ :=
    Condition.print_reads hne hfilled hlegible parent wrapLines page
  obtain ⟨t, ht, hmeans⟩ := hreads.opened Frame.testOperators_opens (Int.le_refl _) (by decide)
  refine ⟨ls, by rw [hprint, printTests_openTests],
    fun _ h => printLogic_addsTo (hprint.symm.trans h), fun row α => ?_⟩
  change Option.map _ (frame.testOperators.read? _) = _
  rw [Frame.openTests, ht.read?_eq, Option.map_some]
  exact congrArg some ((hmeans row α).trans (htruth _))

/-- Tests for membership survive printing.  On every page, the text of a condition is that of its
leaves with the tests opened, and a reader for whom comparisons bind tighter than `NOT` finds the
truth of the condition in it, on every row: each test has the truth of SQL, or that of membership
for the program, and neither depends on how many items a list may have.  A test holds exactly for
what is a member, or is not, if absent values count as equal.  The lists have the items, or the
present ones, in their order, and no list is empty or has too many of them.  Only for operands that
bind like a comparison it is otherwise: nobody can read their tests, in whatever text.  What is added to a
page are the texts of the leaves and of what joins them, one behind the other. -/
theorem Condition.printed_keepsTests (frame : Frame) :
    (∀ (fuel : Nat) (c : Condition), c.branches ≠ [] → c.isFilled = true →
      c.isLegible frame.readsTest = true → ∀ (parent : Precedence) (wrapLines : Bool) (page : Page),
        ∃ ls : LogicText,
          c.print (.within (fuel + 1)) parent wrapLines frame page =
              printTests fuel (frame.openTests fuel ls) frame page ∧
            (∀ page', c.print (.within (fuel + 1)) parent wrapLines frame page = .ok ((), page') →
              ls.AddsTo fuel frame page page') ∧
            ∀ {V : Type} (row : TestRow frame.store V) (α : Leaves),
              let tests := (α.withTests row).spelled frame.dialect
              frame.readTests row tests (frame.openTests fuel ls) = some (c.truthUnder tests)) ∧
      (∀ {V : Type} (row : TestRow frame.store V) (negated : Bool) (v : V) (items : List V),
        row.reading.listed (some true) negated v items = some true ↔
          row.reading.contains v items = !negated) ∧
      (∀ (operand : Scalar) (items : List (Scalar × Printer)) (negated : Bool)
          (withNull : Option Bool),
        let lists := (frame.listTest operand items negated withNull).parts
        lists.flatten =
            (if withNull.isSome then items.filter fun item => !item.1.isNullConstant else items) ∧
          ∀ list ∈ lists, list ≠ [] ∧
            ∀ limit, (frame.options.maxInListValues <|> frame.capabilities.maxInListValues) =
              some limit → list.length ≤ max limit 1) ∧
      ∀ (fuel : Nat) (operand : Scalar) (items : List Scalar) (negated : Bool)
        (withNull : Option Bool)
        (isLeaf : (Predicate.inList operand items negated withNull).isLeaf = true)
        (parent : Precedence) (wrapLines : Bool),
        frame.textStrength operand = comparison → listScalars items ≠ [] →
          ∀ before after : TestText, frame.testOperators.read? (before ++ frame.openUnit fuel
            (.predicate (.inList operand items negated withNull) isLeaf parent wrapLines) ++
              after) = none := by
  refine ⟨?_, fun row negated v items => ?_, fun operand items negated withNull => ?_, ?_⟩
  · intro fuel c hne hfilled hlegible parent wrapLines page
    exact Condition.print_readsTests hne hfilled hlegible fuel parent wrapLines page
  · exact Interpretation.listed_eq_true_iff row.decidesEquality negated
  · refine ⟨ListTest.flatten_parts, fun list hlist => ?_⟩
    refine ⟨(ListTest.mem_parts_ne_nil hlist), fun limit hlimit => ?_⟩
    exact ListTest.length_le_of_mem_parts (fun n => Nat.le_of_eq (by rw [hlimit]; rfl)) hlist
  · intro fuel operand items negated withNull isLeaf parent wrapLines hoperand hitems before after
    exact Frame.read?_openUnit hoperand hitems fuel negated withNull isLeaf parent wrapLines
      before after

end

/-- Integers that may be absent, where anything that is no integer counts as zero. -/
def Interpretation.integersOrZero : Interpretation (Option Int) :=
  { Interpretation.nullableIntegers with
    constant := fun c => if c.isNull then none else some (c.asInteger?.getD 0)
    constant_congr := by
      intro a b h
      cases a <;> cases b <;> first | rfl | cases h | skip
      case integer.integer m n => exact congrArg some (eq_of_beq (show (m == n) = true from h)) }

/-- A row of the table of ages. -/
def TestRow.ofAge (age : Option Int) : TestRow .ofAges (Option Int) where
  reading := .integersOrZero
  value e := if Store.ofAges.canBeNull e then age else some 0
  decidesEquality := Interpretation.nullableIntegers_decidesEquality
  isNull_constant c := by cases c <;> rfl
  isNull_value e h := by rw [h]; rfl

/-- `NOT (Age IN (1, 2) OR Age IN (3) OR Age IS NULL) OR Age NOT IN (7)`. -/
theorem Condition.printed_keepsTests_ages :
    let frame : Frame :=
      { provider := .ofDialect .postgreSql, store := .ofAges, options := { maxInListValues := some 2 } }
    let age : Scalar := .field ⟨0⟩
    let c : Condition := ⟨[
      ⟨true, .inList age [.int 1, .null, .int 2, .int 3] false (some true), true⟩,
      ⟨false, .inList age [.int 7] true none, false⟩]⟩
    c.isFilled = true ∧ c.isLegible frame.readsTest = true ∧ ∀ page, ∃ ls : LogicText,
      c.print (.within 1) .unknown true frame page =
          printTests 0 (frame.openTests 0 ls) frame page ∧
        ∀ (value : Option Int) (α : Leaves),
          frame.readTests (.ofAge value) ((α.withTests (.ofAge value)).spelled .postgreSql)
              (frame.openTests 0 ls) =
            some (value.map fun n => !(n == 1 || n == 2 || n == 3) || n != 7) := by
  intro frame age c
  have hlegible : c.isLegible frame.readsTest = true := rfl
  refine ⟨rfl, hlegible, fun page => ?_⟩
  obtain ⟨ls, hprint, -, htruth⟩ :=
    (printed_keepsTests frame).1 0 c (by simp [c]) rfl hlegible .unknown true page
  refine ⟨ls, hprint, fun value α => (htruth (.ofAge value) α).trans (congrArg some ?_)⟩
  cases value with
  | none => rfl
  | some n =>
    simp only [c, truthUnder, branchesTruthUnder, Branch.truthUnder, Predicate.truthUnder,
      List.isEmpty_cons, List.isEmpty_nil, Bool.false_eq_true, if_true, if_false, Truth.true_and]
    change Truth.or (Truth.not (Interpretation.integersOrZero.listed (some true) false (some n)
      [some 1, none, some 2, some 3]))
        (Interpretation.integersOrZero.listed none true (some n) [some 7]) = _
    have hcompare (m : Int) : Interpretation.integersOrZero.compare .equal (some n) (some m) =
        some (n == m) := rfl
    simp only [Interpretation.listed, Interpretation.unseen, Interpretation.contains,
      Interpretation.among, List.any_cons, List.any_nil, List.foldr_cons, List.foldr_nil, hcompare]
    cases h1 : n == 1 <;> cases h2 : n == 2 <;> cases h3 : n == 3 <;> cases h7 : n == 7 <;>
      simp [bne, h1, h2, h3, h7] <;> rfl

end SqlCompiler
