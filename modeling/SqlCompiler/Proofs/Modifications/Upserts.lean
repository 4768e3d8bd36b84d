import SqlCompiler.Proofs.Membership.PrintedTests
import SqlCompiler.Proofs.Modifications.Updates

/-!
# Two styles of upserts

An upsert is written as a merge with a source of one row that holds the keys, or as an update or a
search by the keys and an insert for when no row was found.  A merge lets an absent key match an
absent field; an update compares the two for equality only.

Main results:

- Definition `KeyText`: the text of a test of keys, with the reader `Frame.keyOperators`.
- Definition `UpsertScript`: what an upsert prints, and what it does to a table.
- Theorem `printUpsert_merge`, `printUpsert_steps`: upserts print these scripts.
- Theorem `mergeScript_run`, `stepsScript_run`: what the scripts do to a table.
- Theorem `printUpsert_styles_agree_iff`: the styles leave the same table exactly if no key that
  some row has is absent in part.
-/

namespace SqlCompiler

open Precedence (comparison logicalDisjunction logicalConjunction)

/-! ## Tests of keys -/

/-- A field of the target with the value it is to have. -/
structure UpsertKey where
  field : FieldRef
  value : Scalar

/-- A key as an assignment. -/
def UpsertKey.assignment (key : UpsertKey) : Assignment := ⟨.field key.field, some key.value⟩

/-- An operand of a test of keys. -/
inductive KeyUnit where
  /-- The field of the target. -/
  | field (key : UpsertKey)
  /-- The column of the merge source. -/
  | source (key : UpsertKey)
  | value (key : UpsertKey)
  | null

/-- A connective or a comparison of a test of keys. -/
inductive KeyJoint where
  | and | or | is | equal
  deriving DecidableEq, Repr

/-- The text of a test of keys. -/
abbrev KeyText := List (Lexeme KeyUnit Unit KeyJoint)

/-- How the parts of such a text are grouped. -/
abbrev KeyTree := ReadTree KeyUnit Unit KeyJoint

/-- The alias of the source of a merge. -/
def mergeAlias : String := (AliasSet.nextNumbered {} "s").1

/-- Print an operand. -/
def KeyUnit.print (next : NextLevel) : KeyUnit → Print Unit
  | field key => printKeyOperand next key.assignment
  | source key => do
    Print.text (mergeAlias ++ ".")
    printKeyName key.assignment
  | value key => printKeyValue next key.assignment
  | null => Print.text "NULL"

/-- Print a connective or a comparison. -/
def KeyJoint.print : KeyJoint → Print Unit
  | and => Print.text " AND "
  | or => Print.text " OR "
  | is => Print.text " IS "
  | equal => Print.text " = "

/-- Print a test of keys. -/
def printKeyText (next : NextLevel) : KeyText → Print Unit :=
  printLexemes (KeyUnit.print next) (fun _ => pure ()) KeyJoint.print

/-- Texts with `AND` between them. -/
def conjoined : List KeyText → KeyText
  | [] => []
  | [text] => text
  | text :: rest => text ++ .joint .and :: conjoined rest

/-- Equality of a field with the column of the merge source. -/
def UpsertKey.equality (key : UpsertKey) : KeyText :=
  [.operand (.field key), .joint .equal, .operand (.source key)]

/-- Absence of both. -/
def UpsertKey.absence (key : UpsertKey) : KeyText :=
  [.operand (.field key), .joint .is, .operand .null, .joint .and, .operand (.source key),
    .joint .is, .operand .null]

/-- The test of a key in a merge: equality, or absence of both where the field may be absent. -/
def UpsertKey.mergeText (s : Store) (key : UpsertKey) : KeyText :=
  if (s.field key.field).canBeNull then
    parenthesize true (key.absence ++ .joint .or :: key.equality)
  else key.equality

/-- The test of a key in an update or a search. -/
def UpsertKey.stepsText (key : UpsertKey) : KeyText :=
  [.operand (.field key), .joint .equal, .operand (.value key)]

/-! ## Scripts -/

/-- What an upsert prints. -/
inductive UpsertScript where
  /-- A merge with the row of some keys. -/
  | merge (keys : List UpsertKey) (on : KeyText)
  /-- An update, and an insert if it found no row. -/
  | updateElseInsert (filter : KeyText)
  /-- An insert if no row is found. -/
  | insertUnlessFound (filter : KeyText)

section

variable (next : NextLevel) (into : TableRef) (insert : InsertClause) (update : UpdateClause)

/-- Print a script. -/
def UpsertScript.print : UpsertScript → Print Unit
  | merge keys on => do
    let frame ← read
    Print.text "MERGE INTO "
    Print.objectName (frame.store.table into).name
    Print.newline
    Print.text "USING (SELECT "
    Print.separated ", " (keys.map fun key => do
      printKeyValue next key.assignment
      Print.text " AS "
      printKeyName key.assignment)
    match frame.dialect.dummyTable with
    | some dummy => Print.text (" FROM " ++ dummy)
    | none => pure ()
    Print.line (") " ++ mergeAlias)
    Print.text "ON "
    Print.parenthesized true (printKeyText next on)
    Print.newline
    if !update.items.isEmpty then
      Print.line "WHEN MATCHED THEN"
      Print.indented do
        Print.indentedLine "UPDATE"
        printSet next update.items
    Print.line "WHEN NOT MATCHED THEN"
    Print.indented (printMergeInsert next insert.items)
    Print.text frame.dialect.mergeTerminator
  | updateElseInsert filter => do
    let name := ((← read).store.table into).name
    Print.line "UPDATE"
    Print.indented do
      Print.indentation
      Print.objectName name
    Print.newline
    printSet next update.items
    Print.line "WHERE"
    Print.indented do
      Print.indentation
      printKeyText next filter
    Print.newline
    Print.newline
    Print.line "IF @@ROWCOUNT = 0"
    Print.line "BEGIN"
    Print.indented do
      printInsertInto next into insert.items
      printValues next insert.items
    Print.text "END"
  | insertUnlessFound filter => do
    let name := ((← read).store.table into).name
    Print.line "IF NOT EXISTS("
    Print.indented do
      Print.indentation
      Print.text "SELECT 1 FROM "
      Print.objectName name
      Print.text " WHERE "
      printKeyText next filter
    Print.newline
    Print.line ")"
    Print.line "BEGIN"
    Print.indented do
      printInsertInto next into insert.items
      printValues next insert.items
    Print.text "END"

end

/-- The script of a merge. -/
def mergeScript (s : Store) (keys : List UpsertKey) : UpsertScript :=
  .merge keys (conjoined (keys.map (·.mergeText s)))

/-- The script of an update or a search, and an insert. -/
def stepsScript (update : UpdateClause) (keys : List UpsertKey) : UpsertScript :=
  let filter := conjoined (keys.map (·.stepsText))
  if update.items.isEmpty then .insertUnlessFound filter else .updateElseInsert filter

/-! ### Printing -/

section

variable {next : NextLevel} {frame : Frame}

theorem printKeyText_append (ls rs : KeyText) :
    printKeyText next (ls ++ rs) = (do printKeyText next ls; printKeyText next rs) :=
  printLexemes_append ls rs

theorem printKeyText_cons (l : Lexeme KeyUnit Unit KeyJoint) (ls : KeyText) :
    printKeyText next (l :: ls) = (do
      l.print (KeyUnit.print next) (fun _ => pure ()) KeyJoint.print
      printKeyText next ls) := rfl

theorem printKeyText_single (l : Lexeme KeyUnit Unit KeyJoint) :
    printKeyText next [l] = l.print (KeyUnit.print next) (fun _ => pure ()) KeyJoint.print :=
  printLexemes_single l

/-- Tests of keys are printed with `AND` between them. -/
theorem printKeyText_conjoined {keys : List UpsertKey} {text : UpsertKey → KeyText}
    {test : Assignment → Print Unit}
    (h : ∀ key, test key.assignment frame = printKeyText next (text key) frame) :
    Print.separated " AND " ((keys.map UpsertKey.assignment).map test) frame =
      printKeyText next (conjoined (keys.map text)) frame := by
  induction keys with
  | nil => rfl
  | cons key rest ih =>
    cases rest with
    | nil => exact h key
    | cons other rest =>
      have hrow : conjoined ((key :: other :: rest).map text) =
          text key ++ .joint .and :: conjoined ((other :: rest).map text) := rfl
      rw [hrow, printKeyText_append, printKeyText_cons]
      exact seq_congr (h key) (seq_congr rfl ih)

theorem UpsertKey.print_stepsText (key : UpsertKey) : (do
    printKeyOperand next key.assignment
    Print.text " = "
    printKeyValue next key.assignment : Print Unit) = printKeyText next key.stepsText := by
  rw [stepsText, printKeyText_cons, printKeyText_cons, printKeyText_single]
  rfl

theorem UpsertKey.print_equality (key : UpsertKey) :
    printKeyText next key.equality = (do
      printKeyOperand next key.assignment
      Print.text " = "
      Print.text (mergeAlias ++ ".")
      printKeyName key.assignment) := by
  rw [equality, printKeyText_cons, printKeyText_cons, printKeyText_single]
  rfl

theorem UpsertKey.print_absence (key : UpsertKey) (act : Print Unit) : (do
      printKeyText next key.absence
      Print.text " OR "
      act) = (do
      printKeyOperand next key.assignment
      Print.text " IS NULL AND "
      Print.text (mergeAlias ++ ".")
      printKeyName key.assignment
      Print.text " IS NULL OR "
      act) := by
  have hand : Print.text " IS NULL AND " = (do
      Print.text " IS "
      Print.text "NULL"
      Print.text " AND ") := by
    rw [← Print.text_append, ← Print.text_append]
    rfl
  have hor : Print.text " IS NULL OR " = (do
      Print.text " IS "
      Print.text "NULL"
      Print.text " OR ") := by
    rw [← Print.text_append, ← Print.text_append]
    rfl
  rw [hand, hor, absence]
  simp [printKeyText, printLexemes, Lexeme.print, KeyUnit.print, KeyJoint.print]

/-- Where a field cannot be absent, its test in a merge is equality. -/
theorem printKeyMatch_plain {source : String} {key : Assignment}
    (h : frame.store.canBeNull key.target = false) :
    printKeyMatch next source key frame = (do
      printKeyOperand next key
      Print.text " = "
      Print.text (source ++ ".")
      printKeyName key : Print Unit) frame := by
  have hbare (act : Print Unit) : Print.parenthesized false act = act := by
    simp [Print.parenthesized]
  rw [← hbare (do
    printKeyOperand next key
    Print.text " = "
    Print.text (source ++ ".")
    printKeyName key)]
  unfold printKeyMatch
  change Print.parenthesized (frame.store.canBeNull key.target) (
    if frame.store.canBeNull key.target = true then _ else _) frame = _
  rw [h]
  rfl

/-- Where a field can be absent, so may be both sides of its test. -/
theorem printKeyMatch_nullable {source : String} {key : Assignment}
    (h : frame.store.canBeNull key.target = true) :
    printKeyMatch next source key frame = Print.parenthesized true (do
      printKeyOperand next key
      Print.text " IS NULL AND "
      (do
        Print.text (source ++ ".")
        printKeyName key)
      Print.text " IS NULL OR "
      printKeyOperand next key
      Print.text " = "
      Print.text (source ++ ".")
      printKeyName key) frame := by
  unfold printKeyMatch
  change Print.parenthesized (frame.store.canBeNull key.target) (
    if frame.store.canBeNull key.target = true then _ else _) frame = _
  rw [h]
  rfl

/-- The test of a key in a merge is printed. -/
theorem UpsertKey.print_mergeText (key : UpsertKey) :
    printKeyMatch next mergeAlias key.assignment frame =
      printKeyText next (key.mergeText frame.store) frame := by
  cases hnullable : frame.store.canBeNull key.assignment.target with
  | false =>
    have hplain : key.mergeText frame.store = key.equality := if_neg (Bool.eq_false_iff.mp hnullable)
    rw [printKeyMatch_plain hnullable, hplain, print_equality]
  | true =>
    have htext : key.mergeText frame.store =
        parenthesize true (key.absence ++ .joint .or :: key.equality) := if_pos hnullable
    have hrow : printKeyText next (key.absence ++ .joint .or :: key.equality) = (do
        printKeyText next key.absence
        Print.text " OR "
        printKeyText next key.equality) := by
      rw [printKeyText_append, printKeyText_cons]
      rfl
    rw [printKeyMatch_nullable hnullable, htext, printKeyText, printLexemes_parenthesize]
    refine parenthesized_congr (congrFun (Eq.trans ?_ hrow.symm) frame) true
    rw [print_equality, print_absence, bind_assoc]

variable (into : TableRef) (insert : InsertClause) (update : UpdateClause)

/-- Steps that look at the frame do the same if they do in this one. -/
theorem read_congr {act act' : Frame → Print Unit} (h : act frame frame = act' frame frame) :
    (read >>= act : Print Unit) frame = (read >>= act' : Print Unit) frame := h

theorem printUpsertAsMerge_script (keys : List UpsertKey) :
    printUpsertAsMerge next into insert update (keys.map UpsertKey.assignment) frame =
      (mergeScript frame.store keys).print next into insert update frame := by
  have halias : AliasSet.nextNumbered {} "s" = (mergeAlias, (AliasSet.nextNumbered {} "s").2) := rfl
  have hselected : Print.separated ", " ((keys.map UpsertKey.assignment).map fun key => do
      printKeyValue next key
      Print.text " AS "
      printKeyName key) = Print.separated ", " (keys.map fun key => do
      printKeyValue next key.assignment
      Print.text " AS "
      printKeyName key.assignment) := by
    rw [List.map_map]
    rfl
  have htests : Print.separated " AND "
      ((keys.map UpsertKey.assignment).map (printKeyMatch next mergeAlias)) frame =
        printKeyText next (conjoined (keys.map (·.mergeText frame.store))) frame :=
    printKeyText_conjoined fun key => key.print_mergeText
  have hon := parenthesized_congr htests true
  unfold printUpsertAsMerge mergeScript UpsertScript.print
  rw [halias]
  dsimp only
  rw [hselected]
  refine read_congr (seq_congr rfl (seq_congr rfl (seq_congr rfl (seq_congr rfl
    (seq_congr rfl ?_)))))
  cases frame.dialect.dummyTable with
  | none => exact seq_congr rfl (seq_congr rfl (seq_congr hon rfl))
  | some dummy => exact seq_congr rfl (seq_congr rfl (seq_congr rfl (seq_congr hon rfl)))

theorem printKeyTests_conjoined (keys : List UpsertKey) :
    printKeyTests next (keys.map UpsertKey.assignment) frame =
      printKeyText next (conjoined (keys.map UpsertKey.stepsText)) frame :=
  printKeyText_conjoined fun key => congrFun key.print_stepsText frame

theorem printUpsertInSteps_script (keys : List UpsertKey) :
    printUpsertInSteps next into insert update (keys.map UpsertKey.assignment) frame =
      (stepsScript update keys).print next into insert update frame := by
  have htests : printKeyTests next (keys.map UpsertKey.assignment) frame = _ :=
    printKeyTests_conjoined keys
  unfold printUpsertInSteps stepsScript
  cases hitems : update.items.isEmpty with
  | true =>
    refine read_congr (seq_congr rfl (seq_congr ?_ rfl))
    exact seq_congr rfl (seq_congr (seq_congr rfl (seq_congr rfl (seq_congr rfl (seq_congr rfl
      htests)))) rfl)
  | false =>
    refine read_congr (seq_congr rfl (seq_congr rfl (seq_congr rfl (seq_congr rfl (seq_congr rfl
      (seq_congr ?_ rfl))))))
    exact seq_congr rfl (seq_congr (seq_congr rfl htests) rfl)

end

/-! ## Reading tests of keys -/

/-- How tightly the parts of a test of keys bind. -/
def Frame.keyOperators (frame : Frame) : OperatorTable KeyUnit Unit KeyJoint where
  operand
    | .value key => frame.textLevel key.value
    | _ => Precedence.primary
  sign := conditionOperators.sign
  joint
    | .and => logicalConjunction
    | .or => logicalDisjunction
    | .is | .equal => comparison
  chains
    | .and | .or => true
    | .is | .equal => false

/-- What an upsert means: the values of its keys, and what its assignments make of a row. -/
structure UpsertMeaning (V : Type) where
  reading : Interpretation V
  decidesEquality : reading.DecidesEquality
  value : Scalar → V
  /-- What `SET` makes of a row. -/
  assigned : List Assignment → (FieldRef → V) → FieldRef → V
  /-- The row of a list of `VALUES`. -/
  inserted : List Assignment → FieldRef → V

section

variable {V : Type} (M : UpsertMeaning V) (s : Store)

/-- The row of a merge source: a value for each name. -/
def UpsertMeaning.sourceRow (keys : List UpsertKey) : List (String × V) :=
  keys.map fun key => ((s.field key.field).physicalName, M.value key.value)

/-- What an operand means on a row of the target and the row of the source. -/
def KeyUnit.meaning (source : List (String × V)) (row : FieldRef → V) : KeyUnit → TestMeaning V
  | .field key => .value (row key.field)
  | .source key =>
    .value ((source.lookup (s.field key.field).physicalName).getD M.reading.unknown)
  | .value key => .value (M.value key.value)
  | .null => .null

/-- What is meant by two parts with a connective or a comparison between them. -/
def KeyJoint.apply (I : Interpretation V) : KeyJoint → TestMeaning V → TestMeaning V → TestMeaning V
  | .and, a, b => .truth (Truth.and a.toTruth b.toTruth)
  | .or, a, b => .truth (Truth.or a.toTruth b.toTruth)
  | .is, .value v, .null => .truth (some (I.isNull v))
  | .equal, .value v, .value w => .truth (I.compare .equal v w)
  | _, _, _ => .truth none

/-- The truth of a test of keys. -/
def KeyTree.truth (source : List (String × V)) (row : FieldRef → V) (t : KeyTree) : Truth :=
  (t.value (KeyUnit.meaning M s source row) (fun _ a => .truth (Truth.not a.toTruth))
    (KeyJoint.apply M.reading)).toTruth

end

section

variable {frame : Frame}

/-- A part that is one word can be compared. -/
theorem KeyUnit.reads (unit : KeyUnit)
    (hunit : frame.keyOperators.operand unit = Precedence.primary) :
    frame.keyOperators.Reads (comparison + 1) [.operand unit] (.operand unit) :=
  .operand (hunit ▸ show comparison + 1 ≤ Precedence.primary by decide)

theorem UpsertKey.equality_reads (key : UpsertKey) :
    frame.keyOperators.Reads comparison key.equality
      (.joined (.operand (.field key)) .equal (.operand (.source key))) := by
  have hjoined := OperatorTable.Reads.joined (Int.le_refl (frame.keyOperators.joint .equal))
    (KeyUnit.reads (.field key) rfl) (KeyUnit.reads (.source key) rfl)
  exact hjoined

theorem UpsertKey.stepsText_reads {key : UpsertKey}
    (htight : comparison < frame.textLevel key.value) :
    frame.keyOperators.Reads comparison key.stepsText
      (.joined (.operand (.field key)) .equal (.operand (.value key))) := by
  have hvalue : frame.keyOperators.Reads (comparison + 1) [.operand (.value key)]
      (.operand (.value key)) := .operand htight
  have hjoined := OperatorTable.Reads.joined (Int.le_refl (frame.keyOperators.joint .equal))
    (KeyUnit.reads (.field key) rfl) hvalue
  exact hjoined

/-- A test for absence. -/
theorem absenceTest_reads {unit : KeyUnit}
    (hunit : frame.keyOperators.operand unit = Precedence.primary) :
    frame.keyOperators.Reads comparison [.operand unit, .joint .is, .operand .null]
      (.joined (.operand unit) .is (.operand .null)) := by
  have hjoined := OperatorTable.Reads.joined (Int.le_refl (frame.keyOperators.joint .is))
    (KeyUnit.reads unit hunit) (KeyUnit.reads .null rfl)
  exact hjoined

/-- How the test of a key in a merge is grouped. -/
def UpsertKey.mergeTree (s : Store) (key : UpsertKey) : KeyTree :=
  let equality : KeyTree := .joined (.operand (.field key)) .equal (.operand (.source key))
  if (s.field key.field).canBeNull then
    .joined (.joined (.joined (.operand (.field key)) .is (.operand .null)) .and
      (.joined (.operand (.source key)) .is (.operand .null))) .or equality
  else equality

theorem UpsertKey.mergeText_reads (s : Store) (key : UpsertKey) :
    frame.keyOperators.Reads (logicalConjunction + 1) (key.mergeText s) (key.mergeTree s) := by
  unfold mergeText mergeTree
  split
  · have habsence : frame.keyOperators.Reads logicalConjunction key.absence
        (.joined (.joined (.operand (.field key)) .is (.operand .null)) .and
          (.joined (.operand (.source key)) .is (.operand .null))) :=
      OperatorTable.Reads.joined (Int.le_refl _)
        ((absenceTest_reads rfl).mono
          (show frame.keyOperators.left .and ≤ comparison from (by decide :
            logicalConjunction ≤ comparison)))
        ((absenceTest_reads rfl).mono
          (show frame.keyOperators.joint .and + 1 ≤ comparison from (by decide :
            logicalConjunction + 1 ≤ comparison)))
    refine .group (by decide) (.joined (show Precedence.unknown ≤ logicalDisjunction by decide) ?_ ?_)
    · exact habsence.mono (show logicalDisjunction ≤ logicalConjunction by decide)
    · exact key.equality_reads.mono (show logicalDisjunction + 1 ≤ comparison by decide)
  · exact key.equality_reads.mono (by decide)

/-- Tests with `AND` between them are all true. -/
theorem conjoined_reads {keys : List UpsertKey} (hkeys : keys ≠ []) {text : UpsertKey → KeyText}
    {test : UpsertKey → KeyTree}
    (h : ∀ key ∈ keys, frame.keyOperators.Reads (logicalConjunction + 1) (text key) (test key)) :
    ∃ t : KeyTree, frame.keyOperators.Chain logicalConjunction (logicalConjunction + 1) (· = .and)
        (conjoined (keys.map text)) t ∧
      ∀ {V : Type} (M : UpsertMeaning V) (s : Store) (source : List (String × V))
        (row : FieldRef → V), KeyTree.truth M s source row t = some true ↔
          ∀ key ∈ keys, KeyTree.truth M s source row (test key) = some true := by
  induction keys with
  | nil => exact absurd rfl hkeys
  | cons key rest ih =>
    have hfirst := h key List.mem_cons_self
    cases rest with
    | nil => exact ⟨test key, .first hfirst, fun M s source row => by simp⟩
    | cons other rest =>
      obtain ⟨t, ht, htruth⟩ := ih (List.cons_ne_nil _ _)
        fun key hkey => h key (List.mem_cons_of_mem _ hkey)
      obtain ⟨u, hu, hvalue⟩ := OperatorTable.Chain.extend (T := frame.keyOperators)
        (L := logicalConjunction) (P := (· = .and)) (Q := (· = .and)) .and (.first hfirst) rfl rfl
        rfl ht fun _ h => h
      refine ⟨u, hu, fun M s source row => ?_⟩
      have hand := congrArg TestMeaning.toTruth (hvalue (KeyUnit.meaning M s source row)
        (fun _ a => .truth (Truth.not a.toTruth)) (KeyJoint.apply M.reading) (by
          rintro _ rfl a b c
          exact congrArg TestMeaning.truth (Truth.and_assoc _ _ _).symm))
      change KeyTree.truth M s source row u = Truth.and (KeyTree.truth M s source row (test key))
        (KeyTree.truth M s source row t) at hand
      rw [hand, Truth.and_eq_true_iff, htruth, List.forall_mem_cons (a := key)]

theorem conjoined_read? {keys : List UpsertKey} (hkeys : keys ≠ []) {text : UpsertKey → KeyText}
    {test : UpsertKey → KeyTree}
    (h : ∀ key ∈ keys, frame.keyOperators.Reads (logicalConjunction + 1) (text key) (test key)) :
    ∃ t : KeyTree, frame.keyOperators.read? (conjoined (keys.map text)) = some t ∧
      ∀ {V : Type} (M : UpsertMeaning V) (s : Store) (source : List (String × V))
        (row : FieldRef → V), KeyTree.truth M s source row t = some true ↔
          ∀ key ∈ keys, KeyTree.truth M s source row (test key) = some true := by
  obtain ⟨t, ht, htruth⟩ := conjoined_reads hkeys h
  have hreads := (ht.reads (show logicalConjunction ≤ logicalConjunction + 1 by decide)).mono
    (show Precedence.unknown ≤ logicalConjunction by decide)
  exact ⟨t, hreads.read?_eq, htruth⟩

end

/-! ## What upserts do to a table -/

section

variable {V : Type} (M : UpsertMeaning V) (keys : List UpsertKey) (insert : InsertClause)
  (update : UpdateClause)

namespace UpsertMeaning

/-- A row with the values of the keys, where absent ones are alike. -/
def hasKey (row : FieldRef → V) : Bool :=
  keys.all fun key =>
    (M.reading.isNull (row key.field) && M.reading.isNull (M.value key.value)) ||
      M.reading.compare .equal (row key.field) (M.value key.value) == some true

/-- What an upsert makes of a row that it finds. -/
def updated (row : FieldRef → V) : FieldRef → V :=
  if update.items.isEmpty then row else M.assigned update.items row

/-- What an upsert makes of a table, if it finds some rows. -/
def upserted (found : (FieldRef → V) → Bool) (rows : List (FieldRef → V)) : List (FieldRef → V) :=
  if rows.any found then rows.map fun row => if found row then M.updated update row else row
  else rows ++ [M.inserted insert.items]

end UpsertMeaning

/-- Whether a test of keys that has been read is true. -/
def KeyTree.holds (s : Store) (source : List (String × V)) (t : KeyTree) (row : FieldRef → V) :
    Bool :=
  KeyTree.truth M s source row t == some true

/-- What a script makes of a table, if its test of keys can be read. -/
def UpsertScript.run (frame : Frame) (rows : List (FieldRef → V)) :
    UpsertScript → Option (List (FieldRef → V))
  | merge keys on => do
    let t ← frame.keyOperators.read? on
    let matched := KeyTree.holds M frame.store (M.sourceRow frame.store keys) t
    let merged := rows.map fun row =>
      if matched row && !update.items.isEmpty then M.assigned update.items row else row
    some (if rows.any matched then merged else merged ++ [M.inserted insert.items])
  | updateElseInsert filter => do
    let found := KeyTree.holds M frame.store [] (← frame.keyOperators.read? filter)
    let updated := rows.map fun row => if found row then M.assigned update.items row else row
    some (if rows.countP found = 0 then updated ++ [M.inserted insert.items] else updated)
  | insertUnlessFound filter => do
    let found := KeyTree.holds M frame.store [] (← frame.keyOperators.read? filter)
    some (if rows.any found then rows else rows ++ [M.inserted insert.items])

end

/-! ### The rows that are found -/

section

variable {V : Type} {M : UpsertMeaning V} {keys : List UpsertKey} {insert : InsertClause}
  {update : UpdateClause}

/-- The column of a merge source has the value of its key, if no other one has its name. -/
theorem UpsertMeaning.lookup_sourceRow {s : Store}
    (hnames : (keys.map fun key => (s.field key.field).physicalName).Nodup) {key : UpsertKey}
    (hkey : key ∈ keys) :
    (M.sourceRow s keys).lookup (s.field key.field).physicalName = some (M.value key.value) := by
  induction keys with
  | nil => cases hkey
  | cons other rest ih =>
    obtain ⟨hother, hrest⟩ := List.nodup_cons.mp hnames
    have hrow : M.sourceRow s (other :: rest) =
        ((s.field other.field).physicalName, M.value other.value) :: M.sourceRow s rest := rfl
    rcases List.mem_cons.mp hkey with rfl | hkey
    · rw [hrow, List.lookup_cons_self]
    · have hne : ((s.field key.field).physicalName == (s.field other.field).physicalName) = false := by
        rw [beq_eq_false_iff_ne]
        intro heq
        exact hother (List.mem_map.mpr ⟨key, hkey, heq⟩)
      rw [hrow, List.lookup_cons, hne]
      exact ih hrest hkey

/-- Where no row is found, none is changed. -/
theorem map_of_none_found {found : (FieldRef → V) → Bool} {rows : List (FieldRef → V)}
    (h : rows.any found = false) (f : (FieldRef → V) → FieldRef → V) :
    (rows.map fun row => if found row then f row else row) = rows := by
  refine (List.map_congr_left fun row hrow => ?_).trans (List.map_id rows)
  rw [Bool.eq_false_iff.mpr (List.any_eq_false.mp h row hrow)]
  rfl

/-- On a row where only nullable fields are absent, a merge finds the key. -/
theorem UpsertKey.mergeTree_truth {s : Store}
    (hnames : (keys.map fun key => (s.field key.field).physicalName).Nodup) {row : FieldRef → V}
    (hrow : ∀ key ∈ keys, (s.field key.field).canBeNull = false →
      M.reading.isNull (row key.field) = false) {key : UpsertKey} (hkey : key ∈ keys) :
    KeyTree.truth M s (M.sourceRow s keys) row (key.mergeTree s) = some true ↔
      ((M.reading.isNull (row key.field) && M.reading.isNull (M.value key.value)) ||
        M.reading.compare .equal (row key.field) (M.value key.value) == some true) = true := by
  have hsource : KeyUnit.meaning M s (M.sourceRow s keys) row (.source key) =
      .value (M.value key.value) := by
    rw [KeyUnit.meaning, UpsertMeaning.lookup_sourceRow hnames hkey, Option.getD_some]
  have hequal : KeyTree.truth M s (M.sourceRow s keys) row
      (.joined (.operand (.field key)) .equal (.operand (.source key))) =
        M.reading.compare .equal (row key.field) (M.value key.value) := by
    rw [KeyTree.truth, ReadTree.value, ReadTree.value, ReadTree.value, hsource]
    rfl
  unfold mergeTree
  dsimp only
  split
  · have habsent : KeyTree.truth M s (M.sourceRow s keys) row
        (.joined (.joined (.operand (.field key)) .is (.operand .null)) .and
          (.joined (.operand (.source key)) .is (.operand .null))) =
        some (M.reading.isNull (row key.field) && M.reading.isNull (M.value key.value)) := by
      rw [← Truth.some_and_some]
      simp only [KeyTree.truth, ReadTree.value, hsource]
      rfl
    have hor (t u : KeyTree) : KeyTree.truth M s (M.sourceRow s keys) row (.joined t .or u) =
        Truth.or (KeyTree.truth M s (M.sourceRow s keys) row t)
          (KeyTree.truth M s (M.sourceRow s keys) row u) := rfl
    rw [hor, habsent, hequal, Truth.or_eq_true_iff, Option.some_inj, Bool.or_eq_true, beq_iff_eq]
  · next hnullable =>
    rw [hequal, hrow key hkey (Bool.eq_false_iff.mpr hnullable), Bool.false_and, Bool.false_or,
      beq_iff_eq]

/-- A merge does what an upsert is to do. -/
theorem mergeScript_run {frame : Frame} (hkeys : keys ≠ [])
    (hnames : (keys.map fun key => (frame.store.field key.field).physicalName).Nodup)
    {rows : List (FieldRef → V)}
    (hrows : ∀ row ∈ rows, ∀ key ∈ keys, (frame.store.field key.field).canBeNull = false →
      M.reading.isNull (row key.field) = false) :
    (mergeScript frame.store keys).run M insert update frame rows =
      some (M.upserted insert update (M.hasKey keys) rows) := by
  have hreads : ∀ key ∈ keys, frame.keyOperators.Reads (logicalConjunction + 1)
      (key.mergeText frame.store) (key.mergeTree frame.store) :=
    fun key _ => key.mergeText_reads frame.store
  obtain ⟨t, hread, htruth⟩ := conjoined_read? hkeys hreads
  have hfound : ∀ row ∈ rows,
      KeyTree.holds M frame.store (M.sourceRow frame.store keys) t row = M.hasKey keys row := by
    intro row hrow
    rw [Bool.eq_iff_iff, KeyTree.holds, beq_iff_eq, htruth, UpsertMeaning.hasKey, List.all_eq_true]
    exact forall₂_congr fun key hkey => UpsertKey.mergeTree_truth hnames (hrows row hrow) hkey
  have hany : rows.any (KeyTree.holds M frame.store (M.sourceRow frame.store keys) t) =
      rows.any (M.hasKey keys) := by
    rw [Bool.eq_iff_iff, List.any_eq_true, List.any_eq_true]
    exact exists_congr fun row => and_congr_right fun hrow => by rw [hfound row hrow]
  have hrun : (mergeScript frame.store keys).run M insert update frame rows =
      (frame.keyOperators.read? (conjoined (keys.map (·.mergeText frame.store)))).bind fun t =>
        let matched := KeyTree.holds M frame.store (M.sourceRow frame.store keys) t
        let merged := rows.map fun row =>
          if matched row && !update.items.isEmpty then M.assigned update.items row else row
        some (if rows.any matched then merged else merged ++ [M.inserted insert.items]) := rfl
  have hmerged : (rows.map fun row =>
      if KeyTree.holds M frame.store (M.sourceRow frame.store keys) t row && !update.items.isEmpty then
        M.assigned update.items row else row) =
      rows.map fun row => if M.hasKey keys row then M.updated update row else row := by
    refine List.map_congr_left fun row hrow => ?_
    rw [hfound row hrow, UpsertMeaning.updated]
    cases M.hasKey keys row <;> cases update.items.isEmpty <;> rfl
  rw [hrun, hread, Option.bind_some]
  dsimp only
  rw [hmerged, hany, UpsertMeaning.upserted]
  cases hnone : rows.any (M.hasKey keys) with
  | true => rfl
  | false => rw [map_of_none_found hnone]

/-- A row that an update or a search finds has equal values, and so present ones. -/
theorem UpsertKey.stepsTree_truth {s : Store} (row : FieldRef → V) (key : UpsertKey) :
    KeyTree.truth M s [] row (.joined (.operand (.field key)) .equal (.operand (.value key))) =
      M.reading.compare .equal (row key.field) (M.value key.value) := rfl

/-- The rows that an update or a search finds. -/
def UpsertMeaning.equalsKey (M : UpsertMeaning V) (keys : List UpsertKey) (row : FieldRef → V) :
    Bool :=
  keys.all fun key => M.reading.compare .equal (row key.field) (M.value key.value) == some true

/-- An update or a search, and an insert, do what an upsert is to do with the rows that they find. -/
theorem stepsScript_run {frame : Frame} (hkeys : keys ≠ [])
    (htight : ∀ key ∈ keys, comparison < frame.textLevel key.value) (rows : List (FieldRef → V)) :
    (stepsScript update keys).run M insert update frame rows =
      some (M.upserted insert update (M.equalsKey keys) rows) := by
  have hreads : ∀ key ∈ keys, frame.keyOperators.Reads (logicalConjunction + 1) key.stepsText
      (.joined (.operand (.field key)) .equal (.operand (.value key))) :=
    fun key hkey => (UpsertKey.stepsText_reads (htight key hkey)).mono (by decide)
  obtain ⟨t, hread, htruth⟩ := conjoined_read? hkeys hreads
  have hfound : KeyTree.holds M frame.store [] t = M.equalsKey keys := by
    funext row
    rw [Bool.eq_iff_iff, KeyTree.holds, beq_iff_eq, htruth, UpsertMeaning.equalsKey,
      List.all_eq_true]
    simp only [UpsertKey.stepsTree_truth, beq_iff_eq]
  unfold UpsertMeaning.upserted UpsertMeaning.updated
  cases hitems : update.items.isEmpty with
  | true =>
    have hrun : (stepsScript update keys).run M insert update frame rows =
        (frame.keyOperators.read? (conjoined (keys.map (·.stepsText)))).bind fun t =>
          some (if rows.any (KeyTree.holds M frame.store [] t) then rows
            else rows ++ [M.inserted insert.items]) := by
      rw [stepsScript, hitems]
      rfl
    rw [hrun, hread, Option.bind_some, hfound]
    simp
  | false =>
    have hrun : (stepsScript update keys).run M insert update frame rows =
        (frame.keyOperators.read? (conjoined (keys.map (·.stepsText)))).bind fun t =>
          let found := KeyTree.holds M frame.store [] t
          let updated := rows.map fun row =>
            if found row then M.assigned update.items row else row
          some (if rows.countP found = 0 then updated ++ [M.inserted insert.items]
            else updated) := by
      rw [stepsScript, hitems]
      rfl
    rw [hrun, hread, Option.bind_some, hfound]
    dsimp only
    cases hany : rows.any (M.equalsKey keys) with
    | true =>
      have hcount : rows.countP (M.equalsKey keys) ≠ 0 := by
        obtain ⟨row, hrow, hequal⟩ := List.any_eq_true.mp hany
        exact fun hzero => List.countP_eq_zero.mp hzero row hrow hequal
      rw [if_neg hcount]
      rfl
    | false =>
      have hcount : rows.countP (M.equalsKey keys) = 0 :=
        List.countP_eq_zero.mpr (List.any_eq_false.mp hany)
      rw [if_pos hcount, map_of_none_found hany]
      rfl

/-- What has equal values has the key. -/
theorem UpsertMeaning.hasKey_of_equalsKey {row : FieldRef → V} (h : M.equalsKey keys row = true) :
    M.hasKey keys row = true := by
  rw [equalsKey, List.all_eq_true] at h
  rw [hasKey, List.all_eq_true]
  exact fun key hkey => Bool.or_eq_true_iff.mpr (.inr (h key hkey))

/-- Values are found to be equal if none of them is absent. -/
theorem UpsertMeaning.equalsKey_iff {row : FieldRef → V} :
    M.equalsKey keys row = true ↔ M.hasKey keys row = true ∧
      ∀ key ∈ keys, M.reading.isNull (M.value key.value) = false := by
  constructor
  · intro h
    refine ⟨hasKey_of_equalsKey h, fun key hkey => ?_⟩
    rw [equalsKey, List.all_eq_true] at h
    by_contra hnull
    have hunknown := (M.decidesEquality (row key.field) (M.value key.value)).mpr
      (.inr (Bool.eq_true_of_not_eq_false hnull))
    have hequal := h key hkey
    rw [hunknown] at hequal
    cases hequal
  · rintro ⟨h, hpresent⟩
    rw [hasKey, List.all_eq_true] at h
    rw [equalsKey, List.all_eq_true]
    intro key hkey
    have hmatch := h key hkey
    rwa [hpresent key hkey, Bool.and_false, Bool.false_or] at hmatch

/-- What an upsert makes of a table by the equality of all values is what it is to do, exactly if it
misses no row with the key. -/
theorem UpsertMeaning.upserted_equalsKey_iff (rows : List (FieldRef → V)) :
    M.upserted insert update (M.equalsKey keys) rows =
        M.upserted insert update (M.hasKey keys) rows ↔
      ∀ row ∈ rows, M.hasKey keys row = true →
        ∀ key ∈ keys, M.reading.isNull (M.value key.value) = false := by
  by_cases hpresent : ∀ key ∈ keys, M.reading.isNull (M.value key.value) = false
  · have hsame : M.equalsKey keys = M.hasKey keys := by
      funext row
      rw [Bool.eq_iff_iff, equalsKey_iff]
      exact and_iff_left hpresent
    exact ⟨fun _ _ _ _ => hpresent, fun _ => by rw [hsame]⟩
  · have hmissed : rows.any (M.equalsKey keys) = false :=
      List.any_eq_false.mpr fun row _ hequal => hpresent (equalsKey_iff.mp hequal).2
    have hsteps : M.upserted insert update (M.equalsKey keys) rows =
        rows ++ [M.inserted insert.items] := by
      rw [upserted, hmissed]
      rfl
    rw [hsteps]
    cases hfound : rows.any (M.hasKey keys) with
    | true =>
      have hmerge : (M.upserted insert update (M.hasKey keys) rows).length = rows.length := by
        rw [upserted, hfound, if_pos rfl, List.length_map]
      constructor
      · intro heq
        have hlength := congrArg List.length heq
        rw [hmerge, List.length_append] at hlength
        exact absurd hlength (Nat.succ_ne_self _)
      · intro hall
        obtain ⟨row, hrow, hkey⟩ := List.any_eq_true.mp hfound
        exact absurd (hall row hrow hkey) hpresent
    | false =>
      have hmerge : M.upserted insert update (M.hasKey keys) rows =
          rows ++ [M.inserted insert.items] := by
        rw [upserted, hfound]
        rfl
      exact ⟨fun _ row hrow hkey => absurd hkey (List.any_eq_false.mp hfound row hrow),
        fun _ => hmerge.symm⟩

end

/-! ## The two styles -/

/-- The keys of an upsert: the given ones, else the assigned fields of the primary key. -/
def Store.keysOfUpsert (s : Store) (insert : InsertClause) (update : UpdateClause) :
    List Assignment :=
  if update.keys.isEmpty then
    insert.items.filter fun item =>
      match item.target with
      | .field f => (s.field f).isPrimaryKey
      | _ => false
  else update.keys

theorem upsertKeys_eq {frame : Frame} {into : TableRef} {insert : InsertClause}
    {update : UpdateClause} (h : frame.store.keysOfUpsert insert update ≠ []) :
    upsertKeys into insert update frame =
      (pure (frame.store.keysOfUpsert insert update) : Print (List Assignment)) frame := by
  unfold Store.keysOfUpsert at h ⊢
  unfold upsertKeys
  cases hgiven : update.keys.isEmpty with
  | false => rfl
  | true =>
    rw [hgiven, if_pos rfl] at h
    rw [read_bind]
    exact congrFun (if_neg fun hempty => h (List.isEmpty_iff.mp hempty)) frame

/-- A step with a known result gives it to what follows. -/
theorem bind_known {α β : Type} {frame : Frame} {act : Print α} {a : α}
    (h : act frame = (pure a : Print α) frame) (rest : α → Print β) :
    (act >>= rest) frame = rest a frame :=
  congrArg (fun step => step >>= fun a => rest a frame) h

section

variable {next : NextLevel} {query : QueryRef} {frame : Frame} {into : TableRef}
  {insert : InsertClause} {update : UpdateClause} {keys : List UpsertKey}

/-- An upsert whose target and keys are known is printed in the style of the dialect. -/
theorem printUpsert_eq (hupsert : frame.capabilities.upsert = true) (hinto : insert.into = some into)
    (hgiven : frame.store.keysOfUpsert insert update = keys.map UpsertKey.assignment)
    (hkeys : keys ≠ []) :
    printUpsert next query insert update frame =
      (match frame.dialect.upsertStyle with
        | .merge => printUpsertAsMerge next into insert update (keys.map UpsertKey.assignment)
        | .onConflict => printUpsertOnConflict next into insert update (keys.map UpsertKey.assignment)
        | .updateThenInsert =>
          printUpsertInSteps next into insert update (keys.map UpsertKey.assignment))
        (frame.entering query) := by
  have hsome : frame.store.keysOfUpsert insert update ≠ [] := by
    rw [hgiven]
    exact fun h => hkeys (List.map_eq_nil_iff.mp h)
  have htarget : insertTarget insert frame = (pure into : Print TableRef) frame := by
    rw [insertTarget, hinto]
  have hfound : upsertKeys into insert update frame = _ := upsertKeys_eq hsome
  rw [hgiven] at hfound
  unfold printUpsert
  rw [read_bind, hupsert]
  dsimp only
  rw [if_neg (by decide), bind_known htarget, bind_known hfound]
  rfl

/-- A merge is printed. -/
theorem printUpsert_merge (hupsert : frame.capabilities.upsert = true)
    (hstyle : frame.dialect.upsertStyle = .merge) (hinto : insert.into = some into)
    (hgiven : frame.store.keysOfUpsert insert update = keys.map UpsertKey.assignment)
    (hkeys : keys ≠ []) :
    printUpsert next query insert update frame =
      (mergeScript frame.store keys).print next into insert update (frame.entering query) := by
  rw [printUpsert_eq hupsert hinto hgiven hkeys, hstyle]
  exact printUpsertAsMerge_script into insert update keys

/-- An update or a search, and an insert, are printed. -/
theorem printUpsert_steps (hupsert : frame.capabilities.upsert = true)
    (hstyle : frame.dialect.upsertStyle = .updateThenInsert) (hinto : insert.into = some into)
    (hgiven : frame.store.keysOfUpsert insert update = keys.map UpsertKey.assignment)
    (hkeys : keys ≠ []) :
    printUpsert next query insert update frame =
      (stepsScript update keys).print next into insert update (frame.entering query) := by
  rw [printUpsert_eq hupsert hinto hgiven hkeys, hstyle]
  exact printUpsertInSteps_script into insert update keys

/-- An upsert with keys prints as a merge in one frame, and as an update or a search with an insert
in another.  On every table whose rows have a value in the fields that are never absent, the merge
does what an upsert is to do: rows with the key are updated, and the new one is inserted if there is
none.  The other style leaves the same table if and only if no part of a key that is found is
absent. -/
theorem printUpsert_styles_agree_iff {frame' : Frame} (hstore : frame'.store = frame.store)
    (hupsert : frame.capabilities.upsert = true) (hupsert' : frame'.capabilities.upsert = true)
    (hmerge : frame.dialect.upsertStyle = .merge)
    (hsteps : frame'.dialect.upsertStyle = .updateThenInsert) (hinto : insert.into = some into)
    (hgiven : frame.store.keysOfUpsert insert update = keys.map UpsertKey.assignment)
    (hkeys : keys ≠ [])
    (hnames : (keys.map fun key => (frame.store.field key.field).physicalName).Nodup)
    (htight : ∀ key ∈ keys, comparison < (frame'.entering query).textLevel key.value) :
    let merge := mergeScript frame.store keys
    let steps := stepsScript update keys
    printUpsert next query insert update frame =
        merge.print next into insert update (frame.entering query) ∧
      printUpsert next query insert update frame' =
        steps.print next into insert update (frame'.entering query) ∧
      ∀ {V : Type} (M : UpsertMeaning V) (rows : List (FieldRef → V)),
        (∀ row ∈ rows, ∀ key ∈ keys, (frame.store.field key.field).canBeNull = false →
          M.reading.isNull (row key.field) = false) →
        ∃ merged stepped : List (FieldRef → V),
          merge.run M insert update (frame.entering query) rows = some merged ∧
          steps.run M insert update (frame'.entering query) rows = some stepped ∧
          merged = M.upserted insert update (M.hasKey keys) rows ∧
          (stepped = merged ↔ ∀ row ∈ rows, M.hasKey keys row = true →
            ∀ key ∈ keys, M.reading.isNull (M.value key.value) = false) := by
  intro merge steps
  have hgiven' : frame'.store.keysOfUpsert insert update = keys.map UpsertKey.assignment := by
    rw [hstore, hgiven]
  refine ⟨printUpsert_merge hupsert hmerge hinto hgiven hkeys,
    printUpsert_steps hupsert' hsteps hinto hgiven' hkeys, fun M rows hrows => ?_⟩
  have hnames' : (keys.map fun key =>
      ((frame.entering query).store.field key.field).physicalName).Nodup := hnames
  exact ⟨_, _, mergeScript_run hkeys hnames' hrows,
    stepsScript_run hkeys htight rows, rfl, UpsertMeaning.upserted_equalsKey_iff rows⟩

end

/-- What assignments of constants make of a row of nullable integers. -/
def assignIntegers (items : List Assignment) (row : FieldRef → Option Int) : FieldRef → Option Int :=
  items.foldl (fun row item f =>
    match item.target, item.value with
    | .field g, some (.value v) => if f = g then v.value.nullableInteger else row f
    | _, _ => row f) row

/-- Upserts of constants that are nullable integers. -/
def UpsertMeaning.nullableIntegers : UpsertMeaning (Option Int) where
  reading := .nullableIntegers
  decidesEquality := Interpretation.nullableIntegers_decidesEquality
  value
    | .value v => v.value.nullableInteger
    | _ => none
  assigned := assignIntegers
  inserted items := assignIntegers items fun _ => none

/-- Someone without an age is found by a merge, and inserted a second time after a search; someone
with an age is found by both. -/
theorem printUpsert_styles_agree_absentAge :
    let frame (dialect : Dialect) : Frame :=
      { provider := .ofDialect dialect, store := .ofAges, options := {} }
    let age (c : Constant) : UpsertKey := ⟨⟨0⟩, .value ⟨.int32, c⟩⟩
    let insert (c : Constant) : InsertClause := { into := some ⟨0⟩, items := [(age c).assignment] }
    let update (c : Constant) : UpdateClause := { keys := [(age c).assignment] }
    let merged (c : Constant) (rows : List (FieldRef → Option Int)) :=
      (mergeScript .ofAges [age c]).run .nullableIntegers (insert c) (update c)
        ((frame .sqlServer).entering ⟨0⟩) rows
    let stepped (c : Constant) (rows : List (FieldRef → Option Int)) :=
      (stepsScript (update c) [age c]).run .nullableIntegers (insert c) (update c)
        ((frame .generic).entering ⟨0⟩) rows
    stepped .null [fun _ => none] ≠ merged .null [fun _ => none] ∧
      stepped (.integer 7) [fun _ => some 7] = merged (.integer 7) [fun _ => some 7] := by
  intro frame age insert update merged stepped
  have hstyles (c : Constant)
      (htight : comparison < ((frame .generic).entering ⟨0⟩).textLevel (age c).value)
      (row : FieldRef → Option Int) :
      stepped c [row] = merged c [row] ↔
        (UpsertMeaning.nullableIntegers.hasKey [age c] row = true → c.nullableInteger ≠ none) := by
    obtain ⟨-, -, h⟩ := @printUpsert_styles_agree_iff (.within 1) ⟨0⟩ (frame .sqlServer) ⟨0⟩
      (insert c) (update c) [age c] (frame .generic) rfl rfl rfl rfl rfl rfl rfl
      (List.cons_ne_nil _ _)
      (List.nodup_singleton _) (List.forall_mem_singleton.mpr htight)
    have hpresent : ∀ row' ∈ [row], ∀ key ∈ [age c],
        ((frame .sqlServer).store.field key.field).canBeNull = false →
          UpsertMeaning.nullableIntegers.reading.isNull (row' key.field) = false :=
      fun _ _ => List.forall_mem_singleton.mpr fun hplain => nomatch hplain
    obtain ⟨rows, rows', hmerged, hstepped, -, hiff⟩ := h .nullableIntegers [row] hpresent
    have hmerged' : merged c [row] = some rows := hmerged
    have hstepped' : stepped c [row] = some rows' := hstepped
    rw [hmerged', hstepped', Option.some_inj, hiff, List.forall_mem_singleton,
      List.forall_mem_singleton]
    exact imp_congr_right fun _ => Option.isNone_eq_false_iff.trans Option.isSome_iff_ne_none
  constructor
  · intro hsame
    exact (hstyles .null (by decide) _).mp hsame rfl rfl
  · exact (hstyles (.integer 7) (by decide) _).mpr fun _ => by decide

end SqlCompiler
