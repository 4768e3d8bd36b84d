import SqlCompiler.Proofs.Reading.Comments
import SqlCompiler.Proofs.Reading.Operators
import SqlCompiler.Render.Select

/-!
# Signs that meet

A negation is printed as a minus sign right before its operand.  The operand is put in parentheses by
its strength alone, and a number that has a sign itself is as strong as the negation or stronger, so
that the two signs can meet and open a comment.  Everywhere else a minus sign has blanks around it.

Main results:

- Definition `Spelling`: the text of operators over literals and names, with the places of the
  parentheses; `Frame.spelling?`: how an expression is spelled, columns that are printed as their
  expression included.
- Theorem `Spelling.readOn_text`: the text of a spelling opens a comment where signs meet, and nowhere
  else.
- Theorem `Scalar.print_opensComment_iff`: the same for what is printed.
-/

namespace SqlCompiler

/-! ## Spellings -/

/-- A literal with its text. -/
structure Dialect.LiteralText (d : Dialect) where
  value : Constant
  type : SqlType
  text : String
  isLiteral : d.literal? value type = some text

/-- The literal form of a constant, if it has one. -/
def Dialect.literalText? (d : Dialect) (value : Constant) (type : SqlType) :
    Option d.LiteralText :=
  match h : d.literal? value type with
  | some text => some ⟨value, type, text, h⟩
  | none => none

theorem Dialect.map_literalText (d : Dialect) (value : Constant) (type : SqlType) :
    (d.literalText? value type).map (·.text) = d.literal? value type := by
  unfold literalText?
  split
  · next h => exact h.symm
  · next h => exact h.symm

/-- The text of operators over literals and names. -/
inductive Spelling (d : Dialect) where
  | literal (l : d.LiteralText)
  /-- A placeholder, a field or a column of a source. -/
  | name (text : String)
  /-- A minus sign with its operand, which may be in parentheses. -/
  | negated (wrap : Bool) (operand : Spelling d)
  | joined (wrapLeft : Bool) (left : Spelling d) (op : BinaryOperator) (wrapRight : Bool)
      (right : Spelling d)

/-- A text, in parentheses if told so. -/
def wrapText (wrap : Bool) (text : String) : String :=
  if wrap then "(" ++ text ++ ")" else text

namespace Spelling

variable {d : Dialect}

/-- The text that is spelled. -/
def text : Spelling d → String
  | literal l => l.text
  | name text => text
  | negated wrap operand => "-" ++ wrapText wrap operand.text
  | joined wrapLeft left op wrapRight right =>
    wrapText wrapLeft left.text ++ (" " ++ op.sign ++ " ") ++ wrapText wrapRight right.text

/-- Whether the text begins with a minus sign. -/
def beginsWithSign : Spelling d → Bool
  | literal l => l.text.toList.head? == some '-'
  | name text => text.toList.head? == some '-'
  | negated _ _ => true
  | joined wrapLeft left _ _ _ => !wrapLeft && left.beginsWithSign

/-- Whether the sign of some negation stands right before another one. -/
def signsMeet : Spelling d → Bool
  | literal _ | name _ => false
  | negated wrap operand => !wrap && operand.beginsWithSign || operand.signsMeet
  | joined _ left _ _ right => left.signsMeet || right.signsMeet

/-- The texts that are printed as they are given, names and decimal numbers, are read to their end
without a comment. -/
def namesAreQuiet : Spelling d → Bool
  | literal l =>
    match l.value with
    | .decimal s => d.isQuiet s
    | _ => true
  | name text => d.isQuiet text
  | negated _ operand => operand.namesAreQuiet
  | joined _ left _ _ right => left.namesAreQuiet && right.namesAreQuiet

/-! ### Reading a spelling -/

/-- What a reader makes of a text, behind a minus sign too: it meets a comment if told so. -/
structure IsRead (d : Dialect) (text : List Char) (comment signed : Bool) : Prop where
  plain : d.readOn .plain text = if comment then .comment else .plain
  minus : d.readOn .minus text = if signed || comment then .comment else .plain

theorem isRead_of_isQuiet {text : String} (h : d.isQuiet text = true) :
    IsRead d text.toList false (text.toList.head? == some '-') := by
  obtain ⟨hne, hread⟩ := Dialect.isQuiet_iff.mp h
  refine ⟨hread, ?_⟩
  by_cases hsign : text.toList.head? = some '-'
  · rw [Dialect.readOn_minus_sign hsign, hsign]
    rfl
  · have hfalse : (text.toList.head? == some '-') = false := beq_false_of_ne hsign
    rw [Dialect.readOn_minus hne hsign, hread, hfalse]
    rfl

/-- Parentheses keep a sign apart from what stands before them. -/
theorem IsRead.wrapText {text : String} {comment signed : Bool}
    (h : IsRead d text.toList comment signed) (wrap : Bool) :
    IsRead d (wrapText wrap text).toList comment (!wrap && signed) := by
  cases wrap with
  | false => exact h
  | true =>
    have htext : (SqlCompiler.wrapText true text).toList = '(' :: (text.toList ++ [')']) := by
      simp [SqlCompiler.wrapText]
    have hclose : d.readOn (if comment then .comment else .plain) [')'] =
        if comment then .comment else .plain := by
      cases comment with
      | false => cases d <;> rfl
      | true => rfl
    have hplain : d.readNext .plain '(' = .plain := by cases d <;> rfl
    have hminus : d.readNext .minus '(' = .plain := by cases d <;> rfl
    refine ⟨?_, ?_⟩
    · rw [htext, Dialect.readOn_cons, hplain, Dialect.readOn_append, h.plain, hclose]
    · rw [htext, Dialect.readOn_cons, hminus, Dialect.readOn_append, h.plain, hclose]
      rfl

/-- An operator's sign stands between blanks. -/
theorem readOn_operator (d : Dialect) (op : BinaryOperator) :
    d.readOn .plain (" " ++ op.sign ++ " ").toList = .plain := by
  cases op <;> cases d <;> decide

/-- The text of a spelling opens a comment where signs meet, and nowhere else.  Behind a minus sign it
does so where it begins with a sign, too. -/
theorem readOn_text (s : Spelling d) (h : s.namesAreQuiet = true) :
    IsRead d s.text.toList s.signsMeet s.beginsWithSign := by
  induction s with
  | literal l =>
    refine isRead_of_isQuiet (Dialect.isQuiet_literal l.isLiteral fun s hs => ?_)
    simpa only [namesAreQuiet, hs] using h
  | name text => exact isRead_of_isQuiet h
  | negated wrap operand ih =>
    have hoperand := (ih h).wrapText wrap
    have htext : (negated wrap operand).text.toList =
        '-' :: (SqlCompiler.wrapText wrap operand.text).toList := by
      simp [text]
    refine ⟨?_, ?_⟩
    · rw [htext]
      exact hoperand.minus
    · rw [htext]
      exact Dialect.readOn_comment _
  | joined wrapLeft left op wrapRight right ihl ihr =>
    obtain ⟨hquietl, hquietr⟩ := Bool.and_eq_true_iff.mp h
    have hl := (ihl hquietl).wrapText wrapLeft
    have hr := (ihr hquietr).wrapText wrapRight
    have hop := readOn_operator d op
    have htext : (joined wrapLeft left op wrapRight right).text.toList =
        (SqlCompiler.wrapText wrapLeft left.text).toList ++ ((" " ++ op.sign ++ " ").toList ++
          (SqlCompiler.wrapText wrapRight right.text).toList) := by
      rw [text, String.toList_append, String.toList_append, List.append_assoc]
    have hrest (comment : Bool) :
        d.readOn (if comment then .comment else .plain) ((" " ++ op.sign ++ " ").toList ++
          (SqlCompiler.wrapText wrapRight right.text).toList) =
            if comment || right.signsMeet then .comment else .plain := by
      cases comment with
      | false =>
        rw [if_neg Bool.false_ne_true, Dialect.readOn_append, hop, hr.plain, Bool.false_or]
      | true => rw [if_pos rfl, Dialect.readOn_comment, Bool.true_or, if_pos rfl]
    refine ⟨?_, ?_⟩
    · rw [htext, Dialect.readOn_append, hl.plain, hrest, signsMeet]
    · rw [htext, Dialect.readOn_append, hl.minus, hrest, signsMeet, beginsWithSign,
        Bool.or_assoc]

end Spelling

/-! ## How an expression is spelled -/

section

variable (frame : Frame)

/-- The text of a name behind its qualifier. -/
def Frame.qualified (qualifier : Option String) (name : String) : String :=
  match qualifier with
  | some q => q ++ "." ++ frame.identifier name
  | none => frame.identifier name

/-- Whether an expression is made of operators over literals, parameters, fields and columns, where
the expressions of columns are judged by `inner`. -/
def Scalar.isArithmetic (inner : Scalar → Bool) : Scalar → Bool
  | .value _ | .parameter _ | .field _ => true
  | .column c =>
    match frame.columnPlace c with
    | .ok .here => inner (frame.store.column c).expression
    | _ => true
  | .binary l _ r _ => l.isArithmetic inner && r.isArithmetic inner
  | _ => false

/-- How such an expression is spelled without parentheses around it, if it can be printed. -/
def Scalar.spelling? (inner : Scalar → Option (Spelling frame.dialect)) :
    Scalar → Option (Spelling frame.dialect)
  | .value v => (frame.dialect.literalText? v.value v.type).map .literal
  | .parameter p =>
    match if p.isQuery then none else frame.dialect.literalText? p.value p.type with
    | some l => some (.literal l)
    | none => some (.name (String.singleton frame.dialect.parameterPrefix ++ p.name))
  | .field f =>
    let field := frame.store.field f
    (frame.tableQualifier field.table).toOption.map fun qualifier =>
      .name (frame.qualified qualifier field.physicalName)
  | .column c =>
    match frame.columnPlace c with
    | .ok .here => inner (frame.store.column c).expression
    | .ok (.source aliasName) =>
      (frame.store.column c).aliasName.map fun name => .name (frame.qualified aliasName name)
    | .error _ => none
  | .binary l op r _ =>
    if isNegation l op then
      (r.spelling? inner).map (.negated ((frame.textStrength r).needsWrap .unary))
    else
      (l.spelling? inner).bind fun left =>
        (r.spelling? inner).map (.joined ((frame.textStrength l).needsWrap op.precedence) left op
          ((frame.textStrength r).needsWrap op.precedence))
  | _ => none

/-- Whether an expression is made of operators over literals, parameters, fields and columns, down to
a depth of columns in columns. -/
def Frame.isArithmetic : Nat → Scalar → Bool
  | 0 => Scalar.isArithmetic frame fun _ => true
  | depth + 1 => Scalar.isArithmetic frame (Frame.isArithmetic depth)

/-- How an expression is spelled, down to a depth of columns in columns. -/
def Frame.spelling? : Nat → Scalar → Option (Spelling frame.dialect)
  | 0 => Scalar.spelling? frame fun _ => none
  | depth + 1 => Scalar.spelling? frame (Frame.spelling? depth)

end

/-! ## What is printed is spelled so -/

/-- A page in the conventions of a dialect. -/
structure Page.Follows (page : Page) (d : Dialect) : Prop where
  quoting : page.writer.quoting = d.quoting
  parameterPrefix : page.writer.parameterPrefix = d.parameterPrefix

/-- A step puts a text at the end of every page, or fails on every page. -/
def Print.Writes (frame : Frame) (act : Print Unit) (text? : Option String) : Prop :=
  ∀ page : Page, page.Follows frame.dialect →
    match text? with
    | some text => ∃ page', act frame page = .ok ((), page') ∧
        page'.writer.text = page.writer.text ++ text ∧ page'.Follows frame.dialect
    | none => ∃ e, act frame page = .error e

namespace Print.Writes

variable {frame : Frame} {act act' : Print Unit} {text? text?' : Option String}

theorem text (s : String) : Writes frame (Print.text s) (some s) :=
  fun _ h => ⟨_, rfl, rfl, h.quoting, h.parameterPrefix⟩

theorem congr (h : act frame = act' frame) (hact : Writes frame act text?) :
    Writes frame act' text? := by
  intro page
  rw [← h]
  exact hact page

/-- One step after the other. -/
theorem seq (h : Writes frame act text?) (h' : Writes frame act' text?') :
    Writes frame (do act; act') (text?.bind fun s => text?'.map (s ++ ·)) := by
  intro page hpage
  have hact := h page hpage
  have hrun : (do act; act' : Print Unit) frame page =
      (act frame page >>= fun r => act' frame r.2) := rfl
  rw [hrun]
  cases text? with
  | none =>
    obtain ⟨e, he⟩ := hact
    exact ⟨e, by rw [he]; rfl⟩
  | some s =>
    obtain ⟨page', hok, htext, hfollows⟩ := hact
    have hact' := h' page' hfollows
    rw [hok]
    cases text?' with
    | none => exact hact'
    | some s' =>
      obtain ⟨page'', hok', htext', hfollows'⟩ := hact'
      refine ⟨page'', hok', ?_, hfollows'⟩
      rw [htext', htext, String.append_assoc]

theorem parenthesized (h : Writes frame act text?) (wrap : Bool) :
    Writes frame (Print.parenthesized wrap act) (text?.map (wrapText wrap)) := by
  cases wrap with
  | false =>
    have hact : Print.parenthesized false act frame = act frame := by
      simp [Print.parenthesized]
    refine congr hact.symm ?_
    cases text? <;> exact h
  | true =>
    have hparens := (text "(").seq (h.seq (text ")"))
    cases text? with
    | none => exact hparens
    | some s =>
      have hwrap : wrapText true s = "(" ++ (s ++ ")") := String.append_assoc
      rw [Option.map_some, hwrap]
      exact hparens

end Print.Writes

namespace Scalar

variable {frame : Frame} {next : NextLevel} {inner : Scalar → Option (Spelling frame.dialect)}
  {fits : Scalar → Bool}

theorem writes_column (qualifier : Option String) (name : String) :
    Print.Writes frame (Print.write fun w => w.column qualifier name)
      (some (frame.qualified qualifier name)) := by
  intro page hpage
  have hidentifier : page.writer.quoting.identifier name = frame.identifier name := by
    rw [hpage.quoting]
    rfl
  cases qualifier with
  | none =>
    refine ⟨_, rfl, ?_, hpage.quoting, hpage.parameterPrefix⟩
    exact congrArg (page.writer.text ++ ·) hidentifier
  | some q =>
    refine ⟨_, rfl, ?_, hpage.quoting, hpage.parameterPrefix⟩
    change page.writer.text ++ (q ++ ".") ++ page.writer.quoting.identifier name = _
    rw [hidentifier, String.append_assoc]
    rfl

theorem writes_constant (value : Constant) (type : SqlType) :
    Print.Writes frame (printConstant value type) (frame.dialect.literal? value type) := by
  have hact : printConstant value type frame =
      (match frame.dialect.literal? value type with
        | some literal => Print.text literal
        | none => throw (.unusableValue "value has no literal form") : Print Unit) frame := rfl
  refine .congr hact.symm ?_
  cases frame.dialect.literal? value type with
  | none => exact fun page _ => ⟨_, rfl⟩
  | some text => exact .text text

theorem writes_parameter (p : Parameter) :
    Print.Writes frame (printParameter p)
      (((Scalar.parameter p).spelling? frame inner).map Spelling.text) := by
  have hact : printParameter p frame =
      (match if p.isQuery then none else frame.dialect.literal? p.value p.type with
        | some literal => Print.text literal
        | none => Print.write fun w => w.parameter p : Print Unit) frame := rfl
  have hplaceholder : Print.Writes frame (Print.write fun w => w.parameter p)
      (some (String.singleton frame.dialect.parameterPrefix ++ p.name)) := by
    intro page hpage
    refine ⟨_, rfl, ?_, hpage.quoting, hpage.parameterPrefix⟩
    rw [← hpage.parameterPrefix]
    rfl
  refine .congr hact.symm ?_
  rw [Scalar.spelling?, ← frame.dialect.map_literalText]
  cases p.isQuery with
  | true => exact hplaceholder
  | false =>
    cases frame.dialect.literalText? p.value p.type with
    | none => exact hplaceholder
    | some l => exact .text l.text

theorem writes_field (f : FieldRef) :
    Print.Writes frame (printField f)
      (((Scalar.field f).spelling? frame inner).map Spelling.text) := by
  have hact : printField f frame = fun page =>
      (frame.tableQualifier (frame.store.field f).table >>= fun qualifier =>
        (Print.write fun w => w.column qualifier (frame.store.field f).physicalName) frame page) := by
    funext page
    change Except.bind (Except.bind (frame.tableQualifier _) _) _ = _
    cases frame.tableQualifier (frame.store.field f).table <;> rfl
  rw [Scalar.spelling?]
  intro page hpage
  rw [hact]
  dsimp only
  cases frame.tableQualifier (frame.store.field f).table with
  | error e => exact ⟨e, rfl⟩
  | ok qualifier => exact writes_column qualifier _ page hpage

theorem writes_column_spelling
    (hnext : ∀ e, fits e = true → ∀ parent,
      Print.Writes frame (next.scalar e parent true) ((inner e).map Spelling.text))
    (c : ColumnRef) (h : (Scalar.column c).isArithmetic frame fits = true) (parent : Precedence) :
    Print.Writes frame (printColumn next c parent true)
      (((Scalar.column c).spelling? frame inner).map Spelling.text) := by
  rw [Scalar.isArithmetic] at h
  rw [Scalar.spelling?]
  intro page hpage
  cases hplace : frame.columnPlace c with
  | error e =>
    refine ⟨e, ?_⟩
    change Except.bind (Except.bind (frame.columnPlace c) _) _ = _
    rw [hplace]
    rfl
  | ok place =>
    rw [hplace] at h
    cases place with
    | here =>
      have hact : printColumn next c parent true frame page =
          next.scalar (frame.store.column c).expression parent true frame page := by
        change Except.bind (Except.bind (frame.columnPlace c) _) _ = _
        rw [hplace]
        rfl
      exact hact ▸ hnext _ h parent page hpage
    | source aliasName =>
      have hact : printColumn next c parent true frame page =
          (frame.store.column c).aliasName.elim
            (.error (.resolution ("Column of '" ++ aliasName ++ "' has no alias.")))
            fun name => (Print.write fun w => w.column (some aliasName) name) frame page := by
        change Except.bind (Except.bind (frame.columnPlace c) _) _ = _
        rw [hplace]
        cases (frame.store.column c).aliasName <;> rfl
      rw [hact]
      cases (frame.store.column c).aliasName with
      | none => exact ⟨_, rfl⟩
      | some name => exact writes_column (some aliasName) name page hpage

/-- What is printed of an expression without the parentheses around it is what it is spelled as, if
this is so of the expressions of columns. -/
theorem writes_spelling
    (hnext : ∀ e, fits e = true → ∀ parent,
      Print.Writes frame (next.scalar e parent true) ((inner e).map Spelling.text))
    (e : Scalar) (h : e.isArithmetic frame fits = true) (parent : Precedence) :
    Print.Writes frame (e.print next true parent true)
      ((e.spelling? frame inner).map Spelling.text) := by
  match e with
  | .value v =>
    rw [spelling?, Option.map_map]
    have hliteral := frame.dialect.map_literalText v.value v.type
    exact hliteral ▸ writes_constant v.value v.type
  | .parameter p => exact writes_parameter p
  | .field f => exact writes_field f
  | .column c => exact writes_column_spelling hnext c h parent
  | .binary l op r _ =>
    obtain ⟨hl, hr⟩ := Bool.and_eq_true_iff.mp h
    have hleft := writes_spelling hnext l hl
    have hright := writes_spelling hnext r hr
    have henclosed (e : Scalar) (parent : Precedence) {text? : Option String}
        (h : Print.Writes frame (e.print next true parent true) text?) :
        Print.Writes frame (e.print next false parent true)
          (text?.map (wrapText ((frame.textStrength e).needsWrap parent))) :=
      .congr (Scalar.print_eq e parent).symm (h.parenthesized _)
    have hact : (Scalar.binary l op r ‹_›).print next true parent true frame =
        (if isNegation l op then do
          Print.text "-"
          r.print next false .unary true
        else do
          l.print next false op.precedence true
          Print.text (" " ++ op.sign ++ " ")
          r.print next false op.precedence true : Print Unit) frame := rfl
    refine .congr hact.symm ?_
    rw [spelling?]
    split
    · have hwrites := (Print.Writes.text "-").seq (henclosed r .unary (hright .unary))
      cases hspelled : r.spelling? frame inner <;>
        simpa [hspelled, Spelling.text] using hwrites
    · have hwrites := (henclosed l _ (hleft op.precedence)).seq
        ((Print.Writes.text (" " ++ op.sign ++ " ")).seq (henclosed r _ (hright op.precedence)))
      cases hspelledl : l.spelling? frame inner <;>
        cases hspelledr : r.spelling? frame inner <;>
          simpa [hspelledl, hspelledr, Spelling.text, String.append_assoc] using hwrites
  | .allFields _ | .function _ | .raw .. | .convert .. | .condition _ | .query _ | .type _ | .row _
  | .tableSource _ | .deferredName _ => exact absurd h Bool.false_ne_true
termination_by structural e

/-- An expression is printed as it is spelled, or fails to be printed if it is not. -/
theorem print_writes {fuel : Nat} {e : Scalar} (h : frame.isArithmetic fuel e = true)
    (parent : Precedence) :
    Print.Writes frame (e.print (.within fuel) true parent true)
      ((frame.spelling? fuel e).map Spelling.text) := by
  induction fuel generalizing e parent with
  | zero =>
    have hexhausted (e : Scalar) (parent : Precedence) :
        Print.Writes frame ((NextLevel.within 0).scalar e parent true) none :=
      fun page _ => ⟨_, rfl⟩
    exact writes_spelling (fun e _ => hexhausted e) e h parent
  | succ fuel ih => exact writes_spelling (fun _ hfits => ih hfits) e h parent

end Scalar

/-! ## Where signs meet -/

/-- What is printed of operators over literals, parameters, fields and columns opens a comment exactly
where the minus sign of a negation stands right before one that its operand begins with, provided that
no name or decimal number has a comment or an open quote in it. -/
theorem Scalar.print_opensComment_iff {frame : Frame} {fuel : Nat} {e : Scalar}
    (h : frame.isArithmetic fuel e = true) (parent : Precedence) {page page' : Page}
    (hpage : page.Follows frame.dialect)
    (hprint : e.print (.within fuel) false parent true frame page = .ok ((), page')) :
    ∃ s text, frame.spelling? fuel e = some s ∧
      text = wrapText ((frame.textStrength e).needsWrap parent) s.text ∧
      page'.writer.text = page.writer.text ++ text ∧
      (s.namesAreQuiet = true → (frame.dialect.opensComment text = true ↔ s.signsMeet = true)) := by
  have hwrites := (print_writes h parent).parenthesized ((frame.textStrength e).needsWrap parent)
    page hpage
  rw [← Scalar.print_eq, hprint] at hwrites
  cases hspelled : frame.spelling? fuel e with
  | none =>
    rw [hspelled] at hwrites
    obtain ⟨e, he⟩ := hwrites
    cases he
  | some s =>
    rw [hspelled] at hwrites
    obtain ⟨page'', hok, htext, -⟩ := hwrites
    cases hok
    refine ⟨s, _, rfl, rfl, htext, fun hquiet => ?_⟩
    have hread := (s.readOn_text hquiet).wrapText ((frame.textStrength e).needsWrap parent)
    rw [Dialect.opensComment, hread.plain]
    cases s.signsMeet <;> simp

/-- The negation of `-1.5` is printed as `--1.5`, while the difference `2 - -1.5` has a blank between
the signs. -/
theorem Scalar.print_opensComment_negatedDecimal :
    let frame : Frame := { provider := .ofDialect .generic, store := {}, options := {} }
    let decimal : Scalar := .constant (.decimal "-1.5")
    let negation : Scalar := .binary (.int (-1)) .multiply decimal (.plain .decimal)
    let difference : Scalar := .binary (.int 2) .subtract decimal (.plain .decimal)
    (∃ page', negation.print (.within 0) false .unknown true frame frame.emptyPage =
        .ok ((), page') ∧
      page'.writer.text = "--1.5" ∧ frame.dialect.opensComment "--1.5" = true) ∧
    ∃ page', difference.print (.within 0) false .unknown true frame frame.emptyPage =
        .ok ((), page') ∧
      page'.writer.text = "2 - -1.5" ∧ frame.dialect.opensComment "2 - -1.5" = false := by
  intro frame decimal negation difference
  have hpage : frame.emptyPage.Follows frame.dialect := ⟨rfl, rfl⟩
  have hnegation : frame.isArithmetic 0 negation = true := rfl
  have hdifference : frame.isArithmetic 0 difference = true := rfl
  refine ⟨⟨_, rfl, rfl, ?_⟩, ⟨_, rfl, rfl, ?_⟩⟩
  · obtain ⟨s, text, hs, rfl, -, hopens⟩ :=
      print_opensComment_iff hnegation .unknown hpage rfl
    cases hs
    exact (hopens (by decide)).mpr (by decide)
  · obtain ⟨s, text, hs, rfl, -, hopens⟩ :=
      print_opensComment_iff hdifference .unknown hpage rfl
    cases hs
    refine Bool.eq_false_iff.mpr fun h => absurd ((hopens (by decide)).mp h) (by decide)

end SqlCompiler
