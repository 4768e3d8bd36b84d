import SqlCompiler.Proofs.Reading.Grouping
import SqlCompiler.Proofs.Semantics.Evaluation
import SqlCompiler.Render.Expression

/-!
# Reading operator trees back

Whether an operand is put in parentheses is decided by its strength and that of its parent,
whichever side it stands on, and subtraction counts as stronger than addition.  A reader groups the
text by levels, from the left.  This module says what the text of a tree of operators is, and for
which trees a reader finds an expression of the same value in it.

Main results:

- Definition `OperatorTree.lexemes`: the text of a tree of operators, as a row of lexemes.
- Theorem `OperatorTree.print_eq`: a tree of operators is printed as its lexemes.
- Definition `Frame.scalarOperators`: how tightly the operators bind for a reader.
- Definition `OperatorTree.isReadable`: right operands go on with the row of an operator only where
  the operators associate.
- Theorem `OperatorTree.printed_keepsValue`: a readable tree survives printing.
-/

namespace SqlCompiler

/-! ## Trees of operators -/

/-- An operator between two scalars. -/
inductive ScalarJoint where
  | operator (op : BinaryOperator)
  | comparison (op : Comparison)
  deriving DecidableEq, Repr

/-- Operators over other expressions. -/
inductive OperatorTree where
  | leaf (e : Scalar)
  | joined (left : OperatorTree) (op : BinaryOperator) (right : OperatorTree) (type : SqlType)
  /-- A comparison as an operand. -/
  | compared (left : OperatorTree) (op : Comparison) (right : OperatorTree)
      (withNull : Option Bool)

/-- The scalar that a tree of operators is. -/
def OperatorTree.toScalar : OperatorTree → Scalar
  | leaf e => e
  | joined l op r type => .binary l.toScalar op r.toScalar type
  | compared l op r withNull =>
    .condition (.ofPredicate (.compare l.toScalar op r.toScalar withNull))

/-- The operator's sign. -/
def ScalarJoint.sign : ScalarJoint → String
  | operator op => op.sign
  | comparison op => op.sign

section

variable {V : Type} (I : Interpretation V) (ρ : Scalar → V)

/-- What an operator yields. -/
def ScalarJoint.apply : ScalarJoint → V → V → V
  | operator op => I.binary op
  | comparison op => fun a b => I.ofTruth (I.compare op a b)

/-- The value of a leaf: a constant has its own, and any other expression the one it is given. -/
def leafValue (e : Scalar) : V :=
  match e.asValue? with
  | some c => I.constant c
  | none => ρ e

/-- The value of a tree of operators, given that of its leaves. -/
def OperatorTree.value : OperatorTree → V
  | leaf e => leafValue I ρ e
  | joined l op r _ => (ScalarJoint.operator op).apply I l.value r.value
  | compared l op r _ => (ScalarJoint.comparison op).apply I l.value r.value

end

/-! ## The text of a tree -/

/-- How tightly the text of a scalar binds where it is printed without parentheses. -/
def Frame.textStrength (frame : Frame) : Scalar → Precedence
  | .condition c => if frame.capabilities.booleanType then c.precedence else .primary
  | .column c =>
    match frame.columnPlace c with
    | .ok .here => (frame.store.column c).expression.precedence
    | _ => .primary
  | e => e.precedence

/-- A leaf where it stands: an expression with the strength that its parent asks for. -/
abbrev LeafPlace := Scalar × Precedence

section

variable (frame : Frame)

/-- The text of a tree of operators under a parent of given strength, as lexemes. -/
def OperatorTree.lexemes :
    OperatorTree → Precedence → List (Lexeme LeafPlace Unit ScalarJoint)
  | leaf e, parent =>
    parenthesize ((frame.textStrength e).needsWrap parent) [.operand (e, parent)]
  | joined l op r _, parent =>
    parenthesize (op.precedence.needsWrap parent)
      (if isNegation l.toScalar op then .sign () :: r.lexemes .unary
      else l.lexemes op.precedence ++ .joint (.operator op) :: r.lexemes op.precedence)
  | compared l op r _, parent =>
    parenthesize (Precedence.comparison.needsWrap parent)
      (l.lexemes .comparison ++ .joint (.comparison op) :: r.lexemes .comparison)

/-- Whether every comparison in a tree is printed with its sign: conditions are values, and no
operand is tested for absence. -/
def OperatorTree.isSigned : OperatorTree → Bool
  | leaf _ => true
  | joined l _ r _ => l.isSigned && r.isSigned
  | compared l op r _ =>
    frame.capabilities.booleanType && l.isSigned && r.isSigned &&
      !(op.isEquality && (l.toScalar.isNullConstant || r.toScalar.isNullConstant))

end

/-- Print the lexemes of a tree of operators. -/
def printOperatorLexemes (next : NextLevel) :
    List (Lexeme LeafPlace Unit ScalarJoint) → Print Unit :=
  printLexemes (fun leaf => leaf.1.print next true leaf.2 true) (fun _ => Print.text "-")
    (fun joint => Print.text (" " ++ joint.sign ++ " "))

section

variable {frame : Frame} {next : NextLevel}

/-- What cannot be printed cannot be printed in parentheses. -/
theorem parenthesized_error {act : Print Unit} {e : SqlError}
    (h : ∀ page, act frame page = .error e) (wrap : Bool) (page : Page) :
    Print.parenthesized wrap act frame page = .error e := by
  cases wrap with
  | false =>
    change (act frame page >>= fun r => pure ((), r.2)) = _
    rw [h]
    rfl
  | true =>
    change (act frame { page with writer := page.writer.add "(" } >>= fun r =>
      Print.text ")" frame r.2) = _
    rw [h]
    rfl

/-- The text of a scalar is put in parentheses where its parent asks for it. -/
theorem Scalar.print_eq (e : Scalar) (parent : Precedence) :
    e.print next false parent true frame =
      Print.parenthesized ((frame.textStrength e).needsWrap parent) (e.print next true parent true)
        frame := by
  cases e with
  | condition c =>
    refine enclose_eq (fun page => ?_) parent _
    change Except.ok (if (true && !frame.capabilities.booleanType) = true then Precedence.primary
      else c.precedence, page) = _
    rw [Frame.textStrength]
    cases frame.capabilities.booleanType <;> rfl
  | column c =>
    cases hplace : frame.columnPlace c with
    | ok place =>
      refine enclose_eq (fun page => ?_) parent _
      change Except.bind (Except.bind (frame.columnPlace c) _) _ = _
      rw [Frame.textStrength, hplace]
      cases place <;> rfl
    | error e =>
      have hprint (page : Page) :
          (Scalar.column c).print next true parent true frame page = .error e := by
        change Except.bind (Except.bind (frame.columnPlace c) _) _ = _
        rw [hplace]
        rfl
      funext page
      rw [parenthesized_error hprint]
      change Except.bind (Except.bind (Except.bind (frame.columnPlace c) _) _) _ = _
      rw [hplace]
      rfl
  | _ => rfl

/-- A condition of one predicate is printed as that predicate. -/
theorem Condition.print_ofPredicate (p : Predicate) (parent : Precedence) (wrapLines : Bool) :
    (Condition.ofPredicate p).print next parent wrapLines =
      Print.parenthesized (p.precedence.needsWrap parent)
        (p.print next (Precedence.logicalConjunction + 1) wrapLines) := by
  have hlength (act : Print Unit) : (Print.length >>= fun _ => act) = act := rfl
  simp only [ofPredicate, branch, print, printBranches, Branch.print, hasOr,
    List.dropLast_singleton, List.any_nil, List.isEmpty_nil, Bool.not_true, Bool.false_eq_true,
    if_false, bind_pure_unit, hlength]
  rfl

/-- A comparison as an operand is printed as two operands with a sign between them. -/
theorem print_comparison (hbool : frame.capabilities.booleanType = true) {l r : Scalar}
    {op : Comparison} (hl : (op.isEquality && l.isNullConstant) = false)
    (hr : (op.isEquality && r.isNullConstant) = false) (withNull : Option Bool)
    (parent : Precedence) :
    (Scalar.condition (.ofPredicate (.compare l op r withNull))).print next true parent true frame =
      (do
        l.print next false .comparison true
        Print.text (" " ++ op.sign ++ " ")
        r.print next false .comparison true : Print Unit) frame := by
  have hfits : Precedence.comparison.needsWrap (Precedence.logicalConjunction + 1) = false := rfl
  have hloose : Precedence.comparison.needsWrap .unknown = false := rfl
  have hvalue : (true && !frame.capabilities.booleanType) = false := by rw [hbool]; rfl
  change (if (true && !frame.capabilities.booleanType) = true then _ else
    (Condition.ofPredicate (.compare l op r withNull)).print next .unknown false : Print Unit)
      frame = _
  rw [hvalue, if_neg Bool.false_ne_true, Condition.print_ofPredicate]
  simp [Predicate.print, Predicate.precedence, hfits, hloose, Print.parenthesized, hl, hr]

/-- A tree of operators is printed as its lexemes. -/
theorem OperatorTree.print_eq (t : OperatorTree) (h : t.isSigned frame = true)
    (parent : Precedence) :
    t.toScalar.print next false parent true frame =
      printOperatorLexemes next (t.lexemes frame parent) frame := by
  induction t generalizing parent with
  | leaf e =>
    rw [toScalar, Scalar.print_eq, lexemes, printOperatorLexemes, printLexemes_parenthesize,
      printLexemes_single]
    rfl
  | joined l op r type ihl ihr =>
    simp only [isSigned, Bool.and_eq_true] at h
    rw [Scalar.print_eq, lexemes, printOperatorLexemes, printLexemes_parenthesize]
    refine parenthesized_congr ?_ _
    change (if isNegation l.toScalar op then _ else _ : Print Unit) frame = _
    split
    · exact seq_congr rfl (ihr h.2 _)
    · rw [printLexemes_append]
      exact seq_congr (ihl h.1 _) (seq_congr rfl (ihr h.2 _))
  | compared l op r withNull ihl ihr =>
    simp only [isSigned, Bool.and_eq_true, Bool.not_eq_true'] at h
    obtain ⟨⟨⟨hbool, hl⟩, hr⟩, hnull⟩ := h
    have hnulls : (op.isEquality && l.toScalar.isNullConstant) = false ∧
        (op.isEquality && r.toScalar.isNullConstant) = false := by
      simpa [Bool.and_or_distrib_left] using hnull
    have hstrength : frame.textStrength
        (.condition (.ofPredicate (.compare l.toScalar op r.toScalar withNull))) = .comparison :=
      if_pos hbool
    rw [toScalar, Scalar.print_eq, hstrength, lexemes, printOperatorLexemes,
      printLexemes_parenthesize, printLexemes_append]
    refine parenthesized_congr ?_ _
    rw [print_comparison hbool hnulls.1 hnulls.2]
    exact seq_congr (ihl hl _) (seq_congr rfl (ihr hr _))

end

/-! ## Reading a tree back -/

/-- The level of an operator for a reader: addition and subtraction are on one level. -/
def ScalarJoint.level : ScalarJoint → Int
  | operator .subtract => Precedence.additive
  | operator op => op.precedence
  | comparison _ => Precedence.comparison

/-- The level of a scalar's text for a reader.  A parameter that is written in place may be a
negative number, which has a sign. -/
def Frame.textLevel (frame : Frame) : Scalar → Int
  | .parameter p =>
    if p.isQuery then Precedence.primary else (⟨p.type, p.value⟩ : TypedValue).precedence
  | e => frame.textStrength e

/-- How tightly scalars and their operators bind.  All operators but comparisons are grouped from
the left. -/
def Frame.scalarOperators (frame : Frame) : OperatorTable LeafPlace Unit ScalarJoint where
  operand leaf := frame.textLevel leaf.1
  sign _ := Precedence.unary
  joint := ScalarJoint.level
  chains
    | .operator _ => true
    | .comparison _ => false

namespace OperatorTree

section

variable (frame : Frame)

/-- The strength by which it is decided whether a tree is put in parentheses. -/
def strength : OperatorTree → Int
  | leaf e => frame.textStrength e
  | joined _ op _ _ => op.precedence
  | compared _ _ _ _ => Precedence.comparison

/-- The level of a tree's text for a reader. -/
def level : OperatorTree → Int
  | leaf e => frame.textLevel e
  | joined l op _ _ =>
    if isNegation l.toScalar op then Precedence.unary else (ScalarJoint.operator op).level
  | compared _ _ _ _ => Precedence.comparison

/-- Whether an operand stands without parentheses at an operator of its own level. -/
def adjoins (parent level : Int) (t : OperatorTree) : Bool :=
  !Precedence.needsWrap (t.strength frame) parent && t.level frame == level

/-- What an operand adds to the row of its operator: its own row, where it stands at an operator of
its level. -/
def rowPart (adjoins : Bool) (row : Option (List BinaryOperator)) : Option (List BinaryOperator) :=
  if adjoins then row else some []

/-- The operators of the row that the text of a tree is on its own level; nothing, if it is no
row. -/
def row? : OperatorTree → Option (List BinaryOperator)
  | joined l op r _ =>
    let level := (ScalarJoint.operator op).level
    if isNegation l.toScalar op then none
    else
      (rowPart (l.adjoins frame op.precedence level) l.row?).bind fun before =>
        (rowPart (r.adjoins frame op.precedence level) r.row?).map fun after =>
          before ++ op :: after
  | _ => none

/-- Whether a tree is read back with its value.  A row may stand as the right operand of an operator
of its level if that operator associates with all of the row; comparisons and signs may not meet
at all. -/
def isReadable : OperatorTree → Bool
  | leaf e => decide (Precedence.unknown ≤ frame.textLevel e)
  | joined l op r _ =>
    l.isReadable && r.isReadable &&
      (if isNegation l.toScalar op then !r.adjoins frame Precedence.unary Precedence.unary
      else
        (rowPart (r.adjoins frame op.precedence (ScalarJoint.operator op).level) (r.row? frame)).any
          fun ops => ops.all op.reassociates)
  | compared l _ r _ =>
    l.isReadable && r.isReadable &&
      !l.adjoins frame Precedence.comparison Precedence.comparison &&
      !r.adjoins frame Precedence.comparison Precedence.comparison

end

/-- How tightly the first operand of a row on a level binds: what is no row is one operand. -/
def rowHead (level : Int) (row : Option (List BinaryOperator)) : Int :=
  if row.isSome then level + 1 else level

/-- An operator of a row. -/
def InRow (row : Option (List BinaryOperator)) (joint : ScalarJoint) : Prop :=
  ∀ ops ∈ row, ∃ op ∈ ops, joint = .operator op

section

variable {before : Option (List BinaryOperator)} {after : List BinaryOperator} {op : BinaryOperator}
  {joint : ScalarJoint}

theorem InRow.of_before (h : InRow before joint) :
    InRow (before.map fun before => before ++ op :: after) joint := by
  intro ops hops
  obtain ⟨before', hbefore, rfl⟩ := Option.map_eq_some_iff.mp hops
  obtain ⟨op', hop', rfl⟩ := h before' hbefore
  exact ⟨op', List.mem_append_left _ hop', rfl⟩

theorem InRow.of_operator :
    InRow (before.map fun before => before ++ op :: after) (.operator op) := by
  intro ops hops
  obtain ⟨before', -, rfl⟩ := Option.map_eq_some_iff.mp hops
  exact ⟨op, List.mem_append_right _ (List.mem_cons_self ..), rfl⟩

theorem InRow.of_after (h : InRow (some after) joint) :
    InRow (before.map fun before => before ++ op :: after) joint := by
  intro ops hops
  obtain ⟨before', -, rfl⟩ := Option.map_eq_some_iff.mp hops
  obtain ⟨op', hop', rfl⟩ := h after rfl
  exact ⟨op', List.mem_append_right _ (List.mem_cons_of_mem _ hop'), rfl⟩

end

/-- The text of a tree, without parentheses around it, is read as a row on the level of the tree,
with the value of the tree. -/
structure Reading (frame : Frame) (t : OperatorTree)
    (ls : List (Lexeme LeafPlace Unit ScalarJoint)) (v : ReadTree LeafPlace Unit ScalarJoint) :
    Prop where
  chain : frame.scalarOperators.Chain (t.level frame) (rowHead (t.level frame) (t.row? frame))
    (InRow (t.row? frame)) ls v
  value : ∀ {V : Type} (I : Interpretation V), I.Reassociates → ∀ ρ : Scalar → V,
    v.value (fun leaf => leafValue I ρ leaf.1) (fun _ => I.negate) (ScalarJoint.apply I) =
      t.value I ρ

section

variable {frame : Frame} {t : OperatorTree} {ls : List (Lexeme LeafPlace Unit ScalarJoint)}
  {v : ReadTree LeafPlace Unit ScalarJoint}

theorem Reading.reads (h : t.Reading frame ls v) :
    frame.scalarOperators.Reads (t.level frame) ls v := by
  refine h.chain.reads ?_
  unfold rowHead
  split <;> omega

/-! ### Levels and strengths -/

theorem unary_le_precedence (v : TypedValue) : Precedence.unary ≤ (v.precedence : Int) := by
  unfold TypedValue.precedence
  split <;> try split
  all_goals decide

/-- What stands without parentheses is on the level of its parent at least. -/
theorem le_level {parent level : Int} (h : Precedence.needsWrap (t.strength frame) parent = false)
    (hparent : parent ≤ Precedence.unary) (hlevel : level ≤ parent)
    (hadditive : parent ≤ Precedence.subtraction → level ≤ Precedence.additive) :
    level ≤ t.level frame := by
  have hle := Precedence.le_of_needsWrap h
  cases t with
  | leaf e =>
    change level ≤ frame.textLevel e
    cases e with
    | parameter p =>
      refine Int.le_trans (Int.le_trans hlevel hparent) ?_
      change Precedence.unary ≤ if p.isQuery then Precedence.primary else _
      split
      · decide
      · exact unary_le_precedence _
    | _ => exact Int.le_trans hlevel hle
  | joined l op r type =>
    change parent ≤ op.precedence at hle
    rw [OperatorTree.level]
    split
    · omega
    · cases op with
      | subtract => exact hadditive hle
      | _ => exact Int.le_trans hlevel hle
  | compared l op r withNull => exact Int.le_trans hlevel hle

theorem unknown_le_level (h : t.isReadable frame = true) :
    Precedence.unknown ≤ t.level frame := by
  cases t with
  | leaf e => exact of_decide_eq_true h
  | joined l op r type =>
    rw [level]
    split
    · decide
    · cases op <;> decide
  | compared l op r withNull => exact (by decide : Precedence.unknown ≤ Precedence.comparison)

end

/-! ### Operands -/

section

variable {frame : Frame} {t : OperatorTree} {ls : List (Lexeme LeafPlace Unit ScalarJoint)}
  {v : ReadTree LeafPlace Unit ScalarJoint} {parent level : Int}

/-- An operand that does not stand at an operator of its own level binds tighter than that. -/
theorem Reading.reads_succ (h : t.Reading frame ls v) (hreadable : t.isReadable frame = true)
    (hle : Precedence.needsWrap (t.strength frame) parent = false → level ≤ t.level frame)
    (hlevel : level + 1 ≤ Precedence.primary) (hadjoins : t.adjoins frame parent level = false) :
    frame.scalarOperators.Reads (level + 1)
      (parenthesize (Precedence.needsWrap (t.strength frame) parent) ls) v := by
  cases hwrap : Precedence.needsWrap (t.strength frame) parent with
  | true => exact .group hlevel (h.reads.mono (unknown_le_level hreadable))
  | false =>
    have hne : t.level frame ≠ level := by simpa [adjoins, hwrap] using hadjoins
    have hle := hle hwrap
    exact h.reads.mono (by omega)

/-- An operand that stands at an operator of its own level is a part of the operator's row. -/
theorem Reading.row (h : t.Reading frame ls v) (hreadable : t.isReadable frame = true)
    (hle : Precedence.needsWrap (t.strength frame) parent = false → level ≤ t.level frame)
    (hlevel : level + 1 ≤ Precedence.primary) :
    frame.scalarOperators.Chain level
      (rowHead level (rowPart (t.adjoins frame parent level) (t.row? frame)))
      (InRow (rowPart (t.adjoins frame parent level) (t.row? frame)))
      (parenthesize (Precedence.needsWrap (t.strength frame) parent) ls) v := by
  cases hadjoins : t.adjoins frame parent level with
  | false => exact .first (h.reads_succ hreadable hle hlevel hadjoins)
  | true =>
    simp only [adjoins, Bool.and_eq_true, Bool.not_eq_true', beq_iff_eq] at hadjoins
    obtain ⟨hwrap, rfl⟩ := hadjoins
    rw [hwrap]
    exact h.chain

/-- A minus sign is printed for a multiplication by minus one. -/
theorem value_of_isNegation {V : Type} (I : Interpretation V) (ρ : Scalar → V)
    {l r : OperatorTree} {op : BinaryOperator} (h : isNegation l.toScalar op = true)
    (type : SqlType) : (joined l op r type).value I ρ = I.negate (r.value I ρ) := by
  cases op <;> simp [isNegation] at h
  have hl : l.toScalar.asValue? = some (.integer (-1)) := by
    split at h <;> simp_all
  cases l with
  | leaf e =>
    have hleaf : leafValue I ρ e = I.constant (.integer (-1)) := by
      unfold leafValue
      rw [show e.asValue? = some (.integer (-1)) from hl]
    change I.binary .multiply (leafValue I ρ e) (r.value I ρ) = _
    rw [hleaf, I.negate_eq]
  | joined l op r type => cases hl
  | compared l op r withNull => cases hl

end

/-! ### Trees -/

section

variable {frame : Frame} {l r : OperatorTree}
  {ls rs : List (Lexeme LeafPlace Unit ScalarJoint)} {v u : ReadTree LeafPlace Unit ScalarJoint}

theorem level_le_precedence (op : BinaryOperator) :
    (ScalarJoint.operator op).level ≤ (op.precedence : Int) := by
  cases op <;> decide

/-- An operand of an operator that stands without parentheses is on the operator's level at
least. -/
theorem level_le_of_operand (t : OperatorTree) (op : BinaryOperator)
    (h : Precedence.needsWrap (t.strength frame) op.precedence = false) :
    (ScalarJoint.operator op).level ≤ t.level frame := by
  refine le_level h ?_ (level_le_precedence op) ?_
  · cases op <;> decide
  · cases op <;> decide

theorem level_succ_le_primary (op : BinaryOperator) :
    (ScalarJoint.operator op).level + 1 ≤ Precedence.primary := by
  cases op <;> decide

/-- Two operands with an operator between them are read as a row, where the operator associates with
the row that follows it. -/
theorem Reading.joined {op : BinaryOperator} {type : SqlType}
    (hneg : isNegation l.toScalar op = false) (hl : l.Reading frame ls v)
    (hr : r.Reading frame rs u)
    (hreadable : (OperatorTree.joined l op r type).isReadable frame = true) :
    ∃ w, (OperatorTree.joined l op r type).Reading frame
      (parenthesize (Precedence.needsWrap (l.strength frame) op.precedence) ls ++
        .joint (.operator op) ::
          parenthesize (Precedence.needsWrap (r.strength frame) op.precedence) rs) w := by
  simp only [isReadable, hneg, Bool.and_eq_true, Bool.false_eq_true, if_false,
    Option.any_eq_true, List.all_eq_true] at hreadable
  obtain ⟨⟨hreadl, hreadr⟩, after, hafter, hassoc⟩ := hreadable
  have hlevel := level_succ_le_primary op
  have hlevels :
      (OperatorTree.joined l op r type).level frame = (ScalarJoint.operator op).level := by
    rw [OperatorTree.level, hneg]
    rfl
  have hrow : (OperatorTree.joined l op r type).row? frame =
      (rowPart (l.adjoins frame op.precedence (ScalarJoint.operator op).level) (l.row? frame)).map
        fun before => before ++ op :: after := by
    simp [row?, hneg, hafter, Option.map_eq_bind]
  have hbefore := hl.row hreadl (level_le_of_operand l op) hlevel
  have hfollows := hr.row hreadr (level_le_of_operand r op) hlevel
  rw [hafter] at hfollows
  -- The right operand goes on with the row, or is an operand of it.
  obtain ⟨w, hw, hvalue⟩ := (hbefore.mono fun _ => InRow.of_before).extend (.operator op) rfl rfl
    InRow.of_operator hfollows fun _ => InRow.of_after
  refine ⟨w, ?_, fun I hI ρ => ?_⟩
  · rw [hlevels, hrow]
    unfold rowHead at hw ⊢
    rwa [Option.isSome_map]
  · have hoperators (op' : ScalarJoint) (h : InRow (some after) op') (a b c) :
        I.binary op a (op'.apply I b c) = op'.apply I (I.binary op a b) c := by
      obtain ⟨op'', hmem, rfl⟩ := h after rfl
      exact hI op op'' (hassoc op'' hmem) a b c
    rw [hvalue _ _ _ hoperators, hl.value I hI, hr.value I hI]
    rfl

/-- A minus sign and its operand are read as a negation. -/
theorem Reading.negated {op : BinaryOperator} {type : SqlType}
    (hneg : isNegation l.toScalar op = true) (hr : r.Reading frame rs u)
    (hreadable : (OperatorTree.joined l op r type).isReadable frame = true) :
    (OperatorTree.joined l op r type).Reading frame
      (.sign () :: parenthesize (Precedence.needsWrap (r.strength frame) Precedence.unary) rs)
      (.signed () u) := by
  simp only [isReadable, hneg, Bool.and_eq_true, if_true, Bool.not_eq_true'] at hreadable
  obtain ⟨⟨-, hreadr⟩, hadjoins⟩ := hreadable
  have hlevel : (OperatorTree.joined l op r type).level frame = Precedence.unary := by
    rw [OperatorTree.level, hneg]
    rfl
  have hrow : (OperatorTree.joined l op r type).row? frame = none := by
    rw [row?, hneg]
    rfl
  have hle (h : Precedence.needsWrap (r.strength frame) Precedence.unary = false) :
      Precedence.unary ≤ r.level frame :=
    le_level h (Int.le_refl _) (Int.le_refl _) (by decide)
  have hoperand := hr.reads_succ hreadr hle (by decide) hadjoins
  refine ⟨?_, fun I hI ρ => ?_⟩
  · rw [hlevel, hrow]
    exact .first (.signed (Int.le_refl _) hoperand)
  · rw [ReadTree.value, hr.value I hI, value_of_isNegation I ρ hneg]

/-- A comparison of operands that are none themselves is read as such. -/
theorem Reading.compared {op : Comparison} {withNull : Option Bool}
    (hl : l.Reading frame ls v) (hr : r.Reading frame rs u)
    (hreadable : (OperatorTree.compared l op r withNull).isReadable frame = true) :
    (OperatorTree.compared l op r withNull).Reading frame
      (parenthesize (Precedence.needsWrap (l.strength frame) Precedence.comparison) ls ++
        .joint (.comparison op) ::
          parenthesize (Precedence.needsWrap (r.strength frame) Precedence.comparison) rs)
      (.joined v (.comparison op) u) := by
  simp only [isReadable, Bool.and_eq_true, Bool.not_eq_true'] at hreadable
  obtain ⟨⟨⟨hreadl, hreadr⟩, hadjoinsl⟩, hadjoinsr⟩ := hreadable
  have hle (t : OperatorTree)
      (h : Precedence.needsWrap (t.strength frame) Precedence.comparison = false) :
      Precedence.comparison ≤ t.level frame :=
    le_level h (by decide) (Int.le_refl _) fun _ => by decide
  have hbelow : Precedence.comparison + 1 ≤ Precedence.primary := by decide
  refine ⟨.first (.joined (Int.le_refl _) ?_ ?_), fun I hI ρ => ?_⟩
  · exact hl.reads_succ hreadl (hle l) hbelow hadjoinsl
  · exact hr.reads_succ hreadr (hle r) hbelow hadjoinsr
  · rw [ReadTree.value, hl.value I hI, hr.value I hI]
    rfl

/-- The text of a readable tree is read with the value of the tree. -/
theorem exists_reading (t : OperatorTree) (h : t.isReadable frame = true) (parent : Precedence) :
    ∃ ls v, t.lexemes frame parent =
      parenthesize (Precedence.needsWrap (t.strength frame) parent) ls ∧ t.Reading frame ls v := by
  induction t generalizing parent with
  | leaf e =>
    exact ⟨_, .operand (e, parent), rfl, .first (.operand (Int.le_refl _)), fun _ _ _ => rfl⟩
  | joined l op r type ihl ihr =>
    have hsides := h
    simp only [isReadable, Bool.and_eq_true] at hsides
    cases hneg : isNegation l.toScalar op with
    | true =>
      obtain ⟨rs, u, hrs, hr⟩ := ihr hsides.1.2 .unary
      refine ⟨_, _, ?_, hr.negated hneg h⟩
      rw [lexemes, hneg, if_pos rfl, hrs]
      rfl
    | false =>
      obtain ⟨ls, v, hls, hl⟩ := ihl hsides.1.1 op.precedence
      obtain ⟨rs, u, hrs, hr⟩ := ihr hsides.1.2 op.precedence
      obtain ⟨w, hw⟩ := hl.joined hneg hr h
      refine ⟨_, w, ?_, hw⟩
      rw [lexemes, hneg, if_neg Bool.false_ne_true, hls, hrs]
      rfl
  | compared l op r withNull ihl ihr =>
    have hsides := h
    simp only [isReadable, Bool.and_eq_true] at hsides
    obtain ⟨ls, v, hls, hl⟩ := ihl hsides.1.1.1 .comparison
    obtain ⟨rs, u, hrs, hr⟩ := ihr hsides.1.1.2 .comparison
    refine ⟨_, _, ?_, hl.compared hr h⟩
    rw [lexemes, hls, hrs]
    rfl

end

/-- A tree of operators survives printing.  Its text is a row of lexemes, and a reader that knows
how tightly the operators bind finds a tree in it that has the same value for every value of the
leaves, provided that no operand stands without parentheses on the right of an operator of its level
that it does not associate with, no comparison at a comparison, and no negative number at a minus
sign. -/
theorem printed_keepsValue (next : NextLevel) (frame : Frame) (t : OperatorTree)
    (parent : Precedence) (hsigned : t.isSigned frame = true)
    (hreadable : t.isReadable frame = true) :
    t.toScalar.print next false parent true frame =
        printOperatorLexemes next (t.lexemes frame parent) frame ∧
      ∃ tree, frame.scalarOperators.read? (t.lexemes frame parent) = some tree ∧
        ∀ {V : Type} (I : Interpretation V), I.Reassociates → ∀ ρ : Scalar → V,
          tree.value (fun leaf => leafValue I ρ leaf.1) (fun _ => I.negate)
            (ScalarJoint.apply I) = t.value I ρ := by
  refine ⟨t.print_eq hsigned parent, ?_⟩
  obtain ⟨ls, v, hls, hreading⟩ := t.exists_reading hreadable parent
  have hreads : frame.scalarOperators.Reads Precedence.unknown ls v :=
    hreading.reads.mono (unknown_le_level hreadable)
  refine ⟨v, ?_, hreading.value⟩
  rw [hls]
  cases Precedence.needsWrap (t.strength frame) parent with
  | true => exact (OperatorTable.Reads.group (by decide) hreads).read?_eq
  | false => exact hreads.read?_eq

/-- `2 * (Age + (Id - 3)) = -Id`, where the subtraction goes on with the row of the addition. -/
theorem printed_keepsValue_doubledAge :
    let frame : Frame := { provider := .ofDialect .postgreSql, store := {}, options := {} }
    let age : OperatorTree := .leaf (.field ⟨0⟩)
    let id : OperatorTree := .leaf (.field ⟨1⟩)
    let number (n : Int) : OperatorTree := .leaf (.int n)
    let t : OperatorTree := .compared
      (.joined (number 2) .multiply
        (.joined age .add (.joined id .subtract (number 3) .int32) .int32) .int32)
      .equal (.joined (number (-1)) .multiply id .int32) none
    t.isSigned frame = true ∧ t.isReadable frame = true ∧
      ∀ next : NextLevel, t.toScalar.print next false .unknown true frame =
          printOperatorLexemes next (t.lexemes frame .unknown) frame ∧
        ∃ tree, frame.scalarOperators.read? (t.lexemes frame .unknown) = some tree ∧
          ∀ ρ, tree.value (fun leaf => leafValue .exact ρ leaf.1)
            (fun _ => Interpretation.exact.negate) (ScalarJoint.apply .exact) =
              t.value .exact ρ := by
  intro frame age id number t
  have hsigned : t.isSigned frame = true := by decide
  have hreadable : t.isReadable frame = true := by decide
  refine ⟨hsigned, hreadable, fun next => ?_⟩
  obtain ⟨hprint, tree, hread, hvalue⟩ := printed_keepsValue next frame t .unknown hsigned hreadable
  exact ⟨hprint, tree, hread, hvalue .exact Interpretation.exact_reassociates⟩

/-- `Age & (Id | 3)` is printed without parentheses, and read as `(Age & Id) | 3`. -/
example :
    let frame : Frame := { provider := .ofDialect .postgreSql, store := {}, options := {} }
    let age : Scalar := .field ⟨0⟩
    let id : Scalar := .field ⟨1⟩
    let t : OperatorTree :=
      .joined (.leaf age) .bitAnd (.joined (.leaf id) .bitOr (.leaf (.int 3)) .int32) .int32
    t.isReadable frame = false ∧
      frame.scalarOperators.read? (t.lexemes frame .unknown) =
        some (.joined
          (.joined (.operand (age, .bitwise)) (.operator .bitAnd) (.operand (id, .bitwise)))
          (.operator .bitOr) (.operand (.int 3, .bitwise))) :=
  ⟨by decide, rfl⟩

end OperatorTree

end SqlCompiler
