import Mathlib.Data.Int.Bitwise
import SqlCompiler.Proofs.Queries.Parts
import SqlCompiler.Proofs.Semantics.Truth

/-!
# Values of expressions

What an expression is worth on a row, for any reading of the constants and the operators.  The
expressions that the operators of query terms are lowered to have a value; everything else is
worth the same unknown value.

Operands of an operator can be grouped in another way where the operators associate.  On whole
numbers of any size and on texts, additions and subtractions do, and so do concatenations and the
bit operators, each with itself.

Main results:

- Definition `Interpretation`: a domain of values with the operators on it.
- Definition `Scalar.eval`, `Condition.truth`: the value of an expression on a row.
- Theorem `Scalar.eval_congr`: equal expressions have equal values.
- Definition `BinaryOperator.reassociates`: the pairs of operators that associate.
- Definition `Interpretation.Reassociates`: the operators of a reading associate as they should.
- Definition `Interpretation.exact`: whole numbers of any size, texts and truth values.
- Theorem `Interpretation.exact_reassociates`: their operators associate.
-/

namespace SqlCompiler

/-! ## Readings of the operators -/

/-- A domain of values and what the operators do on it. -/
structure Interpretation (V : Type) where
  constant : Constant → V
  parameter : String → Constant → V
  isNull : V → Bool
  /-- A truth value as a value. -/
  ofTruth : Truth → V
  /-- A value as a truth value. -/
  toTruth : V → Truth
  compare : Comparison → V → V → Truth
  binary : BinaryOperator → V → V → V
  negate : V → V
  convert : TypeKind → V → V
  /-- The value of anything that is not given a meaning here. -/
  unknown : V
  /-- Equal constants have one value. -/
  constant_congr : ∀ a b : Constant, (a == b) = true → constant a = constant b
  parameter_congr : ∀ name, ∀ a b : Constant, (a == b) = true → parameter name a = parameter name b
  toTruth_ofTruth : ∀ t, toTruth (ofTruth t) = t
  /-- A negation is a multiplication by minus one. -/
  negate_eq : ∀ v, binary .multiply (constant (.integer (-1))) v = negate v

attribute [simp] Interpretation.toTruth_ofTruth

/-- The values of the fields and columns that can be referred to on a row. -/
structure Env (V : Type) where
  field : FieldRef → V
  column : ColumnRef → V

namespace Interpretation

variable {V : Type} (I : Interpretation V)

/-- The value of a function call. -/
def call (name : String) (args : List V) : V :=
  match name, args with
  | "Coalesce", [a, b] => if I.isNull a then b else a
  | "CASE", [test, yes, no] => if I.toTruth test == some true then yes else no
  | "CASE", [test, yes] => if I.toTruth test == some true then yes else I.constant .null
  | _, _ => I.unknown

end Interpretation

/-! ## Values -/

section

variable {V : Type} (I : Interpretation V) (ρ : Env V)

mutual

/-- The value of a scalar on a row. -/
def Scalar.eval : Scalar → V
  | .value v => I.constant v.value
  | .parameter p => I.parameter p.name p.value
  | .field f => ρ.field f
  | .column c => ρ.column c
  | .function call => call.eval
  | .binary l op r _ => I.binary op l.eval r.eval
  | .convert target _ e _ => I.convert target.kind e.eval
  | .condition c => I.ofTruth c.truth
  | _ => I.unknown
termination_by structural e => e

/-- The values of some scalars on a row. -/
def evalScalars : List Scalar → List V
  | [] => []
  | e :: rest => e.eval :: evalScalars rest
termination_by structural es => es

/-- The value of a call on a row. -/
def Call.eval : Call → V
  | ⟨name, args, _, _, _⟩ => I.call name (evalScalars args)
termination_by structural c => c

/-- The truth of a predicate on a row. -/
def Predicate.truth : Predicate → Truth
  | .compare l op r none => I.compare op l.eval r.eval
  | .isNull e negated => some (I.isNull e.eval != negated)
  | .scalar e _ => I.toTruth e.eval
  | .nested c => c.truth
  | _ => none
termination_by structural p => p

/-- The truth of a branch on a row. -/
def Branch.truth : Branch → Truth
  | ⟨negated, predicate, _⟩ => if negated then Truth.not predicate.truth else predicate.truth
termination_by structural b => b

/-- The truth of branches on a row, after a conjunction of given truth. -/
def branchesTruth : List Branch → Truth → Truth
  | [], acc => acc
  | b :: rest, acc =>
    let acc := Truth.and acc b.truth
    if rest.isEmpty then acc
    else if b.joinsOr then Truth.or acc (branchesTruth rest (some true))
    else branchesTruth rest acc
termination_by structural bs => bs

/-- The truth of a condition on a row. -/
def Condition.truth : Condition → Truth
  | ⟨branches⟩ => branchesTruth branches (some true)
termination_by structural c => c

end

theorem Branch.truth_eq (b : Branch) : b.truth I ρ = b.truthBy (Predicate.truth I ρ) := by
  cases b
  rfl

theorem branchesTruth_eq (branches : List Branch) (acc : Truth) :
    branchesTruth I ρ branches acc = truthOfBranches (Predicate.truth I ρ) acc branches := by
  induction branches generalizing acc with
  | nil => rfl
  | cons b rest ih => simp only [branchesTruth, truthOfBranches, ih, Branch.truth_eq]

/-- The truth of a condition follows from that of its predicates. -/
theorem Condition.truth_eq (c : Condition) : c.truth I ρ = c.truthBy (Predicate.truth I ρ) := by
  obtain ⟨branches⟩ := c
  exact branchesTruth_eq I ρ branches (some true)

theorem Predicate.truth_nested (c : Condition) :
    Predicate.truth I ρ (.nested c) = c.truthBy (Predicate.truth I ρ) :=
  Condition.truth_eq I ρ c

/-! ## The ways a condition grows -/

namespace Condition

variable {I ρ} {c d : Condition}

@[simp]
theorem truth_empty : empty.truth I ρ = some true := rfl

@[simp]
theorem truth_ofPredicate (p : Predicate) : (ofPredicate p).truth I ρ = p.truth I ρ := by
  rw [truth_eq, truthBy_ofPredicate]

theorem truth_conjoinAll : (c.conjoinAll d).truth I ρ = Truth.and (c.truth I ρ) (d.truth I ρ) := by
  simp only [truth_eq]
  exact truthBy_conjoinAll (Predicate.truth_nested I ρ)

theorem truth_negation : c.negation.truth I ρ = Truth.not (c.truth I ρ) := by
  simp only [truth_eq]
  exact truthBy_negation (Predicate.truth_nested I ρ)

theorem truth_disjunction (hc : c.isSolid = true) :
    (c.disjunction d).truth I ρ = Truth.or (c.truth I ρ) (d.truth I ρ) := by
  simp only [truth_eq]
  exact truthBy_disjunction (Predicate.truth_nested I ρ) hc

end Condition

end

/-! ## Equal expressions -/

section

variable {V : Type} (I : Interpretation V) (ρ : Env V)

theorem TypedValue.value_beq {v w : TypedValue} (h : (v == w) = true) :
    (v.value == w.value) = true := by
  have h : (v.type == w.type && v.value == w.value) = true := h
  exact (Bool.and_eq_true _ _ ▸ h).2

theorem Parameter.value_beq {p q : Parameter} (h : (p == q) = true) :
    p.name = q.name ∧ (p.value == q.value) = true := by
  have h : (p.name == q.name && p.type == q.type && p.value == q.value &&
    p.isQuery == q.isQuery) = true := h
  simp only [Bool.and_eq_true, beq_iff_eq] at h
  exact ⟨h.1.1.1, h.1.2⟩

mutual

/-- Equal scalars have equal values. -/
theorem Scalar.eval_congr (a b : Scalar) (h : a.beq b = true) : a.eval I ρ = b.eval I ρ := by
  cases a <;> cases b <;> simp only [Scalar.beq, Bool.false_eq_true] at h <;> try rfl
  case value.value v w => exact I.constant_congr _ _ (TypedValue.value_beq h)
  case parameter.parameter p q =>
    obtain ⟨hname, hvalue⟩ := Parameter.value_beq h
    rw [Scalar.eval, Scalar.eval, hname]
    exact I.parameter_congr _ _ _ hvalue
  case field.field f g => rw [eq_of_beq h]
  case column.column c d => rw [eq_of_beq h]
  case function.function c d => exact Call.eval_congr c d h
  case binary.binary l op r type l' op' r' type' =>
    simp only [Bool.and_eq_true, beq_iff_eq] at h
    rw [Scalar.eval, Scalar.eval, Scalar.eval_congr l l' h.1.1.1, Scalar.eval_congr r r' h.1.2, h.1.1.2]
  case convert.convert target source e keep target' source' e' keep' =>
    simp only [Bool.and_eq_true, beq_iff_eq] at h
    rw [Scalar.eval, Scalar.eval, Scalar.eval_congr e e' h.1.2, h.1.1.1]
  case condition.condition c d => rw [Scalar.eval, Scalar.eval, Condition.truth_congr c d h]
termination_by structural a

/-- Equal lists of scalars have equal values. -/
theorem evalScalars_congr (as bs : List Scalar) (h : beqScalars as bs = true) :
    evalScalars I ρ as = evalScalars I ρ bs := by
  match as, bs with
  | [], [] => rfl
  | [], _ :: _ | _ :: _, [] => simp [beqScalars] at h
  | a :: as, b :: bs =>
    rw [beqScalars, Bool.and_eq_true] at h
    rw [evalScalars, evalScalars, Scalar.eval_congr a b h.1, evalScalars_congr as bs h.2]
termination_by structural as

/-- Equal calls have equal values. -/
theorem Call.eval_congr (a b : Call) (h : a.beq b = true) : a.eval I ρ = b.eval I ρ := by
  obtain ⟨name, args, type, isAggregate, keep⟩ := a
  obtain ⟨name', args', type', isAggregate', keep'⟩ := b
  simp only [Call.beq, Bool.and_eq_true, beq_iff_eq] at h
  rw [Call.eval, Call.eval, evalScalars_congr args args' h.1.1.1.2, h.1.1.1.1]
termination_by structural a

/-- Equal predicates have equal truth. -/
theorem Predicate.truth_congr (a b : Predicate) (h : a.beq b = true) :
    a.truth I ρ = b.truth I ρ := by
  cases a <;> cases b <;> try rfl
  case compare.compare l op r withNull l' op' r' withNull' =>
    simp only [Predicate.beq, Bool.and_eq_true, beq_iff_eq] at h
    obtain ⟨⟨⟨hl, rfl⟩, hr⟩, rfl⟩ := h
    cases withNull with
    | none =>
      rw [Predicate.truth, Predicate.truth, Scalar.eval_congr l l' hl,
        Scalar.eval_congr r r' hr]
    | some b => rfl
  case isNull.isNull e negated e' negated' =>
    simp only [Predicate.beq, Bool.and_eq_true, beq_iff_eq] at h
    rw [Predicate.truth, Predicate.truth, Scalar.eval_congr e e' h.1, h.2]
  case scalar.scalar e precedence e' precedence' =>
    simp only [Predicate.beq, Bool.and_eq_true, beq_iff_eq] at h
    rw [Predicate.truth, Predicate.truth, Scalar.eval_congr e e' h.1]
  case nested.nested c d => exact Condition.truth_congr c d h
  all_goals
    first
    | obtain ⟨_, _, _, _, heq⟩ := Predicate.like_of_beq h
      cases heq
    | exact nomatch h
termination_by structural a

/-- Equal branches have equal truth. -/
theorem Branch.truth_congr (a b : Branch) (h : a.beq b = true) : a.truth I ρ = b.truth I ρ := by
  obtain ⟨negated, predicate, joinsOr⟩ := a
  obtain ⟨negated', predicate', joinsOr'⟩ := b
  simp only [Branch.beq, Bool.and_eq_true, beq_iff_eq] at h
  rw [Branch.truth, Branch.truth, Predicate.truth_congr predicate predicate' h.1.2, h.1.1]
termination_by structural a

/-- Equal lists of branches have equal truth. -/
theorem branchesTruth_congr (as bs : List Branch) (h : beqBranches as bs = true) (acc : Truth) :
    branchesTruth I ρ as acc = branchesTruth I ρ bs acc := by
  match as, bs with
  | [], [] => rfl
  | [], _ :: _ | _ :: _, [] => simp [beqBranches] at h
  | a :: as, b :: bs =>
    rw [beqBranches, Bool.and_eq_true] at h
    have hjoins : a.joinsOr = b.joinsOr := by
      obtain ⟨_, _, _⟩ := a
      obtain ⟨_, _, _⟩ := b
      simp only [Branch.beq, Bool.and_eq_true, beq_iff_eq] at h
      exact h.1.2
    have hempty : as.isEmpty = bs.isEmpty := by
      cases as <;> cases bs <;> simp [beqBranches] at h ⊢
    simp only [branchesTruth, Branch.truth_congr a b h.1, hjoins, hempty,
      branchesTruth_congr as bs h.2]
termination_by structural as

/-- Equal conditions have equal truth. -/
theorem Condition.truth_congr (a b : Condition) (h : a.beq b = true) :
    a.truth I ρ = b.truth I ρ := by
  obtain ⟨as⟩ := a
  obtain ⟨bs⟩ := b
  exact branchesTruth_congr as bs h (some true)
termination_by structural a

end

end

/-! ## Nullable integers -/

/-- Whether a comparison holds of integers. -/
def Comparison.holds (op : Comparison) (a b : Int) : Bool :=
  match op with
  | .equal => a == b
  | .notEqual => a != b
  | .greater => b < a
  | .greaterOrEqual | .notLess => b ≤ a
  | .less => a < b
  | .lessOrEqual | .notGreater => a ≤ b
  | .overlaps => false

/-- The integer a constant is. -/
def Constant.nullableInteger : Constant → Option Int
  | .integer n => some n
  | .boolean b => some b.toInt
  | _ => none

theorem Constant.nullableInteger_congr (a b : Constant) (h : (a == b) = true) :
    a.nullableInteger = b.nullableInteger := by
  cases a with
  | integer n =>
    cases b with
    | integer m =>
      have hequal : (n == m) = true := h
      rw [eq_of_beq hequal]
    | _ => cases h
  | boolean c =>
    cases b with
    | boolean d =>
      have hequal : (c == d) = true := h
      rw [eq_of_beq hequal]
    | _ => cases h
  | _ =>
    cases b with
    | integer m => cases h
    | boolean d => cases h
    | _ => rfl

/-- Integers that may be absent, compared as SQL compares them. -/
def Interpretation.nullableIntegers : Interpretation (Option Int) where
  constant := Constant.nullableInteger
  parameter _ c := c.nullableInteger
  isNull := Option.isNone
  ofTruth t := t.map Bool.toInt
  toTruth v := v.map (· != 0)
  compare op a b :=
    match a, b with
    | some a, some b => some (op.holds a b)
    | _, _ => none
  binary op a b :=
    match op, a, b with
    | .add, some a, some b => some (a + b)
    | .subtract, some a, some b => some (a - b)
    | .multiply, some a, some b => some (a * b)
    | _, _, _ => none
  negate v := v.map (- ·)
  convert _ v := v
  unknown := none
  constant_congr := Constant.nullableInteger_congr
  parameter_congr _ := Constant.nullableInteger_congr
  toTruth_ofTruth t := by cases t with
    | none => rfl
    | some b => cases b <;> rfl
  negate_eq v := by cases v with
    | none => rfl
    | some n => exact congrArg some (Int.neg_one_mul n)

/-! ## Operators that associate -/

/-- Whether a second operator may be applied after the first one, instead of inside of its right
operand: `a op (b op' c)` is `(a op b) op' c`. -/
def BinaryOperator.reassociates : BinaryOperator → BinaryOperator → Bool
  | .add, .add | .add, .subtract | .concat, .concat => true
  | .bitAnd, .bitAnd | .bitOr, .bitOr | .bitXor, .bitXor => true
  | _, _ => false

/-- The operators of a reading associate. -/
def Interpretation.Reassociates {V : Type} (I : Interpretation V) : Prop :=
  ∀ op op', op.reassociates op' = true → ∀ a b c,
    I.binary op a (I.binary op' b c) = I.binary op' (I.binary op a b) c

/-! ## Bits of integers -/

namespace Bits

/-- Integers with the same bits are equal. -/
theorem ext {m n : Int} (h : ∀ k, m.testBit k = n.testBit k) : m = n := by
  -- Far to the left, the bits of a natural number are unset and those of a negative one are set.
  have hfar (a b : Nat) : ∃ k, Nat.testBit a k = false ∧ Nat.testBit b k = false := by
    refine ⟨a + b, Nat.testBit_lt_two_pow ?_, Nat.testBit_lt_two_pow ?_⟩
    · exact Nat.lt_of_le_of_lt (Nat.le_add_right a b) Nat.lt_two_pow_self
    · exact Nat.lt_of_le_of_lt (Nat.le_add_left b a) Nat.lt_two_pow_self
  cases m with
  | ofNat a =>
    cases n with
    | ofNat b => exact congrArg Int.ofNat (Nat.eq_of_testBit_eq h)
    | negSucc b =>
      obtain ⟨k, ha, hb⟩ := hfar a b
      have hk : Nat.testBit a k = !Nat.testBit b k := h k
      simp [ha, hb] at hk
  | negSucc a =>
    cases n with
    | ofNat b =>
      obtain ⟨k, ha, hb⟩ := hfar a b
      have hk : (!Nat.testBit a k) = Nat.testBit b k := h k
      simp [ha, hb] at hk
    | negSucc b =>
      refine congrArg Int.negSucc (Nat.eq_of_testBit_eq fun k => ?_)
      have hk : (!Nat.testBit a k) = !Nat.testBit b k := h k
      simpa using hk

theorem land_assoc (a b c : Int) : Int.land a (Int.land b c) = Int.land (Int.land a b) c :=
  ext fun k => by simp only [Int.testBit_land, Bool.and_assoc]

theorem lor_assoc (a b c : Int) : Int.lor a (Int.lor b c) = Int.lor (Int.lor a b) c :=
  ext fun k => by simp only [Int.testBit_lor, Bool.or_assoc]

theorem xor_assoc (a b c : Int) : Int.xor a (Int.xor b c) = Int.xor (Int.xor a b) c :=
  ext fun k => by simp only [Int.testBit_lxor, Bool.xor_assoc]

end Bits

/-! ## Exact values -/

/-- A whole number of any size, a text, a truth value, or nothing. -/
inductive ExactValue where
  | integer (n : Int)
  | text (s : String)
  | truth (t : Truth)
  | nothing
  deriving DecidableEq, Repr

namespace ExactValue

/-- The value a constant has. -/
def ofConstant : Constant → ExactValue
  | .integer n => .integer n
  | .text s => .text s
  | .boolean b => .truth (some b)
  | _ => .nothing

theorem ofConstant_congr (a b : Constant) (h : (a == b) = true) : ofConstant a = ofConstant b := by
  cases a <;> cases b <;> first | rfl | cases h | skip
  case integer.integer n m =>
    have hequal : (n == m) = true := h
    rw [eq_of_beq hequal]
  case text.text s t =>
    have hequal : (s == t) = true := h
    rw [eq_of_beq hequal]
  case boolean.boolean b c =>
    have hequal : (b == c) = true := h
    rw [eq_of_beq hequal]

/-- How two values compare, as an integer that is negative, zero or positive. -/
def order? : ExactValue → ExactValue → Option Int
  | .integer a, .integer b => some (a - b)
  | .text a, .text b => some (if a < b then -1 else if a = b then 0 else 1)
  | _, _ => none

/-- What an operator yields. -/
def binary (op : BinaryOperator) : ExactValue → ExactValue → ExactValue
  | .integer a, .integer b =>
    match op with
    | .add => .integer (a + b)
    | .subtract => .integer (a - b)
    | .multiply => .integer (a * b)
    | .divide => if b = 0 then .nothing else .integer (a.tdiv b)
    | .modulo => if b = 0 then .nothing else .integer (a.tmod b)
    | .bitAnd => .integer (Int.land a b)
    | .bitOr => .integer (Int.lor a b)
    | .bitXor => .integer (Int.xor a b)
    | .concat => .nothing
  | .text a, .text b =>
    match op with
    | .concat => .text (a ++ b)
    | _ => .nothing
  | _, _ => .nothing

/-- The negative of a number. -/
def negate : ExactValue → ExactValue
  | .integer n => .integer (-n)
  | _ => .nothing

end ExactValue

/-- Whole numbers of any size, texts and truth values, with the operators as they are meant. -/
def Interpretation.exact : Interpretation ExactValue where
  constant := ExactValue.ofConstant
  parameter _ := ExactValue.ofConstant
  isNull v := v == .nothing
  ofTruth := .truth
  toTruth
    | .truth t => t
    | _ => none
  compare op a b := (ExactValue.order? a b).map fun order => op.holds order 0
  binary := ExactValue.binary
  negate := ExactValue.negate
  convert _ v := v
  unknown := .nothing
  constant_congr := ExactValue.ofConstant_congr
  parameter_congr _ := ExactValue.ofConstant_congr
  toTruth_ofTruth _ := rfl
  negate_eq v := by
    cases v with
    | integer n => exact congrArg ExactValue.integer (Int.neg_one_mul n)
    | _ => rfl

/-- The operators on exact values associate. -/
theorem Interpretation.exact_reassociates : Interpretation.exact.Reassociates := by
  intro op op' h a b c
  change ExactValue.binary op a (ExactValue.binary op' b c) =
    ExactValue.binary op' (ExactValue.binary op a b) c
  cases op <;> cases op' <;> cases h <;> cases a <;> cases b <;> cases c <;> try rfl
  case add.add.refl.integer.integer.integer =>
    exact congrArg ExactValue.integer (Int.add_assoc ..).symm
  case add.subtract.refl.integer.integer.integer =>
    exact congrArg ExactValue.integer (Int.add_sub_assoc ..).symm
  case bitAnd.bitAnd.refl.integer.integer.integer =>
    exact congrArg ExactValue.integer (Bits.land_assoc ..)
  case bitOr.bitOr.refl.integer.integer.integer =>
    exact congrArg ExactValue.integer (Bits.lor_assoc ..)
  case bitXor.bitXor.refl.integer.integer.integer =>
    exact congrArg ExactValue.integer (Bits.xor_assoc ..)
  case concat.concat.refl.text.text.text =>
    exact congrArg ExactValue.text (String.append_assoc ..).symm

end SqlCompiler
