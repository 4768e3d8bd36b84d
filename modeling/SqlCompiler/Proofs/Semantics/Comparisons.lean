import Mathlib.Data.String.Basic
import Mathlib.Order.Compare
import SqlCompiler.Legalize.Predicate
import SqlCompiler.Proofs.Semantics.Valuations

/-!
# Comparing values

A comparison of two values that are present has the outcome that their order has, and is unknown if
one of them is absent.  The program that asks for an equality means something else by it: absent
values are equal to each other and differ from all others.

Main results:

- Definition `Comparison.relates`: whether a comparison holds of two values of an order.
- Definition `Valuation.ComparesLiterals`: comparisons of literals are what they are meant to be.
- Definition `Valuation.hostHolds`: whether a comparison holds as a program means it.
- Definition `Valuation.exact`: whole numbers of any size, texts and truth values.
- Theorem `Valuation.ComparesLiterals.compare_of_fold`: comparisons of two literals are decided as
  they are evaluated.
-/

namespace SqlCompiler

/-! ## Orders -/

/-- Whether a comparison holds of two values. -/
def Comparison.relates {α : Type} [LinearOrder α] (op : Comparison) (a b : α) : Bool :=
  match op with
  | .equal => decide (a = b)
  | .notEqual => decide (a ≠ b)
  | .greater => decide (b < a)
  | .greaterOrEqual | .notLess => decide (b ≤ a)
  | .less => decide (a < b)
  | .lessOrEqual | .notGreater => decide (a ≤ b)
  | .overlaps => false

/-- What holds of the order of two values holds of the values. -/
theorem Comparison.holds?_compareOfLessAndEq {α : Type} [LinearOrder α] {op : Comparison} {a b : α}
    {outcome : Bool} (h : op.holds? (compareOfLessAndEq a b) = some outcome) :
    op ≠ .overlaps ∧ op.relates a b = outcome := by
  rcases lt_trichotomy a b with hlt | rfl | hgt
  · rw [compareOfLessAndEq_eq_lt.mpr hlt] at h
    cases op <;> cases h <;> simp [relates, hlt, hlt.ne, hlt.le, hlt.not_gt, hlt.not_ge]
  · have heq : compareOfLessAndEq a a = .eq := by simp [compareOfLessAndEq]
    rw [heq] at h
    cases op <;> cases h <;> simp [relates]
  · have hgt' : compareOfLessAndEq a b = .gt := by
      simp [compareOfLessAndEq, hgt.ne', hgt.not_gt]
    rw [hgt'] at h
    cases op <;> cases h <;> simp [relates, hgt, hgt.ne', hgt.le, hgt.not_gt, hgt.not_ge]

/-! ## Comparisons of values -/

namespace Valuation

variable {V : Type} (R : Valuation V)

/-- Whether literals compare as what they are, texts by code points, and what is absent with
nothing. -/
structure ComparesLiterals : Prop where
  integers : ∀ op type type' (a b : Int), op ≠ .overlaps →
    R.compare op (R.constant ⟨type, .integer a⟩) (R.constant ⟨type', .integer b⟩) =
      some (op.relates a b)
  texts : ∀ op type type' (a b : String), op ≠ .overlaps →
    R.compare op (R.constant ⟨type, .text a⟩) (R.constant ⟨type', .text b⟩) =
      some (op.relates a b)
  booleans : ∀ op type type' (a b : Bool), op ≠ .overlaps →
    R.compare op (R.constant ⟨type, .boolean a⟩) (R.constant ⟨type', .boolean b⟩) =
      some (op.relates a b)
  truth : ∀ type b, R.toTruth (R.constant ⟨type, .boolean b⟩) = some b
  null_constant : ∀ type, R.isNull (R.constant ⟨type, .null⟩) = true
  null_parameter : ∀ p : Parameter, p.value = .null → R.isNull (R.parameter p) = true
  /-- A comparison with an absent value is unknown. -/
  compare_null : ∀ op v w, R.isNull v = true ∨ R.isNull w = true → R.compare op v w = none

/-- Whether a comparison holds of two values as a program means it: absent values are equal to each
other and differ from all others; for the other comparisons it means what the database does. -/
def hostHolds (op : Comparison) (v w : V) : Prop :=
  match op with
  | .equal => (R.isNull v = true ∧ R.isNull w = true) ∨ R.compare .equal v w = some true
  | .notEqual => R.isNull v ≠ R.isNull w ∨ R.compare .notEqual v w = some true
  | op => R.compare op v w = some true

variable {R} {op : Comparison} {v w : V}

/-- What holds in the database holds as the program means it. -/
theorem hostHolds_of_compare (h : R.compare op v w = some true) : R.hostHolds op v w := by
  cases op with
  | equal | notEqual => exact .inr h
  | _ => exact h

theorem hostHolds_iff_of_not_equality (h : op.isEquality = false) :
    R.hostHolds op v w ↔ R.compare op v w = some true := by
  cases op with
  | equal | notEqual => cases h
  | _ => exact Iff.rfl

namespace ComparesLiterals

variable (C : R.ComparesLiterals)
include C

theorem isNull_of_isNullConstant {P : Place V} {e : Scalar} (h : e.isNullConstant = true) :
    R.isNull (e.valueIn R P) = true := by
  cases e with
  | value v =>
    obtain ⟨type, value⟩ := v
    cases value with
    | null => exact C.null_constant type
    | _ => cases h
  | parameter p =>
    refine C.null_parameter p ?_
    cases hvalue : p.value with
    | null => rfl
    | _ =>
      cases hquery : p.isQuery <;>
        simp [Scalar.isNullConstant, Scalar.evaluate?, hquery, hvalue] at h
  | _ => cases h

/-- Values that compare as known are present. -/
theorem present_of_compare {outcome : Bool} (h : R.compare op v w = some outcome) :
    R.isNull v = false ∧ R.isNull w = false := by
  have habsent : ¬(R.isNull v = true ∨ R.isNull w = true) := by
    intro hnull
    rw [C.compare_null op v w hnull] at h
    cases h
  simpa using habsent

/-- Where a comparison is known, a program means what the database does. -/
theorem hostHolds_iff_of_compare {outcome : Bool} (h : R.compare op v w = some outcome) :
    R.hostHolds op v w ↔ outcome = true := by
  obtain ⟨hv, hw⟩ := C.present_of_compare h
  cases op <;> simp [hostHolds, hv, hw, h]

/-- An equality with an absent value is a test for absence of the other one. -/
theorem hostHolds_iff_of_absent (hop : op.isEquality = true)
    (h : R.isNull v = true ∨ R.isNull w = true) : R.hostHolds op v w ↔
      Truth.signed (op == .notEqual) (some (R.isNull v == R.isNull w)) = some true := by
  have hunknown := C.compare_null op v w h
  cases op with
  | equal =>
    rcases h with hv | hw
    · simp [hostHolds, hunknown, hv, Truth.signed]
    · simp [hostHolds, hunknown, hw, Truth.signed]
  | notEqual => simp [hostHolds, hunknown, Truth.signed, Truth.not]
  | _ => cases hop

/-- A comparison of two literals is decided as it is evaluated. -/
theorem compare_of_fold {P : Place V} {left right : Scalar} {outcome : Bool}
    (h : foldComparison? left op right = some outcome) :
    R.compare op (left.valueIn R P) (right.valueIn R P) = some outcome := by
  unfold foldComparison? at h
  simp only [Option.bind_eq_bind, Option.bind_eq_some_iff] at h
  obtain ⟨a, ha, b, hb, order, horder, hholds⟩ := h
  have hvalue {e : Scalar} {c : Constant} (he : e.asValue? = some c) :
      ∃ type, e = .value ⟨type, c⟩ := by
    cases e with
    | value v => exact ⟨v.type, by cases he; rfl⟩
    | _ => cases he
  obtain ⟨type, rfl⟩ := hvalue ha
  obtain ⟨type', rfl⟩ := hvalue hb
  unfold Constant.order? at horder
  split at horder <;> cases horder
  · next a b =>
    rw [LinearOrder.compare_eq_compareOfLessAndEq] at hholds
    obtain ⟨hop, rfl⟩ := Comparison.holds?_compareOfLessAndEq hholds
    exact C.integers op type type' a b hop
  · next a b =>
    rw [LinearOrder.compare_eq_compareOfLessAndEq] at hholds
    obtain ⟨hop, rfl⟩ := Comparison.holds?_compareOfLessAndEq hholds
    exact C.texts op type type' a b hop
  · next a b =>
    have hcompare : Ord.compare a b = compareOfLessAndEq a b := by cases a <;> cases b <;> rfl
    rw [hcompare] at hholds
    obtain ⟨hop, rfl⟩ := Comparison.holds?_compareOfLessAndEq hholds
    exact C.booleans op type type' a b hop

theorem truthIn_of_fold {P : Place V} {left right : Scalar} {outcome : Bool}
    (h : foldComparison? left op right = some outcome) :
    (Predicate.constant outcome).truthIn R P = R.compare op (left.valueIn R P) (right.valueIn R P) :=
  (C.truth _ outcome).trans (C.compare_of_fold h).symm

/-- A test for absence of one operand is the comparison, where the other operand is absent. -/
theorem isNull_left_true_iff {P : Place V} {left right : Scalar} (hop : op.isEquality = true)
    (hright : right.isNullConstant = true) :
    (Predicate.isNull left (op == .notEqual)).truthIn R P = some true ↔
      R.hostHolds op (left.valueIn R P) (right.valueIn R P) := by
  have habsent := C.isNull_of_isNullConstant (P := P) hright
  rw [C.hostHolds_iff_of_absent hop (.inr habsent), habsent, beq_true]
  rfl

theorem isNull_right_true_iff {P : Place V} {left right : Scalar} (hop : op.isEquality = true)
    (hleft : left.isNullConstant = true) :
    (Predicate.isNull right (op == .notEqual)).truthIn R P = some true ↔
      R.hostHolds op (left.valueIn R P) (right.valueIn R P) := by
  have habsent := C.isNull_of_isNullConstant (P := P) hleft
  rw [C.hostHolds_iff_of_absent hop (.inl habsent), habsent, Bool.true_beq]
  rfl

end ComparesLiterals

end Valuation

/-! ## Exact values -/

/-- How exact values compare: those that are absent compare as unknown, and those of different kinds
are not equal. -/
def ExactValue.compare (op : Comparison) : ExactValue → ExactValue → Truth
  | .nothing, _ | _, .nothing => none
  | .integer a, .integer b => some (op.relates a b)
  | .text a, .text b => some (op.relates a b)
  | .truth (some a), .truth (some b) => some (op.relates a b)
  | a, b =>
    match op with
    | .equal => some (a == b)
    | .notEqual => some (a != b)
    | _ => none

/-- Exact values.  What functions, operators and `LIKE` do is given. -/
def Valuation.exact (functions : String → List ExactValue → ExactValue)
    (binary : BinaryOperator → ExactValue → ExactValue → ExactValue)
    (like : String → String → Option String → Truth) : Valuation ExactValue where
  null := .nothing
  constant v := .ofConstant v.value
  parameter p := .ofConstant p.value
  function name _ args := functions name args
  binary op _ := binary op
  raw format _ args :=
    match format, args with
    | "-{0}", [v] => v.negate
    | _, _ => .nothing
  convert _ _ v := v
  row _ := .nothing
  typeName _ := .nothing
  tableName _ := .nothing
  isNull v := v == .nothing
  ofTruth := .truth
  toTruth
    | .truth t => t
    | _ => none
  compare := ExactValue.compare
  compareNull _ := ExactValue.compare
  like
    | .text subject, .text pattern, none => like subject pattern none
    | .text subject, .text pattern, some (.text escape) => like subject pattern (some escape)
    | _, _, _ => none
  search _ _ _ _ := none
  between v low high :=
    Truth.and (ExactValue.compare .greaterOrEqual v low) (ExactValue.compare .lessOrEqual v high)
  isDistinct v w := v != w
  inList _ v vs := Truth.any (vs.map (ExactValue.compare .equal v))
  inRows v rows :=
    Truth.any (rows.map fun row => ExactValue.compare .equal v (row.headD .nothing))
  single
    | [[v]] => v
    | _ => .nothing
  isNull_null := rfl
  single_singleton _ := rfl
  equal_self v hv := by
    match v with
    | .nothing => cases hv
    | .integer _ | .text _ | .truth none | .truth (some _) =>
      simp [ExactValue.compare, Comparison.relates]
  equal_null v w h := by
    have habsent : v = .nothing ∨ w = .nothing := by simpa using h
    rcases habsent with rfl | rfl
    · cases w <;> rfl
    · cases v <;> rfl

/-- Literals compare as what they are. -/
theorem Valuation.exact_comparesLiterals (functions : String → List ExactValue → ExactValue)
    (binary : BinaryOperator → ExactValue → ExactValue → ExactValue)
    (like : String → String → Option String → Truth) :
    (exact functions binary like).ComparesLiterals where
  integers _ _ _ _ _ _ := rfl
  texts _ _ _ _ _ _ := rfl
  booleans _ _ _ _ _ _ := rfl
  truth _ _ := rfl
  null_constant _ := rfl
  null_parameter p hp := by
    change (ExactValue.ofConstant p.value == .nothing) = true
    rw [hp]
    rfl
  compare_null op v w h := by
    have habsent : v = .nothing ∨ w = .nothing := by simpa [exact] using h
    rcases habsent with rfl | rfl
    · cases w <;> rfl
    · cases v <;> rfl

end SqlCompiler
