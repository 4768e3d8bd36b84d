import SqlCompiler.Proofs.Semantics.LegalScalars

/-!
# Values of spelled operators

Expressions over 64-bit integers and texts have the same value when their constants have been
combined and their operators are spelled as a dialect has them.  The dialects differ in the signs,
functions and texts they have for the operators, and in what divisions yield.  A value is checked
at every step, so that an expression with an intermediate result that is too large has no other
value than that.

Main results:

- Definition `CheckedValue`, `BinaryOperator.checked`: values, and what operators do with them.
- Definition `Dialect.spellings`: what a dialect has for the operators.
- Definition `Scalar.IsTyped`: trees of operators over integers, or over texts.
- Theorem `Bits.add_eq_xor_add_land`: a sum is the bits that differ, and twice those in common.
- Theorem `Scalar.IsTyped.value_legal`: the value of a tree whose operators are spelled.
-/

namespace SqlCompiler

/-! ## Bits of sums -/

namespace Bits

/-- Integers with few bits are the bits that differ, and twice those they have in common. -/
theorem add_eq_xor_add_land_of_lt (k : Nat) {a b : Int} (ha : -2 ^ k ≤ a ∧ a < 2 ^ k)
    (hb : -2 ^ k ≤ b ∧ b < 2 ^ k) : a + b = Int.xor a b + 2 * Int.land a b := by
  induction k generalizing a b with
  | zero =>
    have hsign (n : Int) (hn : -2 ^ 0 ≤ n ∧ n < 2 ^ 0) : n = .negSucc 0 ∨ n = .ofNat 0 :=
      show n = -1 ∨ n = 0 by omega
    rcases hsign a ha with rfl | rfl <;> rcases hsign b hb with rfl | rfl <;>
      simp [Int.xor, Int.land, Nat.ldiff]
  | succ k ih =>
    obtain ⟨x, a', rfl⟩ : ∃ x a', a = Int.bit x a' := ⟨_, _, (Int.bit_decomp a).symm⟩
    obtain ⟨y, b', rfl⟩ : ∃ y b', b = Int.bit y b' := ⟨_, _, (Int.bit_decomp b).symm⟩
    have hrest := @ih a' b'
    rw [Int.lxor_bit, Int.land_bit]
    simp only [Int.bit_val] at ha hb ⊢
    rw [pow_succ] at ha hb
    cases x <;> cases y <;> simp only [cond_true, cond_false, Bool.xor_false, Bool.xor_true,
      Bool.not_true, Bool.not_false, Bool.and_true, Bool.and_false] at ha hb ⊢ <;> omega

/-- A sum is the bits that differ, and twice the bits in common. -/
theorem add_eq_xor_add_land (a b : Int) : a + b = Int.xor a b + 2 * Int.land a b := by
  have hsmall (n : Int) (m : Nat) : -2 ^ (n.natAbs + m) ≤ n ∧ n < 2 ^ (n.natAbs + m) := by
    have hpow : n.natAbs < 2 ^ (n.natAbs + m) :=
      Nat.lt_of_lt_of_le Nat.lt_two_pow_self (Nat.pow_le_pow_right (by decide) (Nat.le_add_right _ _))
    have hcast : (n.natAbs : Int) < 2 ^ (n.natAbs + m) := by exact_mod_cast hpow
    omega
  exact add_eq_xor_add_land_of_lt (a.natAbs + b.natAbs) (hsmall a _)
    (Nat.add_comm _ _ ▸ hsmall b _)

end Bits

/-! ## Values -/

/-- What an expression over 64-bit integers and texts comes to. -/
inductive CheckedValue where
  | null
  | integer (n : Int)
  | text (s : String)
  /-- An intermediate result has more than 64 bits. -/
  | overflow
  /-- An operator is not there, or refuses its operands. -/
  | failure
  deriving DecidableEq, Repr

/-- Whether an integer has 64 bits. -/
def fitsInt64 (n : Int) : Prop := -2 ^ 63 ≤ n ∧ n < 2 ^ 63

instance (n : Int) : Decidable (fitsInt64 n) := inferInstanceAs (Decidable (_ ∧ _))

namespace CheckedValue

/-- The value of a constant. -/
def ofConstant : Constant → CheckedValue
  | .null => .null
  | .integer n => .integer n
  | .text s => .text s
  | _ => .failure

/-- A result, if it is not too large. -/
def bounded : CheckedValue → CheckedValue
  | .integer n => if fitsInt64 n then .integer n else .overflow
  | o => o

end CheckedValue

/-- What the divisions of a database yield. -/
structure Divisions where
  quotient : Int → Int → CheckedValue
  remainder : Int → Int → CheckedValue

namespace BinaryOperator

/-- What an operator does with integers. -/
def onIntegers (D : Divisions) (a b : Int) : BinaryOperator → CheckedValue
  | .add => .integer (a + b)
  | .subtract => .integer (a - b)
  | .multiply => .integer (a * b)
  | .divide => D.quotient a b
  | .modulo => D.remainder a b
  | .bitAnd => .integer (Int.land a b)
  | .bitOr => .integer (Int.lor a b)
  | .bitXor => .integer (Int.xor a b)
  | .concat => .failure

/-- What an operator does with texts: only joining them has a meaning. -/
def onTexts (s t : String) : BinaryOperator → CheckedValue
  | .add | .concat => .text (s ++ t)
  | _ => .failure

/-- What an operator is meant to do. -/
def checked (D : Divisions) (op : BinaryOperator) : CheckedValue → CheckedValue → CheckedValue
  | .overflow, _ | _, .overflow => .overflow
  | .failure, _ | _, .failure => .failure
  | .null, _ | _, .null => .null
  | .integer a, .integer b => (op.onIntegers D a b).bounded
  | .text s, .text t => op.onTexts s t
  | .integer _, .text _ | .text _, .integer _ => .failure

end BinaryOperator

/-! ## Spellings -/

/-- How operators are spelled: the signs for results of each type, and what functions of two
arguments and texts with two places stand for. -/
structure Spellings where
  signs : SqlType → List BinaryOperator
  function? : String → Option BinaryOperator
  text? : String → Option BinaryOperator

/-- Every operator has its sign. -/
def Spellings.meant : Spellings where
  signs _ := BinaryOperator.all
  function? _ := none
  text? _ := none

namespace Dialect

/-- The signs for integers.  In PostgreSQL `^` is a power. -/
def integerSigns : Dialect → List BinaryOperator
  | generic | sqlServer =>
    [.add, .subtract, .multiply, .divide, .modulo, .bitAnd, .bitOr, .bitXor]
  | postgreSql | sqlite => [.add, .subtract, .multiply, .divide, .modulo, .bitAnd, .bitOr]
  | db2 => [.add, .subtract, .multiply, .divide]

/-- The signs for texts. -/
def textSigns : Dialect → List BinaryOperator
  | sqlServer => [.add]
  | generic | postgreSql | sqlite | db2 => [.concat]

/-- What a dialect has for the operators. -/
def spellings (d : Dialect) : Spellings where
  signs type := if type.kind.isText then d.textSigns else d.integerSigns
  function? name :=
    match d, name with
    | db2, "Mod" => some .modulo
    | db2, "BitAnd" => some .bitAnd
    | db2, "BitOr" => some .bitOr
    | db2, "BitXor" => some .bitXor
    | _, _ => none
  text? format :=
    match d, format with
    | postgreSql, "{0} # {1}" => some .bitXor
    | _, _ => none

end Dialect

/-- What a function or a text that stands for an operator does with some arguments. -/
def spelledValue (D : Divisions) : Option BinaryOperator → List CheckedValue → CheckedValue
  | some op, [a, b] => op.checked D a b
  | _, _ => .failure

section

variable (W : Spellings) (D : Divisions) (leaf : Scalar → CheckedValue)

mutual

/-- The value of an expression, for values of its parameters, fields and columns. -/
def Scalar.checkedValue : Scalar → CheckedValue
  | .value v => .ofConstant v.value
  | .parameter p => leaf (.parameter p)
  | .field f => leaf (.field f)
  | .column c => leaf (.column c)
  | .function call => call.checkedValue
  | .binary l op r type =>
    if op ∈ W.signs type then op.checked D l.checkedValue r.checkedValue else .failure
  | .raw format args _ _ => spelledValue D (W.text? format) (checkedValues args)
  | _ => .failure
termination_by structural e => e

/-- The values of some expressions. -/
def checkedValues : List Scalar → List CheckedValue
  | [] => []
  | e :: rest => e.checkedValue :: checkedValues rest
termination_by structural es => es

/-- The value of a call. -/
def Call.checkedValue : Call → CheckedValue
  | ⟨name, args, _, _, _⟩ => spelledValue D (W.function? name) (checkedValues args)
termination_by structural c => c

end

end

/-! ## Typed trees -/

/-- What the operators of a tree are applied to. -/
inductive OperandKind where
  | integer | text
  deriving DecidableEq, Repr

namespace OperandKind

/-- Whether a type is of a kind. -/
def covers : OperandKind → SqlType → Bool
  | integer, type => type.kind.isInteger
  | text, type => type.kind.isText

/-- Whether a value may be one of an expression of some kind. -/
def allows : OperandKind → CheckedValue → Bool
  | integer, .text _ | text, .integer _ => false
  | _, _ => true

/-- Whether an operator is meant for operands of a kind. -/
def takes : OperandKind → BinaryOperator → Bool
  | integer, op => op != .concat
  | text, op => op == .add || op == .concat

theorem isText_of_covers {k : OperandKind} {type : SqlType} (h : k.covers type = true) :
    type.kind.isText = decide (k = text) := by
  cases k with
  | text => exact h
  | integer =>
    have hinteger : type.kind.isInteger = true := h
    revert hinteger
    cases type.kind <;> decide

end OperandKind

/-- A parameter, a field or a column. -/
def Scalar.isVariable : Scalar → Bool
  | .parameter _ | .field _ | .column _ => true
  | _ => false

/-- Trees of operators over integers, or over texts, that have types of that kind. -/
inductive Scalar.IsTyped (s : Store) (k : OperandKind) : Scalar → Prop
  | value {v : TypedValue} : k.covers v.type = true → k.allows (.ofConstant v.value) = true →
      IsTyped s k (.value v)
  | leaf {e : Scalar} : e.isVariable = true → k.covers (s.typeOf e) = true → IsTyped s k e
  | binary {l r : Scalar} {op : BinaryOperator} {type : SqlType} : IsTyped s k l → IsTyped s k r →
      k.takes op = true → k.covers type = true → IsTyped s k (.binary l op r type)

/-! ## Values of legal operators -/

/-- Texts are joined by either operator. -/
theorem BinaryOperator.checked_texts {D : Divisions} {op : BinaryOperator} {a b : CheckedValue}
    (hop : OperandKind.text.takes op = true) (ha : OperandKind.text.allows a = true) :
    op.checked D a b = BinaryOperator.concat.checked D a b := by
  obtain rfl | rfl : op = .add ∨ op = .concat := by simpa [OperandKind.takes] using hop
  · cases a <;> cases b <;> first | rfl | cases ha
  · rfl

/-- What texts are joined to is no integer. -/
theorem OperandKind.allows_checked {D : Divisions} {op : BinaryOperator} {a b : CheckedValue}
    (hop : text.takes op = true) (ha : text.allows a = true) :
    text.allows (op.checked D a b) = true := by
  rw [BinaryOperator.checked_texts hop ha]
  cases a <;> cases b <;> rfl

/-- Combined constants have the value of the operation. -/
theorem ofConstant_folded {a b c : Constant} {op : BinaryOperator}
    (h : foldConstants? a op b = some c) (D : Divisions) :
    CheckedValue.ofConstant c =
      op.checked D (CheckedValue.ofConstant a) (CheckedValue.ofConstant b) := by
  have hchecked {n : Int} (h : checkedInt64 n = some c) :
      CheckedValue.ofConstant c = (CheckedValue.integer n).bounded := by
    unfold checkedInt64 at h
    split at h
    · next hfits =>
      obtain rfl := Option.some.inj h
      exact (if_pos hfits).symm
    · cases h
  unfold foldConstants? at h
  split at h
  -- integers added, subtracted and multiplied
  iterate 3 exact hchecked h
  -- texts joined by either sign
  iterate 2
    obtain rfl := Option.some.inj h
    rfl
  · cases h

section

variable {s : Store} {d : Dialect} {k : OperandKind} {D : Divisions} {leaf : Scalar → CheckedValue}
  {l r : Scalar} {op : BinaryOperator} {type : SqlType}

/-- The texts of a tree are joined, and nothing else. -/
theorem Store.isConcatenation_typed (hop : k.takes op = true) (htype : k.covers type = true)
    (hl : k.covers (s.typeOf l) = true) (hr : k.covers (s.typeOf r) = true) :
    s.isConcatenation l op r type = decide (k = .text) := by
  have htext := OperandKind.isText_of_covers htype
  have hleft := OperandKind.isText_of_covers hl
  have hright := OperandKind.isText_of_covers hr
  cases op with
  | add => rw [isConcatenation, htext, hleft, hright, Bool.or_self, Bool.or_self]
  | concat => cases k <;> first | rfl | cases hop
  | _ => cases k <;> first | rfl | cases hop

/-- Constants that are combined have the value of the operation, and its type. -/
theorem checkedValue_foldBinary {folded : Scalar} {W : Spellings} (htype : k.covers type = true)
    (h : foldBinary? l op r type = some folded) :
    s.typeOf folded = type ∧ folded.checkedValue W D leaf =
      op.checked D (l.checkedValue W D leaf) (r.checkedValue W D leaf) := by
  have hconstant {e : Scalar} {c : Constant} (h : e.asValue? = some c) :
      e.checkedValue W D leaf = .ofConstant c := by
    cases e with
    | value v =>
      obtain rfl := Option.some.inj h
      rfl
    | _ => cases h
  have hdefined : (type.kind == .undefined) = false := by
    rw [beq_eq_false_iff_ne]
    rintro hkind
    cases k <;> simp [OperandKind.covers, hkind, TypeKind.isInteger, TypeKind.isText] at htype
  unfold foldBinary? at h
  simp only [Option.bind_eq_bind, Option.bind_eq_some_iff] at h
  obtain ⟨a, ha, b, hb, c, hc, hfolded⟩ := h
  rw [hdefined] at hfolded
  obtain rfl := Option.some.inj hfolded
  refine ⟨rfl, ?_⟩
  rw [hconstant ha, hconstant hb]
  exact ofConstant_folded hc D

/-- An operator that a dialect has a sign for, or joins texts with another one, keeps its value. -/
theorem Store.checkedValue_legalBinary (hop : k.takes op = true) (htype : k.covers type = true)
    (hl : k.covers (s.typeOf l) = true) (hr : k.covers (s.typeOf r) = true)
    (hsign : k = .integer → op ∈ d.integerSigns)
    (hvalue : k = .text → OperandKind.text.allows (l.checkedValue d.spellings D leaf) = true) :
    s.typeOf (s.legalBinary d l op r type) = type ∧
      (s.legalBinary d l op r type).checkedValue d.spellings D leaf =
        op.checked D (l.checkedValue d.spellings D leaf) (r.checkedValue d.spellings D leaf) := by
  have hsigned {op' : BinaryOperator} (h : op' ∈ d.spellings.signs type) :
      (Scalar.binary l op' r type).checkedValue d.spellings D leaf =
        op'.checked D (l.checkedValue d.spellings D leaf) (r.checkedValue d.spellings D leaf) :=
    if_pos h
  have hsigns : d.spellings.signs type = if k = .text then d.textSigns else d.integerSigns := by
    change (if type.kind.isText = true then d.textSigns else d.integerSigns) = _
    simp only [OperandKind.isText_of_covers htype, decide_eq_true_eq]
  unfold legalBinary
  cases hfold : foldBinary? l op r type with
  | some folded => exact checkedValue_foldBinary htype hfold
  | none =>
    dsimp only
    refine ⟨rfl, ?_⟩
    rw [isConcatenation_typed hop htype hl hr]
    cases k with
    | integer => exact hsigned (hsigns ▸ hsign rfl)
    | text =>
      have hconcat : d.concatOperator ∈ d.spellings.signs type := by
        rw [hsigns]
        cases d <;> decide
      have hjoins : OperandKind.text.takes d.concatOperator = true := by cases d <;> rfl
      refine (hsigned hconcat).trans ?_
      rw [BinaryOperator.checked_texts hjoins (hvalue rfl),
        BinaryOperator.checked_texts hop (hvalue rfl)]

@[simp]
theorem BinaryOperator.checked_overflow (a : CheckedValue) :
    op.checked D a .overflow = .overflow := by cases a <;> rfl

@[simp]
theorem BinaryOperator.overflow_checked (b : CheckedValue) :
    op.checked D .overflow b = .overflow := by cases b <;> rfl

/-- An operator works on results that are not too large as on the integers they are. -/
theorem BinaryOperator.checked_bounded (m n : Int) :
    op.checked D (CheckedValue.integer m).bounded (CheckedValue.integer n).bounded =
        (op.onIntegers D m n).bounded ∨
      op.checked D (CheckedValue.integer m).bounded (CheckedValue.integer n).bounded =
        .overflow := by
  by_cases hm : fitsInt64 m
  · by_cases hn : fitsInt64 n
    · left
      simp only [CheckedValue.bounded, if_pos hm, if_pos hn]
      rfl
    · right
      simp only [CheckedValue.bounded, if_neg hn, checked_overflow]
  · right
    simp only [CheckedValue.bounded, if_neg hm, overflow_checked]

/-- What SQLite has for `^` yields the same, if no step of it is too large. -/
theorem checked_xorBySum (a b : CheckedValue) :
    let value := BinaryOperator.subtract.checked D (BinaryOperator.add.checked D a b)
      (BinaryOperator.multiply.checked D (BinaryOperator.bitAnd.checked D a b) (.integer 2))
    value = BinaryOperator.bitXor.checked D a b ∨ value = .overflow := by
  intro value
  cases a with
  | integer m =>
    cases b with
    | integer n =>
      have htwo : CheckedValue.integer 2 = (CheckedValue.integer 2).bounded := by decide
      have hdouble : BinaryOperator.multiply.checked D _ _ = _ ∨ _ :=
        BinaryOperator.checked_bounded (Int.land m n) 2
      rw [← htwo] at hdouble
      rcases hdouble with hdouble | hdouble
      · have hvalue : value = BinaryOperator.subtract.checked D
            (CheckedValue.integer (m + n)).bounded
            (CheckedValue.integer (Int.land m n * 2)).bounded :=
          congrArg (BinaryOperator.subtract.checked D _) hdouble
        have hxor : Int.xor m n = m + n - Int.land m n * 2 := by
          rw [Bits.add_eq_xor_add_land m n]
          omega
        have hmeant : BinaryOperator.bitXor.checked D (.integer m) (.integer n) =
            (CheckedValue.integer (m + n - Int.land m n * 2)).bounded := by
          rw [← hxor]
          rfl
        rw [hvalue, hmeant]
        exact BinaryOperator.checked_bounded _ _
      · exact .inr ((congrArg (BinaryOperator.subtract.checked D _) hdouble).trans
          (BinaryOperator.checked_overflow _))
    | overflow => exact .inr rfl
    | _ => exact .inl rfl
  | overflow => exact .inr (by simp [value])
  | _ => cases b <;> exact .inl rfl

/-- The signs of the operators that SQLite spells `^` by are those for integers. -/
theorem Store.checkedValue_legalXor (hop : k.takes .bitXor = true) (htype : k.covers type = true) :
    let legal := s.legalScalar .sqlite (.binary l .bitXor r type)
    s.typeOf legal = type ∧ legal.checkedValue Dialect.sqlite.spellings D leaf =
      BinaryOperator.subtract.checked D
        (BinaryOperator.add.checked D (l.checkedValue Dialect.sqlite.spellings D leaf)
          (r.checkedValue Dialect.sqlite.spellings D leaf))
        (BinaryOperator.multiply.checked D
          (BinaryOperator.bitAnd.checked D (l.checkedValue Dialect.sqlite.spellings D leaf)
            (r.checkedValue Dialect.sqlite.spellings D leaf)) (.integer 2)) := by
  intro legal
  have hplain : type.kind.isText = false := by
    rw [OperandKind.isText_of_covers htype]
    cases k <;> first | rfl | cases hop
  have hsigned {l r : Scalar} {op : BinaryOperator} (h : op ∈ Dialect.sqlite.integerSigns) :
      (Scalar.binary l op r type).checkedValue Dialect.sqlite.spellings D leaf =
        op.checked D (l.checkedValue Dialect.sqlite.spellings D leaf)
          (r.checkedValue Dialect.sqlite.spellings D leaf) := by
    refine if_pos ?_
    change op ∈ if type.kind.isText = true then _ else _
    rwa [hplain]
  have hlegal : legal = xorBySum l r type := rfl
  refine ⟨rfl, ?_⟩
  rw [hlegal, xorBySum, hsigned (by decide), hsigned (by decide), hsigned (by decide),
    hsigned (by decide)]
  rfl

/-- An operator whose operands are legal keeps its value, if no step of what SQLite has for it is too
large. -/
theorem Store.checkedValue_legalScalar (hop : k.takes op = true) (htype : k.covers type = true)
    (hl : k.covers (s.typeOf l) = true) (hr : k.covers (s.typeOf r) = true)
    (hvalue : k = .text → OperandKind.text.allows (l.checkedValue d.spellings D leaf) = true) :
    let legal := s.legalScalar d (.binary l op r type)
    let value :=
      op.checked D (l.checkedValue d.spellings D leaf) (r.checkedValue d.spellings D leaf)
    s.typeOf legal = type ∧ (legal.checkedValue d.spellings D leaf = value ∨
      d = .sqlite ∧ legal.checkedValue d.spellings D leaf = .overflow) := by
  intro legal value
  have hsigned (hlegal : legal = s.legalBinary d l op r type)
      (hsign : k = .integer → op ∈ d.integerSigns) :
      s.typeOf legal = type ∧ (legal.checkedValue d.spellings D leaf = value ∨
        d = .sqlite ∧ legal.checkedValue d.spellings D leaf = .overflow) := by
    obtain ⟨htyped, hkept⟩ :=
      checkedValue_legalBinary hop htype hl hr hsign hvalue
    rw [hlegal]
    exact ⟨htyped, .inl hkept⟩
  have hconcat : op = .concat → k ≠ .integer := by
    rintro rfl rfl
    cases hop
  cases d with
  | generic | sqlServer =>
    refine hsigned rfl fun hk => ?_
    cases op <;> first | decide | exact absurd hk (hconcat rfl)
  | postgreSql =>
    cases op with
    | bitXor => exact ⟨rfl, .inl rfl⟩
    | concat => exact hsigned rfl fun hk => absurd hk (hconcat rfl)
    | _ => exact hsigned rfl fun _ => by decide
  | sqlite =>
    cases op with
    | bitXor =>
      have hxor : s.typeOf legal = type ∧
          legal.checkedValue Dialect.sqlite.spellings D leaf = _ :=
        checkedValue_legalXor hop htype
      refine ⟨hxor.1, ?_⟩
      rw [hxor.2]
      exact (checked_xorBySum _ _).imp_right fun h => ⟨rfl, h⟩
    | concat => exact hsigned rfl fun hk => absurd hk (hconcat rfl)
    | _ => exact hsigned rfl fun _ => by decide
  | db2 =>
    cases op with
    | modulo | bitAnd | bitOr | bitXor => exact ⟨rfl, .inl rfl⟩
    | concat => exact hsigned rfl fun hk => absurd hk (hconcat rfl)
    | _ => exact hsigned rfl fun _ => by decide

end

/-! ## Values of legal trees -/

namespace Scalar

/-- Variables have their value, whatever operators are spelled by. -/
theorem checkedValue_variable {e : Scalar} (h : e.isVariable = true) (W : Spellings) (D : Divisions)
    (leaf : Scalar → CheckedValue) : e.checkedValue W D leaf = leaf e := by
  cases e <;> first | rfl | cases h

section

variable {s : Store} {p : Provider} {fuel : Nat} {k : OperandKind} {D : Divisions}
  {leaf : Scalar → CheckedValue} {e : Scalar}

/-- Every operator is meant to have its sign. -/
theorem checkedValue_meant (l r : Scalar) (op : BinaryOperator) (type : SqlType) :
    (Scalar.binary l op r type).checkedValue .meant D leaf =
      op.checked D (l.checkedValue .meant D leaf) (r.checkedValue .meant D leaf) :=
  if_pos (show op ∈ BinaryOperator.all by cases op <;> decide)

/-- Leaves are legal. -/
theorem legal_variable (h : e.isVariable = true) : (s.legalizerWithin p fuel).scalar e = e := by
  have hleaf : (s.legalizerWithin p fuel).scalar e = (s.legalizerWithin p fuel).onScalar e := by
    cases e <;> first | rfl | cases h
  rw [hleaf, Store.onScalar_eq]
  exact Store.legalScalar_eq_self (by cases e <;> first | rfl | cases h)

/-- A tree of operators over texts comes to no integer. -/
theorem IsTyped.allows_meant (he : e.IsTyped s .text)
    (hleaf : ∀ e : Scalar, e.isVariable = true → OperandKind.text.covers (s.typeOf e) = true →
      OperandKind.text.allows (leaf e) = true) :
    OperandKind.text.allows (e.checkedValue .meant D leaf) = true := by
  induction he with
  | value _ hvalue => exact hvalue
  | leaf hvariable htype =>
    rw [checkedValue_variable hvariable]
    exact hleaf _ hvariable htype
  | @binary l r op type hl hr hop htype ihl ihr =>
    rw [checkedValue_meant]
    exact OperandKind.allows_checked hop ihl

/-- A legal tree has a type of its kind, and its value, unless a step of what SQLite has for `^` is
too large. -/
theorem IsTyped.legal_cases (he : e.IsTyped s k)
    (hleaf : ∀ e : Scalar, e.isVariable = true → k.covers (s.typeOf e) = true →
      k.allows (leaf e) = true) :
    let legal := (s.legalizerWithin p fuel).scalar e
    k.covers (s.typeOf legal) = true ∧
      (legal.checkedValue p.dialect.spellings D leaf = e.checkedValue .meant D leaf ∨
        p.dialect = .sqlite ∧ legal.checkedValue p.dialect.spellings D leaf = .overflow) := by
  induction he with
  | @value v htype hvalue =>
    have hlegal : (s.legalizerWithin p fuel).scalar (.value v) = .value v :=
      (congrFun Store.onScalar_eq _).trans (Store.legalScalar_eq_self rfl)
    dsimp only
    rw [hlegal]
    exact ⟨htype, .inl rfl⟩
  | leaf hvariable htype =>
    dsimp only
    rw [legal_variable hvariable, checkedValue_variable hvariable, checkedValue_variable hvariable]
    exact ⟨htype, .inl rfl⟩
  | @binary l r op type hl hr hop htype ihl ihr =>
    obtain ⟨htypel, hvaluel⟩ := ihl
    obtain ⟨htyper, hvaluer⟩ := ihr
    have hlegal : (s.legalizerWithin p fuel).scalar (.binary l op r type) =
        s.legalScalar p.dialect (.binary ((s.legalizerWithin p fuel).scalar l) op
          ((s.legalizerWithin p fuel).scalar r) type) := congrFun Store.onScalar_eq _
    have hallowed : k = .text → OperandKind.text.allows
        (((s.legalizerWithin p fuel).scalar l).checkedValue p.dialect.spellings D leaf) =
          true := by
      rintro rfl
      rcases hvaluel with hkept | ⟨-, hlarge⟩
      · rw [hkept]
        exact hl.allows_meant hleaf
      · rw [hlarge]
        rfl
    obtain ⟨htyped, hnode⟩ :=
      Store.checkedValue_legalScalar (d := p.dialect) hop htype htypel htyper hallowed
    dsimp only
    rw [hlegal, checkedValue_meant, htyped]
    refine ⟨htype, ?_⟩
    rcases hnode with hnode | hnode
    · rw [hnode]
      rcases hvaluel with hkeptl | ⟨hsqlite, hlarge⟩
      · rcases hvaluer with hkeptr | ⟨hsqlite, hlarge⟩
        · rw [hkeptl, hkeptr]
          exact .inl rfl
        · rw [hlarge]
          exact .inr ⟨hsqlite, BinaryOperator.checked_overflow _⟩
      · rw [hlarge]
        exact .inr ⟨hsqlite, BinaryOperator.overflow_checked _⟩
    · exact .inr hnode

/-- A tree of operators over 64-bit integers, or over texts, keeps its value when it is made legal
for a dialect, for all values of its parameters, fields and columns: the one with the operators as
they are meant is the one with what the dialect has for them.  An intermediate result that is too
large counts as one value; only what SQLite has for `^` can come to it where the tree does not. -/
theorem IsTyped.value_legal (he : e.IsTyped s k)
    (hleaf : ∀ e : Scalar, e.isVariable = true → k.covers (s.typeOf e) = true →
      k.allows (leaf e) = true) :
    let value := e.checkedValue .meant D leaf
    let legalValue :=
      ((s.legalizerWithin p fuel).scalar e).checkedValue p.dialect.spellings D leaf
    (legalValue ≠ .overflow → legalValue = value) ∧
      (p.dialect ≠ .sqlite → legalValue = value) := by
  intro value legalValue
  have hcases : legalValue = value ∨ p.dialect = .sqlite ∧ legalValue = .overflow :=
    (he.legal_cases hleaf).2
  obtain hkept | ⟨hsqlite, hlarge⟩ := hcases
  · exact ⟨fun _ => hkept, fun _ => hkept⟩
  · exact ⟨fun h => absurd hlarge h, fun h => absurd hsqlite h⟩

end

/-- Divisions that drop what is left over, and refuse zero. -/
def truncating : Divisions where
  quotient a b := if b = 0 then .failure else .integer (a.tdiv b)
  remainder a b := if b = 0 then .failure else .integer (a.tmod b)

/-- An age with some bits flipped and a sum of constants: SQLite computes the same from the steps that
it has. -/
theorem IsTyped.value_legal_flippedAge :
    let number (n : Int) : Scalar := .value ⟨.int32, .integer n⟩
    let flipped : Scalar := .binary (.field ⟨0⟩) .bitXor (number 5) .int32
    let e : Scalar := .binary flipped .add (.binary (number 20) .add (number 5) .int32) .int32
    let s : Store := { fields := #[{ (default : Field) with type := .int32 }] }
    let legal := (s.legalizerWithin (.ofDialect .sqlite) 1).scalar e
    let leaf : Scalar → CheckedValue := fun _ => .integer 6
    e.IsTyped s .integer ∧
      legal = .binary (xorBySum (.field ⟨0⟩) (number 5) .int32) .add (number 25) .int32 ∧
        legal.checkedValue Dialect.sqlite.spellings truncating leaf = .integer 28 := by
  intro number flipped e s legal leaf
  have hnumber (n : Int) : (number n).IsTyped s .integer := .value rfl rfl
  have hfield : (Scalar.field ⟨0⟩).IsTyped s .integer := .leaf rfl rfl
  have he : e.IsTyped s .integer :=
    .binary (.binary hfield (hnumber 5) rfl rfl) (.binary (hnumber 20) (hnumber 5) rfl rfl) rfl rfl
  have hfits : legal.checkedValue Dialect.sqlite.spellings truncating leaf ≠ .overflow := by
    decide +kernel
  have hvalue := (@value_legal s (.ofDialect .sqlite) 1 .integer truncating leaf e he
    fun _ _ _ => rfl).1 hfits
  refine ⟨he, rfl, hvalue.trans ?_⟩
  decide +kernel

end Scalar

end SqlCompiler
