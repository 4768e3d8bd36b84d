import SqlCompiler.Proofs.Semantics.Comparisons
import SqlCompiler.Proofs.Semantics.LegalConditions

/-!
# Comparisons as a program means them

A comparison whose operands may be absent is spelled out with tests for absence, as far as the operands
may be absent at all, and the condition that it becomes is made legal another time, its operands
included.  Whatever way a comparison goes, it is true where the program says that it holds, of the
operands as they are in the end.

These are the operands that were compared, where nothing is spelled out and where they stay when they
are made legal again.  `NOT flag` does not, of an absent `flag` where the database has no truth values:
it becomes `NOT flag = TRUE`, which is unknown, and then the test whether `TRUE` is not absent.

A comparison inside of the condition may still become a test for absence, of an operand that is a
constant.  It is then true where the comparison itself is unknown, but not where the program says that
it does not hold, and this is all that the condition needs.

Main results:

- Theorem `spelledComparison_true_iff`: a comparison that is spelled out is true where it holds.
- Theorem `Store.legalComparison_true_iff`: a comparison is true where it holds of its operands, and
  one that is spelled out where it holds of what these become.
-/

namespace SqlCompiler

/-! ## Truth -/

section

variable {V : Type} {R : Valuation V} {P : Place V} {op : Comparison} {left right : Scalar}
  {leftNull rightNull : Bool}

/-- A comparison that takes absence for a value but need not be spelled out is true where it holds. -/
theorem plainComparison_true_iff (hop : op.isEquality = true)
    (hplain : nullAwareComparison left op right leftNull rightNull = .compare left op right none)
    (hleft : leftNull = false → R.isNull (left.valueIn R P) = false)
    (hright : rightNull = false → R.isNull (right.valueIn R P) = false) :
    (Predicate.comparison left op right).truthIn R P = some true ↔
      R.hostHolds op (left.valueIn R P) (right.valueIn R P) := by
  have htruth : (Predicate.comparison left op right).truthIn R P =
      R.compare op (left.valueIn R P) (right.valueIn R P) := rfl
  rw [htruth]
  cases op with
  | equal =>
    cases leftNull with
    | false => simp [Valuation.hostHolds, hleft rfl]
    | true =>
      cases rightNull with
      | false => simp [Valuation.hostHolds, hright rfl]
      | true => cases hplain
  | notEqual =>
    cases leftNull <;> cases rightNull <;> try cases hplain
    simp [Valuation.hostHolds, hleft rfl, hright rfl]
  | _ => cases hop

/-- A comparison that is spelled out is true where it holds of two values, if the tests in it are of
these, and what becomes of the comparison is true where that is true, and not true where it does not
hold. -/
theorem spelledComparison_true_iff {w : Transformer} {c : Condition} {v v' : V}
    (hop : op.isEquality = true)
    (hnested : nullAwareComparison left op right leftNull rightNull = .nested c)
    (hleft : leftNull = false → R.isNull v = false)
    (hright : rightNull = false → R.isNull v' = false)
    (hnull : ∀ negated, (w.predicate (.isNull left negated)).truthIn R P =
      Truth.signed negated (some (R.isNull v)))
    (hnull' : ∀ negated, (w.predicate (.isNull right negated)).truthIn R P =
      Truth.signed negated (some (R.isNull v')))
    (hcompare : R.compare op v v' = some true →
      (w.predicate (.comparison left op right)).truthIn R P = some true)
    (hholds : (w.predicate (.comparison left op right)).truthIn R P = some true →
      R.hostHolds op v v') :
    (Predicate.nested (w.condition c)).truthIn R P = some true ↔ R.hostHolds op v v' := by
  have hbranches (branches : List Branch) : (Predicate.nested ⟨branches⟩).truthIn R P =
      branchesTruthIn R P branches (some true) := rfl
  -- the tests say what the program says of absent values, and the comparison says the rest
  have hspelled {absent : Prop}
      (h : R.hostHolds op v v' ↔ absent ∨ R.compare op v v' = some true) :
      (w.predicate (.comparison left op right)).truthIn R P = some true ∨ absent ↔
        R.hostHolds op v v' := by
    constructor
    · rintro (hcmp | habsent)
      · exact hholds hcmp
      · exact h.mpr (.inl habsent)
    · intro hhost
      rcases h.mp hhost with habsent | hcmp
      · exact .inr habsent
      · exact .inl (hcompare hcmp)
  cases op with
  | equal =>
    rcases leftNull with _ | _ <;> rcases rightNull with _ | _ <;> cases hnested
    refine Iff.trans ?_ (hspelled Iff.rfl)
    change (Predicate.nested ⟨[⟨false, w.predicate (.comparison left .equal right), true⟩,
      ⟨false, w.predicate (.isNull left false), false⟩,
      ⟨false, w.predicate (.isNull right false), false⟩]⟩).truthIn R P = some true ↔ _
    simp [hbranches, branchesTruthIn, Branch.truthIn, hnull, hnull', Truth.or_eq_true_iff,
      Truth.and_eq_true_iff, Truth.signed]
  | notEqual =>
    rcases leftNull with _ | _ <;> rcases rightNull with _ | _ <;> cases hnested
    · refine Iff.trans ?_ (hspelled Iff.rfl)
      change (Predicate.nested ⟨[⟨false, w.predicate (.comparison left .notEqual right), true⟩,
        ⟨false, w.predicate (.isNull right false), false⟩]⟩).truthIn R P = some true ↔ _
      simp [hbranches, branchesTruthIn, Branch.truthIn, hnull', Truth.or_eq_true_iff, Truth.signed,
        hleft rfl]
    · refine Iff.trans ?_ (hspelled Iff.rfl)
      change (Predicate.nested ⟨[⟨false, w.predicate (.comparison left .notEqual right), true⟩,
        ⟨false, w.predicate (.isNull left false), false⟩]⟩).truthIn R P = some true ↔ _
      simp [hbranches, branchesTruthIn, Branch.truthIn, hnull, Truth.or_eq_true_iff, Truth.signed,
        hright rfl]
    · refine Iff.trans ?_ (hspelled Iff.rfl)
      change (Predicate.nested ⟨[⟨false, w.predicate (.comparison left .notEqual right), true⟩,
        ⟨false, w.predicate (.isNull left false), false⟩,
        ⟨false, w.predicate (.isNull right true), true⟩,
        ⟨false, w.predicate (.isNull left true), false⟩,
        ⟨false, w.predicate (.isNull right false), false⟩]⟩).truthIn R P = some true ↔ _
      cases hl : R.isNull v <;> cases hr : R.isNull v' <;>
        simp [hbranches, branchesTruthIn, Branch.truthIn, hnull, hnull', Truth.or_eq_true_iff,
          Truth.and_eq_true_iff, Truth.signed, Truth.not, hl, hr]
  | _ => cases hop

namespace Store

variable (s : Store) (C : R.ComparesLiterals)
include C

/-- What becomes of a comparison is true where it is true in the database, and not true where it does
not hold. -/
theorem legalComparison_between :
    (R.compare op (left.valueIn R P) (right.valueIn R P) = some true →
      (s.legalComparison left op right none).truthIn R P = some true) ∧
    ((s.legalComparison left op right none).truthIn R P = some true →
      R.hostHolds op (left.valueIn R P) (right.valueIn R P)) := by
  have hunknown (h : R.isNull (left.valueIn R P) = true ∨ R.isNull (right.valueIn R P) = true)
      {t : Truth} (hcmp : R.compare op (left.valueIn R P) (right.valueIn R P) = some true) :
      t = some true := by
    rw [C.compare_null op _ _ h] at hcmp
    cases hcmp
  rcases s.legalComparison_cases left right op none with
    ⟨outcome, hfold, h⟩ | ⟨hop, hright, h⟩ | ⟨hop, hleft, h⟩ | ⟨h, -⟩
  · rw [h, C.truthIn_of_fold hfold]
    exact ⟨id, Valuation.hostHolds_of_compare⟩
  · rw [h]
    exact ⟨hunknown (.inr (C.isNull_of_isNullConstant hright)),
      (C.isNull_left_true_iff hop hright).mp⟩
  · rw [h]
    exact ⟨hunknown (.inl (C.isNull_of_isNullConstant hleft)),
      (C.isNull_right_true_iff hop hleft).mp⟩
  · rw [h]
    exact ⟨id, Valuation.hostHolds_of_compare⟩

end Store

/-- Whether a comparison that takes absence for a value becomes a condition. -/
def Store.isSpelledOut (s : Store) (left : Scalar) (op : Comparison) (right : Scalar) : Bool :=
  match s.legalComparison left op right (some true) with
  | .nested _ => true
  | _ => false

namespace Store

variable {s : Store} {p : Provider} {fuel : Nat} {l r : Scalar}

/-- A comparison that takes absence for a value and is not spelled out is true where it holds. -/
theorem legalComparison_true_iff_of_plain (C : R.ComparesLiterals)
    (hplain : s.isSpelledOut l op r = false)
    (hleft : s.canBeNull l = false → R.isNull (l.valueIn R P) = false)
    (hright : s.canBeNull r = false → R.isNull (r.valueIn R P) = false) :
    ((s.legalComparison l op r (some true)).again (s.legalizerWithin p fuel)).truthIn R P =
        some true ↔ R.hostHolds op (l.valueIn R P) (r.valueIn R P) := by
  rcases s.legalComparison_cases l r op (some true) with
    ⟨outcome, hfold, h⟩ | ⟨hop, habsent, h⟩ | ⟨hop, habsent, h⟩ | ⟨-, ⟨hother, h⟩ | ⟨-, hop, h⟩⟩
  · have hcmp := C.compare_of_fold (P := P) hfold
    rw [h, C.hostHolds_iff_of_compare hcmp]
    change (Predicate.constant outcome).truthIn R P = some true ↔ _
    rw [C.truthIn_of_fold hfold, hcmp, Option.some.injEq]
  · rw [h]
    exact C.isNull_left_true_iff hop habsent
  · rw [h]
    exact C.isNull_right_true_iff hop habsent
  · have hop : op.isEquality = false := by simpa using hother
    rw [h, Valuation.hostHolds_iff_of_not_equality hop]
    rfl
  · rcases nullAwareComparison_cases l op r (s.canBeNull l) (s.canBeNull r) with heq | ⟨c, heq, -⟩
    · rw [h, heq]
      exact plainComparison_true_iff hop heq hleft hright
    · rw [isSpelledOut, h, heq] at hplain
      cases hplain

/-- One that is spelled out is true where it holds of what its operands become when they are made legal
again, if no date is seen in them only then. -/
theorem legalComparison_true_iff_of_spelled (C : R.ComparesLiterals) {l' r' : Scalar}
    (hspelled : s.isSpelledOut l op r = true)
    (hl : (s.legalizerWithin p fuel).scalar l = l') (hr : (s.legalizerWithin p fuel).scalar r = r')
    (hdates : s.comparedOperands p l' r' = (l', r'))
    (hleft : s.canBeNull l = false → R.isNull (l'.valueIn R P) = false)
    (hright : s.canBeNull r = false → R.isNull (r'.valueIn R P) = false) :
    ((s.legalComparison l op r (some true)).again (s.legalizerWithin p fuel)).truthIn R P =
        some true ↔ R.hostHolds op (l'.valueIn R P) (r'.valueIn R P) := by
  rcases s.legalComparison_cases l r op (some true) with
    ⟨_, -, h⟩ | ⟨-, -, h⟩ | ⟨-, -, h⟩ | ⟨-, ⟨-, h⟩ | ⟨-, hop, h⟩⟩
  case inr.inr.inr.inr =>
    rcases nullAwareComparison_cases l op r (s.canBeNull l) (s.canBeNull r) with
      heq | ⟨c, hnested, -⟩
    · rw [isSpelledOut, h, heq] at hspelled
      cases hspelled
    · have hisNull {e e' : Scalar} (he : (s.legalizerWithin p fuel).scalar e = e')
          (negated : Bool) : ((s.legalizerWithin p fuel).predicate (.isNull e negated)).truthIn R P =
            Truth.signed negated (some (R.isNull (e'.valueIn R P))) := by
        rw [Transformer.predicate, onPredicate_isNull, Predicate.truthIn, he]
      have hcompare : (s.legalizerWithin p fuel).predicate (.comparison l op r) =
          s.legalComparison l' op r' none := by
        rw [Predicate.comparison, Transformer.predicate, onPredicate_compare_none, hl, hr, hdates]
      have hbetween : (R.compare op (l'.valueIn R P) (r'.valueIn R P) = some true → _) ∧
          ((s.legalComparison l' op r' none).truthIn R P = some true → _) :=
        legalComparison_between s C
      rw [← hcompare] at hbetween
      rw [h, hnested]
      exact spelledComparison_true_iff hop hnested hleft hright (hisNull hl) (hisNull hr)
        hbetween.1 hbetween.2
  all_goals
    rw [isSpelledOut, h] at hspelled
    cases hspelled

/-- A comparison that takes absence for a value is true where it holds as the program means it, given
that operands that cannot be absent are not, if it is not spelled out, and else if its operands stay
when they are made legal again.  Whatever its operands are, one that is spelled out is true where it
holds of what they become then, given the same of these.  A comparison that does not take absence for a
value, of two literals, is as true as it is when it is evaluated, unless it is an equality with an absent
one. -/
theorem legalComparison_true_iff (C : R.ComparesLiterals) (op : Comparison)
    (hoperands : s.comparedOperands p ((s.legalizerWithin p (fuel + 1)).scalar left)
      ((s.legalizerWithin p (fuel + 1)).scalar right) = (l, r))
    (hleft : s.canBeNull l = false → R.isNull (l.valueIn R P) = false)
    (hright : s.canBeNull r = false → R.isNull (r.valueIn R P) = false) :
    (s.isSpelledOut l op r = false ∨ left.isDirect p = true ∧ right.isDirect p = true →
      (((s.legalizerWithin p (fuel + 1)).predicate
          (.compare left op right (some true))).truthIn R P = some true ↔
        R.hostHolds op (l.valueIn R P) (r.valueIn R P))) ∧
    (∀ l' r', (s.legalizerWithin p fuel).scalar l = l' → (s.legalizerWithin p fuel).scalar r = r' →
      s.isSpelledOut l op r = true → s.comparedOperands p l' r' = (l', r') →
      (s.canBeNull l = false → R.isNull (l'.valueIn R P) = false) →
      (s.canBeNull r = false → R.isNull (r'.valueIn R P) = false) →
      (((s.legalizerWithin p (fuel + 1)).predicate
          (.compare left op right (some true))).truthIn R P = some true ↔
        R.hostHolds op (l'.valueIn R P) (r'.valueIn R P))) ∧
    ∀ a b : TypedValue, (op.isEquality = true → a.value ≠ .null ∧ b.value ≠ .null) →
      (s.legalComparison (.value a) op (.value b) none).truthIn R P =
        R.compare op (R.constant a) (R.constant b) := by
  have hlegal : (s.legalizerWithin p (fuel + 1)).predicate (.compare left op right (some true)) =
      (s.legalComparison l op r (some true)).again (s.legalizerWithin p fuel) := by
    rw [Transformer.predicate, onPredicate_succ, legalPredicate_compare, hoperands]
  rw [hlegal]
  refine ⟨fun hsettled => ?_, ?_, ?_⟩
  · cases hspelled : s.isSpelledOut l op r with
    | false => exact legalComparison_true_iff_of_plain C hspelled hleft hright
    | true =>
      obtain ⟨hdirect, hdirect'⟩ := hsettled.resolve_left (by simp [hspelled])
      obtain ⟨hl, hr, hsame⟩ := comparedOperands_legal (left.isLegal_of_isDirect hdirect)
        (right.isLegal_of_isDirect hdirect') hoperands
      exact legalComparison_true_iff_of_spelled C hspelled (hl fuel) (hr fuel) hsame hleft hright
  · exact fun l' r' hl hr hspelled hdates =>
      legalComparison_true_iff_of_spelled C hspelled hl hr hdates
  · intro a b habsent
    have hnull {v : TypedValue} (h : (Scalar.value v).isNullConstant = true) : v.value = .null := by
      obtain ⟨type, value⟩ := v
      cases value with
      | null => rfl
      | _ => cases h
    rcases s.legalComparison_cases (.value a) (.value b) op none with
      ⟨outcome, hfold, h⟩ | ⟨hop, hnullR, h⟩ | ⟨hop, hnullL, h⟩ | ⟨h, -⟩
    · rw [h]
      exact C.truthIn_of_fold hfold
    · exact absurd (hnull hnullR) (habsent hop).2
    · exact absurd (hnull hnullL) (habsent hop).1
    · rw [h]
      rfl

end Store

end

/-- A number that is absent differs from five when one is added to it, and `a` comes before `b`.  An
absent flag is taken for false where zero is compared with it by `=`, and for true where it is by `<>`,
so that zero is equal to the number for it and differs from it too. -/
theorem Store.legalComparison_true_iff_absentFlag :
    let R := Valuation.exact (fun _ args => if args.head? == some (.truth (some true))
      then args.getD 1 .nothing else args.getD 2 .nothing) ExactValue.binary fun _ _ _ => none
    let number : Parameter := { name := "n", type := .int32, value := .null, isQuery := true }
    let sum : Scalar := .binary (.parameter number) .add (.int 1) .int32
    let flag : Parameter := { name := "f", type := .boolean, value := .null, isQuery := false }
    let chosen : Scalar := .call "CASE"
      [.condition ⟨[⟨true, .scalar (.parameter flag) .primary, false⟩]⟩, .int 1, .int 0] .int32
    let zero : Scalar := .parameter
      { name := "z", type := .int32, value := .integer 0, isQuery := true }
    let legal := ({} : Store).legalizerWithin (.ofDialect .sqlServer) 1
    ∀ P : Place ExactValue,
      (legal.predicate (.compare sum .notEqual (.int 5) (some true))).truthIn R P = some true ∧
        (legal.predicate (.compare chosen .equal zero (some true))).truthIn R P = some true ∧
        (legal.predicate (.compare chosen .notEqual zero (some true))).truthIn R P = some true ∧
        (({} : Store).legalComparison (.text "a") .less (.text "b") none).truthIn R P =
          some true := by
  intro R number sum flag chosen zero legal P
  have hliterals : R.ComparesLiterals := Valuation.exact_comparesLiterals _ _ _
  have hoperands : ({} : Store).comparedOperands (.ofDialect .sqlServer) (legal.scalar sum)
      (legal.scalar (.int 5)) = (sum, .int 5) := rfl
  have hchosen : ({} : Store).comparedOperands (.ofDialect .sqlServer) (legal.scalar chosen)
      (legal.scalar zero) = (legal.scalar chosen, zero) := rfl
  have hsum (op : Comparison) := legalComparison_true_iff (P := P) hliterals op hoperands
    (fun h => nomatch h) (fun _ => rfl)
  have hflag (op : Comparison) := legalComparison_true_iff (P := P) hliterals op hchosen
    (fun _ => rfl) (fun h => nomatch h)
  refine ⟨((hsum .notEqual).1 (.inr ⟨rfl, rfl⟩)).mpr (.inl ?_),
    ((hflag .equal).1 (.inl rfl)).mpr (.inr rfl),
    ((hflag .notEqual).2.1 _ _ rfl rfl rfl rfl (fun _ => rfl) (fun h => nomatch h)).mpr (.inr rfl),
    ((hsum .less).2.2 (.natural (.text "a")) (.natural (.text "b")) (fun h => nomatch h)).trans ?_⟩
  · change true ≠ false
    decide
  · decide

end SqlCompiler
