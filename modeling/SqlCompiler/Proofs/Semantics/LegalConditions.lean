import SqlCompiler.Proofs.Queries.Parts
import SqlCompiler.Proofs.Searches.Patterns
import SqlCompiler.Proofs.Semantics.LegalScalars

/-!
# Legal conditions

What predicates become when they are made legal: a comparison its outcome, a test for absence, itself
or a condition; a search `LIKE`, perhaps with a comparison of the part that should match; and a truth
value a comparison with a constant.  The conditions among these are made legal another time.

What an expression becomes is legal, so that it may stand in such a condition.  Left out are operators
that do not become legal ones, `IS DISTINCT FROM` where `CASE` stands for it with a comparison that may be
decided, and an absent parameter as a condition where it has to be compared: `flag = TRUE` becomes a test
whether `TRUE` is absent when it is made legal again.

Main results:

- Definition `Store.comparedOperands`: the operands that are compared.
- Theorem `Store.legalComparison_cases`: what a comparison becomes.
- Definition `Scalar.isDirect`, `Condition.isDirect`: expressions without what is left out.
- Theorem `Scalar.isLegal_of_isDirect`, `Condition.isLegal_of_isDirect`: what these become is legal.
-/

namespace SqlCompiler

/-! ## What predicates become -/

/-- A predicate whose branches are transformed if it is a condition. -/
def Predicate.again (w : Transformer) : Predicate → Predicate
  | .nested c => .nested (w.condition c)
  | q => q

theorem Predicate.again_of_ne_nested {w : Transformer} {q : Predicate} (h : ∀ c, q ≠ .nested c) :
    q.again w = q := by
  cases q with
  | nested c => exact absurd rfl (h c)
  | _ => rfl

/-- Whether a predicate may become another one. -/
def Predicate.isRewritten : Predicate → Bool
  | .compare .. | .search .. | .isDistinct .. | .scalar .. | .notScalar .. => true
  | _ => false

namespace Store

/-- An operand that is compared as a date or a time. -/
def dateOperand (s : Store) (p : Provider) (e : Scalar) : Scalar :=
  if e.isConversion then e else s.legalScalar p.dialect (.convert (s.typeOf e) (s.typeOf e) e true)

/-- The operands that are compared: in SQLite, dates and times are converted to their own types. -/
def comparedOperands (s : Store) (p : Provider) (left right : Scalar) : Scalar × Scalar :=
  if p.dialect == .sqlite &&
      ((s.typeOf left).kind.isDateTime || (s.typeOf right).kind.isDateTime) &&
      !left.isNullConstant && !right.isNullConstant then
    (s.dateOperand p left, s.dateOperand p right)
  else (left, right)

section

variable (s : Store) (p : Provider) (left right : Scalar) (op : Comparison)

theorem onPredicate_succ (fuel : Nat) (q : Predicate) :
    (s.legalizerWithin p (fuel + 1)).onPredicate q =
      (s.legalPredicate p q).again (s.legalizerWithin p fuel) := by
  change (match s.legalPredicate p q with
    | .nested c => Predicate.nested _
    | other => other) = _
  cases s.legalPredicate p q <;> rfl

/-- A predicate that does not become a condition is made legal once. -/
theorem onPredicate_of_ne_nested {q : Predicate} (h : ∀ c, s.legalPredicate p q ≠ .nested c)
    (fuel : Nat) : (s.legalizerWithin p fuel).onPredicate q = s.legalPredicate p q := by
  cases fuel with
  | zero => rfl
  | succ fuel => rw [onPredicate_succ, Predicate.again_of_ne_nested h]

/-- Dates and times make a difference to comparisons only. -/
theorem legalPredicate_eq_plain {q : Predicate} (h : ∀ l op r withNull, q ≠ .compare l op r withNull) :
    s.legalPredicate p q = s.plainLegalPredicate p q := by
  unfold legalPredicate
  cases q with
  | compare l op r withNull => exact absurd rfl (h l op r withNull)
  | _ => exact ite_self _

/-- Other predicates stay. -/
theorem legalPredicate_eq_self {q : Predicate} (h : q.isRewritten = false) :
    s.legalPredicate p q = q := by
  cases q with
  | compare | search | isDistinct | scalar | notScalar => cases h
  | _ => exact s.legalPredicate_eq_plain p (by rintro _ _ _ _ ⟨⟩)

theorem onPredicate_isNull (fuel : Nat) (e : Scalar) (negated : Bool) :
    (s.legalizerWithin p fuel).onPredicate (.isNull e negated) = .isNull e negated := by
  have hlegal : s.legalPredicate p (.isNull e negated) = .isNull e negated :=
    s.legalPredicate_eq_self p rfl
  rw [onPredicate_of_ne_nested s p (by rw [hlegal]; rintro _ ⟨⟩), hlegal]

theorem legalPredicate_isDistinct (h : p.rules.distinctFrom = true) (negated : Bool) :
    s.legalPredicate p (.isDistinct left right negated) = .isDistinct left right negated :=
  (s.legalPredicate_eq_plain p (by rintro _ _ _ _ ⟨⟩)).trans (if_pos h)

theorem legalPredicate_compare (withNull : Option Bool) :
    s.legalPredicate p (.compare left op right withNull) =
      s.legalComparison (s.comparedOperands p left right).1 op (s.comparedOperands p left right).2
        withNull := by
  unfold legalPredicate comparedOperands
  cases hsqlite : p.dialect == .sqlite with
  | false => rfl
  | true =>
    simp only [legalDateComparison, Bool.true_and, if_true]
    cases (s.typeOf left).kind.isDateTime || (s.typeOf right).kind.isDateTime <;>
      cases left.isNullConstant <;> cases right.isNullConstant <;> rfl

/-- What a comparison becomes: its outcome, a test for absence, itself or a condition. -/
theorem legalComparison_cases (withNull : Option Bool) :
    (∃ outcome, foldComparison? left op right = some outcome ∧
      s.legalComparison left op right withNull = .constant outcome) ∨
    (op.isEquality = true ∧ right.isNullConstant = true ∧
      s.legalComparison left op right withNull = .isNull left (op == .notEqual)) ∨
    (op.isEquality = true ∧ left.isNullConstant = true ∧
      s.legalComparison left op right withNull = .isNull right (op == .notEqual)) ∨
    s.legalComparison left op right none = .compare left op right none ∧
      ((withNull ≠ some true ∨ op.isEquality = false) ∧
          s.legalComparison left op right withNull = .compare left op right none ∨
        withNull = some true ∧ op.isEquality = true ∧
          s.legalComparison left op right withNull =
            nullAwareComparison left op right (s.canBeNull left) (s.canBeNull right)) := by
  unfold legalComparison
  cases foldComparison? left op right with
  | some outcome => exact .inl ⟨outcome, rfl, rfl⟩
  | none =>
    dsimp only
    split
    · next h => exact .inr (.inl ⟨by simp_all, by simp_all, rfl⟩)
    split
    · next h => exact .inr (.inr (.inl ⟨by simp_all, by simp_all, rfl⟩))
    refine .inr (.inr (.inr ⟨rfl, ?_⟩))
    split
    · next h => exact .inl ⟨by simpa using h, rfl⟩
    · next h => exact .inr ⟨by simp_all, by simp_all, rfl⟩

/-- A comparison that does not take absence for a value becomes no condition. -/
theorem legalComparison_ne_nested (c : Condition) :
    s.legalComparison left op right none ≠ .nested c := by
  intro hnested
  rcases s.legalComparison_cases left right op none with
    ⟨_, -, h⟩ | ⟨-, -, h⟩ | ⟨-, -, h⟩ | ⟨h, -⟩
  all_goals cases h.symm.trans hnested

theorem onPredicate_compare_none (fuel : Nat) :
    (s.legalizerWithin p fuel).onPredicate (.compare left op right none) =
      s.legalComparison (s.comparedOperands p left right).1 op (s.comparedOperands p left right).2
        none := by
  rw [← legalPredicate_compare]
  refine onPredicate_of_ne_nested s p (fun c hnested => ?_) fuel
  rw [legalPredicate_compare] at hnested
  exact s.legalComparison_ne_nested _ _ op c hnested

end

end Store

/-- A comparison that is spelled out is the comparison itself or a condition of it and of tests for
absence. -/
theorem nullAwareComparison_cases (left : Scalar) (op : Comparison) (right : Scalar)
    (leftNull rightNull : Bool) :
    nullAwareComparison left op right leftNull rightNull = .compare left op right none ∨
      ∃ c, nullAwareComparison left op right leftNull rightNull = .nested c ∧
        ∀ q ∈ c.branches.map (·.predicate), q = .compare left op right none ∨
          ∃ e ∈ [left, right], ∃ negated, q = .isNull e negated := by
  unfold nullAwareComparison
  dsimp only
  split
  case h_5 => exact .inl rfl
  all_goals
    refine .inr ⟨_, rfl, ?_⟩
    simp [Condition.ofPredicate, Condition.conjoin, Condition.disjoin, Condition.branch,
      Condition.joinLast, Predicate.comparison]

/-! ## Predicates that are legal -/

section

variable {s : Store} {p : Provider} {fuel : Nat} {e l r : Scalar} {q : Predicate} {c : Condition}

/-- The predicates of a transformed condition are the transformed ones. -/
theorem Transformer.predicates_condition (w : Transformer) (c : Condition) :
    (w.condition c).branches.map (·.predicate) =
      (c.branches.map (·.predicate)).map w.predicate := by
  obtain ⟨branches⟩ := c
  rw [Transformer.condition]
  dsimp only
  induction branches with
  | nil => rfl
  | cons b rest ih =>
    obtain ⟨negated, predicate, joinsOr⟩ := b
    rw [Transformer.branches, Transformer.branch, List.map_cons, ih]
    rfl

/-- A condition of legal predicates. -/
theorem Condition.IsLegal.of_predicates
    (h : ∀ q ∈ c.branches.map (·.predicate), q.IsLegal s p) : c.IsLegal s p := by
  obtain ⟨branches⟩ := c
  intro fuel
  rw [Transformer.condition]
  congr 1
  dsimp only at h
  induction branches with
  | nil => rfl
  | cons b rest ih =>
    obtain ⟨negated, predicate, joinsOr⟩ := b
    obtain ⟨hb, hrest⟩ := List.forall_mem_cons.mp h
    rw [Transformer.branches, Transformer.branch, hb fuel, ih hrest]

/-- A predicate whose parts are legal: it is made legal as a whole. -/
def Predicate.HasLegalParts (s : Store) (p : Provider) (q : Predicate) : Prop :=
  ∀ fuel, (s.legalizerWithin p fuel).predicate q = (s.legalizerWithin p fuel).onPredicate q

namespace Predicate

namespace HasLegalParts

theorem compare {op : Comparison} {withNull : Option Bool} (hl : l.IsLegal s p)
    (hr : r.IsLegal s p) : (Predicate.compare l op r withNull).HasLegalParts s p := by
  intro fuel
  change (s.legalizerWithin p fuel).onPredicate (.compare _ op _ withNull) = _
  rw [hl fuel, hr fuel]

theorem like {escape : Option Scalar} {negated : Bool} (hl : l.IsLegal s p) (hr : r.IsLegal s p)
    (hescape : ∀ e ∈ escape, e.IsLegal s p) :
    (Predicate.like l r escape negated).HasLegalParts s p := by
  intro fuel
  cases escape with
  | none =>
    change (s.legalizerWithin p fuel).onPredicate (.like _ _ none negated) = _
    rw [hl fuel, hr fuel]
  | some e =>
    change (s.legalizerWithin p fuel).onPredicate (.like _ _ (some _) negated) = _
    rw [hl fuel, hr fuel, hescape e rfl fuel]

theorem between {high : Scalar} {negated : Bool} (he : e.IsLegal s p) (hl : l.IsLegal s p)
    (hhigh : high.IsLegal s p) : (Predicate.between e l high negated).HasLegalParts s p := by
  intro fuel
  change (s.legalizerWithin p fuel).onPredicate (.between _ _ _ negated) = _
  rw [he fuel, hl fuel, hhigh fuel]

theorem isNull {negated : Bool} (he : e.IsLegal s p) :
    (Predicate.isNull e negated).HasLegalParts s p := by
  intro fuel
  change (s.legalizerWithin p fuel).onPredicate (.isNull _ negated) = _
  rw [he fuel]

theorem isDistinct {negated : Bool} (hl : l.IsLegal s p) (hr : r.IsLegal s p) :
    (Predicate.isDistinct l r negated).HasLegalParts s p := by
  intro fuel
  change (s.legalizerWithin p fuel).onPredicate (.isDistinct _ _ negated) = _
  rw [hl fuel, hr fuel]

theorem inQuery {query : QueryRef} {negated : Bool} (he : e.IsLegal s p) :
    (Predicate.inQuery e query negated).HasLegalParts s p := by
  intro fuel
  change (s.legalizerWithin p fuel).onPredicate (.inQuery _ query negated) = _
  rw [he fuel]

theorem inList {items : List Scalar} {negated : Bool} {withNull : Option Bool}
    (he : e.IsLegal s p) (hitems : ∀ e ∈ items, e.IsLegal s p) :
    (Predicate.inList e items negated withNull).HasLegalParts s p := by
  intro fuel
  change (s.legalizerWithin p fuel).onPredicate (.inList _ _ negated withNull) = _
  rw [he fuel, Store.scalars_of_legal hitems]

theorem functionLike {call : Call} (h : ∀ e ∈ call.args, e.IsLegal s p) :
    (Predicate.functionLike call).HasLegalParts s p := by
  obtain ⟨name, args, type, isAggregate, keep⟩ := call
  intro fuel
  change (s.legalizerWithin p fuel).onPredicate
    (.functionLike ⟨name, _, type, isAggregate, keep⟩) = _
  rw [Store.scalars_of_legal h]

theorem scalar {precedence : Precedence} (he : e.IsLegal s p) :
    (Predicate.scalar e precedence).HasLegalParts s p := by
  intro fuel
  change (s.legalizerWithin p fuel).onPredicate (.scalar _ precedence) = _
  rw [he fuel]

theorem notScalar {negated : Bool} {precedence : Precedence} (he : e.IsLegal s p) :
    (Predicate.notScalar e negated precedence).HasLegalParts s p := by
  intro fuel
  change (s.legalizerWithin p fuel).onPredicate (.notScalar _ negated precedence) = _
  rw [he fuel]

theorem nested (hc : c.IsLegal s p) : (Predicate.nested c).HasLegalParts s p := by
  intro fuel
  change (s.legalizerWithin p fuel).onPredicate (.nested _) = _
  rw [hc fuel]

end HasLegalParts

/-- A predicate that stays as a whole. -/
theorem IsLegal.of_parts (hparts : q.HasLegalParts s p) (h : s.legalPredicate p q = q)
    (hnested : ∀ c, q = .nested c → c.IsLegal s p) : q.IsLegal s p := by
  have hagain (fuel : Nat) : q.again (s.legalizerWithin p fuel) = q := by
    cases q with
    | nested c => exact congrArg nested (hnested c rfl fuel)
    | _ => rfl
  intro fuel
  rw [hparts fuel]
  cases fuel with
  | zero => exact h
  | succ fuel => rw [Store.onPredicate_succ, h, hagain]

theorem IsLegal.isNull (he : e.IsLegal s p) (negated : Bool) :
    (Predicate.isNull e negated).IsLegal s p :=
  .of_parts (.isNull he) (s.legalPredicate_eq_self p rfl) (by rintro _ ⟨⟩)

theorem IsLegal.nested (hc : c.IsLegal s p) : (Predicate.nested c).IsLegal s p := by
  refine .of_parts (.nested hc) (s.legalPredicate_eq_self p rfl) fun c' heq => ?_
  cases heq
  exact hc

/-- A condition is legal once its predicates have been made legal. -/
theorem IsLegal.again
    (h : ∀ q ∈ c.branches.map (·.predicate), ((s.legalizerWithin p fuel).predicate q).IsLegal s p) :
    ((Predicate.nested c).again (s.legalizerWithin p fuel)).IsLegal s p := by
  refine .nested (.of_predicates ?_)
  rw [Transformer.predicates_condition, List.forall_mem_map]
  exact h

end Predicate

/-! ## Comparisons -/

/-- What is compared as a date or a time is a conversion. -/
theorem Store.isConversion_dateOperand (s : Store) (p : Provider) (e : Scalar) :
    (s.dateOperand p e).isConversion = true := by
  unfold dateOperand
  cases hconversion : e.isConversion with
  | true => exact hconversion
  | false =>
    rw [if_neg Bool.false_ne_true, legalScalar]
    rcases spelled_convert_cases p.dialect (s.typeOf e) (s.typeOf e) e with
      hspelled | ⟨name, hname, hspelled⟩
    · rw [hspelled]
      rfl
    · rw [hspelled]
      rcases hname with rfl | rfl <;>
        simp [Scalar.isConversion, Scalar.call, Call.plain, Text.equalAscii]

/-- Legal operands are compared as legal ones, and the same ones when it is done another time. -/
theorem Store.comparedOperands_legal {l' r' : Scalar} (hl : l.IsLegal s p) (hr : r.IsLegal s p)
    (hoperands : s.comparedOperands p l r = (l', r')) :
    l'.IsLegal s p ∧ r'.IsLegal s p ∧ s.comparedOperands p l' r' = (l', r') := by
  have hdate {e : Scalar} (he : e.IsLegal s p) : (s.dateOperand p e).IsLegal s p := by
    unfold dateOperand
    split
    · exact he
    · exact .ofConvert _ _ _ he
  have hsame := hoperands
  unfold comparedOperands at hoperands
  split at hoperands
  · cases hoperands
    refine ⟨hdate hl, hdate hr, ?_⟩
    have hagain (e : Scalar) : s.dateOperand p (s.dateOperand p e) = s.dateOperand p e :=
      if_pos (s.isConversion_dateOperand p e)
    rw [comparedOperands, hagain, hagain, ite_self]
  · cases hoperands
    exact ⟨hl, hr, hsame⟩

namespace Predicate

theorem IsLegal.constant (outcome : Bool) : (Predicate.constant outcome).IsLegal s p := by
  have hvalue : (Scalar.constant (.boolean outcome)).IsLegal s p := .leaf (fun _ => rfl) rfl
  have hoperand : (!p.rules.booleanType && s.isBooleanOperand (.constant (.boolean outcome))) = false :=
    Bool.and_false _
  refine .of_parts (.scalar hvalue) ?_ (by rintro _ ⟨⟩)
  rw [s.legalPredicate_eq_plain p (by rintro _ _ _ _ ⟨⟩)]
  exact if_neg (Bool.eq_false_iff.mp hoperand)

variable {op : Comparison}

theorem IsLegal.compare (hl : l.IsLegal s p) (hr : r.IsLegal s p)
    (hsame : s.comparedOperands p l r = (l, r))
    (h : s.legalComparison l op r none = .compare l op r none) :
    (Predicate.compare l op r none).IsLegal s p := by
  refine .of_parts (.compare hl hr) ?_ (by rintro _ ⟨⟩)
  rw [Store.legalPredicate_compare, hsame]
  exact h

/-- A comparison that is neither decided nor a test for absence. -/
theorem IsLegal.undecided (hl : l.IsLegal s p) (hr : r.IsLegal s p)
    (hsame : s.comparedOperands p l r = (l, r)) (hvalue : l.asValue? = none ∨ r.asValue? = none)
    (hnulll : l.isNullConstant = false) (hnullr : r.isNullConstant = false) :
    (Predicate.comparison l op r).IsLegal s p := by
  have hfold : foldComparison? l op r = none := by
    rcases hvalue with h | h <;> simp [foldComparison?, h]
  exact .compare hl hr hsame (by simp [Store.legalComparison, hfold, hnulll, hnullr])

/-- What a comparison of operands that are compared as they are becomes is legal. -/
theorem IsLegal.ofCompared (hl : l.IsLegal s p) (hr : r.IsLegal s p)
    (hsame : s.comparedOperands p l r = (l, r)) (withNull : Option Bool) (fuel : Nat) :
    ((s.legalComparison l op r withNull).again (s.legalizerWithin p fuel)).IsLegal s p := by
  rcases s.legalComparison_cases l r op withNull with
    ⟨outcome, -, h⟩ | ⟨-, -, h⟩ | ⟨-, -, h⟩ | ⟨hplain, ⟨-, h⟩ | ⟨-, -, h⟩⟩
  · rw [h]
    exact .constant outcome
  · rw [h]
    exact .isNull hl _
  · rw [h]
    exact .isNull hr _
  · rw [h]
    exact .compare hl hr hsame hplain
  · rw [h]
    rcases nullAwareComparison_cases l op r (s.canBeNull l) (s.canBeNull r) with
      heq | ⟨c, heq, hparts⟩
    · rw [heq]
      exact .compare hl hr hsame hplain
    · rw [heq]
      refine .again fun q hq => ?_
      have hlegal : q.IsLegal s p := by
        rcases hparts q hq with rfl | ⟨e, he, negated, rfl⟩
        · exact .compare hl hr hsame hplain
        · rcases List.mem_pair.mp he with rfl | rfl
          · exact .isNull hl negated
          · exact .isNull hr negated
      rw [hlegal fuel]
      exact hlegal

/-- What a comparison of legal operands becomes is legal. -/
theorem IsLegal.ofCompare (hl : l.IsLegal s p) (hr : r.IsLegal s p) (withNull : Option Bool)
    (fuel : Nat) :
    ((s.legalizerWithin p (fuel + 1)).onPredicate (.compare l op r withNull)).IsLegal s p := by
  obtain ⟨hl', hr', hsame⟩ := Store.comparedOperands_legal hl hr rfl
  rw [Store.onPredicate_succ, Store.legalPredicate_compare]
  exact .ofCompared hl' hr' hsame withNull fuel

/-- So is what one becomes that does not take absence for a value, however deep conditions are
entered. -/
theorem IsLegal.ofComparison (hl : l.IsLegal s p) (hr : r.IsLegal s p) (fuel : Nat) :
    ((s.legalizerWithin p fuel).predicate (.comparison l op r)).IsLegal s p := by
  obtain ⟨hl', hr', hsame⟩ := Store.comparedOperands_legal hl hr rfl
  rw [comparison, HasLegalParts.compare hl hr, Store.onPredicate_compare_none,
    ← again_of_ne_nested (s.legalComparison_ne_nested _ _ op)]
  exact .ofCompared hl' hr' hsame none fuel

end Predicate

/-! ## Searches -/

namespace Scalar.IsLegal

theorem text (text : String) : (Scalar.text text).IsLegal s p := .leaf (fun _ => rfl) rfl

theorem call {args : List Scalar} (h : ∀ e ∈ args, e.IsLegal s p) (name : String) (type : SqlType) :
    (Scalar.call name args type).IsLegal s p := .function h

/-- Texts that are not both known are joined by the operator of the dialect. -/
theorem joined {type : SqlType} (hl : l.IsLegal s p) (hr : r.IsLegal s p)
    (h : l.asValue? = none ∨ r.asValue? = none) :
    (Scalar.binary l p.dialect.concatOperator r type).IsLegal s p := by
  have hspelled : p.dialect.spelled (.binary l p.dialect.concatOperator r type) =
      .binary l p.dialect.concatOperator r type := by
    cases p.dialect <;> rfl
  have hfold : foldBinary? l p.dialect.concatOperator r type = none := by
    rcases h with h | h <;> simp [foldBinary?, h]
  refine .binary hl hr ?_
  rw [Store.legalScalar, hspelled]
  dsimp only
  rw [Store.legalBinary, hfold]
  dsimp only
  rw [ite_self]

/-- Wildcards are put around a pattern that is not known. -/
theorem decorated (he : e.IsLegal s p) (h : e.asValue? = none) (kind : SearchKind) :
    (kind.decorateScalar p.dialect.concatOperator e).IsLegal s p := by
  cases kind with
  | startsWith => exact joined he (text _) (.inl h)
  | endsWith => exact joined (text _) he (.inr h)
  | contains => exact joined (joined (text _) he (.inr h)) (text _) (.inl rfl)

/-- A pattern that is escaped by calls of `Replace`. -/
theorem escaped (he : e.IsLegal s p) (specials : List Char) (escape : Char) :
    (escapeLikeScalar specials escape e).IsLegal s p := by
  unfold escapeLikeScalar
  generalize specials.filter (· == escape) ++ specials.filter (· != escape) = chars
  induction chars generalizing e with
  | nil => exact he
  | cons c chars ih =>
    refine ih (call ?_ _ _)
    simp [he, text]

/-- The pattern of a search. -/
theorem likePattern (he : e.IsLegal s p) (kind : SearchKind) :
    (p.dialect.likePattern kind e).1.IsLegal s p := by
  rcases p.dialect.likePattern_cases kind e with ⟨_, known, -, hknown, heq⟩ | ⟨-, heq⟩
  · rw [heq]
    unfold Scalar.knownText? at hknown
    split at hknown
    · exact .leaf (fun _ => rfl) rfl
    · exact .leaf (fun _ => rfl) rfl
    · cases hknown
  · rw [heq]
    have hcall : (escapeLikeScalar p.dialect.likeSpecials Dialect.likeEscape e).asValue? = none := by
      cases p.dialect <;> rfl
    exact decorated (escaped he _ _) hcall kind

end Scalar.IsLegal

/-- The part of a subject that should match is compared with legal operands. -/
theorem caseSensitiveCheck_cases (hl : l.IsLegal s p) (hr : r.IsLegal s p) (kind : SearchKind) :
    ∃ part op other, caseSensitiveCheck kind l r = .comparison part op other ∧
      part.IsLegal s p ∧ other.IsLegal s p := by
  have hlength : (Scalar.call "Length" [r] .int32).IsLegal s p :=
    .call (List.forall_mem_singleton.mpr hr) _ _
  have hint (n : Int) : (Scalar.int n).IsLegal s p := .leaf (fun _ => rfl) rfl
  cases kind with
  | startsWith => exact ⟨_, _, _, rfl, .call (by simp [hl, hint, hlength]) _ _, hr⟩
  | endsWith =>
    have hstart : (Scalar.raw "-{0}" [.call "Length" [r] .int32] .int32 .unary).IsLegal s p :=
      .raw (List.forall_mem_singleton.mpr hlength) _ _
    exact ⟨_, _, _, rfl, .call (by simp [hl, hstart]) _ _, hr⟩
  | contains => exact ⟨_, _, _, rfl, .call (by simp [hl, hr]) _ _, hint 0⟩

namespace Predicate

theorem IsLegal.likeSearch (hl : l.IsLegal s p) (hr : r.IsLegal s p) (kind : SearchKind)
    (negated : Bool) : (p.dialect.likeSearch l kind r negated).IsLegal s p := by
  have hpattern := Scalar.IsLegal.likePattern hr kind
  unfold Dialect.likeSearch
  generalize p.dialect.likePattern kind r = pattern at hpattern ⊢
  obtain ⟨pattern, isEscaped⟩ := pattern
  refine .of_parts (.like hl hpattern fun e he => ?_) (s.legalPredicate_eq_self p rfl)
    (by rintro _ ⟨⟩)
  cases isEscaped with
  | false => cases he
  | true =>
    cases he
    exact .text _

/-- What a search becomes is legal. -/
theorem IsLegal.ofSearch (hl : l.IsLegal s p) (hr : r.IsLegal s p) (kind : SearchKind)
    (caseSensitive negated : Bool) (fuel : Nat) :
    ((s.legalizerWithin p (fuel + 1)).onPredicate
      (.search l kind r caseSensitive negated)).IsLegal s p := by
  have hsearch : s.legalPredicate p (.search l kind r caseSensitive negated) =
      p.dialect.legalSearch (.search l kind r caseSensitive negated) :=
    s.legalPredicate_eq_plain p (by rintro _ _ _ _ ⟨⟩)
  have hlike := IsLegal.likeSearch hl hr kind negated
  rw [Store.onPredicate_succ, hsearch, Dialect.legalSearch]
  dsimp only
  split
  · obtain ⟨part, op, other, hcheck, hpart, hother⟩ := caseSensitiveCheck_cases hl hr kind
    refine .again fun q hq => ?_
    have hpredicates : q = p.dialect.likeSearch l kind r negated ∨ q = .comparison part op other := by
      rw [hcheck] at hq
      split at hq
      · simpa [Condition.disjoin, Condition.ofPredicate, Condition.branch] using hq
      · simpa [Condition.conjoin, Condition.ofPredicate, Condition.branch, comparison] using hq
    rcases hpredicates with rfl | rfl
    · rw [hlike fuel]
      exact hlike
    · exact .ofComparison hpart hother fuel
  · exact hlike

/-! ## Truth values -/

/-- A truth value that is compared with a constant. -/
theorem IsLegal.booleanTest (hoperand : s.isBooleanOperand e = true)
    (hnull : e.isNullConstant = false) (outcome : Bool) :
    (Predicate.equal e (.constant (.boolean outcome))).IsLegal s p := by
  have hkind : (s.typeOf e).kind = .boolean := by
    unfold Store.isBooleanOperand at hoperand
    split at hoperand
    · exact beq_iff_eq.mp hoperand
    · exact beq_iff_eq.mp hoperand
    · exact beq_iff_eq.mp hoperand
    · cases hoperand
  have hsame : s.comparedOperands p e (.constant (.boolean outcome)) =
      (e, .constant (.boolean outcome)) := by
    have hconstant : (s.typeOf (.constant (.boolean outcome))).kind.isDateTime = false := rfl
    have hdate : (s.typeOf e).kind.isDateTime = false := by rw [hkind]; rfl
    simp [Store.comparedOperands, hdate, hconstant]
  have hlegal (he : e.IsLegal s p) (hvalue : e.asValue? = none) :
      (Predicate.equal e (.constant (.boolean outcome))).IsLegal s p :=
    .undecided he (.leaf (fun _ => rfl) rfl) hsame (.inl hvalue) hnull rfl
  unfold Store.isBooleanOperand at hoperand
  split at hoperand
  · exact hlegal (.leaf (fun _ => rfl) rfl) rfl
  · exact hlegal (.leaf (fun _ => rfl) rfl) rfl
  · exact hlegal (.leaf (fun _ => rfl) rfl) rfl
  · cases hoperand

/-- What a predicate becomes that may become the test of a truth value is legal. -/
theorem IsLegal.ofTest (tests outcome : Bool) (hparts : q.HasLegalParts s p)
    (hplain : ∀ c, q ≠ .nested c) (hnull : tests = true → e.isNullConstant = false)
    (h : s.legalPredicate p q =
      if tests && s.isBooleanOperand e then .equal e (.constant (.boolean outcome)) else q)
    (fuel : Nat) : ((s.legalizerWithin p (fuel + 1)).onPredicate q).IsLegal s p := by
  rw [Store.onPredicate_succ, h]
  by_cases htest : (tests && s.isBooleanOperand e) = true
  · rw [if_pos htest]
    obtain ⟨htests, hoperand⟩ := Bool.and_eq_true_iff.mp htest
    exact .booleanTest hoperand (hnull htests) outcome
  · rw [if_neg htest] at h ⊢
    rw [again_of_ne_nested hplain]
    exact .of_parts hparts h fun c heq => absurd heq (hplain c)

/-- What a truth value becomes is legal. -/
theorem IsLegal.ofScalar (he : e.IsLegal s p)
    (hnull : p.rules.booleanType = false → e.isNullConstant = false) (precedence : Precedence) (fuel : Nat) :
    ((s.legalizerWithin p (fuel + 1)).onPredicate (.scalar e precedence)).IsLegal s p :=
  .ofTest (!p.rules.booleanType) true (.scalar he) (by rintro _ ⟨⟩) (by simpa using hnull)
    (s.legalPredicate_eq_plain p (by rintro _ _ _ _ ⟨⟩)) fuel

/-- What the negation of one becomes is legal. -/
theorem IsLegal.ofNotScalar (he : e.IsLegal s p)
    (hnull : p.rules.booleanType = false → e.isNullConstant = false) (negated : Bool)
    (precedence : Precedence) (fuel : Nat) :
    ((s.legalizerWithin p (fuel + 1)).onPredicate (.notScalar e negated precedence)).IsLegal s p := by
  refine .ofTest (negated && !p.rules.booleanType) false (.notScalar he) (by rintro _ ⟨⟩)
    (fun h => hnull (by simp_all)) ?_ fuel
  rw [s.legalPredicate_eq_plain p (by rintro _ _ _ _ ⟨⟩)]
  cases negated <;> rfl

/-- Operands that `CASE` compares where there is no `IS DISTINCT FROM`, if nothing is decided. -/
theorem IsLegal.distinctByCase (hl : l.IsLegal s p) (hr : r.IsLegal s p)
    (hdialect : p.dialect ≠ .sqlite) (hvalue : l.asValue? = none ∨ r.asValue? = none)
    (hnulll : l.isNullConstant = false) (hnullr : r.isNullConstant = false) (negated : Bool) :
    (distinctByCase l r negated).IsLegal s p := by
  have hsame (e e' : Scalar) : s.comparedOperands p e e' = (e, e') := by
    simp [Store.comparedOperands, hdialect]
  have hint (n : Int) : (Scalar.int n).IsLegal s p := .leaf (fun _ => rfl) rfl
  have hequal : (Predicate.equal l r).IsLegal s p :=
    .undecided hl hr (hsame l r) hvalue hnulll hnullr
  refine .undecided (.call ?_ _ _) (hint _) (hsame _ _) (.inl rfl) rfl rfl
  have hsame : Condition.IsLegal s p (((Condition.ofPredicate (.equal l r)).disjoin
      (.isNull l false)).conjoin (.isNull r false)) := by
    refine .of_predicates ?_
    simp [Condition.ofPredicate, Condition.conjoin, Condition.disjoin, Condition.branch,
      Condition.joinLast, hequal, IsLegal.isNull hl, IsLegal.isNull hr]
  simp [Scalar.IsLegal.condition hsame, hint]

/-- What a predicate becomes that is not rewritten is legal. -/
theorem IsLegal.ofOther (hparts : q.HasLegalParts s p) (h : s.legalPredicate p q = q)
    (hnested : ∀ c, q = .nested c → c.IsLegal s p) (fuel : Nat) :
    ((s.legalizerWithin p (fuel + 1)).onPredicate q).IsLegal s p := by
  have hlegal := IsLegal.of_parts hparts h hnested
  rw [← hparts, hlegal]
  exact hlegal

end Predicate

end

/-! ## What expressions become -/

/-- What is not an absent constant does not become one. -/
theorem Store.isNullConstant_legalScalar (s : Store) (d : Dialect) {e : Scalar}
    (h : e.isNullConstant = false) : (s.legalScalar d e).isNullConstant = false := by
  have hspelled : (d.spelled e).isNullConstant = false := by
    unfold Dialect.spelled
    split
    · rfl
    · rfl
    · split <;> rfl
    · split
      · rfl
      · exact h
    · exact h
  unfold legalScalar
  split
  · next target source operand keep _ =>
    cases hoperand : operand.isNullConstant with
    | true =>
      have hkept : s.legalConversion d target source operand keep =
          .convert target source operand keep := by
        simp [legalConversion, hoperand]
      rw [hkept]
      rfl
    | false =>
      rcases legalConversion_cases (s := s) (d := d) target source operand keep with
        hconversion | ⟨keep', hconversion, -⟩
      · rw [hconversion]
        exact hoperand
      · rw [hconversion]
        rfl
  · next l op r type _ =>
    unfold legalBinary
    cases hfold : foldBinary? l op r type with
    | none => rfl
    | some folded =>
      unfold foldBinary? at hfold
      simp only [Option.bind_eq_bind, Option.bind_eq_some_iff] at hfold
      obtain ⟨a, -, b, -, value, hvalue, hfolded⟩ := hfold
      cases hfolded
      cases value with
      | null =>
        unfold foldConstants? checkedInt64 at hvalue
        split at hvalue <;> (try split at hvalue) <;> cases hvalue
      | _ => rfl
  · exact hspelled

theorem Store.isNullConstant_scalar (s : Store) (p : Provider) (fuel : Nat) {e : Scalar}
    (h : e.isNullConstant = false) :
    ((s.legalizerWithin p fuel).scalar e).isNullConstant = false := by
  cases e with
  | function | binary | raw | convert | condition | row =>
    rw [Transformer.scalar, onScalar_eq]
    exact s.isNullConstant_legalScalar _ rfl
  | _ =>
    change ((s.legalizerWithin p fuel).onScalar _).isNullConstant = false
    rw [onScalar_eq]
    exact s.isNullConstant_legalScalar _ h

/-- What is unknown does not become a literal. -/
theorem Store.asValue?_scalar (s : Store) (p : Provider) (fuel : Nat) {e : Scalar}
    (h : e.isUnknown = true) : ((s.legalizerWithin p fuel).scalar e).asValue? = none := by
  cases e with
  | value | binary | convert => cases h
  | function | raw | condition | row =>
    rw [Transformer.scalar, onScalar_eq, legalScalar_eq_self rfl]
    rfl
  | _ =>
    change ((s.legalizerWithin p fuel).onScalar _).asValue? = none
    rw [onScalar_eq, legalScalar_eq_self rfl]
    rfl

theorem Store.asValue?_scalars {s : Store} {p : Provider} {fuel : Nat} {l r : Scalar}
    (h : (l.isUnknown || r.isUnknown) = true) :
    ((s.legalizerWithin p fuel).scalar l).asValue? = none ∨
      ((s.legalizerWithin p fuel).scalar r).asValue? = none :=
  (Bool.or_eq_true_iff.mp h).imp (s.asValue?_scalar p fuel) (s.asValue?_scalar p fuel)

/-- Whether what `IS DISTINCT FROM` becomes is legal. -/
def Provider.comparesDistinct (p : Provider) (l r : Scalar) : Bool :=
  p.rules.distinctFrom || p.dialect != .sqlite && (l.isUnknown || r.isUnknown) &&
    !l.isNullConstant && !r.isNullConstant

mutual

/-- Whether what a scalar becomes is legal: each of its operators becomes a legal one, and no condition
in it is decided, or takes an absent constant for another one, only when it is made legal again. -/
def Scalar.isDirect (p : Provider) : Scalar → Bool
  | .function call => call.isDirect p
  | .binary l op r _ => p.dialect.isDirect op l r && (l.isDirect p && r.isDirect p)
  | .raw _ args _ _ => areDirect p args
  | .convert _ _ e _ => e.isDirect p
  | .condition c => c.isDirect p
  | .row items => areDirect p items
  | _ => true
termination_by structural e => e

/-- The same for every scalar of a list. -/
def areDirect (p : Provider) : List Scalar → Bool
  | [] => true
  | e :: rest => e.isDirect p && areDirect p rest
termination_by structural items => items

/-- The same for the arguments of a call. -/
def Call.isDirect (p : Provider) : Call → Bool
  | ⟨_, args, _, _, _⟩ => areDirect p args
termination_by structural c => c

/-- The same for a predicate. -/
def Predicate.isDirect (p : Provider) : Predicate → Bool
  | .compare l _ r _ => l.isDirect p && r.isDirect p
  | .like e pattern none _ => e.isDirect p && pattern.isDirect p
  | .like e pattern (some escape) _ => e.isDirect p && (pattern.isDirect p && escape.isDirect p)
  | .search e _ pattern _ _ => e.isDirect p && pattern.isDirect p
  | .between e low high _ => e.isDirect p && (low.isDirect p && high.isDirect p)
  | .isNull e _ => e.isDirect p
  | .isDistinct l r _ => p.comparesDistinct l r && (l.isDirect p && r.isDirect p)
  | .inQuery e _ _ => e.isDirect p
  | .inList e items _ _ => e.isDirect p && areDirect p items
  | .functionLike call => call.isDirect p
  | .notScalar e _ _ => (p.rules.booleanType || !e.isNullConstant) && e.isDirect p
  | .scalar e _ => (p.rules.booleanType || !e.isNullConstant) && e.isDirect p
  | .nested c => c.isDirect p
termination_by structural q => q

/-- The same for the predicate of a branch. -/
def Branch.isDirect (p : Provider) : Branch → Bool
  | ⟨_, predicate, _⟩ => predicate.isDirect p
termination_by structural b => b

/-- The same for every branch of a list. -/
def branchesDirect (p : Provider) : List Branch → Bool
  | [] => true
  | b :: rest => b.isDirect p && branchesDirect p rest
termination_by structural branches => branches

/-- The same for every branch of a condition. -/
def Condition.isDirect (p : Provider) : Condition → Bool
  | ⟨branches⟩ => branchesDirect p branches
termination_by structural c => c

end

section

variable {s : Store} {p : Provider} {fuel : Nat}

mutual

/-- What a scalar becomes is legal. -/
theorem Scalar.isLegal_of_isDirect (e : Scalar) (h : e.isDirect p = true) :
    ((s.legalizerWithin p (fuel + 1)).scalar e).IsLegal s p := by
  cases e with
  | function call =>
    rw [Transformer.scalar, Store.onScalar_eq, Store.legalScalar_eq_self rfl]
    exact .function (Call.isLegal_of_isDirect call h)
  | binary l op r type =>
    obtain ⟨hop, hparts⟩ := Bool.and_eq_true_iff.mp h
    obtain ⟨hl, hr⟩ := Bool.and_eq_true_iff.mp hparts
    rw [Transformer.scalar, Store.onScalar_eq]
    refine .ofBinary ?_ ?_ (Scalar.isLegal_of_isDirect l hl) (Scalar.isLegal_of_isDirect r hr)
    · rintro ⟨hdialect, rfl⟩
      simp [Dialect.isDirect, hdialect] at hop
    · rintro hdialect rfl
      exact Store.asValue?_scalars (by simpa [Dialect.isDirect, hdialect] using hop)
  | raw format args type precedence =>
    rw [Transformer.scalar, Store.onScalar_eq, Store.legalScalar_eq_self rfl]
    exact .raw (areLegal_of_areDirect args h) format precedence
  | convert target source e keep =>
    rw [Transformer.scalar, Store.onScalar_eq]
    exact .ofConvert target source keep (Scalar.isLegal_of_isDirect e h)
  | condition c =>
    rw [Transformer.scalar, Store.onScalar_eq, Store.legalScalar_eq_self rfl]
    exact .condition (Condition.isLegal_of_isDirect c h)
  | row items =>
    rw [Transformer.scalar, Store.onScalar_eq, Store.legalScalar_eq_self rfl]
    exact .row (areLegal_of_areDirect items h)
  | _ =>
    change Scalar.IsLegal s p ((s.legalizerWithin p (fuel + 1)).onScalar _)
    rw [Store.onScalar_eq, Store.legalScalar_eq_self rfl]
    exact .leaf (fun _ => rfl) rfl
termination_by structural e

theorem areLegal_of_areDirect (items : List Scalar) (h : areDirect p items = true) :
    ∀ e ∈ (s.legalizerWithin p (fuel + 1)).scalars items, e.IsLegal s p := by
  cases items with
  | nil => exact List.forall_mem_nil _
  | cons e rest =>
    obtain ⟨he, hrest⟩ := Bool.and_eq_true_iff.mp h
    exact List.forall_mem_cons.mpr
      ⟨Scalar.isLegal_of_isDirect e he, areLegal_of_areDirect rest hrest⟩
termination_by structural items

theorem Call.isLegal_of_isDirect (c : Call) (h : c.isDirect p = true) :
    ∀ e ∈ ((s.legalizerWithin p (fuel + 1)).call c).args, e.IsLegal s p := by
  cases c with
  | mk name args type isAggregate keep => exact areLegal_of_areDirect args h
termination_by structural c

/-- What a predicate becomes is legal. -/
theorem Predicate.isLegal_of_isDirect (q : Predicate) (h : q.isDirect p = true) :
    ((s.legalizerWithin p (fuel + 1)).predicate q).IsLegal s p := by
  cases q with
  | compare l op r withNull =>
    obtain ⟨hl, hr⟩ := Bool.and_eq_true_iff.mp h
    rw [Transformer.predicate]
    exact .ofCompare (Scalar.isLegal_of_isDirect l hl) (Scalar.isLegal_of_isDirect r hr) withNull
      fuel
  | like e pattern escape negated =>
    cases escape with
    | none =>
      obtain ⟨he, hpattern⟩ := Bool.and_eq_true_iff.mp h
      rw [Transformer.predicate]
      exact .ofOther (.like (Scalar.isLegal_of_isDirect e he)
        (Scalar.isLegal_of_isDirect pattern hpattern) (by rintro _ ⟨⟩))
        (s.legalPredicate_eq_self p rfl) (by rintro _ ⟨⟩) fuel
    | some escape =>
      obtain ⟨he, hrest⟩ := Bool.and_eq_true_iff.mp h
      obtain ⟨hpattern, hescape⟩ := Bool.and_eq_true_iff.mp hrest
      have hlegal := Scalar.isLegal_of_isDirect escape hescape
      rw [Transformer.predicate]
      exact .ofOther (.like (Scalar.isLegal_of_isDirect e he)
        (Scalar.isLegal_of_isDirect pattern hpattern) (by rintro _ ⟨⟩; exact hlegal))
        (s.legalPredicate_eq_self p rfl) (by rintro _ ⟨⟩) fuel
  | search e kind pattern caseSensitive negated =>
    obtain ⟨he, hpattern⟩ := Bool.and_eq_true_iff.mp h
    rw [Transformer.predicate]
    exact .ofSearch (Scalar.isLegal_of_isDirect e he) (Scalar.isLegal_of_isDirect pattern hpattern)
      kind caseSensitive negated fuel
  | between e low high negated =>
    obtain ⟨he, hrest⟩ := Bool.and_eq_true_iff.mp h
    obtain ⟨hlow, hhigh⟩ := Bool.and_eq_true_iff.mp hrest
    rw [Transformer.predicate]
    exact .ofOther (.between (Scalar.isLegal_of_isDirect e he)
      (Scalar.isLegal_of_isDirect low hlow) (Scalar.isLegal_of_isDirect high hhigh))
      (s.legalPredicate_eq_self p rfl) (by rintro _ ⟨⟩) fuel
  | isNull e negated =>
    rw [Transformer.predicate]
    exact .ofOther (.isNull (Scalar.isLegal_of_isDirect e h)) (s.legalPredicate_eq_self p rfl)
      (by rintro _ ⟨⟩) fuel
  | isDistinct l r negated =>
    obtain ⟨hrules, hparts⟩ := Bool.and_eq_true_iff.mp h
    obtain ⟨hl, hr⟩ := Bool.and_eq_true_iff.mp hparts
    have hlegal := Scalar.isLegal_of_isDirect l hl
    have hlegal' := Scalar.isLegal_of_isDirect r hr
    rw [Transformer.predicate]
    cases hdistinct : p.rules.distinctFrom with
    | true =>
      exact .ofOther (.isDistinct hlegal hlegal')
        (s.legalPredicate_isDistinct p _ _ hdistinct negated) (by rintro _ ⟨⟩) fuel
    | false =>
      simp only [Provider.comparesDistinct, hdistinct, Bool.false_or, Bool.and_eq_true, bne_iff_ne,
        Bool.not_eq_true'] at hrules
      obtain ⟨⟨⟨hdialect, hunknown⟩, hnull⟩, hnull'⟩ := hrules
      have hcase := Predicate.IsLegal.distinctByCase hlegal hlegal' hdialect
        (Store.asValue?_scalars hunknown) (s.isNullConstant_scalar p (fuel + 1) hnull)
        (s.isNullConstant_scalar p (fuel + 1) hnull') negated
      rw [Store.onPredicate_succ, s.legalPredicate_eq_plain p (by rintro _ _ _ _ ⟨⟩)]
      simp only [Store.plainLegalPredicate, hdistinct, Bool.false_eq_true, if_false]
      exact hcase
  | inQuery e query negated =>
    rw [Transformer.predicate]
    exact .ofOther (.inQuery (Scalar.isLegal_of_isDirect e h)) (s.legalPredicate_eq_self p rfl)
      (by rintro _ ⟨⟩) fuel
  | inList e items negated withNull =>
    obtain ⟨he, hitems⟩ := Bool.and_eq_true_iff.mp h
    rw [Transformer.predicate]
    exact .ofOther (.inList (Scalar.isLegal_of_isDirect e he) (areLegal_of_areDirect items hitems))
      (s.legalPredicate_eq_self p rfl) (by rintro _ ⟨⟩) fuel
  | functionLike call =>
    rw [Transformer.predicate]
    exact .ofOther (.functionLike (Call.isLegal_of_isDirect call h))
      (s.legalPredicate_eq_self p rfl) (by rintro _ ⟨⟩) fuel
  | notScalar e negated precedence =>
    obtain ⟨hnull, he⟩ := Bool.and_eq_true_iff.mp h
    rw [Transformer.predicate]
    exact .ofNotScalar (Scalar.isLegal_of_isDirect e he)
      (fun h => s.isNullConstant_scalar p (fuel + 1) (by simpa [h] using hnull)) negated precedence fuel
  | scalar e precedence =>
    obtain ⟨hnull, he⟩ := Bool.and_eq_true_iff.mp h
    rw [Transformer.predicate]
    exact .ofScalar (Scalar.isLegal_of_isDirect e he)
      (fun h => s.isNullConstant_scalar p (fuel + 1) (by simpa [h] using hnull)) precedence fuel
  | nested c =>
    have hc := Condition.isLegal_of_isDirect c h
    rw [Transformer.predicate]
    exact .ofOther (.nested hc) (s.legalPredicate_eq_self p rfl) (by rintro _ ⟨⟩; exact hc) fuel
termination_by structural q

theorem Branch.isLegal_of_isDirect (b : Branch) (h : b.isDirect p = true) :
    ((s.legalizerWithin p (fuel + 1)).branch b).predicate.IsLegal s p := by
  cases b with
  | mk negated predicate joinsOr => exact Predicate.isLegal_of_isDirect predicate h
termination_by structural b

theorem branchesLegal_of_branchesDirect (branches : List Branch)
    (h : branchesDirect p branches = true) :
    ∀ q ∈ ((s.legalizerWithin p (fuel + 1)).branches branches).map (·.predicate),
      q.IsLegal s p := by
  cases branches with
  | nil => exact List.forall_mem_nil _
  | cons b rest =>
    obtain ⟨hb, hrest⟩ := Bool.and_eq_true_iff.mp h
    exact List.forall_mem_cons.mpr
      ⟨Branch.isLegal_of_isDirect b hb, branchesLegal_of_branchesDirect rest hrest⟩
termination_by structural branches

/-- What a condition becomes is legal. -/
theorem Condition.isLegal_of_isDirect (c : Condition) (h : c.isDirect p = true) :
    ((s.legalizerWithin p (fuel + 1)).condition c).IsLegal s p := by
  cases c with
  | mk branches => exact .of_predicates (branchesLegal_of_branchesDirect branches h)
termination_by structural c

end

end

end SqlCompiler
