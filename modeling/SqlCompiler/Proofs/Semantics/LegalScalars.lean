import SqlCompiler.Legalize.Predicate
import SqlCompiler.Proofs.Semantics.Valuations
import SqlCompiler.Sql.Traversal

/-!
# Legal scalars

An expression is legal if it stays as it is when it is made legal.  An operator or a conversion whose
operands are legal becomes a legal scalar, so that what has been made legal may be made legal again, as
the parts of a predicate are that becomes a condition.  Left out are `^` in SQLite, where others stand
for it that were not looked at, and `||` in SQL Server between what may turn out to be two literals.

Main results:

- Definition `Scalar.IsLegal`, `Predicate.IsLegal`, `Condition.IsLegal`: expressions that stay.
- Theorem `Scalar.IsLegal.ofBinary`: an operator over legal operands becomes a legal scalar.
- Theorem `Scalar.IsLegal.ofConvert`: a conversion of a legal operand becomes a legal scalar.
-/

namespace SqlCompiler

section

variable (s : Store) (p : Provider)

/-- A scalar that stays when it is made legal. -/
def Scalar.IsLegal (e : Scalar) : Prop :=
  ∀ fuel, (s.legalizerWithin p fuel).scalar e = e

/-- A predicate that stays when it is made legal. -/
def Predicate.IsLegal (q : Predicate) : Prop :=
  ∀ fuel, (s.legalizerWithin p fuel).predicate q = q

/-- A condition that stays when it is made legal. -/
def Condition.IsLegal (c : Condition) : Prop :=
  ∀ fuel, (s.legalizerWithin p fuel).condition c = c

end

/-- An operator or a conversion. -/
def Scalar.isOperation : Scalar → Bool
  | .binary .. | .convert .. => true
  | _ => false

/-- Whether a scalar is no literal and does not become one. -/
def Scalar.isUnknown (e : Scalar) : Bool :=
  !e.isOperation && e.asValue?.isNone

/-- Whether an operator becomes a legal one.  SQLite spells `^` by means of others, and SQL Server joins
by `+`, which would add two numbers if both were known. -/
def Dialect.isDirect (d : Dialect) (op : BinaryOperator) (l r : Scalar) : Bool :=
  match d, op with
  | .sqlite, .bitXor => false
  | .sqlServer, .concat => l.isUnknown || r.isUnknown
  | _, _ => true

/-! ## Operators and conversions -/

namespace Store

section

variable {s : Store} {d : Dialect}

/-- A conversion is left out, or kept, perhaps for good. -/
theorem legalConversion_cases (target source : SqlType) (e : Scalar) (keep : Bool) :
    s.legalConversion d target source e keep = e ∨
      ∃ keep', s.legalConversion d target source e keep = .convert target source e keep' ∧
        s.legalConversion d target source e keep' = .convert target source e keep' := by
  have htrue : s.legalConversion d target source e true = .convert target source e true := rfl
  by_cases h : s.legalConversion d target source e keep = .convert target source e keep
  · exact .inr ⟨keep, h, h⟩
  · have hother : s.legalConversion d target source e keep = e ∨
        s.legalConversion d target source e keep = .convert target source e true := by
      unfold legalConversion at h ⊢
      dsimp only at h ⊢
      split_ifs at h ⊢ <;> simp_all
    exact hother.imp_right fun h => ⟨true, h, htrue⟩

/-- Texts that are joined are joined by either operator. -/
theorem foldBinary?_concat {l r folded : Scalar} {op : BinaryOperator} {type : SqlType}
    (hop : op = .add ∨ op = .concat) (h : foldBinary? l .concat r type = some folded) :
    foldBinary? l op r type = some folded := by
  unfold foldBinary? at h ⊢
  simp only [Option.bind_eq_bind, Option.bind_eq_some_iff] at h ⊢
  obtain ⟨a, ha, b, hb, value, hvalue, hfolded⟩ := h
  refine ⟨a, ha, b, hb, value, ?_, hfolded⟩
  rcases hop with rfl | rfl
  · cases a <;> cases b <;> first | exact hvalue | cases hvalue
  · exact hvalue

/-- Operators that are not spelled by others have a legal form that is legal. -/
theorem legalBinary_legal (l r : Scalar) (op : BinaryOperator) (type : SqlType)
    (hspelled : d.spelled (.binary l op r type) = .binary l op r type)
    (hop : d = .sqlServer → op = .concat → l.asValue? = none ∨ r.asValue? = none) :
    (∃ v, s.legalBinary d l op r type = .value v) ∨
      ∃ op', s.legalBinary d l op r type = .binary l op' r type ∧
        s.legalScalar d (.binary l op' r type) = .binary l op' r type := by
  unfold legalBinary
  cases hfold : foldBinary? l op r type with
  | some folded =>
    unfold foldBinary? at hfold
    simp only [Option.bind_eq_bind, Option.bind_eq_some_iff] at hfold
    obtain ⟨_, -, _, -, value, -, hvalue⟩ := hfold
    exact .inl ⟨_, (Option.some.inj hvalue).symm⟩
  | none =>
    have hlegal (op' : BinaryOperator)
        (hspelled : d.spelled (.binary l op' r type) = .binary l op' r type)
        (hfold : foldBinary? l op' r type = none)
        (hconcat : (if s.isConcatenation l op' r type then d.concatOperator else op') = op') :
        s.legalScalar d (.binary l op' r type) = .binary l op' r type := by
      rw [legalScalar, hspelled]
      dsimp only
      rw [legalBinary, hfold]
      dsimp only
      rw [hconcat]
    refine .inr ⟨_, rfl, ?_⟩
    cases hconcat : s.isConcatenation l op r type with
    | false => exact hlegal op hspelled hfold (if_neg (by simp [hconcat]))
    | true =>
      refine hlegal d.concatOperator (by cases d <;> rfl) ?_ (ite_self _)
      have hjoin : op = .add ∨ op = .concat := by
        cases op <;> first | exact .inl rfl | exact .inr rfl | cases hconcat
      by_cases hadd : d = .sqlServer
      · subst hadd
        rcases hjoin with rfl | rfl
        · exact hfold
        · change foldBinary? l .add r type = none
          rcases hop rfl rfl with h | h <;> simp [foldBinary?, h]
      · have hoperator : d.concatOperator = .concat := by
          cases d <;> first | rfl | exact absurd rfl hadd
        rw [hoperator, Option.eq_none_iff_forall_ne_some]
        intro folded hsome
        rw [foldBinary?_concat hjoin hsome] at hfold
        cases hfold

/-- Only operators and conversions are changed. -/
theorem legalScalar_eq_self {e : Scalar} (h : e.isOperation = false) : s.legalScalar d e = e := by
  cases e with
  | binary l op r type => cases h
  | convert target source inner keep => cases h
  | _ => cases d <;> rfl

/-- An operator stays, or a text or a function stands for it. -/
theorem spelled_binary_cases (l r : Scalar) (type : SqlType) {op : BinaryOperator}
    (hop : ¬(d = .sqlite ∧ op = .bitXor)) :
    d.spelled (.binary l op r type) = .binary l op r type ∨
      (∃ format precedence,
        d.spelled (.binary l op r type) = .raw format [l, r] type precedence) ∨
      ∃ name, d.spelled (.binary l op r type) = .call name [l, r] type := by
  cases d with
  | generic | sqlServer => exact .inl (by cases op <;> rfl)
  | sqlite =>
    cases op with
    | bitXor => exact absurd ⟨rfl, rfl⟩ hop
    | _ => exact .inl rfl
  | postgreSql =>
    cases op with
    | bitXor => exact .inr (.inl ⟨_, _, rfl⟩)
    | _ => exact .inl rfl
  | db2 =>
    cases op with
    | modulo | bitAnd | bitOr | bitXor => exact .inr (.inr ⟨_, rfl⟩)
    | _ => exact .inl rfl

/-- A conversion stays, or a function stands for it, whether it is kept or not. -/
theorem spelled_convert_cases (d : Dialect) (target source : SqlType) (e : Scalar) :
    (∀ keep, d.spelled (.convert target source e keep) = .convert target source e keep) ∨
      ∃ name, (name = "Date" ∨ name = "DateTime") ∧
        ∀ keep, d.spelled (.convert target source e keep) = .call name [e] target := by
  cases d with
  | sqlite =>
    cases hkind : target.kind with
    | date => exact .inr ⟨"Date", .inl rfl, fun _ => by simp [Dialect.spelled, hkind]⟩
    | dateTime | dateTime2 | smallDateTime | timestamp =>
      exact .inr ⟨"DateTime", .inr rfl, fun _ => by simp [Dialect.spelled, hkind]⟩
    | _ => exact .inl fun _ => by simp [Dialect.spelled, hkind]
  | _ => exact .inl fun _ => rfl

end

theorem onScalar_eq {s : Store} {p : Provider} {fuel : Nat} :
    (s.legalizerWithin p fuel).onScalar = s.legalScalar p.dialect := by
  cases fuel <;> rfl

/-- Legal scalars stay. -/
theorem scalars_of_legal {s : Store} {p : Provider} {items : List Scalar}
    (h : ∀ e ∈ items, e.IsLegal s p) (fuel : Nat) :
    (s.legalizerWithin p fuel).scalars items = items := by
  induction items with
  | nil => rfl
  | cons e rest ih =>
    obtain ⟨he, hrest⟩ := List.forall_mem_cons.mp h
    rw [Transformer.scalars, he fuel, ih hrest]

end Store

/-! ## Scalars whose parts are legal -/

namespace Scalar.IsLegal

variable {s : Store} {p : Provider} {e l r : Scalar} {items : List Scalar} {type : SqlType}

/-- A scalar without parts. -/
theorem leaf (hleaf : ∀ w : Transformer, w.scalar e = w.onScalar e) (he : e.isOperation = false) :
    e.IsLegal s p := by
  intro fuel
  rw [hleaf, Store.onScalar_eq, Store.legalScalar_eq_self he]

theorem function {call : Call} (h : ∀ e ∈ call.args, e.IsLegal s p) :
    (Scalar.function call).IsLegal s p := by
  obtain ⟨name, args, type, isAggregate, keep⟩ := call
  intro fuel
  change (s.legalizerWithin p fuel).onScalar (.function ⟨name, _, type, isAggregate, keep⟩) = _
  rw [Store.scalars_of_legal h, Store.onScalar_eq]
  exact Store.legalScalar_eq_self rfl

theorem raw (h : ∀ e ∈ items, e.IsLegal s p) (format : String) (precedence : Precedence) :
    (Scalar.raw format items type precedence).IsLegal s p := by
  intro fuel
  change (s.legalizerWithin p fuel).onScalar (.raw format _ type precedence) = _
  rw [Store.scalars_of_legal h, Store.onScalar_eq]
  exact Store.legalScalar_eq_self rfl

theorem row (h : ∀ e ∈ items, e.IsLegal s p) : (Scalar.row items).IsLegal s p := by
  intro fuel
  change (s.legalizerWithin p fuel).onScalar (.row _) = _
  rw [Store.scalars_of_legal h, Store.onScalar_eq]
  exact Store.legalScalar_eq_self rfl

theorem condition {c : Condition} (h : c.IsLegal s p) : (Scalar.condition c).IsLegal s p := by
  intro fuel
  change (s.legalizerWithin p fuel).onScalar (.condition _) = _
  rw [h fuel, Store.onScalar_eq]
  exact Store.legalScalar_eq_self rfl

theorem binary {op : BinaryOperator} (hl : l.IsLegal s p) (hr : r.IsLegal s p)
    (h : s.legalScalar p.dialect (.binary l op r type) = .binary l op r type) :
    (Scalar.binary l op r type).IsLegal s p := by
  intro fuel
  change (s.legalizerWithin p fuel).onScalar (.binary _ op _ type) = _
  rw [hl fuel, hr fuel, Store.onScalar_eq, h]

theorem convert {target source : SqlType} {keep : Bool} (he : e.IsLegal s p)
    (h : s.legalScalar p.dialect (.convert target source e keep) = .convert target source e keep) :
    (Scalar.convert target source e keep).IsLegal s p := by
  intro fuel
  change (s.legalizerWithin p fuel).onScalar (.convert target source _ keep) = _
  rw [he fuel, Store.onScalar_eq, h]

/-- An operator over legal operands becomes a legal scalar. -/
theorem ofBinary {op : BinaryOperator} (hop : ¬(p.dialect = .sqlite ∧ op = .bitXor))
    (hconcat : p.dialect = .sqlServer → op = .concat → l.asValue? = none ∨ r.asValue? = none)
    (hl : l.IsLegal s p) (hr : r.IsLegal s p) :
    (s.legalScalar p.dialect (.binary l op r type)).IsLegal s p := by
  have hlist : ∀ e ∈ [l, r], e.IsLegal s p := by simp [hl, hr]
  rcases Store.spelled_binary_cases l r type hop with
    hspelled | ⟨format, precedence, hspelled⟩ | ⟨name, hspelled⟩
  · have hbinary : s.legalScalar p.dialect (.binary l op r type) =
        s.legalBinary p.dialect l op r type := by
      rw [Store.legalScalar, hspelled]
    rw [hbinary]
    rcases Store.legalBinary_legal l r op type hspelled hconcat with ⟨v, h⟩ | ⟨op', h, hlegal⟩
    · rw [h]
      exact leaf (fun _ => rfl) rfl
    · rw [h]
      exact binary hl hr hlegal
  · have hraw : s.legalScalar p.dialect (.binary l op r type) =
        .raw format [l, r] type precedence := by
      rw [Store.legalScalar, hspelled]
    rw [hraw]
    exact raw hlist format precedence
  · have hfunction : s.legalScalar p.dialect (.binary l op r type) = .call name [l, r] type := by
      rw [Store.legalScalar, hspelled]
      rfl
    rw [hfunction]
    exact function hlist

/-- A conversion of a legal operand becomes a legal scalar. -/
theorem ofConvert (target source : SqlType) (keep : Bool) (he : e.IsLegal s p) :
    (s.legalScalar p.dialect (.convert target source e keep)).IsLegal s p := by
  rcases Store.spelled_convert_cases p.dialect target source e with hspelled | ⟨name, -, hspelled⟩
  · have hconvert (keep : Bool) : s.legalScalar p.dialect (.convert target source e keep) =
        s.legalConversion p.dialect target source e keep := by
      rw [Store.legalScalar, hspelled]
    rw [hconvert]
    rcases Store.legalConversion_cases (s := s) (d := p.dialect) target source e keep with
      h | ⟨keep', h, hlegal⟩
    · rw [h]
      exact he
    · rw [h]
      exact convert he ((hconvert keep').trans hlegal)
  · have hfunction : s.legalScalar p.dialect (.convert target source e keep) =
        .call name [e] target := by
      rw [Store.legalScalar, hspelled]
      rfl
    rw [hfunction]
    exact function (List.forall_mem_singleton.mpr he)

end Scalar.IsLegal

end SqlCompiler
