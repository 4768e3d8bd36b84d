import Mathlib.Data.Finset.Card
import SqlCompiler.Store.Typing

/-!
# Following columns

The type of an expression and whether it can be absent are found by following columns to their
expressions.  One may follow as many columns as there are and one more; after that nothing new is
found, also where columns lead back to themselves or to columns that are not there.

Main results:

- Definition `answersWithin`: what is known about columns after some rounds.
- Theorem `answersWithin_eq`: nothing is learnt after as many rounds as there are columns and one.
- Theorem `Store.typeWithin_eq`: a type does not depend on how many more columns may be followed.
- Theorem `Store.columnNullableWithin_eq`, `Store.canBeNull_column`: nor does nullability, so that a
  column may be absent if its expression may.
-/

namespace SqlCompiler

/-! ## Rounds -/

/-- What is known about columns after some rounds, each of which draws on the one before. -/
def answersWithin (round : (ColumnRef → Bool) → ColumnRef → Bool) : Nat → ColumnRef → Bool
  | 0 => fun _ => false
  | n + 1 => round (answersWithin round n)

section

variable {round : (ColumnRef → Bool) → ColumnRef → Bool} {size : Nat}

/-- A round that only adds to what is known. -/
def Monotonic (round : (ColumnRef → Bool) → ColumnRef → Bool) : Prop :=
  ∀ f g : ColumnRef → Bool, (∀ c, f c = true → g c = true) →
    ∀ c, round f c = true → round g c = true

theorem answersWithin_succ_of (hmono : Monotonic round) (n : Nat) (c : ColumnRef)
    (h : answersWithin round n c = true) : answersWithin round (n + 1) c = true := by
  induction n generalizing c with
  | zero => cases h
  | succ n ih => exact hmono _ _ ih c h

/-- The columns among the first ones about which there is an answer. -/
def found (round : (ColumnRef → Bool) → ColumnRef → Bool) (size n : Nat) : Finset Nat :=
  (Finset.range size).filter fun i => answersWithin round n ⟨i⟩ = true

theorem found_subset (hmono : Monotonic round) (n : Nat) :
    found round size n ⊆ found round size (n + 1) := by
  intro i hi
  simp only [found, Finset.mem_filter] at hi ⊢
  exact ⟨hi.1, answersWithin_succ_of hmono n _ hi.2⟩

/-- Once there is no new answer about the first columns there is none about the others, which are
known from the first round on. -/
theorem answersWithin_eq_of_found (hbeyond : ∀ c, size ≤ c.index → ∀ f g, round f c = round g c)
    {n : Nat} (h : found round size (n + 2) = found round size (n + 1)) :
    answersWithin round (n + 2) = answersWithin round (n + 1) := by
  funext c
  by_cases hc : c.index < size
  · have hmem : ∀ k, c.index ∈ found round size k ↔ answersWithin round k c = true := fun k => by
      simp [found, hc]
    rw [Bool.eq_iff_iff, ← hmem, ← hmem, h]
  · exact hbeyond c (Nat.le_of_not_lt hc) _ _

theorem answersWithin_stable {n : Nat}
    (h : answersWithin round (n + 1) = answersWithin round n) :
    answersWithin round (n + 2) = answersWithin round (n + 1) :=
  congrArg round h

/-- As long as there is something new, there is an answer about more and more columns. -/
theorem stable_or_le_card (hmono : Monotonic round)
    (hbeyond : ∀ c, size ≤ c.index → ∀ f g, round f c = round g c) (n : Nat) :
    answersWithin round (n + 2) = answersWithin round (n + 1) ∨
      n ≤ (found round size (n + 1)).card := by
  induction n with
  | zero => exact .inr (Nat.zero_le _)
  | succ n ih =>
    rcases ih with hstable | hcard
    · exact .inl (answersWithin_stable hstable)
    by_cases heq : found round size (n + 2) = found round size (n + 1)
    · exact .inl (answersWithin_stable (answersWithin_eq_of_found hbeyond heq))
    · have hssubset : found round size (n + 1) ⊂ found round size (n + 2) :=
        Finset.ssubset_iff_subset_ne.mpr ⟨found_subset hmono _, Ne.symm heq⟩
      exact .inr (Nat.lt_of_le_of_lt hcard (Finset.card_lt_card hssubset))

/-- After as many rounds as there are columns and one more, nothing new is learnt. -/
theorem answersWithin_eq (hmono : Monotonic round)
    (hbeyond : ∀ c, size ≤ c.index → ∀ f g, round f c = round g c) {n : Nat} (hn : size < n) :
    answersWithin round n = answersWithin round (size + 1) := by
  have hfixed : answersWithin round (size + 2) = answersWithin round (size + 1) := by
    rcases stable_or_le_card hmono hbeyond size with hstable | hcard
    · exact hstable
    · have hsubset : ∀ n, found round size n ⊆ Finset.range size :=
        fun n => Finset.filter_subset _ _
      have hall : found round size (size + 1) = Finset.range size :=
        Finset.eq_of_subset_of_card_le (hsubset _) (by rwa [Finset.card_range])
      refine answersWithin_eq_of_found hbeyond (Finset.Subset.antisymm ?_ (found_subset hmono _))
      rw [hall]
      exact hsubset _
  induction n, hn using Nat.le_induction with
  | base => rfl
  | succ n _ ih => exact (congrArg round ih).trans hfixed

end

namespace Store

variable {s : Store} {f g : ColumnRef → Bool}

/-- A column that is not there has the absent value for an expression. -/
theorem expression_of_le {c : ColumnRef} (h : s.columns.size ≤ c.index) :
    (s.column c).expression = .value ⟨.undefined, .null⟩ := by
  rw [column, Array.getElem?_eq_none h]
  rfl

/-! ## Types -/

/-- The column whose expression has the type of a scalar, if there is one. -/
def typedBy? (s : Store) : Scalar → Option ColumnRef
  | .column c => some c
  | .query q => (s.query q).columns.head?
  | _ => none

theorem typeWithin_of_none {e : Scalar} (h : s.typedBy? e = none) (n : Nat) :
    s.typeWithin n e = s.typeWithin 0 e := by
  cases e with
  | column c => cases h
  | query q =>
    have hcolumns : (s.query q).columns = [] := List.head?_eq_none_iff.mp h
    cases n with
    | zero => rfl
    | succ n => simp only [typeWithin, hcolumns]
  | _ => cases n <;> rfl

theorem typeWithin_zero_of_some {e : Scalar} {c : ColumnRef} (h : s.typedBy? e = some c) :
    s.typeWithin 0 e = .undefined := by
  cases e with
  | column | query => rfl
  | _ => cases h

theorem typeWithin_succ_of_some {e : Scalar} {c : ColumnRef} (h : s.typedBy? e = some c)
    (n : Nat) : s.typeWithin (n + 1) e = s.typeWithin n (s.column c).expression := by
  cases e with
  | column found =>
    cases h
    rfl
  | query q =>
    obtain ⟨rest, hcolumns⟩ := List.head?_eq_some_iff.mp h
    rw [typeWithin, hcolumns]
  | _ => cases h

/-- Whether a scalar has a type, given for which columns the expression has. -/
def typedGiven (s : Store) (known : ColumnRef → Bool) (e : Scalar) : Bool :=
  (s.typedBy? e).all known

/-- Whether the type of a column is found by following at most some columns. -/
def typedWithin (s : Store) : Nat → ColumnRef → Bool :=
  answersWithin fun known c => s.typedGiven known (s.column c).expression

theorem typeWithin_succ_of_typed {n : Nat} {e : Scalar}
    (h : s.typedGiven (s.typedWithin n) e = true) : s.typeWithin (n + 1) e = s.typeWithin n e := by
  induction n generalizing e with
  | zero =>
    cases hnext : s.typedBy? e with
    | none => exact typeWithin_of_none hnext 1
    | some c =>
      rw [typedGiven, hnext] at h
      cases h
  | succ n ih =>
    cases hnext : s.typedBy? e with
    | none => rw [typeWithin_of_none hnext, typeWithin_of_none hnext (n + 1)]
    | some c =>
      rw [typedGiven, hnext] at h
      rw [typeWithin_succ_of_some hnext, typeWithin_succ_of_some hnext, ih h]

theorem typeWithin_of_untyped {n : Nat} {e : Scalar}
    (h : s.typedGiven (s.typedWithin n) e = false) : s.typeWithin n e = .undefined := by
  induction n generalizing e with
  | zero =>
    cases hnext : s.typedBy? e with
    | none =>
      rw [typedGiven, hnext] at h
      cases h
    | some c => exact typeWithin_zero_of_some hnext
  | succ n ih =>
    cases hnext : s.typedBy? e with
    | none =>
      rw [typedGiven, hnext] at h
      cases h
    | some c =>
      rw [typedGiven, hnext] at h
      rw [typeWithin_succ_of_some hnext, ih h]

/-- A scalar has the same type however many more columns may be followed than there are. -/
theorem typeWithin_eq {n : Nat} (hn : s.columns.size < n) (e : Scalar) :
    s.typeWithin n e = s.typeOf e := by
  have hmono : Monotonic fun known c => s.typedGiven known (s.column c).expression := by
    intro f g hfg c h
    change (s.typedBy? (s.column c).expression).all f = true at h
    change (s.typedBy? (s.column c).expression).all g = true
    cases hnext : s.typedBy? (s.column c).expression with
    | none => rfl
    | some d =>
      rw [hnext] at h
      exact hfg d h
  have hbeyond : ∀ c : ColumnRef, s.columns.size ≤ c.index → ∀ f g : ColumnRef → Bool,
      s.typedGiven f (s.column c).expression = s.typedGiven g (s.column c).expression :=
    fun c hc f g => by rw [expression_of_le hc]; rfl
  induction n, hn using Nat.le_induction with
  | base => rfl
  | succ n hn ih =>
    rw [← ih]
    have hsame : s.typedWithin (n + 1) = s.typedWithin n :=
      (answersWithin_eq hmono hbeyond (Nat.lt_succ_of_lt hn)).trans
        (answersWithin_eq hmono hbeyond hn).symm
    cases htyped : s.typedGiven (s.typedWithin n) e with
    | true => exact typeWithin_succ_of_typed htyped
    | false =>
      rw [typeWithin_of_untyped htyped, typeWithin_of_untyped (hsame ▸ htyped)]

/-! ## Nullable columns -/

theorem anyNullableBy_eq (items : List Scalar) :
    s.anyNullableBy f items = items.any (s.nullableBy f) := by
  induction items with
  | nil => rfl
  | cons e rest ih => rw [anyNullableBy, ih, List.any_cons]

mutual

/-- The more columns may be absent, the more scalars may. -/
theorem nullableBy_mono (h : ∀ c, f c = true → g c = true) (e : Scalar)
    (he : s.nullableBy f e = true) : s.nullableBy g e = true := by
  match e with
  | .column c => exact h c he
  | .function call => exact callNullableBy_mono h call he
  | .binary l op r type =>
    rw [nullableBy, Bool.or_eq_true] at he ⊢
    exact he.imp (nullableBy_mono h l) (nullableBy_mono h r)
  | .raw format args type precedence => exact anyNullableBy_mono h args he
  | .convert target source e keep => exact nullableBy_mono h e he
  | .value _ | .parameter _ | .field _ | .query _ | .condition _ | .type _ | .row _ | .allFields _
  | .tableSource _ | .deferredName _ => exact he
termination_by structural e

theorem anyNullableBy_mono (h : ∀ c, f c = true → g c = true) (items : List Scalar)
    (hitems : s.anyNullableBy f items = true) : s.anyNullableBy g items = true := by
  match items with
  | [] => exact hitems
  | e :: rest =>
    rw [anyNullableBy, Bool.or_eq_true] at hitems ⊢
    exact hitems.imp (nullableBy_mono h e) (anyNullableBy_mono h rest)
termination_by structural items

theorem callNullableBy_mono (h : ∀ c, f c = true → g c = true) (call : Call)
    (hcall : s.callNullableBy f call = true) : s.callNullableBy g call = true := by
  match call with
  | ⟨name, args, type, true, keep⟩ => exact hcall
  | ⟨name, args, type, false, keep⟩ => exact anyNullableBy_mono h args hcall
termination_by structural call

end

theorem columnNullableWithin_eq_answers (n : Nat) :
    s.columnNullableWithin n =
      answersWithin (fun known c => s.nullableBy known (s.column c).expression) n := by
  induction n with
  | zero => rfl
  | succ n ih =>
    funext c
    rw [columnNullableWithin, ih, answersWithin]

/-- Following more columns than there are finds no other column that can be absent. -/
theorem columnNullableWithin_eq {n : Nat} (hn : s.columns.size < n) :
    s.columnNullableWithin n = s.columnNullableWithin (s.columns.size + 1) := by
  have hmono : Monotonic fun known c => s.nullableBy known (s.column c).expression :=
    fun f g hfg c h => nullableBy_mono hfg _ h
  have hbeyond : ∀ c : ColumnRef, s.columns.size ≤ c.index → ∀ f g : ColumnRef → Bool,
      s.nullableBy f (s.column c).expression = s.nullableBy g (s.column c).expression :=
    fun c hc f g => by rw [expression_of_le hc]; rfl
  rw [columnNullableWithin_eq_answers, columnNullableWithin_eq_answers]
  exact answersWithin_eq hmono hbeyond hn

/-- A column may be absent if its expression may. -/
theorem canBeNull_column (c : ColumnRef) :
    s.canBeNull (.column c) = s.canBeNull (s.column c).expression := by
  have hnext : s.columnNullableWithin (s.columns.size + 2) =
      s.columnNullableWithin (s.columns.size + 1) :=
    columnNullableWithin_eq (Nat.lt_succ_of_lt (Nat.lt_succ_self _))
  exact (congrFun hnext c).symm

end Store

end SqlCompiler
