import SqlCompiler.Proofs.Semantics.Evaluation
import SqlCompiler.Render.Expression

/-!
# Tests for membership in a list

A test for membership is printed as comparisons with lists that a provider accepts, `x IN (…)`,
and perhaps a test for absence.  In SQL a comparison with what is absent is unknown; for the
program that states the query, what is absent is equal to what is absent.

Main results:

- Definition `ListTest`: a test as it is printed, with its truth in SQL.
- Theorem `printMembership_eq`: membership is printed as such a test.
- Theorem `ListTest.truth_of`: its truth does not depend on the sizes of its lists.
- Theorem `ListTest.truth_of_positive`: it has the truth of membership, or is unknown.
-/

namespace SqlCompiler

/-! ## Values in lists -/

namespace Truth

@[simp]
theorem false_or (a : Truth) : or (some false) a = a := by
  rcases a with _ | _ | _ <;> rfl

theorem not_or (a b : Truth) : not (or a b) = and (not a) (not b) := by
  rcases a with _ | _ | _ <;> rcases b with _ | _ | _ <;> rfl

end Truth

namespace Interpretation

variable {V : Type} (I : Interpretation V)

/-- Whether a value is in a list for the program: what is absent is equal to what is absent. -/
def contains (v : V) (items : List V) : Bool :=
  items.any fun item => if I.isNull item then I.isNull v else I.compare .equal v item == some true

/-- The truth of `v IN (…)`: one of the comparisons with the items is true. -/
def among (v : V) (items : List V) : Truth :=
  items.foldr (fun item acc => Truth.or (I.compare .equal v item) acc) (some false)

/-- Whether `v IN (…)` is unknown, where a nullable operand is also tested for absence if an item
is absent, and absent items are left out of the lists. -/
def unseen (nullable : Bool) (v : V) (items : List V) : Bool :=
  !items.isEmpty &&
    if nullable then I.isNull v && !items.any I.isNull
    else I.isNull v || (items.any I.isNull && !I.contains v items)

/-- The truth of a test for membership, or of one for its negation: as it is in SQL, or as it is for
the program, where a comparison may still not see an absent operand if the test says so. -/
def listed (withNull : Option Bool) (negated : Bool) (v : V) (items : List V) : Truth :=
  match withNull with
  | none => if negated then Truth.not (I.among v items) else I.among v items
  | some seesNull =>
    if (negated && seesNull) || !I.unseen true v items then some (I.contains v items != negated)
    else none

/-- Comparisons for equality are unknown exactly if an operand is absent. -/
def DecidesEquality : Prop :=
  ∀ a b, I.compare .equal a b = none ↔ I.isNull a = true ∨ I.isNull b = true

variable {I} {v : V} {items : List V}

@[simp]
theorem among_nil : I.among v [] = some false := rfl

@[simp]
theorem among_cons {item : V} :
    I.among v (item :: items) = Truth.or (I.compare .equal v item) (I.among v items) := rfl

theorem contains_cons {item : V} :
    I.contains v (item :: items) =
      ((if I.isNull item then I.isNull v else I.compare .equal v item == some true) ||
        I.contains v items) := rfl

theorem among_append {others : List V} :
    I.among v (items ++ others) = Truth.or (I.among v items) (I.among v others) := by
  induction items with
  | nil => rw [List.nil_append, among_nil, Truth.false_or]
  | cons item rest ih => rw [List.cons_append, among_cons, among_cons, ih, Truth.or_assoc]

/-- What is absent is not known to be in a list that has items. -/
theorem among_of_isNull (hI : I.DecidesEquality) (hv : I.isNull v = true) (hitems : items ≠ []) :
    I.among v items = none := by
  induction items with
  | nil => exact absurd rfl hitems
  | cons item rest ih =>
    have hcompare : I.compare .equal v item = none := (hI v item).mpr (.inl hv)
    rw [among_cons, hcompare]
    cases rest with
    | nil => rfl
    | cons other rest => rw [ih (by simp)]; rfl

/-- What is present is in a list, or is not, which is unknown if an item is absent. -/
theorem among_of_present (hI : I.DecidesEquality) (hv : I.isNull v = false) :
    I.among v items = if I.contains v items then some true
      else if items.any I.isNull then none else some false := by
  induction items with
  | nil => rfl
  | cons item rest ih =>
    rw [among_cons, ih, contains_cons, List.any_cons]
    cases hitem : I.isNull item with
    | true =>
      have hcompare : I.compare .equal v item = none := (hI v item).mpr (.inr hitem)
      rw [hcompare, hv]
      cases I.contains v rest <;> cases rest.any I.isNull <;> rfl
    | false =>
      cases hcompare : I.compare .equal v item with
      | none =>
        have hnull := (hI v item).mp hcompare
        rw [hv, hitem] at hnull
        simp at hnull
      | some b =>
        cases b <;> cases I.contains v rest <;> cases rest.any I.isNull <;> rfl

/-- What is present is in a list if it is in the part that is present. -/
theorem contains_filter (hv : I.isNull v = false) :
    I.contains v (items.filter fun item => !I.isNull item) = I.contains v items := by
  induction items with
  | nil => rfl
  | cons item rest ih =>
    rw [contains_cons, ← ih]
    cases hitem : I.isNull item with
    | true => simp [hitem, hv]
    | false => simp [hitem, contains_cons]

/-- What is present is known to be in the present items, or not to be. -/
theorem among_filter (hI : I.DecidesEquality) (hv : I.isNull v = false) :
    I.among v (items.filter fun item => !I.isNull item) = some (I.contains v items) := by
  have hnone : (items.filter fun item => !I.isNull item).any I.isNull = false := by
    simp
  rw [among_of_present hI hv, contains_filter hv, hnone]
  cases I.contains v items <;> rfl

/-- What is absent is in a list if an item is absent. -/
theorem contains_of_isNull (hI : I.DecidesEquality) (hv : I.isNull v = true) :
    I.contains v items = items.any I.isNull := by
  induction items with
  | nil => rfl
  | cons item rest ih =>
    rw [contains_cons, ih, List.any_cons, (hI v item).mpr (.inl hv), hv]
    cases I.isNull item <;> rfl

/-- If all items are absent, what is in a list is what is absent. -/
theorem contains_of_filter_nil (hI : I.DecidesEquality) (hitems : items ≠ [])
    (hnil : (items.filter fun item => !I.isNull item) = []) :
    I.contains v items = I.isNull v ∧ items.any I.isNull = true := by
  have hany : items.any I.isNull = true := by
    obtain ⟨item, hitem⟩ := List.exists_mem_of_ne_nil items hitems
    exact List.any_eq_true.mpr ⟨item, hitem, by simpa using List.filter_eq_nil_iff.mp hnil item hitem⟩
  refine ⟨?_, hany⟩
  cases hv : I.isNull v with
  | true => rw [contains_of_isNull hI hv, hany]
  | false =>
    rw [← contains_filter hv, hnil]
    rfl

/-- A comparison with a list has the truth of membership, or is unknown. -/
theorem among_eq (hI : I.DecidesEquality) :
    I.among v items = if I.unseen false v items then none else some (I.contains v items) := by
  by_cases hitems : items = []
  · subst hitems
    rfl
  have hempty : items.isEmpty = false := by simpa using hitems
  simp only [unseen, hempty, Bool.not_false, Bool.true_and, Bool.false_eq_true, if_false]
  cases hv : I.isNull v with
  | true => exact among_of_isNull hI hv hitems
  | false =>
    rw [among_of_present hI hv]
    cases I.contains v items <;> cases items.any I.isNull <;> rfl

/-- For the program, a test holds exactly for what is in the list, or is not. -/
theorem listed_eq_true_iff (hI : I.DecidesEquality) (negated : Bool) :
    I.listed (some true) negated v items = some true ↔ I.contains v items = !negated := by
  cases negated with
  | true => simp [listed]
  | false =>
    cases hunseen : I.unseen true v items with
    | false => simp [listed, hunseen]
    | true =>
      simp only [unseen, if_true, Bool.and_eq_true, Bool.not_eq_true'] at hunseen
      obtain ⟨-, hv, hnone⟩ := hunseen
      simp [listed, unseen, contains_of_isNull hI hv, hv, hnone]

end Interpretation

/-! ## Tests as they are printed -/

/-- A test for membership as it is printed. -/
inductive ListTest (α : Type) where
  /-- `1 = 1` or `1 = 0`. -/
  | decided (holds : Bool)
  /-- `x IS NULL`, or `x IS NOT NULL` if negated. -/
  | absent (negated : Bool)
  /-- `x IN (…)` for each list, joined by `OR`, or `x NOT IN (…)`, joined by `AND`; then perhaps
  `OR x IS NULL`, or `AND x IS NOT NULL` if the flag says so. -/
  | lists (negated : Bool) (parts : List (List α)) (absence : Option Bool)

/-! ## Cutting lists -/

theorem flatten_chunksWithin {α : Type} {size fuel : Nat} {items : List α} (hsize : 1 ≤ size)
    (hfuel : items.length ≤ fuel) : (chunksWithin size fuel items).flatten = items := by
  induction fuel generalizing items with
  | zero =>
    obtain rfl : items = [] := List.length_eq_zero_iff.mp (by omega)
    rfl
  | succ fuel ih =>
    cases items with
    | nil => rfl
    | cons first rest =>
      have hrest : ((first :: rest).drop size).length ≤ fuel := by
        rw [List.length_drop]
        rw [List.length_cons] at hfuel ⊢
        omega
      rw [chunksWithin, List.flatten_cons, ih hrest, List.take_append_drop]
      · simp

/-- Lists that are cut to size hold what was cut. -/
theorem flatten_chunks {α : Type} (size : Nat) (items : List α) :
    (chunks size items).flatten = items :=
  flatten_chunksWithin (Nat.le_max_right size 1) (Nat.le_refl _)

/-- The parts of a list are of the given length at most, and none of them is empty. -/
theorem mem_chunksWithin {α : Type} {size fuel : Nat} {items part : List α} (hsize : 1 ≤ size)
    (h : part ∈ chunksWithin size fuel items) : part ≠ [] ∧ part.length ≤ size := by
  induction fuel generalizing items with
  | zero => exact absurd h List.not_mem_nil
  | succ fuel ih =>
    cases items with
    | nil => exact absurd h List.not_mem_nil
    | cons first rest =>
      rw [chunksWithin] at h
      · rcases List.mem_cons.mp h with rfl | h
        · refine ⟨?_, List.length_take_le _ _⟩
          rw [Ne, List.take_eq_nil_iff]
          rintro (rfl | h)
          · exact absurd hsize (by decide)
          · cases h
        · exact ih h
      · simp

theorem chunks_ne_nil {α : Type} (size : Nat) {items : List α} (h : items ≠ []) :
    chunks size items ≠ [] := by
  intro hnil
  have hflatten := flatten_chunks size items
  rw [hnil] at hflatten
  exact h hflatten.symm

namespace ListTest

variable {α V : Type}

/-- The test that some items are printed as, in lists of at most `size`.  Items that are absent
are left out if the operand may be absent. -/
def of (isAbsent : α → Bool) (canBeNull : Bool) (size : Nat → Nat) (items : List α)
    (negated : Bool) (withNull : Option Bool) : ListTest α :=
  if items.isEmpty then decided negated
  else
    let present := if withNull.isSome then items.filter fun item => !isAbsent item else items
    if present.isEmpty then absent negated
    else
      let absence : Option Bool :=
        if present.length != items.length then some negated
        else if withNull == some true && negated && canBeNull then some false
        else none
      lists negated (chunks (size present.length) present) absence

/-- The lists of a test. -/
def parts : ListTest α → List (List α)
  | lists _ parts _ => parts
  | _ => []

/-- Print a test. -/
def print (printOperand : Print Unit) (printItems : List α → Print Unit) :
    ListTest α → Print Unit
  | decided holds => Print.text (if holds then "1 = 1" else "1 = 0")
  | absent negated => do
    printOperand
    Print.text (absenceTest negated)
  | lists negated parts absence =>
    Print.parenthesized (parts.length > 1 || absence.isSome) do
      Print.separated (if negated then " AND " else " OR ") (parts.map fun part => do
        printOperand
        Print.text (if negated then " NOT IN (" else " IN (")
        printItems part
        Print.text ")")
      match absence with
      | none => pure ()
      | some present =>
        Print.text (if present then " AND " else " OR ")
        printOperand
        Print.text (absenceTest present)

/-- The truth in SQL of a test of a value. -/
def truth (I : Interpretation V) (v : V) (value : α → V) : ListTest α → Truth
  | decided holds => some holds
  | absent negated => some (I.isNull v != negated)
  | lists negated parts absence =>
    let one (part : List α) : Truth := I.among v (part.map value)
    let joined : Truth :=
      if negated then parts.foldr (fun part acc => Truth.and (Truth.not (one part)) acc) (some true)
      else parts.foldr (fun part acc => Truth.or (one part) acc) (some false)
    match absence with
    | none => joined
    | some true => Truth.and joined (some !I.isNull v)
    | some false => Truth.or joined (some (I.isNull v))

variable {I : Interpretation V} {v : V} {value : α → V} {items : List α} {size : Nat → Nat}
  {isAbsent : α → Bool} {canBeNull : Bool}

/-! ## The lists of a test -/

section

variable {negated : Bool} {withNull : Option Bool}

/-- A test of a list that has items is not decided. -/
theorem of_ne_decided (hitems : items ≠ []) (holds : Bool) :
    ListTest.of isAbsent canBeNull size items negated withNull ≠ decided holds := by
  have hempty : items.isEmpty = false := by simpa using hitems
  unfold ListTest.of
  generalize (if withNull.isSome then items.filter fun item => !isAbsent item else items) = present
  simp only [hempty, Bool.false_eq_true, if_false]
  split <;> exact nofun

/-- The lists of a test hold its items, or the present ones, in their order. -/
theorem flatten_parts :
    (ListTest.of isAbsent canBeNull size items negated withNull).parts.flatten =
      if withNull.isSome then items.filter fun item => !isAbsent item else items := by
  have hnil (h : items.isEmpty = true) :
      (if withNull.isSome then items.filter fun item => !isAbsent item else items) = [] := by
    obtain rfl := List.isEmpty_iff.mp h
    split <;> rfl
  unfold ListTest.of
  generalize (if withNull.isSome then items.filter fun item => !isAbsent item else items) = present
    at hnil ⊢
  split
  · next hempty => exact (hnil hempty).symm
  · dsimp only
    split
    · next hpresent => exact (List.isEmpty_iff.mp hpresent).symm
    · exact flatten_chunks _ _

variable {part : List α}

/-- The lists of a test are cut from one. -/
theorem exists_chunks (h : part ∈ (ListTest.of isAbsent canBeNull size items negated withNull).parts) :
    ∃ present, part ∈ chunks (size present.length) present := by
  unfold ListTest.of at h
  generalize (if withNull.isSome then items.filter fun item => !isAbsent item else items) = present
    at h
  split at h
  · exact absurd h List.not_mem_nil
  · dsimp only at h
    split at h
    · exact absurd h List.not_mem_nil
    · exact ⟨present, h⟩

theorem mem_parts_ne_nil
    (h : part ∈ (ListTest.of isAbsent canBeNull size items negated withNull).parts) : part ≠ [] := by
  obtain ⟨present, hpart⟩ := exists_chunks h
  exact (mem_chunksWithin (Nat.le_max_right _ 1) hpart).1

/-- No list of a test has too many items. -/
theorem length_le_of_mem_parts {limit : Nat} (hsize : ∀ n, size n ≤ limit)
    (h : part ∈ (ListTest.of isAbsent canBeNull size items negated withNull).parts) :
    part.length ≤ max limit 1 := by
  obtain ⟨present, hpart⟩ := exists_chunks h
  have hlength := (mem_chunksWithin (Nat.le_max_right _ 1) hpart).2
  have hlimit := hsize present.length
  omega

end

/-! ## The truth of a test -/

/-- Lists that are cut from one say together what it says. -/
theorem truth_lists (negated : Bool) (parts : List (List α)) :
    (lists negated parts none).truth I v value =
      if negated then Truth.not (I.among v (parts.flatten.map value))
      else I.among v (parts.flatten.map value) := by
  induction parts with
  | nil => cases negated <;> rfl
  | cons part rest ih =>
    cases negated with
    | true =>
      simp only [truth, if_true, List.foldr_cons, List.flatten_cons, List.map_append,
        Interpretation.among_append, Truth.not_or] at ih ⊢
      rw [ih]
    | false =>
      simp only [truth, Bool.false_eq_true, if_false, List.foldr_cons, List.flatten_cons,
        List.map_append, Interpretation.among_append] at ih ⊢
      rw [ih]

/-- A test for absence after lists. -/
theorem truth_absence (negated : Bool) (parts : List (List α)) (present : Bool) :
    (lists negated parts (some present)).truth I v value =
      if present then Truth.and ((lists negated parts none).truth I v value) (some !I.isNull v)
      else Truth.or ((lists negated parts none).truth I v value) (some (I.isNull v)) := by
  cases present <;> rfl

theorem length_filter_ne (values : List V) (p : V → Bool) :
    ((values.filter fun item => !p item).length != values.length) = values.any p := by
  cases hany : values.any p with
  | true =>
    obtain ⟨item, hitem, hp⟩ := List.any_eq_true.mp hany
    have hlt : (values.filter fun item => !p item).length < values.length :=
      List.length_filter_lt_length_iff_exists.mpr ⟨item, hitem, by simp [hp]⟩
    simp only [bne_iff_ne]
    omega
  | false =>
    have hall : values.filter (fun item => !p item) = values :=
      List.filter_eq_self.mpr fun item hitem => by simp [List.any_eq_false.mp hany item hitem]
    rw [hall]
    simp

/-- Where nothing is asked about what is absent, the operand is compared with all items. -/
theorem truth_of_plain (negated : Bool) :
    (ListTest.of isAbsent canBeNull size items negated none).truth I v value =
      I.listed none negated v (items.map value) := by
  by_cases hitems : items = []
  · subst hitems
    cases negated <;> rfl
  have hempty : items.isEmpty = false := by simpa using hitems
  unfold ListTest.of
  simp only [hempty, Bool.false_eq_true, if_false, Option.isSome_none, bne_self_eq_false]
  rw [show (none == some true) = false from rfl, Bool.false_and, Bool.false_and,
    if_neg (by simp), truth_lists, flatten_chunks]
  rfl

/-- The truth of the comparisons with lists of what is present, and of the test for absence that goes
with them. -/
theorem truth_of_present (habsent : ∀ item ∈ items, isAbsent item = I.isNull (value item))
    (hitems : items ≠ []) (negated seesNull : Bool) :
    let values := items.map value
    let present := values.filter fun item => !I.isNull item
    let comparison :=
      if negated then Truth.not (I.among v present) else I.among v present
    (ListTest.of isAbsent canBeNull size items negated (some seesNull)).truth I v value =
      if present.isEmpty then some (I.isNull v != negated)
      else if values.any I.isNull then
        if negated then Truth.and comparison (some !I.isNull v)
        else Truth.or comparison (some (I.isNull v))
      else if negated && seesNull && canBeNull then Truth.or comparison (some (I.isNull v))
      else comparison := by
  intro values present comparison
  have hempty : items.isEmpty = false := by simpa using hitems
  have hpresent : (items.filter fun item => !isAbsent item).map value = present := by
    rw [List.filter_congr fun item hitem => congrArg (!·) (habsent item hitem)]
    change _ = (items.map value).filter _
    rw [List.filter_map]
    rfl
  have hlength : (items.filter fun item => !isAbsent item).length = present.length := by
    rw [← hpresent, List.length_map]
  have hsome : (present.length != items.length) = values.any I.isNull := by
    rw [show items.length = values.length from (List.length_map value).symm]
    exact length_filter_ne values I.isNull
  have hnone : (items.filter fun item => !isAbsent item).isEmpty = present.isEmpty := by
    rw [← hpresent, List.isEmpty_map]
  have hsees : (some seesNull == some true) = seesNull := by cases seesNull <;> rfl
  unfold ListTest.of
  simp only [hempty, Bool.false_eq_true, if_false, Option.isSome_some, if_true, hlength, hsome,
    hnone, hsees]
  cases present.isEmpty with
  | true => rfl
  | false =>
    simp only [Bool.false_eq_true, if_false]
    have hlists := @truth_lists _ _ I v value negated
      (chunks (size present.length) (items.filter fun item => !isAbsent item))
    rw [flatten_chunks, hpresent] at hlists
    rw [Bool.and_comm seesNull negated]
    cases values.any I.isNull <;> cases negated <;> cases seesNull <;> cases canBeNull <;>
      simp only [truth_absence, hlists, comparison, Bool.false_eq_true, Bool.and_true,
        Bool.and_false, if_false, if_true]

/-- The truth of a test does not depend on the sizes of its lists.  That an operand may not be
absent is made use of only where it is not. -/
theorem truth_of (hI : I.DecidesEquality)
    (habsent : ∀ item ∈ items, isAbsent item = I.isNull (value item))
    (hsound : canBeNull = false → I.isNull v = false) (negated : Bool) (withNull : Option Bool) :
    (ListTest.of isAbsent canBeNull size items negated withNull).truth I v value =
      I.listed withNull negated v (items.map value) := by
  cases withNull with
  | none => exact truth_of_plain negated
  | some seesNull =>
    by_cases hitems : items = []
    · subst hitems
      cases negated <;> cases seesNull <;> rfl
    have hvalues : items.map value ≠ [] := by simpa using hitems
    have hempty : (items.map value).isEmpty = false := by simpa using hvalues
    rw [truth_of_present habsent hitems negated seesNull]
    by_cases hnil : ((items.map value).filter fun item => !I.isNull item) = []
    · obtain ⟨hcontains, hany⟩ := Interpretation.contains_of_filter_nil (v := v) hI hvalues hnil
      simp [hnil, Interpretation.listed, Interpretation.unseen, hcontains, hany]
    · have hsome : ((items.map value).filter fun item => !I.isNull item).isEmpty = false := by
        simpa using hnil
      simp only [hsome, Bool.false_eq_true, if_false, Interpretation.listed,
        Interpretation.unseen, hempty, Bool.not_false, Bool.true_and, if_true]
      cases hv : I.isNull v with
      | true =>
        have hnullable : canBeNull = true := by
          cases hcan : canBeNull with
          | true => rfl
          | false => exact absurd (hsound hcan) (by simp [hv])
        rw [Interpretation.among_of_isNull hI hv hnil, Interpretation.contains_of_isNull hI hv,
          hnullable]
        cases (items.map value).any I.isNull <;> cases negated <;> cases seesNull <;> rfl
      | false =>
        rw [Interpretation.among_filter hI hv]
        cases I.contains v (items.map value) <;> cases (items.map value).any I.isNull <;>
          cases negated <;> cases seesNull <;> cases canBeNull <;> rfl

/-- Whether the operand may be absent matters for a negated test only. -/
theorem of_positive (withNull : Option Bool) :
    ListTest.of isAbsent canBeNull size items false withNull =
      ListTest.of isAbsent true size items false withNull := by
  simp [ListTest.of]

/-- The truth of a test is that of the membership of its operand, or unknown: the comparison with
lists does not see that an absent operand is in none of them, and with an absent item in a list
it does not see that an operand is in none of them. -/
theorem truth_of_positive (hI : I.DecidesEquality)
    (habsent : ∀ item ∈ items, isAbsent item = I.isNull (value item)) (nullable : Bool) :
    (ListTest.of isAbsent canBeNull size items false (if nullable then some true else none)).truth
        I v value =
      if I.unseen nullable v (items.map value) then none
      else some (I.contains v (items.map value)) := by
  have hsound : true = false → I.isNull v = false := fun h => nomatch h
  rw [of_positive, truth_of hI habsent hsound]
  cases nullable with
  | false => exact Interpretation.among_eq hI
  | true =>
    simp only [Interpretation.listed, if_true, Bool.false_and, Bool.false_or, Bool.bne_false]
    cases I.unseen true v (items.map value) <;> rfl

end ListTest

/-! ## Printing -/

theorem length_scalarPrinters (next : NextLevel) (items : List Scalar) :
    (scalarPrinters next items).length = items.length := by
  induction items with
  | nil => rfl
  | cons e rest ih => rw [scalarPrinters, List.length_cons, List.length_cons, ih]

/-- The test that membership in a list is printed as in a frame. -/
def Frame.listTest (frame : Frame) (operand : Scalar) (items : List (Scalar × Printer))
    (negated : Bool) (withNull : Option Bool) : ListTest (Scalar × Printer) :=
  .of (fun item => item.1.isNullConstant) (frame.store.canBeNull operand)
    (fun length => (frame.options.maxInListValues <|> frame.capabilities.maxInListValues).getD length)
    items negated withNull

/-- Membership of a value in a list that has items is printed as a test. -/
theorem printValueMembership_eq (operand : Scalar) (printOperand : Print Unit)
    {items : List (Scalar × Printer)} (hitems : items.isEmpty = false) (negated : Bool)
    (withNull : Option Bool) (frame : Frame) :
    printValueMembership operand printOperand items negated withNull frame =
      (frame.listTest operand items negated withNull).print printOperand
        (fun part => printList (part.map (·.2))) frame := by
  unfold Frame.listTest ListTest.of
  rw [hitems]
  simp only [Bool.false_eq_true, if_false]
  change (if _ then _ else _ : Print Unit) frame = _
  generalize (if withNull.isSome then items.filter fun item => !item.1.isNullConstant else items) =
    present
  generalize (present.length != items.length) = hasNull
  generalize (withNull == some true && negated && frame.store.canBeNull operand) = also
  cases present.isEmpty with
  | true => rfl
  | false =>
    simp only [Bool.false_eq_true, if_false]
    cases hasNull <;> cases negated <;> cases also <;> rfl

/-- Membership of a value is printed as a test. -/
theorem printMembership_eq {operand : Scalar} (hvalue : ∀ t, operand ≠ .tableSource t)
    (printOperand : Print Unit) (items : Option (List (Scalar × Printer))) (negated : Bool)
    (withNull : Option Bool) (frame : Frame) :
    printMembership operand printOperand items negated withNull frame =
      (frame.listTest operand (items.getD []) negated withNull).print printOperand
        (fun part => printList (part.map (·.2))) frame := by
  unfold printMembership
  cases hempty : (items.getD []).isEmpty with
  | true =>
    unfold Frame.listTest ListTest.of
    rw [hempty]
    rfl
  | false =>
    rw [← printValueMembership_eq operand printOperand hempty]
    simp only [Bool.false_eq_true, if_false]

end SqlCompiler
