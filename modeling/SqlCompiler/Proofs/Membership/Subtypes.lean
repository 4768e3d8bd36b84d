import Mathlib.Data.List.Nodup
import Mathlib.Data.List.Pairwise
import SqlCompiler.Proofs.Lowering.Tables
import SqlCompiler.Proofs.Membership.PrintedTests
import SqlCompiler.Proofs.Semantics.LegalConditions

/-!
# Sub types of a table

The rows of a table are told apart by a discriminator: a sub type has the rows with its code, and the
default one those whose discriminator is no code of another sub type.  The condition of a sub type
is a comparison with its code, that of the default one a test that its discriminator is in none of
the lists of codes.  Exactly one of them holds on a row.

Where dates are texts, the discriminator and the code are converted before they are compared, but
not in the lists of the default sub type.  There the conditions may overlap or leave out rows.

Main results:

- Definition `Store.Discriminates`: the sub types of a table are told apart by one scalar.
- Definition `Subtype.Owns`: the values of the discriminator that are of a sub type.
- Definition `Condition.ReadsAs`: the truth that is found in the text of a condition.
- Theorem `Store.HasSubtypes.exists_owner`: one sub type owns a value.
- Theorem `Store.Discriminates.conditions_partition`: the condition of the owner is the only one
  that holds.
-/

namespace SqlCompiler

open Precedence (comparison)

/-! ## Owners of values -/

/-- Values that are equal to one value are equal. -/
def Interpretation.IsEuclidean {V : Type} (I : Interpretation V) : Prop :=
  ∀ a b c, I.compare .equal a b = some true → I.compare .equal a c = some true →
    I.compare .equal b c = some true

/-- A sub type owns its code, and the default one what is no code of another sub type. -/
def Subtype.Owns {V : Type} (I : Interpretation V) (subtypes : List Subtype) (v : V)
    (x : Subtype) : Prop :=
  if x.isDefault then
    ∀ y ∈ subtypes, y.typeName ≠ x.typeName → I.compare .equal v (I.constant y.code) ≠ some true
  else I.compare .equal v (I.constant x.code) = some true

/-- The codes of the other sub types. -/
def Subtype.otherCodes (subtypes : List Subtype) (x : Subtype) : List Constant :=
  (subtypes.filter (·.typeName != x.typeName)).map (·.code)

/-- A value is not the code of two sub types. -/
def Subtype.Apart {V : Type} (I : Interpretation V) (v : V) (x y : Subtype) : Prop :=
  ¬(I.compare .equal v (I.constant x.code) = some true ∧
    I.compare .equal v (I.constant y.code) = some true)

section

variable {V : Type} {I : Interpretation V} {subtypes : List Subtype} {v : V} {x : Subtype}

instance : Decidable (x.Owns I subtypes v) :=
  inferInstanceAs (Decidable (if x.isDefault then _ else _))

instance : Std.Symm (Subtype.Apart I v) := ⟨fun _ _ h hswapped => h ⟨hswapped.2, hswapped.1⟩⟩

theorem Subtype.owns_of_isDefault (h : x.isDefault = true) :
    x.Owns I subtypes v ↔ ∀ y ∈ subtypes, y.typeName ≠ x.typeName →
      I.compare .equal v (I.constant y.code) ≠ some true := by
  rw [Owns, if_pos h]

theorem Subtype.owns_of_not_isDefault (h : x.isDefault = false) :
    x.Owns I subtypes v ↔ I.compare .equal v (I.constant x.code) = some true := by
  rw [Owns, if_neg (by simp [h])]

theorem Subtype.mem_otherCodes {c : Constant} :
    c ∈ x.otherCodes subtypes ↔ ∃ y ∈ subtypes, y.typeName ≠ x.typeName ∧ y.code = c := by
  simp [otherCodes, and_assoc]

theorem Subtype.owns_iff_otherCodes (h : x.isDefault = true) :
    x.Owns I subtypes v ↔
      ∀ c ∈ x.otherCodes subtypes, I.compare .equal v (I.constant c) ≠ some true := by
  rw [owns_of_isDefault h]
  constructor
  · intro howns c hc
    obtain ⟨y, hy, hne, rfl⟩ := mem_otherCodes.mp hc
    exact howns y hy hne
  · intro hcodes y hy hne
    exact hcodes _ (mem_otherCodes.mpr ⟨y, hy, hne, rfl⟩)

end

/-- Whether a scalar is a field or a column. -/
def Scalar.isStored : Scalar → Bool
  | .field _ | .column _ => true
  | _ => false

/-- The sub types of a table have different names, one of them is the default one, and their codes
are values of one discriminator. -/
structure Store.HasSubtypes (s : Store) (t : TableRef) (d : FieldRef) : Prop where
  discriminator : ∀ x ∈ (s.table t).subtypes, x.discriminator = d
  names : ((s.table t).subtypes.map (·.typeName)).Nodup
  codes : ∀ x ∈ (s.table t).subtypes, x.code.isNull = false
  default : ∃ x ∈ (s.table t).subtypes, x.isDefault = true ∧
    ∀ y ∈ (s.table t).subtypes, y.isDefault = true → y = x

/-- The sub types of a table are told apart by a scalar, which a projection has for their
discriminator. -/
structure Store.Discriminates (s : Store) (t : TableRef) (p : Projection) (d : FieldRef)
    (e : Scalar) : Prop extends s.HasSubtypes t d where
  member : ∃ m, p.member (s.field d).name = .ok m ∧ m.asScalar?.getD (.field d) = e
  isStored : e.isStored = true

/-- A row on which no two codes are equal, and the discriminator is absent only if it may be. -/
structure TestRow.Separates {store : Store} {V : Type} (row : TestRow store V)
    (subtypes : List Subtype) (nullable : Bool) (e : Scalar) : Prop where
  euclidean : row.reading.IsEuclidean
  codes : subtypes.Pairwise fun x y =>
    row.reading.compare .equal (row.reading.constant x.code) (row.reading.constant y.code) ≠
      some true
  isNull : nullable = false → row.reading.isNull (row.value e) = false

section

variable {s : Store} {t : TableRef} {p : Projection} {d : FieldRef} {e : Scalar}

theorem Store.HasSubtypes.eq_of_typeName (h : s.HasSubtypes t d) {x y : Subtype}
    (hx : x ∈ (s.table t).subtypes) (hy : y ∈ (s.table t).subtypes)
    (hname : x.typeName = y.typeName) : x = y :=
  List.inj_on_of_nodup_map h.names hx hy hname

/-- A value is the code of one sub type at most. -/
theorem TestRow.Separates.eq_of_code {store : Store} {V : Type} {row : TestRow store V}
    {subtypes : List Subtype} {nullable : Bool} (h : row.Separates subtypes nullable e)
    {x y : Subtype} (hx : x ∈ subtypes) (hy : y ∈ subtypes) {v : V}
    (hvx : row.reading.compare .equal v (row.reading.constant x.code) = some true)
    (hvy : row.reading.compare .equal v (row.reading.constant y.code) = some true) : x = y := by
  have hpairs : subtypes.Pairwise (Subtype.Apart row.reading v) :=
    h.codes.imp fun hxy hv => hxy (h.euclidean v _ _ hv.1 hv.2)
  by_contra hne
  exact hpairs.forall hx hy hne ⟨hvx, hvy⟩

/-- A code of a sub type is owned by no other one. -/
theorem Store.HasSubtypes.eq_of_owns_code (h : s.HasSubtypes t d) {store : Store} {V : Type}
    {row : TestRow store V} {nullable : Bool}
    (hrow : row.Separates (s.table t).subtypes nullable e) {v : V} {x y : Subtype}
    (hx : x ∈ (s.table t).subtypes)
    (hvalue : row.reading.compare .equal v (row.reading.constant x.code) = some true)
    (hy : y ∈ (s.table t).subtypes) (howns : y.Owns row.reading (s.table t).subtypes v) :
    y = x := by
  cases hydefault : y.isDefault with
  | false => exact hrow.eq_of_code hy hx ((Subtype.owns_of_not_isDefault hydefault).mp howns) hvalue
  | true =>
    by_contra hne
    have hname : x.typeName ≠ y.typeName := fun hname => hne (h.eq_of_typeName hx hy hname).symm
    exact (Subtype.owns_of_isDefault hydefault).mp howns x hx hname hvalue

/-- A value that is no code of a sub type but the default one is owned by the default one alone. -/
theorem Store.owns_iff_of_no_code {V : Type}
    {I : Interpretation V} {v : V} {x : Subtype} (hx : x ∈ (s.table t).subtypes)
    (hdefault : x.isDefault = true)
    (hunique : ∀ y ∈ (s.table t).subtypes, y.isDefault = true → y = x)
    (hcode : ∀ y ∈ (s.table t).subtypes, y.isDefault = false →
      I.compare .equal v (I.constant y.code) ≠ some true) {y : Subtype}
    (hy : y ∈ (s.table t).subtypes) : y.Owns I (s.table t).subtypes v ↔ y = x := by
  constructor
  · intro howns
    cases hydefault : y.isDefault with
    | true => exact hunique y hy hydefault
    | false =>
      exact absurd ((Subtype.owns_of_not_isDefault hydefault).mp howns) (hcode y hy hydefault)
  · rintro rfl
    rw [Subtype.owns_of_isDefault hdefault]
    intro z hz hname
    refine hcode z hz (Bool.eq_false_iff.mpr fun hzdefault => hname ?_)
    rw [hunique z hz hzdefault]

/-- Exactly one sub type owns a value. -/
theorem Store.HasSubtypes.exists_owner (h : s.HasSubtypes t d) {store : Store} {V : Type}
    {row : TestRow store V} {nullable : Bool}
    (hrow : row.Separates (s.table t).subtypes nullable e) (v : V) :
    ∃ owner ∈ (s.table t).subtypes, ∀ x ∈ (s.table t).subtypes,
      x.Owns row.reading (s.table t).subtypes v ↔ x = owner := by
  by_cases hcode : ∃ x ∈ (s.table t).subtypes, x.isDefault = false ∧
      row.reading.compare .equal v (row.reading.constant x.code) = some true
  · obtain ⟨x, hx, hdefault, hvalue⟩ := hcode
    refine ⟨x, hx, fun y hy => ⟨h.eq_of_owns_code hrow hx hvalue hy, ?_⟩⟩
    rintro rfl
    exact (Subtype.owns_of_not_isDefault hdefault).mpr hvalue
  · obtain ⟨x, hx, hdefault, hunique⟩ := h.default
    refine ⟨x, hx, fun y hy => Store.owns_iff_of_no_code hx hdefault hunique ?_ hy⟩
    intro z hz hzdefault hvalue
    exact hcode ⟨z, hz, hzdefault, hvalue⟩

/-- The condition of a sub type is the test for it. -/
theorem Store.Discriminates.subtypeCondition_eq (h : s.Discriminates t p d e) {x : Subtype}
    (hx : x ∈ (s.table t).subtypes) :
    subtypeCondition s t p x.typeName = .ok (subtypeTest s (s.table t).subtypes x e) := by
  have hfound := find?_key_eq_of_nodup (·.typeName) h.names hx
  obtain ⟨m, hm, hvalue⟩ := h.member
  unfold subtypeCondition
  simp only [hfound, h.discriminator x hx, hm]
  change Except.ok (subtypeTest s _ x (m.asScalar?.getD (.field d))) = _
  rw [hvalue]

end

/-! ## Mapped sub types -/

section

variable {s : Store} {t : TableRef} {d : FieldRef}

/-- The projection of a table reads the discriminator. -/
theorem Store.HasSubtypes.discriminates (h : s.HasSubtypes t d) (hfield : d ∈ (s.table t).fields)
    (hnames : ((s.fieldsOf t).map (·.name)).Nodup) (name : String) :
    s.Discriminates t (.ofTable s name t) d (.field d) where
  toHasSubtypes := h
  member := by
    let members := (s.table t).fields.map fun f => ((s.field f).name, Scalar.field f)
    have hnodup : (members.map (·.1)).Nodup := by
      rw [Store.fieldsOf, List.map_map] at hnames
      rwa [List.map_map]
    have hmem : ((s.field d).name, Scalar.field d) ∈ members := List.mem_map_of_mem hfield
    have hfound := Members.get?_ofList_of_mem hnodup hmem
    refine ⟨.scalar (.field d), ?_, rfl⟩
    unfold Projection.member Projection.member? Projection.ofTable
    dsimp only at hfound ⊢
    rw [hfound]
    rfl
  isStored := rfl

theorem ColumnMapping.canBeNull_toField (c : ColumnMapping) (t : TableRef) :
    (c.fieldSpec.toField t).canBeNull = c.nullable := by
  unfold ColumnMapping.fieldSpec
  cases c.primaryKey <;> cases c.identity <;> rfl

theorem DiscriminatorCode.isNull_constant (code : DiscriminatorCode) :
    code.constant.isNull = false := by
  cases code <;> rfl

/-- The sub types of an entity that are mapped to the values of one field. -/
theorem EntityMapping.hasSubtypes {e : EntityMapping}
    (hmapped : (s.table t).subtypes =
      e.subtypes.map fun m => ⟨m.typeName, d, m.code.constant, m.isDefault⟩)
    (hnames : (e.subtypes.map (·.typeName)).Nodup)
    (hdefault : ∃ m ∈ e.subtypes, m.isDefault = true ∧
      ∀ n ∈ e.subtypes, n.isDefault = true → n = m) : s.HasSubtypes t d where
  discriminator := by
    rw [hmapped, List.forall_mem_map]
    exact fun _ _ => rfl
  names := by
    rw [hmapped, List.map_map]
    exact hnames
  codes := by
    rw [hmapped, List.forall_mem_map]
    exact fun m _ => m.code.isNull_constant
  default := by
    obtain ⟨m, hm, hdefault, hunique⟩ := hdefault
    rw [hmapped]
    refine ⟨_, List.mem_map_of_mem hm, hdefault, List.forall_mem_map.mpr fun n hn hdefault => ?_⟩
    rw [hunique n hn hdefault]

/-- The sub types of an entity that are mapped to the codes of one column are told apart in its
tables. -/
theorem EntityMapping.instantiate_discriminates {e : EntityMapping} {c : ColumnMapping}
    (hc : c ∈ e.columns) (hcolumns : (e.columns.map (·.member)).Nodup)
    (hdiscriminator : ∀ m ∈ e.subtypes, m.discriminator = c.member)
    (hnames : (e.subtypes.map (·.typeName)).Nodup)
    (hdefault : ∃ m ∈ e.subtypes, m.isDefault = true ∧
      ∀ n ∈ e.subtypes, n.isDefault = true → n = m) (s : Store) (name : String) :
    ∃ t s' d, e.instantiate.runOn s = (.ok t, s') ∧
      s'.Discriminates t (.ofTable s' name t) d (.field d) ∧ (s'.field d).canBeNull = c.nullable ∧
      (s'.table t).subtypes =
        e.subtypes.map fun m => ⟨m.typeName, d, m.code.constant, m.isDefault⟩ := by
  obtain ⟨t, s', hrun, hfields, -, hsubtypes, -, -⟩ := e.instantiate_gives s
    fun m hm => ⟨c, hc, (hdiscriminator m hm).symm⟩
  have hfieldNames : (s'.fieldsOf t).map (·.name) = e.columns.map (·.member) := by
    rw [hfields, List.map_map]
    exact List.map_congr_left fun c _ => c.name_toField t
  obtain ⟨d, hd, hfield⟩ : ∃ d ∈ (s'.table t).fields, s'.field d = c.fieldSpec.toField t := by
    refine List.mem_map.mp ?_
    rw [← Store.fieldsOf, hfields]
    exact List.mem_map_of_mem hc
  have hfound : s'.fieldByName t c.member = some d := by
    have hname : (s'.field d).name = c.member := by rw [hfield, c.name_toField]
    rw [← hfieldNames, Store.fieldsOf, List.map_map] at hcolumns
    rw [← hname]
    exact find?_key_eq_of_nodup (fun f => (s'.field f).name) hcolumns hd
  have hmapped : (s'.table t).subtypes =
      e.subtypes.map fun m => ⟨m.typeName, d, m.code.constant, m.isDefault⟩ := by
    rw [hsubtypes]
    refine List.map_congr_left fun m hm => ?_
    rw [subtypeOf, hdiscriminator m hm, hfound, Option.getD_some]
  have hsubtypes : s'.HasSubtypes t d := e.hasSubtypes hmapped hnames hdefault
  refine ⟨t, s', d, hrun, hsubtypes.discriminates hd (hfieldNames ▸ hcolumns) name, ?_, hmapped⟩
  rw [hfield, c.canBeNull_toField]

end

/-! ## Texts of conditions -/

section

variable {store : Store} {V : Type} (row : TestRow store V)

/-- What an operand of a comparison is worth: a constant is worth itself. -/
def TestRow.comparand : Scalar → V
  | .value v => row.reading.constant v.value
  | e => row.value e

theorem TestRow.comparand_stored {e : Scalar} (he : e.isStored = true) :
    row.comparand e = row.value e := by
  cases e with
  | field | column => rfl
  | _ => cases he

/-- Comparisons have the truth that they have on a row. -/
def Leaves.withComparisons (α : Leaves) : Leaves :=
  { α with
    predicate := fun p =>
      match p with
      | .compare l op r none => row.reading.compare op (row.comparand l) (row.comparand r)
      | p => α.predicate p }

end

/-- A condition is printed as a comparison of two scalars. -/
def Condition.PrintsEquality (c : Condition) (left right : Scalar) : Prop :=
  ∀ next wrapLines, c.print next .unknown wrapLines = do
    left.print next false .comparison true
    Print.text " = "
    right.print next false .comparison true

theorem Condition.printsEquality {left right : Scalar} (hleft : left.isNullConstant = false)
    (hright : right.isNullConstant = false) :
    (Condition.ofPredicate (.equal left right)).PrintsEquality left right := by
  intro next wrapLines
  refine (Condition.print_single next false (fun parent wrapLines hwrap => ?_) _ wrapLines).trans
    (Print.parenthesized_false _)
  rw [Predicate.equal, Predicate.comparison, Predicate.print]
  dsimp only
  rw [show (Predicate.compare left .equal right none).precedence = .comparison from rfl, hwrap]
  simp only [hleft, hright, Bool.and_false, Bool.false_eq_true, if_false]
  exact Print.parenthesized_false _

section

variable {frame : Frame} {V : Type} (row : TestRow frame.store V)

/-- The truth that a reader finds in the text of a condition on a row.  No condition at all always
holds. -/
def Frame.readCondition (frame : Frame) {V : Type} (row : TestRow frame.store V) (α : Leaves) :
    TestText → Option Truth
  | [] | [.opening, .closing] => some (some true)
  | ls => frame.readTests row α ls

/-- On every page, a condition has a text that is read with a truth on a row. -/
def Condition.ReadsAs (c : Condition) (frame : Frame) {V : Type} (row : TestRow frame.store V)
    (truth : Truth) : Prop :=
  ∀ (fuel : Nat) (parent : Precedence) (wrapLines : Bool) (page : Page), ∃ ls : LogicText,
    c.print (.within (fuel + 1)) parent wrapLines frame page =
        printTests fuel (frame.openTests fuel ls) frame page ∧
      (∀ page', c.print (.within (fuel + 1)) parent wrapLines frame page = .ok ((), page') →
        ls.AddsTo fuel frame page page') ∧
      ∀ α : Leaves,
        frame.readCondition row (((α.withComparisons row).withTests row).spelled frame.dialect)
          (frame.openTests fuel ls) = some truth

theorem Frame.readCondition_eq {α : Leaves} {ls : TestText} {truth : Truth}
    (h : frame.readTests row α ls = some truth) : frame.readCondition row α ls = some truth := by
  unfold readCondition
  split
  · cases h
  · cases h
  · exact h

theorem Condition.readsAs_empty : Condition.empty.ReadsAs frame row (some true) := by
  intro fuel parent wrapLines page
  obtain ⟨ls, hls, hprint⟩ :=
    Condition.print_nothing fuel frame (.within (fuel + 1)) parent wrapLines page
  refine ⟨ls, hprint.trans (congrFun (printTests_openTests ls).symm page),
    fun _ h => printLogic_addsTo (hprint.symm.trans h), fun α => ?_⟩
  rcases hls with rfl | rfl <;> rfl

variable {row}

/-- A condition whose tests can be read is read with its truth. -/
theorem Condition.readsAs {c : Condition} (hne : c.branches ≠ []) (hfilled : c.isFilled = true)
    (hlegible : c.isLegible frame.readsTest = true) {truth : Truth}
    (htruth : ∀ α : Leaves,
      c.truthUnder (((α.withComparisons row).withTests row).spelled frame.dialect) = truth) :
    c.ReadsAs frame row truth := by
  intro fuel parent wrapLines page
  obtain ⟨ls, hprint, hadds, hread⟩ :=
    Condition.print_readsTests hne hfilled hlegible fuel parent wrapLines page
  refine ⟨ls, hprint, hadds, fun α => Frame.readCondition_eq row ?_⟩
  rw [hread row (α.withComparisons row), htruth α]

/-- The text of a comparison is read as it. -/
theorem Condition.readsAs_equal (left right : Scalar) :
    (Condition.ofPredicate (.equal left right)).ReadsAs frame row
      (row.reading.compare .equal (row.comparand left) (row.comparand right)) :=
  Condition.readsAs (List.cons_ne_nil _ _) rfl rfl fun _ => Truth.true_and _

theorem listScalars_constants (codes : List Constant) :
    listScalars (codes.map Scalar.constant) = codes.map Scalar.constant := by
  rcases codes with _ | ⟨c, _ | ⟨c', rest⟩⟩ <;> rfl

/-- The text of a test that a field or a column is in none of the lists of codes is read as it. -/
theorem Condition.readsAs_notInList {e : Scalar} (he : e.isStored = true)
    (hstrength : frame.textStrength e ≠ comparison) (codes : List Constant)
    (withNull : Option Bool) :
    (Condition.ofPredicate (.inList e (codes.map Scalar.constant) true withNull)).ReadsAs frame row
      (row.reading.listed withNull true (row.value e) (codes.map row.reading.constant)) := by
  have htable : e.isTableSource = false := by
    cases e with
    | tableSource => cases he
    | _ => rfl
  have hitems : (codes.map Scalar.constant).all Scalar.isListItem = true := by
    rw [List.all_map]
    exact List.all_eq_true.mpr fun _ _ => rfl
  have hreads : frame.readsTest e (codes.map Scalar.constant) = true := by
    rw [Frame.readsTest, htable, listScalars_constants, hitems, bne_iff_ne.mpr hstrength]
    rfl
  have hlegible : (Condition.ofPredicate
      (.inList e (codes.map Scalar.constant) true withNull)).isLegible frame.readsTest = true := by
    change (frame.readsTest e (codes.map Scalar.constant) && true) = true
    rw [hreads]
    rfl
  refine Condition.readsAs (List.cons_ne_nil _ _) rfl hlegible fun α => ?_
  refine (Truth.true_and _).trans ?_
  change row.reading.listed withNull true (row.value e)
    ((listScalars (codes.map Scalar.constant)).map row.item) = _
  rw [listScalars_constants, List.map_map]
  rfl

end

/-! ## Conditions of sub types -/

/-- A value that may be absent, or is not, is known to be none of the items that are present exactly
if it is equal to none of them. -/
theorem Interpretation.listed_eq_true_iff_of_present {V : Type} {I : Interpretation V}
    (hI : I.DecidesEquality) {v : V} {items : List V} (hitems : ∀ c ∈ items, I.isNull c = false)
    {nullable : Bool} (hv : nullable = false → I.isNull v = false) :
    I.listed (if nullable then some true else none) true v items = some true ↔
      ∀ c ∈ items, I.compare .equal v c ≠ some true := by
  have hcontains : I.contains v items = false ↔ ∀ c ∈ items, I.compare .equal v c ≠ some true := by
    rw [contains, List.any_eq_false]
    refine forall₂_congr fun c hc => ?_
    rw [hitems c hc]
    simp
  rw [← hcontains]
  cases nullable with
  | true => exact listed_eq_true_iff hI true
  | false =>
    have hnone : items.any I.isNull = false :=
      List.any_eq_false.mpr fun c hc => by simp [hitems c hc]
    change Truth.not (I.among v items) = some true ↔ _
    rw [among_of_present hI (hv rfl), hnone]
    cases I.contains v items <;> decide

section

variable {s : Store} {t : TableRef} {p : Projection} {d : FieldRef} {e : Scalar} {frame : Frame}
  {V : Type} {row : TestRow frame.store V}

/-- The test for a sub type is a comparison, or for the default one a test for membership or
nothing. -/
theorem subtypeTest_eq (subtypes : List Subtype) (x : Subtype) :
    subtypeTest s subtypes x e =
      if x.isDefault then
        if x.otherCodes subtypes = [] then .empty
        else .ofPredicate (.inList e ((x.otherCodes subtypes).map Scalar.constant) true
          (if (s.field x.discriminator).canBeNull then some true else none))
      else .ofPredicate (.equal e (.constant x.code)) := by
  have hothers : (subtypes.filter (·.typeName != x.typeName)).map (Scalar.constant ·.code) =
      (x.otherCodes subtypes).map Scalar.constant := by
    rw [Subtype.otherCodes, List.map_map]
    rfl
  unfold subtypeTest
  rw [hothers]
  simp [List.isEmpty_iff]

/-- The condition of a sub type is true on the rows whose discriminator it owns. -/
theorem Store.Discriminates.subtypeTest_readsAs (h : s.Discriminates t p d e)
    (hstrength : frame.textStrength e ≠ comparison)
    (hrow : row.Separates (s.table t).subtypes (s.field d).canBeNull e) {x : Subtype}
    (hx : x ∈ (s.table t).subtypes) :
    ∃ truth, (subtypeTest s (s.table t).subtypes x e).ReadsAs frame row truth ∧
      (truth = some true ↔ x.Owns row.reading (s.table t).subtypes (row.value e)) := by
  rw [subtypeTest_eq, h.discriminator x hx]
  cases hdefault : x.isDefault with
  | false =>
    rw [if_neg Bool.false_ne_true, Subtype.owns_of_not_isDefault hdefault]
    refine ⟨_, Condition.readsAs_equal e (.constant x.code), ?_⟩
    rw [row.comparand_stored h.isStored]
    rfl
  | true =>
    rw [if_pos rfl, Subtype.owns_iff_otherCodes hdefault]
    by_cases hothers : x.otherCodes (s.table t).subtypes = []
    · rw [if_pos hothers, hothers]
      exact ⟨some true, Condition.readsAs_empty row, by simp⟩
    · have hpresent : ∀ v ∈ (x.otherCodes (s.table t).subtypes).map row.reading.constant,
          row.reading.isNull v = false := by
        rw [List.forall_mem_map]
        intro c hc
        obtain ⟨y, hy, -, rfl⟩ := Subtype.mem_otherCodes.mp hc
        rw [row.isNull_constant, h.codes y hy]
      rw [if_neg hothers]
      refine ⟨_, Condition.readsAs_notInList h.isStored hstrength _ _, ?_⟩
      rw [Interpretation.listed_eq_true_iff_of_present row.decidesEquality hpresent hrow.isNull,
        List.forall_mem_map]

end

/-! ## Legal forms -/

section

variable {s : Store} {p : Provider} {e : Scalar}

/-- Whether a dialect compares a discriminator with a code as dates. -/
def Store.ComparesDates (s : Store) (d : Dialect) (e : Scalar) (code : Constant) : Prop :=
  d = .sqlite ∧ ((s.typeOf e).kind.isDateTime = true ∨ code.naturalKind.isDateTime = true)

theorem Scalar.isNullConstant_constant (c : Constant) :
    (Scalar.constant c).isNullConstant = c.isNull := by
  cases c <;> rfl

theorem Store.legal_stored (s : Store) (p : Provider) (depth : Nat) (he : e.isStored = true) :
    (s.legalizerWithin p depth).scalar e = e := by
  cases e with
  | field | column => exact Scalar.IsLegal.leaf (fun _ => rfl) rfl depth
  | _ => cases he

/-- A test for membership is legal if its operands are. -/
theorem Store.legal_notInList (s : Store) (p : Provider) (depth : Nat) (he : e.isStored = true)
    (codes : List Constant) (withNull : Option Bool) :
    (s.legalizerWithin p depth).condition
        (.ofPredicate (.inList e (codes.map Scalar.constant) true withNull)) =
      .ofPredicate (.inList e (codes.map Scalar.constant) true withNull) := by
  have hself := s.legalPredicate_eq_self p
    (q := .inList e (codes.map Scalar.constant) true withNull) rfl
  have hpredicate := s.onPredicate_of_ne_nested p (by rw [hself]; rintro _ ⟨⟩) depth
  rw [Condition.ofPredicate, Condition.branch, Transformer.condition, Transformer.branches,
    Transformer.branches, Transformer.branch, Transformer.predicate, s.legal_stored p depth he,
    s.legal_constants, hpredicate, hself]

/-- What is converted to a date is no constant any more. -/
theorem Store.dateOperand_form (s : Store) (p : Provider) (he : e.isConversion = false) :
    (s.dateOperand p e).asValue? = none ∧ (s.dateOperand p e).isNullConstant = false := by
  rw [dateOperand, he, if_neg Bool.false_ne_true]
  cases p.dialect with
  | sqlite =>
    unfold legalScalar Dialect.spelled
    dsimp only
    cases (s.typeOf e).kind <;> exact ⟨rfl, rfl⟩
  | _ => exact ⟨rfl, rfl⟩

theorem Store.comparedOperands_of_not_comparesDates {c : Constant}
    (h : ¬s.ComparesDates p.dialect e c) :
    s.comparedOperands p e (.constant c) = (e, .constant c) := by
  refine if_neg fun htest => h ?_
  simp only [Bool.and_eq_true, Bool.or_eq_true, beq_iff_eq] at htest
  exact htest.1.1

/-- The operands of a comparison of a discriminator with a code are no absent constants, and the
first one is none at all. -/
theorem Store.comparedOperands_form (s : Store) (p : Provider) (he : e.isStored = true)
    {c : Constant} (hc : c.isNull = false) :
    let operands := s.comparedOperands p e (.constant c)
    operands.1.asValue? = none ∧ operands.1.isNullConstant = false ∧
      operands.2.isNullConstant = false := by
  have hstored : e.asValue? = none ∧ e.isNullConstant = false ∧ e.isConversion = false := by
    cases e with
    | field | column => exact ⟨rfl, rfl, rfl⟩
    | _ => cases he
  unfold comparedOperands
  dsimp only
  split
  · have hleft := s.dateOperand_form p hstored.2.2
    have hright := s.dateOperand_form p (e := .constant c) rfl
    exact ⟨hleft.1, hleft.2, hright.2⟩
  · exact ⟨hstored.1, hstored.2.1, (Scalar.isNullConstant_constant c).trans hc⟩

theorem Store.legalComparison_eq_self (s : Store) {left right : Scalar} {op : Comparison}
    (hvalue : left.asValue? = none) (hleft : left.isNullConstant = false)
    (hright : right.isNullConstant = false) :
    s.legalComparison left op right none = .compare left op right none := by
  have hfold : foldComparison? left op right = none := by
    rw [foldComparison?, hvalue]
    rfl
  unfold legalComparison
  rw [hfold]
  simp only [hleft, hright, Bool.and_false, Bool.false_eq_true, if_false]
  rfl

/-- A comparison of a discriminator with a code stays one. -/
theorem Store.legal_equality (s : Store) (p : Provider) (depth : Nat) (he : e.isStored = true)
    {c : Constant} (hc : c.isNull = false) :
    let operands := s.comparedOperands p e (.constant c)
    (s.legalizerWithin p depth).condition (.ofPredicate (.equal e (.constant c))) =
      .ofPredicate (.equal operands.1 operands.2) := by
  intro operands
  obtain ⟨hvalue, hleft, hright⟩ := s.comparedOperands_form p he hc
  have hlegal : s.legalComparison operands.1 .equal operands.2 none =
      .compare operands.1 .equal operands.2 none :=
    s.legalComparison_eq_self hvalue hleft hright
  have hconstant : (s.legalizerWithin p depth).scalar (.constant c) = .constant c :=
    Scalar.IsLegal.leaf (fun _ => rfl) rfl depth
  rw [Condition.ofPredicate, Condition.branch, Transformer.condition, Transformer.branches,
    Transformer.branches, Transformer.branch, Predicate.equal, Predicate.comparison,
    Transformer.predicate, s.legal_stored p depth he, hconstant, s.onPredicate_compare_none]
  exact congrArg Condition.ofPredicate hlegal

end

/-! ## Rows of a table -/

/-- The sub types of a table part its rows: of their conditions, as they are built, exactly one is
read as true on a row, the one of the sub type that owns the value of the discriminator, whatever
the sizes of the lists.  It is the same with their legal forms, unless a dialect compares the
discriminator with a code as dates: then the condition of a sub type that is not the default one is
true where the converted operands are equal, while that of the default one still looks for the
discriminator itself. -/
theorem Store.Discriminates.conditions_partition {s : Store} {t : TableRef} {p : Projection}
    {d : FieldRef} {e : Scalar} (h : s.Discriminates t p d e) {frame : Frame}
    (hstrength : frame.textStrength e ≠ comparison) {V : Type} {row : TestRow frame.store V}
    (hrow : row.Separates (s.table t).subtypes (s.field d).canBeNull e) :
    ∃ owner ∈ (s.table t).subtypes,
      owner.Owns row.reading (s.table t).subtypes (row.value e) ∧
      ∀ x ∈ (s.table t).subtypes, ∃ c, subtypeCondition s t p x.typeName = .ok c ∧
        (∃ truth, c.ReadsAs frame row truth ∧ (truth = some true ↔ x = owner)) ∧
        ∀ (s' : Store) (provider : Provider) (depth : Nat),
          let operands := s'.comparedOperands provider e (.constant x.code)
          let legal := (s'.legalizerWithin provider depth).condition c
          ∃ truth, legal.ReadsAs frame row truth ∧
            (x.isDefault = true ∨ ¬s'.ComparesDates provider.dialect e x.code →
              (truth = some true ↔ x = owner)) ∧
            (x.isDefault = false →
              legal.PrintsEquality operands.1 operands.2 ∧
                truth = row.reading.compare .equal (row.comparand operands.1)
                  (row.comparand operands.2)) := by
  obtain ⟨owner, howner, howns⟩ := h.exists_owner hrow (row.value e)
  refine ⟨owner, howner, (howns owner howner).mpr rfl, fun x hx => ?_⟩
  obtain ⟨truth, hreads, htruth⟩ := h.subtypeTest_readsAs hstrength hrow hx
  have howned : truth = some true ↔ x = owner := htruth.trans (howns x hx)
  refine ⟨_, h.subtypeCondition_eq hx, ⟨truth, hreads, howned⟩, fun s' provider depth => ?_⟩
  intro operands legal
  cases hdefault : x.isDefault with
  | true =>
    have hlegal : legal = subtypeTest s (s.table t).subtypes x e := by
      change (s'.legalizerWithin provider depth).condition _ = _
      rw [subtypeTest_eq, hdefault, if_pos rfl]
      split
      · rfl
      · exact s'.legal_notInList provider depth h.isStored _ _
    exact ⟨truth, hlegal ▸ hreads, fun _ => howned, fun hfalse => nomatch hfalse⟩
  | false =>
    have hlegal : legal = .ofPredicate (.equal operands.1 operands.2) := by
      change (s'.legalizerWithin provider depth).condition _ = _
      rw [subtypeTest_eq, hdefault, if_neg Bool.false_ne_true]
      exact s'.legal_equality provider depth h.isStored (h.codes x hx)
    obtain ⟨-, hleft, hright⟩ := s'.comparedOperands_form provider h.isStored (h.codes x hx)
    rw [hlegal]
    refine ⟨_, Condition.readsAs_equal _ _, fun hdates => ?_,
      fun _ => ⟨Condition.printsEquality hleft hright, rfl⟩⟩
    have hoperands : operands = (e, .constant x.code) :=
      Store.comparedOperands_of_not_comparesDates (hdates.resolve_left Bool.false_ne_true)
    rw [← howns x hx, Subtype.owns_of_not_isDefault hdefault, hoperands,
      row.comparand_stored h.isStored]
    rfl

/-- Texts that may be absent, where anything that is no text counts as the empty one. -/
def Constant.textOrEmpty : Constant → Option String
  | .null => none
  | .text s => some s
  | _ => some ""

theorem Constant.textOrEmpty_congr (a b : Constant) (h : (a == b) = true) :
    a.textOrEmpty = b.textOrEmpty := by
  cases a <;> cases b <;> first | rfl | cases h | skip
  case text.text s t => exact congrArg some (eq_of_beq (show (s == t) = true from h))

/-- Texts that may be absent, compared as SQL compares them. -/
def Interpretation.nullableTexts : Interpretation (Option String) where
  constant := Constant.textOrEmpty
  parameter _ c := c.textOrEmpty
  isNull := Option.isNone
  ofTruth t := t.map fun b => if b then "1" else "0"
  toTruth v := v.map (· == "1")
  compare op a b :=
    match a, b with
    | some a, some b => some <|
      match op with
      | .equal => a == b
      | .notEqual => a != b
      | .greater => b < a
      | .greaterOrEqual | .notLess => b ≤ a
      | .less => a < b
      | .lessOrEqual | .notGreater => a ≤ b
      | .overlaps => false
    | _, _ => none
  binary _ _ _ := none
  negate _ := none
  convert _ v := v
  unknown := none
  constant_congr := Constant.textOrEmpty_congr
  parameter_congr _ := Constant.textOrEmpty_congr
  toTruth_ofTruth t := by
    rcases t with _ | _ | _ <;> rfl
  negate_eq _ := rfl

theorem Interpretation.nullableTexts_isEuclidean :
    Interpretation.nullableTexts.IsEuclidean := by
  intro a b c hab hac
  rcases a with _ | a <;> rcases b with _ | b <;> rcases c with _ | c <;> simp_all [nullableTexts]

/-- The sub types of events. -/
def eventTypes : List Subtype := [
  ⟨"Launch", ⟨0⟩, .text "2020-01-01", false⟩,
  ⟨"Landing", ⟨0⟩, .text "2020-01-02", false⟩,
  ⟨"Other", ⟨0⟩, .text "", true⟩]

/-- A table of events, whose sub types are told apart by a point in time. -/
def Store.ofEvents : Store :=
  (({} : Store).addTable { name := { name := "Event" }, subtypes := eventTypes }
    [{ name := "Day", type := .plain .dateTime }]).2

theorem Store.subtypes_ofEvents : (Store.ofEvents.table ⟨0⟩).subtypes = eventTypes := rfl

/-- A row of the table of events: a conversion to a point in time adds the hour. -/
def TestRow.ofEvent (day : String) : TestRow .ofEvents (Option String) where
  reading := .nullableTexts
  value
    | .function _ => some (day ++ " 00:00:00")
    | .convert _ _ (.value ⟨_, .text code⟩) _ => some code
    | _ => some day
  decidesEquality a b := by
    cases a <;> cases b <;> simp [Interpretation.nullableTexts]
  isNull_constant c := by cases c <;> rfl
  isNull_value e _ := by
    split <;> rfl

/-- On the row with the code of the launch, the conditions that are built part the sub types.  Their
legal forms for SQLite do not: no sub type has the row. -/
theorem Store.Discriminates.conditions_partition_events :
    let frame : Frame :=
      { provider := .ofDialect .sqlite, store := .ofEvents, options := { maxInListValues := some 1 } }
    let legal := frame.store.legalizerWithin frame.provider 1
    ∀ x ∈ (Store.ofEvents.table ⟨0⟩).subtypes, ∃ c,
      subtypeCondition .ofEvents ⟨0⟩ (.ofTable .ofEvents "Event" ⟨0⟩) x.typeName = .ok c ∧
        (∃ truth, c.ReadsAs frame (.ofEvent "2020-01-01") truth ∧
          (truth = some true ↔ x.typeName = "Launch")) ∧
        ∃ truth, (legal.condition c).ReadsAs frame (.ofEvent "2020-01-01") truth ∧
          truth ≠ some true := by
  intro frame legal
  have hsubtypes : Store.ofEvents.HasSubtypes ⟨0⟩ ⟨0⟩ := by
    refine ⟨?_, ?_, ?_, ?_⟩ <;> rw [Store.subtypes_ofEvents]
    · decide
    · decide
    · decide
    · exact ⟨_, .tail _ (.tail _ (.head _)), rfl, by simp [eventTypes]⟩
  have h := hsubtypes.discriminates (by decide) (by decide) "Event"
  have hrow : (TestRow.ofEvent "2020-01-01").Separates (Store.ofEvents.table ⟨0⟩).subtypes
      (Store.ofEvents.field ⟨0⟩).canBeNull (.field ⟨0⟩) := by
    refine ⟨Interpretation.nullableTexts_isEuclidean, ?_, fun _ => rfl⟩
    rw [Store.subtypes_ofEvents]
    decide
  have hstrength : frame.textStrength (.field ⟨0⟩) ≠ comparison := by decide
  obtain ⟨owner, howner, howns, hpartition⟩ := h.conditions_partition hstrength hrow
  -- the row has the code of the launch, so that neither the landing nor the default type owns it
  have hlaunch : owner = ⟨"Launch", ⟨0⟩, .text "2020-01-01", false⟩ := by
    rw [Store.subtypes_ofEvents] at howner howns
    simp only [eventTypes, List.mem_cons, List.not_mem_nil, or_false] at howner
    rcases howner with rfl | rfl | rfl
    · rfl
    · exact absurd howns (by decide)
    · exact absurd howns (by decide)
  intro x hx
  obtain ⟨c, hc, ⟨truth, hreads, htruth⟩, hlegal⟩ := hpartition x hx
  obtain ⟨legalTruth, hlegalReads, hdefault, hother⟩ := hlegal frame.store frame.provider 1
  refine ⟨c, hc, ⟨truth, hreads, htruth.trans ?_⟩, legalTruth, hlegalReads, ?_⟩
  · rw [hlaunch]
    exact ⟨fun heq => heq ▸ rfl, fun hname => h.eq_of_typeName hx (.head _) hname⟩
  · rw [Store.subtypes_ofEvents] at hx
    simp only [eventTypes, List.mem_cons, List.not_mem_nil, or_false] at hx
    rcases hx with rfl | rfl | rfl
    · rw [(hother rfl).2]
      decide
    · rw [(hother rfl).2]
      decide
    · rw [Ne, hdefault (.inl rfl), hlaunch]
      simp

end SqlCompiler
