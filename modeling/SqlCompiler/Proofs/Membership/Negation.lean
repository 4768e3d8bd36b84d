import SqlCompiler.Proofs.Lowering.Steps
import SqlCompiler.Proofs.Membership.ListTests
import SqlCompiler.Proofs.Semantics.LegalScalars

/-!
# Membership in a list and its negation

`list.Contains(item)` is lowered to a test for membership, and its negation to the same test behind
`NOT`.  The test is unknown where it does not see that an item is in none of the lists, and so is
its negation: such a row satisfies neither condition.

Main results:

- Definition `Term.listConstants?`: the items of a list.
- Theorem `Term.contains_partition`: exactly one of both conditions holds, and the right one, unless
  the test is unknown.
-/

namespace SqlCompiler

/-- The items of a list constant or a list parameter. -/
def Term.listConstants? : Term → Option (List Constant)
  | constant (.list items) => some items
  | parameter _ (.list items) => some items
  | quote inner => inner.listConstants?
  | _ => none

/-! ## The items of a test -/

/-- The value of an item that is a constant. -/
def Interpretation.valueOfItem {V : Type} (I : Interpretation V) (item : Scalar × Printer) : V :=
  (item.1.evaluate?.map I.constant).getD I.unknown

section

variable {V : Type} {I : Interpretation V} {source : Term} {constants : List Constant}

/-- The members of a list are its items, one by one or as one parameter. -/
theorem Term.listMembers?_eq (h : source.listConstants? = some constants) :
    source.listMembers? = some (constants.map Scalar.constant) ∨
      ∃ p : Parameter, p.value = .list constants ∧ source.listMembers? = some [.parameter p] := by
  fun_induction Term.listConstants? source with
  | case1 items =>
    cases h
    exact .inl rfl
  | case2 name items =>
    cases h
    exact .inr ⟨_, rfl, rfl⟩
  | case3 inner ih => exact ih h
  | case4 => cases h

/-- What is printed for the members of a list are its items. -/
theorem listItems?_constants {members : List Scalar} (next : NextLevel)
    (h : source.listConstants? = some constants) (hmembers : source.listMembers? = some members) :
    ((listItems? members (scalarPrinters next members)).getD []).map (·.1.evaluate?) =
      constants.map some := by
  rcases source.listMembers?_eq h with hsome | ⟨p, hp, hsome⟩
  · obtain rfl : constants.map Scalar.constant = members := by
      rw [hsome] at hmembers
      exact Option.some.inj hmembers
    have hitems (printers : List Printer) : listItems? (constants.map Scalar.constant) printers =
        some ((constants.map Scalar.constant).zip printers) := by
      rcases constants with _ | ⟨c, _ | ⟨c', rest⟩⟩ <;> rfl
    rw [hitems, Option.getD_some]
    have hfst := List.map_fst_zip
      (Nat.le_of_eq (length_scalarPrinters next (constants.map Scalar.constant)).symm)
    calc _ = (((constants.map Scalar.constant).zip
              (scalarPrinters next (constants.map Scalar.constant))).map (·.1)).map
                (·.evaluate?) := by rw [List.map_map]; rfl
      _ = constants.map some := by rw [hfst, List.map_map]; rfl
  · obtain rfl : [.parameter p] = members := by
      rw [hsome] at hmembers
      exact Option.some.inj hmembers
    rw [listItems?, hp]
    dsimp only
    rw [Option.getD_some, List.map_map]
    rfl

end

/-! ## Legal and printed forms -/

theorem Print.parenthesized_false (act : Print Unit) : Print.parenthesized false act = act := by
  funext frame page
  change (act frame page >>= fun r => (pure ((), r.2) : Except SqlError (Unit × Page))) = _
  exact bind_pure (act frame page)

/-- Constants are legal. -/
theorem Store.legal_constants (s : Store) (p : Provider) (depth : Nat) (constants : List Constant) :
    (s.legalizerWithin p depth).scalars (constants.map Scalar.constant) =
      constants.map Scalar.constant := by
  refine scalars_of_legal (fun e he => ?_) depth
  obtain ⟨c, -, rfl⟩ := List.mem_map.mp he
  exact .leaf (fun _ => rfl) rfl

/-- The members of a list are legal. -/
theorem Store.legal_members (s : Store) (p : Provider) (depth : Nat) {source : Term}
    {constants : List Constant} {members : List Scalar}
    (h : source.listConstants? = some constants) (hmembers : source.listMembers? = some members) :
    (s.legalizerWithin p depth).scalars members = members := by
  rcases source.listMembers?_eq h with hsome | ⟨param, -, hsome⟩
  · obtain rfl : constants.map Scalar.constant = members := by
      rw [hsome] at hmembers
      exact Option.some.inj hmembers
    exact s.legal_constants p depth constants
  · obtain rfl : [.parameter param] = members := by
      rw [hsome] at hmembers
      exact Option.some.inj hmembers
    refine scalars_of_legal (fun e he => ?_) depth
    rw [List.mem_singleton.mp he]
    exact .leaf (fun _ => rfl) rfl

/-- A test for membership, perhaps negated. -/
def Condition.listTest (negated : Bool) (e : Scalar) (members : List Scalar)
    (withNull : Option Bool) : Condition :=
  ⟨[⟨negated, .inList e members false withNull, false⟩]⟩

theorem Store.legal_listTest (s : Store) (p : Provider) (depth : Nat) (negated : Bool) (e : Scalar)
    (members : List Scalar) (withNull : Option Bool) :
    (s.legalizerWithin p depth).condition (.listTest negated e members withNull) =
      .listTest negated ((s.legalizerWithin p depth).scalar e)
        ((s.legalizerWithin p depth).scalars members) withNull := by
  have hlegal (e : Scalar) (members : List Scalar) :
      (s.legalizerWithin p depth).onPredicate (.inList e members false withNull) =
        .inList e members false withNull := by
    have hplain : s.legalPredicate p (.inList e members false withNull) =
        .inList e members false withNull := by
      unfold Store.legalPredicate
      split <;> rfl
    cases depth with
    | zero => exact hplain
    | succ depth =>
      rw [Store.legalizerWithin]
      dsimp only
      rw [hplain]
  unfold Condition.listTest
  rw [Transformer.condition, Transformer.branches, Transformer.branches, Transformer.branch,
    Transformer.predicate, hlegal]

/-- A single predicate that binds like a comparison is printed behind `NOT` if it is negated. -/
theorem Condition.print_single (next : NextLevel) (negated : Bool) {p : Predicate} {act : Print Unit}
    (hprint : ∀ parent wrapLines, Precedence.comparison.needsWrap parent = false →
      p.print next parent wrapLines = act) (parent : Precedence) (wrapLines : Bool) :
    Condition.print next ⟨[⟨negated, p, false⟩]⟩ parent wrapLines =
      Print.parenthesized
        ((⟨[⟨negated, p, false⟩]⟩ : Condition).precedence.needsWrap parent) (do
          if negated then Print.text "NOT "
          act) := by
  rw [Condition.print]
  refine congrArg (Print.parenthesized _) ?_
  let printed : Print Unit := do
    if negated then Print.text "NOT "
    act
  -- the one branch is laid out the same way whatever stands before it
  have hbranches (layout : BranchLayout)
      (hstrength : layout.strength = .logicalConjunction + 1) :
      printBranches next layout [⟨negated, p, false⟩] = printed := by
    rw [printBranches, printBranches, Branch.print, hstrength, hprint _ _ rfl, hprint _ _ rfl]
    exact bind_pure printed
  have hlength (layout : Nat → BranchLayout)
      (hstrength : ∀ n, (layout n).strength = .logicalConjunction + 1) :
      (do printBranches next (layout (← Print.length)) [⟨negated, p, false⟩]) = printed := by
    simp only [fun n => hbranches (layout n) (hstrength n)]
    rfl
  exact hlength _ fun _ => rfl

/-- A test for membership is printed behind `NOT` if it is negated. -/
theorem Condition.print_listTest (next : NextLevel) (negated : Bool) (e : Scalar)
    (members : List Scalar) (withNull : Option Bool) (parent : Precedence) (wrapLines : Bool) :
    (Condition.listTest negated e members withNull).print next parent wrapLines =
      Print.parenthesized
        ((Condition.listTest negated e members withNull).precedence.needsWrap parent) (do
          if negated then Print.text "NOT "
          printMembership e (e.print next false .comparison true)
            (listItems? members (scalarPrinters next members)) false withNull) := by
  refine Condition.print_single next negated (fun parent wrapLines hwrap => ?_) parent wrapLines
  rw [Predicate.print]
  dsimp only
  rw [show (Predicate.inList e members false withNull).precedence = .comparison from rfl, hwrap]
  exact Print.parenthesized_false _

/-! ## Lowering -/

/-- What a condition gives that is lowered as a scalar, which is lowered as a projection. -/
theorem LowerM.Gives.condition_contains {rules : List Rule} {fuel : Nat} {source item : Term}
    {q : QueryRef} {ctx : LowerContext} {st st' : LowerState} {e : Scalar} {members : List Scalar}
    (hmembers : source.listMembers? = some members)
    (hitem : ((lowererWithin rules fuel).scalar item q).Gives ctx st e st') :
    ((lowererWithin rules (fuel + 3)).condition (.call .contains [source, item]) q).Gives ctx st
      (.membership st'.store e members) st' := by
  have hcall : ((lowererWithin rules fuel).callOf .contains [source, item] q).Gives ctx st
      (.condition (.membership st'.store e members)) st' := by
    refine (pure source).bind ?_
    rw [hmembers]
    exact (pure item).bind (hitem.bind (store.bind (pure _)))
  have hprojection : ((lowererWithin rules (fuel + 1)).projection
      (.call .contains [source, item]) q).Gives ctx st
        (.scalar (.condition (.membership st'.store e members))) st' := hcall.bind (pure _)
  have hscalar : ((lowererWithin rules (fuel + 2)).scalar (.call .contains [source, item]) q).Gives
      ctx st (.condition (.membership st'.store e members)) st' :=
    hprojection.bind (ofExcept rfl)
  exact hscalar.bind (pure _)

/-! ## The rows of a test and of its negation -/

/-- Print a test of a scalar. -/
def ListTest.printOf (test : ListTest (Scalar × Printer)) (next : NextLevel) (e : Scalar) :
    Print Unit :=
  test.print (e.print next false .comparison true) fun part => printList (part.map (·.2))

/-- A condition is printed as a test of a scalar, behind `NOT` if it is negated. -/
def Condition.PrintsTest (c : Condition) (next : NextLevel) (frame : Frame) (negated : Bool)
    (e : Scalar) (test : ListTest (Scalar × Printer)) : Prop :=
  ∀ wrapLines, c.print next .unknown wrapLines frame =
    (do
      if negated then Print.text "NOT "
      test.printOf next e) frame

/-- A test and its negation part the values: exactly one of them is true, and the right one. -/
def ListTest.Parts {α V : Type} (I : Interpretation V) (value : α → V) (test : ListTest α) (v : V)
    (holds : Bool) : Prop :=
  (test.truth I v value = some true ↔ holds = true) ∧
    (Truth.not (test.truth I v value) = some true ↔ holds = false)

/-- A test that has the right truth where it is known parts the values that it is known of. -/
theorem ListTest.parts_iff {α V : Type} {I : Interpretation V} {value : α → V} {test : ListTest α}
    {v : V} {unseen holds : Bool}
    (htruth : test.truth I v value = if unseen then none else some holds) :
    test.Parts I value v holds ↔ unseen = false := by
  unfold Parts
  rw [htruth]
  cases unseen <;> cases holds <;> decide

/-- The condition that an item is in a list and its negation, in their legal forms, are printed as
one test, behind `NOT` for the negation.  For every value of the item the test has the truth of
membership or is unknown, so that exactly one of the conditions is true, and the right one, if and
only if the test is known. -/
theorem Term.contains_partition {rules : List Rule} {fuel : Nat} {source item : Term}
    {constants : List Constant} {q : QueryRef} {ctx : LowerContext} {st st' : LowerState}
    {e : Scalar} (hlist : source.listConstants? = some constants)
    (hitem : ((lowererWithin rules fuel).scalar item q).Gives ctx st e st') :
    let contains := Term.call .contains [source, item]
    ∃ positive negative : Condition,
      ((lowererWithin rules (fuel + 3)).condition contains q).Gives ctx st positive st' ∧
      ((lowererWithin rules (fuel + 4)).condition (.not contains) q).Gives ctx st negative st' ∧
      ∀ (s : Store) (p : Provider) (depth : Nat) (next : NextLevel) (frame : Frame),
        let legal := s.legalizerWithin p depth
        (∀ t, legal.scalar e ≠ .tableSource t) →
        ∃ test : ListTest (Scalar × Printer),
          (legal.condition positive).PrintsTest next frame false (legal.scalar e) test ∧
          (legal.condition negative).PrintsTest next frame true (legal.scalar e) test ∧
          ∀ {V : Type} (I : Interpretation V) (v : V), I.DecidesEquality →
            (∀ c ∈ constants, I.isNull (I.constant c) = c.isNull) →
            let unseen := I.unseen (st'.store.canBeNull e) v (constants.map I.constant)
            let holds := I.contains v (constants.map I.constant)
            (test.truth I v I.valueOfItem = if unseen then none else some holds) ∧
              (test.Parts I I.valueOfItem v holds ↔ unseen = false) := by
  obtain ⟨members, hmembers⟩ : ∃ members, source.listMembers? = some members := by
    rcases source.listMembers?_eq hlist with h | ⟨_, -, h⟩
    · exact ⟨_, h⟩
    · exact ⟨_, h⟩
  let withNull : Option Bool := if st'.store.canBeNull e then some true else none
  have hpositive := LowerM.Gives.condition_contains hmembers hitem
  have hnegative : ((lowererWithin rules (fuel + 4)).condition
      (.not (.call .contains [source, item])) q).Gives ctx st
        (.listTest true e members withNull) st' := hpositive.bind (.pure _)
  refine ⟨.listTest false e members withNull, .listTest true e members withNull, hpositive,
    hnegative, ?_⟩
  intro s p depth next frame legal hvalue
  let items := (listItems? members (scalarPrinters next members)).getD []
  have hprints (negated : Bool) : (legal.condition (.listTest negated e members withNull)).PrintsTest
      next frame negated (legal.scalar e)
        (frame.listTest (legal.scalar e) items false withNull) := by
    intro wrapLines
    rw [s.legal_listTest, s.legal_members p depth hlist hmembers, Condition.print_listTest]
    have htest := printMembership_eq hvalue ((legal.scalar e).print next false .comparison true)
      (listItems? members (scalarPrinters next members)) false withNull frame
    cases negated with
    | false => exact (congrFun (Print.parenthesized_false _) frame).trans htest
    | true =>
      refine (congrFun (Print.parenthesized_false _) frame).trans ?_
      exact congrArg (fun act => Print.text "NOT " frame >>= fun _ => act) htest
  refine ⟨frame.listTest (legal.scalar e) items false withNull, hprints false, hprints true, ?_⟩
  intro V I v hI hconstants unseen holds
  have hevaluate := listItems?_constants next hlist hmembers
  have hvalues : items.map I.valueOfItem = constants.map I.constant := by
    have hmap := congrArg (List.map fun c => (c.map I.constant).getD I.unknown) hevaluate
    rw [List.map_map, List.map_map] at hmap
    exact hmap
  have habsent : ∀ item ∈ items, item.1.isNullConstant = I.isNull (I.valueOfItem item) := by
    intro item hmem
    have hsome : item.1.evaluate? ∈ constants.map some := hevaluate ▸ List.mem_map_of_mem hmem
    obtain ⟨c, hc, hitem⟩ := List.mem_map.mp hsome
    rw [Interpretation.valueOfItem, Scalar.isNullConstant, ← hitem]
    rw [Option.map_some, Option.getD_some, hconstants c hc]
    cases c <;> rfl
  have htruth : (frame.listTest (legal.scalar e) items false withNull).truth I v I.valueOfItem =
      if unseen then none else some holds := by
    have hpositive : (frame.listTest (legal.scalar e) items false withNull).truth I v
        I.valueOfItem =
          if I.unseen (st'.store.canBeNull e) v (items.map I.valueOfItem) then none
          else some (I.contains v (items.map I.valueOfItem)) :=
      ListTest.truth_of_positive hI habsent (st'.store.canBeNull e)
    rwa [hvalues] at hpositive
  exact ⟨htruth, ListTest.parts_iff htruth⟩

/-- Nullable integers decide equality where both are present. -/
theorem Interpretation.nullableIntegers_decidesEquality :
    Interpretation.nullableIntegers.DecidesEquality := by
  intro a b
  cases a <;> cases b <;> simp [Interpretation.nullableIntegers]

/-- A table with one nullable field. -/
def Store.ofAges : Store :=
  (({} : Store).addTable { name := { name := "Person" } }
    [{ name := "Age", type := .int32, canBeNull := true }]).2

/-- An age that is absent satisfies neither the membership in a list of one number nor its
negation, though it is not that number. -/
theorem Term.contains_partition_absentAge :
    let ctx : LowerContext := { schema := {}, provider := .ofDialect .generic, scope := [("x", .scalar (.field ⟨0⟩))] }
    let st : LowerState := { store := .ofAges }
    let contains := Term.call .contains [.constant (.list [.integer 1]), .bound "x"]
    let legal := Store.ofAges.legalizerWithin (.ofDialect .generic) 1
    ∃ positive negative : Condition,
      ((lowererWithin standardRules 5).condition contains ⟨0⟩).Gives ctx st positive st ∧
      ((lowererWithin standardRules 6).condition (.not contains) ⟨0⟩).Gives ctx st negative st ∧
      ∀ next frame, ∃ test : ListTest (Scalar × Printer),
        (legal.condition positive).PrintsTest next frame false (.field ⟨0⟩) test ∧
        (legal.condition negative).PrintsTest next frame true (.field ⟨0⟩) test ∧
        ¬test.Parts .nullableIntegers Interpretation.nullableIntegers.valueOfItem none false ∧
        test.Parts .nullableIntegers Interpretation.nullableIntegers.valueOfItem (some 2) false := by
  intro ctx st contains legal
  have hitem : ((lowererWithin standardRules 2).scalar (.bound "x") ⟨0⟩).Gives ctx st
      (.field ⟨0⟩) st := rfl
  have hlist : (Term.constant (.list [.integer 1])).listConstants? = some [.integer 1] := rfl
  obtain ⟨positive, negative, hpositive, hnegative, h⟩ := Term.contains_partition hlist hitem
  refine ⟨positive, negative, hpositive, hnegative, ?_⟩
  intro next frame
  obtain ⟨test, hprinted, hprinted', htest⟩ :=
    h .ofAges (.ofDialect .generic) 1 next frame fun _ => by rintro ⟨⟩
  have hconstants : ∀ c ∈ [Constant.integer 1],
      Interpretation.nullableIntegers.isNull (Interpretation.nullableIntegers.constant c) = c.isNull := by
    simp [Interpretation.nullableIntegers, Constant.nullableInteger, Constant.isNull]
  have hparts (v : Option Int) := htest .nullableIntegers v
    Interpretation.nullableIntegers_decidesEquality hconstants
  refine ⟨test, hprinted, hprinted', ?_, (hparts (some 2)).2.mpr (by decide)⟩
  intro habsent
  exact absurd ((hparts none).2.mp habsent) (by decide)

end SqlCompiler
