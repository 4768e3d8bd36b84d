import SqlCompiler.Proofs.SetOperators.Sides

/-!
# Results of set operators

A tree of set operators is lowered to a query that has its form, so that the tuples of the query are
the rows of the tree, and each member of the result is read from the position that holds it in every
branch.  This asks that the columns of every query with set operators are told apart: members of the
first branch that are given by equal expressions are all read from the first of them, whatever the
other branches have there.

Main results:

- Theorem `SetTree.lowers`: every tree is lowered to what becomes a side that lists its rows.
- Theorem `SetTree.combine_rows`: the rows and the columns of a tree of set operators.
-/

namespace SqlCompiler

variable {V : Type} [DecidableEq V] {I : Interpretation V} {db : Database V} {ctx : LowerContext}
  {st : LowerState} {lo : Nat} {names : List String} {tree : SetTree} {lowered : Lowered}

/-- A lowered sequence becomes a side of any set operator, and lists the rows of a tree then. -/
structure Lowered.BecomesSide (I : Interpretation V) (db : Database V) (ctx : LowerContext)
    (st : LowerState) (lo : Nat) (names : List String) (tree : SetTree) (lowered : Lowered) :
    Prop where
  outcome : lowered.outcome = .sequence
  asSide : ∀ test : Query → Bool, (∀ parent sources, test { parent, sources } = false) →
    ∃ side s', (lowered.asSide test).Gives ctx st side { st with store := s' } ∧
      side.Lists I db s' lo names tree

namespace SetTree

/-- What combines two lowered trees. -/
theorem lower_combine (l : Lowerer) (operation : SetOperation) (left right : SetTree)
    (parent : Option QueryRef) :
    setOperationRule.lower l (combine operation left right).term parent =
      lowerSetOperation l
        { operator := operation.operator, args := [left.term, right.term], parent } operation := by
  cases operation <;> rfl

theorem accepted_combine (operation : SetOperation) (left right : SetTree) :
    standardRules.filter (·.accepts (combine operation left right).term) = [setOperationRule] := by
  cases operation <;> rfl

/-- Two trees that are lowered one after the other are combined. -/
theorem combine_lowers (operation : SetOperation) {left right : SetTree} {n : Nat}
    {parent : Option QueryRef} {lowered : Lowered} {st₁ : LowerState}
    (hleft : ((lowererWithin standardRules n).sequence left.term parent).Gives ctx st lowered st₁)
    (hside : lowered.BecomesSide I db ctx st₁ lo names left)
    (hright : ∀ s₁ : Store, s₁.Ordered →
      ∃ lowered' st₂, ((lowererWithin standardRules n).sequence right.term parent).Gives ctx
          { st₁ with store := s₁ } lowered' st₂ ∧ st₂.ranking.Covers standardRules ∧
        lowered'.BecomesSide I db ctx st₂ s₁.queries.size names right)
    (hcovers : st.ranking.Covers standardRules) :
    ∃ lowered' st', ((lowererWithin standardRules (n + 1)).sequence
        (combine operation left right).term parent).Gives ctx st lowered' st' ∧
      st'.ranking.Covers standardRules ∧
      lowered'.Lists I db st'.store lo names (combine operation left right) ∧
      (st'.store.query lowered'.query).setOperators ≠ [] := by
  obtain ⟨side, s₁, hgives₁, hlists₁⟩ := hside.asSide
    (fun q => q.setOperators.any fun other => other.operation != operation) fun _ _ => rfl
  obtain ⟨lowered', st₂, hgives₂, hcovers₂, hside₂⟩ := hright s₁ hlists₁.ordered
  obtain ⟨side', s₂, hgives₃, hlists₂⟩ := hside₂.asSide Query.hasSetOperators fun _ _ => rfl
  -- nothing is changed below the first side while the second one is lowered
  have hframe := lowererWithin_keeps s₁.queries.size n
  obtain ⟨hkeeps₂, habove⟩ := hframe.sequence _ _ ctx _ _ _ (Nat.le_refl _) hgives₂
  have hkeeps : s₁.KeepsBelow s₁.queries.size s₂ := hkeeps₂.trans
    ((LowerM.keeps_bounded _).asSide habove _ ctx st₂ _ _ hkeeps₂.queries hgives₃).1
  have hpaths : side.projection.leaves.map (·.1) = side'.projection.leaves.map (·.1) :=
    hlists₁.paths.trans hlists₂.paths.symm
  have hcombine : (setOperationRule.lower (lowererWithin standardRules n)
      (combine operation left right).term parent).Gives ctx st side
        { st₂ with
          store := s₂.modifyQuery side.query fun q =>
            { q with setOperators := q.setOperators ++ [⟨operation, side'.query⟩] } } := by
    rw [lower_combine]
    refine (hleft.lowerSource hside.outcome).bind (hgives₁.bind ?_)
    refine (LowerM.Gives.pure right.term).bind (hgives₂.bind ?_)
    rw [hside₂.outcome]
    refine hgives₃.bind ?_
    simp only [hpaths, bne_self_eq_false, Bool.false_eq_true, if_false]
    exact (LowerM.Gives.modifyQuery _ _).bind (LowerM.Gives.pure side)
  obtain ⟨ranking, hdispatch, hcovers'⟩ :=
    hcombine.dispatch (accepted_combine operation left right) hcovers hcovers₂
  refine ⟨side, _, hdispatch, hcovers', hlists₁.combine hlists₂ hkeeps operation, ?_⟩
  rw [Store.query_modifyQuery_self (Nat.lt_of_lt_of_le hlists₁.valid hkeeps.queries)]
  simp

/-- Every tree is lowered to what becomes a side that lists its rows. -/
theorem lowers (I : Interpretation V) (db : Database V) (parent : Option QueryRef)
    (tree : SetTree) :
    ∀ (st : LowerState) {n : Nat}, tree.MapsIn ctx.schema → tree.Selects names →
      4 * (tree.term.size + 1) ≤ n → st.store.Ordered → st.ranking.Covers standardRules →
      ∃ lowered st', ((lowererWithin standardRules n).sequence tree.term parent).Gives ctx st
          lowered st' ∧
        st'.ranking.Covers standardRules ∧
        lowered.BecomesSide I db ctx st' st.store.queries.size names tree := by
  induction tree with
  | chain name entity operators =>
    intro st n hmaps hselects hn hordered hcovers
    obtain ⟨σ, hshape, hnames⟩ := hselects
    obtain ⟨lowered, st', hgives, hrepresents, hcovers'⟩ :=
      operators.lowers I db hmaps parent st hshape hn hordered hcovers
    obtain ⟨hkeeps, habove⟩ := (lowererWithin_keeps st.store.queries.size n).sequence _ _ ctx _ _
      _ (Nat.le_refl _) hgives
    exact ⟨lowered, st', hgives, hcovers', hrepresents.outcome, fun test htest =>
      hrepresents.asSide hnames ctx htest habove (st.store.readsAbove_size.keeps hkeeps)⟩
  | combine operation left right ihleft ihright =>
    intro st n hmaps hselects hn hordered hcovers
    have hsize : (combine operation left right).term.size =
        left.term.size + (right.term.size + 0) + 1 := rfl
    obtain ⟨n, rfl⟩ := Nat.exists_eq_add_of_le' (show 1 ≤ n by omega)
    obtain ⟨lowered, st₁, hleft, hcovers₁, hside⟩ :=
      ihleft st (n := n) hmaps.1 hselects.1 (by omega) hordered hcovers
    obtain ⟨lowered', st', hgives, hcovers', hlists, hoperators⟩ :=
      combine_lowers operation hleft hside (fun s₁ hordered₁ =>
        ihright { st₁ with store := s₁ } hmaps.2 hselects.2 (by omega) hordered₁ hcovers₁) hcovers
    exact ⟨lowered', st', hgives, hcovers', hlists.outcome, fun test _ =>
      hlists.asSide hoperators ctx test⟩

end SetTree

/-! ## Members of the result -/

/-- The members of a row, each read from its column. -/
def readTuple {V : Type} (columns : List ResultColumn) (tuple : List V) :
    List (String × Option V) :=
  columns.map fun c => (c.path, tuple[c.index]?)

omit [DecidableEq V] in
/-- Columns in the order of the members of a row hold these members. -/
theorem readTuple_resultColumns (row : List (String × V)) :
    readTuple (resultColumns (row.map (·.1))) (rowValues row) =
      row.map fun (name, v) => (name, some v) := by
  refine List.ext_getElem (by simp [readTuple, resultColumns]) fun i hi hi' => ?_
  have hlength : i < row.length := by simpa using hi'
  simp [readTuple, resultColumns, rowValues, hlength]

/-- A sequence whose members are told apart gets no more columns when it is closed, and each member
is read from its position. -/
theorem Lowered.SelectsMembers.toStatement (h : lowered.SelectsMembers st.store names)
    (hapart : st.store.TellsApart lowered.query) (ctx : LowerContext) :
    ∃ statement, lowered.toStatement.Gives ctx st (statement, .sequence (resultColumns names)) st ∧
      statement.body = .select ∧ statement.query = lowered.query := by
  obtain ⟨σ, hfits, -⟩ := h.fits
  have hselect := LowerM.Gives.selectProjection_apart ctx hapart h.selected hfits.isGrouping
  rw [h.paths] at hselect
  have hclose : lowered.close.Gives ctx st (.select, .sequence (resultColumns names)) st := by
    unfold Lowered.close
    rw [h.outcome]
    exact hselect.bind (LowerM.Gives.pure _)
  exact ⟨_, hclose.bind (LowerM.Gives.get.bind (LowerM.Gives.pure _)), rfl, rfl⟩

/-- A tree of set operators is lowered to a query with as many set operators, each with the form of
its side.  If the columns of the queries with set operators are told apart, its tuples are the rows
of the tree, each column of the result holds the member it is named for, in all sides alike, and
whoever reads the query from outside reads each member from its column. -/
theorem SetTree.combine_rows (I : Interpretation V) (db : Database V) {operation : SetOperation}
    {left right : SetTree} {ranking : Ranking}
    (hmaps : (combine operation left right).MapsIn ctx.schema)
    (hselects : (combine operation left right).Selects names)
    (hranking : ranking.Covers standardRules) :
    ∃ lowered st, (lowerSequence standardRules (combine operation left right).term).Gives ctx
        { ranking } lowered st ∧
      (st.store.MembersApart →
        st.store.Builds I db names 0 st.store.queries.size lowered.query
          (st.store.query lowered.query).setOperators (combine operation left right) ∧
        (∃ tuples, st.store.Tuples I db 0 st.store.queries.size lowered.query
            (st.store.query lowered.query).setOperators tuples ∧
          tuples.map (readTuple (resultColumns names)) =
            ((combine operation left right).run I db).map fun row =>
              row.map fun (name, v) => (name, some v)) ∧
        (∃ statement, lowered.toStatement.Gives ctx st
            (statement, .sequence (resultColumns names)) st ∧
          statement.body = .select ∧ statement.query = lowered.query) ∧
        ∃ outer st', (LowerM.wrap lowered).Gives ctx st outer st' ∧
          outer.projection.leaves.map (·.1) = names ∧
          outer.projection.scalars =
            (st.store.query lowered.query).columns.map Scalar.column) := by
  have hsize : (combine operation left right).term.size =
      left.term.size + (right.term.size + 0) + 1 := rfl
  have hdepth : loweringDepth (combine operation left right).term =
      4 * (left.term.size + right.term.size + 2) - 1 + 1 := by
    rw [loweringDepth, hsize]
    omega
  obtain ⟨lowered, st₁, hleft, hcovers₁, hside⟩ := lowers I db none left { ranking }
    (n := 4 * (left.term.size + right.term.size + 2) - 1) hmaps.1 hselects.1 (by omega)
    Store.ordered_empty hranking
  obtain ⟨lowered', st', hgives, -, hlists, hoperators⟩ :=
    combine_lowers operation hleft hside (fun s₁ hordered₁ =>
      lowers I db none right { st₁ with store := s₁ } hmaps.2 hselects.2 (by omega) hordered₁
        hcovers₁) hranking
  refine ⟨lowered', st', ?_, fun hapart => ?_⟩
  · rw [lowerSequence, hdepth]
    exact hgives
  · have hbuilds := hlists.builds hapart
    have hmembers := hapart _ hoperators
    obtain ⟨σ, hfits, -⟩ := hlists.fits
    obtain ⟨p', hwrap, hpaths, hscalars⟩ := Lowered.wrap_apart ctx hlists.valid hmembers
      hlists.selected hfits hlists.parts
    refine ⟨hbuilds, ⟨_, hbuilds.tuples, ?_⟩, hlists.toStatement hmembers ctx, _, _, hwrap,
      hpaths.trans hlists.paths, hscalars⟩
    rw [List.map_map]
    refine List.map_congr_left fun row hrow => ?_
    rw [Function.comp_apply, ← hbuilds.names_of_mem row hrow, readTuple_resultColumns]

namespace SetTree

/-- People's ages next to their nicknames. -/
def byAge (people : Pipeline) : SetTree :=
  .chain "Person" Pipeline.personMapping (.select people (.fn "p" (.record
    [("A", .member (.bound "p") "Age"), ("B", .member (.bound "p") "Nickname")])))

/-- People's nicknames next to their ages. -/
def byNickname : SetTree :=
  .chain "Person" Pipeline.personMapping (.select .table (.fn "p" (.record
    [("A", .member (.bound "p") "Nickname"), ("B", .member (.bound "p") "Age")])))

/-- Everyone in both ways but for adults in the first way, with operators on both sides. -/
def bothWays : SetTree :=
  .combine .except (.combine .union (byAge .table) byNickname)
    (.combine .intersect (byAge .table) (byAge (.filter .table (.fn "p" (.binary .greaterOrEqual
      (.member (.bound "p") "Age") (.constant (.integer 18)))))))

/-- The rows of a tree with nested operators whose sides have the members in different orders of
columns. -/
theorem combine_rows_bothWays :
    ∃ lowered st tuples statement,
      (lowerSequence standardRules bothWays.term).Gives Pipeline.personContext
        { ranking := Pipeline.givenOrder } lowered st ∧
      st.store.Tuples .nullableIntegers (Pipeline.peopleOf [(some 20, 30), (none, 17)]) 0
        st.store.queries.size lowered.query (st.store.query lowered.query).setOperators tuples ∧
      lowered.toStatement.Gives Pipeline.personContext st
        (statement, .sequence [⟨"A", 0⟩, ⟨"B", 1⟩]) st ∧
      tuples.map (readTuple [⟨"A", 0⟩, ⟨"B", 1⟩]) =
        [[("A", some (some 17)), ("B", some none)], [("A", some (some 20)), ("B", some (some 30))],
          [("A", some none), ("B", some (some 17))]] := by
  have hperson : Pipeline.personContext.schema.Maps "Person" Pipeline.personMapping :=
    ⟨rfl, by simp [Pipeline.personMapping]⟩
  have hmaps : bothWays.MapsIn Pipeline.personContext.schema :=
    ⟨⟨hperson, hperson⟩, hperson, hperson⟩
  have hselects : bothWays.Selects ["A", "B"] :=
    ⟨⟨⟨_, rfl, rfl⟩, ⟨_, rfl, rfl⟩⟩, ⟨_, rfl, rfl⟩, ⟨_, rfl, rfl⟩⟩
  have hcovers : Pipeline.givenOrder.Covers standardRules := by
    unfold Ranking.Covers
    decide +kernel
  obtain ⟨lowered, st, hgives, hrows⟩ := combine_rows Interpretation.nullableIntegers
    (Pipeline.peopleOf [(some 20, 30), (none, 17)]) hmaps hselects hcovers
  have hrun : ((lowerSequence standardRules bothWays.term).run Pipeline.personContext).run.run
      { ranking := Pipeline.givenOrder } = (.ok lowered, st) := hgives
  have hapart : (((lowerSequence standardRules bothWays.term).run
      Pipeline.personContext).run.run { ranking := Pipeline.givenOrder }).2.store.MembersApart := by
    decide +kernel
  rw [hrun] at hapart
  obtain ⟨-, ⟨tuples, htuples, hread⟩, ⟨statement, hstatement, -, -⟩, -⟩ := hrows hapart
  exact ⟨lowered, st, tuples, statement, hgives, htuples, hstatement, hread⟩

end SetTree

end SqlCompiler
