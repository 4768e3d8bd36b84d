import SqlCompiler.Proofs.Columns.Agreement
import SqlCompiler.Proofs.Columns.Aliases
import SqlCompiler.Proofs.Columns.Rewriting
import SqlCompiler.Proofs.Columns.Steps
import SqlCompiler.Proofs.Lowering.PervasiveRules

/-!
# Names of columns

When a query is read from outside, each leaf of its projection becomes a column with the path of the
leaf as its alias, unless the query selects the scalar already.

Lowering, dropping unused columns and legalizing neither move nor rename a column, so that each query
of a finished statement selects columns of its own.  Two of them have the same name in any case if
and only if they were given the same alias before: aliases that are made up never clash, and those
that a projection asks for are not looked at.

Main results:

- Theorem `lowerStatement_owned`: each query of a lowered statement selects columns of its own.
- Theorem `Compiler.columns_clash_iff`: which columns of a finished statement clash.
-/

namespace SqlCompiler

/-! ## Lowering -/

/-- Keeping a property that lasts while columns are added and dropped lasts through all steps but the
choice of a rule. -/
theorem LowerM.keeping_pervasive {P : Store → Prop} (hP : ∀ s s' : Store, s.Evolves s' → P s → P s') :
    LowerM.Pervasive fun {_} step => ∀ ctx, step.Triple ctx P fun _ => P where
  pure := (LowerM.keeping_closed P).pure
  throw := (LowerM.keeping_closed P).throw
  bind hstep hnext ctx st b st'' hs hgives := by
    obtain ⟨a, st', hfirst, hrest⟩ := hgives.of_bind
    exact hnext ctx st a st' hfirst ctx st' b st'' (hstep ctx st a st' hs hfirst) hrest
  read := (LowerM.keeping_closed P).read
  store := (LowerM.keeping_closed P).store
  withVariables := (LowerM.keeping_closed P).withVariables
  annotate _ hstore _ st a st' hs hgives := by
    cases hgives
    exact (hstore st).symm ▸ hs
  allocate hevolves _ _ := LowerM.Triple.allocate fun s hs => hP s _ (hevolves s) hs

/-- So does choosing a rule. -/
theorem LowerM.keeping_dispatch {P : Store → Prop} {rules : List Rule} {l : Lowerer}
    (hrules : ∀ rule ∈ rules, ∀ t parent ctx, (rule.lower l t parent).Triple ctx P fun _ => P)
    (t : Term) (parent : Option QueryRef) (ctx : LowerContext) :
    (dispatch rules l t parent).Triple ctx P fun _ => P := by
  refine LowerM.Triple.get fun st => ?_
  split
  · exact .throw _
  · next position rule hfind =>
    refine (hrules rule (Ranking.mem_of_find? hfind).1 t parent ctx).bind fun _ => ?_
    exact (LowerM.Triple.modifyState (by intro; rfl)).bind fun _ => .done _

/-- Each query of a lowered statement selects columns of its own. -/
theorem lowerStatement_owned (t : Term) (ctx : LowerContext) :
    LowerM.Triple ctx Store.Owned (do (← lowerSequence standardRules t).toStatement)
      fun _ => Store.Owned :=
  lowerStatement_pervasive (LowerM.keeping_pervasive fun _ _ hevolves (hs : Store.Owned _) =>
    hs.evolves hevolves) (fun _ hrules => LowerM.keeping_dispatch hrules) t ctx

namespace Store

theorem Owned.restructured {s legal : Store} {p : Provider} {t : StatementRef}
    {outcome : Except SqlError Unit} (hs : s.Owned) (h : s.restructured p t = (outcome, legal)) :
    legal.Owned := by
  have hevolves := Evolves.rewriting.restructured s p t
  rw [h] at hevolves
  exact hs.evolves hevolves

/-! ## Expressions -/

/-- Legalizing the expressions of a statement renames no column. -/
theorem aliasName_legalizeExpressions (s : Store) (p : Provider) (t : StatementRef) (c : ColumnRef) :
    ((s.legalizeExpressions p t).column c).aliasName = (s.column c).aliasName := by
  have hcolumns (transformer : Store → Transformer) (columns : List ColumnRef) (s : Store) :
      ((columns.foldl (transformColumn transformer) s).column c).aliasName =
        (s.column c).aliasName := by
    induction columns generalizing s with
    | nil => rfl
    | cons d rest ih =>
      refine (ih _).trans ?_
      rcases column_modifyColumn s d c fun column => { column with
        expression := (transformer s).scalar (s.column d).expression } with h | h
      · exact congrArg OutputColumn.aliasName h
      · exact (congrArg OutputColumn.aliasName h).trans rfl
  have hqueries (transformer : Store → Transformer) (queries : List QueryRef) (s : Store) :
      ((queries.foldl (transformQuery transformer) s).column c).aliasName =
        (s.column c).aliasName := by
    induction queries generalizing s with
    | nil => rfl
    | cons q rest ih => exact (ih _).trans (hcolumns transformer _ s)
  exact hqueries _ _ s

/-- A statement is legalized if it is restructured; then its expressions become legal, and its sources
and columns get aliases. -/
theorem legalizeStatement_ok_iff {s final : Store} {p : Provider} {t : StatementRef} :
    (legalizeStatement p t).runOn s = (.ok (), final) ↔ ∃ legal,
      s.restructured p t = (.ok (), legal) ∧
        final = (legal.legalizeExpressions p t).finalizeAliases t := by
  have hrun : (StoreM.ofPair fun s => s.restructured p t).runOn s = s.restructured p t := rfl
  rw [legalizeStatement, StoreM.runOn_bind, hrun]
  rcases s.restructured p t with ⟨outcome, legal⟩
  cases outcome with
  | error e => simp
  | ok _ =>
    refine ⟨fun h => ⟨legal, rfl, (Prod.mk.inj h).2.symm⟩, ?_⟩
    rintro ⟨_, hlegal, rfl⟩
    cases hlegal
    rfl

theorem legalizeStatement_eq {s final : Store} {p : Provider} {t : StatementRef}
    (h : (legalizeStatement p t).runOn s = (.ok (), final)) :
    final = ((s.restructured p t).2.legalizeExpressions p t).finalizeAliases t := by
  obtain ⟨legal, hlegal, hfinal⟩ := legalizeStatement_ok_iff.mp h
  rw [hlegal, hfinal]

end Store

/-! ## Finished statements -/

/-- Every column of every query of a finished statement has an alias.  Two columns of a query clash
if and only if they had the same alias, in any case, before aliases were given out. -/
theorem Compiler.columns_clash_iff (c : Compiler) (hrules : c.rules = standardRules) (r : Ranking)
    (t : Term) {statement : Statement} {shape : ResultShape} {state : LowerState} {final : Store}
    (h : c.runLowering r (do (← lowerSequence c.rules t).toStatement) =
      (.ok (statement, shape), state)) :
    let root := (state.store.addStatement statement).1
    let pruned := (state.store.addStatement statement).2.pruneColumns root
    (legalizeStatement c.provider root).runOn pruned = (.ok (), final) →
      ∀ q ∈ final.statementQueries root, ∀ column ∈ (final.query q).columns,
        (final.column column).aliasName.isSome = true ∧
          ∀ other ∈ (final.query q).columns, column ≠ other →
            (final.Clash column other ↔
              (pruned.restructured c.provider root).2.Clash column other) := by
  intro root pruned hlegal
  rw [hrules] at h
  have howned : state.store.Owned :=
    lowerStatement_owned t _ { ranking := r } (statement, shape) state Store.owned_empty h
  have hadded : state.store.Evolves (state.store.addStatement statement).2 := .ofContent rfl rfl
  have hpruned : pruned.Owned :=
    (howned.evolves hadded).evolves (Store.Evolves.rewriting.pruneColumns _ root)
  have hlegalOwned : ((pruned.restructured c.provider root).2.legalizeExpressions
      c.provider root).Owned :=
    (hpruned.evolves (Store.Evolves.rewriting.restructured pruned c.provider root)).evolves
      (Store.Evolves.rewriting.legalizeExpressions _ c.provider root)
  rw [Store.legalizeStatement_eq hlegal]
  intro q hq column hcolumn
  obtain ⟨hcolumns, hclash⟩ := Store.clash_finalizeAliases hlegalOwned root q hq
  rw [hcolumns] at hcolumn ⊢
  refine ⟨(hclash column hcolumn).1, fun other hother hne => ?_⟩
  refine ((hclash column hcolumn).2 other hother hne).trans (Store.clash_congr ?_ ?_)
  · exact Store.aliasName_legalizeExpressions _ c.provider root column
  · exact Store.aliasName_legalizeExpressions _ c.provider root other

/-- Ages, and ages in a year, under names that differ in case, are read through a subquery. -/
def Term.agesInTwoCases : Term :=
  ((Term.table "Person").select (.fn "p" (.record [("A", .member (.bound "p") "Age"),
    ("a", .binary .add (.member (.bound "p") "Age") (.constant (.integer 1)))]))).apply
      .asSubquery []

/-- The columns of the ages, and of the ages in a year. -/
def agesColumn : ColumnRef := ⟨0⟩

@[inherit_doc agesColumn]
def olderColumn : ColumnRef := ⟨1⟩

/-- Whether both are columns of one query, of the names they were given. -/
def Compiler.selectsBothAges (root : StatementRef) (pruned final : Store) : Bool :=
  let restructured := (pruned.restructured Compiler.ofPeople.provider root).2
  (final.statementQueries root).contains ⟨0⟩ &&
    (final.query ⟨0⟩).columns == [agesColumn, olderColumn] &&
    (restructured.column agesColumn).aliasName == some "A" &&
    (restructured.column olderColumn).aliasName == some "a"

/-- Whether that is so of the statement that the ages are compiled to. -/
def Compiler.compilesBothAges : Bool :=
  match Compiler.ofPeople.runLowering (.asGiven standardRules)
      (do (← lowerSequence standardRules Term.agesInTwoCases).toStatement) with
  | (.ok (statement, _), state) =>
    let (root, s) := state.store.addStatement statement
    match (legalizeStatement Compiler.ofPeople.provider root).runOn (s.pruneColumns root) with
    | (.ok (), final) => selectsBothAges root (s.pruneColumns root) final
    | (.error _, _) => false
  | (.error _, _) => false

/-- Both columns of the subquery keep the names they were given, and clash. -/
theorem Compiler.columns_clash_agesInTwoCases :
    ∃ statement shape state final,
      Compiler.ofPeople.runLowering (.asGiven standardRules)
        (do (← lowerSequence standardRules Term.agesInTwoCases).toStatement) =
          (.ok (statement, shape), state) ∧
      let root := (state.store.addStatement statement).1
      (legalizeStatement Compiler.ofPeople.provider root).runOn
        ((state.store.addStatement statement).2.pruneColumns root) = (.ok (), final) ∧
      ∃ q ∈ final.statementQueries root, ∃ column ∈ (final.query q).columns,
        ∃ other ∈ (final.query q).columns, column ≠ other ∧ final.Clash column other := by
  have hcompiles : Compiler.compilesBothAges = true := by decide +kernel
  unfold Compiler.compilesBothAges at hcompiles
  split at hcompiles
  · next statement shape state hrun =>
    dsimp only at hcompiles
    split at hcompiles
    · next final hlegal =>
      simp only [selectsBothAges, Bool.and_eq_true, beq_iff_eq] at hcompiles
      obtain ⟨⟨⟨hq, hcolumns⟩, hages⟩, holder⟩ := hcompiles
      have hq := List.contains_iff_mem.mp hq
      have hmem : agesColumn ∈ (final.query ⟨0⟩).columns := by rw [hcolumns]; decide
      have hmem' : olderColumn ∈ (final.query ⟨0⟩).columns := by rw [hcolumns]; decide
      have hne : agesColumn ≠ olderColumn := by decide
      refine ⟨statement, shape, state, final, hrun, hlegal, ⟨0⟩, hq, agesColumn, hmem, olderColumn,
        hmem', hne, ?_⟩
      have hclash := (Compiler.ofPeople.columns_clash_iff rfl _ _ hrun hlegal ⟨0⟩ hq agesColumn
        hmem).2 olderColumn hmem' hne
      exact hclash.mpr ⟨"A", "a", hages, holder, by decide +kernel⟩
    · cases hcompiles
  · cases hcompiles

end SqlCompiler
