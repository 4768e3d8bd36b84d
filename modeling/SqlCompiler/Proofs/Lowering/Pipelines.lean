import SqlCompiler.Lowering.Statement
import SqlCompiler.Proofs.Lowering.Tables

/-!
# Chains of operators on a table

A chain of conditions, selectors, limits, offsets and `Distinct` on a mapped entity is lowered to
a query whose rows stand for what the operators make of the elements, one after the other.

Main results:

- Definition `Pipeline`, with `Pipeline.term`, `Pipeline.shape?` and `Pipeline.run`: a chain, the
  term it is written as, the shape of its elements and the elements themselves.
- Theorem `Pipeline.lowers`: lowering a chain gives its elements.
- Theorem `Pipeline.statement_rows`: the columns that a statement says its members are read from
  hold these members.
- Theorem `Pipeline.comparison_depends_on_absent_constant`: why no test for equality may be made
  of a member that is the absent constant.
-/

namespace SqlCompiler

/-! ## Chains -/

/-- A chain of operators on the elements of an entity. -/
inductive Pipeline where
  | table
  | filter (source : Pipeline) (condition : Term)
  | select (source : Pipeline) (selector : Term)
  | take (source : Pipeline) (count : Nat)
  | skip (source : Pipeline) (count : Nat)
  | distinct (source : Pipeline)
  deriving Inhabited

namespace Pipeline

/-- The chain as a query term. -/
def term (entity : String) : Pipeline → Term
  | table => .table entity
  | filter source condition => (source.term entity).filter condition
  | select source selector => (source.term entity).select selector
  | take source count => (source.term entity).apply .take [.constant (.integer count)]
  | skip source count => (source.term entity).apply .skip [.constant (.integer count)]
  | distinct source => (source.term entity).apply .distinct []

/-- The shape of the elements of a chain, if its functions have one. -/
def shape? (σ : Shape) : Pipeline → Option Shape
  | table => some σ
  | filter source condition =>
    match source.shape? σ with
    | some τ =>
      match condition.functionShape? τ with
      | some (.value _) => some τ
      | _ => none
    | none => none
  | select source selector =>
    match source.shape? σ with
    | some τ => selector.functionShape? τ
    | none => none
  | take source _ | skip source _ | distinct source => source.shape? σ

section

variable {V : Type} [DecidableEq V] (I : Interpretation V)

/-- What a chain makes of elements. -/
def run (elements : List (Element V)) : Pipeline → List (Element V)
  | table => elements
  | filter source condition => keepElements I condition (source.run elements)
  | select source selector => (source.run elements).map fun e => selector.applyTo I e
  | take source count => (source.run elements).take count
  | skip source count => (source.run elements).drop count
  | distinct source => distinctElements (source.run elements)

end

end Pipeline

/-! ## Lowering a chain -/

section

variable {ctx : LowerContext} {st : LowerState} {l : Lowerer} {lowered : Lowered}
  {operator : SequenceOperator} {source : Term} {rest : List Term} {parent : Option QueryRef}

/-- The sequence an operator is applied to. -/
theorem LowerM.Gives.lowerSource {st' : LowerState}
    (hsource : (l.sequence source parent).Gives ctx st lowered st')
    (houtcome : lowered.outcome = .sequence) :
    (CallSite.lowerSource { operator, args := source :: rest, parent } l).Gives ctx st lowered
      st' := by
  refine hsource.bind ?_
  have hcheck : (CallSite.checkSequence { operator, args := source :: rest, parent } source
      lowered).Gives ctx st' () st' := by
    rw [CallSite.checkSequence, houtcome]
    exact LowerM.Gives.pure ()
  exact hcheck.bind (LowerM.Gives.pure lowered)

end

namespace Pipeline

variable {V : Type} [DecidableEq V] {ctx : LowerContext} {e : EntityMapping} {name : String}

/-- What the one rule for a term gives is given for the term. -/
theorem lowers_of_rule {I : Interpretation V} {db : Database V} {parent : Option QueryRef}
    {st st₁ : LowerState} {lowered : Lowered} {s' : Store} {σ : Shape} {elements : List (Element V)}
    {n : Nat} {t : Term} (rule : Rule) (hlower : (rule.lower (lowererWithin standardRules n) t
      parent).Gives ctx st lowered { st₁ with store := s' })
    (hrepresents : lowered.Represents I db s' σ elements)
    (hcovers : st.ranking.Covers standardRules) (hcovers₁ : st₁.ranking.Covers standardRules)
    (honly : standardRules.filter (·.accepts t) = [rule]) :
    ∃ lowered st', ((lowererWithin standardRules (n + 1)).sequence t parent).Gives ctx st lowered
        st' ∧ lowered.Represents I db st'.store σ elements ∧ st'.ranking.Covers standardRules := by
  obtain ⟨ranking, hdispatch, hcovers'⟩ := hlower.dispatch honly hcovers hcovers₁
  exact ⟨lowered, _, hdispatch, hrepresents, hcovers'⟩

/-- Lowering a chain gives its elements. -/
theorem lowers (I : Interpretation V) (db : Database V) (hmaps : ctx.schema.Maps name e)
    (parent : Option QueryRef) (p : Pipeline) :
    ∀ (st : LowerState) {σ : Shape} {n : Nat}, p.shape? e.shape = some σ →
      4 * ((p.term name).size + 1) ≤ n → st.store.Ordered → st.ranking.Covers standardRules →
      ∃ lowered st',
        ((lowererWithin standardRules n).sequence (p.term name) parent).Gives ctx st lowered st' ∧
        lowered.Represents I db st'.store σ (p.run I (e.elements db)) ∧
        st'.ranking.Covers standardRules := by
  induction p with
  | table =>
    intro st σ n hshape hn hordered hcovers
    cases hshape
    obtain ⟨n, rfl⟩ := Nat.exists_eq_add_of_le' (Nat.le_trans (Nat.le_add_left 1 7) hn)
    obtain ⟨lowered, s', hread, hrepresents⟩ :=
      LowerM.Gives.readType I db hmaps parent hordered
    exact lowers_of_rule tableRule hread hrepresents hcovers hcovers rfl
  | filter source condition ih =>
    intro st σ n hshape hn hordered hcovers
    rw [shape?] at hshape
    split at hshape
    · next τ hsource =>
      split at hshape
      · next hcondition =>
        cases hshape
        have hsize : ((filter source condition).term name).size =
            (source.term name).size + (condition.size + 0) + 1 := rfl
        obtain ⟨n, rfl⟩ := Nat.exists_eq_add_of_le' (show 1 ≤ n by omega)
        obtain ⟨lowered, st₁, hgives, hrepresents, hcovers₁⟩ :=
          ih st (n := n) hsource (by omega) hordered hcovers
        obtain ⟨lowered', s', hfilter, hrepresents'⟩ :=
          hrepresents.filter ctx standardRules (n := n) hcondition (by omega)
        exact lowers_of_rule whereRule ((hgives.lowerSource hrepresents.outcome).bind
          ((LowerM.Gives.pure condition).bind hfilter)) hrepresents' hcovers hcovers₁ rfl
      · cases hshape
    · cases hshape
  | select source selector ih =>
    intro st σ n hshape hn hordered hcovers
    rw [shape?] at hshape
    split at hshape
    · next τ hsource =>
      have hsize : ((select source selector).term name).size =
          (source.term name).size + (selector.size + 0) + 1 := rfl
      obtain ⟨n, rfl⟩ := Nat.exists_eq_add_of_le' (show 1 ≤ n by omega)
      obtain ⟨lowered, st₁, hgives, hrepresents, hcovers₁⟩ :=
        ih st (n := n) hsource (by omega) hordered hcovers
      obtain ⟨lowered', s', hselect, hrepresents'⟩ :=
        hrepresents.project ctx standardRules (n := n) hshape (by omega)
      exact lowers_of_rule selectRule ((hgives.lowerSource hrepresents.outcome).bind hselect)
        hrepresents' hcovers hcovers₁ rfl
    · cases hshape
  | take source count ih =>
    intro st σ n hshape hn hordered hcovers
    have hsize : ((take source count).term name).size = (source.term name).size + 1 + 1 := rfl
    obtain ⟨n, rfl⟩ := Nat.exists_eq_add_of_le' (show 2 ≤ n by omega)
    obtain ⟨lowered, st₁, hgives, hrepresents, hcovers₁⟩ :=
      ih st (n := n + 1) hshape (by omega) hordered hcovers
    obtain ⟨lowered', s', hpage, hrepresents'⟩ := hrepresents.page ctx .take count
    exact lowers_of_rule takeSkipRule ((hgives.lowerSource hrepresents.outcome).bind hpage)
      hrepresents' hcovers hcovers₁ rfl
  | skip source count ih =>
    intro st σ n hshape hn hordered hcovers
    have hsize : ((skip source count).term name).size = (source.term name).size + 1 + 1 := rfl
    obtain ⟨n, rfl⟩ := Nat.exists_eq_add_of_le' (show 2 ≤ n by omega)
    obtain ⟨lowered, st₁, hgives, hrepresents, hcovers₁⟩ :=
      ih st (n := n + 1) hshape (by omega) hordered hcovers
    obtain ⟨lowered', s', hpage, hrepresents'⟩ := hrepresents.page ctx .skip count
    exact lowers_of_rule takeSkipRule ((hgives.lowerSource hrepresents.outcome).bind hpage)
      hrepresents' hcovers hcovers₁ rfl
  | distinct source ih =>
    intro st σ n hshape hn hordered hcovers
    have hsize : ((distinct source).term name).size = (source.term name).size + 0 + 1 := rfl
    obtain ⟨n, rfl⟩ := Nat.exists_eq_add_of_le' (show 1 ≤ n by omega)
    obtain ⟨lowered, st₁, hgives, hrepresents, hcovers₁⟩ :=
      ih st (n := n) hshape (by omega) hordered hcovers
    obtain ⟨lowered', s', hdistinct, hrepresents'⟩ := hrepresents.distinct ctx
    exact lowers_of_rule distinctRule ((hgives.lowerSource hrepresents.outcome).bind hdistinct)
      hrepresents' hcovers hcovers₁ rfl

end Pipeline

/-! ## Columns of the result -/

section

variable {V : Type} {I : Interpretation V} {ctx : LowerContext} {st : LowerState}
  {s s' : Store} {q : QueryRef} {E : Scalar → Prop} {leaf : String × Scalar}

/-- A column of the result is that of a leaf: it has the path of the leaf, and the column at its
position has the value of the leaf. -/
structure ResultColumn.IsFor (I : Interpretation V) (s : Store) (q : QueryRef)
    (leaf : String × Scalar) (column : ResultColumn) : Prop where
  path : column.path = leaf.1
  exposes : ∃ c, (s.query q).columns[column.index]? = some c ∧ s.Exposes I q leaf.2 c

theorem ResultColumn.IsFor.grows {column : ResultColumn} (h : column.IsFor I s q leaf)
    (hordered : s.Ordered) (hgrows : s.Grows E q s') : column.IsFor I s' q leaf := by
  obtain ⟨hpath, c, hget, hexposes⟩ := h
  obtain ⟨new, hquery, -⟩ := hgrows.added
  refine ⟨hpath, c, ?_, hexposes.grows hordered hgrows⟩
  rw [hquery, List.getElem?_append_left (List.getElem?_eq_some_iff.mp hget).1]
  exact hget

/-- Every leaf is selected, and its column is found. -/
theorem LowerM.Gives.selectProjection (I : Interpretation V) (ctx : LowerContext)
    (q : QueryRef) :
    ∀ (leaves : List (String × Scalar)) (st : LowerState), st.store.Ordered →
      q.index < st.store.queries.size → (∀ leaf ∈ leaves, E leaf.2) →
      ∃ columns s', LowerM.Gives (leaves.mapM fun (path, e) => do
            let column ← LowerM.allocate fun s => s.addColumn q e (Projection.leafAlias path)
            let columns := ((← LowerM.store).query q).columns
            return { path, index := (columns.findIdx? (· == column)).getD 0 })
          ctx st columns { st with store := s' } ∧
        st.store.Grows E q s' ∧
        List.Forall₂ (fun leaf column => ResultColumn.IsFor I s' q leaf column) leaves columns
  | [], st, _, _, _ => ⟨[], st.store, pure _, .refl E q st.store, .nil⟩
  | (path, e) :: rest, st, hordered, hq, hE => by
    obtain ⟨hgrows, hexposes⟩ := Store.addColumn_exposes (I := I) hq
      (hE (path, e) List.mem_cons_self) (Projection.leafAlias path)
    let c := (st.store.addColumn q e (Projection.leafAlias path)).1
    let s₁ := (st.store.addColumn q e (Projection.leafAlias path)).2
    obtain ⟨columns, s₂, hrest, hgrows', hall⟩ :=
      selectProjection I ctx q rest { st with store := s₁ } (hgrows.ordered hordered)
        (by rw [hgrows.size]; exact hq) fun leaf hleaf => hE leaf (List.mem_cons_of_mem _ hleaf)
    have hfound : ((s₁.query q).columns.findIdx? (· == c)).isSome = true := by
      rw [List.findIdx?_isSome, List.any_eq_true]
      exact ⟨c, hexposes.mem, beq_self_eq_true c⟩
    obtain ⟨index, hindex⟩ := Option.isSome_iff_exists.mp hfound
    obtain ⟨hlength, hequal, -⟩ := List.findIdx?_eq_some_iff_getElem.mp hindex
    have hfirst : ResultColumn.IsFor I s₁ q (path, e) { path, index } := by
      refine ⟨rfl, c, ?_, hexposes⟩
      rw [List.getElem?_eq_getElem hlength, eq_of_beq hequal]
    refine ⟨{ path, index } :: columns, s₂, ?_, hgrows.trans hgrows',
      .cons (hfirst.grows (hgrows.ordered hordered) hgrows') hall⟩
    have hposition : ((s₁.query q).columns.findIdx? (· == c)).getD 0 = index := by
      rw [hindex, Option.getD_some]
    rw [List.mapM_cons]
    refine bind (bind (allocate _) (store.bind ?_)) (hrest.bind (pure _))
    exact hposition ▸ pure (ResultColumn.mk path _)

/-- The members of a row that a statement gives, each read from its column. -/
def readColumns (I : Interpretation V) (s : Store) (q : QueryRef) (columns : List ResultColumn)
    (ρ : Env V) : List (String × Option V) :=
  columns.map fun c => (c.path, (s.tuple I (s.query q) ρ)[c.index]?)

/-- The values of an element, each with its path. -/
def Element.readLeaves (e : Element V) : List (String × Option V) :=
  e.leaves.map fun leaf => (leaf.1, some leaf.2)

theorem readColumns_eq {leaves : List (String × Scalar)} {columns : List ResultColumn}
    (h : List.Forall₂ (fun leaf column => ResultColumn.IsFor I s q leaf column) leaves columns)
    (ρ : Env V) :
    readColumns I s q columns ρ = leaves.map fun leaf => (leaf.1, some (leaf.2.eval I ρ)) := by
  induction h with
  | nil => rfl
  | @cons leaf column leaves columns hcolumn _ ih =>
    obtain ⟨hpath, c, hget, hexposes⟩ := hcolumn
    have hvalue : (s.tuple I (s.query q) ρ)[column.index]? = some (leaf.2.eval I ρ) := by
      rw [Store.tuple, List.getElem?_map, hget, Option.map_some, hexposes.eval_eq]
    rw [readColumns, List.map_cons, List.map_cons, hvalue, hpath]
    exact congrArg _ ih

/-- A closed sequence gets columns, and each column of the result holds the member it is named
for. -/
theorem Lowered.toStatement_gives (I : Interpretation V) {σ : Shape} {lowered : Lowered}
    (houtcome : lowered.outcome = .sequence) (hfits : lowered.projection.Fits σ)
    (hordered : st.store.Ordered) (hvalid : lowered.query.index < st.store.queries.size)
    (ctx : LowerContext) (hE : ∀ leaf ∈ lowered.projection.leaves, E leaf.2) :
    ∃ statement columns s',
      lowered.toStatement.Gives ctx st (statement, .sequence columns) { st with store := s' } ∧
      statement.body = .select ∧ statement.query = lowered.query ∧
      st.store.Grows E lowered.query s' ∧
      ∀ ρ : Env V, readColumns I s' lowered.query columns ρ =
        (lowered.projection.denote I ρ).readLeaves := by
  obtain ⟨columns, s', hselect, hgrows, hcolumns⟩ := LowerM.Gives.selectProjection I ctx
    lowered.query lowered.projection.leaves st hordered hvalid hE
  have hrefuse : (LowerM.refuseGrouping lowered.projection).Gives ctx st () st := by
    rw [LowerM.refuseGrouping, hfits.isGrouping]
    exact LowerM.Gives.pure ()
  have hclose : lowered.close.Gives ctx st (.select, .sequence columns)
      { st with store := s' } := by
    unfold Lowered.close
    rw [houtcome]
    exact LowerM.Gives.bind (LowerM.Gives.bind hrefuse hselect) (LowerM.Gives.pure _)
  refine ⟨_, columns, s', hclose.bind (LowerM.Gives.get.bind (LowerM.Gives.pure _)), rfl, rfl,
    hgrows, fun ρ => ?_⟩
  rw [Element.readLeaves, Projection.leaves_denote, List.map_map, readColumns_eq hcolumns]
  rfl

/-- A closed sequence still gives its elements, and each column of the result holds the member it
is named for. -/
theorem Lowered.Represents.toStatement [DecidableEq V] {db : Database V} {σ : Shape}
    {elements : List (Element V)} {lowered : Lowered}
    (h : lowered.Represents I db st.store σ elements) (ctx : LowerContext) :
    ∃ statement columns s',
      lowered.toStatement.Gives ctx st (statement, .sequence columns) { st with store := s' } ∧
      statement.body = .select ∧ statement.query = lowered.query ∧
      ∃ rows, s'.Yields I db lowered.query rows ∧
        rows.map (fun ρ => lowered.projection.denote I ρ) = elements ∧
        rows.map (readColumns I s' lowered.query columns) = elements.map Element.readLeaves := by
  obtain ⟨rows, hyields, helements⟩ := h.yields
  let E : Scalar → Prop := fun e => ∀ ρ ρ' : Env V,
    lowered.projection.denote I ρ = lowered.projection.denote I ρ' → e.eval I ρ = e.eval I ρ'
  have hE : ∀ leaf ∈ lowered.projection.leaves, E leaf.2 := fun leaf hleaf ρ ρ' =>
    Projection.eval_eq_of_denote_eq hleaf
  obtain ⟨statement, columns, s', hstatement, hbody, hquery, hgrows, hcolumns⟩ :=
    Lowered.toStatement_gives I h.outcome h.fits h.ordered h.valid ctx hE
  have hyields' : s'.Yields I db lowered.query rows :=
    hgrows.yields h.ordered hyields fun hdistinct e he ρ ρ' heq =>
      he ρ ρ' ((h.selects.same hdistinct ρ ρ').mp heq)
  refine ⟨statement, columns, s', hstatement, hbody, hquery, rows, hyields', helements, ?_⟩
  rw [← helements, List.map_map]
  exact List.map_congr_left fun ρ _ => hcolumns ρ

end

/-! ## Statements of chains -/

section

variable {V : Type} [DecidableEq V] {e : EntityMapping} {name : String} {ctx : LowerContext}

theorem Store.ordered_empty : ({} : Store).Ordered := by
  have hquery : ∀ q, ({} : Store).query q = {} := fun q => Store.query_of_le (Nat.zero_le _)
  refine ⟨fun q source hsource => ?_, fun q source hsource => ?_, fun q c hc => ?_⟩
  · rw [hquery] at hsource
    cases hsource
  · rw [hquery] at hsource
    cases hsource
  · rw [hquery] at hc
    cases hc

/-- The statement of a chain gives what the operators make of the elements of the entity, one
after the other, and each column of the result holds the member it is named for. -/
theorem Pipeline.statement_rows (I : Interpretation V) (db : Database V) {p : Pipeline}
    {σ : Shape} {ranking : Ranking} (hmaps : ctx.schema.Maps name e)
    (hshape : p.shape? e.shape = some σ) (hranking : ranking.Covers standardRules) :
    ∃ lowered st, (lowerSequence standardRules (p.term name)).Gives ctx { ranking } lowered st ∧
      (∃ rows, st.store.Yields I db lowered.query rows ∧
        rows.map (fun ρ => lowered.projection.denote I ρ) = p.run I (e.elements db)) ∧
      ∃ statement columns st',
        lowered.toStatement.Gives ctx st (statement, .sequence columns) st' ∧
        statement.body = .select ∧ statement.query = lowered.query ∧
        ∃ rows, st'.store.Yields I db statement.query rows ∧
          rows.map (fun ρ => lowered.projection.denote I ρ) = p.run I (e.elements db) ∧
          rows.map (readColumns I st'.store statement.query columns) =
            (p.run I (e.elements db)).map Element.readLeaves := by
  obtain ⟨lowered, st, hgives, hrepresents, -⟩ := Pipeline.lowers I db hmaps none p
    { ranking } hshape (Nat.le_refl _) Store.ordered_empty hranking
  obtain ⟨statement, columns, s', hstatement, hbody, hquery, hrows⟩ := hrepresents.toStatement ctx
  exact ⟨lowered, st, hgives, hrepresents.yields, statement, columns, _, hstatement, hbody, hquery,
    hquery.symm ▸ hrows⟩

end

namespace Pipeline

/-- People with a nickname, which may be absent, and an age. -/
def personMapping : EntityMapping :=
  { name := "Person"
    columns := [{ member := "Nickname", kind := .int32, nullable := true },
      { member := "Age", kind := .int32 }] }

/-- Terms about people. -/
def personContext : LowerContext :=
  { schema := { entities := [personMapping] }, provider := .ofDialect .generic }

/-- People of given nicknames and ages. -/
def peopleOf (rows : List (Option Int × Int)) : Database (Option Int) :=
  fun _ => rows.map fun (nickname, age) member => if member == "Age" then some age else nickname

/-- Two of the different ages of adults. -/
def twoAdultAges : Pipeline :=
  .take (.distinct (.select
    (.filter .table
      (.fn "p" (.binary .greaterOrEqual (.member (.bound "p") "Age") (.constant (.integer 18)))))
    (.fn "p" (.record [("Age", .member (.bound "p") "Age")])))) 2

/-- The statement of a chain with a condition, a selector, `Distinct` and a limit. -/
theorem statement_rows_twoAdultAges :
    ∃ lowered st statement columns st' rows,
      (lowerSequence standardRules (twoAdultAges.term "Person")).Gives personContext
        { ranking := .ofRules standardRules } lowered st ∧
      lowered.toStatement.Gives personContext st (statement, .sequence columns) st' ∧
      st'.store.Yields .nullableIntegers
        (peopleOf [(none, 30), (some 1, 17), (some 2, 30), (none, 18), (none, 40)])
        statement.query rows ∧
      rows.map (readColumns .nullableIntegers st'.store statement.query columns) =
        [[("Age", some (some 30))], [("Age", some (some 18))]] := by
  have hmaps : personContext.schema.Maps "Person" personMapping := ⟨rfl, by simp [personMapping]⟩
  have hshape : twoAdultAges.shape? personMapping.shape =
      some (.record [("Age", .value false)]) := rfl
  obtain ⟨lowered, st, hgives, -, statement, columns, st', hstatement, -, -, rows, hyields, -,
      hrows⟩ :=
    statement_rows Interpretation.nullableIntegers
      (peopleOf [(none, 30), (some 1, 17), (some 2, 30), (none, 18), (none, 40)]) hmaps hshape
      (Ranking.covers_ofRules standardRules)
  refine ⟨lowered, st, statement, columns, st', rows, hgives, hstatement, hyields, hrows.trans ?_⟩
  rfl

/-- The rules in the order they are given. -/
def givenOrder : Ranking :=
  { uses := standardRules.zipIdx.map fun (rule, order) =>
      { name := rule.name, isFallback := rule.isFallback, order } }

/-- What a chain on people is lowered to. -/
def lowerPeople (p : Pipeline) : Except SqlError Lowered × LowerState :=
  ((lowerSequence standardRules (p.term "Person")).run personContext).run.run
    { ranking := givenOrder }

/-- Everyone's nickname next to the absent constant. -/
def nicknames : Pipeline :=
  .select .table
    (.fn "p" (.record [("None", .null), ("Nickname", .member (.bound "p") "Nickname")]))

/-- Whether a nickname is the one next to it. -/
def isNone : Term :=
  .fn "r" (.binary .equal (.member (.bound "r") "None") (.member (.bound "r") "Nickname"))

/-- The rows of a chain on people are those of the query it is lowered to. -/
theorem rows_of_lowerPeople {I : Interpretation (Option Int)} {db : Database (Option Int)}
    {p : Pipeline} {lowered : Lowered} {st : LowerState} {q : QueryRef}
    {rows rows' : List (Env (Option Int))}
    (hgives : (lowerSequence standardRules (p.term "Person")).Gives personContext
      { ranking := givenOrder } lowered st)
    (hyields : st.store.Yields I db lowered.query rows)
    (hquery : (lowerPeople p).1.map (·.query) = .ok q)
    (hyields' : (lowerPeople p).2.store.Yields I db q rows') : rows = rows' := by
  have hrun : lowerPeople p = (.ok lowered, st) := hgives
  rw [hrun] at hquery hyields'
  cases hquery
  exact hyields.unique hyields'

/-- Which of the people without a nickname are kept depends on one comparison. -/
theorem length_keep_isNone (compare : Comparison → Option Int → Option Int → Truth) :
    (keepElements { Interpretation.nullableIntegers with compare } isNone
        [.record [("None", .value none), ("Nickname", .value none)]]).length =
      if compare .equal none none = some true then 1 else 0 := by
  have hkept : keepElements { Interpretation.nullableIntegers with compare } isNone
      [.record [("None", .value none), ("Nickname", .value none)]] =
        [.record [("None", .value none), ("Nickname", .value none)]].filter fun _ =>
          Interpretation.nullableIntegers.toTruth
            (Interpretation.nullableIntegers.ofTruth (compare .equal none none)) == some true :=
    rfl
  rw [hkept, Interpretation.toTruth_ofTruth]
  by_cases htruth : compare .equal none none = some true
  · simp [htruth]
  · simp [htruth]

/-- No meaning of comparisons of values makes both chains right: next to the absent constant, a
nickname is tested for absence, and once the constant is a column of a nested query, no comparison
with it is true. -/
theorem comparison_depends_on_absent_constant :
    ¬ ∃ compare : Comparison → Option Int → Option Int → Truth,
      ∀ p ∈ [filter nicknames isNone, filter (take nicknames 100) isNone],
        ∃ lowered st rows,
          (lowerSequence standardRules (p.term "Person")).Gives personContext
            { ranking := givenOrder } lowered st ∧
          st.store.Yields .nullableIntegers (peopleOf [(none, 30)]) lowered.query rows ∧
          rows.map (fun ρ => lowered.projection.denote .nullableIntegers ρ) =
            p.run { Interpretation.nullableIntegers with compare }
              (personMapping.elements (peopleOf [(none, 30)])) := by
  rintro ⟨compare, h⟩
  obtain ⟨lowered, st, rows, hgives, hyields, hrows⟩ := h _ List.mem_cons_self
  obtain ⟨lowered', st', rows', hgives', hyields', hrows'⟩ :=
    h _ (List.mem_cons_of_mem _ List.mem_cons_self)
  have hmerged : (lowerPeople (filter nicknames isNone)).2.store.Yields .nullableIntegers
      (peopleOf [(none, 30)]) ⟨0⟩ _ :=
    .ofTable (t := ⟨0⟩) (by decide +kernel)
  have hinner : (lowerPeople (filter (take nicknames 100) isNone)).2.store.Yields
      .nullableIntegers (peopleOf [(none, 30)]) ⟨0⟩ _ :=
    .ofTable (t := ⟨0⟩) (by decide +kernel)
  have hnested := hinner.ofQuery (q := ⟨1⟩) (by decide +kernel)
  have hquery : (lowerPeople (filter (take nicknames 100) isNone)).1.map (·.query) = .ok ⟨1⟩ := by
    decide +kernel
  have hone : rows.length = 1 := by
    rw [rows_of_lowerPeople hgives hyields rfl hmerged]
    decide +kernel
  have hzero : rows'.length = 0 := by
    rw [rows_of_lowerPeople hgives' hyields' hquery hnested]
    decide +kernel
  have hkept := congrArg List.length hrows
  have hdropped := congrArg List.length hrows'
  rw [List.length_map, hone] at hkept
  rw [List.length_map, hzero] at hdropped
  have htrue := hkept.trans (length_keep_isNone compare)
  have hfalse := hdropped.trans (length_keep_isNone compare)
  exact absurd (htrue.trans hfalse.symm) (by decide)

end Pipeline

end SqlCompiler
