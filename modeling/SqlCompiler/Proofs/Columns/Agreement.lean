import SqlCompiler.Compiler
import SqlCompiler.Proofs.Columns.Rules

/-!
# Column counts agree

All sides of a set operator select equally many columns in the statement a term is compiled to,
before it is legalized, and the query of an insert selects the inserted values in order.  The one
exception is the query of a multi-table insert: the values of the branches are added to its columns
whatever the query is, so that it may select more columns than the other sides.

Main results:

- Definition `Store.ColumnsAgree`: the numbers of columns of a statement agree.
- Definition `Store.Prunes`, Theorem `Store.prunes_pruneColumns`: which columns are dropped.
- Theorem `Compiler.columns_agree`: the columns of a lowered statement agree.
-/

namespace SqlCompiler

open Store (At Bare Open Lasting Structural)
open LowerM LowerM.Triple

variable {s s' s'' : Store} {q : QueryRef} {X : QueryRef → Prop} {lowered : Lowered}
  {ctx : LowerContext}

/-! ## Closing a lowered term -/

/-- Every leaf of a projection is selected. -/
theorem selectProjection_triple {P : Store → Prop} (q : QueryRef) (p : Projection)
    (hadd : ∀ leaf ∈ p.leaves, ∀ s, P s → P (s.addColumn q leaf.2 (Projection.leafAlias leaf.1)).2) :
    Triple ctx P (LowerM.selectProjection q p) fun _ => P :=
  (Triple.refuseGrouping p).bind fun _ => Triple.mapM fun leaf hleaf =>
    (allocate (Q := fun _ => P) (hadd leaf hleaf)).bind fun _ => store fun _ => done _

theorem LowerM.Widens.selectProjection (q : QueryRef) (p : Projection) :
    Widens ctx q (LowerM.selectProjection q p) := fun _ hq =>
  selectProjection_triple q p fun _ _ _ hs =>
    hs.trans (Store.widens_addColumn (hs.size ▸ hq) _ _)

/-- Selecting the projection of a query without set operators adds columns. -/
theorem selectProjection_bare (q : QueryRef) (p : Projection) :
    Triple ctx (At X (Bare q)) (LowerM.selectProjection q p) fun _ => At X (Bare q) :=
  (Widens.selectProjection q p).bareAt

/-- Selecting the projection of a query with set operators adds no column. -/
theorem selectProjection_sound : Triple ctx (At X lowered.Selected)
    (LowerM.selectProjection lowered.query lowered.projection) fun _ => Store.Sound X := by
  refine ofStores fun s ⟨hsound, hselected⟩ => ?_
  have hq := hselected.active.valid
  rcases hselected.fits with hsides | hfits
  · exact (selectProjection_bare _ _).mono
      (fun s' heq => heq ▸ ⟨hsound, hselected.active, hsides⟩) fun _ _ hs => hs.1
  · refine (selectProjection_triple (P := fun s' =>
      s.Widens lowered.query s' ∧ s.SelectsAsIn lowered.query s') lowered.query lowered.projection
        fun leaf hleaf s' ⟨hwidens, hsame⟩ => ⟨?_, ?_⟩).mono (fun s' heq => ?_)
          fun _ s' ⟨hwidens, hsame⟩ => ?_
    · exact hwidens.trans (Store.widens_addColumn (hwidens.size ▸ hq) _ _)
    · exact hsame.addColumn (hfits.selected ▸ List.mem_map.mpr ⟨leaf, hleaf, rfl⟩)
        (hwidens.size ▸ hq) (hwidens.valid hfits.valid) _
    · subst heq
      exact ⟨.refl _ _ _, fun _ => rfl⟩
    · refine hsound.grows hwidens hq hselected.active.not_side fun _ hreflexive side hside => ?_
      rw [(hfits.sides side hside).2, ← Store.length_selected, ← Store.length_selected,
        hsame hreflexive]

theorem MergeDraft.close_sound {P : Store → Prop} (d : MergeDraft) :
    Triple ctx P d.close fun body s =>
      (∃ on operations output hint, body = .merge on operations output hint) ∧ P s := by
  refine unlessRefused fun _ => ?_
  split
  · exact refuse _ _
  · exact unlessRefused fun _ => pure fun _ hs => ⟨⟨_, _, _, _, rfl⟩, hs⟩

/-- A statement as a lowered term. -/
def Statement.asLowered (statement : Statement) : Lowered :=
  { query := statement.query, projection := default, outcome := .statement statement.body }

/-- What is known of the query of a lowered term is known of the query of its statement. -/
theorem Lowered.toStatement_sound :
    Triple ctx (lowered.Finished X) lowered.toStatement fun r => r.1.asLowered.Finished X := by
  have hselect : ∀ s, s.Sound X → Lowered.Finished X ⟨lowered.query, default, .statement .select⟩ s :=
    fun s hs => finished_statement hs (by simp) (by simp)
  have hbare : ∀ s, lowered.Finished X s → (lowered.outcome = .scalar ∨ ∃ single orDefault,
      lowered.outcome = .element single orDefault) → s.At X (Bare lowered.query) := by
    rintro s hs (houtcome | ⟨single, orDefault, houtcome⟩)
    all_goals
      refine (hs.done (by rw [houtcome]; rfl)).mono fun hdone => ?_
      rwa [Lowered.Done, houtcome] at hdone
  have hclose : Triple ctx (lowered.Finished X) lowered.close fun r =>
      Lowered.Finished X ⟨lowered.query, default, .statement r.1⟩ := by
    unfold Lowered.close
    split
    · next houtcome =>
      refine (selectProjection_sound (X := X).pre fun s hs => ?_).bind fun _ => pure hselect
      refine (hs.done (by rw [houtcome]; rfl)).mono fun hdone => ?_
      rwa [Lowered.Done, houtcome] at hdone
    · next houtcome =>
      exact ((selectProjection_bare _ _).pre fun s hs => hbare s hs (.inr ⟨_, _, houtcome⟩)).bind
        fun _ => pure fun s hs => hselect s hs.1
    · next houtcome =>
      exact ((selectProjection_bare _ _).pre fun s hs => hbare s hs (.inl houtcome)).bind
        fun _ => pure fun s hs => hselect s hs.1
    · next body houtcome =>
      refine pure fun s hs => ?_
      rw [← houtcome]
      refine ⟨hs.1, ?_⟩
      have hdone := hs.2
      rw [Lowered.Done, houtcome] at hdone ⊢
      cases body <;> exact hdone
    · next d houtcome =>
      refine (MergeDraft.close_sound (P := lowered.Finished X) d).bind fun body => pure fun s hs => ?_
      obtain ⟨⟨on, operations, output, hint, rfl⟩, hs⟩ := hs
      exact finished_statement (hs.sound (by rw [houtcome]; rfl)) (by simp) (by simp)
    · exact refuse _ _
    · exact refuse _ _
    · exact refuse _ _
  refine hclose.bind fun r => ?_
  obtain ⟨body, shape⟩ := r
  exact get fun st => pure fun s hs => hs

/-! ## Dropping columns -/

/-- Columns of subqueries without set operators are dropped; nothing else changes. -/
structure Store.Prunes (s s' : Store) : Prop where
  content : s'.columns = s.columns
  size : s'.queries.size = s.queries.size
  subqueries : ∀ q, (s'.query q).subqueries = (s.query q).subqueries
  sides : ∀ q, (s'.query q).sides = (s.query q).sides
  kept : ∀ q, ((s.query q).sides ≠ [] ∨ ∀ r, q ∉ (s.query r).subqueries) → s'.query q = s.query q

namespace Store

theorem Prunes.refl (s : Store) : s.Prunes s :=
  ⟨rfl, rfl, fun _ => rfl, fun _ => rfl, fun _ _ => rfl⟩

theorem Prunes.trans (h : s.Prunes s') (h' : s'.Prunes s'') : s.Prunes s'' where
  content := h'.content.trans h.content
  size := h'.size.trans h.size
  subqueries q := (h'.subqueries q).trans (h.subqueries q)
  sides q := (h'.sides q).trans (h.sides q)
  kept q hq := by
    rw [h'.kept q ?_, h.kept q hq]
    exact hq.imp (fun hsides => by rwa [h.sides]) fun hunread r => by
      rw [h.subqueries]
      exact hunread r

/-- Dropping columns is one turn after another. -/
theorem pruneColumns_of_turns {R : Store → Store → Prop} (t : StatementRef) (hrefl : ∀ s, R s s)
    (htrans : ∀ {a b c}, R a b → R b c → R a c) (hturn : ∀ s, R s (s.pruneOnce t)) (s : Store) :
    R s (s.pruneColumns t) := by
  have hwithin : ∀ (fuel : Nat) (s : Store), R s (pruneWithin fuel s t) := by
    intro fuel
    induction fuel with
    | zero => exact hrefl
    | succ fuel ih =>
      intro s
      unfold pruneWithin
      dsimp only
      split
      · exact htrans (hturn s) (ih _)
      · exact hturn s
  exact hwithin _ s

/-- Dropping columns is dropping those of one query after those of another. -/
theorem pruneColumns_of_queries {R : Store → Store → Prop} (t : StatementRef) (hrefl : ∀ s, R s s)
    (htrans : ∀ {a b c}, R a b → R b c → R a c) (hquery : ∀ used s q, R s (pruneQuery used s q))
    (s : Store) : R s (s.pruneColumns t) := by
  have hfold : ∀ (used : List ColumnRef) (queries : List QueryRef) (s : Store),
      R s (queries.foldl (pruneQuery used) s) := by
    intro used queries
    induction queries with
    | nil => exact hrefl
    | cons q rest ih => exact fun s => htrans (hquery used s q) (ih _)
  exact pruneColumns_of_turns t hrefl htrans (fun s => hfold _ _ s) s

theorem prunes_pruneQuery {reader : QueryRef} (used : List ColumnRef)
    (hread : q ∈ (s.query reader).subqueries) : s.Prunes (s.pruneQuery used q) := by
  unfold pruneQuery
  dsimp only
  split
  · next hfewer =>
    have hsame : ∀ r, ((s.modifyQuery q fun query =>
        { query with columns := s.keptColumns used q }).query r).subqueries =
          (s.query r).subqueries ∧ ((s.modifyQuery q fun query =>
        { query with columns := s.keptColumns used q }).query r).sides = (s.query r).sides := by
      intro r
      rcases query_modifyQuery s q r fun query =>
        { query with columns := s.keptColumns used q } with ⟨rfl, hquery⟩ | hquery
      · rw [hquery]
        exact ⟨rfl, rfl⟩
      · rw [hquery]
        exact ⟨rfl, rfl⟩
    refine ⟨rfl, size_modifyQuery, fun r => (hsame r).1, fun r => (hsame r).2,
      fun r hr => query_modifyQuery_ne ?_⟩
    rintro rfl
    rcases hr with hsides | hunread
    · have hall : s.keptColumns used r = (s.query r).columns := by
        simp [keptColumns, Query.hasSetOperators_of_sides hsides]
      rw [hall] at hfewer
      exact absurd hfewer (Nat.lt_irrefl _)
    · exact hunread reader hread
  · exact .refl s

theorem prunes_pruneOnce (s : Store) (t : StatementRef) : s.Prunes (s.pruneOnce t) := by
  have hfold : ∀ (used : List ColumnRef) (subqueries : List QueryRef) (s' : Store),
      s.Prunes s' → (∀ q ∈ subqueries, ∃ reader, q ∈ (s.query reader).subqueries) →
        s.Prunes (subqueries.foldl (pruneQuery used) s') := by
    intro used subqueries
    induction subqueries with
    | nil => exact fun s' h _ => h
    | cons q rest ih =>
      intro s' h hread
      obtain ⟨reader, hq⟩ := hread q List.mem_cons_self
      rw [← h.subqueries reader] at hq
      exact ih _ (h.trans (prunes_pruneQuery used hq)) fun r hr =>
        hread r (List.mem_cons_of_mem q hr)
  refine hfold _ _ s (.refl s) fun q hq => ?_
  obtain ⟨reader, -, hq⟩ := List.mem_flatMap.mp hq
  exact ⟨reader, hq⟩

theorem prunes_pruneColumns (s : Store) (t : StatementRef) : s.Prunes (s.pruneColumns t) :=
  pruneColumns_of_turns t .refl .trans (fun s => prunes_pruneOnce s t) s

end Store

/-! ## Statements -/

/-- The columns of a statement: both sides of a set operator select equally many, unless one of
them differs from itself; the sides of a multi-table insert select equally many, and the query of
an insert that reads rows selects the inserted values. -/
structure Store.ColumnsAgree (statement : Statement) (s : Store) : Prop where
  sides : ∀ q : QueryRef,
    ((∃ mode inserts, statement.body = .multiInsert mode inserts) → q ≠ statement.query) →
      (∀ e ∈ s.selected q, e.IsReflexive) → ∀ side ∈ (s.query q).sides,
        (s.query side).columns.length = (s.query q).columns.length
  branches : ∀ mode inserts, statement.body = .multiInsert mode inserts →
    ∃ k ≤ (s.query statement.query).columns.length, ∀ side ∈ (s.query statement.query).sides,
      (s.query side).columns.length = k
  values : ∀ clause output, statement.body = .insert clause output →
    (s.query statement.query).sources ≠ [] →
      (s.selected statement.query).map some = clause.items.map (·.value)

/-- Dropping columns that nothing reads keeps the numbers of columns that have to agree. -/
theorem Lowered.Finished.columnsAgree {statement : Statement}
    (h : statement.asLowered.Finished (fun _ => False) s) (hprunes : s.Prunes s') :
    s'.ColumnsAgree statement := by
  have hselected : ∀ q, s'.query q = s.query q → s'.selected q = s.selected q := fun q hq => by
    simp only [Store.selected, Store.column, hprunes.content, hq]
  have hside : ∀ q, ∀ side ∈ (s.query q).sides, s'.query side = s.query side := fun q side hmem =>
    hprunes.kept side (.inr fun r => h.1.apart q r side hmem)
  have hroot : s.Open statement.query → s'.query statement.query = s.query statement.query :=
    fun hopen => hprunes.kept _ (.inr hopen.not_subquery)
  refine ⟨fun q hexempt hreflexive side hmem => ?_, fun mode inserts hbody => ?_,
    fun clause output hbody hsources => ?_⟩
  · rw [hprunes.sides] at hmem
    have hq : s'.query q = s.query q := hprunes.kept q (.inl (List.ne_nil_of_mem hmem))
    rw [hselected q hq] at hreflexive
    rw [hq, hside q side hmem]
    refine h.1.agree q ?_ hreflexive side hmem
    rintro (hfalse | ⟨hmulti, rfl⟩)
    · exact hfalse
    · refine hexempt ?_ rfl
      rw [Statement.asLowered] at hmulti
      cases hbody : statement.body with
      | multiInsert mode inserts => exact ⟨mode, inserts, rfl⟩
      | _ =>
        rw [hbody] at hmulti
        cases hmulti
  · have hcovers : s.Covers statement.query := by
      have hdone := h.2
      rwa [Lowered.Done, Statement.asLowered, hbody] at hdone
    obtain ⟨k, hk, hsides⟩ := hcovers.sides
    refine ⟨k, by rwa [hroot hcovers.toOpen], fun side hmem => ?_⟩
    rw [hprunes.sides] at hmem
    rw [hside _ side hmem]
    exact (hsides side hmem).2
  · have hsupplies : s.Supplies clause.items statement.query := by
      have hdone := h.2
      rwa [Lowered.Done, Statement.asLowered, hbody] at hdone
    have hq := hroot hsupplies.toOpen
    rw [hq] at hsources
    rw [hselected _ hq]
    exact hsupplies.values.resolve_left hsources

/-- The columns of every statement that a term is lowered to agree, also when the columns that
nothing reads have been dropped. -/
theorem Compiler.columns_agree (c : Compiler) (hrules : c.rules = standardRules) (r : Ranking)
    (t : Term) {statement : Statement} {shape : ResultShape} {state : LowerState}
    (h : c.runLowering r (do (← lowerSequence c.rules t).toStatement) =
      (.ok (statement, shape), state)) :
    ((state.store.addStatement statement).2.pruneColumns
      (state.store.addStatement statement).1).ColumnsAgree statement := by
  rw [hrules] at h
  have hfinished : statement.asLowered.Finished (fun _ => False) state.store := by
    have htriple := ((lowererWithin_sound (loweringDepth t)).sequence
      { schema := c.schema, provider := c.provider } (fun _ => False) t none).bind fun lowered =>
        lowered.toStatement_sound
    exact htriple { ranking := r } (statement, shape) state (Store.sound_empty _) h
  have hadded : state.store.Prunes (state.store.addStatement statement).2 :=
    ⟨rfl, rfl, fun _ => rfl, fun _ => rfl, fun _ _ => rfl⟩
  exact hfinished.columnsAgree (hadded.trans (Store.prunes_pruneColumns _ _))

/-- The rules in the order they are given. -/
def Ranking.asGiven (rules : List Rule) : Ranking where
  uses := rules.zipIdx.map fun (rule, order) =>
    { name := rule.name, isFallback := rule.isFallback, order }

/-- People, and a table for numbers. -/
def Compiler.ofPeople : Compiler where
  schema := { entities := [
    { name := "Person", columns := [{ member := "Age", kind := .int32 }] },
    { name := "Log", columns := [{ member := "Num", kind := .int32 }] }] }
  provider := .ofDialect .generic

/-- Everyone's age. -/
def Term.ages : Term :=
  (Term.table "Person").select (.fn "p" (.record [("A", .member (.bound "p") "Age")]))

/-- The ages of people, each once, are inserted as numbers. -/
def Term.insertAges : Term :=
  (Term.ages.apply .union [.ages]).apply .insert
    [.table "Log", .fn "x" (.record [("Num", .member (.bound "x") "A")])]

/-- The sides of a set operator below an insert agree, and the insert has one value. -/
theorem Compiler.columns_agree_insertAges :
    ∃ statement shape state,
      Compiler.ofPeople.runLowering (.asGiven standardRules)
        (do (← lowerSequence standardRules Term.insertAges).toStatement) =
          (.ok (statement, shape), state) ∧
      ((state.store.addStatement statement).2.pruneColumns
        (state.store.addStatement statement).1).ColumnsAgree statement ∧
      statement.body.insert?.map (·.items.length) = some 1 := by
  have hinsert : ((Compiler.ofPeople.runLowering (.asGiven standardRules)
      (do (← lowerSequence standardRules Term.insertAges).toStatement)).1.toOption.bind
        fun r => r.1.body.insert?.map (·.items.length)) = some 1 := by
    decide +kernel
  cases hrun : Compiler.ofPeople.runLowering (.asGiven standardRules)
      (do (← lowerSequence standardRules Term.insertAges).toStatement) with
  | mk result state =>
    rw [hrun] at hinsert
    cases result with
    | error e => cases hinsert
    | ok r =>
      exact ⟨r.1, r.2, state, rfl, Compiler.ofPeople.columns_agree rfl _ Term.insertAges hrun,
        hinsert⟩

end SqlCompiler
