import SqlCompiler.Proofs.Columns.Steps

/-!
# Lowered terms and the columns of their queries

What is known of the query of a lowered term depends on what the term is for: the query of a
sequence may still be wrapped, that of an insert selects the inserted values, and that of a
multi-table insert may select more columns than the sides of its set operators.

Main definitions:

- `Lowered.Done`: what is known of the query of a lowered term.
- `Lowered.Finished`: the same in a sound store.
- `Lowerer.Sound`: a lowerer whose parts keep stores sound.
-/

namespace SqlCompiler

open Store (At Bare Open Active Fits Lasting Structural)

variable {s s' : Store} {q : QueryRef} {X : QueryRef → Prop} {F G : Store → Prop}
  {lowered : Lowered}

/-! ## Queries of data modifications -/

namespace Store

/-- The sides of the set operators of a query select equally many columns, and the query at least
as many. -/
structure Covers (q : QueryRef) (s : Store) : Prop extends Open q s where
  sides : ∃ k ≤ (s.query q).columns.length, ∀ side ∈ (s.query q).sides,
    side.index < s.queries.size ∧ (s.query side).columns.length = k

/-- A query that nothing reads, and that reads nothing or selects the values of an insert. -/
structure Supplies (items : List Assignment) (q : QueryRef) (s : Store) : Prop extends
    Open q s where
  values : (s.query q).sources = [] ∨ (s.selected q).map some = items.map (·.value)

instance : Lasting (Covers q) := ⟨fun h hs => by
  obtain ⟨k, hk, hsides⟩ := hs.sides
  refine ⟨Lasting.keeps h hs.toOpen, k, ?_⟩
  rw [h.query q hs.valid]
  refine ⟨hk, fun side hside => ?_⟩
  obtain ⟨hvalid, hlength⟩ := hsides side hside
  rw [h.query side hvalid]
  exact ⟨Nat.lt_of_lt_of_le hvalid h.queries, hlength⟩⟩

instance : Structural (Covers q) := ⟨fun h hs => by
  obtain ⟨k, hk, hsides⟩ := hs.sides
  refine ⟨Structural.congr h hs.toOpen, k, ?_⟩
  rw [h.columns, h.sides, h.size]
  refine ⟨hk, fun side hside => ?_⟩
  rw [h.columns]
  exact hsides side hside⟩

theorem Covers.grows (h : s.Covers q) (hgrows : s.Widens q s') : s'.Covers q := by
  obtain ⟨k, hk, hsides⟩ := h.sides
  refine ⟨h.toOpen.grows hgrows, k, ?_, fun side hside => ?_⟩
  · obtain ⟨new, hquery, -⟩ := hgrows.added
    rw [hquery, List.length_append]
    exact Nat.le_add_right_of_le hk
  · rw [(hgrows.outline q).2.1] at hside
    have hne : side ≠ q := fun heq => h.not_side q (heq ▸ hside)
    rw [hgrows.size, hgrows.query side hne]
    exact hsides side hside

end Store

theorem Lowered.Selected.covers (h : lowered.Selected s) : s.Covers lowered.query := by
  refine ⟨h.active.toOpen, ?_⟩
  rcases h.fits with hsides | hfits
  · refine ⟨0, Nat.zero_le _, fun side hside => ?_⟩
    rw [hsides] at hside
    cases hside
  · exact ⟨_, Nat.le_refl _, hfits.sides⟩

/-! ## Finished terms -/

/-- Whether a multi-table insert comes of it. -/
def Outcome.isMultiInsert : Outcome → Bool
  | multiInsert _ | statement (.multiInsert ..) => true
  | _ => false

theorem Outcome.eq_sequence {outcome : Outcome} (h : outcome.isSequence = true) :
    outcome = .sequence := by
  cases outcome with
  | sequence => rfl
  | _ => cases h

/-- What is known of the query of a lowered term. -/
def Lowered.Done (lowered : Lowered) (s : Store) : Prop :=
  match lowered.outcome with
  | .sequence => lowered.Selected s
  | .element .. | .scalar | .merge _ => s.Bare lowered.query
  | .insertValues .. => s.Empty lowered.query
  | .multiInsert _ | .statement (.multiInsert ..) => s.Covers lowered.query
  | .statement (.insert clause _) => s.Supplies clause.items lowered.query
  | .assignments _ | .statement _ => True

/-- The queries whose sides may have other numbers of columns: some given ones, and that of a
multi-table insert. -/
def Lowered.Exempt (X : QueryRef → Prop) (lowered : Lowered) (q : QueryRef) : Prop :=
  X q ∨ lowered.outcome.isMultiInsert = true ∧ q = lowered.query

/-- A lowered term in a sound store. -/
def Lowered.Finished (X : QueryRef → Prop) (lowered : Lowered) : Store → Prop :=
  At (lowered.Exempt X) lowered.Done

theorem Store.At.of_exempt (h : s.At (lowered.Exempt X) F)
    (houtcome : lowered.outcome.isMultiInsert = false) : s.At X F :=
  ⟨h.1.mono fun _ hq => hq.resolve_right fun hmulti => Bool.false_ne_true (houtcome ▸ hmulti.1),
    h.2⟩

theorem Store.At.exempt (h : s.At X F) : s.At (lowered.Exempt X) F :=
  ⟨h.1.mono fun _ => .inl, h.2⟩

theorem Store.At.mono (h : s.At X F) (himp : F s → G s) : s.At X G := ⟨h.1, himp h.2⟩

/-- Without multi-table inserts nothing is exempt. -/
theorem Lowered.Finished.done (h : lowered.Finished X s)
    (houtcome : lowered.outcome.isMultiInsert = false) : s.At X lowered.Done :=
  h.of_exempt houtcome

theorem Lowered.Selected.finished (h : s.At X lowered.Selected) : lowered.Finished X s :=
  h.exempt.mono fun hs => by
    rw [Lowered.Done, hs.outcome]
    exact hs

theorem Lowered.Plain.finished (h : s.At X lowered.Plain) : lowered.Finished X s :=
  Selected.finished (h.mono Plain.selected)

/-- What is known of a sequence. -/
theorem Store.At.selected (hs : s.At (lowered.Exempt X) fun s => lowered.Done s ∧ F s)
    (houtcome : lowered.outcome = .sequence) : s.At X fun s => lowered.Selected s ∧ F s := by
  refine (hs.of_exempt (by rw [houtcome]; rfl)).mono fun hs => ?_
  rw [Lowered.Done, houtcome] at hs
  exact hs

/-- A term with one row or one value. -/
theorem Store.Bare.finished (hs : s.At X (Bare q)) {p : Projection} {outcome : Outcome}
    (houtcome : outcome = .scalar ∨ ∃ single orDefault, outcome = .element single orDefault) :
    Lowered.Finished X ⟨q, p, outcome⟩ s := by
  refine hs.exempt.mono fun hbare => ?_
  rcases houtcome with rfl | ⟨single, orDefault, rfl⟩
  · exact hbare
  · exact hbare

/-! ## Tests for set operators -/

theorem Query.hasSetOperators_of_sides {query : Query} (h : query.sides ≠ []) :
    query.hasSetOperators = true := by
  simpa [Query.hasSetOperators, Query.sides] using h

theorem Query.hasFixedRows_of_sides {query : Query} (h : query.sides ≠ []) :
    query.hasFixedRows = true := by
  simp [Query.hasFixedRows, hasSetOperators_of_sides h]

theorem Query.hasFixedColumns_of_sides {query : Query} (h : query.sides ≠ []) :
    query.hasFixedColumns = true := by
  simp [Query.hasFixedColumns, hasSetOperators_of_sides h]

theorem Query.isLimited_of_sides {query : Query} (h : query.sides ≠ []) :
    query.isLimited = true := by
  simp [Query.isLimited, hasSetOperators_of_sides h]

/-! ## Queries without groups -/

/-- A lowered sequence whose query has neither set operators nor groups. -/
structure Lowered.Ungrouped (lowered : Lowered) (s : Store) : Prop extends lowered.Plain s where
  ungrouped : (s.query lowered.query).isGrouped = false

instance : Lasting lowered.Ungrouped :=
  ⟨fun h hs => ⟨Lasting.keeps h hs.toPlain, by rw [h.query _ hs.bare.valid, hs.ungrouped]⟩⟩

namespace LowerM.Triple

variable {ctx : LowerContext}

/-- A wrapped query has no groups. -/
theorem wrapUngrouped : Triple ctx (At X lowered.Selected) (LowerM.wrap lowered) fun wrapped =>
    At X wrapped.Ungrouped :=
  wrap.post fun _ _ hs => ⟨hs.1, ⟨hs.2.1, hs.2.2.toBare⟩, hs.2.2.ungrouped⟩

/-- A query is wrapped unless it has no groups and its rows are not fixed. -/
theorem wrapUnlessPlain {Q : Lowered → Store → Prop}
    (hwrap : Triple ctx (At X lowered.Selected) (LowerM.wrap lowered) Q)
    (hplain : ∀ s, At X lowered.Ungrouped s → (s.query lowered.query).hasFixedRows = false →
      Q lowered s) : Triple ctx (At X lowered.Selected)
    (LowerM.wrapIf (fun q => q.hasFixedRows || q.isGrouped) lowered) Q := by
  refine storeAt fun s hs => ?_
  split
  · exact hwrap.pre fun _ heq => heq ▸ hs
  · next h =>
    refine pure fun s' heq => ?_
    subst heq
    have htest := Bool.or_eq_false_iff.mp (Bool.eq_false_iff.mpr h)
    refine hplain _ ⟨hs.1, ⟨hs.2.outcome, hs.2.active, ?_⟩, htest.2⟩ htest.1
    by_contra hsides
    exact Bool.false_ne_true (htest.1.symm.trans (Query.hasFixedRows_of_sides hsides))

theorem wrapIfGrouped : Triple ctx (At X lowered.Selected)
    (LowerM.wrapIf (fun q => q.hasFixedRows || q.isGrouped) lowered) fun wrapped =>
      At X wrapped.Ungrouped :=
  wrapUnlessPlain wrapUngrouped fun _ hs _ => hs

/-- A query without groups gets some. -/
theorem group (items : List Scalar) : Triple ctx (At X lowered.Ungrouped)
    (LowerM.modifyQuery lowered.query fun q =>
      { q with grouping := { q.grouping with items := items } }) fun _ => At X lowered.Plain := by
  refine modifyQuery fun s ⟨hsound, hs⟩ => ?_
  obtain ⟨hkind, hempty⟩ := hsound.groups _ hs.ungrouped
  obtain ⟨hsound', hbare⟩ := hsound.read hs.bare
    (f := fun q => { q with grouping := { q.grouping with items := items } }) rfl rfl
    (fun _ => ⟨hkind, hempty⟩) fun _ => .inl
  exact ⟨hsound', hs.outcome, hbare⟩

end LowerM.Triple

/-- Columns may be added to a query without set operators. -/
theorem LowerM.Widens.plainAt {α : Type} {ctx : LowerContext} {step : LowerM α}
    (h : step.Widens ctx lowered.query) :
    step.Triple ctx (At X lowered.Plain) fun _ => At X lowered.Plain :=
  h.triple (fun _ hs => hs.bare) fun hwidens hs => ⟨hs.outcome, hs.bare.grows hwidens⟩

/-! ## Lowerers -/

/-- A lowerer whose parts keep stores sound, and the queries that are there. -/
structure Lowerer.Sound (l : Lowerer) : Prop where
  keeps : ∀ n, l.Keeps n
  sequence : ∀ ctx X t parent,
    LowerM.Triple ctx (Store.Sound X) (l.sequence t parent) (Lowered.Finished X)
  projection : ∀ ctx X t q,
    LowerM.Triple ctx (Store.Sound X) (l.projection t q) fun _ => Store.Sound X
  scalar : ∀ ctx X t q,
    LowerM.Triple ctx (Store.Sound X) (l.scalar t q) fun _ => Store.Sound X
  condition : ∀ ctx X t q,
    LowerM.Triple ctx (Store.Sound X) (l.condition t q) fun _ => Store.Sound X

open LowerM LowerM.Triple

/-- A sound store about which nothing else is known. -/
theorem LowerM.Triple.alone {α : Type} {ctx : LowerContext} {step : LowerM α}
    {Q : α → Store → Prop} (h : step.Triple ctx (At X fun _ => True) Q) :
    step.Triple ctx (Store.Sound X) Q :=
  h.pre fun _ hs => ⟨hs, trivial⟩

/-- A condition on the groups of a query that has groups. -/
theorem LowerM.Triple.addHaving {ctx : LowerContext} (condition : Condition) :
    Triple ctx (At X fun s => (s.query lowered.query).isGrouped = true ∧ lowered.Plain s)
      (LowerM.modifyQuery lowered.query fun query =>
        { query with having := query.having.conjoinAll condition })
      fun _ => At X lowered.Plain := by
  refine modifyQuery fun s ⟨hsound, hgrouped, hs⟩ => ?_
  obtain ⟨hsound', hbare⟩ := hsound.read hs.bare
    (f := fun query => { query with having := query.having.conjoinAll condition }) rfl rfl
    (fun hungrouped => absurd (hgrouped.symm.trans hungrouped) Bool.noConfusion)
    fun r hr => .inl hr
  exact ⟨hsound', hs.outcome, hbare⟩

/-- A bare query may be made to select one column only. -/
theorem selectOnly_sound (c : ColumnRef) :
    Triple ctx (At X (Bare q)) (LowerM.selectOnly q c) fun _ => Store.Sound X :=
  modifyQuery fun s hs => hs.1.modifyColumns hs.2.valid hs.2.toOpen.not_side
    (fun columns => columns.filter (· == c))
    (fun d hd => hs.1.columns q d (List.mem_filter.mp hd).1) fun _ _ side hside => by
      rw [hs.2.sides] at hside
      cases hside

theorem valueOf_sound (whole : Term) (lowered : Lowered) :
    Triple ctx (lowered.Finished X) (Lowerer.valueOf whole lowered) fun _ => Store.Sound X := by
  have hselect : ∀ e : Scalar, Triple ctx (At X (Bare lowered.query)) (do
      let c ← LowerM.columnFor lowered.query e ""
      LowerM.selectOnly lowered.query c
      return Scalar.query lowered.query) fun _ => Store.Sound X :=
    fun e => (Widens.columnFor e "").bareAt.bind fun c => (selectOnly_sound c).bind fun _ =>
      pure fun _ hs => hs
  have hbare : ∀ s, (lowered.outcome = .scalar ∨ ∃ single orDefault,
      lowered.outcome = .element single orDefault) → lowered.Finished X s →
        s.At X (Bare lowered.query) := by
    rintro s houtcome hs
    rcases houtcome with houtcome | ⟨single, orDefault, houtcome⟩
    · refine (hs.done (by rw [houtcome]; rfl)).mono fun hdone => ?_
      rwa [Lowered.Done, houtcome] at hdone
    · refine (hs.done (by rw [houtcome]; rfl)).mono fun hdone => ?_
      rwa [Lowered.Done, houtcome] at hdone
  unfold Lowerer.valueOf
  dsimp only
  split
  · next houtcome _ => exact pure fun s hs => (hbare s (.inl houtcome) hs).1
  · next houtcome _ => exact (hselect _).pre fun s => hbare s (.inl houtcome)
  · next houtcome _ => exact (hselect _).pre fun s => hbare s (.inr ⟨_, _, houtcome⟩)
  · exact refuse _ _

namespace Lowerer.Sound

variable {l : Lowerer} {α : Type} {ctx : LowerContext} [Lasting F] (h : l.Sound)
include h

omit [Lasting F] in
/-- What a value is lowered to keeps stores sound if its parts do. -/
theorem closed (X : QueryRef → Prop) :
    l.Closed fun {_} step => ∀ ctx, step.Triple ctx (Store.Sound X) fun _ => Store.Sound X where
  toClosed := LowerM.keeping_closed (Store.Sound X)
  projection t q ctx := h.projection ctx X t q
  scalar t q ctx := h.scalar ctx X t q
  condition t q ctx := h.condition ctx X t q
  nested t q ctx := (h.sequence ctx X t (some q)).bind fun lowered => valueOf_sound t lowered

/-! ## Functions and values -/

theorem scalarAt (t : Term) (q : QueryRef) :
    Triple ctx (At X F) (l.scalar t q) fun _ => At X F :=
  keepAt (fun n => (h.keeps n).scalar t q) (h.scalar ctx X t q)

theorem applyProjection (f : Term) (args : List Projection) (q : QueryRef) :
    Triple ctx (At X F) (l.applyProjection f args q) fun _ => At X F :=
  keepAt (fun n => (h.keeps n).closed.applyProjection f args q)
    ((h.closed X).applyProjection f args q ctx)

theorem applyCondition (f : Term) (args : List Projection) (q : QueryRef) :
    Triple ctx (At X F) (l.applyCondition f args q) fun _ => At X F :=
  keepAt (fun n => (h.keeps n).closed.applyCondition f args q)
    ((h.closed X).applyCondition f args q ctx)

theorem aggregateOf (c : CallSite) (lowered : Lowered) :
    Triple ctx (At X F) (SqlCompiler.aggregateOf l c lowered) fun _ => At X F :=
  keepAt (fun n => (h.keeps n).closed.aggregateOf c lowered)
    ((h.closed X).aggregateOf c lowered ctx)

/-- What a setter assigns are values. -/
theorem assignments (setter : Term) (args : List Projection) (t : TableRef) (q : QueryRef)
    (kind : WriteKind) :
    Triple ctx (At X F) (l.assignments setter args t q kind) fun items =>
      At X fun s => (∀ item ∈ items, item.value.isSome) ∧ F s := by
  refine (checked (P := At X F)).bind fun (params, body) => ?_
  have hassign : ∀ (f : FieldRef) (value : Scalar) (items : List Assignment),
      (∀ item ∈ items, item.value.isSome) →
        ∀ item ∈ assign (.toField f value) items, item.value.isSome := by
    intro f value items hitems
    induction items with
    | nil => simp [assign, Assignment.toField]
    | cons first rest ih =>
      have hrest := ih fun item hitem => hitems item (List.mem_cons_of_mem _ hitem)
      unfold assign
      split
      · simp only [List.mem_cons, forall_eq_or_imp] at hitems ⊢
        exact ⟨rfl, hitems.2⟩
      · simp only [List.mem_cons, forall_eq_or_imp] at hitems ⊢
        exact ⟨hitems.1, hrest⟩
  have hmember : ∀ (ctx : LowerContext) (items : List Assignment) (m : String × Term),
      Triple ctx (At X fun s => (∀ item ∈ items, item.value.isSome) ∧ F s)
        (l.assignMember t kind q items m.1 m.2) fun items =>
          At X fun s => (∀ item ∈ items, item.value.isSome) ∧ F s :=
    fun ctx items m => (Triple.settableField t m.1 kind).bind fun field => by
      cases field with
      | none => exact pure fun _ hs => hs
      | some f =>
        exact (h.scalarAt m.2 q).bind fun value =>
          pure fun s hs => ⟨hs.1, hassign f value items hs.2.1, hs.2.2⟩
  have hmembers : ∀ members : List (String × Term), Triple ctx (At X F)
      (LowerM.withVariables (params.zip args)
        (members.foldlM (fun items m => l.assignMember t kind q items m.1 m.2) [])) fun items =>
          At X fun s => (∀ item ∈ items, item.value.isSome) ∧ F s :=
    fun members => withVariables <|
      (foldlM (fun items => At X fun s => (∀ item ∈ items, item.value.isSome) ∧ F s) []
        fun items m _ => hmember _ items m).pre fun s hs =>
          ⟨hs.1, fun _ hitem => (List.not_mem_nil hitem).elim, hs.2⟩
  cases body with
  | record members => exact hmembers members
  | entity name members => exact hmembers members
  | _ => exact refused _ _

/-! ## Sequences -/

theorem sequenceAt (t : Term) (parent : Option QueryRef) :
    Triple ctx (At X F) (l.sequence t parent) fun lowered =>
      At (lowered.Exempt X) fun s => lowered.Done s ∧ F s :=
  frameAt (fun n => (h.keeps n).sequence t parent) (h.sequence ctx X t parent)

/-- The query of a sequence is a new one. -/
theorem newSequenceAt {n : Nat} (hn : ∀ s, F s → n ≤ s.queries.size) (t : Term)
    (parent : Option QueryRef) :
    Triple ctx (At X F) (l.sequence t parent) fun lowered s =>
      s.At (lowered.Exempt X) (fun s => lowered.Done s ∧ F s) ∧ n ≤ lowered.query.index :=
  above (fun n => (h.keeps n).sequence t parent) (fun s hs => hn s hs.2) (h.sequenceAt t parent)

variable (c : CallSite)

theorem checkedAt (t source : Term) (parent : Option QueryRef) :
    Triple ctx (At X F) (do
      let lowered ← l.sequence t parent
      c.checkSequence source lowered
      return lowered) fun lowered => At X fun s => lowered.Selected s ∧ F s :=
  (h.sequenceAt t parent).bind fun _ => (checkSequence c _ _).bind fun _ =>
    pure fun _ hs => hs.2.selected (Outcome.eq_sequence hs.1)

theorem lowerSource : Triple ctx (Store.Sound X) (c.lowerSource l) fun lowered =>
    At X lowered.Selected := by
  unfold CallSite.lowerSource
  split
  · exact refuseSite c _
  · exact (h.checkedAt (F := fun _ => True) c _ _ _).mono (fun _ hs => ⟨hs, trivial⟩)
      fun _ _ hs => hs.mono And.left

theorem lowerFirst :
    Triple ctx (Store.Sound X) (c.lowerFirst l) (Lowered.Finished X) :=
  (arg c 0).bind fun t => h.sequence ctx X t _

theorem filter {lowered : Lowered} (f : Term) (negated : Bool) :
    Triple ctx (At X lowered.Selected) (lowered.filter l f negated) fun filtered =>
      At X filtered.Plain := by
  refine (wrapIf fun _ => Query.hasFixedRows_of_sides).bind fun wrapped =>
    (h.applyCondition f _ _).bind fun condition => storeAt fun s hs => ?_
  dsimp only
  generalize (if negated = true then condition.negation else condition) = condition
  split
  · next hgrouped =>
    refine bind (Q := fun _ => At X wrapped.Plain) ?_ fun _ => pure fun _ hs => hs
    refine (addHaving condition).pre fun s' heq => ?_
    subst heq
    exact ⟨hs.1, (Bool.and_eq_true_iff.mp hgrouped).2, hs.2⟩
  · refine bind (Q := fun _ => At X wrapped.Plain) ?_ fun _ => pure fun _ hs => hs
    refine (Triple.addWhere condition).pre fun s' heq => ?_
    subst heq
    exact hs

theorem filterIf {lowered : Lowered} (f : Option Term) :
    Triple ctx (At X lowered.Selected) (lowered.filterIf l f) fun filtered =>
      At X filtered.Selected := by
  cases f with
  | none => exact pure fun _ hs => hs
  | some f => exact (h.filter f false).post fun _ _ hs => hs.mono Lowered.Plain.selected

end Lowerer.Sound

end SqlCompiler
