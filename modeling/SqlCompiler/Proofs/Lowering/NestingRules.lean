import SqlCompiler.Proofs.Lowering.Locality
import SqlCompiler.Proofs.Lowering.Nesting

/-!
# The rules leave tidy stores

A query that a rule wraps has rows, columns or groups that would be changed by another clause, and one
that a rule joins or combines with another one loses its order first, unless it is limited.  The query
of a value is limited, or has lost its order.  So a loose order is nested only by the few operators
that wrap or leave behind whatever they are given.

Main results:

- Definition `Rule.Tidies`: a rule leaves tidy stores tidy if its lowerer does.
- Theorem `standardRules_tidy`: the standard rules do.
- Theorem `lowererWithin_tidies`: lowering by such rules does.
- Theorem `lowerSequence_tidy`: so does lowering a term, where the operators that are called are
  those of the term.
-/

namespace SqlCompiler

open Store (Tidy Drafts Nestable Open Nested Lasting Wrappable)
open LowerM LowerM.Triple

/-! ## Reasons to wrap -/

section

variable {calls : SequenceOperator → Bool} {query : Query}

/-- Rows that are fixed without a limit are fixed along with the columns. -/
theorem Query.mayBeWrapped_of_fixed (hloose : query.isLoose = true)
    (h : (query.hasFixedRows || query.isGrouped) = true) : query.MayBeWrapped calls := by
  have hpaging : query.hasPagination = false := by
    simpa using (Bool.and_eq_true_iff.mp hloose).2
  rcases Bool.or_eq_true_iff.mp h with hrows | hgrouped
  · exact .inl (by simpa [hasFixedRows, hpaging, hasFixedColumns] using hrows)
  · exact .inr (.inl hgrouped)

theorem Query.mayBeWrapped_of_fixedRows (hloose : query.isLoose = true)
    (h : query.hasFixedRows = true) : query.MayBeWrapped calls :=
  mayBeWrapped_of_fixed hloose (by rw [h, Bool.true_or])

theorem Query.mayBeWrapped_of_isLimited (hloose : query.isLoose = true)
    (h : query.isLimited = true) : query.MayBeWrapped calls := by
  refine mayBeWrapped_of_fixedRows hloose ?_
  rcases Bool.or_eq_true_iff.mp h with htake | hoperators
  · simp [hasFixedRows, hasPagination, htake]
  · simp [hasFixedRows, hoperators]

end

/-! ## Lowerers -/

/-- A step that keeps the queries that are there and leaves tidy stores tidy, whichever queries are
worked on. -/
def LowerM.Calm (calls : SequenceOperator → Bool) {α : Type} (step : LowerM α) : Prop :=
  (∀ n, step.Frames n) ∧ ∀ ctx X, step.Triple ctx (Tidy calls X) fun _ => Tidy calls X

/-- Being calm lasts through steps in a row. -/
theorem LowerM.calm_closed (calls : SequenceOperator → Bool) :
    LowerM.Closed fun {_} step => step.Calm calls where
  pure a := ⟨fun n => (frames_closed n).pure a, fun ctx X => (keeping_closed (Tidy calls X)).pure a ctx⟩
  throw e := ⟨fun n => (frames_closed n).throw e,
    fun ctx X => (keeping_closed (Tidy calls X)).throw e ctx⟩
  bind h hnext := ⟨fun n => (frames_closed n).bind (h.1 n) fun a => (hnext a).1 n,
    fun ctx X => (h.2 ctx X).bind fun a => (hnext a).2 ctx X⟩
  read := ⟨fun n => (frames_closed n).read, fun ctx X => (keeping_closed (Tidy calls X)).read ctx⟩
  store := ⟨fun n => (frames_closed n).store, fun ctx X => (keeping_closed (Tidy calls X)).store ctx⟩
  withVariables h := ⟨fun n => (frames_closed n).withVariables (h.1 n),
    fun _ X => .withVariables (h.2 _ X)⟩

/-- Properties of tidy stores in which queries are worked on. -/
class Store.Workable (calls : SequenceOperator → Bool) (F : Store → Prop) : Prop where
  split : ∃ (X : QueryRef → Prop) (G : Store → Prop), Lasting G ∧ ∀ s, F s ↔ s.Tidy calls X ∧ G s

section

variable {calls : SequenceOperator → Bool} {X : QueryRef → Prop} {F G : Store → Prop} {q : QueryRef}
  {lowered : Lowered} {outcome : Outcome}

instance [h : Store.Workable calls F] [Lasting G] : Store.Workable calls fun s => F s ∧ G s := by
  obtain ⟨X, G', hlasting, hF⟩ := h.split
  exact ⟨X, fun s => G' s ∧ G s, inferInstance, fun s => by rw [hF s, and_assoc]⟩

instance : Store.Workable calls (Drafts calls X q) :=
  ⟨fun r => X r ∨ r = q, Open q, inferInstance, fun _ => ⟨fun h => ⟨h.tidy, h.toOpen⟩,
    fun h => ⟨h.2, h.1⟩⟩⟩

instance : Store.Workable calls (lowered.Drafted calls X outcome) :=
  ⟨fun r => X r ∨ r = lowered.query, fun s => lowered.outcome = outcome ∧ s.Open lowered.query,
    inferInstance, fun _ => ⟨fun h => ⟨h.draft.tidy, h.outcome, h.draft.toOpen⟩,
      fun h => ⟨h.2.1, h.2.2, h.1⟩⟩⟩

/-- Work goes on after a calm step. -/
theorem LowerM.Calm.keeps {α : Type} {step : LowerM α} {ctx : LowerContext}
    [h : Store.Workable calls F] (hstep : step.Calm calls) : step.Triple ctx F fun _ => F := by
  obtain ⟨X, G, hlasting, hF⟩ := h.split
  exact (frame (F := G) hstep.1 (hstep.2 ctx X)).mono (fun s hs => (hF s).mp hs)
    fun _ s hs => (hF s).mpr hs

end

/-- A lowerer that leaves tidy stores tidy. -/
structure Lowerer.Tidies (calls : SequenceOperator → Bool) (l : Lowerer) : Prop where
  keeps : ∀ n, l.Keeps n
  sequence : ∀ ctx X t parent,
    Triple ctx (Tidy calls X) (l.sequence t parent) (Lowered.Kempt calls X)
  projection : ∀ ctx X t q, Triple ctx (Tidy calls X) (l.projection t q) fun _ => Tidy calls X
  scalar : ∀ ctx X t q, Triple ctx (Tidy calls X) (l.scalar t q) fun _ => Tidy calls X
  condition : ∀ ctx X t q, Triple ctx (Tidy calls X) (l.condition t q) fun _ => Tidy calls X

variable {calls : SequenceOperator → Bool} {X : QueryRef → Prop} {F : Store → Prop} {q : QueryRef}
  {lowered : Lowered} {outcome : Outcome} {ctx : LowerContext} {l : Lowerer}

/-- A query that stands for a value has no loose order, so it is not worked on any longer. -/
theorem valueOf_tidy (whole : Term) (lowered : Lowered) :
    Triple ctx (lowered.Kempt calls X) (Lowerer.valueOf whole lowered) fun e s =>
      s.Tidy calls X ∧ ∀ r, e = .query r → (s.query r).isLoose = false := by
  have hselect : ∀ e : Scalar, Triple ctx
      (fun s => s.Drafts calls X lowered.query ∧ s.Nestable lowered.query) (do
        let c ← LowerM.columnFor lowered.query e ""
        LowerM.selectOnly lowered.query c
        return Scalar.query lowered.query) fun e s =>
          s.Tidy calls X ∧ ∀ r, e = .query r → (s.query r).isLoose = false :=
    fun e => ((Widens.columnFor e "").nested fun s hs => hs.1.valid).bind fun c =>
      bind (modifyNested fun query => ⟨fun place => by cases place <;> rfl, rfl, rfl, rfl⟩) fun _ =>
        pure fun s hs => ⟨hs.1.close hs.2.notLoose, fun r heq => by
          cases heq
          exact hs.2.notLoose⟩
  have hvalue : ∀ s, lowered.outcome.isValue = true → lowered.Kempt calls X s →
      s.Drafts calls X lowered.query ∧ s.Nestable lowered.query := fun s houtcome hs =>
    ⟨hs.draft, hs.draft.toOpen, hs.value houtcome⟩
  unfold Lowerer.valueOf
  dsimp only
  split
  · next houtcome _ =>
    exact pure fun s hs => ⟨hs.draft.close (hs.value (by rw [houtcome]; rfl)), fun r heq => by
      cases heq⟩
  · next houtcome _ => exact (hselect _).pre fun s => hvalue s (by rw [houtcome]; rfl)
  · next houtcome _ => exact (hselect _).pre fun s => hvalue s (by rw [houtcome]; rfl)
  · exact refuse _ _

namespace Lowerer.Tidies

variable (h : l.Tidies calls)
include h

/-- What a value is lowered to leaves tidy stores tidy if its parts do. -/
theorem closed : l.Closed fun {_} step => step.Calm calls where
  toClosed := LowerM.calm_closed calls
  projection t q := ⟨fun n => (h.keeps n).projection t q, fun ctx X => h.projection ctx X t q⟩
  scalar t q := ⟨fun n => (h.keeps n).scalar t q, fun ctx X => h.scalar ctx X t q⟩
  condition t q := ⟨fun n => (h.keeps n).condition t q, fun ctx X => h.condition ctx X t q⟩
  nested t q := ⟨fun n => (h.keeps n).closed.nested t q, fun ctx X =>
    (h.sequence ctx X t (some q)).bind fun lowered => (valueOf_tidy t lowered).post fun _ _ => And.left⟩

/-! ## Sequences -/

variable (c : CallSite)

theorem lowerSource : Triple ctx (Tidy calls X) (c.lowerSource l) fun lowered =>
    lowered.Drafted calls X .sequence := by
  unfold CallSite.lowerSource
  split
  · exact refuseSite c _
  · exact (h.sequence ctx X _ _).bind fun _ => (checkSequence c _ _).bind fun _ =>
      pure fun _ hs => ⟨Outcome.eq_sequence hs.1, hs.2.draft⟩

theorem lowerFirst : Triple ctx (Tidy calls X) (c.lowerFirst l) (Lowered.Kempt calls X) :=
  (arg c 0).bind fun t => h.sequence ctx X t _

theorem filter (f : Term) (negated : Bool) :
    Triple ctx (lowered.Drafted calls X outcome) (lowered.filter l f negated) fun filtered =>
      filtered.Drafted calls X outcome := by
  refine (wrapIfDraft fun _ => Query.mayBeWrapped_of_fixedRows).bind fun wrapped =>
    (h.closed.applyCondition f _ _).keeps.bind fun condition => store fun s => ?_
  refine ite (reviseDraft (fun _ => ⟨rfl, rfl⟩) (pure fun _ hs => hs)) ?_
  exact (addWhereNested _).bind fun _ => pure fun _ hs => hs

theorem filterIf (f : Option Term) :
    Triple ctx (lowered.Drafted calls X outcome) (lowered.filterIf l f) fun filtered =>
      filtered.Drafted calls X outcome := by
  cases f with
  | none => exact pure fun _ hs => hs
  | some f => exact h.filter f false

/-- A sequence is lowered for a query that is worked on. -/
theorem nestedSequence (outer : QueryRef) (t : Term) (parent : Option QueryRef) :
    Triple ctx (Drafts calls X outer) (l.sequence t parent) fun inner s =>
      inner.query ≠ outer ∧ inner.Kempt calls (fun r => X r ∨ r = outer) s ∧ s.Open outer := by
  have hsequence := frame (F := Open outer) (fun n => (h.keeps n).sequence t parent)
    (h.sequence ctx (fun r => X r ∨ r = outer) t parent)
  refine (above (n := outer.index + 1) (fun n => (h.keeps n).sequence t parent)
    (fun s hs => hs.2.valid) hsequence).mono (fun s hs => ⟨hs.tidy, hs.toOpen⟩)
      fun inner s hs => ⟨fun heq => ?_, hs.1⟩
  have habove : outer.index + 1 ≤ inner.query.index := hs.2
  rw [heq] at habove
  exact Nat.not_succ_le_self _ habove

end Lowerer.Tidies

/-! ## Tables -/

/-- A rule leaves tidy stores tidy if its lowerer does, at the terms it accepts whose operator is
called. -/
def Rule.Tidies (calls : SequenceOperator → Bool) (rule : Rule) : Prop :=
  ∀ l : Lowerer, l.Tidies calls → ∀ ctx X t parent, rule.accepts t = true → t.callsOnly calls = true →
    Triple ctx (Tidy calls X) (rule.lower l t parent) (Lowered.Kempt calls X)

/-- A rule for calls leaves tidy stores tidy if it does at every call. -/
theorem Rule.tidies_ofCall {name : String} {accepts : SequenceOperator → List Term → Bool}
    {lower : Lowerer → CallSite → LowerM Lowered}
    (hlower : ∀ l : Lowerer, l.Tidies calls → ∀ ctx X c,
      accepts c.operator c.args = true ∧ calls c.operator = true →
        Triple ctx (Tidy calls X) (lower l c) (Lowered.Kempt calls X)) :
    (Rule.ofCall name accepts lower).Tidies calls := by
  intro l h ctx X t parent haccepts hcalled
  unfold Rule.ofCall
  dsimp only
  split
  · exact hlower l h ctx X _ ⟨haccepts, hcalled⟩
  · exact refuse _ _

/-- A new query that nothing else is known of. -/
theorem newDraft (parent : Option QueryRef) :
    Triple ctx (Tidy calls X) (LowerM.newQuery parent) fun q s =>
      s.Drafts calls X q ∧ s.Nestable q :=
  (newNestable (F := fun _ => True) parent).mono (fun _ hs => ⟨hs, trivial⟩)
    fun _ _ hs => ⟨hs.2.1.drafts hs.1.toOpen, hs.1⟩

theorem narrow_tidy (t : TableRef) (typeName : String) :
    Triple ctx (lowered.Drafted calls X outcome) (LowerM.narrow lowered t typeName) fun narrowed =>
      narrowed.Drafted calls X outcome := by
  refine store fun _ => checked.bind fun _ => (addWhereNested _).bind fun _ => ?_
  split
  · exact pure fun _ hs => ⟨hs.outcome, hs.draft⟩
  · exact pure fun _ hs => hs

theorem tableRule_tidy : tableRule.Tidies calls := by
  intro l _ ctx X t parent _ _
  have hread (entity : EntityMapping) : Triple ctx (Tidy calls X) (LowerM.readEntity entity parent)
      fun r => r.1.Drafted calls X .sequence :=
    (instantiateNested entity).bind fun t => (newDraft parent).bind fun q =>
      (addTableSourceNested t).bind fun _ => store fun _ => pure fun _ hs => ⟨rfl, hs.1⟩
  unfold tableRule
  dsimp only
  split
  · next name _ _ =>
    refine read (checked.bind fun (found, subtype) => checked.bind fun entity =>
      (hread entity).bind fun (lowered, t) => ite ?_ ?_)
    · exact (narrow_tidy t name).post fun _ _ hs => hs.kempt rfl
    · exact pure fun _ hs => hs.kempt rfl
  · exact refuse _ _

theorem ofTypeRule_tidy : ofTypeRule.Tidies calls :=
  Rule.tidies_ofCall fun l h ctx X c _ => by
    split
    · refine (h.lowerSource c).bind fun lowered => ?_
      split
      · exact ite (pure fun _ hs => hs.kempt rfl) <|
          (wrapIfDraft fun _ => Query.mayBeWrapped_of_fixedRows).bind fun _ =>
            (narrow_tidy _ _).post fun _ _ hs => hs.kempt rfl
      · exact refuseSite c _
    · exact refuseSite c _

theorem valuesRule_tidy : valuesRule.Tidies calls := by
  intro l _ ctx X t parent _ _
  unfold valuesRule
  dsimp only
  split
  · exact (addTableNested _ _).bind fun t => (newDraft parent).bind fun q =>
      (addTableSourceNested t).bind fun _ => store fun _ => pure fun _ hs => hs.1.kempt rfl
  · exact refuse _ _

/-! ## Clauses -/

theorem whereRule_tidy : whereRule.Tidies calls :=
  Rule.tidies_ofCall fun _ h _ _ c _ => (h.lowerSource c).bind fun _ => (arg c 1).bind fun f =>
    (h.filter f false).post fun _ _ hs => hs.kempt rfl

theorem selectRule_tidy : selectRule.Tidies calls :=
  Rule.tidies_ofCall fun _ h _ _ c _ => (h.lowerSource c).bind fun _ =>
    (wrapIfDraft fun _ _ => .inl).bind fun _ => (arg c 1).bind fun f =>
      (h.closed.applyProjection f _ _).keeps.bind fun _ => pure fun _ hs =>
        Lowered.Drafted.kempt ⟨hs.outcome, hs.draft⟩ rfl

theorem orderByRule_tidy : orderByRule.Tidies calls := by
  refine Rule.tidies_ofCall fun _ h _ X c _ => (h.lowerSource c).bind fun source =>
    iteBind (Q := fun lowered => lowered.Drafted calls X .sequence) (pure fun _ hs => hs)
      (wrapIfDraft fun _ => Query.mayBeWrapped_of_fixedRows) fun _ => (arg c 1).bind fun f =>
        (h.closed.applyProjection f _ _).keeps.bind fun _ => ?_
  dsimp only
  exact reviseDraft (fun _ => ⟨rfl, rfl⟩) (pure fun _ hs => hs.kempt rfl)

theorem takeSkipRule_tidy : takeSkipRule.Tidies calls := by
  refine Rule.tidies_ofCall fun _ h _ _ c _ => (h.lowerSource c).bind fun _ =>
    (wrapIfDraft fun _ => Query.mayBeWrapped_of_isLimited).bind fun _ => (arg c 1).bind fun count =>
      (h.closed.scalar count _).keeps.bind fun _ =>
        reviseDraft (fun query => ?_) (pure fun _ hs => hs.kempt rfl)
  split
  · exact ⟨rfl, rfl⟩
  · split <;> exact ⟨rfl, rfl⟩

theorem distinctRule_tidy : distinctRule.Tidies calls :=
  Rule.tidies_ofCall fun _ h _ _ c _ => (h.lowerSource c).bind fun _ =>
    (wrapIfDraft fun query hloose htest => Query.mayBeWrapped_of_fixedRows hloose (by
      rcases Bool.or_eq_true_iff.mp htest with htest | htest <;> simp [Query.hasFixedRows, htest])).bind
        fun _ => ((Widens.materialize _ _).nested fun _ hs => hs.draft.valid).bind fun _ =>
          reviseDraft (fun _ => ⟨rfl, rfl⟩) (pure fun _ hs => hs.kempt rfl)

/-- A query that is worked on is grouped by a key. -/
theorem makeGroups_tidy (h : l.Tidies calls) (c : CallSite) (lowered : Lowered) (key : Projection) :
    Triple ctx (lowered.Drafted calls X .sequence) (makeGroups l c lowered key)
      (Lowered.Kempt calls X) := by
  have hend : ∀ projection : Projection, Triple ctx (lowered.Drafted calls X .sequence)
      (Pure.pure { lowered with projection }) (Lowered.Kempt calls X) := fun _ =>
    pure fun _ hs => Lowered.Drafted.kempt ⟨hs.outcome, hs.draft⟩ rfl
  unfold makeGroups
  dsimp only
  split
  all_goals
    refine bind (Q := fun _ => lowered.Drafted calls X .sequence) ?_ fun element =>
      reviseDraft (fun _ => ⟨rfl, rfl⟩) ?_
    · first
      | exact (h.closed.applyProjection _ _ _).keeps
      | exact done _
    · split
      · exact (h.closed.applyProjection _ _ _).keeps.bind hend
      · exact hend _

theorem groupByRule_tidy : groupByRule.Tidies calls :=
  Rule.tidies_ofCall fun _ h _ _ c hcall => (h.lowerSource c).bind fun _ =>
    have hwraps : WrapsAny calls := ⟨.groupBy, rfl, eq_of_beq hcall.1 ▸ hcall.2⟩
    (wrapIfDraft fun _ => Query.mayBeWrapped_of_fixed).bind fun lowered =>
      (arg c 1).bind fun selector => (h.closed.applyProjection selector _ _).keeps.bind fun key =>
        ite ((wrapDraft.mono (fun _ hs => ⟨hs, fun _ => .inr (.inr hwraps)⟩)
          fun _ _ hs => hs.2).bind fun wrapped =>
            (h.closed.applyProjection selector _ _).keeps.bind fun key =>
              makeGroups_tidy h c wrapped key)
          (makeGroups_tidy h c lowered key)

theorem modifierRule_tidy : modifierRule.Tidies calls :=
  Rule.tidies_ofCall fun _ h ctx X c hcall => (h.lowerSource c).bind fun lowered => by
    have hclause : ∀ f : Query → Query,
        (∀ query : Query, query.SameReads (f query)) →
        Triple ctx (lowered.Drafted calls X .sequence) (do
          LowerM.modifyQuery lowered.query f
          return lowered) (Lowered.Kempt calls X) := fun f hf =>
      reviseDraft hf (pure fun _ hs => hs.kempt rfl)
    have hnote : ∀ f : LowerState → LowerState, (∀ st, (f st).store = st.store) →
        Triple ctx (lowered.Drafted calls X .sequence) (do
          modify f
          return lowered) (Lowered.Kempt calls X) := fun f hf =>
      (modifyState hf).bind fun _ => pure fun _ hs => hs.kempt rfl
    split
    · next hoperator =>
      exact wrapDraft.mono
        (fun _ hs => ⟨hs, fun _ => .inr (.inr ⟨.asSubquery, rfl, hoperator ▸ hcall.2⟩)⟩)
          fun _ _ hs => hs.2.kempt rfl
    · exact hclause _ fun _ => ⟨rfl, rfl⟩
    · exact hnote _ fun _ => rfl
    · exact hclause _ fun _ => ⟨rfl, rfl⟩
    · exact hnote _ fun _ => rfl
    · exact pure fun _ hs => hs.kempt rfl

/-! ## Joins and set operators -/

/-- The queries of a source may come to be read by another query. -/
def Store.Joinable (outer : QueryRef) (source : Source) (s : Store) : Prop :=
  ∀ r ∈ source.all.filterMap Source.query?, s.Nestable r ∧ r ≠ outer

instance {outer : QueryRef} {source : Source} : Lasting (Store.Joinable outer source) :=
  ⟨fun h hs r hr => ⟨Lasting.keeps h (hs r hr).1, (hs r hr).2⟩⟩

/-- An order without a limit is dropped. -/
theorem Query.isLoose_dropOrder (query : Query) :
    isLoose (if query.hasPagination then query else { query with orderBy := [] }) = false := by
  split
  · next hpaging => rw [isLoose, hpaging, Bool.not_true, Bool.and_false]
  · rfl

theorem Query.sameReads_dropOrder (query : Query) :
    query.SameReads (if query.hasPagination then query else { query with orderBy := [] }) := by
  split <;> exact ⟨rfl, rfl⟩

/-- The query of the inner side of a join is left behind for its table, or loses its order. -/
theorem joinSource_tidy (hleaves : LeavesAny calls) (inner : Lowered) (outer : QueryRef) :
    Triple ctx (fun s => inner.query ≠ outer ∧ inner.Kempt calls (fun r => X r ∨ r = outer) s ∧
        s.Open outer) inner.joinSource
      fun r s => s.Drafts calls X outer ∧ s.Joinable outer r.1 := by
  refine store fun _ => ?_
  dsimp only
  split
  · refine pure fun s hs => ⟨⟨hs.2.2, hs.2.1.draft.leave fun _ => hleaves⟩,
      fun r hr => ?_⟩
    simp [Source.ofTable, Source.all, Source.joined, Source.query?] at hr
  · refine bind (Q := fun _ s => inner.query ≠ outer ∧
      (s.Drafts calls (fun r => X r ∨ r = outer) inner.query ∧ s.Nestable inner.query) ∧
        s.Open outer) ?_ fun _ => ?_
    · have hsame (s : Store) := Query.sameReads_dropOrder (s.query inner.query)
      exact modifyQuery fun s hs => ⟨hs.1,
        hs.2.1.draft.tighten (hsame s) (Query.isLoose_dropOrder _), hs.2.2.revise (hsame s)⟩
    · refine ((Widens.expose inner.projection).nested fun s hs => hs.2.1.1.valid).bind fun _ =>
        knowing (fun s hs => hs.1) fun hne => pure fun s hs => ?_
      refine ⟨⟨hs.2.2, hs.2.1.1.close hs.2.1.2.notLoose⟩, fun r hr => ?_⟩
      obtain rfl : inner.query = r := by
        simpa [Source.ofQuery, Source.all, Source.joined, Source.query?, eq_comm] using hr
      exact ⟨hs.2.1.2, hne⟩

theorem joinRule_tidy : joinRule.Tidies calls := by
  refine Rule.tidies_ofCall fun l h ctx X c hcall => ?_
  split
  · next kind hkind =>
    have hleaves : LeavesAny calls := ⟨.join kind, rfl, hkind ▸ hcall.2⟩
    refine (h.lowerSource c).bind fun _ => (wrapIfDraft fun _ => Query.mayBeWrapped_of_fixed).bind
      fun outer => knowing (fun s hs => hs.outcome) fun houtcome => (arg c 1).bind fun _ =>
        (Triple.joinedTerm _ _).bind fun (kind, innerTerm) =>
          bind ((h.nestedSequence outer.query innerTerm _).pre fun s hs => hs.draft) fun inner =>
            unlessRefused fun _ => (joinSource_tidy hleaves inner outer.query).bind
              fun (source, innerProjection, condition) => ?_
    refine (arg c 2).bind fun _ => (h.closed.applyProjection _ _ _).keeps.bind fun outerKey =>
      (arg c 3).bind fun _ => (h.closed.applyProjection _ _ _).keeps.bind fun innerKey =>
        unlessRefused fun _ => storeAt fun s hs => ?_
    split
    · exact refused _ _
    · next first rest hsources =>
      refine bind (Q := fun _ => Drafts calls X outer.query) (modifyQuery fun s' heq => ?_) fun _ =>
        (arg c 4).bind fun _ => (h.closed.applyProjection _ _ _).keeps.bind fun _ =>
          pure fun _ hs => ?_
      · subst heq
        refine hs.1.tidy.reading .joined (source.all.filterMap Source.query?) hs.1.toOpen
          (fun r => Or.imp_right .inl) (fun r hr => ?_)
            (Query.mem_readAt_addJoin _ hsources ⟨kind, source, _⟩)
        obtain ⟨hnestable, hne⟩ := hs.2 r hr
        exact ⟨hnestable.toOpen, hne, hnestable.elim⟩
      · exact Lowered.Drafted.kempt ⟨houtcome, hs⟩ rfl
  · exact refuseSite c _

/-- A side of a set operator has no loose order. -/
theorem asSide_tidy (test : Query → Bool) :
    Triple ctx (lowered.Drafted calls X outcome) (lowered.asSide test) fun side s =>
      s.Nestable side.query ∧ side.Drafted calls X outcome s := by
  have hwrap : ∀ test : Query → Bool, Triple ctx
      (fun s => s.Nestable lowered.query ∧ lowered.Drafted calls X outcome s)
      (LowerM.wrapIf test lowered) fun side s =>
        s.Nestable side.query ∧ side.Drafted calls X outcome s := fun _ =>
    store fun _ => ite (wrapDraft.pre fun _ hs => ⟨hs.2, hs.1.wrappable⟩) (pure fun _ hs => hs)
  refine bind (modifyQuery fun s hs => ?_) fun _ => (hwrap _).bind fun side => store fun _ => ?_
  · have htight := hs.draft.tighten
      (f := fun q => if q.hasPagination then q else { q with orderBy := [] })
        (Query.sameReads_dropOrder _) (Query.isLoose_dropOrder _)
    exact ⟨htight.2, hs.outcome, htight.1⟩
  · exact ite (((Widens.materialize _ _).nested fun _ hs => hs.1.valid).bind fun _ =>
      pure fun _ hs => hs) (pure fun _ hs => hs)

theorem setOperationRule_tidy : setOperationRule.Tidies calls := by
  refine Rule.tidies_ofCall fun l h ctx X c _ => ?_
  split
  · next operation _ =>
    refine (h.lowerSource c).bind fun _ => (asSide_tidy _).bind fun left => ofStores fun s₀ hs₀ =>
      (arg c 1).bind fun rightTerm => ?_
    have hright : Triple ctx (fun s => s = s₀) (l.sequence rightTerm c.parent) fun right s =>
        right.Kempt calls (fun r => X r ∨ r = left.query) s ∧
          s₀.KeepsBelow s₀.queries.size s ∧ right.Above s₀.queries.size :=
      ((h.sequence ctx _ rightTerm c.parent).and
        (since s₀ ((h.keeps _).sequence rightTerm c.parent))).pre fun s heq => by
          subst heq
          exact ⟨hs₀.2.draft.tidy, .refl _ s⟩
    refine hright.bind fun right => unlessRefused fun _ => knowing (fun _ hs => hs.2.2) fun habove => ?_
    refine (((asSide_tidy _).and (since s₀ ((LowerM.keeps_bounded _).asSide habove _))).pre fun s hs =>
      ⟨⟨rfl, hs.1.draft⟩, hs.2.1⟩).bind fun right => unlessRefused fun _ =>
        bind (Q := fun _ => Drafts calls X left.query) (modifyQuery fun s hs => ?_)
          fun _ => pure fun _ hs => Lowered.Drafted.kempt ⟨hs₀.2.outcome, hs⟩ rfl
    have hne : right.query ≠ left.query := fun heq => by
      have hle : s₀.queries.size ≤ right.query.index := hs.2.2
      rw [heq] at hle
      exact absurd hs₀.1.valid (Nat.not_lt_of_le hle)
    refine hs.1.2.draft.tidy.reading .side [right.query] (Lasting.keeps hs.2.1 hs₀.1.toOpen)
      (fun r hr => ?_) (fun r hr => ?_) fun place r => ?_
    · rw [List.mem_singleton, ← or_assoc]
      exact hr
    · rw [List.mem_singleton.mp hr]
      exact ⟨hs.1.1.toOpen, hne, hs.1.1.elim⟩
    · rw [List.mem_singleton]
      exact Query.mem_readAt_addSetOperator _ ⟨operation, right.query⟩ place r
  · exact refuseSite c _

/-! ## Ends of sequences -/

theorem firstSingleRule_tidy : firstSingleRule.Tidies calls :=
  Rule.tidies_ofCall fun _ h _ X c _ => (h.lowerSource c).bind fun _ => (h.filterIf _).bind fun _ =>
    (wrapIfDraft fun _ => Query.mayBeWrapped_of_isLimited).bind fun lowered =>
      bind (Q := fun _ s => s.Drafts calls X lowered.query ∧ s.Nestable lowered.query)
        (modifyQuery fun _ hs => hs.draft.tighten ⟨rfl, rfl⟩ (by
          simp [Query.isLoose, Query.hasPagination])) fun _ =>
          pure fun _ hs => Nestable.kempt hs.1 hs.2

theorem aggregationRule_tidy : aggregationRule.Tidies calls :=
  Rule.tidies_ofCall fun _ h _ X c _ => (h.lowerSource c).bind fun _ =>
    iteBind (Q := fun lowered => lowered.Drafted calls X .sequence) (h.filterIf _)
      (pure fun _ hs => hs) fun _ => (wrapIfDraft fun _ => Query.mayBeWrapped_of_fixed).bind
        fun lowered => bind (Q := fun _ s => s.Drafts calls X lowered.query ∧
            s.Nestable lowered.query)
          (modifyQuery fun _ hs => hs.draft.tighten ⟨rfl, rfl⟩ rfl) fun _ =>
            (h.closed.aggregateOf c _).keeps.bind fun _ => pure fun _ hs => Nestable.kempt hs.1 hs.2

/-- The sequence that a condition is about is left behind as it stands. -/
theorem lowerTest_tidy (hleaves : LeavesAny calls) (h : l.Tidies calls) (c : CallSite)
    (outer : QueryRef) :
    Triple ctx (Tidy calls X) (lowerTest l c outer) fun _ => Tidy calls X := by
  have hleave : ∀ {lowered : Lowered} (condition : Condition),
      Triple ctx (lowered.Drafted calls X .sequence) (Pure.pure condition) fun _ => Tidy calls X :=
    fun _ => pure fun _ hs => hs.draft.leave fun _ => hleaves
  refine (arg c 0).bind fun source => ?_
  dsimp only
  split
  · exact (arg c 1).bind fun t => (h.scalar ctx X t outer).bind fun _ => store fun _ => done _
  · refine (h.sequence ctx X source _).bind fun lowered => ?_
    have hdraft : Triple ctx (lowered.Kempt calls X) (c.checkSequence source lowered) fun _ =>
        lowered.Drafted calls X .sequence :=
      (checkSequence c source lowered).post fun _ s hs => ⟨Outcome.eq_sequence hs.1, hs.2.draft⟩
    refine hdraft.bind fun _ => ?_
    split
    · exact (h.filterIf _).bind fun _ => hleave _
    · exact (arg c 1).bind fun f => (h.filter f true).bind fun _ => hleave _
    · refine (arg c 1).bind fun t => (h.closed.scalar t outer).keeps.bind fun item => ?_
      split
      · exact ((Widens.columnFor _ _).nested fun _ hs => hs.draft.valid).bind fun _ =>
          reviseDraft (fun _ => ⟨rfl, rfl⟩) (hleave _)
      · exact refuseWhole c _

theorem anyAllRule_tidy : anyAllRule.Tidies calls := by
  refine Rule.tidies_ofCall fun _ h _ _ c hcall => (newDraft c.parent).bind fun q =>
    ((frame (F := Nestable q) (fun n => lowerTest_bounded (h.keeps n).bounded c q)
      (lowerTest_tidy ⟨c.operator, ?_, hcall.2⟩ h c q)).pre fun _ hs =>
        ⟨hs.1.close hs.2.notLoose, hs.2⟩).bind fun _ =>
          pure fun _ hs => Nestable.kempt (hs.1.drafts hs.2.toOpen) hs.2
  have htest := hcall.1
  simp only [Bool.or_eq_true, beq_iff_eq] at htest
  rcases htest with (htest | htest) | htest <;> rw [htest] <;> rfl

/-! ## Data modification -/

/-- The values of an insert are columns. -/
theorem selectValues_tidy (items : List Assignment) :
    Triple ctx (lowered.Drafted calls X outcome) (LowerM.selectValues lowered.query items)
      fun _ => lowered.Drafted calls X outcome := by
  refine reviseDraft (fun _ => ⟨rfl, rfl⟩) <|
    bind (forIn (fun _ => lowered.Drafted calls X outcome) (b := []) fun _ value _ => ?_) fun _ => done _
  refine bind (Q := fun _ => lowered.Drafted calls X outcome) (allocate fun s hs => ?_) fun _ =>
    pure fun _ hs => ⟨rfl, hs⟩
  exact Nested.congr (Store.grows_addFreshColumn (E := fun _ => True) hs.draft.valid
    (e := value) trivial none).sameNesting hs

theorem lowerInsert_tidy (h : l.Tidies calls) (c : CallSite) :
    Triple ctx (Tidy calls X) (lowerInsert l c) (Lowered.Kempt calls X) := by
  unfold lowerInsert
  split
  · refine (h.sequence ctx X _ _).bind fun lowered => ?_
    split
    · exact pure fun _ hs => hs.draft.kempt rfl
    · exact refuseWhole c _
  · exact (tableOfNested _).bind fun _ => (newDraft c.parent).bind fun q =>
      (h.closed.assignments _ _ _ _ _).keeps.bind fun _ => pure fun _ hs => hs.1.kempt rfl
  · exact (h.lowerSource c).bind fun _ => (wrapIfDraft fun _ _ => .inl).bind fun _ =>
      (tableOfNested _).bind fun _ => (h.closed.assignments _ _ _ _ _).keeps.bind fun items =>
        (selectValues_tidy items).bind fun _ => pure fun _ hs => hs.draft.kempt rfl
  · exact refuseWhole c _

theorem lowerValue_tidy (h : l.Tidies calls) (c : CallSite) :
    Triple ctx (Tidy calls X) (lowerValue l c) (Lowered.Kempt calls X) := by
  refine (h.lowerFirst c).bind fun lowered => ?_
  split
  · next into items _ =>
    have hmember : ∀ member term (items : Scalar → Option FieldRef → List Assignment),
        Triple ctx (Drafts calls X lowered.query) (do
          let value ← l.scalar term lowered.query
          let found ← LowerM.settableField into member .insert
          return { lowered with outcome := .insertValues into (items value found) })
          (Lowered.Kempt calls X) :=
      fun member term items => (h.closed.scalar term _).keeps.bind fun _ =>
        (Triple.settableField into member .insert).bind fun _ => pure fun _ hs => hs.kempt rfl
    refine Triple.pre (P := Drafts calls X lowered.query) ?_ fun s hs => hs.draft
    exact (arg c 1).bind fun _ => checked.bind fun member => (arg c 2).bind fun given =>
      ite (checked.bind fun f => hmember member f.2 _) (hmember member given _)
  · exact refuseWhole c _

theorem insertRule_tidy : insertRule.Tidies calls := by
  refine Rule.tidies_ofCall fun l h ctx X c _ => ?_
  split
  · exact (arg c 0).bind fun t => (tableOfNested t).bind fun _ => (newDraft c.parent).bind
      fun _ => pure fun _ hs => hs.1.kempt rfl
  · exact lowerValue_tidy h c
  · exact lowerInsert_tidy h c

theorem insertOrUpdateRule_tidy : insertOrUpdateRule.Tidies calls := by
  refine Rule.tidies_ofCall fun l h ctx X c _ => (arg c 0).bind fun t =>
    (tableOfNested t).bind fun _ => (newDraft c.parent).bind fun q =>
      (addTableSourceNested _).bind fun _ => (arg c 1).bind fun _ =>
        (h.closed.assignments _ _ _ _ _).keeps.bind fun _ => (arg c 2).bind fun _ =>
          (h.closed.assignments _ _ _ _ _).keeps.bind fun _ => ?_
  split
  · exact (h.closed.applyProjection _ _ _).keeps.bind fun _ => store fun _ => checked.bind fun _ =>
      pure fun _ hs => hs.1.kempt rfl
  · exact store fun _ => checked.bind fun _ => pureThen (pure fun _ hs => hs.1.kempt rfl)

theorem setMember_tidy (h : l.Tidies calls) (c : CallSite) (lowered : Lowered)
    (items : List Assignment) :
    Triple ctx (Drafts calls X lowered.query) (lowered.setMember l c items)
      (Lowered.Kempt calls X) :=
  (target lowered).bind fun table => (arg c 1).bind fun _ => checked.bind fun member =>
    (arg c 2).bind fun _ => iteBind (h.closed.applyScalar _ _ _).keeps (h.closed.scalar _ _).keeps
      fun _ => (Triple.settableField table member .update).bind fun _ =>
        pure fun _ hs => hs.kempt rfl

theorem setterItems_tidy (h : l.Tidies calls) (setter : Term) :
    Triple ctx (lowered.Drafted calls X outcome) (lowered.setterItems l setter) fun _ =>
      lowered.Drafted calls X outcome :=
  unlessRefused fun _ => (target lowered).bind fun _ => (h.closed.assignments _ _ _ _ _).keeps

theorem lowerUpdateParts_tidy (h : l.Tidies calls) (c : CallSite) :
    Triple ctx (Tidy calls X) (lowerUpdateParts l c) fun parts => Drafts calls X parts.1.query := by
  unfold lowerUpdateParts
  split
  · refine (h.sequence ctx X _ _).bind fun lowered => ?_
    split
    · exact pure fun _ hs => hs.draft
    · exact refuseWhole c _
  · exact (h.sequence ctx X _ _).bind fun lowered =>
      ((setterItems_tidy h _).pre fun _ hs => ⟨rfl, hs.draft⟩).bind fun _ =>
        pure fun _ hs => hs.draft
  · exact (h.sequence ctx X _ _).bind fun lowered =>
      ((h.filter _ false).pre fun _ hs => ⟨rfl, hs.draft⟩).bind fun _ =>
        (setterItems_tidy h _).bind fun _ => pure fun _ hs => hs.draft
  · exact refuseWhole c _

theorem updateRule_tidy : updateRule.Tidies calls :=
  Rule.tidies_ofCall fun _ h _ _ c _ => ite
    ((h.lowerFirst c).bind fun lowered => Triple.pre (P := Drafts calls _ lowered.query) (by
      split
      · exact setMember_tidy h c lowered _
      · exact setMember_tidy h c lowered []
      · exact refused _ _) fun _ hs => hs.draft)
    ((lowerUpdateParts_tidy h c).bind fun _ => ite (throw _) <| (target _).bind fun _ =>
      pure fun _ hs => hs.kempt rfl)

theorem deleteRule_tidy : deleteRule.Tidies calls :=
  Rule.tidies_ofCall fun _ h _ _ c _ => (h.lowerSource c).bind fun _ => (h.filterIf _).bind
    fun lowered => (target lowered).bind fun _ => store fun _ => ite (read (throw _)) <|
      reviseDraft (fun _ => ⟨rfl, rfl⟩) (pure fun _ hs => hs.draft.kempt rfl)

theorem ddlRule_tidy : ddlRule.Tidies calls := by
  refine Rule.tidies_ofCall fun l h ctx X c _ => (arg c 0).bind fun t =>
    (tableOfNested t).bind fun (table, projection) => ?_
  dsimp only
  split
  · exact (newDraft c.parent).bind fun _ => pure fun _ hs => hs.1.kempt rfl
  · exact refuseWhole c _

/-! ## Merges and multi-table inserts -/

/-- The source of a merge is read as it stands. -/
theorem lowerMergeSource_tidy (hwraps : WrapsAny calls) (h : l.Tidies calls) (merge : QueryRef)
    (t : Term) :
    Triple ctx (Drafts calls X merge) (lowerMergeSource l merge t) fun _ => Drafts calls X merge := by
  refine (h.nestedSequence merge t _).bind fun inner => unlessRefused fun _ =>
    storeAt fun s hs => ?_
  dsimp only
  split
  · next hsimple =>
    have hloose : (s.query inner.query).isLoose = false := by
      simp only [Query.isSimple, Bool.and_eq_true] at hsimple
      rw [Query.isLoose, hsimple.1.1.1.2, Bool.not_true, Bool.false_and]
    refine pureThen (((addTableSourceNested (F := Drafts calls X merge) _).pre fun s' heq => ?_).bind
      fun _ => done _)
    subst heq
    exact ⟨hs.2.2, hs.2.1.draft.close hloose⟩
  · have hexpose : Triple ctx (fun s' => s' = s) (LowerM.expose inner.query inner.projection)
        fun _ s => s.Drafts calls (fun r => X r ∨ r = merge) inner.query ∧ s.Open merge :=
      ((Widens.expose inner.projection).nested (F := fun s =>
        s.Drafts calls (fun r => X r ∨ r = merge) inner.query ∧ s.Open merge)
          fun _ hs => hs.1.valid).pre fun s' heq => heq ▸ ⟨hs.2.1.draft, hs.2.2⟩
    exact hexpose.bind fun _ => pureThen (bind (modifyQuery fun s' hs' =>
      hs'.1.addSource (fun _ => .inr (.inr hwraps)) hs'.2 hs.1)
        fun _ => done _)

theorem extend_tidy (h : l.Tidies calls) (d : MergeDraft) (c : CallSite)
    (hcall : calls c.operator = true) (q : QueryRef) :
    Triple ctx (Drafts calls X q) (d.extend l c q) fun _ => Drafts calls X q := by
  unfold MergeDraft.extend
  split
  · next hoperator =>
    exact unlessRefused fun _ => (arg c 1).bind fun t =>
      (lowerMergeSource_tidy ⟨.mergeUsing, rfl, hoperator ▸ hcall⟩ h q t).bind fun _ => done _
  · exact (h.closed.lowerOn d c q).keeps.bind fun _ => done _
  · split
    · exact (h.closed.lowerOperation d c q _).keeps.bind fun _ => done _
    · exact refuseSite c _

theorem mergeRule_tidy : mergeRule.Tidies calls := by
  refine Rule.tidies_ofCall fun l h ctx X c hcall => ite ?_ ?_
  · exact (arg c 0).bind fun t => (tableOfNested t).bind fun _ => (newDraft c.parent).bind fun _ =>
      (addTableSourceNested _).bind fun _ => pure fun _ hs => hs.1.kempt rfl
  · refine (h.lowerFirst c).bind fun lowered => ?_
    split
    · exact ((extend_tidy h _ c hcall.2 lowered.query).pre fun _ hs => hs.draft).bind fun _ =>
        pure fun _ hs => hs.kempt rfl
    · exact refuseSite c _

theorem lowerBranch_tidy (h : l.Tidies calls) (lowered : Lowered) (table setter : Term) :
    Triple ctx (Drafts calls X lowered.query) (lowerBranch l lowered table setter) fun _ =>
      Drafts calls X lowered.query := by
  refine (tableOfNested table).bind fun _ => (h.closed.assignments _ _ _ _ _).keeps.bind
    fun items => (mapM fun item _ => ?_).bind fun _ => done _
  split
  · refine bind (Q := fun _ => Drafts calls X lowered.query) (allocate fun s hs => ?_) fun _ => done _
    exact Nested.congr (Store.widens_addColumn hs.valid _ none).sameNesting hs
  · exact done _

/-- What a multi-table insert is lowered to is no value. -/
theorem extendInsert_tidy (h : l.Tidies calls) (d : MultiInsertDraft) (c : CallSite)
    (lowered : Lowered) :
    Triple ctx (Drafts calls X lowered.query) (d.extend l c lowered) fun outcome s =>
      outcome.isValue = false ∧ s.Drafts calls X lowered.query := by
  have hclose : Triple ctx (Drafts calls X lowered.query) (d.close c) fun _ =>
      Drafts calls X lowered.query :=
    unlessRefused fun _ => ite (unlessRefused fun _ => done _) (done _)
  unfold MultiInsertDraft.extend
  split
  · exact unlessRefused fun _ => (arg c 1).bind fun _ => (arg c 2).bind fun _ =>
      (lowerBranch_tidy h lowered _ _).bind fun _ => pure fun _ hs => ⟨rfl, hs⟩
  · exact unlessRefused fun _ => (arg c 1).bind fun _ => (h.closed.applyCondition _ _ _).keeps.bind
      fun _ => (arg c 2).bind fun _ => (arg c 3).bind fun _ =>
        (lowerBranch_tidy h lowered _ _).bind fun _ => pure fun _ hs => ⟨rfl, hs⟩
  · exact unlessRefused fun _ => (arg c 1).bind fun _ => (arg c 2).bind fun _ =>
      (lowerBranch_tidy h lowered _ _).bind fun _ => pure fun _ hs => ⟨rfl, hs⟩
  · exact hclose.bind fun _ => pure fun _ hs => ⟨rfl, hs⟩
  · exact hclose.bind fun _ => pure fun _ hs => ⟨rfl, hs⟩
  · exact refuseSite c _

theorem multiInsertRule_tidy : multiInsertRule.Tidies calls := by
  refine Rule.tidies_ofCall fun l h ctx X c _ => ite ?_ ?_
  · exact (h.lowerSource c).bind fun _ => pure fun _ hs => hs.draft.kempt rfl
  · refine (h.lowerFirst c).bind fun lowered => ?_
    split
    · exact ((extendInsert_tidy h _ c lowered).pre fun _ hs => hs.draft).bind fun _ =>
        pure fun _ hs => hs.2.kempt hs.1
    · exact refuseSite c _

/-! ## The standard rules -/

/-- The standard rules leave tidy stores tidy if their lowerer does. -/
theorem standardRules_tidy : ∀ rule ∈ standardRules, rule.Tidies calls :=
  forall_mem_standardRules.mpr
    ⟨tableRule_tidy, whereRule_tidy, selectRule_tidy, orderByRule_tidy, groupByRule_tidy,
      joinRule_tidy, takeSkipRule_tidy, distinctRule_tidy, firstSingleRule_tidy,
      aggregationRule_tidy, anyAllRule_tidy, setOperationRule_tidy, ofTypeRule_tidy,
      modifierRule_tidy, insertRule_tidy, insertOrUpdateRule_tidy, updateRule_tidy, deleteRule_tidy,
      mergeRule_tidy, multiInsertRule_tidy, ddlRule_tidy, valuesRule_tidy⟩

/-- Lowering by the first rule that accepts leaves tidy stores tidy if the rules do. -/
theorem dispatch_tidy {rules : List Rule} (hrules : ∀ rule ∈ rules, rule.Tidies calls)
    (hcalls : ∀ rule ∈ rules, ∀ t, rule.accepts t = true → t.callsOnly calls = true)
    (h : l.Tidies calls) (t : Term) (parent : Option QueryRef) :
    Triple ctx (Tidy calls X) (dispatch rules l t parent) (Lowered.Kempt calls X) := by
  refine get fun st => ?_
  cases hfind : st.ranking.find? rules t with
  | none => exact throw _
  | some found =>
    obtain ⟨position, rule⟩ := found
    obtain ⟨hrule, haccepts⟩ := Ranking.mem_of_find? hfind
    exact (hrules rule hrule l h ctx X t parent haccepts (hcalls rule hrule t haccepts)).bind
      fun lowered => bind (Q := fun _ => lowered.Kempt calls X) (modifyState fun _ => rfl) fun _ =>
        pure fun _ hs => hs

/-- Lowering by rules that only accept some calls leaves tidy stores tidy if the rules do. -/
theorem lowererWithin_tidies {rules : List Rule} (hrules : ∀ rule ∈ rules, rule.Tidies calls)
    (hkeeps : ∀ n, ∀ rule ∈ rules, rule.Keeps n)
    (hcalls : ∀ rule ∈ rules, ∀ t, rule.accepts t = true → t.callsOnly calls = true) :
    ∀ fuel, (lowererWithin rules fuel).Tidies calls
  | 0 => ⟨fun n => lowererWithin_keeps_of (hkeeps n) 0, fun _ _ _ _ => throw _,
      fun _ _ _ _ => throw _, fun _ _ _ _ => throw _, fun _ _ _ _ => throw _⟩
  | fuel + 1 =>
    have ih := lowererWithin_tidies hrules hkeeps hcalls fuel
    { keeps := fun n => lowererWithin_keeps_of (hkeeps n) (fuel + 1)
      sequence := fun _ _ => dispatch_tidy hrules hcalls ih
      projection := fun ctx X t q => (ih.closed.projectionOf t q).2 ctx X
      scalar := fun ctx X t q => (ih.closed.scalarOf t q).2 ctx X
      condition := fun ctx X t q => (ih.closed.conditionOf t q).2 ctx X }

/-- Lowering by some of the standard rules leaves stores tidy, whichever operators are called. -/
theorem lowererWithin_tidies_all {rules : List Rule}
    (hrules : ∀ rule ∈ rules, rule ∈ standardRules) (fuel : Nat) :
    (lowererWithin rules fuel).Tidies fun _ => true :=
  lowererWithin_tidies (fun rule h => standardRules_tidy rule (hrules rule h))
    (fun n rule h => standardRules_keep n rule (hrules rule h))
    (fun _ _ t _ => by cases t <;> rfl) fuel

/-- Lowering a term by some of the standard rules leaves stores tidy, where no other operators than
those of the term are called. -/
theorem lowerSequence_tidy {rules : List Rule} (hrules : ∀ rule ∈ rules, rule ∈ standardRules)
    (t : Term) :
    Triple ctx (Tidy t.calls X) (lowerSequence rules t) (Lowered.Kempt t.calls X) := by
  have hlocal : ∀ rule ∈ rules, rule.IsLocal := fun rule h => standardRules_local rule (hrules rule h)
  have hsame := congrFun ((lowererWithin_among hlocal t (loweringDepth t)).sequence .here) none
  rw [lowerSequence, hsame]
  refine (lowererWithin_tidies (fun rule h => ?_) (fun n rule h => ?_) (fun rule h t haccepts => ?_)
    (loweringDepth t)).sequence ctx X t none
  all_goals obtain ⟨standard, hstandard, rfl⟩ := List.mem_map.mp h
  · exact fun l hl ctx X t parent haccepts => standardRules_tidy standard (hrules standard hstandard)
      l hl ctx X t parent (Bool.and_eq_true_iff.mp haccepts).2
  · exact standardRules_keep n standard (hrules standard hstandard)
  · exact (Bool.and_eq_true_iff.mp haccepts).1

end SqlCompiler
