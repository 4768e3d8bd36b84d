import SqlCompiler.Proofs.Lowering.RuleFrames

/-!
# Properties of stores along lowering

A triple says of a step that it leads from stores with a property to results and stores with a
property.  Since lowering a part of a term keeps the queries that are there, a property of them
lasts while a part is lowered.

Main results:

- Definition `LowerM.Triple` and its closure lemmas, one for each way to build a step.
- Class `Store.Lasting`: properties that last while a store grows.
- Theorem `LowerM.Triple.frame`: a lasting property may be carried past a step.
-/

namespace SqlCompiler

/-- From a store with a property, a step comes to results and stores with a property. -/
def LowerM.Triple {α : Type} (ctx : LowerContext) (P : Store → Prop) (step : LowerM α)
    (Q : α → Store → Prop) : Prop :=
  ∀ st a st', P st.store → step.Gives ctx st a st' → Q a st'.store

namespace LowerM.Triple

variable {α β γ : Type} {ctx : LowerContext} {P P' : Store → Prop} {Q Q' : α → Store → Prop}
  {R : β → Store → Prop}

/-! ## Steps in general -/

theorem pure {a : α} (h : ∀ s, P s → Q a s) : Triple ctx P (Pure.pure a) Q := by
  intro st b st' hP hgives
  cases hgives
  exact h st.store hP

theorem done (a : α) : Triple ctx P (Pure.pure a) fun _ => P := pure fun _ h => h

theorem mono {step : LowerM α} (h : step.Triple ctx P Q) (hpre : ∀ s, P' s → P s)
    (hpost : ∀ a s, Q a s → Q' a s) : step.Triple ctx P' Q' :=
  fun st a st' hP hgives => hpost a _ (h st a st' (hpre _ hP) hgives)

theorem pre {step : LowerM α} (h : step.Triple ctx P Q) (hpre : ∀ s, P' s → P s) :
    step.Triple ctx P' Q := h.mono hpre fun _ _ => id

theorem post {step : LowerM α} (h : step.Triple ctx P Q) (hpost : ∀ a s, Q a s → Q' a s) :
    step.Triple ctx P Q' := h.mono (fun _ => id) hpost

/-- Two properties of one step. -/
theorem and {step : LowerM α} (h : step.Triple ctx P Q) (h' : step.Triple ctx P' Q') :
    step.Triple ctx (fun s => P s ∧ P' s) fun a s => Q a s ∧ Q' a s :=
  fun st a st' hP hgives => ⟨h st a st' hP.1 hgives, h' st a st' hP.2 hgives⟩

/-- What is not about the store lasts. -/
theorem always {step : LowerM α} (φ : Prop) : step.Triple ctx (fun _ => φ) fun _ _ => φ :=
  fun _ _ _ hφ _ => hφ

/-- A step that is looked at from each store alone. -/
theorem ofStores {step : LowerM α} (h : ∀ s, P s → step.Triple ctx (fun s' => s' = s) Q) :
    step.Triple ctx P Q :=
  fun st a st' hP hgives => h st.store hP st a st' rfl hgives

/-- What is known of every store may be used to prove a triple. -/
theorem knowing {step : LowerM α} {φ : Prop} (hφ : ∀ s, P s → φ) (h : φ → step.Triple ctx P Q) :
    step.Triple ctx P Q :=
  fun st a st' hP hgives => h (hφ _ hP) st a st' hP hgives

theorem bind {step : LowerM α} {next : α → LowerM β} (h : step.Triple ctx P Q)
    (hnext : ∀ a, (next a).Triple ctx (Q a) R) : (step >>= next).Triple ctx P R := by
  intro st b st'' hP hgives
  obtain ⟨a, st', hstep, hrest⟩ := hgives.of_bind
  exact hnext a st' b st'' (h st a st' hP hstep) hrest

theorem pureThen {a : α} {next : α → LowerM β} (h : (next a).Triple ctx P R) :
    Triple ctx P (Pure.pure a >>= next) R := h

theorem throw (e : SqlError) : Triple ctx P (MonadExcept.throw e : LowerM α) Q := by
  intro st a st' _ hgives
  cases hgives

theorem refuse (text reason : String) : Triple ctx P (LowerM.refuse text reason : LowerM α) Q :=
  throw _

/-- Nothing follows a refusal. -/
theorem refused {next : α → LowerM β} (text reason : String) :
    Triple ctx P (LowerM.refuse text reason >>= next) R := by
  intro st b st' _ hgives
  obtain ⟨a, _, hrefuse, -⟩ := hgives.of_bind
  cases hrefuse

/-- What follows a look at the context. -/
theorem read {next : LowerContext → LowerM β} (h : (next ctx).Triple ctx P R) :
    Triple ctx P (MonadReader.read >>= next) R :=
  fun st b st' hP hgives => h st b st' hP hgives

/-- What follows a look at the state. -/
theorem get {next : LowerState → LowerM β} (h : ∀ st, (next st).Triple ctx P R) :
    Triple ctx P (MonadState.get >>= next) R :=
  fun st b st' hP hgives => h st st b st' hP hgives

/-- What follows a look at the store. -/
theorem store {next : Store → LowerM β} (h : ∀ s, (next s).Triple ctx P R) :
    Triple ctx P (LowerM.store >>= next) R :=
  fun st b st' hP hgives => h st.store st b st' hP hgives

/-- What follows a look at the store, where the store matters. -/
theorem storeAt {next : Store → LowerM β}
    (h : ∀ s, P s → (next s).Triple ctx (fun s' => s' = s) R) :
    Triple ctx P (LowerM.store >>= next) R :=
  fun st b st' hP hgives => h st.store hP st b st' rfl hgives

/-- A change of the state that leaves the store alone. -/
theorem modifyState {f : LowerState → LowerState} (hf : ∀ st, (f st).store = st.store) :
    Triple ctx P (modify f : LowerM PUnit) fun _ => P := by
  intro st a st' hP hgives
  cases hgives
  exact (hf st).symm ▸ hP

theorem allocate {f : Store → α × Store} (h : ∀ s, P s → Q (f s).1 (f s).2) :
    Triple ctx P (LowerM.allocate f) Q := by
  intro st a st' hP hgives
  cases hgives
  exact h st.store hP

theorem modifyQuery {q : QueryRef} {f : Query → Query} {Q : PUnit → Store → Prop}
    (h : ∀ s, P s → Q ⟨⟩ (s.modifyQuery q f)) : Triple ctx P (LowerM.modifyQuery q f) Q := by
  intro st a st' hP hgives
  cases hgives
  exact h st.store hP

/-- A result that may be an error. -/
theorem ofExcept {r : Except SqlError α} (h : ∀ a s, r = .ok a → P s → Q a s) :
    Triple ctx P (LowerM.ofExcept r) Q := by
  cases r with
  | error e => exact throw e
  | ok a => exact pure fun s => h a s rfl

theorem checked {r : Except SqlError α} : Triple ctx P (LowerM.ofExcept r) fun _ => P :=
  ofExcept fun _ _ _ => id

theorem withVariables {bindings : List (String × Projection)} {step : LowerM α}
    (h : step.Triple { ctx with scope := bindings.reverse ++ ctx.scope } P Q) :
    Triple ctx P (LowerM.withVariables bindings step) Q :=
  fun st a st' hP hgives => h st a st' hP hgives

/-- One of two steps. -/
theorem ite {c : Prop} [Decidable c] {step other : LowerM α} (h : step.Triple ctx P Q)
    (hother : other.Triple ctx P Q) : Triple ctx P (if c then step else other) Q := by
  split
  · exact h
  · exact hother

/-- One of two steps and what follows in either case. -/
theorem iteBind {c : Prop} [Decidable c] {step other : LowerM α} {next : α → LowerM β}
    (h : step.Triple ctx P Q) (hother : other.Triple ctx P Q)
    (hnext : ∀ a, (next a).Triple ctx (Q a) R) :
    Triple ctx P (if c then step >>= next else other >>= next) R :=
  ite (h.bind hnext) (hother.bind hnext)

/-- A refusal under a condition and what follows without it. -/
theorem unlessRefused {c : Prop} [Decidable c] {text reason : String} {next : α → LowerM β}
    {other : LowerM β} (h : ¬ c → other.Triple ctx P R) :
    Triple ctx P (if c then LowerM.refuse text reason >>= next else other) R := by
  split
  · exact refused text reason
  · next hc => exact h hc

theorem mapM {f : γ → LowerM β} :
    ∀ {items : List γ}, (∀ item ∈ items, (f item).Triple ctx P fun _ => P) →
      Triple ctx P (items.mapM f) fun _ => P
  | [], _ => done _
  | item :: rest, h => by
    rw [List.mapM_cons]
    exact (h item List.mem_cons_self).bind fun _ =>
      (mapM fun other hother => h other (List.mem_cons_of_mem item hother)).bind fun _ => done _

theorem foldlM {f : β → γ → LowerM β} (I : β → Store → Prop) :
    ∀ {items : List γ} (b : β), (∀ b, ∀ item ∈ items, (f b item).Triple ctx (I b) I) →
      Triple ctx (I b) (items.foldlM f b) I
  | [], _, _ => pure fun _ h => h
  | item :: rest, b, h => by
    rw [List.foldlM_cons]
    exact (h b item List.mem_cons_self).bind fun b =>
      foldlM I b fun b other hother => h b other (List.mem_cons_of_mem item hother)

/-- A loop over a list, by what holds after each part of it. -/
theorem forIn {f : γ → PUnit → LowerM (ForInStep PUnit)} (I : List γ → Store → Prop) :
    ∀ {items b : List γ}, (∀ before item, item ∈ items →
        (f item ⟨⟩).Triple ctx (I before) fun r s => r = .yield ⟨⟩ ∧ I (before ++ [item]) s) →
      Triple ctx (I b) (ForIn.forIn items PUnit.unit f) fun _ => I (b ++ items)
  | [], b, _ => by
    rw [List.append_nil]
    exact done _
  | item :: rest, b, h => by
    rw [List.forIn_cons]
    refine (h b item List.mem_cons_self).bind fun r => ?_
    cases r with
    | done u => exact pure fun s h => by cases h.1
    | yield u =>
      rw [List.append_cons b item rest]
      exact (forIn I fun before other hother =>
        h before other (List.mem_cons_of_mem item hother)).pre fun _ h => h.2

/-! ## The steps of lowering that leave the store alone -/

theorem refuseGrouping (p : Projection) : Triple ctx P (LowerM.refuseGrouping p) fun _ => P :=
  ite (refuse _ _) (done _)

theorem settableField (t : TableRef) (name : String) (kind : WriteKind) :
    Triple ctx P (LowerM.settableField t name kind) fun _ => P :=
  store fun _ => by
    split
    · exact done _
    · exact throw _

section

variable (c : CallSite)

theorem refuseSite (reason : String) : Triple ctx P (c.refuse reason : LowerM α) Q := refuse _ _

theorem refuseWhole (reason : String) : Triple ctx P (c.refuseWhole reason : LowerM α) Q :=
  refuse _ _

theorem arg (index : Nat) : Triple ctx P (c.arg index) fun _ => P := by
  unfold CallSite.arg
  split
  · exact done _
  · exact refuse _ _

theorem checkSequence (t : Term) (lowered : Lowered) :
    Triple ctx P (c.checkSequence t lowered) fun _ s => lowered.outcome.isSequence ∧ P s := by
  unfold CallSite.checkSequence
  split
  · next h => exact pure fun s hP => ⟨h, hP⟩
  · exact refuse _ _

theorem target (lowered : Lowered) : Triple ctx P lowered.target fun _ => P :=
  store fun _ => by
    split
    · exact ite (done _) (throw _)
    · exact throw _

theorem joinedTerm (kind : JoinKind) (inner : Term) :
    Triple ctx P (SqlCompiler.joinedTerm kind inner) fun _ => P := by
  unfold SqlCompiler.joinedTerm
  split
  · exact (arg _ 0).bind fun _ => done _
  · exact done _

end

end LowerM.Triple

/-- Keeping a property of the store lasts through steps in a row. -/
theorem LowerM.keeping_closed (P : Store → Prop) :
    LowerM.Closed fun {_} step => ∀ ctx, step.Triple ctx P fun _ => P where
  pure a _ := .done a
  throw e _ := .throw e
  bind h hnext ctx := (h ctx).bind fun a => hnext a ctx
  read _ := fun st a st' hP hgives => by
    cases hgives
    exact hP
  store _ := fun st a st' hP hgives => by
    cases hgives
    exact hP
  withVariables h _ := .withVariables (h _)

/-! ## Lasting properties -/

/-- Properties of the queries that are there, which last while the store grows. -/
class Store.Lasting (F : Store → Prop) : Prop where
  keeps : ∀ {s s' : Store}, s.KeepsBelow s.queries.size s' → F s → F s'

instance (φ : Prop) : Store.Lasting fun _ => φ := ⟨fun _ => id⟩

instance {F G : Store → Prop} [Store.Lasting F] [Store.Lasting G] :
    Store.Lasting fun s => F s ∧ G s :=
  ⟨fun h hs => ⟨Store.Lasting.keeps h hs.1, Store.Lasting.keeps h hs.2⟩⟩

instance (n : Nat) : Store.Lasting fun s => n < s.queries.size :=
  ⟨fun h hs => Nat.lt_of_lt_of_le hs h.queries⟩

/-- A lasting property may be carried past a step that keeps the queries that are there. -/
theorem LowerM.Triple.frame {α : Type} {ctx : LowerContext} {P F : Store → Prop}
    {Q : α → Store → Prop} {A : Nat → α → Prop} {step : LowerM α} [Store.Lasting F]
    (hkeeps : ∀ n, step.Keeps n (A n)) (h : step.Triple ctx P Q) :
    step.Triple ctx (fun s => P s ∧ F s) fun a s => Q a s ∧ F s :=
  fun st a st' hP hgives => ⟨h st a st' hP.1 hgives,
    Store.Lasting.keeps (hkeeps _ ctx st a st' (Nat.le_refl _) hgives).1 hP.2⟩

/-- The result of a step that keeps the queries that are there is above all of them. -/
theorem LowerM.Triple.above {α : Type} {ctx : LowerContext} {P : Store → Prop}
    {Q : α → Store → Prop} {A : Nat → α → Prop} {step : LowerM α} {n : Nat}
    (hkeeps : ∀ n, step.Keeps n (A n)) (hsize : ∀ s, P s → n ≤ s.queries.size)
    (h : step.Triple ctx P Q) : step.Triple ctx P fun a s => Q a s ∧ A n a :=
  fun st a st' hP hgives => ⟨h st a st' hP hgives,
    (hkeeps n ctx st a st' (hsize _ hP) hgives).2⟩

/-- The queries that were there in an earlier store are still kept. -/
theorem LowerM.Triple.since {α : Type} {ctx : LowerContext} {A : α → Prop}
    {step : LowerM α} (s₀ : Store) (hkeeps : step.Keeps s₀.queries.size A) :
    step.Triple ctx (s₀.KeepsBelow s₀.queries.size) fun a s =>
      s₀.KeepsBelow s₀.queries.size s ∧ A a :=
  fun st a st' hs hgives =>
    have hstep := hkeeps ctx st a st' hs.queries hgives
    ⟨hs.trans hstep.1, hstep.2⟩

end SqlCompiler
