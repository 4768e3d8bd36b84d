import Mathlib.Data.List.Forall2
import SqlCompiler.Lowering.Standard

/-!
# Steps of lowering

What a step of lowering gives, and how the results of steps compose.  However the rules are ranked, a
term that one rule only accepts is lowered by that rule.

Main results:

- Definition `LowerM.Gives`: a step has a result and leaves a state.
- Its closure lemmas, one for each way to build a step.
- Definition `Ranking.Covers`: every rule has a position.
- Theorems `Ranking.covers_ofRules`, `Ranking.covers_recordUse`, `Ranking.covers_reorder`: the
  rankings a compiler comes to cover its rules.
- Theorem `LowerM.Gives.dispatch`: lowering by the only rule that accepts.
- Definition `LowerM.Fails`: a step ends with an error.
-/

namespace SqlCompiler

/-- In a context and a state, a step has a result and leaves a state. -/
def LowerM.Gives {α : Type} (step : LowerM α) (ctx : LowerContext) (st : LowerState) (a : α)
    (st' : LowerState) : Prop :=
  (step.run ctx).run.run st = (.ok a, st')

namespace LowerM.Gives

variable {α β : Type} {ctx : LowerContext} {st st' st'' : LowerState} {a : α} {b : β}

theorem pure (a : α) : Gives (Pure.pure a) ctx st a st := rfl

theorem bind {step : LowerM α} {next : α → LowerM β} (h : step.Gives ctx st a st')
    (hnext : (next a).Gives ctx st' b st'') : (step >>= next).Gives ctx st b st'' := by
  change (ExceptT.bindCont (fun a => (next a).run ctx) ((step.run ctx).run.run st).1)
    ((step.run ctx).run.run st).2 = _
  rw [show ((step.run ctx).run.run st) = (.ok a, st') from h]
  exact hnext

/-- A result has only one way to come about. -/
theorem unique {step : LowerM α} {a' : α} (h : step.Gives ctx st a st')
    (h' : step.Gives ctx st a' st'') : a = a' ∧ st' = st'' := by
  unfold Gives at h h'
  rw [h] at h'
  cases h'
  exact ⟨rfl, rfl⟩

/-- What a step after another one gives comes from a result of the first one. -/
theorem of_bind {step : LowerM α} {next : α → LowerM β}
    (h : (step >>= next).Gives ctx st b st'') :
    ∃ a st', step.Gives ctx st a st' ∧ (next a).Gives ctx st' b st'' := by
  cases hstep : (step.run ctx).run.run st with
  | mk result st' =>
    have h : (ExceptT.bindCont (fun a => (next a).run ctx) ((step.run ctx).run.run st).1)
      ((step.run ctx).run.run st).2 = (.ok b, st'') := h
    rw [hstep] at h
    cases result with
    | error e => cases h
    | ok a => exact ⟨a, st', hstep, h⟩

theorem read : Gives MonadReader.read ctx st ctx st := rfl

theorem get : Gives MonadState.get ctx st st st := rfl

theorem modify (f : LowerState → LowerState) :
    Gives (modify f) ctx st PUnit.unit (f st) := rfl

theorem store : Gives LowerM.store ctx st st.store st := rfl

theorem modifyQuery (q : QueryRef) (f : Query → Query) :
    Gives (LowerM.modifyQuery q f) ctx st () { st with store := st.store.modifyQuery q f } := rfl

theorem allocate (f : Store → α × Store) :
    Gives (LowerM.allocate f) ctx st (f st.store).1 { st with store := (f st.store).2 } := rfl

theorem allocate_eq {f : Store → α × Store} {s' : Store} (h : f st.store = (a, s')) :
    Gives (LowerM.allocate f) ctx st a { st with store := s' } := by
  have hgives : Gives (LowerM.allocate f) ctx st _ _ := allocate f
  rwa [h] at hgives

theorem ofExcept {r : Except SqlError α} (h : r = .ok a) :
    Gives (LowerM.ofExcept r) ctx st a st := by
  rw [h]
  rfl

theorem ofStoreM {step : StoreM α} {s' : Store} (h : step.runOn st.store = (.ok a, s')) :
    Gives (LowerM.ofStoreM step) ctx st a { st with store := s' } := by
  refine (allocate step.runOn).bind ?_
  rw [h]
  exact pure a

theorem withVariables {bindings : List (String × Projection)} {step : LowerM α}
    (h : step.Gives { ctx with scope := bindings.reverse ++ ctx.scope } st a st') :
    Gives (LowerM.withVariables bindings step) ctx st a st' := h

theorem lookUp {name : String} {p : Projection} (h : ctx.scope.lookup name = some p) :
    Gives (LowerM.lookUp name) ctx st p st := by
  refine read.bind ?_
  rw [h]
  exact pure p

/-- Steps over a list that leave the state alone. -/
theorem mapM {γ : Type} {f : γ → LowerM β} :
    ∀ {items : List γ} {results : List β},
      List.Forall₂ (fun item b => (f item).Gives ctx st b st) items results →
        Gives (items.mapM f) ctx st results st
  | [], [], _ => pure []
  | item :: rest, b :: results, h => by
    rw [List.mapM_cons]
    cases h with
    | cons hitem hrest => exact hitem.bind ((mapM hrest).bind (pure _))

end LowerM.Gives

/-! ## The choice of a rule -/

namespace Ranking

variable {rules : List Rule} {r : Ranking}

/-- Every rule is asked at some position. -/
def Covers (rules : List Rule) (r : Ranking) : Prop :=
  ∀ i < rules.length, i ∈ r.uses.map (·.order)

theorem covers_ofRules (rules : List Rule) : (Ranking.ofRules rules).Covers rules := by
  intro i hi
  refine ((List.mergeSort_perm _ precedes).map (·.order)).mem_iff.mpr ?_
  rw [List.map_map]
  exact List.mem_map.mpr ⟨(rules[i], i), List.mem_zipIdx_iff_getElem?.mpr (by simp [hi]), rfl⟩

theorem covers_reorder (h : r.Covers rules) : r.reorder.Covers rules := by
  unfold reorder
  split
  · intro i hi
    exact ((List.mergeSort_perm r.uses precedes).map (·.order)).mem_iff.mpr (h i hi)
  · exact h

/-- A use changes nothing but a count. -/
theorem map_recordUse {β : Type} {f : RuleUse → β} (hf : ∀ use count, f { use with count } = f use)
    (r : Ranking) (position : Nat) : (r.recordUse position).uses.map f = r.uses.map f := by
  refine List.ext_getElem? fun i => ?_
  simp only [recordUse, List.getElem?_map, List.getElem?_modify]
  cases r.uses[i]? with
  | none => rfl
  | some use => by_cases hi : position = i <;> simp [hi, hf]

theorem covers_recordUse (h : r.Covers rules) (position : Nat) :
    (r.recordUse position).Covers rules := by
  intro i hi
  rw [map_recordUse fun _ _ => rfl]
  exact h i hi

/-- The only rule that accepts a term is found. -/
theorem find?_of_unique (h : r.Covers rules) {t : Term} {rule : Rule}
    (honly : rules.filter (·.accepts t) = [rule]) :
    ∃ position, r.find? rules t = some (position, rule) := by
  have hunique : ∀ other ∈ rules, other.accepts t = true → other = rule := by
    intro other hother haccepts
    have hfilter : other ∈ rules.filter (·.accepts t) := List.mem_filter.mpr ⟨hother, haccepts⟩
    rw [honly] at hfilter
    exact List.mem_singleton.mp hfilter
  have hfilter : rule ∈ rules.filter (·.accepts t) := by
    rw [honly]
    exact List.mem_singleton_self rule
  obtain ⟨hmem, haccepts⟩ := List.mem_filter.mp hfilter
  obtain ⟨i, hi, hrule⟩ := List.mem_iff_getElem.mp hmem
  obtain ⟨use, huse, horder⟩ := List.mem_map.mp (h i hi)
  obtain ⟨position, hposition, hget⟩ := List.mem_iff_getElem.mp huse
  have hasked : r.ruleAt? rules position = some rule := by
    simp [ruleAt?, List.getElem?_eq_getElem hposition, hget, horder,
      List.getElem?_eq_getElem hi, hrule]
  have hsome : (r.find? rules t).isSome = true := by
    refine List.findSome?_isSome_iff.mpr ⟨position, List.mem_range.mpr hposition, ?_⟩
    simp [hasked, haccepts]
  obtain ⟨⟨found, other⟩, hfound⟩ := Option.isSome_iff_exists.mp hsome
  obtain ⟨position', -, hother⟩ := List.exists_of_findSome?_eq_some hfound
  cases hasked' : r.ruleAt? rules position' with
  | none => simp [hasked'] at hother
  | some asked =>
    obtain ⟨use', -, hget'⟩ := Option.bind_eq_some_iff.mp hasked'
    cases haccepts' : asked.accepts t with
    | false => simp [hasked', haccepts'] at hother
    | true =>
      have hrule' := hunique asked (List.mem_of_getElem? hget') haccepts'
      simp only [hasked', haccepts', if_true, Option.some.injEq, Prod.mk.injEq] at hother
      rw [← hother.1, ← hother.2, hrule'] at hfound
      exact ⟨position', hfound⟩

end Ranking

/-- A term is lowered by the only rule that accepts it, and the use is counted. -/
theorem LowerM.Gives.dispatch {rules : List Rule} {l : Lowerer} {t : Term}
    {parent : Option QueryRef} {ctx : LowerContext} {st st' : LowerState} {lowered : Lowered}
    {rule : Rule} (hlower : (rule.lower l t parent).Gives ctx st lowered st')
    (honly : rules.filter (·.accepts t) = [rule]) (hcovers : st.ranking.Covers rules)
    (hcovers' : st'.ranking.Covers rules) :
    ∃ ranking, (SqlCompiler.dispatch rules l t parent).Gives ctx st lowered
        { st' with ranking } ∧ ranking.Covers rules := by
  obtain ⟨position, hfind⟩ := Ranking.find?_of_unique hcovers honly
  refine ⟨st'.ranking.recordUse position, LowerM.Gives.get.bind ?_,
    Ranking.covers_recordUse hcovers' position⟩
  rw [hfind]
  exact hlower.bind ((modify _).bind (pure lowered))

/-! ## Failures -/

/-- In a context and a state, a step ends with an error. -/
def LowerM.Fails {α : Type} (step : LowerM α) (ctx : LowerContext) (st : LowerState) : Prop :=
  ∃ e st', (step.run ctx).run.run st = (.error e, st')

theorem LowerM.gives_or_fails {α : Type} (step : LowerM α) (ctx : LowerContext) (st : LowerState) :
    (∃ a st', step.Gives ctx st a st') ∨ step.Fails ctx st := by
  cases hrun : (step.run ctx).run.run st with
  | mk result st' =>
    cases result with
    | ok a => exact .inl ⟨a, st', hrun⟩
    | error e => exact .inr ⟨e, st', hrun⟩

namespace LowerM.Fails

variable {α β : Type} {ctx : LowerContext} {st st' : LowerState} {step : LowerM α}
  {next : α → LowerM β} {a : α}

theorem throw (e : SqlError) : LowerM.Fails (MonadExcept.throw e : LowerM α) ctx st := ⟨e, st, rfl⟩

/-- Nothing follows a step that fails. -/
theorem bind (h : step.Fails ctx st) : (step >>= next).Fails ctx st := by
  obtain ⟨e, st', hrun⟩ := h
  refine ⟨e, st', ?_⟩
  change (ExceptT.bindCont (fun a => (next a).run ctx) ((step.run ctx).run.run st).1)
    ((step.run ctx).run.run st).2 = _
  rw [hrun]
  rfl

theorem after (h : step.Gives ctx st a st') (hnext : (next a).Fails ctx st') :
    (step >>= next).Fails ctx st := by
  obtain ⟨e, st'', hrun⟩ := hnext
  refine ⟨e, st'', ?_⟩
  change (ExceptT.bindCont (fun a => (next a).run ctx) ((step.run ctx).run.run st).1)
    ((step.run ctx).run.run st).2 = _
  rw [show ((step.run ctx).run.run st) = (.ok a, st') from h]
  exact hrun

theorem withVariables {bindings : List (String × Projection)}
    (h : step.Fails { ctx with scope := bindings.reverse ++ ctx.scope } st) :
    LowerM.Fails (LowerM.withVariables bindings step) ctx st := h

/-- A term that one rule only accepts fails with that rule. -/
theorem dispatch {rules : List Rule} {l : Lowerer} {t : Term} {parent : Option QueryRef}
    {rule : Rule} (h : (rule.lower l t parent).Fails ctx st)
    (honly : rules.filter (·.accepts t) = [rule]) (hcovers : st.ranking.Covers rules) :
    LowerM.Fails (SqlCompiler.dispatch rules l t parent) ctx st := by
  obtain ⟨position, hfind⟩ := Ranking.find?_of_unique hcovers honly
  refine after LowerM.Gives.get ?_
  rw [hfind]
  exact h.bind

end LowerM.Fails

end SqlCompiler
