import SqlCompiler.Proofs.Columns.Agreement
import SqlCompiler.Proofs.Lowering.PervasiveRules
import SqlCompiler.Proofs.Lowering.Steps
import SqlCompiler.Proofs.Normalization.NormalForms

/-!
# Compiling does not depend on earlier terms

The order in which rules are asked depends on all terms that were compiled before.  No two of the
standard rules accept one term, so the order has no say in which rule lowers it, and two runs from
states that differ in their rankings only have the same result.

Main results:

- Theorem `standardRules_exclusive`: no two of the standard rules accept a term.
- Definition `LowerM.Rankless`: a step that does the same under all rankings.
- Definition `Ranking.Reached`: the rankings that compiling terms leads to.
- Theorem `Compiler.compile_rankless`: a compiled term does not depend on the terms before it.
-/

namespace SqlCompiler

/-! ## The rule that accepts a term -/

/-- No two of the standard rules accept a term: one may look at how many arguments a call has, and
the fallback accepts constants only. -/
theorem standardRules_exclusive (t : Term) : (standardRules.filter (·.accepts t)).length ≤ 1 := by
  cases t with
  | constant value =>
    have hfilter : standardRules.filter (·.accepts (.constant value)) =
        [valuesRule].filter (·.accepts (.constant value)) := rfl
    rw [hfilter]
    exact List.length_filter_le _ _
  | table name => exact Nat.le_refl 1
  | call operator args =>
    cases operator with
    | elementAt => exact Nat.zero_le 1
    | into =>
      have hfilter : standardRules.filter (·.accepts (.call .into args)) =
          [insertRule, multiInsertRule].filter (·.accepts (.call .into args)) := rfl
      have hinsert : insertRule.accepts (.call .into args) = (args.length == 1) := rfl
      have hmulti : multiInsertRule.accepts (.call .into args) = (args.length == 3) := rfl
      rw [hfilter, List.filter_cons, hinsert]
      split
      · next h => simp [hmulti, beq_iff_eq.mp h]
      · exact List.length_filter_le _ _
    | _ => exact Nat.le_refl 1
  | _ => exact Nat.zero_le 1

namespace Ranking

variable {rules : List Rule} {r r' : Ranking} {t : Term}

/-- The rule that is found does not depend on the ranking if there is no choice. -/
theorem find?_rule_eq (hexclusive : (rules.filter (·.accepts t)).length ≤ 1) (h : r.Covers rules)
    (h' : r'.Covers rules) :
    (r.find? rules t).map (·.2) = (r'.find? rules t).map (·.2) := by
  cases hfilter : rules.filter (·.accepts t) with
  | nil =>
    have hnone : ∀ r : Ranking, r.find? rules t = none := by
      intro r
      cases hfind : r.find? rules t with
      | none => rfl
      | some found =>
        have hmem : found.2 ∈ rules.filter (·.accepts t) :=
          List.mem_filter.mpr (mem_of_find? hfind)
        rw [hfilter] at hmem
        cases hmem
    rw [hnone r, hnone r']
  | cons rule rest =>
    obtain rfl : rest = [] := by
      rw [hfilter, List.length_cons] at hexclusive
      exact List.length_eq_zero_iff.mp (by omega)
    obtain ⟨position, hfind⟩ := find?_of_unique h hfilter
    obtain ⟨position', hfind'⟩ := find?_of_unique h' hfilter
    rw [hfind, hfind']
    rfl

end Ranking

/-! ## Steps that do the same under all rankings -/

/-- What a step gives in a context and a state, and the state it leaves. -/
def LowerM.runOn {α : Type} (step : LowerM α) (ctx : LowerContext) (st : LowerState) :
    Except SqlError α × LowerState := (step.run ctx).run.run st

/-- Lowering a term by the rule that was found, at the position at which it was found. -/
def lowerBy (l : Lowerer) (t : Term) (parent : Option QueryRef) :
    Option (Nat × Rule) → LowerM Lowered
  | none => throw (.sequenceNotConvertible t.text)
  | some (position, rule) => do
    let lowered ← rule.lower l t parent
    modify fun s => { s with ranking := s.ranking.recordUse position }
    return lowered

theorem LowerM.runOn_bind {α β : Type} (step : LowerM α) (next : α → LowerM β)
    (ctx : LowerContext) (st : LowerState) :
    (step >>= next).runOn ctx st =
      match step.runOn ctx st with
      | (.ok a, st') => (next a).runOn ctx st'
      | (.error e, st') => (.error e, st') := by
  change (ExceptT.bindCont (fun a => (next a).run ctx) (step.runOn ctx st).1)
    (step.runOn ctx st).2 = _
  cases step.runOn ctx st with
  | mk result st' => cases result <;> rfl

theorem LowerM.runOn_dispatch {rules : List Rule} {ctx : LowerContext} {st : LowerState}
    (l : Lowerer) (t : Term) (parent : Option QueryRef) :
    (dispatch rules l t parent).runOn ctx st =
      (lowerBy l t parent (st.ranking.find? rules t)).runOn ctx st := rfl

/-- A step that does the same under all rankings that cover the rules.  It may count uses. -/
def LowerM.Rankless (rules : List Rule) {α : Type} (step : LowerM α) : Prop :=
  ∀ ctx st r, st.ranking.Covers rules → r.Covers rules →
    ∃ result st' r', step.runOn ctx st = (result, st') ∧
      step.runOn ctx { st with ranking := r } = (result, { st' with ranking := r' }) ∧
      st'.ranking.Covers rules ∧ r'.Covers rules

namespace LowerM.Rankless

variable {rules : List Rule} {α β : Type}

/-- A step that neither looks at the ranking nor changes it. -/
theorem modifyGet {f : LowerState → α × LowerState} (hf : LowerState.Unranked f) :
    LowerM.Rankless rules (MonadStateOf.modifyGet f : LowerM α) := by
  intro ctx st r hst hr
  refine ⟨.ok (f st).1, (f st).2, r, rfl, ?_, (hf.ranking_eq st).symm ▸ hst, hr⟩
  have hrun : (MonadStateOf.modifyGet f : LowerM α).runOn ctx { st with ranking := r } =
      (.ok (f { st with ranking := r }).1, (f { st with ranking := r }).2) := rfl
  rw [hrun, hf]

theorem bind {step : LowerM α} {next : α → LowerM β} (hstep : step.Rankless rules)
    (hnext : ∀ ctx st a st', step.Gives ctx st a st' → (next a).Rankless rules) :
    (step >>= next).Rankless rules := by
  intro ctx st r hst hr
  obtain ⟨result, st', r', hrun, hrun', hst', hr'⟩ := hstep ctx st r hst hr
  cases result with
  | error e => exact ⟨.error e, st', r', by rw [runOn_bind, hrun], by rw [runOn_bind, hrun'], hst', hr'⟩
  | ok a =>
    obtain ⟨result, st'', r'', hnext, hnext', hst'', hr''⟩ := hnext ctx st a st' hrun ctx st' r' hst' hr'
    refine ⟨result, st'', r'', ?_, ?_, hst'', hr''⟩
    · rw [runOn_bind, hrun]
      exact hnext
    · rw [runOn_bind, hrun']
      exact hnext'

/-- Everything but the choice of a rule does the same under all rankings. -/
theorem pervasive (rules : List Rule) :
    LowerM.Pervasive fun {_} step => step.Rankless rules where
  pure a := modifyGet (f := fun st => (a, st)) fun _ _ => rfl
  throw e _ st r hst hr := ⟨.error e, st, r, rfl, rfl, hst, hr⟩
  bind := bind
  read ctx st r hst hr := ⟨.ok ctx, st, r, rfl, rfl, hst, hr⟩
  store := modifyGet (f := fun st => (st.store, st)) fun _ _ => rfl
  withVariables h _ st r hst hr := h _ st r hst hr
  annotate hf _ := modifyGet hf
  allocate _ _ := modifyGet fun _ _ => rfl

/-- So does choosing a rule, where no two accept a term: the same rule is found, if at another
position. -/
theorem dispatch (hexclusive : ∀ t, (rules.filter (·.accepts t)).length ≤ 1) {l : Lowerer}
    (hrules : ∀ rule ∈ rules, ∀ t parent, (rule.lower l t parent).Rankless rules) (t : Term)
    (parent : Option QueryRef) : (SqlCompiler.dispatch rules l t parent).Rankless rules := by
  intro ctx st r hst hr
  rw [runOn_dispatch, runOn_dispatch]
  have hsame := Ranking.find?_rule_eq (hexclusive t) hst hr
  cases hfind : st.ranking.find? rules t with
  | none =>
    rw [hfind] at hsame
    rw [Option.map_eq_none_iff.mp hsame.symm]
    exact ⟨_, st, r, rfl, rfl, hst, hr⟩
  | some found =>
    obtain ⟨position, rule⟩ := found
    rw [hfind] at hsame
    obtain ⟨⟨position', rule'⟩, hfind', rfl⟩ := Option.map_eq_some_iff.mp hsame.symm
    rw [hfind']
    have hmem := (Ranking.mem_of_find? hfind').1
    obtain ⟨result, st', r', hrun, hrun', hst', hr'⟩ := hrules _ hmem t parent ctx st r hst hr
    rw [lowerBy, lowerBy, runOn_bind, runOn_bind, hrun, hrun']
    cases result with
    | error e => exact ⟨.error e, st', r', rfl, rfl, hst', hr'⟩
    | ok lowered =>
      exact ⟨.ok lowered, { st' with ranking := st'.ranking.recordUse position },
        r'.recordUse position', rfl, rfl, Ranking.covers_recordUse hst' position,
        Ranking.covers_recordUse hr' position'⟩

end LowerM.Rankless

/-- Lowering a term by the standard rules and closing it does the same under all rankings. -/
theorem lowerStatement_rankless (t : Term) :
    LowerM.Rankless standardRules (do (← lowerSequence standardRules t).toStatement) :=
  lowerStatement_pervasive (LowerM.Rankless.pervasive standardRules)
    (fun _ => LowerM.Rankless.dispatch standardRules_exclusive) t

/-! ## Histories -/

/-- The rankings that compiling terms leads to, for any schemas, providers and options, whether or
not a term is refused. -/
inductive Ranking.Reached (rules : List Rule) : Ranking → Prop where
  | start : Reached rules (.ofRules rules)
  | compile {r : Ranking} (h : Reached rules r) (c : Compiler) (hrules : c.rules = rules)
      (t : Term) : Reached rules (c.compile r t).2

namespace Compiler

/-- Two rankings that cover the standard rules have terms compiled alike, and lead to rankings that
cover them. -/
theorem compile_covers (c : Compiler) (hrules : c.rules = standardRules) {r r' : Ranking}
    (h : r.Covers standardRules) (h' : r'.Covers standardRules) (t : Term) :
    (c.compile r t).1 = (c.compile r' t).1 ∧ (c.compile r t).2.Covers standardRules := by
  obtain ⟨result, st, ranking, hrun, hrun', hst, -⟩ := lowerStatement_rankless t.normalize
    { schema := c.schema, provider := c.provider } { ranking := r } r' h h'
  have hcompile : c.runLowering r (do (← lowerSequence c.rules t.normalize).toStatement) =
      (result, st) := hrules ▸ hrun
  have hcompile' : c.runLowering r' (do (← lowerSequence c.rules t.normalize).toStatement) =
      (result, { st with ranking }) := hrules ▸ hrun'
  unfold compile
  dsimp only
  rw [hcompile, hcompile']
  exact ⟨rfl, Ranking.covers_reorder hst⟩

end Compiler

/-- Compiling leads to rankings that cover the rules. -/
theorem Ranking.Reached.covers {r : Ranking} (h : r.Reached standardRules) :
    r.Covers standardRules := by
  induction h with
  | start => exact covers_ofRules standardRules
  | compile _ c hrules t ih => exact (c.compile_covers hrules ih ih t).2

/-- A term is compiled to the same commands and result shape, or refused for the same reason,
whatever was compiled before it. -/
theorem Compiler.compile_rankless (c : Compiler) (hrules : c.rules = standardRules) {r : Ranking}
    (hr : r.Reached standardRules) (t : Term) :
    (c.compile r t).1 = (c.compile c.initialRanking t).1 := by
  have hinitial : c.initialRanking.Covers standardRules := by
    rw [initialRanking, hrules]
    exact Ranking.covers_ofRules standardRules
  exact (c.compile_covers hrules hr.covers hinitial t).1

/-- At first the standard rules are asked as they are given. -/
theorem Ranking.ofRules_standardRules : Ranking.ofRules standardRules = .asGiven standardRules := by
  unfold ofRules asGiven
  dsimp only
  rw [List.mergeSort_of_pairwise]
  decide

theorem Term.normalize_ages : Term.ages.normalize = .ages :=
  NormalizesTo.normalize ⟨10, 0, rfl⟩

/-- The ages are compiled as before after a term that was compiled and one that was refused. -/
theorem Compiler.compile_rankless_agesAgain :
    let c := Compiler.ofPeople
    let r := (c.compile (c.compile c.initialRanking .ages).2 (.table "Nobody")).2
    r.Reached standardRules ∧ (c.compile r .ages).1 = (c.compile c.initialRanking .ages).1 ∧
      (c.compile c.initialRanking .ages).1.toOption.map (·.rendered.commands.map (·.sql)) =
        some ["SELECT\n\tt1.Age as A\nFROM\n\tPerson t1"] := by
  intro c r
  have hreached : r.Reached standardRules := (Ranking.Reached.start.compile c rfl _).compile c rfl _
  refine ⟨hreached, c.compile_rankless rfl hreached .ages, ?_⟩
  have hinitial : c.initialRanking = .asGiven standardRules := Ranking.ofRules_standardRules
  rw [hinitial]
  unfold Compiler.compile
  dsimp only
  rw [Term.normalize_ages]
  decide +kernel

end SqlCompiler
