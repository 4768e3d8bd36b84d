import SqlCompiler.Proofs.Lowering.History

/-!
# The uses of rules are counted

A rule is used when it lowers a term.  Terms that are lowered one inside the other are counted when
the inner one is done, before the outer one may fail.  The order of the rules does not change while
a term is compiled: the one thing that is noted is whether a rule has been used more often than the
rule just before it.  That is enough, since a count goes up by one at a time, so that the first rule
to get ahead of another one of its class gets ahead of its neighbour.

Main results:

- Definition `LowerM.Traces`: the terms that are lowered in a run of a step, by which rules.
- Theorem `LowerM.Traces.runOn_eq`, `lowerStatement_traced`: traces tell what runs do, and every run
  has one.
- Definition `Ranking.Counts`: a ranking that counts the uses of rules.
- Theorem `Ranking.Counts.recordUse`, `Ranking.Counts.reorder`, `LowerM.Traces.counts`: what a use,
  a reordering and a run preserve.
- Theorem `Ranking.Reached.upToDate`: the ranking after terms were compiled.
-/

namespace SqlCompiler

/-! ## Traces -/

/-- A rule and a term that it has lowered. -/
structure Build where
  rule : Rule
  term : Term

/-- What a step gives in a context and a state, the state it leaves, and the terms that are lowered
on the way, in the order in which that is done.  A rule that fails has lowered nothing itself. -/
inductive LowerM.Traces (rules : List Rule) : {α : Type} → LowerM α → LowerContext → LowerState →
    Except SqlError α → LowerState → List Build → Prop where
  /-- A step that has nothing to do with the ranking. -/
  | change {α : Type} {f : LowerState → α × LowerState} {ctx : LowerContext} {st : LowerState}
      (hf : LowerState.Unranked f) :
      Traces rules (MonadStateOf.modifyGet f) ctx st (.ok (f st).1) (f st).2 []
  | read {ctx : LowerContext} {st : LowerState} :
      Traces rules MonadReader.read ctx st (.ok ctx) st []
  | throw {α : Type} {ctx : LowerContext} {st : LowerState} (e : SqlError) :
      Traces rules (MonadExcept.throw e : LowerM α) ctx st (.error e) st []
  | withVariables {α : Type} {step : LowerM α} {bindings : List (String × Projection)}
      {ctx : LowerContext} {st st' : LowerState} {result : Except SqlError α} {builds : List Build}
      (h : Traces rules step { ctx with scope := bindings.reverse ++ ctx.scope } st result st'
        builds) :
      Traces rules (LowerM.withVariables bindings step) ctx st result st' builds
  | bind {α β : Type} {step : LowerM α} {next : α → LowerM β} {ctx : LowerContext}
      {st st' st'' : LowerState} {a : α} {result : Except SqlError β} {builds builds' : List Build}
      (h : Traces rules step ctx st (.ok a) st' builds)
      (hnext : Traces rules (next a) ctx st' result st'' builds') :
      Traces rules (step >>= next) ctx st result st'' (builds ++ builds')
  | stop {α β : Type} {step : LowerM α} {next : α → LowerM β} {ctx : LowerContext}
      {st st' : LowerState} {e : SqlError} {builds : List Build}
      (h : Traces rules step ctx st (.error e) st' builds) :
      Traces rules (step >>= next) ctx st (.error e) st' builds
  /-- No rule accepts the term. -/
  | unaccepted {l : Lowerer} {t : Term} {parent : Option QueryRef} {ctx : LowerContext}
      {st : LowerState} (hfind : st.ranking.find? rules t = none) :
      Traces rules (dispatch rules l t parent) ctx st (.error (.sequenceNotConvertible t.text)) st []
  /-- The first rule that accepts the term lowers it. -/
  | built {l : Lowerer} {t : Term} {parent : Option QueryRef} {ctx : LowerContext}
      {st st' : LowerState} {position : Nat} {rule : Rule} {lowered : Lowered} {builds : List Build}
      (hfind : st.ranking.find? rules t = some (position, rule))
      (h : Traces rules (rule.lower l t parent) ctx st (.ok lowered) st' builds) :
      Traces rules (dispatch rules l t parent) ctx st (.ok lowered)
        { st' with ranking := st'.ranking.recordUse position } (builds ++ [⟨rule, t⟩])
  /-- The first rule that accepts the term refuses it. -/
  | failed {l : Lowerer} {t : Term} {parent : Option QueryRef} {ctx : LowerContext}
      {st st' : LowerState} {position : Nat} {rule : Rule} {e : SqlError} {builds : List Build}
      (hfind : st.ranking.find? rules t = some (position, rule))
      (h : Traces rules (rule.lower l t parent) ctx st (.error e) st' builds) :
      Traces rules (dispatch rules l t parent) ctx st (.error e) st' builds

namespace LowerM

variable {rules : List Rule} {α β : Type} {ctx : LowerContext} {st st' : LowerState}
  {builds : List Build}

/-- A trace of a step tells what the step does. -/
theorem Traces.runOn_eq {step : LowerM α} {result : Except SqlError α}
    (h : Traces rules step ctx st result st' builds) : step.runOn ctx st = (result, st') := by
  induction h with
  | change => rfl
  | read => rfl
  | throw e => rfl
  | withVariables _ ih => exact ih
  | bind _ _ ih ihnext =>
    rw [runOn_bind, ih]
    exact ihnext
  | stop _ ih => rw [runOn_bind, ih]
  | unaccepted hfind =>
    rw [runOn_dispatch, hfind]
    rfl
  | built hfind _ ih =>
    rw [runOn_dispatch, hfind, lowerBy, runOn_bind, ih]
    rfl
  | failed hfind _ ih => rw [runOn_dispatch, hfind, lowerBy, runOn_bind, ih]

/-- A step all of whose runs have a trace. -/
def Traced (rules : List Rule) (step : LowerM α) : Prop :=
  ∀ ctx st, ∃ result st' builds, Traces rules step ctx st result st' builds

/-- Everything but the choice of a rule can be traced. -/
theorem Traced.pervasive (rules : List Rule) :
    LowerM.Pervasive fun {_} step => step.Traced rules where
  pure a _ _ := ⟨_, _, _, .change (f := fun st => (a, st)) fun _ _ => rfl⟩
  throw e _ _ := ⟨_, _, _, .throw e⟩
  bind hstep hnext ctx st := by
    obtain ⟨result, st', builds, h⟩ := hstep ctx st
    cases result with
    | error e => exact ⟨_, _, _, .stop h⟩
    | ok a =>
      obtain ⟨_, _, _, hrest⟩ := hnext ctx st a st' h.runOn_eq ctx st'
      exact ⟨_, _, _, .bind h hrest⟩
  read _ _ := ⟨_, _, _, .read⟩
  store _ _ := ⟨_, _, _, .change (f := fun st => (st.store, st)) fun _ _ => rfl⟩
  withVariables h _ _ := by
    obtain ⟨_, _, _, h⟩ := h _ _
    exact ⟨_, _, _, .withVariables h⟩
  annotate hf _ _ _ := ⟨_, _, _, .change hf⟩
  allocate _ _ _ _ := ⟨_, _, _, .change fun _ _ => rfl⟩

theorem Traced.dispatch {l : Lowerer}
    (hrules : ∀ rule ∈ rules, ∀ t parent, (rule.lower l t parent).Traced rules) (t : Term)
    (parent : Option QueryRef) : (SqlCompiler.dispatch rules l t parent).Traced rules := by
  intro ctx st
  cases hfind : st.ranking.find? rules t with
  | none => exact ⟨_, _, _, .unaccepted hfind⟩
  | some found =>
    obtain ⟨result, st', builds, h⟩ :=
      hrules found.2 (Ranking.mem_of_find? hfind).1 t parent ctx st
    cases result with
    | error e => exact ⟨_, _, _, .failed hfind h⟩
    | ok lowered => exact ⟨_, _, _, .built hfind h⟩

end LowerM

/-- Lowering a term by the standard rules and closing it can be traced. -/
theorem lowerStatement_traced (t : Term) :
    LowerM.Traced standardRules (do (← lowerSequence standardRules t).toStatement) :=
  lowerStatement_pervasive (LowerM.Traced.pervasive standardRules) (fun _ => LowerM.Traced.dispatch) t

/-! ## Counting -/

/-- A use of a rule, as if the rule had not been used. -/
def RuleUse.unused (use : RuleUse) : RuleUse := { use with count := 0 }

namespace Ranking

/-- A ranking of rules that counts what they have lowered.  Unless it is outdated, rules that lowered
more are asked first in each class. -/
structure Counts (rules : List Rule) (r : Ranking) (builds : List Build) : Prop where
  permutes : (r.uses.map RuleUse.unused).Perm (asGiven rules).uses
  fallbacksLast : r.uses.Pairwise fun a b => a.isFallback = true → b.isFallback = true
  count : ∀ use ∈ r.uses, use.count = builds.countP (·.rule.name == use.name)
  descends : r.isOutdated = false →
    r.uses.Pairwise fun a b => a.isFallback = b.isFallback → b.count ≤ a.count

variable {rules : List Rule} {r : Ranking} {builds : List Build} {position : Nat} {rule : Rule}

/-! ### One use -/

theorem getElem?_recordUse (r : Ranking) (position i : Nat) :
    (r.recordUse position).uses[i]? = r.uses[i]?.map fun use =>
      if position = i then { use with count := use.count + 1 } else use :=
  List.getElem?_modify ..

/-- A pair of uses after one more use comes from the pair before it. -/
theorem exists_getElem?_recordUse {i : Nat} {use' : RuleUse}
    (h : (r.recordUse position).uses[i]? = some use') :
    ∃ use, r.uses[i]? = some use ∧ use'.name = use.name ∧ use'.isFallback = use.isFallback ∧
      use'.count = use.count + if position = i then 1 else 0 := by
  rw [getElem?_recordUse] at h
  obtain ⟨use, huse, rfl⟩ := Option.map_eq_some_iff.mp h
  refine ⟨use, huse, ?_⟩
  split <;> simp

theorem pairwise_iff_getElem? {α : Type} {R : α → α → Prop} {items : List α} :
    items.Pairwise R ↔
      ∀ (i j : Nat) (a b : α), i < j → items[i]? = some a → items[j]? = some b → R a b := by
  rw [List.pairwise_iff_getElem]
  constructor
  · intro h i j a b hij ha hb
    obtain ⟨hi, rfl⟩ := List.getElem?_eq_some_iff.mp ha
    obtain ⟨hj, rfl⟩ := List.getElem?_eq_some_iff.mp hb
    exact h i j hi hj hij
  · intro h i j hi hj hij
    exact h i j _ _ hij (List.getElem?_eq_getElem hi) (List.getElem?_eq_getElem hj)

/-- A ranking does not become up to date by a use. -/
theorem isOutdated_of_recordUse (h : (r.recordUse position).isOutdated = false) :
    r.isOutdated = false :=
  (Bool.or_eq_false_iff.mp h).1

/-- When a rule gets ahead of the rule before it, in its class, the ranking is outdated. -/
theorem count_lt_of_recordUse {before : Nat} {previous use : RuleUse}
    (hprevious : r.uses[before]? = some previous) (huse : r.uses[before + 1]? = some use)
    (hclass : previous.isFallback = use.isFallback)
    (h : (r.recordUse (before + 1)).isOutdated = false) : use.count < previous.count := by
  have hovertakes := (Bool.or_eq_false_iff.mp h).2
  simp only [List.getElem?_modify, huse, hprevious, Option.map_eq_map, Option.map_some, if_true,
    Nat.succ_ne_self, if_false, hclass, beq_self_eq_true, Bool.true_and] at hovertakes
  have hle : ¬ use.count + 1 > previous.count := by simpa using hovertakes
  omega

namespace Counts

variable (h : r.Counts rules builds)

include h

/-- Each rule stands at one position. -/
theorem nodup_names (hnames : (rules.map (·.name)).Nodup) : (r.uses.map (·.name)).Nodup := by
  have hperm : (r.uses.map (·.name)).Perm (rules.map (·.name)) := by
    have hgiven : (asGiven rules).uses.map (·.name) = rules.map (·.name) := by
      change (rules.zipIdx.map _).map _ = _
      rw [List.map_map]
      exact (List.map_map (f := Prod.fst) (g := fun rule : Rule => rule.name)).symm.trans
        (congrArg _ (List.zipIdx_map_fst 0 rules))
    have hperm := h.permutes.map (·.name)
    rw [List.map_map, hgiven] at hperm
    exact hperm
  exact hperm.nodup_iff.mpr hnames

/-- The rule that is asked at a position is the one whose uses are counted there. -/
theorem name_eq {use : RuleUse} (huse : r.uses[position]? = some use)
    (hrule : r.ruleAt? rules position = some rule) : use.name = rule.name := by
  have hget : rules[use.order]? = some rule := by
    simpa [ruleAt?, huse] using hrule
  have hmem : use.unused ∈ (asGiven rules).uses :=
    h.permutes.mem_iff.mp (List.mem_map_of_mem (List.mem_of_getElem? huse))
  obtain ⟨⟨given, order⟩, hgiven, heq⟩ := List.mem_map.mp hmem
  have hname : given.name = use.name := congrArg RuleUse.name heq
  have horder : order = use.order := congrArg RuleUse.order heq
  rw [List.mk_mem_zipIdx_iff_getElem?, horder, hget] at hgiven
  rw [← hname, Option.some.inj hgiven]

/-- A use that leaves a ranking up to date is of a rule that was behind all rules of its class that
are asked before it. -/
theorem count_lt {i : Nat} {a b : RuleUse} (hi : i < position) (ha : r.uses[i]? = some a)
    (hb : r.uses[position]? = some b) (hclass : a.isFallback = b.isFallback)
    (hcurrent : (r.recordUse position).isOutdated = false) : b.count < a.count := by
  have hdescends := pairwise_iff_getElem?.mp (h.descends (isOutdated_of_recordUse hcurrent))
  have hclasses := pairwise_iff_getElem?.mp h.fallbacksLast
  obtain ⟨before, rfl⟩ : ∃ before, position = before + 1 := ⟨position - 1, by omega⟩
  by_cases hnext : i = before
  · subst hnext
    exact count_lt_of_recordUse ha hb hclass hcurrent
  · -- the rule just before it stands between them, and so is of the same class
    have hlt : i < before := by omega
    have hsize := (List.getElem?_eq_some_iff.mp hb).1
    obtain ⟨previous, hprevious⟩ : ∃ previous, r.uses[before]? = some previous :=
      ⟨_, List.getElem?_eq_getElem (by omega)⟩
    have hfirst := hclasses i before a previous hlt ha hprevious
    have hsecond := hclasses before (before + 1) previous b (Nat.lt_succ_self _) hprevious hb
    have hmiddle : a.isFallback = previous.isFallback := by
      cases hprev : previous.isFallback with
      | true => rw [hclass, hsecond hprev]
      | false =>
        cases hfallback : a.isFallback with
        | false => rfl
        | true => rw [hfirst hfallback] at hprev; exact hprev
    have hleft := hdescends i before a previous hlt ha hprevious hmiddle
    have hright := count_lt_of_recordUse hprevious hb (hmiddle ▸ hclass) hcurrent
    omega

/-- Uses at different positions are of rules with different names. -/
theorem name_ne (hnames : (rules.map (·.name)).Nodup) (hrule : r.ruleAt? rules position = some rule)
    {i : Nat} {use : RuleUse} (huse : r.uses[i]? = some use) (hi : position ≠ i) :
    rule.name ≠ use.name := by
  obtain ⟨asked, hasked, -⟩ := Option.bind_eq_some_iff.mp hrule
  rw [← h.name_eq hasked hrule]
  intro heq
  refine hi ((List.getElem?_inj ?_ (h.nodup_names hnames)).mp ?_)
  · rw [List.length_map]
    exact (List.getElem?_eq_some_iff.mp hasked).1
  · rw [List.getElem?_map, List.getElem?_map, hasked, huse]
    exact congrArg some heq

/-- One more use is counted, and if some rule has got ahead of another one of its class, then the
ranking is outdated. -/
theorem recordUse (hnames : (rules.map (·.name)).Nodup)
    (hrule : r.ruleAt? rules position = some rule) (t : Term) :
    (r.recordUse position).Counts rules (builds ++ [⟨rule, t⟩]) where
  permutes := by
    rw [map_recordUse fun _ _ => rfl]
    exact h.permutes
  fallbacksLast := by
    have hclasses : (r.uses.map (·.isFallback)).Pairwise fun a b => a = true → b = true :=
      List.pairwise_map.mpr h.fallbacksLast
    rw [← map_recordUse (fun _ _ => rfl) r position] at hclasses
    exact List.pairwise_map.mp hclasses
  count use' hmem := by
    obtain ⟨i, hget⟩ := List.mem_iff_getElem?.mp hmem
    obtain ⟨use, huse, hname, -, hcount⟩ := exists_getElem?_recordUse hget
    rw [hcount, hname, h.count use (List.mem_of_getElem? huse), List.countP_append]
    by_cases hi : position = i
    · subst hi
      have hsame : rule.name = use.name := (h.name_eq huse hrule).symm
      simp [hsame]
    · simp [hi, h.name_ne hnames hrule huse hi]
  descends hcurrent := by
    refine pairwise_iff_getElem?.mpr fun i j a' b' hij ha' hb' hclass => ?_
    obtain ⟨a, ha, -, haclass, hacount⟩ := exists_getElem?_recordUse ha'
    obtain ⟨b, hb, -, hbclass, hbcount⟩ := exists_getElem?_recordUse hb'
    have hsame : a.isFallback = b.isFallback := by rw [← haclass, ← hbclass, hclass]
    by_cases hj : position = j
    · subst hj
      have hahead := h.count_lt hij ha hb hsame hcurrent
      rw [hacount, hbcount, if_pos rfl]
      omega
    · have hle := pairwise_iff_getElem?.mp (h.descends (isOutdated_of_recordUse hcurrent))
        i j a b hij ha hb hsame
      rw [hacount, hbcount, if_neg hj]
      omega

end Counts

/-! ### Reordering -/

theorem precedes_trans (a b c : RuleUse) (hab : precedes a b = true) (hbc : precedes b c = true) :
    precedes a c = true := by
  unfold precedes at *
  grind

theorem precedes_total (a b : RuleUse) : (precedes a b || precedes b a) = true := by
  unfold precedes
  grind

/-- What comes first is no fallback, or all are, and it is used as often. -/
theorem of_precedes {a b : RuleUse} (h : precedes a b = true) :
    (a.isFallback = true → b.isFallback = true) ∧
      (a.isFallback = b.isFallback → b.count ≤ a.count) := by
  unfold precedes at h
  grind

/-- The uses in the order in which the rules are asked. -/
theorem pairwise_precedes (uses : List RuleUse) :
    (uses.mergeSort precedes).Pairwise fun a b => precedes a b = true :=
  List.pairwise_mergeSort precedes_trans precedes_total uses

theorem counts_ofRules (rules : List Rule) : (ofRules rules).Counts rules [] where
  permutes := by
    have hunused : ∀ use ∈ (ofRules rules).uses, use.unused = use := by
      intro use huse
      obtain ⟨given, -, rfl⟩ := List.mem_map.mp ((List.mergeSort_perm _ _).mem_iff.mp huse)
      rfl
    rw [List.map_congr_left hunused, List.map_id']
    exact List.mergeSort_perm _ _
  fallbacksLast := (pairwise_precedes _).imp fun h => (of_precedes h).1
  count use huse := by
    obtain ⟨given, -, rfl⟩ := List.mem_map.mp ((List.mergeSort_perm _ _).mem_iff.mp huse)
    rfl
  descends _ := (pairwise_precedes _).imp fun h => (of_precedes h).2

/-- Reordering keeps the counts, and brings the ranking up to date. -/
theorem Counts.reorder (h : r.Counts rules builds) : r.reorder.Counts rules builds := by
  unfold Ranking.reorder
  split
  · have hperm := List.mergeSort_perm r.uses precedes
    exact ⟨(hperm.map _).trans h.permutes, (pairwise_precedes _).imp fun h => (of_precedes h).1,
      fun use huse => h.count use (hperm.mem_iff.mp huse),
      fun _ => (pairwise_precedes _).imp fun h => (of_precedes h).2⟩
  · exact h

theorem isOutdated_reorder (r : Ranking) : r.reorder.isOutdated = false := by
  unfold reorder
  split
  · rfl
  · next h => exact Bool.eq_false_of_not_eq_true h

theorem ruleAt?_congr {r' : Ranking} (h : r'.uses.map (·.order) = r.uses.map (·.order)) :
    r'.ruleAt? rules position = r.ruleAt? rules position := by
  have hget : r'.uses[position]?.map (·.order) = r.uses[position]?.map (·.order) := by
    rw [← List.getElem?_map, h, List.getElem?_map]
  have hrule (r : Ranking) : r.ruleAt? rules position =
      (r.uses[position]?.map (·.order)).bind fun order => rules[order]? := by
    rw [Option.bind_map]
    rfl
  rw [hrule, hrule, hget]

end Ranking

/-! ## Runs -/

/-- No rule moves while a term is lowered. -/
theorem LowerM.Traces.map_order {rules : List Rule} {α : Type} {step : LowerM α}
    {ctx : LowerContext} {st st' : LowerState} {result : Except SqlError α} {builds : List Build}
    (h : Traces rules step ctx st result st' builds) :
    st'.ranking.uses.map (·.order) = st.ranking.uses.map (·.order) := by
  induction h with
  | change hf => rw [hf.ranking_eq]
  | read => rfl
  | throw => rfl
  | withVariables _ ih => exact ih
  | bind _ _ ih ihnext => exact ihnext.trans ih
  | stop _ ih => exact ih
  | unaccepted => rfl
  | built _ _ ih => exact (Ranking.map_recordUse (fun _ _ => rfl) _ _).trans ih
  | failed _ _ ih => exact ih

/-- While terms are lowered, uses go on to be counted. -/
theorem LowerM.Traces.counts {rules : List Rule} (hnames : (rules.map (·.name)).Nodup) {α : Type}
    {step : LowerM α} {ctx : LowerContext} {st st' : LowerState} {result : Except SqlError α}
    {builds before : List Build} (h : Traces rules step ctx st result st' builds)
    (hcounts : st.ranking.Counts rules before) : st'.ranking.Counts rules (before ++ builds) := by
  induction h generalizing before with
  | change hf =>
    rw [hf.ranking_eq, List.append_nil]
    exact hcounts
  | read => rwa [List.append_nil]
  | throw => rwa [List.append_nil]
  | withVariables _ ih => exact ih hcounts
  | bind _ _ ih ihnext =>
    rw [← List.append_assoc]
    exact ihnext (ih hcounts)
  | stop _ ih => exact ih hcounts
  | unaccepted => rwa [List.append_nil]
  | @built l t parent ctx st st' position rule lowered builds hfind h ih =>
    rw [← List.append_assoc]
    refine (ih hcounts).recordUse hnames ?_ t
    -- the rule is still where it was found before the parts of the term were lowered
    rw [Ranking.ruleAt?_congr h.map_order]
    exact (Ranking.ruleAt?_of_find? hfind).1
  | failed _ _ ih => exact ih hcounts

/-- The ranking that compiling terms leads to, and what the rules lowered in doing so, in terms that
were compiled and in terms that were refused. -/
inductive Ranking.Past (rules : List Rule) : Ranking → List Build → Prop where
  | start : Past rules (.ofRules rules) []
  | compile {r : Ranking} {builds builds' : List Build} (h : Past rules r builds) (c : Compiler)
      (hrules : c.rules = rules) (t : Term) {result : Except SqlError (Statement × ResultShape)}
      {st : LowerState}
      (htrace : LowerM.Traces rules (do (← lowerSequence c.rules t.normalize).toStatement)
        { schema := c.schema, provider := c.provider } { ranking := r } result st builds') :
      Past rules (c.compile r t).2 (builds ++ builds')

/-- A ranking by which the rules that lowered more terms are asked first in each class. -/
structure Ranking.UpToDate (rules : List Rule) (r : Ranking) (builds : List Build) : Prop extends
    r.Counts rules builds where
  current : r.isOutdated = false
  descending : r.uses.Pairwise fun a b => a.isFallback = b.isFallback → b.count ≤ a.count

namespace Ranking

theorem Reached.exists_past {r : Ranking} (h : r.Reached standardRules) :
    ∃ builds, r.Past standardRules builds := by
  induction h with
  | start => exact ⟨[], .start⟩
  | @compile r _ c hrules t ih =>
    obtain ⟨builds, hpast⟩ := ih
    obtain ⟨result, st, builds', htrace⟩ := lowerStatement_traced t.normalize
      { schema := c.schema, provider := c.provider } { ranking := r }
    rw [← hrules] at htrace
    exact ⟨_, hpast.compile c hrules t (by rwa [← hrules])⟩

theorem Past.isUpToDate {rules : List Rule} (hnames : (rules.map (·.name)).Nodup) {r : Ranking}
    {builds : List Build} (h : r.Past rules builds) : r.UpToDate rules builds := by
  have hcounts : r.Counts rules builds ∧ r.isOutdated = false := by
    induction h with
    | start => exact ⟨counts_ofRules rules, rfl⟩
    | compile _ c hrules t htrace ih =>
      have hrun : (c.compile _ t).2 = _ := congrArg (·.2.ranking.reorder) htrace.runOn_eq
      rw [hrun]
      exact ⟨(htrace.counts hnames ih.1).reorder, isOutdated_reorder _⟩
  exact ⟨hcounts.1, hcounts.2, hcounts.1.descends hcounts.2⟩

/-- After any terms have been compiled or refused, the standard rules are asked in an order that is
up to date: each of them has one position, fallbacks come last, in each class rules that lowered more
terms are asked first, and the counts are those of the terms that the rules have lowered. -/
theorem Reached.upToDate {r : Ranking} (h : r.Reached standardRules) :
    (∃ builds, r.Past standardRules builds) ∧
      ∀ builds, r.Past standardRules builds → r.UpToDate standardRules builds :=
  ⟨h.exists_past, fun _ hpast => hpast.isUpToDate (by decide)⟩

/-- People have no size, so that the rule for selecting refuses the term, after the rule for tables
has lowered a part of it. -/
theorem upToDate_sizes :
    let c := Compiler.ofPeople
    let sizes := (Term.table "Person").select (.fn "p" (.record [("A", .member (.bound "p") "Size")]))
    let r := (c.compile c.initialRanking sizes).2
    r.Reached standardRules ∧
      ((∃ builds, r.Past standardRules builds) ∧
        ∀ builds, r.Past standardRules builds → r.UpToDate standardRules builds) ∧
      r = (asGiven standardRules).recordUse 0 := by
  intro c sizes r
  have hreached : r.Reached standardRules := Reached.start.compile c rfl sizes
  refine ⟨hreached, hreached.upToDate, ?_⟩
  have hinitial : c.initialRanking = .asGiven standardRules := ofRules_standardRules
  have hsizes : sizes.normalize = sizes := Term.NormalizesTo.normalize ⟨10, 0, rfl⟩
  change (c.compile c.initialRanking sizes).2 = _
  rw [hinitial]
  unfold Compiler.compile
  dsimp only
  rw [hsizes]
  decide +kernel

end Ranking

end SqlCompiler
