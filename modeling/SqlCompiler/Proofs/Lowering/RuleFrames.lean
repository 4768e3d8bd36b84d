import SqlCompiler.Proofs.Lowering.PervasiveRules

/-!
# What the rules leave alone

Each rule lowers the sequence it is applied to by way of a lowerer, and changes queries that are
new.  If the lowerer keeps the queries that are there, so does the rule.

Main results:

- Definition `Lowerer.Keeps`: a lowerer keeps the queries below a bound.
- Theorem `LowerM.keeps_bounded`: keeping them lasts through all steps but the choice of a rule.
- Theorem `standardRules_keep`: the standard rules do if their lowerer does.
- Theorem `lowererWithin_keeps`: lowering by the standard rules keeps the queries that are there,
  and the query of a lowered sequence is a new one.
-/

namespace SqlCompiler

/-- A lowerer keeps the queries below a bound, and gives sequences whose queries are above it. -/
structure Lowerer.Keeps (n : Nat) (l : Lowerer) : Prop where
  sequence : ∀ t parent, (l.sequence t parent).Keeps n (Lowered.Above n)
  projection : ∀ t q, (l.projection t q).Frames n
  scalar : ∀ t q, (l.scalar t q).Frames n
  condition : ∀ t q, (l.condition t q).Frames n

/-- A rule keeps the queries below a bound if its lowerer does. -/
def Rule.Keeps (n : Nat) (rule : Rule) : Prop :=
  ∀ l : Lowerer, l.Keeps n → ∀ t parent, (rule.lower l t parent).Keeps n (Lowered.Above n)

/-- Keeping the queries below a bound lasts through everything but the choice of a rule. -/
theorem LowerM.keeps_bounded (n : Nat) : LowerM.Bounded n fun {_} step P => step.Keeps n P where
  pure hP _ st _ _ _ hgives := by
    cases hgives
    exact ⟨.refl n st.store, hP⟩
  throw _ _ _ _ _ _ hgives := by cases hgives
  bind hstep hnext ctx st b st'' hn hgives := by
    obtain ⟨a, st', hfirst, hrest⟩ := hgives.of_bind
    obtain ⟨hkeeps, ha⟩ := hstep ctx st a st' hn hfirst
    obtain ⟨hkeeps', hb⟩ := hnext a ha ctx st' b st'' (Nat.le_trans hn hkeeps.queries) hrest
    exact ⟨hkeeps.trans hkeeps', hb⟩
  read _ st _ _ _ hgives := by
    cases hgives
    exact ⟨.refl n st.store, trivial⟩
  store _ st _ _ _ hgives := by
    cases hgives
    exact ⟨.refl n st.store, trivial⟩
  withVariables hstep _ st a st' hn hgives := hstep _ st a st' hn hgives
  annotate _ hstore _ st _ _ _ hgives := by
    cases hgives
    exact ⟨hstore st ▸ .refl n st.store, trivial⟩
  allocate hf hP _ st _ _ hn hgives := by
    cases hgives
    exact ⟨(hf st.store).keeps hn, hP st.store hn⟩

theorem LowerM.frames_closed (n : Nat) : LowerM.Closed fun {_} step => step.Frames n :=
  (keeps_bounded n).closed

variable {n : Nat} {l : Lowerer}

theorem Lowerer.Keeps.bounded (h : l.Keeps n) : l.Bounded n fun {_} step P => step.Keeps n P :=
  { LowerM.keeps_bounded n with
    sequence := h.sequence
    projection := h.projection
    scalar := h.scalar
    condition := h.condition }

theorem Lowerer.Keeps.of_bounded (h : l.Bounded n fun {_} step P => step.Keeps n P) : l.Keeps n :=
  ⟨h.sequence, h.projection, h.scalar, h.condition⟩

/-- What a value is lowered to keeps the queries below a bound if its parts do. -/
theorem Lowerer.Keeps.closed (h : l.Keeps n) : l.Closed fun {_} step => step.Frames n :=
  h.bounded.closed

/-! ## The choice of a rule -/

/-- The rule that is found for a term accepts it, and is asked at the position it is found at. -/
theorem Ranking.ruleAt?_of_find? {r : Ranking} {rules : List Rule} {t : Term} {position : Nat}
    {rule : Rule} (h : r.find? rules t = some (position, rule)) :
    r.ruleAt? rules position = some rule ∧ rule.accepts t = true := by
  obtain ⟨tried, -, htried⟩ := List.exists_of_findSome?_eq_some h
  cases hat : r.ruleAt? rules tried with
  | none => simp [hat] at htried
  | some other =>
    simp only [hat] at htried
    split at htried
    · next haccepts =>
      cases htried
      exact ⟨hat, haccepts⟩
    · cases htried

/-- The rule that a position of a ranking stands for is one of the rules. -/
theorem Ranking.mem_of_find? {r : Ranking} {rules : List Rule} {t : Term} {position : Nat}
    {rule : Rule} (h : r.find? rules t = some (position, rule)) :
    rule ∈ rules ∧ rule.accepts t = true := by
  obtain ⟨hat, haccepts⟩ := ruleAt?_of_find? h
  obtain ⟨use, -, hget⟩ := Option.bind_eq_some_iff.mp hat
  exact ⟨List.mem_of_getElem? hget, haccepts⟩

/-- What a term is lowered to, one of the rules that accept it gives. -/
theorem LowerM.Gives.of_dispatch {rules : List Rule} {t : Term} {parent : Option QueryRef}
    {ctx : LowerContext} {st st' : LowerState} {lowered : Lowered}
    (h : (SqlCompiler.dispatch rules l t parent).Gives ctx st lowered st') :
    ∃ rule ∈ rules.filter (·.accepts t), ∃ st₁,
      (rule.lower l t parent).Gives ctx st lowered st₁ ∧ st'.store = st₁.store := by
  obtain ⟨_, _, hget, h⟩ := h.of_bind
  cases hget
  cases hfind : st.ranking.find? rules t with
  | none =>
    rw [hfind] at h
    cases h
  | some found =>
    obtain ⟨position, rule⟩ := found
    rw [hfind] at h
    obtain ⟨_, st₁, hlower, h⟩ := h.of_bind
    obtain ⟨_, _, hmodify, h⟩ := h.of_bind
    cases hmodify
    cases h
    exact ⟨rule, List.mem_filter.mpr (Ranking.mem_of_find? hfind), st₁, hlower, rfl⟩

/-- Lowering by the first rule that accepts keeps the queries if every rule does. -/
theorem dispatch_keeps {rules : List Rule}
    (hrules : ∀ rule ∈ rules, ∀ t parent, (rule.lower l t parent).Keeps n (Lowered.Above n))
    (t : Term) (parent : Option QueryRef) :
    (dispatch rules l t parent).Keeps n (Lowered.Above n) := by
  intro ctx st lowered st' hn hgives
  obtain ⟨rule, hrule, st₁, hlower, hstore⟩ := hgives.of_dispatch
  rw [hstore]
  exact hrules rule (List.mem_filter.mp hrule).1 t parent ctx st lowered st₁ hn hlower

/-! ## The standard rules -/

/-- The standard rules keep the queries that are there if their lowerer does. -/
theorem standardRules_keep (n : Nat) : ∀ rule ∈ standardRules, rule.Keeps n :=
  fun rule hrule l h => standardRules_bounded rule hrule l h.bounded

/-- Lowering by rules that keep the queries that are there does so. -/
theorem lowererWithin_keeps_of {rules : List Rule} (hrules : ∀ rule ∈ rules, rule.Keeps n)
    (fuel : Nat) : (lowererWithin rules fuel).Keeps n :=
  .of_bounded (lowererWithin_bounded (LowerM.keeps_bounded n)
    (fun rule hrule l h => hrules rule hrule l (.of_bounded h)) (fun _ => dispatch_keeps) fuel)

/-- Lowering by the standard rules keeps the queries that are there. -/
theorem lowererWithin_keeps (n fuel : Nat) : (lowererWithin standardRules fuel).Keeps n :=
  lowererWithin_keeps_of (standardRules_keep n) fuel

end SqlCompiler
