import SqlCompiler.Proofs.Groups.Counts
import SqlCompiler.Proofs.Joins.Lowering
import SqlCompiler.Proofs.Modifications.Settings

/-!
# Chains whose rows are modified

An update or a deletion is about the rows of a chain of conditions, orders, limits and offsets on a
table.  Such a chain is lowered to a query that reads the table itself, with the conditions as its
`WHERE` clause, or to one that reads another query, and then it has no table to be modified.  What
is lowered to the former are the chains whose operators are all about the rows of the table: no
condition and no new order comes after a limit or an offset, and neither of these after a limit.

Main results:

- Definition `RowChain`, with its term, its conditions and its rows.
- Theorem `RowChain.run_perm`, `RowChain.length_run`: which rows a chain has, and how many.
- Definition `RowChain.IsLowered`: the chain is lowered to a query that reads the table, or another
  query.
- Theorem `RowChain.lowers`: every chain is lowered so.
- Definition `Modification`, with its term and its limit.
- Theorem `Modification.lowers`: a modification that is lowered is one of the table itself.
-/

namespace SqlCompiler

/-! ## Chains -/

/-- A chain of conditions, orders, limits and offsets on a table. -/
inductive RowChain where
  | table
  | filter (source : RowChain) (condition : Term)
  /-- An order by a key, which may come after the order there is. -/
  | order (source : RowChain) (after descending : Bool) (key : Term)
  | take (source : RowChain) (count : Nat)
  | skip (source : RowChain) (count : Nat)
  deriving Inhabited

/-- The operator that orders by a key. -/
def SequenceOperator.ofOrdering : Bool → Bool → SequenceOperator
  | false, false => orderBy
  | false, true => orderByDescending
  | true, false => thenBy
  | true, true => thenByDescending

namespace RowChain

/-- The chain as a query term. -/
def term (name : String) : RowChain → Term
  | table => .table name
  | filter source condition => (source.term name).filter condition
  | order source after descending key =>
    (source.term name).apply (.ofOrdering after descending) [key]
  | take source count => (source.term name).apply .take [.constant (.integer count)]
  | skip source count => (source.term name).apply .skip [.constant (.integer count)]

/-- The conditions of a chain. -/
def conditions : RowChain → List Term
  | table => []
  | filter source condition => source.conditions ++ [condition]
  | order source .. | take source _ | skip source _ => source.conditions

/-- The limits of a chain. -/
def takes : RowChain → List Nat
  | table => []
  | take source count => source.takes ++ [count]
  | filter source _ | order source .. | skip source _ => source.takes

/-- The offsets of a chain. -/
def skips : RowChain → List Nat
  | table => []
  | skip source count => source.skips ++ [count]
  | filter source _ | order source .. | take source _ => source.skips

/-- Whether a chain has a limit or an offset. -/
def isPaged (chain : RowChain) : Bool := !chain.takes.isEmpty || !chain.skips.isEmpty

/-- Whether no operator is about rows that only a subquery gives: no condition and no new order
comes after a limit or an offset, and neither of these after a limit. -/
def isDirect : RowChain → Bool
  | table => true
  | filter source _ => source.isDirect && !source.isPaged
  | order source after .. => source.isDirect && (after || !source.isPaged)
  | take source _ | skip source _ => source.isDirect && source.takes.isEmpty

section

variable {V : Type} (I : Interpretation V)
  (arrange : RowChain → List (Element V) → List (Element V))

/-- The rows of a chain, where each order arranges those it is given in some way. -/
def run (elements : List (Element V)) : RowChain → List (Element V)
  | table => elements
  | filter source condition => keepElements I condition (source.run elements)
  | order source after descending key =>
    arrange (order source after descending key) (source.run elements)
  | take source count => (source.run elements).take count
  | skip source count => (source.run elements).drop count

variable {I arrange} (harrange : ∀ chain l, (arrange chain l).Perm l)
include harrange

/-- Without limits and offsets, the rows are those that meet the conditions. -/
theorem run_perm (chain : RowChain) (hpaged : chain.isPaged = false) (elements : List (Element V)) :
    (chain.run I arrange elements).Perm (keepEach I chain.conditions elements) := by
  induction chain with
  | table => exact .rfl
  | filter source condition ih =>
    rw [run, conditions, keepEach, List.foldl_append]
    exact (ih hpaged).filter _
  | order source after descending key ih => exact (harrange _ _).trans (ih hpaged)
  | take source count ih => simp [isPaged, takes] at hpaged
  | skip source count ih => simp [isPaged, skips] at hpaged

/-- How many rows a chain has whose operators are all about the rows of the table. -/
theorem length_run (chain : RowChain) (hdirect : chain.isDirect = true)
    (elements : List (Element V)) :
    (chain.run I arrange elements).length =
      let rest := (keepEach I chain.conditions elements).length - chain.skips.sum
      chain.takes.head?.elim rest fun n => min n rest := by
  induction chain with
  | table => rfl
  | filter source condition ih =>
    obtain ⟨hsource, hunpaged⟩ := Bool.and_eq_true_iff.mp hdirect
    obtain ⟨htakes, hskips⟩ : source.takes = [] ∧ source.skips = [] := by
      simpa [isPaged] using hunpaged
    have hperm := run_perm (I := I) harrange (filter source condition)
      (by simp [isPaged, takes, skips, htakes, hskips]) elements
    simp [hperm.length_eq, takes, skips, htakes, hskips]
  | order source after descending key ih =>
    exact (harrange _ _).length_eq.trans (ih (Bool.and_eq_true_iff.mp hdirect).1)
  | take source count ih =>
    obtain ⟨hsource, htakes⟩ := Bool.and_eq_true_iff.mp hdirect
    rw [run, List.length_take, ih hsource]
    simp [takes, List.isEmpty_iff.mp htakes, conditions, skips]
  | skip source count ih =>
    obtain ⟨hsource, htakes⟩ := Bool.and_eq_true_iff.mp hdirect
    rw [run, List.length_drop, ih hsource]
    simp [takes, List.isEmpty_iff.mp htakes, conditions, skips, Nat.sub_sub]

end

end RowChain

/-! ## Lowering a chain -/

/-- Rows that may be ordered: a new order is not about rows that are fixed already. -/
def Lowered.arrangeable (rows : Lowered) (after : Bool) : LowerM Lowered :=
  if after then pure rows else LowerM.wrapIf Query.hasFixedRows rows

/-- Order rows by a key, instead of the order there is or after it. -/
def Lowered.arrange (rows : Lowered) (l : Lowerer) (after descending : Bool) (f : Term) :
    LowerM Lowered := do
  let rows ← rows.arrangeable after
  let key ← l.applyProjection f [rows.projection] rows.query
  LowerM.modifyQuery rows.query fun q =>
    { q with orderBy := (if after then q.orderBy else []) ++
        key.scalars.map fun expression => { expression, descending } }
  return rows

theorem orderByRule_eq (l : Lowerer) (source f : Term) (after descending : Bool)
    (parent : Option QueryRef) :
    orderByRule.lower l (source.apply (.ofOrdering after descending) [f]) parent = (do
      let rows ← CallSite.lowerSource
        { operator := .ofOrdering after descending, args := [source, f], parent } l
      rows.arrange l after descending f) := by
  cases after <;> cases descending <;> rfl

/-- Limit or skip rows. -/
def Lowered.page (rows : Lowered) (l : Lowerer) (operator : SequenceOperator) (count : Term) :
    LowerM Lowered := do
  let rows ← LowerM.wrapIf Query.isLimited rows
  let count ← l.scalar count rows.query
  LowerM.modifyQuery rows.query (Query.pageMore operator count)
  return rows

theorem takeSkipRule_eq (l : Lowerer) (source count : Term) (operator : SequenceOperator)
    (parent : Option QueryRef) :
    takeSkipRule.lower l (source.apply operator [count]) parent = (do
      let rows ← CallSite.lowerSource { operator, args := [source, count], parent } l
      rows.page l operator count) := by
  rfl

section

variable {V : Type} {I : Interpretation V} {ctx : LowerContext} {st st' : LowerState} {s s' : Store}
  {parent : Option QueryRef} {chain : RowChain} {e : EntityMapping} {t : TableRef}
  {lowered rows : Lowered} {st₀ : LowerState} {l : Lowerer} {n : Nat}

/-- A chain whose rows are those of a query that reads the table itself: its conditions, its limit
and its offset are clauses of the query. -/
structure RowChain.IsAttached (I : Interpretation V) (chain : RowChain) (e : EntityMapping)
    (s : Store) (parent : Option QueryRef) (t : TableRef) (lowered : Lowered) : Prop where
  direct : chain.isDirect = true
  outcome : lowered.outcome = .sequence
  valid : lowered.query.index < s.queries.size
  reads : lowered.projection.ReadsTable s e t
  query : ∃ whereClause orderBy skip, s.query lowered.query =
      { parent, sources := [.ofTable t], whereClause, orderBy, skip
        take := chain.takes.head?.map fun count : Nat => .constant (.integer count) } ∧
    skip.isSome = !chain.skips.isEmpty ∧
    ∀ ρ, (whereClause.truth I ρ == some true) =
      chain.conditions.all fun f => f.holdsOf I (lowered.projection.denote I ρ)

/-- A sequence whose query reads another one. -/
structure Lowered.IsDetached (lowered : Lowered) (s : Store) : Prop where
  outcome : lowered.outcome = .sequence
  sources : ∃ inner, (s.query lowered.query).sources = [.ofQuery inner]

theorem Store.valid_of_sources {q : QueryRef} (h : (s.query q).sources ≠ []) :
    q.index < s.queries.size := by
  refine Nat.lt_of_not_le fun hle => h ?_
  rw [Store.query_of_le hle]

theorem Lowered.IsDetached.valid (h : lowered.IsDetached s) :
    lowered.query.index < s.queries.size := by
  obtain ⟨inner, hsources⟩ := h.sources
  exact Store.valid_of_sources (by simp [hsources])

/-- A wrapped sequence is still one. -/
theorem LowerM.Gives.outcome_wrap (h : (LowerM.wrap rows).Gives ctx st lowered st') :
    lowered.outcome = rows.outcome := by
  obtain ⟨_, _, -, h⟩ := h.of_bind
  obtain ⟨_, _, -, h⟩ := h.of_bind
  obtain ⟨_, _, -, h⟩ := h.of_bind
  obtain ⟨_, _, -, h⟩ := h.of_bind
  obtain ⟨_, _, -, h⟩ := h.of_bind
  cases h
  rfl

/-- A query that is read by a new one. -/
theorem LowerM.Gives.wrap_detached (houtcome : rows.outcome = .sequence)
    (hvalid : rows.query.index < st.store.queries.size)
    (h : (LowerM.wrap rows).Gives ctx st lowered st') : lowered.IsDetached st'.store := by
  obtain ⟨parent, hquery⟩ := h.query_wrap hvalid
  exact ⟨h.outcome_wrap.trans houtcome, rows.query, by rw [hquery]⟩

/-- A sequence is wrapped if its query meets a test, and else left as it is. -/
theorem LowerM.Gives.wrapIf_cases {test : Query → Bool} (houtcome : rows.outcome = .sequence)
    (hvalid : rows.query.index < st.store.queries.size)
    (h : (LowerM.wrapIf test rows).Gives ctx st lowered st') :
    test (st.store.query rows.query) = true ∧ lowered.IsDetached st'.store ∨
      test (st.store.query rows.query) = false ∧ lowered = rows ∧ st' = st := by
  obtain ⟨_, _, hstore, h⟩ := h.of_bind
  cases hstore
  split at h
  · next htest => exact .inl ⟨htest, h.wrap_detached houtcome hvalid⟩
  · next htest =>
    cases h
    exact .inr ⟨Bool.eq_false_iff.mpr htest, rfl, rfl⟩

/-- A detached sequence stays one. -/
theorem LowerM.Gives.wrapIf_detached {test : Query → Bool} (hrows : rows.IsDetached st.store)
    (h : (LowerM.wrapIf test rows).Gives ctx st lowered st') : lowered.IsDetached st'.store := by
  rcases h.wrapIf_cases hrows.outcome hrows.valid with ⟨-, h⟩ | ⟨-, rfl, rfl⟩
  · exact h
  · exact hrows

/-- Rows are wrapped before a new order if they are fixed. -/
theorem LowerM.Gives.arrangeable_cases {after : Bool} (houtcome : rows.outcome = .sequence)
    (hvalid : rows.query.index < st.store.queries.size)
    (h : (rows.arrangeable after).Gives ctx st lowered st') :
    after = false ∧ (st.store.query rows.query).hasFixedRows = true ∧ lowered.IsDetached st'.store ∨
      (after || !(st.store.query rows.query).hasFixedRows) = true ∧ lowered = rows ∧ st' = st := by
  cases after with
  | true =>
    cases h
    exact .inr ⟨rfl, rfl, rfl⟩
  | false =>
    rcases h.wrapIf_cases houtcome hvalid with ⟨hfixed, h⟩ | ⟨hfixed, rfl, rfl⟩
    · exact .inl ⟨rfl, hfixed, h⟩
    · exact .inr ⟨by simp [hfixed], rfl, rfl⟩

/-- A detached query stays one when parts of terms are lowered and its clauses change. -/
theorem Lowered.IsDetached.modify (h : lowered.IsDetached s)
    (hkeeps : s.KeepsBelow s.queries.size s') {f : Query → Query}
    (hf : ∀ query, (f query).sources = query.sources) :
    lowered.IsDetached (s'.modifyQuery lowered.query f) := by
  obtain ⟨inner, hsources⟩ := h.sources
  refine ⟨h.outcome, inner, ?_⟩
  rw [Store.query_modifyQuery_self (Nat.lt_of_lt_of_le h.valid hkeeps.queries), hf,
    hkeeps.query _ h.valid, hsources]

/-- A condition on a sequence that is detached, or becomes so first. -/
theorem LowerM.Gives.filter_detached {f : Term} {negated : Bool}
    (hrows : ∀ lowered st', (LowerM.wrapIf Query.hasFixedRows rows).Gives ctx st lowered st' →
      lowered.IsDetached st'.store)
    (h : (rows.filter (lowererWithin standardRules n) f negated).Gives ctx st lowered st') :
    lowered.IsDetached st'.store := by
  obtain ⟨wrapped, st₁, hwrap, h⟩ := h.of_bind
  obtain ⟨condition, st₂, hcondition, h⟩ := h.of_bind
  obtain ⟨_, _, hstore, h⟩ := h.of_bind
  cases hstore
  obtain ⟨hkeeps, -⟩ := (lowererWithin_keeps _ n).closed.applyCondition f _ _ _ _ _ _
    (Nat.le_refl _) hcondition
  have hdetached := hrows _ _ hwrap
  dsimp only at h
  split at h
  all_goals
    obtain ⟨_, _, hmodify, h⟩ := h.of_bind
    cases hmodify
    cases h
    exact hdetached.modify hkeeps fun _ => rfl

/-- A chain with the conditions of another one, whose query differs in other clauses. -/
theorem RowChain.IsAttached.reclause {chain' : RowChain} (h : chain.IsAttached I e s parent t rows)
    (hkeeps : s.KeepsBelow s.queries.size s') {f : Query → Query} (hdirect : chain'.isDirect = true)
    (hconditions : chain'.conditions = chain.conditions)
    (hf : ∀ whereClause orderBy skip, skip.isSome = !chain.skips.isEmpty →
      ∃ orderBy' skip', skip'.isSome = !chain'.skips.isEmpty ∧
        f { parent, sources := [.ofTable t], whereClause, orderBy, skip
            take := chain.takes.head?.map fun count : Nat => .constant (.integer count) } =
          { parent, sources := [.ofTable t], whereClause, orderBy := orderBy', skip := skip'
            take := chain'.takes.head?.map fun count : Nat => .constant (.integer count) }) :
    chain'.IsAttached I e (s'.modifyQuery rows.query f) parent t rows := by
  obtain ⟨whereClause, orderBy, skip, hquery, hskip, hwhere⟩ := h.query
  obtain ⟨orderBy', skip', hskip', hchanged⟩ := hf whereClause orderBy skip hskip
  have hvalid : rows.query.index < s'.queries.size := Nat.lt_of_lt_of_le h.valid hkeeps.queries
  have hreads := (h.reads.keeps hkeeps).keeps
    (Store.KeepsBelow.modifyQuery (f := f) (Nat.zero_le rows.query.index)
      fun _ _ => .inr (Nat.zero_le _))
  refine ⟨hdirect, h.outcome, ?_, hreads, whereClause, orderBy', skip', ?_, hskip', ?_⟩
  · rwa [Store.size_modifyQuery]
  · rw [Store.query_modifyQuery_self hvalid, hkeeps.query _ h.valid, hquery, hchanged]
  · rwa [hconditions]

/-- The rows of the query of a chain are fixed by limits and offsets. -/
theorem RowChain.IsAttached.hasFixedRows (h : chain.IsAttached I e s parent t rows) :
    (s.query rows.query).hasFixedRows = chain.isPaged := by
  obtain ⟨whereClause, orderBy, skip, hquery, hskip, -⟩ := h.query
  rw [hquery]
  cases htakes : chain.takes <;>
    simp [Query.hasFixedRows, Query.hasPagination, Query.hasSetOperators, isPaged, htakes, hskip]

/-- They are limited by a limit. -/
theorem RowChain.IsAttached.isLimited (h : chain.IsAttached I e s parent t rows) :
    (s.query rows.query).isLimited = !chain.takes.isEmpty := by
  obtain ⟨whereClause, orderBy, skip, hquery, -, -⟩ := h.query
  rw [hquery]
  cases htakes : chain.takes <;> simp [Query.isLimited, Query.hasSetOperators]

theorem LowerM.Gives.scalar_constant {rules : List Rule} {value : Constant} {q : QueryRef}
    {scalar : Scalar}
    (h : ((lowererWithin rules n).scalar (.constant value) q).Gives ctx st scalar st') :
    scalar = .constant value ∧ st' = st := by
  cases n with
  | zero => cases h
  | succ n =>
    cases h
    exact ⟨rfl, rfl⟩

/-- What a chain is lowered to: a query that reads the table, or one that reads another query. -/
def RowChain.IsLowered (I : Interpretation V) (chain : RowChain) (e : EntityMapping) (s : Store)
    (parent : Option QueryRef) (lowered : Lowered) : Prop :=
  (∃ t, chain.IsAttached I e s parent t lowered) ∨ chain.isDirect = false ∧ lowered.IsDetached s

namespace RowChain.IsLowered

/-- One more condition. -/
theorem filter (h : chain.IsLowered I e st.store parent rows) {f : Term} {absent : Bool}
    (hf : f.functionShape? e.shape = some (.value absent)) (hn : 4 * f.size ≤ n)
    (hgives : (rows.filter (lowererWithin standardRules n) f false).Gives ctx st lowered st') :
    (chain.filter f).IsLowered I e st'.store parent lowered := by
  rcases h with ⟨t, h⟩ | ⟨hdirect, h⟩
  · obtain ⟨whereClause, orderBy, skip, hquery, hskip, hwhere⟩ := h.query
    have hfixed := h.hasFixedRows
    cases hpaged : chain.isPaged with
    | true =>
      refine .inr ⟨by simp [isDirect, hpaged], hgives.filter_detached fun wrapped st₁ hwrap => ?_⟩
      rcases hwrap.wrapIf_cases h.outcome h.valid with ⟨-, h⟩ | ⟨hunfixed, -⟩
      · exact h
      · rw [hfixed, hpaged] at hunfixed
        cases hunfixed
    | false =>
      rw [hpaged] at hfixed
      have hunwrapped : (LowerM.wrapIf Query.hasFixedRows rows).Gives ctx st rows st :=
        .wrapIf_false hfixed
      obtain ⟨c, hfilter, htruth⟩ := Lowered.filter_gives (I := I) standardRules hunwrapped
        h.reads.fits (h.reads.parts _ _) hf hn
      obtain ⟨rfl, rfl⟩ := hgives.unique hfilter
      have hreads := h.reads.keeps (Store.KeepsBelow.modifyQuery
        (f := fun q => { q with whereClause := q.whereClause.conjoinAll c })
        (Nat.zero_le lowered.query.index) fun _ _ => .inr (Nat.zero_le _))
      refine .inl ⟨t, by simp [isDirect, h.direct, hpaged], h.outcome, ?_, hreads,
        whereClause.conjoinAll c, orderBy, skip, ?_, hskip, fun ρ => ?_⟩
      · rw [Store.size_modifyQuery]
        exact h.valid
      · rw [Store.query_modifyQuery_self h.valid, hquery]
        rfl
      · rw [Condition.truth_conjoinAll, Truth.and_beq_true, hwhere, htruth, conditions,
          List.all_append, List.all_cons, List.all_nil, Bool.and_true]
        rfl
  · exact .inr ⟨by simp [isDirect, hdirect], hgives.filter_detached fun _ _ hwrap =>
      hwrap.wrapIf_detached h⟩

/-- One more order. -/
theorem order (h : chain.IsLowered I e st.store parent rows) {after descending : Bool} {key : Term}
    (hgives : (rows.arrange (lowererWithin standardRules n) after descending key).Gives ctx st
      lowered st') :
    (chain.order after descending key).IsLowered I e st'.store parent lowered := by
  unfold Lowered.arrange at hgives
  obtain ⟨wrapped, st₁, hwrap, hgives⟩ := hgives.of_bind
  obtain ⟨items, st₂, hitems, hgives⟩ := hgives.of_bind
  obtain ⟨_, _, hmodify, hgives⟩ := hgives.of_bind
  cases hmodify
  cases hgives
  obtain ⟨hkeeps, -⟩ := (lowererWithin_keeps _ n).closed.applyProjection key _ _ _ _ _ _
    (Nat.le_refl _) hitems
  rcases h with ⟨t, h⟩ | ⟨hdirect, h⟩
  · rcases hwrap.arrangeable_cases h.outcome h.valid with
      ⟨rfl, hfixed, hdetached⟩ | ⟨hstays, rfl, rfl⟩
    · rw [h.hasFixedRows] at hfixed
      exact .inr ⟨by simp [isDirect, hfixed], hdetached.modify hkeeps fun _ => rfl⟩
    · rw [h.hasFixedRows] at hstays
      refine .inl ⟨t, h.reclause hkeeps ?_ rfl fun whereClause orderBy skip hskip =>
        ⟨_, skip, hskip, rfl⟩⟩
      simpa [isDirect, h.direct] using hstays
  · rcases hwrap.arrangeable_cases h.outcome h.valid with ⟨-, -, hdetached⟩ | ⟨-, rfl, rfl⟩
    · exact .inr ⟨by simp [isDirect, hdirect], hdetached.modify hkeeps fun _ => rfl⟩
    · exact .inr ⟨by simp [isDirect, hdirect], h.modify hkeeps fun _ => rfl⟩

/-- One more limit or offset. -/
theorem page (h : chain.IsLowered I e st.store parent rows) {operator : SequenceOperator}
    {count : Nat} (hgives : (rows.page (lowererWithin standardRules n) operator
      (.constant (.integer count))).Gives ctx st lowered st') :
    (if operator == .take then chain.take count else chain.skip count).IsLowered I e st'.store
      parent lowered := by
  unfold Lowered.page at hgives
  obtain ⟨wrapped, st₁, hwrap, hgives⟩ := hgives.of_bind
  obtain ⟨scalar, st₂, hcount, hgives⟩ := hgives.of_bind
  obtain ⟨_, _, hmodify, hgives⟩ := hgives.of_bind
  cases hmodify
  cases hgives
  obtain ⟨rfl, rfl⟩ := hcount.scalar_constant
  have hsources (query : Query) :
      (query.pageMore operator (.constant (.integer count))).sources = query.sources := by
    obtain ⟨take, skip, hpage⟩ := query.pageMore_eq operator (.constant (.integer count))
    rw [hpage]
  rcases h with ⟨t, h⟩ | ⟨hdirect, h⟩
  · rcases hwrap.wrapIf_cases h.outcome h.valid with ⟨hlimited, hdetached⟩ | ⟨hlimited, rfl, rfl⟩
    · rw [h.isLimited] at hlimited
      refine .inr ⟨?_, hdetached.modify (.refl _ _) hsources⟩
      split <;> simp_all [isDirect]
    · rw [h.isLimited] at hlimited
      have htakes : chain.takes = [] := by simpa using hlimited
      have hdirect : (chain.isDirect && chain.takes.isEmpty) = true := by simp [h.direct, htakes]
      cases htake : operator == .take with
      | true =>
        refine .inl ⟨t, h.reclause (.refl _ _) hdirect rfl fun whereClause orderBy skip hskip =>
          ⟨orderBy, skip, hskip, ?_⟩⟩
        simp [Query.pageMore, htake, takes, htakes]
      | false =>
        refine .inl ⟨t, h.reclause (.refl _ _) hdirect rfl fun whereClause orderBy skip hskip => ?_⟩
        refine ⟨orderBy, some (skip.elim (.constant (.integer count)) fun previous =>
          .binary previous .add (.constant (.integer count)) .int32), by simp [skips], ?_⟩
        cases skip <;> simp [Query.pageMore, htake, Query.skipMore, takes]
  · refine .inr ⟨?_, (hwrap.wrapIf_detached h).modify (.refl _ _) hsources⟩
    split <;> simp [isDirect, hdirect]

end RowChain.IsLowered

/-- The source of an operator is a sequence. -/
theorem LowerM.Gives.of_lowerSource {operator : SequenceOperator} {source : Term} {rest : List Term}
    (h : (CallSite.lowerSource { operator, args := source :: rest, parent } l).Gives ctx st rows
      st') :
    (l.sequence source parent).Gives ctx st rows st' := by
  obtain ⟨found, st₁, hsource, h⟩ := h.of_bind
  obtain ⟨_, _, hcheck, h⟩ := h.of_bind
  cases h
  unfold CallSite.checkSequence at hcheck
  split at hcheck
  · cases hcheck
    exact hsource
  · cases hcheck

/-- A term that one rule accepts is lowered by it. -/
theorem LowerM.Gives.of_rule {term : Term} {rule : Rule}
    (h : ((lowererWithin standardRules n).sequence term parent).Gives ctx st lowered st')
    (honly : standardRules.filter (·.accepts term) = [rule]) :
    ∃ m st₁, n = m + 1 ∧
      (rule.lower (lowererWithin standardRules m) term parent).Gives ctx st lowered st₁ ∧
      st'.store = st₁.store := by
  cases n with
  | zero => cases h
  | succ m =>
    obtain ⟨found, hfound, st₁, hlower, hstore⟩ := LowerM.Gives.of_dispatch h
    rw [honly, List.mem_singleton] at hfound
    subst hfound
    exact ⟨m, st₁, rfl, hlower, hstore⟩

/-- A chain is lowered to a query that reads the table itself exactly if it is direct. -/
theorem RowChain.lowers (I : Interpretation V) {name : String} (hmaps : ctx.schema.Maps name e)
    (chain : RowChain)
    (hconditions : ∀ f ∈ chain.conditions, ∃ absent,
      f.functionShape? e.shape = some (.value absent)) :
    ∀ {n : Nat} {st st' : LowerState} {lowered : Lowered}, 4 * (chain.term name).size ≤ n →
      ((lowererWithin standardRules n).sequence (chain.term name) parent).Gives ctx st lowered st' →
      chain.IsLowered I e st'.store parent lowered := by
  induction chain with
  | table =>
    intro n st st' lowered hn h
    obtain ⟨m, st₁, rfl, hlower, hstore⟩ := h.of_rule (rfl : _ = [tableRule])
    obtain ⟨read, t, s', hread, hreads⟩ := LowerM.Gives.readTable hmaps st parent
    obtain ⟨rfl, rfl⟩ := LowerM.Gives.unique hlower hread
    have hnewest := hreads.newest
    rw [hstore]
    exact .inl ⟨t, rfl, hreads.outcome, by dsimp only; omega, hreads.projection, .empty, [], none,
      hreads.query, rfl, fun _ => rfl⟩
  | filter source condition ih =>
    intro n st st' lowered hn h
    obtain ⟨m, st₁, rfl, hlower, hstore⟩ := h.of_rule (rfl : _ = [whereRule])
    have hsize : ((filter source condition).term name).size =
        (source.term name).size + (condition.size + 0) + 1 := rfl
    obtain ⟨rows, st₂, hsource, hfilter⟩ := LowerM.Gives.of_bind hlower
    obtain ⟨absent, hshape⟩ := hconditions condition (by simp [conditions])
    have hrows := ih (fun f hf => hconditions f (List.mem_append_left _ hf)) (by omega)
      hsource.of_lowerSource
    rw [hstore]
    exact hrows.filter hshape (by omega) hfilter
  | order source after descending key ih =>
    intro n st st' lowered hn h
    have honly : standardRules.filter (·.accepts ((order source after descending key).term name)) =
        [orderByRule] := by
      cases after <;> cases descending <;> rfl
    obtain ⟨m, st₁, rfl, hlower, hstore⟩ := h.of_rule honly
    have hsize : ((order source after descending key).term name).size =
        (source.term name).size + (key.size + 0) + 1 := rfl
    rw [term, orderByRule_eq] at hlower
    obtain ⟨rows, st₂, hsource, harrange⟩ := LowerM.Gives.of_bind hlower
    rw [hstore]
    exact (ih hconditions (by omega) hsource.of_lowerSource).order harrange
  | take source count ih | skip source count ih =>
    intro n st st' lowered hn h
    have hn : 4 * ((source.term name).size + 1 + 1) ≤ n := hn
    obtain ⟨m, st₁, rfl, hlower, hstore⟩ := h.of_rule (rfl : _ = [takeSkipRule])
    rw [term, takeSkipRule_eq] at hlower
    obtain ⟨rows, st₂, hsource, hpage⟩ := LowerM.Gives.of_bind hlower
    rw [hstore]
    exact (ih hconditions (by omega) hsource.of_lowerSource).page hpage

end

/-! ## Modifications -/

/-- A sequence with a `Set` for each of some members, with the function that selects it and what it
is set to. -/
def Term.setEach (source : Term) (settings : List (Term × Term)) : Term :=
  settings.foldl (fun chain s => .call .set [chain, s.1, s.2]) source

/-- A modification of the rows of a chain. -/
inductive Modification where
  | update (rows : RowChain) (setter : Term)
  | setEach (rows : RowChain) (settings : List (Term × Term))
  | delete (rows : RowChain)
  deriving Inhabited

namespace Modification

/-- The modification as a term. -/
def term (name : String) : Modification → Term
  | update rows setter => .call .update [rows.term name, setter]
  | setEach rows settings => .call .update [(rows.term name).setEach settings]
  | delete rows => .call .delete [rows.term name]

/-- The rows that are modified. -/
def rows : Modification → RowChain
  | update rows _ | setEach rows _ | delete rows => rows

/-- The limit that is printed. -/
def limit? : Modification → Option Nat
  | delete rows => rows.takes.head?
  | update .. | setEach .. => none

/-- Whether no part of a modification is refused. -/
def isAccepted : Modification → Bool
  | delete rows => rows.isDirect && rows.skips.isEmpty
  | update rows _ | setEach rows _ => rows.isDirect

/-- What a modification does to a table. -/
def Writes (m : Modification) (t : TableRef) (body : StatementBody) : Prop :=
  match m with
  | delete _ =>
    body = .delete (some t) (m.limit?.map fun count : Nat => .constant (.integer count)) none
  | update .. | setEach .. => ∃ items, body = .update { table := some t, items } none

end Modification

section

variable {V : Type} {I : Interpretation V} {ctx : LowerContext} {st st' : LowerState} {s s' : Store}
  {parent : Option QueryRef} {chain : RowChain} {e : EntityMapping} {t : TableRef}
  {lowered rows : Lowered} {l : Lowerer} {n : Nat}

/-- A lowered modification of a table: its query reads nothing but the table, and keeps the rows
that meet the conditions. -/
structure Modification.IsLowered (I : Interpretation V) (m : Modification) (e : EntityMapping)
    (s : Store) (t : TableRef) (lowered : Lowered) : Prop where
  accepted : m.isAccepted = true
  body : ∃ body, lowered.outcome = .statement body ∧ m.Writes t body
  reads : lowered.projection.ReadsTable s e t
  query : ∃ whereClause orderBy take skip, s.query lowered.query =
      { sources := [.ofTable t], whereClause, orderBy, take, skip } ∧
    (m.limit?.isSome → skip = none) ∧
    ∀ ρ, (whereClause.truth I ρ == some true) =
      m.rows.conditions.all fun f => f.holdsOf I (lowered.projection.denote I ρ)

/-- Rows that are read from another query are those of no table. -/
theorem RowChain.IsLowered.of_targets (h : chain.IsLowered I e s parent rows)
    (htarget : rows.Targets t s) : chain.IsAttached I e s parent t rows := by
  rcases h with ⟨found, h⟩ | ⟨-, h⟩
  · obtain ⟨name, members, hprojection⟩ := htarget.projection
    rw [h.reads.projection] at hprojection
    cases hprojection
    exact h
  · obtain ⟨inner, hsources⟩ := h.sources
    have hread := htarget.read
    rw [Query.allSources, hsources] at hread
    cases hread

/-- A setting is about the rows of the sequence it is added to. -/
theorem LowerM.Gives.of_lowerSet {c : CallSite}
    (h : (lowerSet (lowererWithin standardRules n) c).Gives ctx st lowered st') :
    ∃ rows st₁, (c.lowerFirst (lowererWithin standardRules n)).Gives ctx st rows st₁ ∧
      ∀ k ≤ st₁.store.queries.size, st₁.store.KeepsBelow k st'.store ∧
        lowered.query = rows.query ∧ lowered.projection = rows.projection := by
  obtain ⟨rows, st₁, hfirst, h⟩ := h.of_bind
  refine ⟨rows, st₁, hfirst, fun k hk => ?_⟩
  have hset := setMember_bounded (lowererWithin_keeps k n).bounded c rows
    (fun set => set.query = rows.query ∧ set.projection = rows.projection) fun _ => ⟨rfl, rfl⟩
  split at h
  · exact hset _ _ _ _ _ hk h
  · exact hset _ _ _ _ _ hk h
  · obtain ⟨_, _, hrefused, -⟩ := h.of_bind
    cases hrefused

/-- A chain of settings is lowered to the rows that it is about, with assignments. -/
theorem LowerM.Gives.of_setEach {source : Term} {settings : List (Term × Term)} :
    ∀ {n : Nat} {st st' : LowerState} {lowered : Lowered}, 4 * (source.setEach settings).size ≤ n →
      ((lowererWithin standardRules n).sequence (source.setEach settings) parent).Gives ctx st
        lowered st' →
      ∃ m rows st₁, 4 * source.size ≤ m ∧
        ((lowererWithin standardRules m).sequence source parent).Gives ctx st rows st₁ ∧
        st₁.store.KeepsBelow st₁.store.queries.size st'.store ∧
        lowered.query = rows.query ∧ lowered.projection = rows.projection := by
  induction settings using List.reverseRecOn with
  | nil =>
    intro n st st' lowered hn h
    exact ⟨n, lowered, st', hn, h, .refl _ _, rfl, rfl⟩
  | append_singleton settings setting ih =>
    intro n st st' lowered hn h
    rw [Term.setEach, List.foldl_append] at hn h
    obtain ⟨m, st₁, rfl, hlower, hstore⟩ := h.of_rule (rfl : _ = [updateRule])
    obtain ⟨chained, st₂, hfirst, hset⟩ := LowerM.Gives.of_lowerSet hlower
    have hsize : (source.setEach settings).size < (Term.call .set
        [source.setEach settings, setting.1, setting.2]).size :=
      Nat.lt_succ_of_le (Nat.le_add_right _ _)
    have hn' : 4 * (Term.call .set [source.setEach settings, setting.1, setting.2]).size ≤ m + 1 :=
      hn
    obtain ⟨k, rows, st₃, hk, hrows, hkeeps', hquery', hprojection'⟩ := ih (by omega) hfirst
    obtain ⟨hkeeps, hquery, hprojection⟩ := hset _ hkeeps'.queries
    rw [hstore]
    exact ⟨k, rows, st₃, hk, hrows, hkeeps'.trans hkeeps, hquery.trans hquery',
      hprojection.trans hprojection'⟩

/-- Lowering parts of a term changes nothing about a chain. -/
theorem RowChain.IsAttached.keeps (h : chain.IsAttached I e s parent t rows)
    (hkeeps : s.KeepsBelow s.queries.size s') : chain.IsAttached I e s' parent t rows := by
  obtain ⟨whereClause, orderBy, skip, hquery, hclauses⟩ := h.query
  exact ⟨h.direct, h.outcome, Nat.lt_of_lt_of_le h.valid hkeeps.queries, h.reads.keeps hkeeps,
    whereClause, orderBy, skip, (hkeeps.query _ h.valid).trans hquery, hclauses⟩

theorem RowChain.IsLowered.keeps (h : chain.IsLowered I e s parent rows)
    (hkeeps : s.KeepsBelow s.queries.size s') : chain.IsLowered I e s' parent rows := by
  rcases h with ⟨t, h⟩ | ⟨hdirect, h⟩
  · exact .inl ⟨t, h.keeps hkeeps⟩
  · obtain ⟨inner, hsources⟩ := h.sources
    exact .inr ⟨hdirect, h.outcome, inner, by rw [hkeeps.query _ h.valid, hsources]⟩

/-- Rows that are updated are those of a query that reads the table. -/
theorem RowChain.IsLowered.updated {m : Modification} {found : Lowered} {items : List Assignment}
    (h : m.rows.IsLowered I e st.store none rows) (hquery : found.query = rows.query)
    (hprojection : found.projection = rows.projection) (haccepted : m.isAccepted = m.rows.isDirect)
    (hlimit : m.limit? = none) (hwrites : ∀ t, m.Writes t (.update { table := some t, items } none))
    (hupdate : (found.update items).Gives ctx st lowered st') :
    ∃ t, m.IsLowered I e st'.store t lowered := by
  unfold Lowered.update at hupdate
  split at hupdate
  · obtain ⟨_, _, hrefused, -⟩ := hupdate.of_bind
    cases hrefused
  · dsimp only at hupdate
    obtain ⟨t, _, htarget, hreturn⟩ := LowerM.Gives.of_bind hupdate
    have htargets := Lowered.targets_of_gives htarget
    obtain ⟨-, rfl⟩ := htarget.unique (htargets.gives ctx)
    cases hreturn
    have hattached := h.of_targets (t := t) ⟨by simpa [hprojection] using htargets.projection,
      by simpa [hquery] using htargets.read⟩
    obtain ⟨whereClause, orderBy, skip, hclauses, -, hwhere⟩ := hattached.query
    refine ⟨t, haccepted.trans hattached.direct, ⟨_, rfl, hwrites t⟩, ?_, whereClause, orderBy, _,
      skip, (congrArg st'.store.query hquery).trans hclauses, by simp [hlimit], ?_⟩
    · rw [Lowered.updated, hprojection]
      exact hattached.reads
    · rw [Lowered.updated, hprojection]
      exact hwhere

/-- A modification that is lowered is one of the table itself. -/
theorem Modification.lowers (I : Interpretation V) {name : String} (hmaps : ctx.schema.Maps name e)
    (m : Modification)
    (hconditions : ∀ f ∈ m.rows.conditions,
      ∃ absent, f.functionShape? e.shape = some (.value absent))
    (hn : 4 * (m.term name).size ≤ n)
    (h : ((lowererWithin standardRules n).sequence (m.term name) none).Gives ctx st lowered st') :
    ∃ t, m.IsLowered I e st'.store t lowered := by
  cases m with
  | update chain setter =>
    have hsize : ((update chain setter).term name).size =
        (chain.term name).size + (setter.size + 0) + 1 := rfl
    obtain ⟨m, st₁, rfl, hlower, hstore⟩ := h.of_rule (rfl : _ = [updateRule])
    have hupdate : (lowerUpdate (lowererWithin standardRules m)
        ⟨.update, [chain.term name, setter], none⟩).Gives ctx st lowered st₁ := hlower
    rw [lowerUpdate_eq] at hupdate
    obtain ⟨⟨rows, items⟩, st₂, hparts, hupdate⟩ := hupdate.of_bind
    obtain ⟨source, st₃, hsource, hparts⟩ := hparts.of_bind
    obtain ⟨found, st₄, hitems, hpair⟩ := hparts.of_bind
    cases hpair
    have hchain := chain.lowers I hmaps hconditions (by omega) hsource
    obtain ⟨hkeeps, -⟩ := setterItems_bounded (lowererWithin_keeps _ m).bounded rows setter _ _ _ _
      (Nat.le_refl _) hitems
    rw [hstore]
    exact (hchain.keeps hkeeps).updated (m := .update chain setter) rfl rfl rfl rfl
      (fun _ => ⟨_, rfl⟩) hupdate
  | setEach chain settings =>
    have hsize : ((setEach chain settings).term name).size =
        ((chain.term name).setEach settings).size + 0 + 1 := rfl
    obtain ⟨m, st₁, rfl, hlower, hstore⟩ := h.of_rule (rfl : _ = [updateRule])
    have hupdate : (lowerUpdate (lowererWithin standardRules m)
        ⟨.update, [(chain.term name).setEach settings], none⟩).Gives ctx st lowered st₁ := hlower
    rw [lowerUpdate_eq] at hupdate
    obtain ⟨⟨found, items⟩, st₂, hparts, hupdate⟩ := hupdate.of_bind
    obtain ⟨last, st₃, hsource, hparts⟩ := hparts.of_bind
    obtain ⟨k, rows, st₄, hk, hrows, hkeeps, hquery, hprojection⟩ :=
      LowerM.Gives.of_setEach (by omega) hsource
    have hchain := chain.lowers I hmaps hconditions hk hrows
    split at hparts
    · cases hparts
      rw [hstore]
      exact (hchain.keeps hkeeps).updated (m := .setEach chain settings) hquery hprojection rfl rfl
        (fun _ => ⟨_, rfl⟩) hupdate
    · cases hparts
  | delete chain =>
    have hsize : ((delete chain).term name).size = (chain.term name).size + 0 + 1 := rfl
    obtain ⟨m, st₁, rfl, hlower, hstore⟩ := h.of_rule (rfl : _ = [deleteRule])
    obtain ⟨rows, st₂, hsource, hlower⟩ := LowerM.Gives.of_bind hlower
    obtain ⟨_, _, hfilter, hlower⟩ := LowerM.Gives.of_bind hlower
    cases hfilter
    have hchain := chain.lowers I hmaps hconditions (by omega) hsource.of_lowerSource
    obtain ⟨t, st₄, htarget, hdelete⟩ := LowerM.Gives.of_bind hlower
    have htargets := Lowered.targets_of_gives htarget
    obtain ⟨-, rfl⟩ := htarget.unique (htargets.gives ctx)
    obtain ⟨_, _, hget, hdelete⟩ := LowerM.Gives.of_bind hdelete
    cases hget
    have hattached := hchain.of_targets htargets
    obtain ⟨whereClause, orderBy, skip, hclauses, hskip, hwhere⟩ := hattached.query
    rw [hclauses] at hdelete
    dsimp only at hdelete
    split at hdelete
    · obtain ⟨_, _, -, hrefused⟩ := hdelete.of_bind
      cases hrefused
    · next hunskipped =>
      obtain ⟨_, _, hmodify, hreturn⟩ := hdelete.of_bind
      cases hmodify
      cases hreturn
      have hskips : chain.skips = [] := by simpa [hskip] using hunskipped
      obtain rfl : skip = none := by simpa using hunskipped
      have hreads := hattached.reads.keeps (Store.KeepsBelow.modifyQuery
        (f := fun q => { q with take := none, takeHints := none, orderBy := [] })
        (Nat.zero_le rows.query.index) fun _ _ => .inr (Nat.zero_le _))
      rw [hstore]
      refine ⟨t, ?_, ⟨_, rfl, rfl⟩, hreads, whereClause, [], none, none, ?_, fun _ => rfl, hwhere⟩
      · simp [isAccepted, hattached.direct, hskips]
      · exact (Store.query_modifyQuery_self hattached.valid).trans (by rw [hclauses])

end

end SqlCompiler
