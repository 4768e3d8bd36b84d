import SqlCompiler.Proofs.Idempotence.Aliases
import SqlCompiler.Proofs.Idempotence.Modifications
import SqlCompiler.Proofs.Paging.Databases

/-!
# Legalizing a statement twice

A statement that has been legalized is not restructured again, and gets no aliases again: paging is
separated from distinct rows, rows are numbered, offsets have an order, and an update or a delete is
over a single table.  All that a second run does is to legalize the expressions a second time.

Main results:

- Definition `Store.Settled`: a statement that is not restructured.
- Theorem `Store.settled_restructured`: a statement that has been restructured is settled.
- Theorem `Store.legalizeStatement_again`: what legalizing a statement a second time does.
-/

namespace SqlCompiler.Store

variable {s s' : Store} {p : Provider} {t : StatementRef} {q r : QueryRef}

/-! ## Statements that are not restructured -/

/-- Paging is separated from distinct rows, where the dialect needs it. -/
def PagesApart (s : Store) (p : Provider) (t : StatementRef) : Prop :=
  p.rules.pagingWithDistinct = false → ∀ q, s.Reaches t q →
    (s.query q).distinct = true → (s.query q).hasPagination = false

/-- Nothing is left in a statement that the dialect needs to have restructured. -/
structure Settled (s : Store) (p : Provider) (t : StatementRef) : Prop where
  distinct : s.PagesApart p t
  undivided : s.Undivided p.rules t
  ordered : p.dialect = .sqlServer → ∀ q, s.Reaches t q → (s.query q).skip.isSome = true →
    (s.query q).orderBy ≠ []
  numbered : p.dialect = .db2 → ∀ q, s.Reaches t q → (s.query q).skip.isSome = true →
    (s.query q).setOperators ≠ []

theorem Undivided.narrows {rules : Capabilities} (h : s.Undivided rules t)
    (hnarrows : s.Narrows s' t) : s'.Undivided rules t := by
  have hlone := (hnarrows.form (s.statement t).query).lone
  rw [Undivided, hnarrows.isDelete, hnarrows.isUpdate, hnarrows.root, Query.isMultiTable_eq, hlone,
    ← Query.isMultiTable_eq]
  exact h

theorem PagesApart.narrows (h : s.PagesApart p t) (hnarrows : s.Narrows s' t) :
    s'.PagesApart p t := by
  intro hrules q hq hdistinct
  rw [(hnarrows.form q).distinct] at hdistinct
  rw [Query.hasPagination, (hnarrows.queries q).take, (hnarrows.queries q).skip]
  exact h hrules q (hnarrows.reaches q hq) hdistinct

theorem Settled.narrows (h : s.Settled p t) (hnarrows : s.Narrows s' t) : s'.Settled p t where
  distinct := h.distinct.narrows hnarrows
  undivided := h.undivided.narrows hnarrows
  ordered hdialect q hq hskip := (hnarrows.form q).orderBy
    (h.ordered hdialect q (hnarrows.reaches q hq) ((hnarrows.queries q).skip ▸ hskip))
  numbered hdialect q hq hskip := by
    rw [(hnarrows.queries q).setOperators]
    exact h.numbered hdialect q (hnarrows.reaches q hq) ((hnarrows.queries q).skip ▸ hskip)

theorem matchingQueries_eq_nil {test : Query → Bool}
    (h : ∀ q, s.Reaches t q → test (s.query q) = false) : s.matchingQueries t test = [] := by
  refine List.filter_eq_nil_iff.mpr fun q hq => ?_
  rw [h q (mem_statementQueries.mp hq)]
  exact Bool.false_ne_true

/-- A settled statement is not restructured. -/
theorem Settled.restructured (h : s.Settled p t) : s.restructured p t = (.ok (), s) := by
  have hseparated : (if p.rules.pagingWithDistinct then s else s.separateDistinct t) = s := by
    split
    · rfl
    · next hrules =>
      rw [separateDistinct, matchingQueries_eq_nil fun q hq => ?_, List.foldl_nil]
      have hdistinct := h.distinct (Bool.eq_false_iff.mpr hrules) q hq
      cases hquery : (s.query q).distinct with
      | false => rfl
      | true => exact hdistinct hquery
  have hordered (hdialect : p.dialect = .sqlServer) :
      (s.statementQueries t).foldl orderForOffset s = s := by
    have hfold : ∀ queries : List QueryRef, (∀ q ∈ queries, s.Reaches t q) →
        queries.foldl orderForOffset s = s := by
      intro queries hqueries
      induction queries with
      | nil => rfl
      | cons q rest ih =>
        obtain ⟨hq, hrest⟩ := List.forall_mem_cons.mp hqueries
        have hkept : s.orderForOffset q = s := modifyQuery_eq_self (if_neg fun hcondition => by
          obtain ⟨hskip, hempty⟩ := Bool.and_eq_true _ _ ▸ hcondition
          exact h.ordered hdialect q hq hskip (List.isEmpty_iff.mp hempty))
        rw [List.foldl_cons, hkept, ih hrest]
    exact hfold _ fun q => mem_statementQueries.mp
  have hnumbered (hdialect : p.dialect = .db2) : s.numberRows t true = s := by
    have hnone : s.numberedQueries t = [] := List.eq_nil_iff_forall_not_mem.mpr fun q hq => by
      obtain ⟨hreaches, hoperators, hskip⟩ := mem_numberedQueries.mp hq
      exact h.numbered hdialect q hreaches hskip hoperators
    change (s.numberedQueries t).foldl numberRowsOf s = s
    rw [hnone, List.foldl_nil]
  rw [Store.restructured, hseparated]
  simp only [h.undivided.restructureDml]
  cases hdialect : p.dialect with
  | sqlServer => exact congrArg _ (hordered hdialect)
  | db2 => exact congrArg _ (hnumbered hdialect)
  | _ => rfl

/-! ## Statements that have been restructured -/

theorem ordered_orderForOffset (s : Store) (q : QueryRef)
    (h : ((s.orderForOffset q).query q).skip.isSome = true) :
    ((s.orderForOffset q).query q).orderBy ≠ [] := by
  by_cases hsize : q.index < s.queries.size
  · rw [orderForOffset, query_modifyQuery_self hsize] at h ⊢
    split at h
    · next hcondition =>
      rw [if_pos hcondition]
      exact List.cons_ne_nil _ _
    · next hcondition =>
      rw [if_neg hcondition]
      exact fun hnone => hcondition (by rw [h, hnone]; rfl)
  · rw [query_of_le (by simpa [orderForOffset] using hsize)] at h
    cases h

/-- An offset has an order after one has been given. -/
theorem ordered_foldl_orderForOffset (queries : List QueryRef) (s : Store)
    (h : q ∈ queries ∨ ((s.query q).skip.isSome = true → (s.query q).orderBy ≠ [])) :
    ((queries.foldl orderForOffset s).query q).skip.isSome = true →
      ((queries.foldl orderForOffset s).query q).orderBy ≠ [] := by
  induction queries generalizing s with
  | nil => exact h.resolve_left (by simp)
  | cons r rest ih =>
    refine ih _ ?_
    have hnarrows := narrows_orderForOffset (t := ⟨0⟩) s r
    rcases h with h | h
    · rcases List.mem_cons.mp h with rfl | h
      · exact .inr (ordered_orderForOffset s q)
      · exact .inl h
    · refine .inr fun hskip => (hnarrows.form q).orderBy (h ?_)
      rwa [(hnarrows.queries q).skip] at hskip

theorem pagesApart_separateDistinct (hs : s.Owned) : (s.separateDistinct t).PagesApart p t := by
  have hpass := pass_separateDistinct (t := t) (I := fun _ => True) hs trivial
    fun _ _ _ _ _ _ => trivial
  intro _ q hq hdistinct
  by_contra hpagination
  have hpages := (hpass.pagesOverRows hq (Bool.eq_true_of_not_eq_false hpagination)).2
  rw [hpages.1] at hdistinct
  cases hdistinct

theorem Rebuilds.pagesApart {rules : Capabilities} (h : s.Rebuilds rules t s')
    (hapart : s.PagesApart p t) : s'.PagesApart p t := by
  intro hrules q hq hdistinct
  by_contra hpagination
  obtain ⟨hreaches, hpaged, hsame⟩ := h.paged q hq (Bool.eq_true_of_not_eq_false hpagination)
  rw [hapart hrules q hreaches (hsame ▸ hdistinct)] at hpaged
  cases hpaged

theorem settled_orderForOffset (hdialect : p.dialect = .sqlServer) (hapart : s.PagesApart p t)
    (hundivided : s.Undivided p.rules t) :
    ((s.statementQueries t).foldl orderForOffset s).Settled p t := by
  have hnarrows : s.Narrows ((s.statementQueries t).foldl orderForOffset s) t :=
    .foldl narrows_orderForOffset _ s
  refine ⟨hapart.narrows hnarrows, hundivided.narrows hnarrows, fun _ q hq => ?_, fun hdb2 => ?_⟩
  · exact ordered_foldl_orderForOffset _ s
      (.inl (mem_statementQueries.mpr (hnarrows.reaches q hq)))
  · rw [hdialect] at hdb2
    cases hdb2

theorem statement_numberRows (hs : s.Owned) : (s.numberRows t true).statement = s.statement := by
  have hpass := pass_numberRows (t := t) (I := fun _ => True) hs trivial fun _ _ _ _ => trivial
  rw [hpass.content]
  rfl

theorem Undivided.numberRows {rules : Capabilities} (h : s.Undivided rules t) (hs : s.Owned)
    (hvalid : (s.statement t).query.index < s.queries.size) :
    (s.numberRows t true).Undivided rules t := by
  have hpass := pass_numberRows (t := t) (I := fun _ => True) hs trivial fun _ _ _ _ => trivial
  have hstatement : (s.numberRows t true).statement = s.statement := statement_numberRows hs
  by_cases hdone : (s.statement t).query ∈ s.numberedQueries t
  · obtain ⟨-, inner, number, -, -, -, hsources, -⟩ := hpass.changed _ hdone
    refine .of_single ?_
    rw [hstatement, Query.isMultiTable_eq, Query.lone, hsources]
    rfl
  · rw [Undivided, hstatement, hpass.others _ hdone hvalid]
    exact h

theorem settled_numberRows (hs : s.Owned) (hvalid : (s.statement t).query.index < s.queries.size)
    (hdialect : p.dialect = .db2) (hapart : s.PagesApart p t)
    (hundivided : s.Undivided p.rules t) : (s.numberRows t true).Settled p t := by
  have hpass := pass_numberRows (t := t) (I := fun _ => True) hs trivial fun _ _ _ _ => trivial
  refine ⟨fun hrules q hq hdistinct => ?_, ?_, fun hserver => ?_, fun _ q hq hskip hoperators => ?_⟩
  · by_contra hpagination
    have hpaged := Bool.eq_true_of_not_eq_false hpagination
    obtain ⟨hreaches, hquery, -⟩ := hpass.of_numbered hq hpaged
    rw [hquery] at hdistinct hpaged
    rw [hapart hrules q hreaches hdistinct] at hpaged
    cases hpaged
  · exact hundivided.numberRows hs hvalid
  · rw [hdialect] at hserver
    cases hserver
  · have hpaged : ((s.numberRows t true).query q).hasPagination = true := by
      rw [Query.hasPagination, hskip, Bool.or_true]
    obtain ⟨-, hquery, hnone⟩ := hpass.of_numbered hq hpaged
    rw [hquery] at hskip hoperators
    rw [hnone hoperators] at hskip
    cases hskip

/-- Paging is separated from distinct rows in the first step. -/
theorem separated_of_distinct (hs : s.Owned) :
    ∃ separated, separated = (if p.rules.pagingWithDistinct then s else s.separateDistinct t) ∧
      separated.Owned ∧ s.queries.size ≤ separated.queries.size ∧ separated.PagesApart p t ∧
        separated = { s with queries := separated.queries, columns := separated.columns } := by
  refine ⟨_, rfl, ?_⟩
  cases hrules : p.rules.pagingWithDistinct with
  | true =>
    refine ⟨hs, Nat.le_refl _, fun hnone => ?_, rfl⟩
    rw [hrules] at hnone
    cases hnone
  | false =>
    have hpass := pass_separateDistinct (t := t) (I := fun _ => True) hs trivial
      fun _ _ _ _ _ _ => trivial
    exact ⟨hpass.owned, hpass.grown, pagesApart_separateDistinct hs, hpass.content⟩

/-- A statement that has been restructured is settled. -/
theorem settled_restructured (hs : s.Owned) (hvalid : (s.statement t).query.index < s.queries.size)
    (hnamed : ∀ target, (s.statement t).body.target? = some target →
      s.cteBody? (.ofTable target) = none)
    (h : s.restructured p t = (.ok (), s')) : s'.Settled p t := by
  obtain ⟨separated, hdef, howned, hgrown, hapart, hcontent⟩ :=
    separated_of_distinct (p := p) (t := t) hs
  have hstatement : separated.statement = s.statement := by rw [hcontent]; rfl
  have hcteBody : separated.cteBody? = s.cteBody? := by rw [hcontent]; rfl
  rw [Store.restructured, ← hdef] at h
  split at h
  · cases h
  · next rebuilt hrebuilt =>
    have hrebuilds : separated.Rebuilds p.rules t rebuilt := rebuilds_restructureDml
      (by rw [hstatement]; exact Nat.lt_of_lt_of_le hvalid hgrown)
      (by rw [hstatement, hcteBody]; exact hnamed) hrebuilt
    have hrebuiltOwned : rebuilt.Owned := by
      have hevolves := Evolves.rewriting.restructureDml separated p.rules t
      rw [hrebuilt] at hevolves
      exact howned.evolves hevolves
    have hrebuiltApart := hrebuilds.pagesApart hapart
    obtain rfl := (Prod.mk.inj h).2
    cases hdialect : p.dialect with
    | sqlServer => exact settled_orderForOffset hdialect hrebuiltApart hrebuilds.undivided
    | db2 =>
      exact settled_numberRows hrebuiltOwned hrebuilds.valid hdialect hrebuiltApart
        hrebuilds.undivided
    | _ =>
      refine ⟨hrebuiltApart, hrebuilds.undivided, fun h => ?_, fun h => ?_⟩ <;>
      · rw [hdialect] at h
        cases h

/-! ## A second run -/

/-- Legal expressions keep the columns of queries and the aliases of sources. -/
theorem aliases_legalizeExpressions (s : Store) (p : Provider) (t : StatementRef) (q : QueryRef) :
    ((s.legalizeExpressions p t).query q).columns = (s.query q).columns ∧
      ((s.legalizeExpressions p t).query q).allSources.map (·.aliasName) =
        (s.query q).allSources.map (·.aliasName) := by
  have hqueries (transformer : Store → Transformer) (queries : List QueryRef) (s : Store) :
      ((queries.foldl (transformQuery transformer) s).query q).columns = (s.query q).columns ∧
        ((queries.foldl (transformQuery transformer) s).query q).allSources.map (·.aliasName) =
          (s.query q).allSources.map (·.aliasName) := by
    induction queries generalizing s with
    | nil => exact ⟨rfl, rfl⟩
    | cons r rest ih =>
      obtain ⟨hcolumns, hsources⟩ := ih (s.transformQuery transformer r)
      have hkept : (Store.query ((s.query r).columns.foldl (transformColumn transformer) s) q) =
          s.query q := (leaves_transformColumns transformer (s.query r).columns).query
      have hclauses (w : Transformer) (query : Query) :
          (w.query query).allSources.map (·.aliasName) =
            query.allSources.map (·.aliasName) := by
        rw [Transformer.allSources_query, List.map_map]
        exact List.map_congr_left fun source _ => by cases source; rfl
      rw [List.foldl_cons, hcolumns, hsources, transformQuery, ← hkept]
      generalize (s.query r).columns.foldl (transformColumn transformer) s = s'
      rcases query_modifyQuery s' r q (transformer s').query with ⟨rfl, hquery⟩ | hquery
      · rw [hquery]
        exact ⟨rfl, hclauses _ _⟩
      · rw [hquery]
        exact ⟨rfl, rfl⟩
  exact hqueries _ _ s

/-- What legalizing a statement a second time does: its expressions are legalized once more, and that
is all. -/
theorem legalizeStatement_again {final : Store} (hs : s.Owned)
    (hvalid : (s.statement t).query.index < s.queries.size)
    (hnamed : ∀ target, (s.statement t).body.target? = some target →
      s.cteBody? (.ofTable target) = none)
    (hrun : (legalizeStatement p t).runOn s = (.ok (), final)) :
    (legalizeStatement p t).runOn final = (.ok (), final.legalizeExpressions p t) := by
  obtain ⟨legal, hlegal, rfl⟩ := legalizeStatement_ok_iff.mp hrun
  have howned := (hs.restructured hlegal).evolves (Evolves.rewriting.legalizeExpressions legal p t)
  have hfinal := ((settled_restructured hs hvalid hnamed hlegal).narrows
    (narrows_legalizeExpressions p)).narrows (narrows_finalizeAliases howned)
  refine legalizeStatement_ok_iff.mpr ⟨_, hfinal.restructured, ?_⟩
  refine (finalizeAliases_of_aliased fun q hq => ?_).symm
  have haliased := aliased_finalizeAliases howned ((narrows_legalizeExpressions p).reaches q hq)
  obtain ⟨hcolumns, hsources⟩ := aliases_legalizeExpressions
    ((legal.legalizeExpressions p t).finalizeAliases t) p t q
  refine ⟨fun source hsource => ?_, fun c hc => ?_⟩
  · obtain ⟨old, hold, hname⟩ := List.mem_map.mp (hsources ▸ List.mem_map_of_mem hsource)
    rw [← hname]
    exact haliased.sources old hold
  · rw [aliasName_legalizeExpressions]
    exact haliased.columns c (hcolumns ▸ hc)

/-- Nicknames in the order of a constant of two others, by an operator that SQLite lacks. -/
def nicknamesByFlags : Store :=
  nicknames { orderBy := [⟨.binary (.int 5) .bitXor (.int 3) .int32, false⟩] }

/-- What the first query is ordered by. -/
def ordersBy (s : Store) (e : Scalar) : Bool :=
  (s.query ⟨0⟩).orderBy.all fun item => item.expression == e

/-- The first run spells the operator by sums and differences of the constants; only the second one
computes their sum. -/
theorem legalizeStatement_again_nicknamesByFlags : ∃ final,
    (legalizeStatement (.ofDialect .sqlite) ⟨0⟩).runOn nicknamesByFlags = (.ok (), final) ∧
      final.ordersBy (xorBySum (.int 5) (.int 3) .int32) = true ∧
        ∃ again, (legalizeStatement (.ofDialect .sqlite) ⟨0⟩).runOn final = (.ok (), again) ∧
          again.ordersBy (xorBySum (.int 5) (.int 3) .int32) = false := by
  obtain ⟨final, hfinal⟩ : ∃ final,
      final = (nicknamesByFlags.legalizeExpressions (.ofDialect .sqlite) ⟨0⟩).finalizeAliases ⟨0⟩ :=
    ⟨_, rfl⟩
  have hrun : (legalizeStatement (.ofDialect .sqlite) ⟨0⟩).runOn nicknamesByFlags =
      (.ok (), final) := legalizeStatement_ok_iff.mpr ⟨nicknamesByFlags, rfl, hfinal⟩
  refine ⟨final, hrun, ?_, _, legalizeStatement_again (owned_nicknames _) Nat.one_pos ?_ hrun, ?_⟩
  · rw [hfinal]
    decide +kernel
  · rintro _ ⟨⟩
  · rw [hfinal]
    decide +kernel

end SqlCompiler.Store
