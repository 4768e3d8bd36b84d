import SqlCompiler.Proofs.Columns.Aliases
import SqlCompiler.Proofs.Queries.Reachable

/-!
# Aliases that have been given out

After aliases have been given out, every source and column of a statement has one.  Giving out
aliases again then changes nothing.

Main results:

- Definition `Store.Aliased`: a query whose sources and columns have aliases.
- Theorem `Store.aliased_finalizeAliases`: all queries of a statement are such.
- Theorem `Store.finalizeAliases_of_aliased`: in this case no alias is given out.
-/

namespace SqlCompiler

/-- Sources that have aliases. -/
def HaveAliases (sources : List Source) : Prop := ∀ source ∈ sources, source.aliasName.isSome = true

theorem HaveAliases.append {sources sources' : List Source} :
    HaveAliases (sources ++ sources') ↔ HaveAliases sources ∧ HaveAliases sources' := by
  simp [HaveAliases, or_imp, forall_and]

/-! ## Sources -/

section

variable (byName : Bool)

mutual

theorem aliased_withAliases (used : AliasSet) (source : Source) :
    HaveAliases (source.withAliases byName used).1.all := by
  obtain ⟨item, aliasName, joins⟩ := source
  have hnamed (used : AliasSet) (name : String) :
      HaveAliases (Source.all ⟨item, some name, (joinsWithAliases byName used joins).1⟩) :=
    List.forall_mem_cons.mpr ⟨rfl, aliased_joinsWithAliases used joins⟩
  unfold Source.withAliases
  dsimp only
  split
  · exact hnamed _ _
  · split <;> exact hnamed _ _
termination_by structural source

theorem aliased_joinWithAliases (used : AliasSet) (join : Join) :
    HaveAliases (Source.ofJoin (join.withAliases byName used).1) := by
  obtain ⟨kind, source, condition⟩ := join
  exact aliased_withAliases used source
termination_by structural join

theorem aliased_joinsWithAliases (used : AliasSet) (joins : List Join) :
    HaveAliases (Source.joined (joinsWithAliases byName used joins).1) := by
  cases joins with
  | nil => exact fun _ h => by cases h
  | cons join rest =>
    exact HaveAliases.append.mpr
      ⟨aliased_joinWithAliases used join, aliased_joinsWithAliases _ rest⟩
termination_by structural joins

end

theorem aliased_sourcesWithAliases (used : AliasSet) (sources : List Source) :
    HaveAliases ((sourcesWithAliases byName used sources).1.flatMap Source.all) := by
  induction sources generalizing used with
  | nil => exact fun _ h => by cases h
  | cons source rest ih =>
    rw [sourcesWithAliases, List.flatMap_cons]
    exact HaveAliases.append.mpr ⟨aliased_withAliases byName used source, ih _⟩

mutual

theorem withAliases_of_aliased (used : AliasSet) (source : Source) (h : HaveAliases source.all) :
    source.withAliases byName used = (source, used) := by
  obtain ⟨item, aliasName, joins⟩ := source
  obtain ⟨hname, hjoins⟩ := List.forall_mem_cons.mp h
  obtain ⟨name, rfl⟩ := Option.isSome_iff_exists.mp hname
  rw [Source.withAliases]
  dsimp only
  rw [joinsWithAliases_of_aliased used joins hjoins]
termination_by structural source

theorem joinWithAliases_of_aliased (used : AliasSet) (join : Join)
    (h : HaveAliases (Source.ofJoin join)) : join.withAliases byName used = (join, used) := by
  obtain ⟨kind, source, condition⟩ := join
  rw [Join.withAliases]
  dsimp only
  rw [withAliases_of_aliased used source h]
termination_by structural join

theorem joinsWithAliases_of_aliased (used : AliasSet) (joins : List Join)
    (h : HaveAliases (Source.joined joins)) : joinsWithAliases byName used joins = (joins, used) := by
  cases joins with
  | nil => rfl
  | cons join rest =>
    obtain ⟨hjoin, hrest⟩ := HaveAliases.append.mp h
    rw [joinsWithAliases]
    dsimp only
    rw [joinWithAliases_of_aliased used join hjoin, joinsWithAliases_of_aliased used rest hrest]
termination_by structural joins

end

theorem sourcesWithAliases_of_aliased (used : AliasSet) (sources : List Source)
    (h : HaveAliases (sources.flatMap Source.all)) :
    sourcesWithAliases byName used sources = (sources, used) := by
  induction sources with
  | nil => rfl
  | cons source rest ih =>
    rw [List.flatMap_cons] at h
    obtain ⟨hsource, hrest⟩ := HaveAliases.append.mp h
    rw [sourcesWithAliases]
    dsimp only
    rw [withAliases_of_aliased byName used source hsource, ih hrest]

end

namespace Store

variable {s s' : Store} {t : StatementRef} {q : QueryRef}

/-- Every source and every column of a query has an alias. -/
structure Aliased (s : Store) (q : QueryRef) : Prop where
  sources : HaveAliases (s.query q).allSources
  columns : ∀ c ∈ (s.query q).columns, (s.column c).aliasName.isSome = true

/-! ## All aliases of a statement -/

/-- The sources of a query have aliases when it gets some, and when another one does. -/
theorem aliased_aliasSourcesOf (byName : Bool) (used : AliasSet) (q r : QueryRef)
    (h : r = q ∨ HaveAliases (s.query r).allSources) :
    HaveAliases ((aliasSourcesOf byName (used, s) q).2.query r).allSources := by
  let names : Query → Query := fun query => { query with
    sources := (sourcesWithAliases (byName && !(s.query q).isMultiTable &&
      (s.query q).sources.length == 1) used (s.query q).sources).1 }
  change HaveAliases ((s.modifyQuery q names).query r).allSources
  have hnamed := aliased_sourcesWithAliases (byName && !(s.query q).isMultiTable &&
      (s.query q).sources.length == 1) used (s.query q).sources
  rcases query_modifyQuery s q r names with ⟨rfl, hquery⟩ | hquery
  · rw [hquery]
    exact hnamed
  · rw [hquery]
    refine h.elim (fun hrq => ?_) id
    subst hrq
    by_cases hsize : r.index < s.queries.size
    · rw [query_modifyQuery_self hsize] at hquery
      rw [← hquery]
      exact hnamed
    · rw [query_of_le (Nat.le_of_not_lt hsize)]
      exact fun _ h => by cases h

theorem aliased_aliasSources (s : Store) (queries : List QueryRef) (root : QueryRef)
    (rootByName : Bool) :
    ∀ q ∈ queries,
      HaveAliases ((s.aliasSources queries root rootByName).query q).allSources := by
  have hfold : ∀ (rest : List QueryRef) (state : AliasSet × Store) (q : QueryRef),
      q ∈ rest ∨ HaveAliases (state.2.query q).allSources →
        HaveAliases ((rest.foldl
          (fun state q => aliasSourcesOf (rootByName && q == root) state q) state).2.query
            q).allSources := by
    intro rest
    induction rest with
    | nil => exact fun _ _ h => h.resolve_left (by simp)
    | cons r rest ih =>
      rintro ⟨used, s'⟩ q h
      refine ih _ q ?_
      rcases h with h | h
      · rcases List.mem_cons.mp h with rfl | h
        · exact .inr (aliased_aliasSourcesOf _ used q q (.inl rfl))
        · exact .inl h
      · exact .inr (aliased_aliasSourcesOf _ used r q (.inr h))
  exact fun q hq => hfold queries (s.sourceAliases queries, s) q (.inl hq)

/-- After aliases have been given out, the sources of a statement have theirs. -/
theorem haveAliases_finalizeAliases (hq : q ∈ s.statementQueries t) :
    HaveAliases ((s.finalizeAliases t).query q).allSources := by
  rw [(namesColumns_finalizeAliases s t).query]
  exact aliased_aliasSources s _ _ _ q hq

/-- After aliases have been given out, every query of a statement has all of them. -/
theorem aliased_finalizeAliases (hs : s.Owned) {q : QueryRef}
    (hq : (s.finalizeAliases t).Reaches t q) : (s.finalizeAliases t).Aliased q := by
  have hlisted : q ∈ s.statementQueries t := by
    rw [← statementQueries_finalizeAliases hs]
    exact mem_statementQueries.mpr hq
  refine ⟨haveAliases_finalizeAliases hlisted, fun c hc => ?_⟩
  rw [columns_finalizeAliases] at hc
  exact isSome_finalizeAliases s t hlisted hc (hs.valid q c hc)

/-! ## Aliases that are there -/

theorem aliasSourcesOf_of_aliased (byName : Bool) (used : AliasSet)
    (h : HaveAliases (s.query q).allSources) :
    aliasSourcesOf byName (used, s) q = (used, s) := by
  unfold aliasSourcesOf
  dsimp only
  rw [sourcesWithAliases_of_aliased _ used _ h, modifyQuery_eq_self rfl]

theorem modifyColumn_of_le {c : ColumnRef} {f : OutputColumn → OutputColumn}
    (h : s.columns.size ≤ c.index) : s.modifyColumn c f = s := by
  have hcolumns : s.columns.modify c.index f = s.columns := by
    refine Array.ext (by simp) fun i hi _ => ?_
    have hne : c.index ≠ i := by
      rw [Array.size_modify] at hi
      omega
    simp [Array.getElem_modify, hne]
  rw [modifyColumn, hcolumns]

/-- Where the columns of a query have aliases, none gets another one. -/
theorem aliasColumns_of_aliased (h : ∀ c ∈ (s.query q).columns, c.index < s.columns.size →
    (s.column c).aliasName.isSome = true) : s.aliasColumns q = s := by
  have hfold : ∀ (columns : List ColumnRef) (used : AliasSet), columns ⊆ (s.query q).columns →
      (columns.foldl aliasColumn (used, s)).2 = s := by
    intro columns
    induction columns with
    | nil => exact fun _ _ => rfl
    | cons c rest ih =>
      intro used hsubset
      obtain ⟨hc, hrest⟩ := List.cons_subset.mp hsubset
      have hkept : aliasColumn (used, s) c = ((aliasColumn (used, s) c).1, s) := by
        refine Prod.ext rfl ?_
        unfold aliasColumn
        dsimp only
        split
        · rfl
        · next hnone =>
          exact modifyColumn_of_le (Nat.le_of_not_lt fun hvalid => hnone (h c hc hvalid))
      rw [List.foldl_cons, hkept]
      exact ih _ hrest
  exact hfold _ _ (List.Subset.refl _)

/-- Where all sources and columns of a statement have aliases, giving them out changes nothing. -/
theorem finalizeAliases_eq_self
    (hsources : ∀ q ∈ s.statementQueries t, HaveAliases (s.query q).allSources)
    (hcolumns : ∀ q ∈ s.statementQueries t, ∀ c ∈ (s.query q).columns, c.index < s.columns.size →
      (s.column c).aliasName.isSome = true) : s.finalizeAliases t = s := by
  have hsources' : ∀ (queries : List QueryRef) (used : AliasSet) (root : QueryRef)
      (rootByName : Bool), queries ⊆ s.statementQueries t → queries.foldl
        (fun state q => aliasSourcesOf (rootByName && q == root) state q) (used, s) = (used, s) := by
    intro queries used root rootByName hsubset
    induction queries with
    | nil => rfl
    | cons q rest ih =>
      obtain ⟨hq, hrest⟩ := List.cons_subset.mp hsubset
      rw [List.foldl_cons, aliasSourcesOf_of_aliased _ used (hsources q hq), ih hrest]
  have hcolumns' : ∀ queries : List QueryRef, queries ⊆ s.statementQueries t →
      queries.foldl aliasColumns s = s := by
    intro queries hsubset
    induction queries with
    | nil => rfl
    | cons q rest ih =>
      obtain ⟨hq, hrest⟩ := List.cons_subset.mp hsubset
      rw [List.foldl_cons, aliasColumns_of_aliased (hcolumns q hq), ih hrest]
  unfold finalizeAliases aliasSources
  dsimp only
  rw [hsources' _ _ _ _ (List.Subset.refl _)]
  exact hcolumns' _ fun q hq => List.mem_reverse.mp hq

/-- Where every query of a statement has all aliases, giving them out changes nothing. -/
theorem finalizeAliases_of_aliased (h : ∀ q, s.Reaches t q → s.Aliased q) :
    s.finalizeAliases t = s := by
  have haliased : ∀ q ∈ s.statementQueries t, s.Aliased q := fun q hq =>
    h q (mem_statementQueries.mp hq)
  exact finalizeAliases_eq_self (fun q hq => (haliased q hq).sources)
    fun q hq c hc _ => (haliased q hq).columns c hc

end Store

end SqlCompiler
