import SqlCompiler.Legalize.Statement
import SqlCompiler.Proofs.Columns.FreeNames
import SqlCompiler.Proofs.Columns.Ownership

/-!
# Sources and columns get aliases

When sources get aliases, what they read and how they are joined stays, and so do the queries that a
statement leads to.  Each column without an alias gets one that no other column of its query has.  A
column that has an alias keeps it, also if another one has the same, so that two columns of a query
clash after all have aliases if and only if they did before.

Main results:

- Definition `Store.NamesSources`: sources have got aliases, and nothing else has changed.
- Theorem `Store.namesSources_aliasSources`: so it is when all sources of a statement do.
- Theorem `Store.statementQueries_congr`: the queries of a statement are found by what their parts
  read.
- Definition `Store.Clash`: two columns have the same alias, in any case.
- Definition `Store.LabelsAmong`, Theorem `Store.labelsAmong_aliasColumns`: columns of a query have got
  aliases, and no two have come to clash.
- Definition `Store.Labels`: the same of all queries, each of which has columns of its own.
- Theorem `Store.clash_finalizeAliases`: and when all columns of a statement do.
-/

namespace SqlCompiler

/-! ## Sources get aliases -/

/-- What a source reads and the conditions of its own joins. -/
def Source.content (source : Source) : SourceItem × List Condition :=
  (source.item, source.joins.map (·.condition))

section

variable (byName : Bool)

mutual

theorem Source.content_withAliases (used : AliasSet) (source : Source) :
    (source.withAliases byName used).1.all.map Source.content = source.all.map Source.content := by
  obtain ⟨item, aliasName, joins⟩ := source
  have hsource (used : AliasSet) (aliasName aliasName' : Option String) :
      (Source.all ⟨item, aliasName', (joinsWithAliases byName used joins).1⟩).map Source.content =
        (Source.all ⟨item, aliasName, joins⟩).map Source.content := by
    obtain ⟨hjoined, hconditions⟩ := content_joinsWithAliases used joins
    rw [Source.all, Source.all, List.map_cons, List.map_cons, hjoined, Source.content,
      Source.content, hconditions]
  unfold Source.withAliases
  dsimp only
  split
  · exact hsource _ _ _
  · split <;> exact hsource _ _ _
termination_by structural source

theorem content_joinWithAliases (used : AliasSet) (join : Join) :
    (Source.ofJoin (join.withAliases byName used).1).map Source.content =
        (Source.ofJoin join).map Source.content ∧
      (join.withAliases byName used).1.condition = join.condition := by
  obtain ⟨kind, source, condition⟩ := join
  exact ⟨Source.content_withAliases used source, rfl⟩
termination_by structural join

theorem content_joinsWithAliases (used : AliasSet) (joins : List Join) :
    (Source.joined (joinsWithAliases byName used joins).1).map Source.content =
        (Source.joined joins).map Source.content ∧
      (joinsWithAliases byName used joins).1.map (·.condition) = joins.map (·.condition) := by
  cases joins with
  | nil => exact ⟨rfl, rfl⟩
  | cons join rest =>
    obtain ⟨hjoin, hcondition⟩ := content_joinWithAliases used join
    obtain ⟨hrest, hconditions⟩ := content_joinsWithAliases (join.withAliases byName used).2 rest
    constructor
    · rw [joinsWithAliases, Source.joined, Source.joined, List.map_append, List.map_append, hjoin,
        hrest]
    · rw [joinsWithAliases, List.map_cons, List.map_cons, hcondition, hconditions]
termination_by structural joins

end

theorem content_sourcesWithAliases (used : AliasSet) (sources : List Source) :
    (((sourcesWithAliases byName used sources).1.flatMap Source.all).map Source.content) =
      (sources.flatMap Source.all).map Source.content := by
  induction sources generalizing used with
  | nil => rfl
  | cons source rest ih =>
    rw [sourcesWithAliases, List.flatMap_cons, List.flatMap_cons, List.map_append,
      List.map_append, Source.content_withAliases, ih]

end

namespace Store

variable {s s' : Store} {q : QueryRef}

/-- Sources have got aliases: nothing else has changed. -/
structure NamesSources (s s' : Store) : Prop where
  content : s' = { s with queries := s'.queries }
  size : s'.queries.size = s.queries.size
  query : ∀ q, s'.query q = { s.query q with sources := (s'.query q).sources }
  sources : ∀ q, (s'.query q).allSources.map Source.content =
    (s.query q).allSources.map Source.content

theorem NamesSources.refl (s : Store) : s.NamesSources s := ⟨rfl, rfl, fun _ => rfl, fun _ => rfl⟩

theorem NamesSources.trans {s'' : Store} (h : s.NamesSources s') (h' : s'.NamesSources s'') :
    s.NamesSources s'' where
  content := by rw [h'.content, h.content]
  size := h'.size.trans h.size
  query q := by rw [h'.query, h.query]
  sources q := (h'.sources q).trans (h.sources q)

theorem namesSources_aliasSourcesOf (byName : Bool) (used : AliasSet) (s : Store) (q : QueryRef) :
    s.NamesSources (aliasSourcesOf byName (used, s) q).2 := by
  have hquery (r : QueryRef) := query_modifyQuery s q r fun query => { query with
    sources := (sourcesWithAliases (byName && !(s.query q).isMultiTable &&
      (s.query q).sources.length == 1) used (s.query q).sources).1 }
  refine ⟨rfl, size_modifyQuery, fun r => ?_, fun r => ?_⟩
  · rcases hquery r with ⟨rfl, h⟩ | h
    · exact h.trans (by rw [aliasSourcesOf]; dsimp only; rw [h])
    · exact h.trans (by rw [aliasSourcesOf]; dsimp only; rw [h])
  · rcases hquery r with ⟨rfl, h⟩ | h
    · exact (congrArg (fun query => query.allSources.map Source.content) h).trans
        (content_sourcesWithAliases _ used _)
    · exact congrArg (fun query => query.allSources.map Source.content) h

theorem namesSources_aliasSources (s : Store) (queries : List QueryRef) (root : QueryRef)
    (rootByName : Bool) : s.NamesSources (s.aliasSources queries root rootByName) := by
  have hfold : ∀ (queries : List QueryRef) (state : AliasSet × Store),
      state.2.NamesSources (queries.foldl
        (fun state q => aliasSourcesOf (rootByName && q == root) state q) state).2 := by
    intro queries
    induction queries with
    | nil => exact fun state => .refl _
    | cons q rest ih =>
      exact fun (used, s) => (namesSources_aliasSourcesOf _ used s q).trans (ih _)
  exact hfold queries (s.sourceAliases queries, s)

/-! ## Queries that are read -/

/-- The scalars of some sources, and what common table expressions they read, depend on what they
read. -/
theorem sources_congr {sources sources' : List Source}
    (h : sources'.map Source.content = sources.map Source.content) (s : Store) :
    sources'.flatMap Source.walk = sources.flatMap Source.walk ∧
      sources'.filterMap s.cteBody? = sources.filterMap s.cteBody? := by
  have hsource (source : Source) : source.walk =
      ((Source.query? ⟨source.content.1, none, []⟩).map Scalar.query).toList ++
        source.content.2.flatMap Condition.walk := by
    rw [Source.walk, Source.content, List.flatMap_map]
    rfl
  have hwalk (sources : List Source) : sources.flatMap Source.walk =
      (sources.map Source.content).flatMap fun content =>
        ((Source.query? ⟨content.1, none, []⟩).map Scalar.query).toList ++
          content.2.flatMap Condition.walk := by
    rw [List.flatMap_map, funext hsource]
  have hcte (sources : List Source) : sources.filterMap s.cteBody? =
      (sources.map Source.content).filterMap fun content =>
        s.cteBody? ⟨content.1, none, []⟩ := by
    rw [List.filterMap_map]
    rfl
  rw [hwalk, hwalk sources, hcte, hcte sources, h]
  exact ⟨rfl, rfl⟩

/-- The queries of a statement are found by the scalars of queries and the tables of their
sources. -/
theorem statementQueries_congr (hwalk : ∀ q, s'.walkQuery q = s.walkQuery q)
    (hcte : ∀ q, (s'.query q).allSources.filterMap s'.cteBody? =
      (s.query q).allSources.filterMap s.cteBody?)
    (hsize : s'.queries.size = s.queries.size) (hstatements : s'.statements = s.statements)
    (hctes : s'.ctes = s.ctes) (t : StatementRef) :
    s'.statementQueries t = s.statementQueries t := by
  have hsuccessors : s'.successors = s.successors := by
    funext q
    rw [successors, successors, hwalk, hcte]
  have hreach : ∀ (fuel : Nat) (seen pending : List QueryRef),
      s'.reachFrom fuel seen pending = s.reachFrom fuel seen pending := by
    intro fuel
    induction fuel with
    | zero => exact fun _ _ => by rw [reachFrom, reachFrom]
    | succ fuel ih =>
      intro seen pending
      cases pending with
      | nil => rfl
      | cons q pending => rw [reachFrom, reachFrom, hsuccessors, ih, ih]
  have hreferences : s'.queryReferences = s.queryReferences := by
    rw [queryReferences, queryReferences, hsize, hsuccessors]
  have hroots : s'.rootQueries (s'.statement t) = s.rootQueries (s.statement t) := by
    have hcteEq : s'.cte = s.cte := by
      funext c
      rw [cte, cte, hctes]
    rw [rootQueries, rootQueries, hcteEq, statement, statement, hstatements]
  rw [statementQueries, statementQueries, hroots, hreferences, hreach]

/-- When sources get aliases, the queries of a statement stay. -/
theorem NamesSources.statementQueries (h : s.NamesSources s') (t : StatementRef) :
    s'.statementQueries t = s.statementQueries t := by
  have hcolumn : s'.column = s.column := by rw [h.content]; rfl
  have hsources (q : QueryRef) := sources_congr (h.sources q) s
  refine statementQueries_congr (fun q => ?_) (fun q => ?_) h.size (by rw [h.content])
    (by rw [h.content]) t
  · rw [walkQuery, walkQuery, (hsources q).1, hcolumn, h.query q]
  · have hcte : s'.cteBody? = s.cteBody? := by rw [h.content]; rfl
    rw [hcte, (hsources q).2]

end Store

/-! ## Columns that clash -/

namespace Store

variable {s s' s'' : Store} {q : QueryRef} {c d : ColumnRef} {used : AliasSet}

/-- Two columns have the same alias, in any case. -/
def Clash (s : Store) (c d : ColumnRef) : Prop :=
  ∃ a b, (s.column c).aliasName = some a ∧ (s.column d).aliasName = some b ∧
    Text.lower a = Text.lower b

theorem Clash.symm (h : s.Clash c d) : s.Clash d c := by
  obtain ⟨a, b, hc, hd, hsame⟩ := h
  exact ⟨b, a, hd, hc, hsame.symm⟩

theorem clash_congr (hc : (s'.column c).aliasName = (s.column c).aliasName)
    (hd : (s'.column d).aliasName = (s.column d).aliasName) : s'.Clash c d ↔ s.Clash c d := by
  rw [Clash, Clash, hc, hd]

/-- Columns have got aliases: nothing else has changed, and the aliases that were there are kept. -/
structure NamesColumns (s s' : Store) : Prop where
  content : s' = { s with columns := s'.columns }
  size : s'.columns.size = s.columns.size
  column : ∀ c, s'.column c = { s.column c with aliasName := (s'.column c).aliasName }
  kept : ∀ c a, (s.column c).aliasName = some a → (s'.column c).aliasName = some a

namespace NamesColumns

theorem refl (s : Store) : s.NamesColumns s := ⟨rfl, rfl, fun _ => rfl, fun _ _ => id⟩

theorem query (h : s.NamesColumns s') (q : QueryRef) : s'.query q = s.query q := by
  rw [h.content]
  rfl

theorem parent (h : s.NamesColumns s') (c : ColumnRef) :
    (s'.column c).parent = (s.column c).parent := by
  rw [h.column]

theorem expression (h : s.NamesColumns s') (c : ColumnRef) :
    (s'.column c).expression = (s.column c).expression := by
  rw [h.column]

theorem trans (h : s.NamesColumns s') (h' : s'.NamesColumns s'') : s.NamesColumns s'' where
  content := by
    rw [h'.content, h.content]
  size := h'.size.trans h.size
  column c := by
    rw [h'.column, h.column]
  kept c a ha := h'.kept c a (h.kept c a ha)

theorem isSome (h : s.NamesColumns s') (hc : (s.column c).aliasName.isSome = true) :
    (s'.column c).aliasName.isSome = true := by
  obtain ⟨a, ha⟩ := Option.isSome_iff_exists.mp hc
  rw [h.kept c a ha]
  rfl

theorem clash (h : s.NamesColumns s') (hclash : s.Clash c d) : s'.Clash c d := by
  obtain ⟨a, b, hc, hd, hsame⟩ := hclash
  exact ⟨a, b, h.kept c a hc, h.kept d b hd, hsame⟩

/-- When columns get aliases, the queries of a statement stay. -/
theorem statementQueries (h : s.NamesColumns s') (t : StatementRef) :
    s'.statementQueries t = s.statementQueries t := by
  have hexpression := h.expression
  have hcte : s'.cteBody? = s.cteBody? := by rw [h.content]; rfl
  refine statementQueries_congr (fun q => ?_) (fun q => ?_) (by rw [h.content]) (by rw [h.content])
    (by rw [h.content]) t
  · rw [walkQuery, walkQuery, h.query]
    simp only [hexpression]
  · rw [h.query, hcte]

end NamesColumns

/-! ## The columns of a query -/

/-- Some of the columns of a query have got aliases, and no two of its columns have come to clash. -/
structure LabelsAmong (columns given : List ColumnRef) (s s' : Store) : Prop
    extends NamesColumns s s' where
  others : ∀ c ∉ given, s'.column c = s.column c
  given : ∀ c ∈ given, c.index < s.columns.size → (s'.column c).aliasName.isSome = true
  no_clash : ∀ c ∈ columns, ∀ d ∈ columns, c ≠ d → s'.Clash c d → s.Clash c d

section

variable {columns xs ys : List ColumnRef}

theorem LabelsAmong.refl (columns : List ColumnRef) (s : Store) : LabelsAmong columns [] s s :=
  ⟨.refl s, fun _ _ => rfl, (fun _ h => by cases h), fun _ _ _ _ _ => id⟩

theorem LabelsAmong.trans (h : LabelsAmong columns xs s s') (h' : LabelsAmong columns ys s' s'') :
    LabelsAmong columns (xs ++ ys) s s'' where
  toNamesColumns := h.toNamesColumns.trans h'.toNamesColumns
  others c hc := by
    rw [List.mem_append, not_or] at hc
    rw [h'.others c hc.2, h.others c hc.1]
  given c hc hvalid := by
    rcases List.mem_append.mp hc with hc | hc
    · exact h'.isSome (h.given c hc hvalid)
    · exact h'.given c hc (h.size ▸ hvalid)
  no_clash c hc d hd hne hclash := h.no_clash c hc d hd hne (h'.no_clash c hc d hd hne hclash)

/-- The aliases of some columns are in use. -/
def InUse (used : AliasSet) (columns : List ColumnRef) (s : Store) : Prop :=
  ∀ c ∈ columns, ∀ a, (s.column c).aliasName = some a → used.contains a = true

theorem column_modifyColumn_self {f : OutputColumn → OutputColumn} (h : c.index < s.columns.size) :
    (s.modifyColumn c f).column c = f (s.column c) := by
  simp [modifyColumn, column, Array.getElem?_modify, Array.getElem?_eq_getElem h]

theorem column_modifyColumn_ne {f : OutputColumn → OutputColumn} (h : d ≠ c) :
    (s.modifyColumn c f).column d = s.column d := by
  have hindex : c.index ≠ d.index := fun heq => h (by cases c; cases d; simp_all)
  simp [modifyColumn, column, Array.getElem?_modify, hindex]

theorem column_of_le (h : s.columns.size ≤ c.index) : s.column c = default := by
  rw [column, Array.getElem?_eq_none h, Option.getD_none]

/-- A column without an alias gets one that no column of its query has. -/
theorem labelsAmong_modifyColumn (columns : List ColumnRef) {name : String}
    (hnone : (s.column c).aliasName = none)
    (hfree : ∀ d ∈ columns, ∀ a, (s.column d).aliasName = some a → Text.lower a ≠ Text.lower name) :
    LabelsAmong columns [c] s
      (s.modifyColumn c fun column => { column with aliasName := some name }) := by
  let named := s.modifyColumn c fun column => { column with aliasName := some name }
  have hne : ∀ {d}, d ≠ c → named.column d = s.column d := column_modifyColumn_ne
  -- whatever the column has now, it is new or the column is not in the store
  have hself : named.column c = s.column c ∨
      named.column c = { s.column c with aliasName := some name } :=
    column_modifyColumn s c c _
  have hself_clash : ∀ d ∈ columns, d ≠ c → ¬named.Clash c d := by
    rintro d hd hdc ⟨a, b, ha, hb, hsame⟩
    rw [hne hdc] at hb
    rcases hself with hc | hc
    · rw [hc, hnone] at ha
      cases ha
    · rw [hc] at ha
      cases ha
      exact hfree d hd b hb hsame.symm
  refine ⟨⟨rfl, by simp [modifyColumn], fun d => ?_, fun d a ha => ?_⟩, fun d hd => ?_,
    fun d hd hvalid => ?_, fun d hd e he hde hclash => ?_⟩
  · by_cases hd : d = c
    · subst hd
      rcases hself with h | h <;> exact h ▸ rfl
    · exact hne hd ▸ rfl
  · by_cases hd : d = c
    · rw [hd, hnone] at ha
      cases ha
    · exact (congrArg _ (hne hd)).trans ha
  · exact hne fun h => hd (List.mem_singleton.mpr h)
  · obtain rfl := List.mem_singleton.mp hd
    rw [column_modifyColumn_self hvalid]
    rfl
  · by_cases hdc : d = c
    · subst hdc
      exact (hself_clash e he hde.symm hclash).elim
    · by_cases hec : e = c
      · subst hec
        exact (hself_clash d hd hdc hclash.symm).elim
      · exact (clash_congr (by rw [hne hdc]) (by rw [hne hec])).mp hclash

/-- Giving an alias to a column of a query keeps track of the names in use. -/
theorem labelsAmong_aliasColumn (hinuse : InUse used columns s) (c : ColumnRef) :
    LabelsAmong columns [c] s (aliasColumn (used, s) c).2 ∧
      InUse (aliasColumn (used, s) c).1 columns (aliasColumn (used, s) c).2 := by
  unfold aliasColumn
  dsimp only
  split
  · next hsome =>
    refine ⟨⟨.refl s, fun _ _ => rfl, fun d hd _ => ?_, fun _ _ _ _ _ => id⟩, hinuse⟩
    rwa [List.mem_singleton.mp hd]
  · next hsome =>
    have hnone : (s.column c).aliasName = none := by simpa using hsome
    have hnew := contains_columnAlias used (s.naturalName? (s.column c).expression)
    have hlabels := labelsAmong_modifyColumn columns hnone fun d hd a ha =>
      used.lower_ne (hinuse d hd a ha) hnew
    refine ⟨hlabels, fun d hd a ha => ?_⟩
    rw [columnAlias_snd, AliasSet.contains_add]
    by_cases hdc : d = c
    · subst hdc
      rcases column_modifyColumn s d d _ with h | h
      · rw [h, hnone] at ha
        cases ha
      · rw [h] at ha
        cases ha
        exact .inl rfl
    · rw [column_modifyColumn_ne hdc] at ha
      exact .inr (hinuse d hd a ha)

/-- The names in use at first are those of the columns that have one. -/
theorem inUse_foldl (s : Store) (columns : List ColumnRef) :
    InUse (columns.foldl (fun used c => ((s.column c).aliasName.map used.add).getD used) {})
      columns s := by
  intro c hc a ha
  have hfold := AliasSet.contains_foldl_add {} a (columns.map fun c => (s.column c).aliasName)
  rw [List.foldl_map] at hfold
  exact hfold.mpr (.inl ⟨a, List.mem_map.mpr ⟨c, hc, ha⟩, rfl⟩)

end

/-- When the columns of a query get aliases, no two come to clash. -/
theorem labelsAmong_aliasColumns (s : Store) (q : QueryRef) :
    LabelsAmong (s.query q).columns (s.query q).columns s (s.aliasColumns q) := by
  have hfold : ∀ (rest columns : List ColumnRef) (used : AliasSet) (s' : Store),
      InUse used columns s' → LabelsAmong columns rest s' (rest.foldl aliasColumn (used, s')).2 := by
    intro rest columns
    induction rest with
    | nil => exact fun _ s' _ => .refl columns s'
    | cons c rest ih =>
      intro used s' hinuse
      obtain ⟨hstep, hinuse'⟩ := labelsAmong_aliasColumn hinuse c
      exact hstep.trans (ih _ _ hinuse')
  exact hfold _ _ _ s (inUse_foldl s _)

/-! ## Columns of their own -/

/-- Columns have got aliases: nothing else has changed, and two columns of a query clash if and only
if they did. -/
structure Labels (s s' : Store) : Prop extends NamesColumns s s' where
  clash_iff : ∀ q, ∀ c ∈ (s.query q).columns, ∀ d ∈ (s.query q).columns, c ≠ d →
    (s'.Clash c d ↔ s.Clash c d)

namespace Labels

theorem refl (s : Store) : s.Labels s := ⟨.refl s, fun _ _ _ _ _ _ => .rfl⟩

theorem trans (h : s.Labels s') (h' : s'.Labels s'') : s.Labels s'' where
  toNamesColumns := h.toNamesColumns.trans h'.toNamesColumns
  clash_iff q c hc d hd hne := by
    have hclash := h'.clash_iff q c (by rwa [h.query]) d (by rwa [h.query]) hne
    exact hclash.trans (h.clash_iff q c hc d hd hne)

theorem owned (h : s.Labels s') (hs : s.Owned) : s'.Owned where
  valid q c hc := by
    rw [h.query] at hc
    rw [h.size]
    exact hs.valid q c hc
  parent q c hc := by
    rw [h.query] at hc
    rw [h.parent]
    exact hs.parent q c hc
  nodup q := by
    rw [h.query]
    exact hs.nodup q

end Labels

/-- When the columns of a query get aliases, no two come to clash; other queries have other columns. -/
theorem labels_aliasColumns (hs : s.Owned) (q : QueryRef) : s.Labels (s.aliasColumns q) := by
  have hlabels := labelsAmong_aliasColumns s q
  refine ⟨hlabels.toNamesColumns, fun r c hc d hd hne => ⟨fun hclash => ?_, hlabels.clash⟩⟩
  by_cases hrq : r = q
  · subst hrq
    exact hlabels.no_clash c hc d hd hne hclash
  · have hother : ∀ e ∈ (s.query r).columns, (s.aliasColumns q).column e = s.column e := fun e he =>
      hlabels.others e fun heq => hrq ((hs.parent r e he).symm.trans (hs.parent q e heq))
    exact (clash_congr (by rw [hother c hc]) (by rw [hother d hd])).mp hclash

/-! ## The columns of a statement -/

/-- When the columns of some queries get aliases, those that are not listed stay, and those that are
have one then. -/
theorem namesColumns_foldl (s : Store) (queries : List QueryRef) :
    s.NamesColumns (queries.foldl aliasColumns s) ∧
      (∀ c, (∀ q ∈ queries, c ∉ (s.query q).columns) →
        (queries.foldl aliasColumns s).column c = s.column c) ∧
      ∀ q ∈ queries, ∀ c ∈ (s.query q).columns, c.index < s.columns.size →
        ((queries.foldl aliasColumns s).column c).aliasName.isSome = true := by
  induction queries generalizing s with
  | nil => exact ⟨.refl s, fun _ _ => rfl, fun _ h => by cases h⟩
  | cons q rest ih =>
    have hlabels := labelsAmong_aliasColumns s q
    obtain ⟨hnames, hothers, hsome⟩ := ih (s.aliasColumns q)
    refine ⟨hlabels.toNamesColumns.trans hnames, fun c hc => ?_, fun r hr c hc hvalid => ?_⟩
    · obtain ⟨hq, hrest⟩ := List.forall_mem_cons.mp hc
      rw [List.foldl_cons, hothers c fun r hr => by rw [hlabels.query]; exact hrest r hr,
        hlabels.others c hq]
    · rcases List.mem_cons.mp hr with rfl | hr
      · exact hnames.isSome (hlabels.given c hc hvalid)
      · exact hsome r hr c (by rwa [hlabels.query]) (hlabels.size ▸ hvalid)

/-- When the columns of some queries get aliases, no two of one query come to clash. -/
theorem labels_foldl_aliasColumns (hs : s.Owned) (queries : List QueryRef) :
    s.Labels (queries.foldl aliasColumns s) := by
  induction queries generalizing s with
  | nil => exact .refl s
  | cons q rest ih =>
    have hlabels := labels_aliasColumns hs q
    exact hlabels.trans (ih (hlabels.owned hs))

/-- The store in which the sources of a statement have got aliases, and its columns get them next. -/
def withNamedSources (s : Store) (t : StatementRef) : Store :=
  s.aliasSources (s.statementQueries t) (s.statement t).query
    (namesTargetDirectly (s.statement t).body)

theorem finalizeAliases_eq (s : Store) (t : StatementRef) :
    s.finalizeAliases t =
      (s.statementQueries t).reverse.foldl aliasColumns (s.withNamedSources t) := rfl

section

variable (s) (t : StatementRef)

theorem namesSources_withNamedSources : s.NamesSources (s.withNamedSources t) :=
  namesSources_aliasSources s _ _ _

@[simp]
theorem column_withNamedSources (c : ColumnRef) : (s.withNamedSources t).column c = s.column c := by
  rw [(namesSources_withNamedSources s t).content]
  rfl

@[simp]
theorem size_withNamedSources : (s.withNamedSources t).columns.size = s.columns.size := by
  rw [(namesSources_withNamedSources s t).content]

@[simp]
theorem columns_withNamedSources (q : QueryRef) :
    ((s.withNamedSources t).query q).columns = (s.query q).columns := by
  rw [(namesSources_withNamedSources s t).query]

/-- Sources get aliases first, and then columns do. -/
theorem namesColumns_finalizeAliases : (s.withNamedSources t).NamesColumns (s.finalizeAliases t) :=
  (namesColumns_foldl _ _).1

/-- Aliases change nothing about which columns a query lists. -/
theorem columns_finalizeAliases (q : QueryRef) :
    ((s.finalizeAliases t).query q).columns = (s.query q).columns := by
  rw [(namesColumns_finalizeAliases s t).query, columns_withNamedSources]

/-- The columns of a statement have aliases in the end. -/
theorem isSome_finalizeAliases (hq : q ∈ s.statementQueries t) (hc : c ∈ (s.query q).columns)
    (hvalid : c.index < s.columns.size) :
    ((s.finalizeAliases t).column c).aliasName.isSome = true := by
  obtain ⟨-, -, hgiven⟩ := namesColumns_foldl (s.withNamedSources t) (s.statementQueries t).reverse
  exact hgiven q (List.mem_reverse.mpr hq) c (by simpa using hc) (by simpa using hvalid)

end

/-- Where queries have columns of their own, no two of one query come to clash. -/
theorem labels_finalizeAliases (hs : s.Owned) (t : StatementRef) :
    (s.withNamedSources t).Labels (s.finalizeAliases t) := by
  have howned : (s.withNamedSources t).Owned := hs.evolves <| .ofColumns
    (fun q => by rw [columns_withNamedSources]) (by simp)
    (fun c => by rw [column_withNamedSources]) fun c => by rw [column_withNamedSources]
  exact labels_foldl_aliasColumns howned _

/-- When aliases are given out, the queries of a statement stay. -/
theorem statementQueries_finalizeAliases (hs : s.Owned) (t : StatementRef) :
    (s.finalizeAliases t).statementQueries t = s.statementQueries t := by
  rw [(labels_finalizeAliases hs t).statementQueries,
    (namesSources_withNamedSources s t).statementQueries]

/-- Two columns of a query clash in a finished statement if and only if they did before aliases were
given out; every column of its queries has an alias. -/
theorem clash_finalizeAliases (hs : s.Owned) (t : StatementRef) :
    ∀ q ∈ (s.finalizeAliases t).statementQueries t,
      ((s.finalizeAliases t).query q).columns = (s.query q).columns ∧
        ∀ c ∈ (s.query q).columns, ((s.finalizeAliases t).column c).aliasName.isSome = true ∧
          ∀ d ∈ (s.query q).columns, c ≠ d →
            ((s.finalizeAliases t).Clash c d ↔ s.Clash c d) := by
  intro q hq
  rw [statementQueries_finalizeAliases hs] at hq
  refine ⟨columns_finalizeAliases s t q,
    fun c hc => ⟨isSome_finalizeAliases s t hq hc (hs.valid q c hc), fun d hd hne => ?_⟩⟩
  have hbefore : (s.withNamedSources t).Clash c d ↔ s.Clash c d := clash_congr (by simp) (by simp)
  exact ((labels_finalizeAliases hs t).clash_iff q c (by simpa using hc) d (by simpa using hd)
    hne).trans hbefore

end Store

end SqlCompiler
