import Mathlib.Data.List.Nodup
import SqlCompiler.Proofs.Idempotence.Modifications
import SqlCompiler.Proofs.Modifications.Combinations

/-!
# Inner joins as further sources

An update over inner joins is flattened: every source of the trees of its `FROM` clause stands in
the list, in the same order, and the conditions of the joins are moved to the `WHERE` clause, before
what it says itself.  No combination of rows is gained or lost.

Main results:

- Definition `Condition.SpeaksOf`, `Source.Scoped`: a condition of a join refers to the sources on
  its two sides, and to what is in view around the query.
- Theorem `Source.combined_flat`: the combinations of a tree of inner joins are those of its sources
  on which the conditions are true.
- Theorem `Store.flattenUpdate_qualifying`: a flattened update keeps the same combinations.
-/

namespace SqlCompiler

/-! ## Scopes of conditions -/

section

variable {V : Type} (R : Valuation V) (S : Scene V) (outer : Env V) (all : List SourceItem)

/-- Whether it depends on the rows of some of the sources only if a condition is true. -/
def Condition.SpeaksOf (visible : List SourceItem) (c : Condition) : Prop :=
  ∀ row row' : JoinedRow V, row.map (·.1) ⊆ all → row'.map (·.1) ⊆ all →
    (∀ item ∈ visible, row.lookup item = row'.lookup item) →
      S.holds R outer c row = S.holds R outer c row'

mutual

/-- Whether the conditions below a source speak of the sources on their two sides. -/
def Source.Scoped : Source → Prop
  | ⟨item, _, joins⟩ => joinsScoped joins [item]
termination_by structural source => source

/-- Whether the condition of a join to some sources, and those below, speak of the sources on their
two sides. -/
def Join.Scoped : Join → List SourceItem → Prop
  | ⟨_, source, condition⟩, items =>
    condition.SpeaksOf R S outer all (items ++ source.all.map (·.item)) ∧ source.Scoped
termination_by structural join => join

/-- Whether the conditions of joins to some sources speak of the sources on their two sides. -/
def joinsScoped : List Join → List SourceItem → Prop
  | [], _ => True
  | join :: rest, items =>
    join.Scoped items ∧ joinsScoped rest (items ++ (Source.ofJoin join).map (·.item))
termination_by structural joins => joins

end

/-- Whether all of some conditions are true on a combination. -/
def Scene.holdsAll (conditions : List Condition) (row : JoinedRow V) : Bool :=
  conditions.all fun c => S.holds R outer c row

end

section

variable {V : Type} {R : Valuation V} {S : Scene V} {outer : Env V} {all : List SourceItem}

theorem Condition.SpeaksOf.mono {visible visible' : List SourceItem} {c : Condition}
    (hvisible : visible ⊆ visible') (h : c.SpeaksOf R S outer all visible) :
    c.SpeaksOf R S outer all visible' :=
  fun row row' hrow hrow' hsame => h row row' hrow hrow' fun item hitem =>
    hsame item (hvisible hitem)

mutual

/-- The conditions below a source speak of its sources. -/
theorem Source.Scoped.speaksOf {c : Condition} (source : Source)
    (h : source.Scoped R S outer all) (hc : c ∈ Store.joinConditions source) :
    c.SpeaksOf R S outer all (source.all.map (·.item)) := by
  cases source with
  | mk item aliasName joins => exact joinsScoped_speaksOf joins [item] h hc
termination_by structural source

theorem Join.Scoped.speaksOf {c : Condition} (join : Join) (items : List SourceItem)
    (h : join.Scoped R S outer all items) (hc : c ∈ Store.conditionsOfJoin join) :
    c.SpeaksOf R S outer all (items ++ (Source.ofJoin join).map (·.item)) := by
  cases join with
  | mk kind source condition =>
    rcases List.mem_cons.mp hc with rfl | hc
    · exact h.1
    · exact (Source.Scoped.speaksOf source h.2 hc).mono (List.subset_append_right _ _)
termination_by structural join

theorem joinsScoped_speaksOf {c : Condition} (joins : List Join) (items : List SourceItem)
    (h : joinsScoped R S outer all joins items) (hc : c ∈ Store.conditionsOf joins) :
    c.SpeaksOf R S outer all (items ++ (Source.joined joins).map (·.item)) := by
  cases joins with
  | nil => cases hc
  | cons join rest =>
    rw [Source.joined, List.map_append, ← List.append_assoc]
    rcases List.mem_append.mp hc with hc | hc
    · exact (Join.Scoped.speaksOf join items h.1 hc).mono (List.subset_append_left _ _)
    · exact joinsScoped_speaksOf rest _ h.2 hc
termination_by structural joins

end

/-! ## References -/

/-- Whether a reference of an expression is to one of the sources that are visible, or to something
around the query.  A nested query has the same rows wherever those sources have. -/
def Scalar.RefersTo (R : Valuation V) (S : Scene V) (outer : Env V)
    (all visible : List SourceItem) : Scalar → Prop
  | .field f =>
    .table (S.store.field f).table ∈ visible ∨ .table (S.store.field f).table ∉ all
  | .allFields t | .tableSource t =>
    ∀ f ∈ (S.store.table t).fields,
      .table (S.store.field f).table ∈ visible ∨ .table (S.store.field f).table ∉ all
  | .column c =>
    .query (S.store.column c).parent ∈ visible ∨ .query (S.store.column c).parent ∉ all
  | .query q => ∀ row row' : JoinedRow V, row.map (·.1) ⊆ all → row'.map (·.1) ⊆ all →
      (∀ item ∈ visible, row.lookup item = row'.lookup item) →
        S.queryRows q (S.view R outer row') = S.queryRows q (S.view R outer row)
  | _ => True

theorem JoinedRow.read_eq {row row' : JoinedRow V} {visible : List SourceItem} {item : SourceItem}
    (hrow : row.map (·.1) ⊆ all) (hrow' : row'.map (·.1) ⊆ all)
    (hsame : ∀ item ∈ visible, row.lookup item = row'.lookup item)
    (h : item ∈ visible ∨ item ∉ all) (value : Env V → V) (around : V) :
    row'.read R item value around = row.read R item value around := by
  have hlookup : row'.lookup item = row.lookup item := by
    rcases h with h | h
    · exact (hsame item h).symm
    · have habsent (row : JoinedRow V) (hrow : row.map (·.1) ⊆ all) : row.lookup item = none :=
        JoinedRow.lookup_of_notMem fun hitem => h (hrow hitem)
      rw [habsent row hrow, habsent row' hrow']
  unfold JoinedRow.read
  rw [hlookup]

/-- A condition that refers to the visible sources only speaks of them. -/
theorem Condition.speaksOf_of_refersTo {c : Condition} {visible : List SourceItem}
    (h : ∀ p ∈ c.walk, p.RefersTo R S outer all visible) : c.SpeaksOf R S outer all visible := by
  intro row row' hrow hrow' hsame
  have hfield (f : FieldRef)
      (hf : .table (S.store.field f).table ∈ visible ∨ .table (S.store.field f).table ∉ all) :
      (S.view R outer row').field f = (S.view R outer row).field f :=
    JoinedRow.read_eq hrow hrow' hsame hf _ _
  have htruth : c.truthIn R (S.place (S.view R outer row')) =
      c.truthIn R (S.place (S.view R outer row)) := by
    apply Condition.truthIn_congr
    intro p hp
    have href := h p hp
    cases p with
    | field f => exact hfield f href
    | allFields t | tableSource t => exact List.map_congr_left fun f hf => hfield f (href f hf)
    | column c => exact JoinedRow.read_eq hrow hrow' hsame href _ _
    | query q => exact href row row' hrow hrow' hsame
    | _ => trivial
  rw [Scene.holds, Scene.holds, htruth]

/-! ## Conditions on parts of combinations -/

section

variable {conditions : List Condition} {visible : List SourceItem} {row row' : JoinedRow V}

/-- Conditions that speak of the same sources are true on combinations with the same rows there. -/
theorem holdsAll_congr (hspeak : ∀ c ∈ conditions, c.SpeaksOf R S outer all visible)
    (hrow : row.map (·.1) ⊆ all) (hrow' : row'.map (·.1) ⊆ all)
    (hsame : ∀ item ∈ visible, row.lookup item = row'.lookup item) :
    S.holdsAll R outer conditions row = S.holdsAll R outer conditions row' := by
  have hone (c : Condition) (hc : c ∈ conditions) :
      S.holds R outer c row = S.holds R outer c row' := hspeak c hc row row' hrow hrow' hsame
  rw [Bool.eq_iff_iff, Scene.holdsAll, Scene.holdsAll, List.all_eq_true, List.all_eq_true]
  apply forall₂_congr
  intro c hc
  rw [hone c hc]

/-- Both of two lists of conditions are tested. -/
theorem filter_holdsAll_append (conditions conditions' : List Condition)
    (rows : List (JoinedRow V)) :
    (rows.filter (S.holdsAll R outer conditions)).filter (S.holdsAll R outer conditions') =
      rows.filter (S.holdsAll R outer (conditions ++ conditions')) := by
  rw [List.filter_filter]
  apply List.filter_congr
  intro row _
  rw [Scene.holdsAll, Scene.holdsAll, Scene.holdsAll, List.all_append, Bool.and_comm]

variable {rows rows' : List (JoinedRow V)} {items items' : List SourceItem}
  (hrows : ∀ row ∈ rows, row.map (·.1) = items) (hrows' : ∀ row ∈ rows', row.map (·.1) = items')
  (hall : items ++ items' ⊆ all)
include hrows hrows'

theorem items_crossed : ∀ row ∈ crossed rows rows', row.map (·.1) = items ++ items' := by
  intro row hrow
  obtain ⟨x, hx, y, hy, rfl⟩ := mem_crossed.mp hrow
  rw [List.map_append, hrows x hx, hrows' y hy]

include hall

/-- Conditions that speak of the left parts of combinations may be tested before or after. -/
theorem crossed_filter_left (hspeak : ∀ c ∈ conditions, c.SpeaksOf R S outer all items) :
    crossed (rows.filter (S.holdsAll R outer conditions)) rows' =
      (crossed rows rows').filter (S.holdsAll R outer conditions) := by
  apply (filter_crossed_left _).symm
  intro x hx y hy
  have hmem : x ++ y ∈ crossed rows rows' := mem_crossed.mpr ⟨x, hx, y, hy, rfl⟩
  have hitems := items_crossed hrows hrows' _ hmem
  apply holdsAll_congr hspeak
  · rw [hitems]
    exact hall
  · rw [hrows x hx]
    exact (List.append_subset.mp hall).1
  · intro item hitem
    exact lookup_append_left (by rwa [hrows x hx])

/-- Conditions that speak of the right parts of combinations may be tested before or after. -/
theorem crossed_filter_right (hspeak : ∀ c ∈ conditions, c.SpeaksOf R S outer all items')
    (hnodup : (items ++ items').Nodup) :
    crossed rows (rows'.filter (S.holdsAll R outer conditions)) =
      (crossed rows rows').filter (S.holdsAll R outer conditions) := by
  apply (filter_crossed_right _).symm
  intro x hx y hy
  have hmem : x ++ y ∈ crossed rows rows' := mem_crossed.mpr ⟨x, hx, y, hy, rfl⟩
  have hitems := items_crossed hrows hrows' _ hmem
  apply holdsAll_congr hspeak
  · rw [hitems]
    exact hall
  · rw [hrows' y hy]
    exact (List.append_subset.mp hall).2
  · intro item hitem
    apply lookup_append_right
    rw [hrows x hx]
    exact fun hleft => List.disjoint_of_nodup_append hnodup hleft hitem

end

/-! ## Inner joins -/

/-- Sources without joins stand for themselves. -/
theorem flatMap_all_eq_self {sources : List Source} (hjoins : ∀ x ∈ sources, x.joins = []) :
    sources.flatMap Source.all = sources := by
  have hself (x : Source) (hx : x ∈ sources) : x.all = [x] := by
    have hnil := hjoins x hx
    cases x with
    | mk item aliasName joins =>
      cases hnil
      rfl
  rw [List.flatMap_congr hself]
  simp

/-- The combinations of sources without joins have one row of each. -/
theorem items_combinedSources {sources : List Source} (hjoins : ∀ x ∈ sources, x.joins = [])
    {row : JoinedRow V} (hrow : row ∈ combinedSources R S sources outer) :
    row.map (·.1) = sources.map (·.item) := by
  rw [(combines_sources hrow).items, flatMap_all_eq_self hjoins]

/-- The rows of an inner join that are put together. -/
theorem joinRows_inner {test : JoinedRow V → JoinedRow V → Bool} (left right : List (JoinedRow V))
    (absent absent' : JoinedRow V) :
    (joinRows .inner test left right).map (fun (a, b) => a.getD absent ++ b.getD absent') =
      left.flatMap fun a => (right.filter (test a)).map (a ++ ·) := by
  have hmatched (a : JoinedRow V) : matchedRows .inner test right a =
      (right.filter (test a)).map fun b => (some a, some b) := by
    simp [matchedRows, JoinKind.keepsLeft]
  have hnone : unmatchedRows .inner test left right = [] := rfl
  simp only [joinRows, hmatched, hnone, List.append_nil, List.map_flatMap, List.map_map]
  rfl

/-- An inner join keeps the combinations on which its condition is true. -/
theorem Join.combined_inner (source : Source) (condition : Condition) (items : List SourceItem)
    (rows : List (JoinedRow V)) :
    (Join.mk .inner source condition).combined R S outer items rows =
      (crossed rows (source.combined R S outer)).filter (S.holds R outer condition) := by
  rw [Join.combined, crossed, List.filter_flatMap]
  simp only [JoinKind.isApply, Bool.false_eq_true, if_false]
  rw [joinRows_inner]
  simp only [List.filter_map, Function.comp_def]

theorem flatSources_joins {source x : Source} (hx : x ∈ Store.flatSources source) :
    x.joins = [] := by
  rw [Store.flatSources_eq] at hx
  obtain ⟨_, -, rfl⟩ := List.mem_map.mp hx
  rfl

theorem items_flatSources (source : Source) :
    (Store.flatSources source).map (·.item) = source.all.map (·.item) := by
  rw [Store.flatSources_eq, List.map_map]
  rfl

theorem flatJoined_joins {joins : List Join} {x : Source} (hx : x ∈ Store.flatJoined joins) :
    x.joins = [] := by
  rw [Store.flatJoined_eq] at hx
  obtain ⟨_, -, rfl⟩ := List.mem_map.mp hx
  rfl

theorem items_flatJoined (joins : List Join) :
    (Store.flatJoined joins).map (·.item) = (Source.joined joins).map (·.item) := by
  rw [Store.flatJoined_eq, List.map_map]
  rfl

theorem items_of_mem_flatSources (R : Valuation V) (S : Scene V) (outer : Env V)
    (source : Source) :
    ∀ row ∈ combinedSources R S (Store.flatSources source) outer,
      row.map (·.1) = source.all.map (·.item) := by
  intro row hrow
  rw [items_combinedSources (fun x hx => flatSources_joins hx) hrow, items_flatSources]

theorem items_of_mem_flatJoined (joins : List Join) :
    ∀ row ∈ combinedSources R S (Store.flatJoined joins) outer,
      row.map (·.1) = (Source.joined joins).map (·.item) := by
  intro row hrow
  rw [items_combinedSources (fun x hx => flatJoined_joins hx) hrow, items_flatJoined]

/-- An inner join to a tree whose conditions are tested on the whole combination. -/
theorem Join.combined_flat {source : Source} {items : List SourceItem}
    {rows : List (JoinedRow V)} (condition : Condition) (hscoped : source.Scoped R S outer all)
    (hrows : ∀ row ∈ rows, row.map (·.1) = items)
    (hnodup : (items ++ source.all.map (·.item)).Nodup)
    (hall : items ++ source.all.map (·.item) ⊆ all)
    (hsource : source.combined R S outer =
      (combinedSources R S (Store.flatSources source) outer).filter
        (S.holdsAll R outer (Store.joinConditions source))) :
    (Join.mk .inner source condition).combined R S outer items rows =
      (crossed rows (combinedSources R S (Store.flatSources source) outer)).filter
        (S.holdsAll R outer (condition :: Store.joinConditions source)) := by
  have hspeak (c : Condition) (hc : c ∈ Store.joinConditions source) :=
    Source.Scoped.speaksOf source hscoped hc
  rw [Join.combined_inner, hsource, crossed_filter_right hrows (items_of_mem_flatSources R S outer source)
    hall hspeak hnodup, List.filter_filter]
  rfl

mutual

/-- The combinations of a tree of inner joins are those of its sources on which the conditions of
the joins are true. -/
theorem Source.combined_flat (source : Source) (hinner : Store.innerOnly source = true)
    (hscoped : source.Scoped R S outer all) (hnodup : (source.all.map (·.item)).Nodup)
    (hall : source.all.map (·.item) ⊆ all) :
    source.combined R S outer =
      (combinedSources R S (Store.flatSources source) outer).filter
        (S.holdsAll R outer (Store.joinConditions source)) := by
  cases source with
  | mk item aliasName joins =>
    have hrows : ∀ row ∈ (S.itemRows R outer item).map fun ρ => [(item, some ρ)],
        row.map (·.1) = [item] := by
      intro row hrow
      obtain ⟨ρ, -, rfl⟩ := List.mem_map.mp hrow
      rfl
    exact combinedJoins_flat joins [item] _ hinner hscoped hrows hnodup hall
termination_by structural source

/-- The combinations of inner joins to combinations of some sources. -/
theorem combinedJoins_flat (joins : List Join) (items : List SourceItem)
    (rows : List (JoinedRow V)) (hinner : Store.innerJoins joins = true)
    (hscoped : joinsScoped R S outer all joins items)
    (hrows : ∀ row ∈ rows, row.map (·.1) = items)
    (hnodup : (items ++ (Source.joined joins).map (·.item)).Nodup)
    (hall : items ++ (Source.joined joins).map (·.item) ⊆ all) :
    combinedJoins R S joins outer items rows =
      (crossed rows (combinedSources R S (Store.flatJoined joins) outer)).filter
        (S.holdsAll R outer (Store.conditionsOf joins)) := by
  cases joins with
  | nil =>
    have htrue : S.holdsAll R outer (Store.conditionsOf []) = fun _ => true := rfl
    rw [htrue, List.filter_true, Store.flatJoined, combinedSources, crossed_nil_right,
      combinedJoins]
  | cons join rest =>
    cases join with
    | mk kind source condition =>
      rw [Store.innerJoins, Store.innerJoin, Bool.and_eq_true, Bool.and_eq_true] at hinner
      obtain ⟨⟨hkind, hsource⟩, hrest⟩ := hinner
      obtain ⟨⟨hcondition, hsourceScoped⟩, hrestScoped⟩ := hscoped
      cases beq_iff_eq.mp hkind
      rw [Source.joined, List.map_append, ← List.append_assoc] at hnodup hall
      have hfirst := hnodup.of_append_left
      have hallFirst := (List.append_subset.mp hall).1
      have hright := List.append_subset.mp hallFirst
      have hitems := items_crossed hrows
        (items_of_mem_flatSources R S outer source)
      -- the join itself, then the later ones on the combinations that it leaves
      have hjoin := Join.combined_flat condition hsourceScoped hrows hfirst hallFirst
        (Source.combined_flat source hsource hsourceScoped hfirst.of_append_right hright.2)
      have hspeak : ∀ c ∈ condition :: Store.joinConditions source,
          c.SpeaksOf R S outer all (items ++ source.all.map (·.item)) :=
        fun c hc => Join.Scoped.speaksOf (.mk .inner source condition) items
          ⟨hcondition, hsourceScoped⟩ hc
      rw [combinedJoins, hjoin]
      rw [combinedJoins_flat rest _ _ hrest hrestScoped
        (fun row hrow => hitems row (List.mem_filter.mp hrow).1) hnodup hall]
      rw [crossed_filter_left hitems (items_of_mem_flatJoined rest) hall hspeak,
        filter_holdsAll_append, crossed_assoc, ← combinedSources_append]
      rfl
termination_by structural joins

end

/-- The combinations of trees of inner joins are those of their sources on which the conditions of
the joins are true. -/
theorem combinedSources_flat {sources : List Source}
    (hinner : ∀ source ∈ sources, Store.innerOnly source = true)
    (hscoped : ∀ source ∈ sources, source.Scoped R S outer all)
    (hnodup : ((sources.flatMap Source.all).map (·.item)).Nodup)
    (hall : (sources.flatMap Source.all).map (·.item) ⊆ all) :
    combinedSources R S sources outer =
      (combinedSources R S (sources.flatMap Store.flatSources) outer).filter
        (S.holdsAll R outer (sources.flatMap Store.joinConditions)) := by
  induction sources with
  | nil => rfl
  | cons source rest ih =>
    rw [List.flatMap_cons, List.map_append] at hnodup hall
    have hparts := List.append_subset.mp hall
    have hsource := Source.combined_flat source (hinner _ List.mem_cons_self)
      (hscoped _ List.mem_cons_self) hnodup.of_append_left hparts.1
    have hrest := ih (fun x hx => hinner x (List.mem_cons_of_mem _ hx))
      (fun x hx => hscoped x (List.mem_cons_of_mem _ hx)) hnodup.of_append_right hparts.2
    have hleft := items_of_mem_flatSources R S outer source
    have hright : ∀ row ∈ combinedSources R S (rest.flatMap Store.flatSources) outer,
        row.map (·.1) = (rest.flatMap Source.all).map (·.item) := by
      intro row hrow
      have hjoins : ∀ x ∈ rest.flatMap Store.flatSources, x.joins = [] := by
        intro x hx
        obtain ⟨_, _, hx⟩ := List.mem_flatMap.mp hx
        exact flatSources_joins hx
      rw [items_combinedSources hjoins hrow, List.map_flatMap, List.map_flatMap]
      exact List.flatMap_congr fun source _ => items_flatSources source
    have hspeakLeft (c : Condition) (hc : c ∈ Store.joinConditions source) :=
      Source.Scoped.speaksOf source (hscoped _ List.mem_cons_self) hc
    have hspeakRight : ∀ c ∈ rest.flatMap Store.joinConditions,
        c.SpeaksOf R S outer all ((rest.flatMap Source.all).map (·.item)) := by
      intro c hc
      obtain ⟨x, hx, hc⟩ := List.mem_flatMap.mp hc
      apply (Source.Scoped.speaksOf x (hscoped x (List.mem_cons_of_mem _ hx)) hc).mono
      exact List.map_subset _ fun y hy => List.mem_flatMap.mpr ⟨x, hx, hy⟩
    have hkept (row : JoinedRow V) (hrow : row ∈ (combinedSources R S
        (Store.flatSources source) outer).filter (S.holdsAll R outer
          (Store.joinConditions source))) := hleft row (List.mem_filter.mp hrow).1
    calc combinedSources R S (source :: rest) outer
        = crossed (source.combined R S outer) (combinedSources R S rest outer) := rfl
      _ = (crossed ((combinedSources R S (Store.flatSources source) outer).filter
              (S.holdsAll R outer (Store.joinConditions source)))
            (combinedSources R S (rest.flatMap Store.flatSources) outer)).filter
              (S.holdsAll R outer (rest.flatMap Store.joinConditions)) := by
          rw [hsource, hrest, crossed_filter_right hkept hright hall hspeakRight hnodup]
      _ = _ := by
          rw [crossed_filter_left hleft hright hall hspeakLeft, filter_holdsAll_append,
            ← combinedSources_append]
          rfl

end

/-! ## Flattened queries -/

/-- A query whose joined sources stand in its list of sources. -/
def Query.flattened (q : Query) : Query :=
  { q with
    sources := q.sources.flatMap Store.flatSources
    whereClause := ((q.sources.flatMap Store.joinConditions).foldl Condition.conjoinAll
      .empty).conjoinAll q.whereClause }

theorem Query.sources_flattened (q : Query) :
    q.flattened.sources = q.allSources.map fun source => { source with joins := [] } := by
  rw [Query.allSources, List.map_flatMap]
  exact List.flatMap_congr fun source _ => Store.flatSources_eq source

/-- A flattened query has the same sources. -/
theorem Query.allSources_flattened (q : Query) :
    q.flattened.allSources = q.allSources.map fun source => { source with joins := [] } := by
  have hjoined (source : Source) : Source.all { source with joins := [] } =
      [{ source with joins := [] }] := rfl
  rw [Query.allSources, sources_flattened, List.flatMap_map]
  simp only [hjoined]
  exact List.map_eq_flatMap.symm

/-- The joins of a flattened query have no conditions. -/
theorem Query.joinConditions_flattened (q : Query) :
    q.flattened.sources.flatMap Store.joinConditions = [] := by
  rw [sources_flattened, List.flatMap_map, List.flatMap_eq_nil_iff]
  intro source _
  rfl

/-- A query without joins is flat. -/
theorem Query.flattened_eq_self {q : Query}
    (h : ∀ source ∈ q.sources, source.joins.isEmpty = true) : q.flattened = q := by
  have hflat (source : Source) (hsource : source ∈ q.sources) :
      Store.flatSources source = [source] ∧ Store.joinConditions source = [] := by
    have hempty := h source hsource
    cases source with
    | mk item aliasName joins =>
      cases joins with
      | nil => exact ⟨rfl, rfl⟩
      | cons join rest => cases hempty
  have hsources : q.sources.flatMap Store.flatSources = q.sources := by
    rw [List.flatMap_congr fun source hsource => (hflat source hsource).1]
    simp
  have hconditions : q.sources.flatMap Store.joinConditions = [] := by
    rw [List.flatMap_congr fun source hsource => (hflat source hsource).2]
    simp
  have hwhere : Condition.empty.conjoinAll q.whereClause = q.whereClause := by
    unfold Condition.conjoinAll
    split
    · next hempty =>
      cases hcondition : q.whereClause with
      | mk branches =>
        rw [hcondition] at hempty
        cases branches with
        | nil => rfl
        | cons b rest => cases hempty
    · rfl
  simp only [Query.flattened, hsources, hconditions, List.foldl_nil, hwhere]

section

variable {V : Type} {R : Valuation V} {S : Scene V} {outer : Env V}

/-- The conditions of joins are true together with what the query says itself. -/
theorem Query.holds_flattened (q : Query) (row : JoinedRow V) :
    S.holds R outer q.flattened.whereClause row =
      (S.holdsAll R outer (q.sources.flatMap Store.joinConditions) row &&
        S.holds R outer q.whereClause row) := by
  rw [Scene.holds, Query.flattened, Condition.truthIn_conjoinAll, Truth.and_beq_true,
    Condition.truthIn_foldl_conjoinAll]
  rfl

/-- A flattened query keeps exactly the same combinations. -/
theorem Query.qualifying_flattened {q : Query}
    (hinner : ∀ source ∈ q.sources, Store.innerOnly source = true)
    (hnodup : (q.allSources.map (·.item)).Nodup)
    (hscoped : ∀ source ∈ q.sources, source.Scoped R S outer (q.allSources.map (·.item))) :
    q.flattened.qualifying R S outer = q.qualifying R S outer := by
  rw [Query.qualifying, Query.qualifying,
    combinedSources_flat hinner hscoped hnodup (List.Subset.refl _), List.filter_filter]
  apply List.filter_congr
  intro row _
  rw [Query.holds_flattened, Bool.and_comm]

end

/-! ## The statement -/

namespace Store

/-- Only the query of an update is changed when it is flattened, if it joins its sources by inner
joins alone. -/
theorem flattenUpdate_query {s : Store} {t : StatementRef} {update : UpdateClause}
    {output : Option OutputClause} (hbody : (s.statement t).body = .update update output)
    (hvalid : (s.statement t).query.index < s.queries.size)
    (hinner : ∀ source ∈ (s.query (s.statement t).query).sources, innerOnly source = true) :
    ∃ s', s.flattenUpdate t = (.ok (), s') ∧
      s'.query (s.statement t).query = (s.query (s.statement t).query).flattened ∧
      (∀ r, r ≠ (s.statement t).query → s'.query r = s.query r) ∧
      s'.table = s.table ∧ s'.field = s.field ∧ s'.column = s.column ∧
      s'.statement = s.statement ∧ s'.cte = s.cte := by
  by_cases hjoined : ((s.query (s.statement t).query).sources.all
      fun source => source.joins.isEmpty) = true
  · refine ⟨s, ?_, ?_, fun _ _ => rfl, rfl, rfl, rfl, rfl, rfl⟩
    · simp only [flattenUpdate, hbody, hjoined, if_true]
    · exact (Query.flattened_eq_self (List.all_eq_true.mp hjoined)).symm
  · have hall : ((s.query (s.statement t).query).sources.all innerOnly) = true :=
      List.all_eq_true.mpr hinner
    refine ⟨s.modifyQuery (s.statement t).query fun query => { query with
      sources := (s.query (s.statement t).query).sources.flatMap flatSources
      whereClause := (((s.query (s.statement t).query).sources.flatMap
        joinConditions).foldl Condition.conjoinAll .empty).conjoinAll query.whereClause },
      ?_, ?_, ?_, rfl, rfl, rfl, rfl, rfl⟩
    · simp only [flattenUpdate, hbody, hjoined, hall, Bool.not_true, Bool.false_eq_true, if_false]
    · rw [query_modifyQuery_self hvalid]
      rfl
    · exact fun r hr => query_modifyQuery_ne hr

/-- An update over trees of inner joins is flattened: its query lists every source once, without
joins, and keeps exactly the same combinations of their rows. -/
theorem flattenUpdate_qualifying {V : Type} {R : Valuation V} {S : Scene V} {outer : Env V}
    {t : StatementRef} {update : UpdateClause} {output : Option OutputClause}
    (hbody : (S.store.statement t).body = .update update output)
    (hvalid : (S.store.statement t).query.index < S.store.queries.size)
    (hinner : ∀ source ∈ (S.store.query (S.store.statement t).query).sources,
      innerOnly source = true)
    (hnodup : ((S.store.query (S.store.statement t).query).allSources.map (·.item)).Nodup)
    (hscoped : ∀ source ∈ (S.store.query (S.store.statement t).query).sources,
      source.Scoped R S outer
        ((S.store.query (S.store.statement t).query).allSources.map (·.item))) :
    ∃ s', S.store.flattenUpdate t = (.ok (), s') ∧
      (s'.query (S.store.statement t).query).sources =
        (S.store.query (S.store.statement t).query).allSources.map
          (fun source => { source with joins := [] }) ∧
      (s'.query (S.store.statement t).query).qualifying R { S with store := s' } outer =
        (S.store.query (S.store.statement t).query).qualifying R S outer := by
  obtain ⟨s', hflatten, hquery, hothers, htable, hfield, hcolumn, -⟩ :=
    flattenUpdate_query hbody hvalid hinner
  have hcolumns (r : QueryRef) : (s'.query r).columns = (S.store.query r).columns := by
    by_cases hr : r = (S.store.statement t).query
    · rw [hr, hquery]
      rfl
    · rw [hothers r hr]
  refine ⟨s', hflatten, ?_, ?_⟩
  · rw [hquery, Query.sources_flattened]
  · rw [Query.qualifying_store htable hfield hcolumn hcolumns, hquery,
      Query.qualifying_flattened hinner hnodup hscoped]

/-- Both people have the one item with a price: the first one by the order, the other one by age. -/
theorem flattenUpdate_qualifying_pricedAges :
    ∃ s', pricedAges.flattenUpdate ⟨0⟩ = (.ok (), s') ∧
      (s'.query ⟨0⟩).sources = [.ofTable ⟨0⟩, .ofTable ⟨1⟩, .ofTable ⟨2⟩] ∧
      ((s'.query ⟨0⟩).qualifying .nullableIntegers (.ofSales s') .nowhere).length = 2 := by
  have hscoped : ∀ source ∈ (pricedAges.query ⟨0⟩).sources,
      source.Scoped .nullableIntegers (.ofSales pricedAges) .nowhere
        ((pricedAges.query ⟨0⟩).allSources.map (·.item)) := by
    intro source hsource
    cases List.mem_singleton.mp hsource
    refine ⟨⟨Condition.speaksOf_of_refersTo fun p hp => ?_,
      ⟨Condition.speaksOf_of_refersTo fun p hp => ?_, trivial⟩, trivial⟩, trivial⟩
    · change p ∈ [.field ⟨3⟩, .field ⟨0⟩, .field ⟨1⟩, .int 30] at hp
      simp only [List.mem_cons, List.not_mem_nil, or_false] at hp
      rcases hp with rfl | rfl | rfl | rfl
      · exact .inl (by decide)
      · exact .inl (by decide)
      · exact .inl (by decide)
      · trivial
    · change p ∈ [.field ⟨4⟩, .field ⟨2⟩] at hp
      simp only [List.mem_cons, List.not_mem_nil, or_false] at hp
      rcases hp with rfl | rfl
      · exact .inl (by decide)
      · exact .inl (by decide)
  obtain ⟨s', hflatten, hsources, hrows⟩ := flattenUpdate_qualifying (R := .nullableIntegers)
    (S := .ofSales pricedAges) (t := ⟨0⟩) rfl (by decide) (by decide)
    (by decide) hscoped
  have hlength := congrArg List.length hrows
  exact ⟨s', hflatten, hsources, hlength.trans (by decide +kernel)⟩

end Store

end SqlCompiler
