import Mathlib.Data.List.Basic
import SqlCompiler.Proofs.Joins.Sources
import SqlCompiler.Proofs.Semantics.Valuations

/-!
# Combinations of source rows

The `FROM` clause of a query gives combinations of rows, one of each source, where an outer join
leaves the row of a partner absent.  The sources of one tree are joined one after the other; the
right side of an `APPLY` sees the row on its left.  Of these combinations the `WHERE` clause keeps
the ones of which it is true.

Main results:

- Definition `Scene.view`: what is in view on a combination.
- Definition `Source.combined`, `combinedSources`: the combinations of a tree and of a list of them.
- Definition `Query.qualifying`: the combinations that a query keeps.
- Theorem `combinedSources_congr`: combinations are the same where everything that they are
  computed from is.
-/

namespace SqlCompiler

/-! ## Views -/

section

variable {V : Type} (R : Valuation V) (S : Scene V)

/-- A row of a table in view. -/
def Scene.tableRow (t : TableRef) (row : String → V) : Env V where
  field f := if f ∈ (S.store.table t).fields then row (S.store.field f).physicalName else R.null
  column _ := R.null

/-- A row of a query in view. -/
def Scene.queryRow (q : QueryRef) (row : List V) : Env V where
  field _ := R.null
  column c := (((S.store.query q).columns.zip row).lookup c).getD R.null

/-- The rows of a source without its joins. -/
def Scene.itemRows (ρ : Env V) : SourceItem → List (Env V)
  | .table t =>
    (S.tableRows (S.store.table t).name (S.store.table t).kind ρ).map (S.tableRow R t)
  | .query q => (S.queryRows q ρ).map (S.queryRow R q)

/-- What is read of a source in a combination: of the row it has there, nothing if that row is
absent, or what is in view around the query if the source is no part of the combination. -/
def JoinedRow.read (row : JoinedRow V) (item : SourceItem) (value : Env V → V) (around : V) : V :=
  match row.lookup item with
  | some (some ρ) => value ρ
  | some none => R.null
  | none => around

/-- What is in view on a combination, where something is in view around the query. -/
def Scene.view (outer : Env V) (row : JoinedRow V) : Env V where
  field f := row.read R (.table (S.store.field f).table) (·.field f) (outer.field f)
  column c := row.read R (.query (S.store.column c).parent) (·.column c) (outer.column c)

/-- Whether a condition is true on a combination. -/
def Scene.holds (outer : Env V) (c : Condition) (row : JoinedRow V) : Bool :=
  c.truthIn R (S.place (S.view R outer row)) == some true

/-! ## Combinations -/

mutual

/-- The combinations of a source with the sources joined to it. -/
def Source.combined : Source → Env V → List (JoinedRow V)
  | ⟨item, _, joins⟩, outer =>
    combinedJoins joins outer [item] ((S.itemRows R outer item).map fun ρ => [(item, some ρ)])
termination_by structural source => source

/-- The combinations of a join to combinations of some sources. -/
def Join.combined : Join → Env V → List SourceItem → List (JoinedRow V) → List (JoinedRow V)
  | ⟨kind, source, condition⟩, outer, items, rows =>
    let absent := absentRow (source.all.map (·.item))
    if kind.isApply then
      rows.flatMap fun left =>
        let right := source.combined (S.view R outer left)
        if right.isEmpty && kind.keepsLeft then [left ++ absent] else right.map (left ++ ·)
    else
      (joinRows kind (fun left right => S.holds R outer condition (left ++ right)) rows
        (source.combined outer)).map fun (left, right) =>
          left.getD (absentRow items) ++ right.getD absent
termination_by structural join => join

/-- The combinations of some joins, one after the other. -/
def combinedJoins : List Join → Env V → List SourceItem → List (JoinedRow V) → List (JoinedRow V)
  | [], _, _, rows => rows
  | join :: rest, outer, items, rows =>
    combinedJoins rest outer (items ++ (Source.ofJoin join).map (·.item))
      (join.combined outer items rows)
termination_by structural joins => joins

end

/-- Every combination of one list with every one of another. -/
def crossed (xs ys : List (JoinedRow V)) : List (JoinedRow V) :=
  xs.flatMap fun x => ys.map (x ++ ·)

/-- The combinations of a list of sources. -/
def combinedSources : List Source → Env V → List (JoinedRow V)
  | [], _ => [[]]
  | source :: rest, outer => crossed (source.combined R S outer) (combinedSources rest outer)

/-- The combinations that a query keeps. -/
def Query.qualifying (q : Query) (outer : Env V) : List (JoinedRow V) :=
  (combinedSources R S q.sources outer).filter (S.holds R outer q.whereClause)

end

/-! ## Entries -/

section

variable {V : Type} {row more : JoinedRow V} {item : SourceItem}

theorem JoinedRow.lookup_of_notMem (h : item ∉ row.map (·.1)) : row.lookup item = none := by
  apply List.lookup_eq_none_iff.mpr
  intro entry hentry
  apply bne_iff_ne.mpr
  rintro rfl
  exact h (List.mem_map_of_mem hentry)

theorem lookup_append_left (h : item ∈ row.map (·.1)) :
    (row ++ more).lookup item = row.lookup item := by
  have hsome : (row.lookup item).isSome = true := by
    obtain ⟨entry, hentry, rfl⟩ := List.mem_map.mp h
    exact List.lookup_isSome_iff.mpr ⟨entry, hentry, beq_self_eq_true _⟩
  rw [List.lookup_append, Option.or_of_isSome hsome]

theorem lookup_append_right (h : item ∉ row.map (·.1)) :
    (row ++ more).lookup item = more.lookup item := by
  rw [List.lookup_append, JoinedRow.lookup_of_notMem h, Option.none_or]

variable {R : Valuation V} {entry : Option (Env V)}

/-- A source that is part of a combination is read there. -/
theorem JoinedRow.read_of_lookup (h : row.lookup item = some entry) (value : Env V → V)
    (around : V) : row.read R item value around = (entry.map value).getD R.null := by
  cases entry <;> simp [JoinedRow.read, h]

/-- A source that is no part of a combination is read around it. -/
theorem JoinedRow.read_of_notMem (h : item ∉ row.map (·.1)) (value : Env V → V) (around : V) :
    row.read R item value around = around := by
  simp [JoinedRow.read, JoinedRow.lookup_of_notMem h]

end

/-! ## Products -/

section

variable {V : Type} (xs ys zs : List (JoinedRow V))

@[simp]
theorem crossed_nil_right : crossed xs [[]] = xs := by
  simp [crossed]

@[simp]
theorem nil_crossed : crossed [[]] ys = ys := by
  simp [crossed]

theorem crossed_assoc : crossed (crossed xs ys) zs = crossed xs (crossed ys zs) := by
  simp only [crossed, List.flatMap_assoc, List.map_flatMap, List.flatMap_map, List.map_map,
    Function.comp_def, List.append_assoc]

variable {xs ys}

theorem mem_crossed {row : JoinedRow V} :
    row ∈ crossed xs ys ↔ ∃ x ∈ xs, ∃ y ∈ ys, row = x ++ y := by
  simp only [crossed, List.mem_flatMap, List.mem_map, eq_comm]

/-- A test of the left parts may be made before. -/
theorem filter_crossed_left {test keep : JoinedRow V → Bool}
    (h : ∀ x ∈ xs, ∀ y ∈ ys, test (x ++ y) = keep x) :
    (crossed xs ys).filter test = crossed (xs.filter keep) ys := by
  induction xs with
  | nil => rfl
  | cons x rest ih =>
    have hrest := ih fun x hx => h x (List.mem_cons_of_mem _ hx)
    have hfirst : (ys.map (x ++ ·)).filter test = (ys.filter fun _ => keep x).map (x ++ ·) := by
      rw [List.filter_map]
      exact congrArg _ (List.filter_congr (h x List.mem_cons_self))
    have hsplit : crossed (x :: rest) ys = ys.map (x ++ ·) ++ crossed rest ys := rfl
    rw [hsplit, List.filter_append, hrest, hfirst]
    by_cases hkeep : keep x = true
    · simp only [hkeep, List.filter_true, List.filter_cons_of_pos]
      rfl
    · simp [hkeep]

/-- A test of the right parts may be made before. -/
theorem filter_crossed_right {test keep : JoinedRow V → Bool}
    (h : ∀ x ∈ xs, ∀ y ∈ ys, test (x ++ y) = keep y) :
    (crossed xs ys).filter test = crossed xs (ys.filter keep) := by
  unfold crossed
  rw [List.filter_flatMap]
  apply List.flatMap_congr
  intro x hx
  rw [List.filter_map]
  exact congrArg _ (List.filter_congr fun y hy => h x hx y hy)

end

section

variable {V : Type} {R : Valuation V} {S : Scene V} {outer : Env V}

theorem combinedSources_append (sources sources' : List Source) :
    combinedSources R S (sources ++ sources') outer =
      crossed (combinedSources R S sources outer) (combinedSources R S sources' outer) := by
  induction sources with
  | nil => simp [combinedSources]
  | cons source rest ih => rw [List.cons_append, combinedSources, combinedSources, ih, crossed_assoc]

end

section

variable {V : Type} (R : Valuation V) (S : Scene V)

/-- The combinations of a table alone. -/
theorem combinedSources_ofTable (t : TableRef) (outer : Env V) :
    combinedSources R S [.ofTable t] outer =
      (S.itemRows R outer (.table t)).map fun ρ => [(.table t, some ρ)] :=
  crossed_nil_right _

end

/-! ## What combinations are made of -/

section

variable {V : Type} (R : Valuation V) (S : Scene V)

/-- Whether a combination has an entry for each of some sources in turn: a row of the source, or
nothing. -/
structure Scene.Combines (items : List SourceItem) (row : JoinedRow V) : Prop where
  items : row.map (·.1) = items
  entries : ∀ entry ∈ row, ∀ ρ, entry.2 = some ρ → ∃ σ, ρ ∈ S.itemRows R σ entry.1

end

section

variable {V : Type} {R : Valuation V} {S : Scene V}

theorem Scene.Combines.append {items items' : List SourceItem} {row row' : JoinedRow V}
    (h : S.Combines R items row) (h' : S.Combines R items' row') :
    S.Combines R (items ++ items') (row ++ row') where
  items := by rw [List.map_append, h.items, h'.items]
  entries entry hentry :=
    (List.mem_append.mp hentry).elim (h.entries entry) (h'.entries entry)

theorem Scene.combines_absentRow (items : List SourceItem) :
    S.Combines R items (absentRow items) where
  items := by
    rw [absentRow, List.map_map]
    exact List.map_id _
  entries entry hentry ρ hρ := by
    obtain ⟨item, -, rfl⟩ := List.mem_map.mp hentry
    cases hρ

theorem Scene.Combines.getD {items : List SourceItem} {row : Option (JoinedRow V)}
    (h : ∀ x ∈ row, S.Combines R items x) :
    S.Combines R items (row.getD (absentRow items)) := by
  cases row with
  | none => exact Scene.combines_absentRow items
  | some x => exact h x rfl

/-- A join pairs rows of its two sides. -/
theorem mem_of_mem_joinRows {α β : Type} {kind : JoinKind} {test : α → β → Bool} {left : List α}
    {right : List β} {pair : Option α × Option β} (h : pair ∈ joinRows kind test left right) :
    (∀ a ∈ pair.1, a ∈ left) ∧ ∀ b ∈ pair.2, b ∈ right := by
  have hsome {γ : Type} {c d : γ} {items : List γ} (hd : d ∈ items) (hc : c ∈ some d) :
      c ∈ items := Option.some.inj hc ▸ hd
  rw [joinRows, List.mem_append, List.mem_flatMap] at h
  rcases h with ⟨a, ha, h⟩ | h
  · unfold matchedRows at h
    dsimp only at h
    split at h
    · cases List.mem_singleton.mp h
      exact ⟨fun _ => hsome ha, fun _ hx => by cases hx⟩
    · obtain ⟨b, hb, rfl⟩ := List.mem_map.mp h
      exact ⟨fun _ => hsome ha, fun _ => hsome (List.mem_filter.mp hb).1⟩
  · unfold unmatchedRows at h
    split at h
    · obtain ⟨b, hb, rfl⟩ := List.mem_map.mp h
      exact ⟨fun _ hx => by (cases hx), fun _ => hsome (List.mem_filter.mp hb).1⟩
    · cases h

mutual

theorem Source.combines (source : Source) (outer : Env V) (row : JoinedRow V)
    (h : row ∈ source.combined R S outer) : S.Combines R (source.all.map (·.item)) row := by
  cases source with
  | mk item aliasName joins =>
    refine combines_joins joins outer [item] _ (fun row hrow => ?_) row h
    obtain ⟨ρ, hρ, rfl⟩ := List.mem_map.mp hrow
    constructor
    · rfl
    · rintro entry hentry _ hsome
      cases List.mem_singleton.mp hentry
      exact ⟨outer, Option.some.inj hsome ▸ hρ⟩
termination_by structural source

theorem Join.combines (join : Join) (outer : Env V) (items : List SourceItem)
    (rows : List (JoinedRow V)) (hrows : ∀ row ∈ rows, S.Combines R items row)
    (row : JoinedRow V) (h : row ∈ join.combined R S outer items rows) :
    S.Combines R (items ++ (Source.ofJoin join).map (·.item)) row := by
  cases join with
  | mk kind source condition =>
    rw [Join.combined] at h
    dsimp only at h
    split at h
    · obtain ⟨left, hleft, h⟩ := List.mem_flatMap.mp h
      split at h
      · cases List.mem_singleton.mp h
        exact (hrows left hleft).append (Scene.combines_absentRow _)
      · obtain ⟨right, hright, rfl⟩ := List.mem_map.mp h
        exact (hrows left hleft).append (Source.combines source _ right hright)
    · obtain ⟨⟨left, right⟩, hpair, rfl⟩ := List.mem_map.mp h
      have hparts := mem_of_mem_joinRows hpair
      exact (Scene.Combines.getD fun x hx => hrows x (hparts.1 x hx)).append
        (Scene.Combines.getD fun x hx => Source.combines source _ x (hparts.2 x hx))
termination_by structural join

theorem combines_joins (joins : List Join) (outer : Env V) (items : List SourceItem)
    (rows : List (JoinedRow V)) (hrows : ∀ row ∈ rows, S.Combines R items row)
    (row : JoinedRow V) (h : row ∈ combinedJoins R S joins outer items rows) :
    S.Combines R (items ++ (Source.joined joins).map (·.item)) row := by
  cases joins with
  | nil =>
    rw [Source.joined, List.map_nil, List.append_nil]
    exact hrows row h
  | cons join rest =>
    rw [Source.joined, List.map_append, ← List.append_assoc]
    exact combines_joins rest outer _ _
      (fun row hrow => Join.combines join outer items rows hrows row hrow) row h
termination_by structural joins

end

/-- Every combination has an entry for each of the sources in turn. -/
theorem combines_sources {sources : List Source} {outer : Env V} {row : JoinedRow V}
    (h : row ∈ combinedSources R S sources outer) :
    S.Combines R ((sources.flatMap Source.all).map (·.item)) row := by
  induction sources generalizing row with
  | nil =>
    cases List.mem_singleton.mp h
    exact ⟨rfl, fun _ hentry => nomatch hentry⟩
  | cons source rest ih =>
    obtain ⟨x, hx, y, hy, rfl⟩ := mem_crossed.mp h
    rw [List.flatMap_cons, List.map_append]
    exact (source.combines outer x hx).append (ih hy)

end

/-! ## Combinations in two scenes -/

/-- What is in view in two scenes stays related on every combination. -/
def Scene.Relates {V : Type} (R : Valuation V) (S S' : Scene V) (rel : Env V → Env V → Prop) : Prop :=
  ∀ ρ ρ' row, rel ρ ρ' → rel (S.view R ρ row) (S'.view R ρ' row)

section

variable {V : Type} {R : Valuation V} {S S' : Scene V} {rel : Env V → Env V → Prop}

/-- Whether a source has the same rows in two scenes. -/
def SameRows (R : Valuation V) (S S' : Scene V) (rel : Env V → Env V → Prop) (item : SourceItem) :
    Prop :=
  ∀ ρ ρ', rel ρ ρ' → S'.itemRows R ρ' item = S.itemRows R ρ item

/-- Whether a condition has the same truth in two scenes. -/
def SameTruth (R : Valuation V) (S S' : Scene V) (rel : Env V → Env V → Prop) (c : Condition) :
    Prop :=
  ∀ ρ ρ', rel ρ ρ' → c.truthIn R (S'.place ρ') = c.truthIn R (S.place ρ)

theorem Scene.Relates.holds_eq {c : Condition} {ρ ρ' : Env V} (hview : S.Relates R S' rel)
    (hc : SameTruth R S S' rel c) (h : rel ρ ρ') (row : JoinedRow V) :
    S'.holds R ρ' c row = S.holds R ρ c row := by
  unfold Scene.holds
  rw [hc _ _ (hview ρ ρ' row h)]

mutual

theorem Source.combined_congr (hview : S.Relates R S' rel) (source : Source) (ρ ρ' : Env V)
    (hrows : ∀ x ∈ source.all, SameRows R S S' rel x.item)
    (htruth : ∀ c ∈ Store.joinConditions source, SameTruth R S S' rel c) (h : rel ρ ρ') :
    source.combined R S' ρ' = source.combined R S ρ := by
  cases source with
  | mk item aliasName joins =>
    rw [Source.combined, Source.combined, hrows _ List.mem_cons_self ρ ρ' h]
    exact combinedJoins_congr hview joins ρ ρ' _ _
      (fun x hx => hrows x (List.mem_cons_of_mem _ hx)) htruth h
termination_by structural source

theorem Join.combined_congr (hview : S.Relates R S' rel) (join : Join) (ρ ρ' : Env V)
    (items : List SourceItem) (rows : List (JoinedRow V))
    (hrows : ∀ x ∈ Source.ofJoin join, SameRows R S S' rel x.item)
    (htruth : ∀ c ∈ Store.conditionsOfJoin join, SameTruth R S S' rel c) (h : rel ρ ρ') :
    join.combined R S' ρ' items rows = join.combined R S ρ items rows := by
  cases join with
  | mk kind source condition =>
    have hsource (σ σ' : Env V) (hσ : rel σ σ') :
        source.combined R S' σ' = source.combined R S σ :=
      Source.combined_congr hview source σ σ' hrows
        (fun c hc => htruth c (List.mem_cons_of_mem _ hc)) hσ
    have hholds : S'.holds R ρ' condition = S.holds R ρ condition := by
      funext row
      exact hview.holds_eq (htruth _ List.mem_cons_self) h row
    rw [Join.combined, Join.combined, hholds, hsource ρ ρ' h]
    have happly (left : JoinedRow V) := hsource _ _ (hview ρ ρ' left h)
    simp only [happly]
termination_by structural join

theorem combinedJoins_congr (hview : S.Relates R S' rel) (joins : List Join) (ρ ρ' : Env V)
    (items : List SourceItem) (rows : List (JoinedRow V))
    (hrows : ∀ x ∈ Source.joined joins, SameRows R S S' rel x.item)
    (htruth : ∀ c ∈ Store.conditionsOf joins, SameTruth R S S' rel c) (h : rel ρ ρ') :
    combinedJoins R S' joins ρ' items rows = combinedJoins R S joins ρ items rows := by
  cases joins with
  | nil => rfl
  | cons join rest =>
    have hsplit := forall_append hrows
    have hconditions := forall_append htruth
    rw [combinedJoins, combinedJoins,
      Join.combined_congr hview join ρ ρ' items rows hsplit.1 hconditions.1 h]
    exact combinedJoins_congr hview rest ρ ρ' _ _ hsplit.2 hconditions.2 h
termination_by structural joins

end

/-- Combinations are the same where everything that they are computed from is. -/
theorem combinedSources_congr (hview : S.Relates R S' rel) {sources : List Source} {ρ ρ' : Env V}
    (hrows : ∀ x ∈ sources.flatMap Source.all, SameRows R S S' rel x.item)
    (htruth : ∀ c ∈ sources.flatMap Store.joinConditions, SameTruth R S S' rel c)
    (h : rel ρ ρ') : combinedSources R S' sources ρ' = combinedSources R S sources ρ := by
  induction sources with
  | nil => rfl
  | cons source rest ih =>
    have hsplit := forall_append hrows
    have hconditions := forall_append htruth
    rw [combinedSources, combinedSources, ih hsplit.2 hconditions.2,
      source.combined_congr hview ρ ρ' hsplit.1 hconditions.1 h]

/-- A query keeps the same combinations where everything that they are computed from is. -/
theorem Query.qualifying_congr (hview : S.Relates R S' rel) {q q' : Query} {ρ ρ' : Env V}
    (hsources : q'.sources = q.sources) (hwhere : q'.whereClause = q.whereClause)
    (hrows : ∀ x ∈ q.allSources, SameRows R S S' rel x.item)
    (htruth : ∀ c ∈ q.sources.flatMap Store.joinConditions, SameTruth R S S' rel c)
    (hc : SameTruth R S S' rel q.whereClause) (h : rel ρ ρ') :
    q'.qualifying R S' ρ' = q.qualifying R S ρ := by
  rw [Query.qualifying, Query.qualifying, hsources, hwhere,
    combinedSources_congr hview hrows htruth h]
  exact List.filter_congr fun row _ => hview.holds_eq hc h row

end

/-! ## Combinations over another store -/

section

variable {V : Type} {R : Valuation V} {S : Scene V} {s' : Store}

/-- Expressions are worth the same over a store with the same tables. -/
theorem sameTruth_of_store (htable : s'.table = S.store.table) (c : Condition) :
    SameTruth R S { S with store := s' } Eq c := by
  rintro ρ _ rfl
  apply Condition.truthIn_congr
  intro p _
  cases p with
  | allFields t | tableSource t =>
    change (s'.table t).fields.map ρ.field = (S.store.table t).fields.map ρ.field
    rw [htable]
  | _ => first | rfl | trivial

/-- The same combinations are kept over a store with the same tables, fields and columns. -/
theorem Query.qualifying_store (htable : s'.table = S.store.table)
    (hfield : s'.field = S.store.field) (hcolumn : s'.column = S.store.column)
    (hcolumns : ∀ r, (s'.query r).columns = (S.store.query r).columns) (q : Query)
    (outer : Env V) :
    q.qualifying R { S with store := s' } outer = q.qualifying R S outer := by
  have hview : Scene.Relates R S { S with store := s' } Eq := by
    rintro ρ _ row rfl
    simp only [Scene.view, hfield, hcolumn]
  apply Query.qualifying_congr hview rfl rfl
  · intro x _
    rintro ρ _ rfl
    cases x.item with
    | table t =>
      have hrow : Scene.tableRow R { S with store := s' } t = Scene.tableRow R S t := by
        funext row
        simp only [Scene.tableRow, htable, hfield]
      simp only [Scene.itemRows, htable, hrow]
    | query r =>
      have hrow : Scene.queryRow R { S with store := s' } r = Scene.queryRow R S r := by
        funext row
        simp only [Scene.queryRow, hcolumns]
      simp only [Scene.itemRows, hrow]
  · exact fun c _ => sameTruth_of_store htable c
  · exact sameTruth_of_store htable _
  · rfl

end

/-! ## Sales -/

/-- A statement over people, their orders and the items of these. -/
def Store.sales (body : StatementBody) (query : Query) : Store where
  tables := #[{ name := { name := "Person" }, fields := [⟨0⟩, ⟨1⟩] },
    { name := { name := "Orders" }, fields := [⟨2⟩, ⟨3⟩] },
    { name := { name := "Items" }, fields := [⟨4⟩, ⟨5⟩] }]
  fields := #[{ FieldSpec.toField { name := "Id", type := .int32 } ⟨0⟩ with isPrimaryKey := true },
    FieldSpec.toField { name := "Age", type := .int32 } ⟨0⟩,
    FieldSpec.toField { name := "Id", type := .int32 } ⟨1⟩,
    FieldSpec.toField { name := "PersonId", type := .int32 } ⟨1⟩,
    FieldSpec.toField { name := "OrderId", type := .int32 } ⟨2⟩,
    FieldSpec.toField { name := "Price", type := .int32 } ⟨2⟩]
  queries := #[query]
  statements := #[{ body, query := ⟨0⟩ }]

/-- People with the items of their orders, or of any order if they are over thirty. -/
def Store.personWithItems : Source :=
  let items : Join := ⟨.inner, .ofTable ⟨2⟩, .ofPredicate (.equal (.field ⟨4⟩) (.field ⟨2⟩))⟩
  let mine := Condition.ofPredicate (.equal (.field ⟨3⟩) (.field ⟨0⟩))
  let adult := Predicate.comparison (.field ⟨1⟩) .greater (.int 30)
  ⟨.table ⟨0⟩, none, [⟨.inner, ⟨.table ⟨1⟩, none, [items]⟩, mine.disjoin adult⟩]⟩

/-- Ages that are set to a price above one. -/
def Store.pricedAges : Store :=
  sales (.update { table := some ⟨0⟩, items := [⟨.field ⟨1⟩, some (.field ⟨5⟩)⟩] } none)
    { sources := [personWithItems]
      whereClause := .ofPredicate (.comparison (.field ⟨5⟩) .greater (.int 1)) }

/-- A row of nullable integers by the names of its columns. -/
def namedRow (names : List String) (values : List (Option Int)) (name : String) : Option Int :=
  ((names.zip values).lookup name).join

/-- The sales of a shop, where one price is not known. -/
def Scene.ofSales (s : Store) : Scene (Option Int) where
  store := s
  tableRows name _ _ :=
    match name.name with
    | "Person" => [[some 1, some 20], [some 2, some 40]].map (namedRow ["Id", "Age"])
    | "Orders" => [[some 10, some 1], [some 11, some 2]].map (namedRow ["Id", "PersonId"])
    | "Items" => [[some 10, some 5], [some 11, none]].map (namedRow ["OrderId", "Price"])
    | _ => []
  queryRows _ _ := []

/-- What is in view around a statement: nothing. -/
def Env.nowhere : Env (Option Int) where
  field _ := none
  column _ := none

end SqlCompiler
