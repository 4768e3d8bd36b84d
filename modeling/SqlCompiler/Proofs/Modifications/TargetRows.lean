import SqlCompiler.Proofs.Modifications.Moves

/-!
# Rows that a modification hits

An update or a delete hits the rows of its target that stand in some combination of its sources.
Moved to a copy of the target, it hits the same rows, as far as the fields that identify a row are
present, and assigns the same values where a row stands in one combination only.

Main results:

- Definition `Scene.Hits`, `Scene.assignments`: the rows that a modification hits, and what it
  assigns on a combination.
- Theorem `Scene.matches_key`: which combinations have a given row of the target.
- Theorem `Store.split_modifies`: what a modification that has been moved hits and assigns.
-/

namespace SqlCompiler

/-! ## What a modification does -/

/-- The name of the column that a scalar is. -/
def Store.columnName? (s : Store) : Scalar → Option String
  | .field f => some (s.field f).physicalName
  | _ => none

/-- Whether an element of a list is the only one with a property. -/
def Alone {α : Type} (p : α → Prop) (items : List α) (a : α) : Prop :=
  ∃ before after, items = before ++ a :: after ∧ p a ∧ ∀ b ∈ before ++ after, ¬p b

theorem Alone.filter_eq {α : Type} {p : α → Prop} {items : List α} {a : α} {test : α → Bool}
    (h : Alone p items a) (htest : ∀ b ∈ items, test b = true ↔ p b) :
    items.filter test = [a] := by
  obtain ⟨before, after, rfl, ha, hothers⟩ := h
  have hnone : ∀ part ⊆ before ++ after, part.filter test = [] := by
    intro part hpart
    apply List.filter_eq_nil_iff.mpr
    intro b hb hkept
    have hmem := hpart hb
    have hwhole : b ∈ before ++ a :: after := by
      rcases List.mem_append.mp hmem with h | h
      · exact List.mem_append_left _ h
      · exact List.mem_append_right _ (List.mem_cons_of_mem _ h)
    exact hothers b hmem ((htest b hwhole).mp hkept)
  have hself : test a = true := (htest a (by simp)).mpr ha
  rw [List.filter_append, hnone before (List.subset_append_left _ _),
    List.filter_cons_of_pos hself, hnone after (List.subset_append_right _ _), List.nil_append]

section

variable {V : Type} (R : Valuation V) (S : Scene V) (outer : Env V) (t : StatementRef)

/-- The combinations of a modification. -/
def Scene.combinations : List (JoinedRow V) :=
  (S.store.query (S.store.statement t).query).qualifying R S outer

/-- Whether a combination has a given row of the target of a modification. -/
def Scene.Touches (raw : String → V) (row : JoinedRow V) : Prop :=
  ∃ target, S.store.modified? t = some target ∧
    row.lookup (.table target) = some (some (S.tableRow R target raw))

/-- Whether a modification hits a row of its target. -/
def Scene.Hits (raw : String → V) : Prop := ∃ row ∈ S.combinations R outer t, S.Touches R t raw row

/-- The columns that an update assigns, and their values on a combination. -/
def Scene.assignments (row : JoinedRow V) : List (Option String × Option V) :=
  (S.store.statement t).body.assigned.map fun item =>
    (S.store.columnName? item.target,
      item.value.map fun e => e.valueIn R (S.place (S.view R outer row)))

end

/-! ## Keys -/

section

variable {V : Type} {R : Valuation V} {S : Scene V} {outer : Env V}

/-- Keys are equal if each of them is. -/
theorem holds_keyEqualities {mapping : List (FieldRef × FieldRef)} {keys : List FieldRef}
    (hpaired : ∀ k ∈ keys, ∃ k', Store.paired mapping k = some k') (row : JoinedRow V) :
    S.holds R outer (Store.keyEqualities mapping keys) row = true ↔
      ∀ k ∈ keys, R.compare .equal ((S.view R outer row).field k)
        ((S.view R outer row).field (renamedField mapping k)) = some true := by
  have hkeys : Store.keyEqualities mapping keys =
      keys.foldl (fun c k => c.conjoin (.equal (.field k) (.field (renamedField mapping k))))
        Condition.empty := by
    apply List.foldl_ext
    intro c k hk
    obtain ⟨k', hk'⟩ := hpaired k hk
    simp only [hk', renamedField, Option.getD_some]
  rw [Scene.holds, Condition.truthIn_eq, hkeys, Condition.truthBy_foldl_equal _ _ _ rfl,
    Condition.truthBy_empty, beq_self_eq_true, Bool.true_and, List.all_eq_true]
  apply forall₂_congr
  intro k _
  exact beq_iff_eq

end

/-! ## Rows of the target -/

/-- Whether the fields that identify a row of a table are present. -/
def Scene.Present {V : Type} (R : Valuation V) (S : Scene V) (target : TableRef) (raw : String → V) :
    Prop :=
  ∀ k ∈ S.store.targetKeys target, R.isNull (raw (S.store.field k).physicalName) = false

/-- Whether a table that has fields is a source of a query, and has rows of its own, which their keys
tell apart. -/
structure Scene.Identifies {V : Type} (R : Valuation V) (S : Scene V) (q : QueryRef)
    (target : TableRef) (rows : List (String → V)) : Prop where
  listed : .table target ∈ (S.store.query q).allSources.map (·.item)
  fields : (S.store.table target).fields ≠ []
  constant : ∀ ρ, S.tableRows (S.store.table target).name (S.store.table target).kind ρ = rows
  unique : ∀ raw ∈ rows, ∀ raw' ∈ rows,
    (∀ k ∈ S.store.targetKeys target,
      R.compare .equal (raw (S.store.field k).physicalName)
        (raw' (S.store.field k).physicalName) = some true) → raw = raw'

/-- What is in view on a row of a copy. -/
def Scene.copyView {V : Type} (R : Valuation V) (S : Scene V) (outer : Env V) (copy : TableRef)
    (raw : String → V) : Env V :=
  S.view R outer [(.table copy, some (S.tableRow R copy raw))]

theorem Store.targetKeys_ne_nil {s : Store} {target : TableRef}
    (h : (s.table target).fields ≠ []) : s.targetKeys target ≠ [] := by
  unfold targetKeys
  split
  · exact h
  · next hkeys => simpa using hkeys

theorem Valuation.isNull_of_equal {V : Type} {R : Valuation V} {v w : V}
    (h : R.compare .equal v w = some true) : R.isNull v = false ∧ R.isNull w = false := by
  constructor
  · by_contra hnull
    rw [R.equal_null v w (.inl (by simpa using hnull))] at h
    cases h
  · by_contra hnull
    rw [R.equal_null v w (.inr (by simpa using hnull))] at h
    cases h

section

variable {V : Type} {R : Valuation V} {S S' : Scene V} {outer : Env V} {q : QueryRef}
  {target : TableRef} {rows : List (String → V)} {raw : String → V} {s : Store}

/-- A field of a copy has the value that the row has under its name. -/
theorem Scene.field_copyView {copy : TableRef} {f f' : FieldRef}
    (h : Store.Copied s S.store copy f f') :
    (S.copyView R outer copy raw).field f' = raw (s.field f).physicalName := by
  have htable : (S.store.field f').table = copy := by rw [h.field]
  have hname : (S.store.field f').physicalName = (s.field f).physicalName := by rw [h.field]
  have hlookup : List.lookup (SourceItem.table copy)
      [(SourceItem.table copy, some (S.tableRow R copy raw))] =
        some (some (S.tableRow R copy raw)) := List.lookup_cons_self
  rw [Scene.copyView, Scene.view]
  dsimp only
  rw [htable, JoinedRow.read_of_lookup hlookup, Option.map_some, Option.getD_some, Scene.tableRow]
  dsimp only
  rw [if_pos h.listed, hname]

/-- The copy hides nothing of what was there. -/
theorem Scene.Continues.agree_copyView (h : S.Continues R q S') (hlinked : S.store.Linked)
    {copy : TableRef} (hcopy : S.store.tables.size ≤ copy.index) :
    S.store.Agree outer (S'.copyView R outer copy raw) := by
  constructor
  · intro f hf
    apply JoinedRow.read_of_notMem
    rw [h.store.field f hf]
    intro hmem
    have htable : (S.store.field f).table = copy := by simpa using hmem
    have hlt := hlinked.table_lt hf
    rw [htable] at hlt
    omega
  · intro c hc
    have hmem : SourceItem.query (S'.store.column c).parent ∉
        [(SourceItem.table copy, some (S'.tableRow R copy raw))].map (·.1) := by simp
    exact (JoinedRow.read_of_notMem hmem (·.column c) (outer.column c) : JoinedRow.read R _ _ _ _ = _)

/-- What a combination of the sources of a query has of its target. -/
theorem Scene.Identifies.entry (h : S.Identifies R q target rows) {row : JoinedRow V}
    (hrow : row ∈ combinedSources R S (S.store.query q).sources outer) :
    row.lookup (.table target) = some none ∨
      ∃ raw ∈ rows, row.lookup (.table target) = some (some (S.tableRow R target raw)) := by
  have hcombines := combines_sources hrow
  have hmem : .table target ∈ row.map (·.1) := by
    rw [hcombines.items]
    exact h.listed
  have hsome : (row.lookup (.table target)).isSome = true := by
    obtain ⟨entry, hentry, hitem⟩ := List.mem_map.mp hmem
    exact List.lookup_isSome_iff.mpr ⟨entry, hentry, beq_iff_eq.mpr hitem.symm⟩
  obtain ⟨entry, hlookup⟩ := Option.isSome_iff_exists.mp hsome
  cases entry with
  | none => exact .inl hlookup
  | some σ =>
    right
    obtain ⟨before, after, hsplit, -⟩ := List.lookup_eq_some_iff.mp hlookup
    have hentry : (SourceItem.table target, some σ) ∈ row := by
      rw [hsplit]
      exact List.mem_append_right _ List.mem_cons_self
    obtain ⟨ρ, hσ⟩ := hcombines.entries _ hentry σ rfl
    rw [Scene.itemRows, h.constant ρ] at hσ
    obtain ⟨raw, hraw, rfl⟩ := List.mem_map.mp hσ
    exact ⟨raw, hraw, hlookup⟩

/-- A field of a table has the value that the row has under its name. -/
theorem Scene.field_tableRow {f : FieldRef} (hf : f ∈ (S.store.table target).fields) :
    (S.tableRow R target raw).field f = raw (S.store.field f).physicalName := by
  rw [Scene.tableRow]
  dsimp only
  rw [if_pos hf]

/-- A field of the target is read off the combination. -/
theorem Scene.Continues.field_view (h : S.Continues R q S') (hlinked : S.store.Linked)
    {f : FieldRef} (hf : f ∈ (S.store.table target).fields) (ρ : Env V) (row : JoinedRow V) :
    (S'.view R ρ row).field f = row.read R (.table target) (·.field f) (ρ.field f) := by
  have howner := hlinked.owner target f hf
  rw [Scene.view]
  dsimp only
  rw [h.store.field f howner.1, howner.2]

/-- A field of the copy is read off the row of the copy, in every combination of the old sources. -/
theorem Scene.field_view_copyView {copy : TableRef} {f f' : FieldRef} {row : JoinedRow V}
    (h : Store.Copied s S.store copy f f') (hrow : .table copy ∉ row.map (·.1)) :
    (S.view R (S.copyView R outer copy raw) row).field f' = raw (s.field f).physicalName := by
  have htable : (S.store.field f').table = copy := by rw [h.field]
  rw [Scene.view]
  dsimp only
  rw [htable, JoinedRow.read_of_notMem hrow, Scene.field_copyView h]

/-- The keys of a row of the target are equal to those of a row of the copy exactly on the
combinations that have this row, if its keys are present. -/
theorem Scene.matches_key {mapping : List (FieldRef × FieldRef)} {copy : TableRef}
    {row : JoinedRow V}
    (h : S.Continues R q S') (hlinked : S.store.Linked) (hid : S.Identifies R q target rows)
    (hcopied : ∀ f ∈ (S.store.table target).fields, ∃ f',
      Store.paired mapping f = some f' ∧ S.store.Copied S'.store copy f f')
    (hknown : ∀ x ∈ (S.store.query q).allSources, S.store.KnowsItem q x.item)
    (hcopy : S.store.tables.size ≤ copy.index)
    (hrow : row ∈ combinedSources R S (S.store.query q).sources outer) (hraw : raw ∈ rows) :
    S'.holds R (S'.copyView R outer copy raw)
        (Store.keyEqualities mapping (S.store.targetKeys target)) row = true ↔
      row.lookup (.table target) = some (some (S.tableRow R target raw)) ∧
        S.Present R target raw := by
  have hkeys : S.store.targetKeys target ⊆ (S.store.table target).fields :=
    Store.targetKeys_subset
  have hitems : .table copy ∉ row.map (·.1) := by
    intro hmem
    rw [(combines_sources hrow).items] at hmem
    obtain ⟨x, hx, hitem⟩ := List.mem_map.mp hmem
    have hlt := hknown x hx
    rw [hitem] at hlt
    exact absurd hlt (Nat.not_lt_of_le hcopy)
  -- the two sides of the equality of a key
  have hleft (k : FieldRef) (hk : k ∈ S.store.targetKeys target) :=
    h.field_view hlinked (hkeys hk) (S'.copyView R outer copy raw) row
  have hright (k : FieldRef) (hk : k ∈ S.store.targetKeys target) :
      (S'.view R (S'.copyView R outer copy raw) row).field (renamedField mapping k) =
        raw (S.store.field k).physicalName := by
    obtain ⟨k', hpaired, hk'⟩ := hcopied k (hkeys hk)
    have hrenamed : renamedField mapping k = k' := by rw [renamedField, hpaired, Option.getD_some]
    rw [hrenamed, Scene.field_view_copyView hk' hitems]
  rw [holds_keyEqualities fun k hk => (hcopied k (hkeys hk)).imp fun _ hk' => hk'.1]
  constructor
  · intro hequal
    rcases hid.entry hrow with hlookup | ⟨raw', hraw', hlookup⟩
    · -- nothing is equal to the keys of an absent row
      obtain ⟨k, hk⟩ := List.exists_mem_of_ne_nil _ (Store.targetKeys_ne_nil hid.fields)
      have hkey := hequal k hk
      rw [hleft k hk, JoinedRow.read_of_lookup hlookup] at hkey
      have hpresent := (Valuation.isNull_of_equal hkey).1
      rw [Option.map_none, Option.getD_none, R.isNull_null] at hpresent
      cases hpresent
    · have hsame (k : FieldRef) (hk : k ∈ S.store.targetKeys target) :
          R.compare .equal (raw' (S.store.field k).physicalName)
            (raw (S.store.field k).physicalName) = some true := by
        have hkey := hequal k hk
        rwa [hleft k hk, hright k hk, JoinedRow.read_of_lookup hlookup, Option.map_some,
          Option.getD_some, Scene.field_tableRow (hkeys hk)] at hkey
      constructor
      · rw [hlookup, hid.unique raw' hraw' raw hraw hsame]
      · intro k hk
        exact (Valuation.isNull_of_equal (hsame k hk)).2
  · rintro ⟨hlookup, hpresent⟩ k hk
    rw [hleft k hk, hright k hk, JoinedRow.read_of_lookup hlookup, Option.map_some,
      Option.getD_some, Scene.field_tableRow (hkeys hk)]
    exact R.equal_self _ (hpresent k hk)

end

/-! ## The filter -/

/-- `EXISTS` asks whether a query has rows. -/
theorem Condition.truthIn_existsIn {V : Type} {R : Valuation V} {P : Place V} (q : QueryRef) :
    (Condition.empty.conjoin (.existsIn q)).truthIn R P = some (!(P.rowsOf q).isEmpty) := by
  have hand (b : Bool) : Truth.and (some true) (Truth.signed false (some b)) = some b := by
    cases b <;> rfl
  exact hand _

theorem Condition.isEmpty_of_conjoinAll {c d : Condition} (h : (c.conjoinAll d).isEmpty = true) :
    d.isEmpty = true := by
  by_contra hd
  unfold conjoinAll at h
  rw [if_neg hd] at h
  split at h
  · exact hd h
  · dsimp only [conjoin, isEmpty] at h
    rw [List.isEmpty_iff, List.append_eq_nil_iff] at h
    have hadded := h.2
    split at hadded
    · cases hadded
    · exact hd (List.isEmpty_iff.mpr hadded)

section

variable {V : Type} {R : Valuation V} {S S' : Scene V} {outer : Env V} {t : StatementRef}
  {target : TableRef} {rows : List (String → V)} {raw : String → V} {s s' : Store}

/-- A condition to which another one is added is true where both are. -/
theorem Scene.holds_conjoinAll (c d : Condition) (row : JoinedRow V) :
    S.holds R outer (c.conjoinAll d) row = (S.holds R outer c row && S.holds R outer d row) := by
  rw [Scene.holds, Condition.truthIn_conjoinAll, Truth.and_beq_true]
  rfl

theorem Scene.holds_of_isEmpty {c : Condition} (h : c.isEmpty = true) (row : JoinedRow V) :
    S.holds R outer c row = true := by
  cases c with
  | mk branches =>
    cases branches with
    | nil => rfl
    | cons b rest => cases h

/-- The filter of a value, which is the condition on the keys if there is no other. -/
theorem Scene.holds_valueFilter (c key : Condition) (row : JoinedRow V) :
    S.holds R outer (if (c.conjoinAll key).isEmpty then key else c.conjoinAll key) row =
      (S.holds R outer c row && S.holds R outer key row) := by
  split
  · next hempty =>
    have hkey := Condition.isEmpty_of_conjoinAll hempty
    rw [← Scene.holds_conjoinAll, Scene.holds_of_isEmpty hempty, Scene.holds_of_isEmpty hkey]
  · exact Scene.holds_conjoinAll c key row

section

variable (h : S.Continues R (S.store.statement t).query S') (hlinked : S.store.Linked)
  (hlocal : S.IsLocal) (hknows : S.store.KnowsModification t)
include h hlinked hlocal hknows

/-- A query over the same sources with a further condition keeps the combinations on which it is
true. -/
theorem Scene.Continues.qualifying_key {ρ : Env V} {query : Query} (key : Condition)
    (hagree : S.store.Agree outer ρ)
    (hsources : query.sources = (S.store.query (S.store.statement t).query).sources)
    (hwhere : ∀ row, S'.holds R ρ query.whereClause row =
      (S'.holds R ρ (S.store.query (S.store.statement t).query).whereClause row &&
        S'.holds R ρ key row)) :
    query.qualifying R S' ρ = (S.combinations R outer t).filter (S'.holds R ρ key) := by
  have hrows (x : Source) (hx : x ∈ (S.store.query (S.store.statement t).query).allSources) :=
    h.sameRows hlinked hlocal (hknows.sources x hx)
  have hjoins (c : Condition) (hc : c ∈ (S.store.query
      (S.store.statement t).query).sources.flatMap Store.joinConditions) :=
    h.sameTruth hlinked hlocal (hknows.joins c hc)
  have hcondition := h.sameTruth hlinked hlocal hknows.whereClause
  have hfilter (row : JoinedRow V) := h.relates.holds_eq hcondition hagree row
  rw [Query.qualifying, Scene.combinations, Query.qualifying, List.filter_filter, hsources,
    combinedSources_congr h.relates hrows hjoins hagree]
  apply List.filter_congr
  intro row _
  rw [hwhere, hfilter, Bool.and_comm]

/-- The rows of the query of a modification that has been moved, or of one of its values. -/
theorem Scene.Continues.queryRows_key {ρ : Env V} {r : QueryRef} (key : Condition)
    (hagree : S.store.Agree outer ρ)
    (hr : r = (S.store.statement t).query ∨ S.store.queries.size ≤ r.index)
    (hfilter : (S'.store.query r).IsFilter)
    (hplain : ∀ c ∈ (S'.store.query r).columns,
      (S'.store.column c).expression.anyPart Scalar.isAggregate = false)
    (hsources : (S'.store.query r).sources =
      (S.store.query (S.store.statement t).query).sources)
    (hwhere : ∀ row, S'.holds R ρ (S'.store.query r).whereClause row =
      (S'.holds R ρ (S.store.query (S.store.statement t).query).whereClause row &&
        S'.holds R ρ key row)) :
    S'.queryRows r ρ =
      ((S.combinations R outer t).filter (S'.holds R ρ key)).map fun row =>
        (S'.store.query r).columns.map fun c =>
          (S'.store.column c).expression.valueIn R (S'.place (S'.view R ρ row)) := by
  rw [h.computes r hr hfilter hplain, Scene.selectedRows,
    h.qualifying_key hlinked hlocal hknows key hagree hsources hwhere]

end

/-! ## Modifications that have been moved -/

theorem Scene.touches_iff (htarget : S.store.modified? t = some target) {row : JoinedRow V} :
    S.Touches R t raw row ↔
      row.lookup (.table target) = some (some (S.tableRow R target raw)) := by
  constructor
  · rintro ⟨named, hnamed, hlookup⟩
    cases htarget.symm.trans hnamed
    exact hlookup
  · exact fun hlookup => ⟨target, htarget, hlookup⟩

section

variable (h : S.Continues R (S.store.statement t).query S') (hlinked : S.store.Linked)
  (hlocal : S.IsLocal) (hknows : S.store.KnowsModification t)
  (hmoved : S.store.Moved t target S'.store)
  (hfilter : (S.store.query (S.store.statement t).query).IsFilter)
  (htarget : S.store.modified? t = some target)
  (hid : S.Identifies R (S.store.statement t).query target rows)
include h hlinked hknows hmoved htarget hid

/-- A combination has the keys of a row of the copy exactly if it has the row of the target. -/
theorem Scene.Continues.holds_key (hraw : raw ∈ rows) {row : JoinedRow V}
    (hrow : row ∈ S.combinations R outer t) :
    S'.holds R (S'.copyView R outer ⟨S.store.tables.size⟩ raw)
        (S.store.rebase (S.store.statement t).query target).1.keyCondition row = true ↔
      S.Touches R t raw row ∧ S.Present R target raw := by
  rw [Store.keyCondition_rebase, Scene.touches_iff htarget]
  exact Scene.matches_key h hlinked hid hmoved.copied hknows.sources (Nat.le_refl _)
    (List.mem_filter.mp hrow).1 hraw

include hlocal hfilter

/-- The combinations of a modification that has been moved: the rows of the copy for which the old
one has some combination. -/
theorem Scene.Continues.mem_combinations {row : JoinedRow V} :
    row ∈ S'.combinations R outer t ↔
      ∃ raw ∈ rows, row =
          [(.table ⟨S.store.tables.size⟩, some (S'.tableRow R ⟨S.store.tables.size⟩ raw))] ∧
        S.Hits R outer t raw ∧ S.Present R target raw := by
  have hrows : S'.itemRows R outer (.table ⟨S.store.tables.size⟩) =
      rows.map (S'.tableRow R ⟨S.store.tables.size⟩) := by
    rw [Scene.itemRows, hmoved.name, hmoved.kind, h.tableRows, hid.constant]
  have hexists (raw : String → V) (hraw : raw ∈ rows) :
      S'.holds R outer (Condition.empty.conjoin (.existsIn (S.store.statement t).query))
          [(.table ⟨S.store.tables.size⟩, some (S'.tableRow R ⟨S.store.tables.size⟩ raw))] = true ↔
        S.Hits R outer t raw ∧ S.Present R target raw := by
    have hagree : S.store.Agree outer (S'.copyView R outer ⟨S.store.tables.size⟩ raw) :=
      h.agree_copyView hlinked (Nat.le_refl _)
    have hquery := h.queryRows_key hlinked hlocal hknows
      (S.store.rebase (S.store.statement t).query target).1.keyCondition hagree (.inl rfl)
    rw [hmoved.filter] at hquery
    have hquery := hquery
      ⟨hfilter.distinct, hfilter.take, hfilter.skip, hfilter.grouping, hfilter.having,
        hfilter.setOperators⟩ (List.forall_mem_nil _) rfl (Scene.holds_conjoinAll _ _)
    have hnonempty : S'.holds R outer
        (Condition.empty.conjoin (.existsIn (S.store.statement t).query))
          [(.table ⟨S.store.tables.size⟩, some (S'.tableRow R ⟨S.store.tables.size⟩ raw))] =
        !(S'.queryRows (S.store.statement t).query
          (S'.copyView R outer ⟨S.store.tables.size⟩ raw)).isEmpty := by
      have hsome (b : Bool) : (some b == some true) = b := by cases b <;> rfl
      rw [Scene.holds, Condition.truthIn_existsIn]
      exact hsome _
    rw [hnonempty, hquery, List.isEmpty_map, Bool.not_eq_true', List.isEmpty_eq_false_iff_exists_mem]
    constructor
    · rintro ⟨row, hrow⟩
      have hparts := List.mem_filter.mp hrow
      have hkey := (h.holds_key hlinked hknows hmoved htarget hid hraw hparts.1).mp hparts.2
      exact ⟨⟨row, hparts.1, hkey.1⟩, hkey.2⟩
    · rintro ⟨⟨row, hrow, htouches⟩, hpresent⟩
      refine ⟨row, List.mem_filter.mpr ⟨hrow, ?_⟩⟩
      exact (h.holds_key hlinked hknows hmoved htarget hid hraw hrow).mpr ⟨htouches, hpresent⟩
  have hcombinations : S'.combinations R outer t =
      (rows.map fun raw => [(SourceItem.table ⟨S.store.tables.size⟩,
        some (S'.tableRow R ⟨S.store.tables.size⟩ raw))]).filter
          (S'.holds R outer (Condition.empty.conjoin (.existsIn (S.store.statement t).query))) := by
    rw [Scene.combinations, hmoved.query, hmoved.outer, Query.qualifying, combinedSources_ofTable,
      hrows, List.map_map]
    rfl
  rw [hcombinations, List.mem_filter, List.mem_map]
  constructor
  · rintro ⟨⟨raw, hraw, rfl⟩, hholds⟩
    exact ⟨raw, hraw, rfl, (hexists raw hraw).mp hholds⟩
  · rintro ⟨raw, hraw, rfl, hhits⟩
    exact ⟨⟨raw, hraw, rfl⟩, (hexists raw hraw).mpr hhits⟩

/-- The combinations of a modification that has been moved that have a given row: the row of the
copy alone, if the old one has some combination for it. -/
theorem Scene.Continues.touching_iff (hraw : raw ∈ rows) {row : JoinedRow V} :
    row ∈ S'.combinations R outer t ∧ S'.Touches R t raw row ↔
      row = [(.table ⟨S.store.tables.size⟩, some (S'.tableRow R ⟨S.store.tables.size⟩ raw))] ∧
        S.Hits R outer t raw ∧ S.Present R target raw := by
  have hnamed : S'.store.modified? t = some ⟨S.store.tables.size⟩ := by
    rw [Store.modified?, hmoved.named]
    rfl
  rw [h.mem_combinations hlinked hlocal hknows hmoved hfilter htarget hid,
    Scene.touches_iff hnamed]
  constructor
  · rintro ⟨⟨raw', hraw', rfl, hhits, hpresent⟩, hlookup⟩
    rw [List.lookup_cons_self, Option.some_inj, Option.some_inj] at hlookup
    -- the two rows have the same keys
    have hkey (k : FieldRef) (hk : k ∈ S.store.targetKeys target) :
        R.compare .equal (raw' (S.store.field k).physicalName)
          (raw (S.store.field k).physicalName) = some true := by
      obtain ⟨k', -, hcopied⟩ := hmoved.copied k (Store.targetKeys_subset hk)
      have hfield : (S'.copyView R outer ⟨S.store.tables.size⟩ raw).field k' =
          raw (S.store.field k).physicalName := Scene.field_copyView hcopied
      have hfield' : (S'.copyView R outer ⟨S.store.tables.size⟩ raw').field k' =
          raw' (S.store.field k).physicalName := Scene.field_copyView hcopied
      rw [Scene.copyView, ← hlookup] at hfield
      rw [← hfield'.symm.trans hfield]
      exact R.equal_self _ (hpresent k hk)
    cases hid.unique raw' hraw' raw hraw hkey
    exact ⟨rfl, hhits, hpresent⟩
  · rintro ⟨rfl, hhits⟩
    exact ⟨⟨raw, hraw, rfl, hhits⟩, List.lookup_cons_self⟩

end

/-! ## Values -/

/-- A column that is assigned keeps its name. -/
theorem Store.Moved.columnName?_renamed (hmoved : s.Moved t target s') {e : Scalar}
    (he : ∀ p ∈ e.walk, s.Knows (s.statement t).query p) :
    s'.columnName? ((fieldRenaming (s.rebase (s.statement t).query target).1.mapping).scalar e) =
      s.columnName? e := by
  cases e with
  | field f =>
    have hf : f.index < s.fields.size := he _ List.mem_cons_self
    change some (s'.field (renamedField _ f)).physicalName = some (s.field f).physicalName
    by_cases hown : f ∈ (s.table target).fields
    · obtain ⟨f', hpaired, hcopied⟩ := hmoved.copied f hown
      rw [renamedField, hpaired, Option.getD_some, hcopied.field]
    · rw [renamedField, hmoved.others f hown, Option.getD_none, hmoved.keeps.field f hf]
  | _ => rfl

section

variable (hlinked : S.store.Linked) (hmoved : S.store.Moved t target S'.store)
include hlinked hmoved

/-- A value that reads the target alone is the same on the row of the copy. -/
theorem Scene.valueIn_copyView {e : Scalar} {row : JoinedRow V}
    (he : ∀ p ∈ e.walk, S.store.Knows (S.store.statement t).query p)
    (hown : S.store.readsOther target e = false) (hwhole : e.anyPart Scalar.isWholeRow = false)
    (hrow : row.lookup (.table target) = some (some (S.tableRow R target raw))) :
    ((fieldRenaming (S.store.rebase (S.store.statement t).query target).1.mapping).scalar
        e).valueIn R (S'.place (S'.copyView R outer ⟨S.store.tables.size⟩ raw)) =
      e.valueIn R (S.place (S.view R outer row)) := by
  apply Scalar.valueIn_renamed
  intro p hp
  have hpart := List.any_eq_false.mp hown p hp
  have hfields := List.any_eq_false.mp hwhole p hp
  cases p with
  | field f =>
    have hf : f.index < S.store.fields.size := he _ hp
    have htable : (S.store.field f).table = target := by simpa using hpart
    have hlisted : f ∈ (S.store.table target).fields := htable ▸ hlinked.listed f hf
    obtain ⟨f', hpaired, hcopied⟩ := hmoved.copied f hlisted
    have hleft : (S.view R outer row).field f = raw (S.store.field f).physicalName := by
      rw [Scene.view]
      dsimp only
      rw [htable, JoinedRow.read_of_lookup hrow, Option.map_some, Option.getD_some,
        Scene.field_tableRow hlisted]
    change (S'.copyView R outer ⟨S.store.tables.size⟩ raw).field (renamedField _ f) =
      (S.view R outer row).field f
    rw [renamedField, hpaired, Option.getD_some, Scene.field_copyView hcopied, hleft]
  | allFields t | tableSource t => simp [Scalar.isWholeRow] at hfields
  | column c | query q => simp at hpart
  | _ => trivial

variable (h : S.Continues R (S.store.statement t).query S') (hlocal : S.IsLocal)
  (hknows : S.store.KnowsModification t) (htarget : S.store.modified? t = some target)
  (hid : S.Identifies R (S.store.statement t).query target rows)
include h hlocal hknows htarget hid

/-- A value that reads anything else is selected on the one combination that has the row. -/
theorem Scene.Continues.valueIn_selected {e : Scalar} {sub : QueryRef} {row : JoinedRow V}
    (hraw : raw ∈ rows) (hpresent : S.Present R target raw)
    (halone : Alone (S.Touches R t raw) (S.combinations R outer t) row)
    (he : ∀ p ∈ e.walk, S.store.Knows (S.store.statement t).query p)
    (hplain : e.anyPart Scalar.isAggregate = false) (hfresh : S.store.queries.size ≤ sub.index)
    (hselects : S'.store.SelectsValue (S'.store.query (S.store.statement t).query)
      (S.store.rebase (S.store.statement t).query target).1 sub e) :
    R.single (S'.queryRows sub (S'.copyView R outer ⟨S.store.tables.size⟩ raw)) =
      e.valueIn R (S.place (S.view R outer row)) := by
  obtain ⟨-, c, -, hcolumn, hquery⟩ := hselects
  have hagree : S.store.Agree outer (S'.copyView R outer ⟨S.store.tables.size⟩ raw) :=
    h.agree_copyView hlinked (Nat.le_refl _)
  have hrows := h.queryRows_key hlinked hlocal hknows
    (S.store.rebase (S.store.statement t).query target).1.keyCondition hagree (.inr hfresh)
  rw [hquery, hmoved.filter] at hrows
  have hrows := hrows ⟨rfl, rfl, rfl, rfl, rfl, rfl⟩
    (fun c' hc' => by rw [List.mem_singleton.mp hc', hcolumn, hplain]) rfl
    (Scene.holds_valueFilter _ _)
  have hone := halone.filter_eq fun row hrow =>
    (h.holds_key hlinked hknows hmoved htarget hid hraw hrow).trans (and_iff_left hpresent)
  rw [hrows, hone, List.map_singleton, List.map_singleton, R.single_singleton, hcolumn]
  exact h.valueIn_eq hlinked hlocal (h.relates _ _ row hagree) he

/-- A value is the same on the row of the copy, if the row stands in one combination. -/
theorem Scene.Continues.value_eq {v v' : Option Scalar} {row : JoinedRow V} (hraw : raw ∈ rows)
    (hpresent : S.Present R target raw)
    (halone : Alone (S.Touches R t raw) (S.combinations R outer t) row)
    (hvalue : S.store.MovedValue S'.store (S'.store.query (S.store.statement t).query) target
      (S.store.rebase (S.store.statement t).query target).1 v v')
    (he : ∀ e, v = some e → ∀ p ∈ e.walk, S.store.Knows (S.store.statement t).query p)
    (hplain : ∀ e, v = some e → e.anyPart Scalar.isAggregate = false ∧
      (S.store.readsOther target e = false → e.anyPart Scalar.isWholeRow = false)) :
    v'.map (fun e => e.valueIn R (S'.place (S'.copyView R outer ⟨S.store.tables.size⟩ raw))) =
      v.map fun e => e.valueIn R (S.place (S.view R outer row)) := by
  cases hvalue with
  | absent => rfl
  | @own e hown =>
    have htouches : S.Touches R t raw row := by
      obtain ⟨_, _, _, htouches, _⟩ := halone
      exact htouches
    exact congrArg some (Scene.valueIn_copyView hlinked hmoved (he e rfl) hown
      ((hplain e rfl).2 hown) ((Scene.touches_iff htarget).mp htouches))
  | @other e sub _ hfresh hselects =>
    exact congrArg some (h.valueIn_selected hlinked hmoved hlocal hknows htarget hid hraw
      hpresent halone (he e rfl) (hplain e rfl).1 hfresh hselects)

/-- What is assigned to a row that stands in one combination stays the same. -/
theorem Scene.Continues.assignments_eq {row : JoinedRow V} (hraw : raw ∈ rows)
    (hpresent : S.Present R target raw) (hvalues : S.store.AssignsFields t target)
    (halone : Alone (S.Touches R t raw) (S.combinations R outer t) row) :
    S'.assignments R outer t
        [(.table ⟨S.store.tables.size⟩, some (S'.tableRow R ⟨S.store.tables.size⟩ raw))] =
      S.assignments R outer t row := by
  have hitems := (List.forall₂_and_left (p := (· ∈ (S.store.statement t).body.assigned)) _ _).mpr
    ⟨fun _ hitem => hitem, hmoved.items⟩
  unfold Scene.assignments
  symm
  rw [← List.forall₂_eq_eq_eq, List.forall₂_map_left_iff, List.forall₂_map_right_iff]
  apply hitems.imp
  rintro item item' ⟨hitem, hmovedItem⟩
  have hname : S'.store.columnName? item'.target = S.store.columnName? item.target := by
    rw [hmovedItem.target]
    exact hmoved.columnName?_renamed (hknows.targets item hitem)
  have hvalue := h.value_eq hlinked hmoved hlocal hknows htarget hid hraw hpresent halone
    hmovedItem.value (hknows.values item hitem) (hvalues item hitem)
  exact congrArg₂ Prod.mk hname.symm hvalue.symm

end

end

/-! ## Scenes of a modification that has been moved -/

section

variable {V : Type} {S : Scene V} {t : StatementRef} {target : TableRef} {s' : Store}
  (hknows : S.store.KnowsModification t)
include hknows

/-- A query over the sources of a modification reads what was there, if its own parts do. -/
theorem Scene.readsOnly_of_sources {r : QueryRef}
    (hsources : (s'.query r).sources = (S.store.query (S.store.statement t).query).sources)
    (hwhere : ∀ p, .query p ∈ (s'.query r).whereClause.walk →
      .query p ∈ (S.store.query (S.store.statement t).query).whereClause.walk)
    (hcolumns : ∀ c ∈ (s'.query r).columns, ∀ p ∈ (s'.column c).expression.walk,
      S.store.Knows (S.store.statement t).query p) :
    s'.ReadsOnly (S.Settled (S.store.statement t).query) r := by
  constructor
  · intro x hx p hp
    have hknown := hknows.sources x (by rwa [Query.allSources, ← hsources])
    rwa [hp] at hknown
  · intro c hc p hp
    exact hknows.joins c (by rwa [← hsources]) _ hp
  · intro p hp
    exact hknows.whereClause _ (hwhere p hp)
  · intro c hc p hp
    exact hcolumns c hc _ hp

omit hknows in
/-- The query over the copy reads the one that has become its filter. -/
theorem Store.Moved.readsOnly_outer (hmoved : S.store.Moved t target s') :
    s'.ReadsOnly (· = (S.store.statement t).query) ⟨S.store.queries.size⟩ := by
  have hquery := hmoved.outer
  constructor
  · intro x hx p hp
    rw [hquery] at hx
    cases List.mem_singleton.mp hx
    cases hp
  · intro c hc
    rw [hquery] at hc
    cases hc
  · intro p hp
    rw [hquery] at hp
    simpa [Predicate.existsIn, Predicate.walk, Call.plain, Call.walk, walkScalars, Scalar.walk]
      using hp
  · intro c hc
    rw [hquery] at hc
    cases hc

/-- There is a scene of a modification that has been moved. -/
theorem Store.Moved.exists_continues (hmoved : S.store.Moved t target s') (R : Valuation V) :
    ∃ S' : Scene V, S'.store = s' ∧ S.Continues R (S.store.statement t).query S' := by
  have hkey (p : QueryRef) : .query p ∉
      (S.store.rebase (S.store.statement t).query target).1.keyCondition.walk := by
    rw [Store.keyCondition_rebase]
    exact Store.query_notMem_keyEqualities _ _ p
  have hwhere (p : QueryRef)
      (hp : .query p ∈ (s'.query (S.store.statement t).query).whereClause.walk) :
      .query p ∈ (S.store.query (S.store.statement t).query).whereClause.walk := by
    rw [hmoved.filter] at hp
    exact (Condition.mem_walk_conjoinAll.mp hp).resolve_right (hkey p)
  have hsources : (s'.query (S.store.statement t).query).sources =
      (S.store.query (S.store.statement t).query).sources := by rw [hmoved.filter]
  have hcolumns : (s'.query (S.store.statement t).query).columns = [] := by rw [hmoved.filter]
  apply Scene.exists_continues hmoved.keeps
  · apply Scene.readsOnly_of_sources hknows hsources hwhere
    rw [hcolumns]
    exact List.forall_mem_nil _
  · intro r hr
    by_cases houter : r = ⟨S.store.queries.size⟩
    · subst houter
      exact hmoved.readsOnly_outer.mono fun _ => .inr
    by_cases hlt : r.index < s'.queries.size
    · -- a query that selects an assigned value
      have hlater : S.store.queries.size < r.index :=
        Nat.lt_of_le_of_ne hr fun heq => houter (congrArg QueryRef.mk heq.symm)
      obtain ⟨item, hitem, e, he, -, c, -, hcolumn, hquery⟩ := hmoved.added r hlater hlt
      apply (Scene.readsOnly_of_sources hknows ?_ ?_ ?_).mono fun _ => .inl
      · rw [hquery, hsources]
      · intro p hp
        rw [hquery] at hp
        dsimp only at hp
        split at hp
        · exact absurd hp (hkey p)
        · exact hwhere p hp
      · intro c' hc'
        rw [hquery] at hc'
        rw [List.mem_singleton.mp hc', hcolumn]
        exact hknows.values item hitem e he
    · exact .of_le (Nat.le_of_not_lt hlt)

end

/-! ## The statement -/

/-- An update or a delete over several tables that is moved to a copy of its target hits exactly the
rows of the target that it hit, as far as their keys are present, and assigns what it assigned to a
row that stands in one combination. -/
theorem Store.split_modifies {V : Type} {R : Valuation V} {S : Scene V} {outer : Env V}
    {t : StatementRef} {target : TableRef} {rows : List (String → V)} (hlinked : S.store.Linked)
    (hlocal : S.IsLocal) (hknows : S.store.KnowsModification t)
    (hbody : (S.store.statement t).body.isDelete = true ∨
      (S.store.statement t).body.isUpdate = true)
    (hmulti : (S.store.query (S.store.statement t).query).isMultiTable = true)
    (hfilter : (S.store.query (S.store.statement t).query).IsFilter)
    (htarget : S.store.modified? t = some target)
    (hid : S.Identifies R (S.store.statement t).query target rows)
    (hvalues : S.store.AssignsFields t target) :
    ∃ s', S.store.split t = (.ok (), s') ∧
      (∃ S' : Scene V, S'.store = s' ∧ S.Continues R (S.store.statement t).query S') ∧
      ∀ S' : Scene V, S'.store = s' → S.Continues R (S.store.statement t).query S' →
        ∀ raw ∈ rows,
          (S'.Hits R outer t raw ↔ S.Hits R outer t raw ∧ S.Present R target raw) ∧
          ∀ row, Alone (S.Touches R t raw) (S.combinations R outer t) row →
            ∀ row' ∈ S'.combinations R outer t, S'.Touches R t raw row' →
              S'.assignments R outer t row' = S.assignments R outer t row := by
  obtain ⟨s', hsplit, hmoved⟩ := split_moved hlinked hknows hmulti htarget hbody
  refine ⟨s', hsplit, hmoved.exists_continues hknows R, ?_⟩
  rintro S' rfl h raw hraw
  have htouching (row : JoinedRow V) :
      row ∈ S'.combinations R outer t ∧ S'.Touches R t raw row ↔ _ :=
    h.touching_iff hlinked hlocal hknows hmoved hfilter htarget hid hraw
  constructor
  · constructor
    · rintro ⟨row, hrow, htouches⟩
      exact ((htouching row).mp ⟨hrow, htouches⟩).2
    · intro hhits
      obtain ⟨hrow, htouches⟩ := (htouching _).mpr ⟨rfl, hhits⟩
      exact ⟨_, hrow, htouches⟩
  · intro row halone row' hrow' htouches'
    obtain ⟨rfl, -, hpresent⟩ := (htouching row').mp ⟨hrow', htouches'⟩
    exact h.assignments_eq hlinked hmoved hlocal hknows htarget hid hraw hpresent hvalues halone

/-- Two people by the names of their columns. -/
def people : List (String → Option Int) :=
  [[some 1, some 20], [some 2, some 40]].map (namedRow ["Id", "Age"])

theorem Store.knowsModification_pricedAges : pricedAges.KnowsModification ⟨0⟩ where
  statement := by decide
  query := by decide
  sources := by decide
  joins := by decide
  whereClause := by decide
  values item hitem e he := by
    cases List.mem_singleton.mp hitem
    cases he
    decide
  targets := by decide

theorem Store.targetKeys_pricedAges : pricedAges.targetKeys ⟨0⟩ = [⟨0⟩] := by decide +kernel

theorem people_eq_of_id {raw other : String → Option Int} (hraw : raw ∈ people)
    (hother : other ∈ people) (h : raw "Id" = other "Id") : raw = other := by
  simp only [people, List.map_cons, List.map_nil, List.mem_cons, List.not_mem_nil, or_false]
    at hraw hother
  rcases hraw with rfl | rfl <;> rcases hother with rfl | rfl
  · rfl
  · exact absurd h (by decide)
  · exact absurd h (by decide)
  · rfl

theorem Scene.identifies_people :
    (Scene.ofSales Store.pricedAges).Identifies .nullableIntegers ⟨0⟩ ⟨0⟩ people where
  listed := by decide
  fields := by decide
  constant _ := rfl
  unique := by
    intro raw hraw other hother hkeys
    have hequal : Valuation.nullableIntegers.compare .equal (raw "Id") (other "Id") = some true :=
      hkeys ⟨0⟩ (by rw [Scene.ofSales, Store.targetKeys_pricedAges]; exact List.mem_cons_self)
    apply people_eq_of_id hraw hother
    generalize raw "Id" = v at hequal ⊢
    generalize other "Id" = w at hequal ⊢
    cases v with
    | none => cases hequal
    | some n =>
      cases w with
      | none => cases hequal
      | some m =>
        have hsame : (n == m) = true := Option.some.inj hequal
        rw [beq_iff_eq.mp hsame]

/-- A person with the first order and its item. -/
def soldTo (raw : String → Option Int) : JoinedRow (Option Int) :=
  let row (t : TableRef) (names : List String) (values : List (Option Int)) :=
    (Scene.ofSales Store.pricedAges).tableRow .nullableIntegers t (namedRow names values)
  [(.table ⟨0⟩, some ((Scene.ofSales Store.pricedAges).tableRow .nullableIntegers ⟨0⟩ raw)),
    (.table ⟨1⟩, some (row ⟨1⟩ ["Id", "PersonId"] [some 10, some 1])),
    (.table ⟨2⟩, some (row ⟨2⟩ ["OrderId", "Price"] [some 10, some 5]))]

theorem id_of_touches {raw other : String → Option Int}
    (h : (Scene.ofSales Store.pricedAges).Touches .nullableIntegers ⟨0⟩ raw (soldTo other)) :
    other "Id" = raw "Id" := by
  obtain ⟨target, htarget, hlookup⟩ := h
  cases htarget
  exact Option.some.inj (congrArg (fun entry => entry.join.map (·.field ⟨0⟩)) hlookup)

/-- Both people have the one item with a price, and each of them its price as the new age. -/
theorem Store.split_modifies_pricedAges :
    ∃ s', pricedAges.split ⟨0⟩ = (.ok (), s') ∧ ∃ S' : Scene (Option Int), S'.store = s' ∧
      ∀ raw ∈ people, S'.Hits .nullableIntegers .nowhere ⟨0⟩ raw ∧
        ∀ row ∈ S'.combinations .nullableIntegers .nowhere ⟨0⟩,
          S'.Touches .nullableIntegers ⟨0⟩ raw row →
            S'.assignments .nullableIntegers .nowhere ⟨0⟩ row =
              [(some "Age", some (some 5))] := by
  have hvalues : pricedAges.AssignsFields ⟨0⟩ ⟨0⟩ := by
    intro item hitem e he
    cases List.mem_singleton.mp hitem
    cases he
    decide
  obtain ⟨s', hsplit, ⟨S', hstore, hcontinues⟩, hmodifies⟩ := @split_modifies _
    .nullableIntegers (.ofSales pricedAges) .nowhere ⟨0⟩ ⟨0⟩ people (linked_sales ..)
    ⟨fun _ _ _ _ _ => rfl, fun _ _ _ _ => rfl⟩ knowsModification_pricedAges (.inr rfl)
    rfl ⟨rfl, rfl, rfl, rfl, rfl, rfl⟩ rfl Scene.identifies_people hvalues
  refine ⟨s', hsplit, S', hstore, ?_⟩
  intro raw hraw
  obtain ⟨hhits, hassigned⟩ := hmodifies S' hstore hcontinues raw hraw
  have htouches : (Scene.ofSales pricedAges).Touches .nullableIntegers ⟨0⟩ raw (soldTo raw) :=
    ⟨⟨0⟩, rfl, rfl⟩
  have hpresent : (Scene.ofSales pricedAges).Present .nullableIntegers ⟨0⟩ raw := by
    have hall : ∀ raw ∈ people, (raw "Id").isNone = false := by decide
    intro k hk
    rw [Scene.ofSales, targetKeys_pricedAges] at hk
    cases List.mem_singleton.mp hk
    exact hall raw hraw
  have halone : Alone ((Scene.ofSales pricedAges).Touches .nullableIntegers ⟨0⟩ raw)
      (people.map soldTo) (soldTo raw) := by
    have hdistinct : people.Nodup := .of_map (· "Id") (by decide)
    obtain ⟨before, after, hsplit⟩ := List.append_of_mem hraw
    rw [hsplit] at hdistinct
    refine ⟨before.map soldTo, after.map soldTo, by rw [hsplit, List.map_append, List.map_cons],
      htouches, ?_⟩
    rw [← List.map_append]
    intro row hrow htouchesOther
    obtain ⟨other, hother, rfl⟩ := List.mem_map.mp hrow
    have hmember : other ∈ people := by
      rw [hsplit]
      exact List.perm_middle.mem_iff.mpr (List.mem_cons_of_mem _ hother)
    rw [people_eq_of_id hmember hraw (id_of_touches htouchesOther)] at hother
    exact (List.nodup_middle.mp hdistinct).notMem hother
  constructor
  · exact hhits.mpr ⟨⟨soldTo raw, List.mem_map_of_mem hraw, htouches⟩, hpresent⟩
  · intro row hrow hrowTouches
    exact hassigned (soldTo raw) halone row hrow hrowTouches

end SqlCompiler
