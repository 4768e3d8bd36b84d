import SqlCompiler.Proofs.Modifications.Combinations
import SqlCompiler.Proofs.Modifications.Copies

/-!
# Scenes that go on

When things are added to a store, what is there already means what it meant: the same sources have
the same rows, and the same expressions have the same values, wherever the same things are in view.
Only what is added, and the one query that changes, is computed anew.

Main results:

- Definition `Store.Linked`, `Store.Knows`: stores and references without loose ends.
- Definition `Scene.Continues`: the rows of tables and queries after things have been added.
- Theorem `Scene.Continues.relates`, `Scene.Continues.sameRows`, `Scene.Continues.sameTruth`,
  `Scene.Continues.valueIn_eq`: what is there already means what it meant.
-/

namespace SqlCompiler

/-! ## References -/

namespace Store

/-- Fields are listed by the tables that they belong to. -/
structure Linked (s : Store) : Prop where
  listed : ∀ f : FieldRef, f.index < s.fields.size → f ∈ (s.table (s.field f).table).fields
  owner : ∀ (t : TableRef) (f : FieldRef), f ∈ (s.table t).fields →
    f.index < s.fields.size ∧ (s.field f).table = t

/-- Whether what a part of an expression refers to is there, and is not the given query. -/
def Knows (s : Store) (q : QueryRef) : Scalar → Prop
  | .field f => f.index < s.fields.size
  | .column c => c.index < s.columns.size
  | .allFields t | .tableSource t => t.index < s.tables.size
  | .query r => r.index < s.queries.size ∧ r ≠ q
  | _ => True

/-- Whether what a source reads is there, and is not the given query. -/
def KnowsItem (s : Store) (q : QueryRef) : SourceItem → Prop
  | .table t => t.index < s.tables.size
  | .query r => r.index < s.queries.size ∧ r ≠ q

instance (s : Store) (q : QueryRef) : DecidablePred (s.Knows q)
  | .field f => inferInstanceAs (Decidable (f.index < s.fields.size))
  | .column c => inferInstanceAs (Decidable (c.index < s.columns.size))
  | .allFields t | .tableSource t => inferInstanceAs (Decidable (t.index < s.tables.size))
  | .query r => inferInstanceAs (Decidable (r.index < s.queries.size ∧ r ≠ q))
  | .value _ | .parameter _ | .function _ | .binary .. | .raw .. | .convert .. | .condition _
  | .type _ | .row _ | .deferredName _ => .isTrue trivial

instance (s : Store) (q : QueryRef) : DecidablePred (s.KnowsItem q)
  | .table t => inferInstanceAs (Decidable (t.index < s.tables.size))
  | .query r => inferInstanceAs (Decidable (r.index < s.queries.size ∧ r ≠ q))

/-- Whether everything that a store has is the same in two views. -/
structure Agree {V : Type} (s : Store) (ρ ρ' : Env V) : Prop where
  field : ∀ f : FieldRef, f.index < s.fields.size → ρ'.field f = ρ.field f
  column : ∀ c : ColumnRef, c.index < s.columns.size → ρ'.column c = ρ.column c

theorem Linked.table_lt {s : Store} (hs : s.Linked) {f : FieldRef}
    (hf : f.index < s.fields.size) : (s.field f).table.index < s.tables.size := by
  by_contra hle
  have hdefault : s.table (s.field f).table = default := by
    simp [table, Array.getElem?_eq_none (Nat.le_of_not_lt hle)]
  have hlisted := hs.listed f hf
  rw [hdefault] at hlisted
  cases hlisted

end Store

theorem Store.linked_sales (body : StatementBody) (query : Query) : (sales body query).Linked := by
  have hsize : (sales .select {}).tables.size = 3 := rfl
  have hlisted : ∀ i < 6, (⟨i⟩ : FieldRef) ∈
      ((sales .select {}).table ((sales .select {}).field ⟨i⟩).table).fields := by decide
  have howner : ∀ i < 3, ∀ f ∈ ((sales .select {}).table ⟨i⟩).fields,
      f.index < 6 ∧ ((sales .select {}).field f).table = ⟨i⟩ := by decide
  constructor
  · exact fun f hf => hlisted f.index hf
  · intro t f hf
    by_cases ht : t.index < 3
    · exact howner t.index ht f hf
    · have hdefault : (sales body query).table t = default := by
        have hle : (sales body query).tables.size ≤ t.index := hsize ▸ Nat.le_of_not_lt ht
        simp [table, Array.getElem?_eq_none hle]
      rw [hdefault] at hf
      cases hf

/-! ## Queries that are filters -/

/-- A query with no clauses but its sources, its filter and an order. -/
structure Query.IsFilter (q : Query) : Prop where
  distinct : q.distinct = false
  take : q.take = none
  skip : q.skip = none
  grouping : q.grouping.items = []
  having : q.having.branches = []
  setOperators : q.setOperators = []

section

variable {V : Type} (R : Valuation V) (S : Scene V)

/-- The rows that a query selects on the combinations that it keeps. -/
def Scene.selectedRows (r : QueryRef) (ρ : Env V) : List (List V) :=
  ((S.store.query r).qualifying R S ρ).map fun row =>
    (S.store.query r).columns.map fun c =>
      (S.store.column c).expression.valueIn R (S.place (S.view R ρ row))

/-- Whether a query has the rows that it selects, unless it has other clauses or aggregates. -/
def Scene.Computes (r : QueryRef) : Prop :=
  (S.store.query r).IsFilter →
    (∀ c ∈ (S.store.query r).columns,
      (S.store.column c).expression.anyPart Scalar.isAggregate = false) →
      ∀ ρ, S.queryRows r ρ = S.selectedRows R r ρ

/-- Whether the rows of tables and queries depend on nothing but what the store has. -/
structure Scene.IsLocal : Prop where
  tableRows : ∀ name kind ρ ρ', S.store.Agree ρ ρ' →
    S.tableRows name kind ρ' = S.tableRows name kind ρ
  queryRows : ∀ r ρ ρ', S.store.Agree ρ ρ' → S.queryRows r ρ' = S.queryRows r ρ

/-- Whether a scene goes on from another one: things have been added to the store, the tables and
the other queries have the rows that they had, and the query that changes has those of its clauses,
as new queries have. -/
structure Scene.Continues (q : QueryRef) (S' : Scene V) : Prop where
  store : S.store.KeepsAllBut q S'.store
  tableRows : S'.tableRows = S.tableRows
  queryRows : ∀ r : QueryRef, r.index < S.store.queries.size → r ≠ q →
    S'.queryRows r = S.queryRows r
  computes : ∀ r : QueryRef, r = q ∨ S.store.queries.size ≤ r.index → S'.Computes R r

end

namespace Scene.Continues

variable {V : Type} {R : Valuation V} {S S' : Scene V} {q : QueryRef}
  (h : S.Continues R q S')
include h

/-- What a store has stays the same in view, on every combination. -/
theorem relates : S.Relates R S' S.store.Agree := by
  intro ρ ρ' row hagree
  constructor
  · intro f hf
    change row.read R (.table (S'.store.field f).table) _ _ =
      row.read R (.table (S.store.field f).table) _ _
    rw [h.store.field f hf, hagree.field f hf]
  · intro c hc
    change row.read R (.query (S'.store.column c).parent) _ _ =
      row.read R (.query (S.store.column c).parent) _ _
    rw [h.store.column c hc, hagree.column c hc]

/-- A row of a table that was there. -/
theorem tableRow_eq (hs : S.store.Linked) {t : TableRef} (ht : t.index < S.store.tables.size) :
    S'.tableRow R t = S.tableRow R t := by
  funext row
  have hfield (f : FieldRef) : (S'.tableRow R t row).field f = (S.tableRow R t row).field f := by
    by_cases hf : f ∈ (S.store.table t).fields
    · simp only [Scene.tableRow, h.store.table t ht, hf, if_true,
        h.store.field f (hs.owner t f hf).1]
    · simp only [Scene.tableRow, h.store.table t ht, hf, if_false]
  exact congrArg (Env.mk · _) (funext hfield)

/-- Sources that were there have the rows that they had. -/
theorem sameRows (hs : S.store.Linked) (hlocal : S.IsLocal) {item : SourceItem}
    (hitem : S.store.KnowsItem q item) : SameRows R S S' S.store.Agree item := by
  intro ρ ρ' hagree
  cases item with
  | table t =>
    have ht : t.index < S.store.tables.size := hitem
    simp only [Scene.itemRows, h.tableRow_eq hs ht, h.store.table t ht, h.tableRows,
      hlocal.tableRows _ _ ρ ρ' hagree]
  | query r =>
    have hr : r.index < S.store.queries.size ∧ r ≠ q := hitem
    have hrow : S'.queryRow R r = S.queryRow R r := by
      funext row
      simp only [Scene.queryRow, h.store.query r hr.1 hr.2]
    simp only [Scene.itemRows, hrow, h.queryRows r hr.1 hr.2,
      hlocal.queryRows r ρ ρ' hagree]

/-- References that were there are read as they were. -/
theorem readAlike (hs : S.store.Linked) (hlocal : S.IsLocal) {ρ ρ' : Env V}
    (hagree : S.store.Agree ρ ρ') {p : Scalar} (hp : S.store.Knows q p) :
    ReadAlike [] (S.place ρ) (S'.place ρ') p := by
  cases p with
  | field f => exact hagree.field f hp
  | column c => exact hagree.column c hp
  | allFields t | tableSource t =>
    change (S'.store.table t).fields.map ρ'.field = (S.store.table t).fields.map ρ.field
    rw [h.store.table t hp]
    exact List.map_congr_left fun f hf => hagree.field f (hs.owner t f hf).1
  | query r =>
    change S'.queryRows r ρ' = S.queryRows r ρ
    rw [h.queryRows r hp.1 hp.2, hlocal.queryRows r ρ ρ' hagree]
  | _ => trivial

/-- Conditions that were there have the truth that they had. -/
theorem sameTruth (hs : S.store.Linked) (hlocal : S.IsLocal) {c : Condition}
    (hc : ∀ p ∈ c.walk, S.store.Knows q p) : SameTruth R S S' S.store.Agree c := by
  intro ρ ρ' hagree
  exact Condition.truthIn_congr c fun p hp => h.readAlike hs hlocal hagree (hc p hp)

/-- Scalars that were there have the values that they had. -/
theorem valueIn_eq (hs : S.store.Linked) (hlocal : S.IsLocal) {ρ ρ' : Env V}
    (hagree : S.store.Agree ρ ρ') {e : Scalar} (he : ∀ p ∈ e.walk, S.store.Knows q p) :
    e.valueIn R (S'.place ρ') = e.valueIn R (S.place ρ) :=
  Scalar.valueIn_congr e fun p hp => h.readAlike hs hlocal hagree (he p hp)

end Scene.Continues

/-! ## New queries -/

/-- Whether every query that a query refers to has a property. -/
structure Store.ReadsOnly (s : Store) (p : QueryRef → Prop) (q : QueryRef) : Prop where
  sources : ∀ x ∈ (s.query q).allSources, ∀ r, x.item = .query r → p r
  joins : ∀ c ∈ (s.query q).sources.flatMap joinConditions, ∀ r, .query r ∈ c.walk → p r
  whereClause : ∀ r, .query r ∈ (s.query q).whereClause.walk → p r
  columns : ∀ c ∈ (s.query q).columns, ∀ r, .query r ∈ (s.column c).expression.walk → p r

section

variable {V : Type} {R : Valuation V} {S : Scene V} {p : QueryRef → Prop}
  {rows : QueryRef → Env V → List (List V)}

/-- A query selects the same rows where the queries that it refers to have the same ones. -/
theorem Scene.selectedRows_congr {q : QueryRef} (hrows : ∀ r, p r → rows r = S.queryRows r)
    (hreads : S.store.ReadsOnly p q) :
    Scene.selectedRows R { S with queryRows := rows } q = S.selectedRows R q := by
  have hview : Scene.Relates R S { S with queryRows := rows } Eq := by
    rintro ρ _ row rfl
    rfl
  have halike {ρ : Env V} {e : Scalar} (he : ∀ r, e = .query r → p r) :
      ReadAlike [] (S.place ρ) (Scene.place { S with queryRows := rows } ρ) e := by
    cases e with
    | query r => exact congrFun (hrows r (he r rfl)) ρ
    | _ => first | rfl | trivial
  have htruth {c : Condition} (hc : ∀ r, .query r ∈ c.walk → p r) :
      SameTruth R S { S with queryRows := rows } Eq c := by
    rintro ρ _ rfl
    exact Condition.truthIn_congr c fun e he => halike fun r heq => hc r (heq ▸ he)
  have hitems {item : SourceItem} (hitem : ∀ r, item = .query r → p r) :
      SameRows R S { S with queryRows := rows } Eq item := by
    rintro ρ _ rfl
    cases item with
    | table t => rfl
    | query r =>
      have hr := congrFun (hrows r (hitem r rfl)) ρ
      exact congrArg (List.map (S.queryRow R r)) hr
  have hqualifying (ρ : Env V) :
      (S.store.query q).qualifying R { S with queryRows := rows } ρ =
        (S.store.query q).qualifying R S ρ :=
    Query.qualifying_congr hview rfl rfl (fun x hx => hitems (hreads.sources x hx))
      (fun c hc => htruth (hreads.joins c hc)) (htruth hreads.whereClause) rfl
  funext ρ
  unfold Scene.selectedRows
  rw [hqualifying]
  apply List.map_congr_left
  intro row _
  apply List.map_congr_left
  intro c hc
  exact Scalar.valueIn_congr _ fun e he => halike fun r heq => hreads.columns c hc r (heq ▸ he)

variable (R) (S) (q : QueryRef)

/-- A scene in which the new queries, and one that has changed, have the rows that they select, while
the others have those of a given scene. -/
def Scene.resumed (S' : Scene V) : Scene V :=
  { S' with queryRows := fun r ρ =>
      if r = q ∨ S.store.queries.size ≤ r.index then S'.selectedRows R r ρ else S.queryRows r ρ }

/-- Whether a query is there and is not the one that changes. -/
def Scene.Settled (r : QueryRef) : Prop := r.index < S.store.queries.size ∧ r ≠ q

variable {R} {S} {q}

theorem Scene.queryRows_resumed {S' : Scene V} {r : QueryRef} (h : S.Settled q r) :
    (S.resumed R q S').queryRows r = S.queryRows r := by
  funext ρ
  have hnot : ¬(r = q ∨ S.store.queries.size ≤ r.index) := by
    rintro (heq | hle)
    · exact h.2 heq
    · exact Nat.not_lt_of_le hle h.1
  exact if_neg hnot

theorem Store.ReadsOnly.mono {s : Store} {p p' : QueryRef → Prop} (h : s.ReadsOnly p q)
    (hp : ∀ r, p r → p' r) : s.ReadsOnly p' q where
  sources x hx r hr := hp r (h.sources x hx r hr)
  joins c hc r hr := hp r (h.joins c hc r hr)
  whereClause r hr := hp r (h.whereClause r hr)
  columns c hc r hr := hp r (h.columns c hc r hr)

/-- A query that is not there reads nothing. -/
theorem Store.ReadsOnly.of_le {s : Store} {r : QueryRef} (h : s.queries.size ≤ r.index) :
    s.ReadsOnly p r := by
  have hquery := query_of_le h
  constructor
  · intro x hx
    rw [hquery] at hx
    cases hx
  · intro c hc
    rw [hquery] at hc
    cases hc
  · intro r' hr'
    rw [hquery] at hr'
    cases hr'
  · intro c hc
    rw [hquery] at hc
    cases hc

/-- A scene goes on when the new queries read what was there, or a query that does. -/
theorem Scene.exists_continues {s' : Store} (hkeeps : S.store.KeepsAllBut q s')
    (hself : s'.ReadsOnly (S.Settled q) q)
    (hreads : ∀ r : QueryRef, S.store.queries.size ≤ r.index →
      s'.ReadsOnly (fun r => S.Settled q r ∨ r = q) r) :
    ∃ S' : Scene V, S'.store = s' ∧ S.Continues R q S' := by
  let first := S.resumed R q { S with store := s' }
  have hfirst : first.selectedRows R q = Scene.selectedRows R { S with store := s' } q :=
    Scene.selectedRows_congr (p := S.Settled q) (S := { S with store := s' })
      (fun r hr => S.queryRows_resumed hr) hself
  refine ⟨S.resumed R q first, rfl, hkeeps, rfl, fun r hlt hne => S.queryRows_resumed ⟨hlt, hne⟩, ?_⟩
  intro r hr _ _ ρ
  have hreads : s'.ReadsOnly (fun r => S.Settled q r ∨ r = q) r := by
    rcases hr with rfl | hle
    · exact hself.mono fun _ => .inl
    · exact hreads r hle
  have hsame (r : QueryRef) (hr : S.Settled q r ∨ r = q) :
      (S.resumed R q first).queryRows r = first.queryRows r := by
    rcases hr with hr | rfl
    · exact (S.queryRows_resumed hr).trans (S.queryRows_resumed hr).symm
    · have hnew (S' : Scene V) : (S.resumed R r S').queryRows r = S'.selectedRows R r :=
        funext fun ρ => if_pos (.inl rfl)
      exact (hnew first).trans (hfirst.trans (hnew { S with store := s' }).symm)
  have hselected : (S.resumed R q first).selectedRows R r = first.selectedRows R r :=
    Scene.selectedRows_congr hsame hreads
  rw [hselected]
  exact if_pos hr

end

end SqlCompiler
