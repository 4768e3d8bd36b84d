import SqlCompiler.Proofs.Joins.Lowering
import SqlCompiler.Proofs.Joins.Sources
import SqlCompiler.Proofs.Lowering.Pipelines

/-!
# Results of joins of filtered tables

The query of a join of filtered tables has the conditions on the inner table in `ON` and the other
ones in `WHERE`; the condition of an `APPLY` is not printed.  What the query gives is stated with
the conditions in these places.  For inner and left joins that is what the join means.

Main results:

- Definition `FilteredJoin.run`: what a join means.
- Definition `FilteredJoin.runPlaced`, `FilteredJoin.KeepsMeaning`: what the query gives, and when
  the conditions may be placed so.
- Theorem `FilteredJoin.KeepsMeaning.runPlaced_eq`: then both are the same.
- Theorem `FilteredJoin.HasParts.rows`: the rows of the query.
- Theorem `FilteredJoin.joined_rows`: the rows of the statement of a join.
-/

namespace SqlCompiler

/-! ## The meaning of a join -/

section

variable {V : Type} (I : Interpretation V)

/-- What stands for an element that is not there: all its members are null. -/
def EntityMapping.absent (e : EntityMapping) : Element V := e.element fun _ => I.constant .null

theorem FilteredTable.keeps_nil {t : FilteredTable} (h : t.filters = []) (e : Element V) :
    t.keeps I e = true := by
  rw [keeps, h]
  rfl

namespace FilteredJoin

variable (j : FilteredJoin) (absent absent' : Element V)

/-- What a join makes of two elements of which one may not be there. -/
def resultOfRow (row : Option (Element V) × Option (Element V)) : Element V :=
  j.resultOf I (row.1.getD absent) (row.2.getD absent')

/-- What a join means: the filtered sides are joined where their keys match, and of the results
those are kept that meet the later conditions. -/
def run (outer inner : List (Element V)) : List (Element V) :=
  keepEach I j.later ((joinRows j.actualKind (j.keysMatch I) (keepEach I j.outer.filters outer)
    (keepEach I j.inner.filters inner)).map (j.resultOfRow I absent absent'))

/-- Whether the query joins two elements.  An `APPLY` has no condition. -/
def meets (a b : Element V) : Bool :=
  j.actualKind.isApply || (j.keysMatch I a b && j.inner.keeps I b)

/-- What the query of a join gives: the conditions on the inner side decide what is joined, and
those on the outer side what is kept of that. -/
def runPlaced (outer inner : List (Element V)) : List (Element V) :=
  keepEach I j.later (((joinRows j.actualKind (j.meets I) outer inner).filter fun row =>
    j.outer.keeps I (row.1.getD absent)).map (j.resultOfRow I absent absent'))

/-- Where the query of a join gives what the join means: a join that preserves the rows of the
inner side has no conditions on its sides, and an `APPLY` has none on the inner side, and keys
that always match. -/
structure KeepsMeaning : Prop where
  preserved : j.actualKind.keepsRight = true → j.outer.filters = [] ∧ j.inner.filters = []
  unconditional : j.actualKind.isApply = true →
    j.inner.filters = [] ∧ ∀ a b : Element V, j.keysMatch I a b = true

variable {I j}

/-- An `APPLY` without a condition has none to miss. -/
theorem KeepsMeaning.meets_eq (h : j.KeepsMeaning I) (a b : Element V) :
    j.meets I a b = (j.keysMatch I a b && j.inner.keeps I b) := by
  rw [meets]
  cases happly : j.actualKind.isApply with
  | true =>
    obtain ⟨hinner, hkeys⟩ := h.unconditional happly
    rw [hkeys, FilteredTable.keeps_nil I hinner]
    rfl
  | false => exact Bool.false_or _

/-- Where the conditions may be placed so, the filtered sides are joined. -/
theorem KeepsMeaning.placed_eq (h : j.KeepsMeaning I) (outer inner : List (Element V)) :
    ((joinRows j.actualKind (j.meets I) outer inner).filter fun row =>
        j.outer.keeps I (row.1.getD absent)) =
      joinRows j.actualKind (j.keysMatch I) (keepEach I j.outer.filters outer)
        (keepEach I j.inner.filters inner) := by
  rw [funext₂ h.meets_eq]
  cases hkind : j.actualKind.keepsRight with
  | true =>
    obtain ⟨houter, hinner⟩ := h.preserved hkind
    simp only [FilteredTable.keeps_nil I hinner, FilteredTable.keeps_nil I houter, Bool.and_true]
    rw [houter, hinner]
    exact List.filter_eq_self.mpr fun _ _ => rfl
  | false =>
    rw [keepEach_eq_filter, keepEach_eq_filter]
    exact joinRows_filter hkind (j.keysMatch I) (fun row => j.outer.keeps I (row.getD absent))
      (j.inner.keeps I) outer inner

/-- Where the conditions may be placed so, the query gives what the join means. -/
theorem KeepsMeaning.runPlaced_eq (h : j.KeepsMeaning I) (outer inner : List (Element V)) :
    j.runPlaced I absent absent' outer inner = j.run I absent absent' outer inner := by
  rw [runPlaced, run, h.placed_eq]

end FilteredJoin

end

/-! ## The rows of the query -/

section

variable {V : Type} {I : Interpretation V} {s : Store} {e e' : EntityMapping} {j : FilteredJoin}
  {parts : JoinParts} {result : Projection}

theorem Projection.ReadsTable.table_of_mem {p : Projection} {t : TableRef}
    (h : p.ReadsTable s e t) {f : FieldRef} (hf : f ∈ (s.table t).fields) :
    (s.field f).table = t := by
  have hmem : s.field f ∈ s.fieldsOf t := List.mem_map_of_mem hf
  rw [h.fields] at hmem
  obtain ⟨c, -, heq⟩ := List.mem_map.mp hmem
  rw [← heq]
  rfl

/-- What can be referred to on a row of two joined tables, of which one may not be there. -/
def JoinParts.env (I : Interpretation V) (s : Store) (parts : JoinParts)
    (row : Option (String → V) × Option (String → V)) : Env V :=
  JoinedRow.env I s [(.table parts.outer, row.1.map (s.tableEnv I parts.outer)),
    (.table parts.inner, row.2.map (s.tableEnv I parts.inner))]

/-- What a row of a table says of a field of the table. -/
theorem valueAt_table {t : TableRef} {f : FieldRef} (hf : f ∈ (s.table t).fields)
    (row : Option (String → V)) :
    valueAt I (fun ρ => ρ.field f) (some (.table t, row.map (s.tableEnv I t))) =
      row.getD (fun _ => I.constant .null) (s.field f).physicalName := by
  cases row with
  | none => rfl
  | some row => exact if_pos hf

theorem FilteredJoin.HasParts.denote_outer (h : j.HasParts I s e e' parts result)
    (row : Option (String → V) × Option (String → V)) :
    parts.outerProjection.denote I (parts.env I s row) =
      (row.1.map e.element).getD (e.absent I) := by
  have hdenote : parts.outerProjection.denote I (parts.env I s row) =
      e.element (row.1.getD fun _ => I.constant .null) := by
    refine h.outer.denote fun f hf => ?_
    have hfield : s.hasField f (.table parts.outer) = true := List.contains_iff_mem.mpr hf
    rw [← valueAt_table hf, JoinParts.env, JoinedRow.env]
    simp only [List.find?_cons, hfield]
  rw [hdenote]
  cases row.1 <;> rfl

theorem FilteredJoin.HasParts.denote_inner (h : j.HasParts I s e e' parts result)
    (row : Option (String → V) × Option (String → V)) :
    parts.innerProjection.denote I (parts.env I s row) =
      (row.2.map e'.element).getD (e'.absent I) := by
  have hdenote : parts.innerProjection.denote I (parts.env I s row) =
      e'.element (row.2.getD fun _ => I.constant .null) := by
    refine h.inner.denote fun f hf => ?_
    have hfield : s.hasField f (.table parts.inner) = true := List.contains_iff_mem.mpr hf
    have hother : s.hasField f (.table parts.outer) = false := by
      refine Bool.eq_false_iff.mpr fun houter => h.apart ?_
      rw [← h.outer.table_of_mem (List.contains_iff_mem.mp houter), h.inner.table_of_mem hf]
    rw [← valueAt_table hf, JoinParts.env, JoinedRow.env]
    simp only [List.find?_cons, hfield, hother]
  rw [hdenote]
  cases row.2 <;> rfl

/-- The rows of the `FROM` clause that is printed for the query of a join. -/
theorem FilteredJoin.HasParts.rowsFrom (h : j.HasParts I s e e' parts result) {q : Query}
    (hsources : q.sources = parts.sources j.actualKind) (db : Database V)
    (nested : QueryRef → List (Env V)) :
    q.withPrintedJoins.rowsFrom I s (s.readItem I db nested) =
      (joinRows j.actualKind (fun a b => j.meets I (e.element a) (e'.element b))
        (db e.objectName) (db e'.objectName)).map (parts.env I s) := by
  have hprinted : q.withPrintedJoins.sources = [⟨.table parts.outer, none, [⟨j.actualKind,
      .ofTable parts.inner, if j.actualKind.isApply then .empty else parts.on⟩]⟩] := by
    rw [Query.withPrintedJoins, hsources]
    rfl
  have htest : ∀ a b, ((if j.actualKind.isApply then Condition.empty else parts.on).truth I
      (parts.env I s (some a, some b)) == some true) = j.meets I (e.element a) (e'.element b) := by
    intro a b
    rw [FilteredJoin.meets]
    cases j.actualKind.isApply with
    | true => rfl
    | false =>
      rw [if_neg Bool.false_ne_true, h.on, h.denote_outer, h.denote_inner]
      rfl
  rw [Query.rowsFrom_single hprinted, Source.ofTable, Source.rows_join, Store.readItem,
    Store.readItem, h.outer.name, h.inner.name, joinRows_map, List.map_map, List.map_map]
  rw [← funext₂ htest]
  rfl

variable [DecidableEq V]

/-- The rows of the query of a join stand for what the query gives. -/
theorem FilteredJoin.HasParts.rows (h : j.HasParts I s e e' parts result) {q : Query}
    (hsources : q.sources = parts.sources j.actualKind) (hunfixed : q.hasFixedRows = false)
    (hwhere : ∀ ρ, (q.whereClause.truth I ρ == some true) =
      (j.outer.keeps I (parts.outerProjection.denote I ρ) &&
        j.later.all fun f => f.holdsOf I (result.denote I ρ)))
    (db : Database V) (nested : QueryRef → List (Env V)) :
    (q.printedRows I s (s.readItem I db nested)).map (fun ρ => result.denote I ρ) =
      j.runPlaced I (e.absent I) (e'.absent I) (e.elements db) (e'.elements db) := by
  have hresult : ∀ row, result.denote I (parts.env I s row) =
      j.resultOfRow I (e.absent I) (e'.absent I) (mapPair e.element e'.element row) := fun row => by
    rw [h.result, h.denote_outer, h.denote_inner]
    rfl
  have hkept : ∀ row, (q.whereClause.truth I (parts.env I s row) == some true) =
      (j.outer.keeps I ((mapPair e.element e'.element row).1.getD (e.absent I)) &&
        j.later.all fun f => f.holdsOf I
          (j.resultOfRow I (e.absent I) (e'.absent I) (mapPair e.element e'.element row))) :=
    fun row => by
      rw [hwhere, hresult, h.denote_outer]
      rfl
  have hunfixed' : q.withPrintedJoins.hasFixedRows = false := hunfixed
  have hclause : q.withPrintedJoins.whereClause = q.whereClause := rfl
  rw [Query.printedRows, Query.rowsOf_unfixed hunfixed', h.rowsFrom hsources, hclause,
    FilteredJoin.runPlaced, EntityMapping.elements, EntityMapping.elements, joinRows_map,
    keepEach_eq_filter]
  simp only [List.filter_map, List.map_map, List.filter_filter, Function.comp_def, hkept, hresult,
    Bool.and_comm]

/-! ## The statement of a join -/

variable {ctx : LowerContext} {τ : Shape}

/-- The statement of a join gives, over every database, what the join means with its conditions
placed as they are, so what the join means wherever they may be placed so.  Each column of the
result holds the member it is named for. -/
theorem FilteredJoin.joined_rows (I : Interpretation V) {ranking : Ranking}
    (hmaps : ctx.schema.Maps j.outer.name e) (hmaps' : ctx.schema.Maps j.inner.name e')
    (hshapes : j.HasShapes e e' τ) (hranking : ranking.Covers standardRules) :
    ∃ lowered st statement columns st',
      (lowerSequence standardRules j.term).Gives ctx { ranking } lowered st ∧
      lowered.toStatement.Gives ctx st (statement, .sequence columns) st' ∧
      statement.body = .select ∧ (st'.store.query statement.query).IsPlain ∧
      ∀ (db : Database V) (nested : QueryRef → List (Env V)),
        let rows := (st'.store.query statement.query).printedRows I st'.store
          (st'.store.readItem I db nested)
        let outer := e.elements db
        let inner := e'.elements db
        rows.map (readColumns I st'.store statement.query columns) =
            (j.runPlaced I (e.absent I) (e'.absent I) outer inner).map Element.readLeaves ∧
          (j.KeepsMeaning I → rows.map (readColumns I st'.store statement.query columns) =
            (j.run I (e.absent I) (e'.absent I) outer inner).map Element.readLeaves) := by
  obtain ⟨lowered, st, parts, hgives, hfits, hordered, hparts, hfilters⟩ :=
    j.lowers I hmaps hmaps' hshapes { ranking } hranking
  obtain ⟨whereClause, hquery, hwhere⟩ := hfilters.query
  obtain ⟨statement, columns, s', hstatement, hbody, hstatementQuery, hgrows, hcolumns⟩ :=
    Lowered.toStatement_gives (E := fun _ => True) I hfilters.outcome hfits
      (hordered Store.ordered_empty) hfilters.valid ctx fun _ _ => trivial
  obtain ⟨new, hadded, -⟩ := hgrows.added
  rw [hquery] at hadded
  refine ⟨lowered, st, statement, columns, _, hgives, hstatement, hbody, ?_, fun db nested => ?_⟩
  · rw [hstatementQuery, hadded]
    exact ⟨rfl, rfl, rfl, rfl⟩
  · have hrows := (hparts.keeps (Store.Extends.of_grows hgrows).keeps).rows
      (q := s'.query lowered.query) (by rw [hadded]) (by rw [hadded]; rfl)
      (by rw [hadded]; exact hwhere) db nested
    have hread : ((s'.query statement.query).printedRows I s' (s'.readItem I db nested)).map
        (readColumns I s' statement.query columns) =
          (j.runPlaced I (e.absent I) (e'.absent I) (e.elements db) (e'.elements db)).map
            Element.readLeaves := by
      rw [hstatementQuery, ← hrows, List.map_map]
      exact List.map_congr_left fun ρ _ => hcolumns ρ
    exact ⟨hread, fun hkeeps => hread.trans (by rw [hkeeps.runPlaced_eq])⟩

end

namespace FilteredJoin

/-- People and their ages. -/
def people : EntityMapping :=
  { name := "Person"
    columns := [{ member := "Id", kind := .int32 }, { member := "Age", kind := .int32 }] }

/-- Orders of people. -/
def orders : EntityMapping :=
  { name := "Order"
    columns := [{ member := "Person", kind := .int32 }, { member := "Amount", kind := .int32 }] }

/-- Terms about people and their orders. -/
def shopContext : LowerContext :=
  { schema := { entities := [people, orders] }, provider := .ofDialect .generic }

/-- People of given numbers and ages, and orders of given people and amounts. -/
def shop (ages amounts : List (Int × Int)) : Database (Option Int) := fun name =>
  if name.name == "Person" then
    ages.map fun (id, age) member => some (if member == "Age" then age else id)
  else
    amounts.map fun (person, amount) member => some (if member == "Amount" then amount else person)

/-- Whether a member is greater than a number. -/
def exceeds (member : String) (bound : Int) : Term :=
  .fn "x" (.binary .greater (.member (.bound "x") member) (.constant (.integer bound)))

/-- The adults, each with their large orders, if there are any, up to a number. -/
def adultsWithOrders : FilteredJoin where
  kind := .inner
  orDefault := true
  outer := { name := "Person", filters := [exceeds "Age" 17] }
  inner := { name := "Order", filters := [exceeds "Amount" 5] }
  outerKey := .fn "p" (.member (.bound "p") "Id")
  innerKey := .fn "o" (.member (.bound "o") "Person")
  result := .lambda ["p", "o"] (.record
    [("Id", .member (.bound "p") "Id"), ("Amount", .member (.bound "o") "Amount")])
  later := [exceeds "Id" 1]

/-- The statement of a left join with conditions on both sides and on the result. -/
theorem joined_rows_adultsWithOrders :
    ∃ lowered st statement columns st',
      (lowerSequence standardRules adultsWithOrders.term).Gives shopContext
        { ranking := .ofRules standardRules } lowered st ∧
      lowered.toStatement.Gives shopContext st (statement, .sequence columns) st' ∧
      ((st'.store.query statement.query).printedRows .nullableIntegers st'.store
        (st'.store.readItem .nullableIntegers
          (shop [(1, 30), (2, 40), (3, 50), (4, 10)] [(1, 8), (2, 3), (3, 9), (3, 7), (4, 6)])
          fun _ => [])).map (readColumns .nullableIntegers st'.store statement.query columns) =
        [[("Id", some (some 2)), ("Amount", some none)],
          [("Id", some (some 3)), ("Amount", some (some 9))],
          [("Id", some (some 3)), ("Amount", some (some 7))]] := by
  have hmaps : shopContext.schema.Maps "Person" people := ⟨rfl, by simp [people]⟩
  have hmaps' : shopContext.schema.Maps "Order" orders := ⟨rfl, by simp [orders]⟩
  have hshapes : adultsWithOrders.HasShapes people orders
      (.record [("Id", .value false), ("Amount", .value false)]) := by
    refine ⟨?_, ?_, ⟨_, _, rfl, rfl, rfl⟩, rfl, ?_⟩
    · exact fun f hf => ⟨false, by rw [List.mem_singleton.mp hf]; rfl⟩
    · exact fun f hf => ⟨false, by rw [List.mem_singleton.mp hf]; rfl⟩
    · exact fun f hf => ⟨false, by rw [List.mem_singleton.mp hf]; rfl⟩
  have hkeeps : adultsWithOrders.KeepsMeaning .nullableIntegers :=
    ⟨fun h => (Bool.false_ne_true h).elim, fun h => (Bool.false_ne_true h).elim⟩
  obtain ⟨lowered, st, statement, columns, st', hgives, hstatement, -, -, hrows⟩ :=
    joined_rows (j := adultsWithOrders) .nullableIntegers hmaps hmaps' hshapes
      (Ranking.covers_ofRules standardRules)
  exact ⟨lowered, st, statement, columns, st', hgives, hstatement,
    ((hrows _ fun _ => []).2 hkeeps).trans rfl⟩

end FilteredJoin

end SqlCompiler
