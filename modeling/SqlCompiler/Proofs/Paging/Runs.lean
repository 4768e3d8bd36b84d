import Mathlib.Data.List.Perm.Basic
import SqlCompiler.Legalize.Paging
import SqlCompiler.Proofs.Columns.Selection
import SqlCompiler.Proofs.Queries.Parts
import SqlCompiler.Proofs.Semantics.Rows

/-!
# Runs of queries

What a database engine makes of the queries of a store: how each query is computed from its clauses,
whatever the engine makes of tables, joins, groups and functions.  Where SQL leaves a choice, among
rows that the ordering does not tell apart, or among the numbers of such rows, a query may give
several lists of rows; a run is one choice for all queries.

A row number is a raw text over the expressions of its ordering.  It tells the ordering, and has no
other parts than that.

Main results:

- Definition `Scalar.IsRowNumber`: the scalars that number rows.
- Theorem `Store.rowNumber_inj`, `Scalar.IsRowNumber.of_beq`: a row number tells its ordering, and what
  is equal to one is one.
- Definition `Engine`: what an engine does, and what can be relied on.
- Definition `Store.Gives`: the lists of rows that a query may give.
- Definition `Store.Runs`: what all queries give together.
- Definition `Store.SameRuns`: a store whose queries give the same rows as those of another one.
-/

namespace SqlCompiler

/-- Whether a scalar is the number of a row under some ordering. -/
def Scalar.IsRowNumber (e : Scalar) : Prop := ∃ items, e = Store.rowNumber items

theorem Scalar.not_isRowNumber_field (f : FieldRef) : ¬(Scalar.field f).IsRowNumber :=
  fun ⟨_, h⟩ => by cases h

namespace Store

/-! ## Texts of orderings -/

/-- The text of an item of an ordering, with its number. -/
def orderItemText (item : OrderItem × Nat) : String :=
  placeholder item.2 ++ (if item.1.descending then " DESC" else "")

/-- The texts of two orderings differ where one of them is descending and the other one is not. -/
theorem descending_eq_of_text_eq {items items' : List OrderItem} (i : Nat)
    (hlength : items.length = items'.length)
    (h : ", ".intercalate ((items.zipIdx i).map orderItemText) =
      ", ".intercalate ((items'.zipIdx i).map orderItemText)) :
    items.map (·.descending) = items'.map (·.descending) := by
  have hcomma (text text' : String) : " DESC" ++ text ≠ ", " ++ text' := fun heq => by
    have hhead := congrArg (fun text : String => text.toList.head?) heq
    simp [String.toList_append] at hhead
  induction items generalizing items' i with
  | nil =>
    obtain rfl : items' = [] := List.eq_nil_of_length_eq_zero hlength.symm
    rfl
  | cons item rest ih =>
    cases items' with
    | nil => cases hlength
    | cons item' rest' =>
      have hlength : rest.length = rest'.length := Nat.succ.inj hlength
      cases rest with
      | nil =>
        obtain rfl : rest' = [] := List.eq_nil_of_length_eq_zero hlength.symm
        simp only [List.zipIdx_cons, List.zipIdx_nil, List.map_cons, List.map_nil,
          String.intercalate_singleton, orderItemText, String.append_right_inj] at h
        cases hitem : item.descending <;> cases hitem' : item'.descending <;>
          simp_all
      | cons next rest =>
        obtain ⟨next', rest', rfl⟩ := List.exists_cons_of_length_eq_add_one hlength.symm
        simp only [List.zipIdx_cons, List.map_cons, String.intercalate_cons_cons,
          String.append_assoc] at h
        have hitem (item : OrderItem) (text : String) : orderItemText (item, i) ++ text =
            placeholder i ++ ((if item.descending then " DESC" else "") ++ text) :=
          String.append_assoc
        rw [hitem, hitem, String.append_right_inj] at h
        have hsame : item.descending = item'.descending := by
          cases hfirst : item.descending <;> cases hsecond : item'.descending
          · rfl
          · rw [hfirst, hsecond] at h
            exact (hcomma _ _ (by simpa using h.symm)).elim
          · rw [hfirst, hsecond] at h
            exact (hcomma _ _ (by simpa using h)).elim
          · rfl
        rw [hsame, String.append_right_inj, String.append_right_inj] at h
        rw [List.map_cons, List.map_cons (l := next' :: rest'), hsame,
          ih (i + 1) hlength (by simpa only [List.zipIdx_cons, List.map_cons] using h)]

/-- A row number tells its ordering. -/
theorem rowNumber_inj {items items' : List OrderItem} (h : rowNumber items = rowNumber items') :
    items = items' := by
  simp only [rowNumber, Scalar.raw.injEq] at h
  obtain ⟨htext, hexpressions, -⟩ := h
  have hlength : items.length = items'.length := by
    simpa using congrArg List.length hexpressions
  have hdescending : items.map (·.descending) = items'.map (·.descending) := by
    cases items with
    | nil =>
      obtain rfl : items' = [] := List.eq_nil_of_length_eq_zero hlength.symm
      rfl
    | cons item rest =>
      obtain ⟨item', rest', rfl⟩ := List.exists_cons_of_length_eq_add_one hlength.symm
      simp only [List.isEmpty_cons, Bool.false_eq_true, if_false, String.append_left_inj,
        String.append_right_inj] at htext
      exact descending_eq_of_text_eq 0 hlength htext
  refine List.ext_getElem hlength fun i hi hi' => ?_
  have hexpression := List.getElem_of_eq hexpressions (i := i) (by simpa using hi)
  have hdirection := List.getElem_of_eq hdescending (i := i) (by simpa using hi)
  rw [List.getElem_map, List.getElem_map] at hexpression hdirection
  cases hitem : items[i]
  cases hitem' : items'[i]
  simp_all

/-! ## Parts of row numbers -/

/-- The items of its ordering are parts of a row number. -/
theorem walk_subset_rowNumber {items : List OrderItem} {item : OrderItem} (h : item ∈ items) :
    item.expression.walk ⊆ (rowNumber items).walk := by
  intro e he
  rw [rowNumber, Scalar.walk]
  exact List.mem_cons_of_mem _ (mem_walkScalars.mpr ⟨_, List.mem_map_of_mem h, he⟩)

/-- A row number mentions what its ordering mentions. -/
theorem query_mem_walk_rowNumber {items : List OrderItem} {r : QueryRef}
    (h : Scalar.query r ∈ (rowNumber items).walk) :
    ∃ item ∈ items, Scalar.query r ∈ item.expression.walk := by
  rw [rowNumber, Scalar.walk, List.mem_cons, mem_walkScalars] at h
  obtain ⟨x, hx, hr⟩ := h.resolve_left (by simp)
  obtain ⟨item, hitem, rfl⟩ := List.mem_map.mp hx
  exact ⟨item, hitem, hr⟩

/-- A row number is computed from aggregates if its ordering is. -/
theorem isAggregate_rowNumber (items : List OrderItem) :
    (rowNumber items).anyPart Scalar.isAggregate =
      items.any fun item => item.expression.anyPart Scalar.isAggregate := by
  have hany (scalars : List Scalar) : (walkScalars scalars).any Scalar.isAggregate =
      scalars.any fun e => e.anyPart Scalar.isAggregate := by
    induction scalars with
    | nil => rfl
    | cons e rest ih => rw [walkScalars, List.any_append, ih, List.any_cons, Scalar.anyPart]
  rw [rowNumber, Scalar.anyPart, Scalar.walk, List.any_cons, hany, List.any_map]
  rfl

/-- The text of a row number. -/
def rowNumberText (items : List OrderItem) : String :=
  let ordering :=
    if items.isEmpty then "" else "ORDER BY " ++ ", ".intercalate (items.zipIdx.map orderItemText)
  "ROW_NUMBER() OVER (" ++ ordering ++ ")"

theorem rowNumber_eq (items : List OrderItem) :
    rowNumber items = .raw (rowNumberText items) (items.map (·.expression)) .int64 .primary := rfl

/-- The text of a row number depends on the directions of its ordering. -/
theorem rowNumberText_congr {items items' : List OrderItem}
    (h : items.map (·.descending) = items'.map (·.descending)) :
    rowNumberText items = rowNumberText items' := by
  have hlength : items.length = items'.length := by simpa using congrArg List.length h
  have hempty : items.isEmpty = items'.isEmpty := by
    rw [Bool.eq_iff_iff, List.isEmpty_iff_length_eq_zero, List.isEmpty_iff_length_eq_zero, hlength]
  have htexts : items.zipIdx.map orderItemText = items'.zipIdx.map orderItemText := by
    refine List.ext_getElem (by simpa using hlength) fun i hi hi' => ?_
    have hdirection := List.getElem_of_eq h (i := i) (by simpa using hi)
    simp only [List.getElem_map] at hdirection
    simp [orderItemText, hdirection]
  unfold rowNumberText
  rw [hempty, htexts]

/-- An ordering by other expressions, in the same directions. -/
def withExpressions (items : List OrderItem) (expressions : List Scalar) : List OrderItem :=
  List.zipWith (fun item e => { item with expression := e }) items expressions

theorem rowNumber_withExpressions {items : List OrderItem} {expressions : List Scalar}
    (h : items.length = expressions.length) :
    rowNumber (withExpressions items expressions) =
      .raw (rowNumberText items) expressions .int64 .primary := by
  have hdescending : (withExpressions items expressions).map (·.descending) =
      items.map (·.descending) :=
    List.ext_getElem (by simp [withExpressions, h]) fun i hi hi' => by simp [withExpressions]
  have hexpressions : (withExpressions items expressions).map (·.expression) = expressions :=
    List.ext_getElem (by simp [withExpressions, h]) fun i hi hi' => by simp [withExpressions]
  rw [rowNumber_eq, rowNumberText_congr hdescending, hexpressions]

end Store

theorem length_eq_of_beqScalars {as bs : List Scalar} (h : beqScalars as bs = true) :
    as.length = bs.length := by
  induction as generalizing bs with
  | nil => cases bs with
    | nil => rfl
    | cons b bs => simp [beqScalars] at h
  | cons a as ih => cases bs with
    | nil => simp [beqScalars] at h
    | cons b bs =>
      rw [beqScalars, Bool.and_eq_true] at h
      rw [List.length_cons, List.length_cons, ih h.2]

/-- What is equal to a row number is a row number. -/
theorem Scalar.IsRowNumber.of_beq {e e' : Scalar} (h : (e == e') = true) (he : e.IsRowNumber) :
    e'.IsRowNumber := by
  obtain ⟨items, rfl⟩ := he
  have hbeq : (Store.rowNumber items).beq e' = true := h
  rw [Store.rowNumber_eq] at hbeq
  cases e'
  case raw format args type precedence =>
    rw [Scalar.beq] at hbeq
    simp only [Bool.and_eq_true, beq_iff_eq] at hbeq
    obtain ⟨⟨⟨rfl, hargs⟩, rfl⟩, rfl⟩ := hbeq
    have hlength : items.length = args.length := by
      simpa using length_eq_of_beqScalars hargs
    exact ⟨Store.withExpressions items args, (Store.rowNumber_withExpressions hlength).symm⟩
  all_goals cases hbeq

/-- The values of a row of a query, under the columns that it selects. -/
abbrev QueryRow (V : Type) := ColumnRef → Option V

/-- The rows of every query, for each row of the queries around it. -/
abbrev Run (V : Type) := QueryRef → Env V → List (QueryRow V)

/-! ## Clauses -/

/-- The clauses of a query that its rows are computed from before anything is selected. -/
structure QueryBody where
  sources : List Source
  whereClause : Condition
  grouping : Grouping
  having : Condition
  aggregates : Bool

/-- The body of a query. -/
def Store.body (s : Store) (q : QueryRef) : QueryBody where
  sources := (s.query q).sources
  whereClause := (s.query q).whereClause
  grouping := (s.query q).grouping
  having := (s.query q).having
  aggregates := s.aggregates (s.query q)

/-- The scalars of a query with the given columns. -/
def Query.scalars (q : Query) (selected : List Scalar) : List Scalar :=
  selected.flatMap Scalar.walk ++ (q.take.map Scalar.walk).getD [] ++
    (q.skip.map Scalar.walk).getD [] ++ q.allSources.flatMap Source.walk ++ q.whereClause.walk ++
    walkScalars q.grouping.items ++ q.having.walk ++
    q.orderBy.flatMap (fun item => item.expression.walk) ++
    q.setOperators.map (fun operator => .query operator.query)

theorem Store.scalars_query (s : Store) (q : QueryRef) :
    (s.query q).scalars (s.selected q) = s.walkQuery q := by
  simp only [Query.scalars, selected, walkQuery, List.flatMap_map]

theorem mem_getD_map {α β : Type} {f : α → List β} {o : Option α} {b : β} :
    b ∈ (o.map f).getD [] ↔ ∃ a ∈ o, b ∈ f a := by
  cases o <;> simp

/-- The scalars of a query are those of its clauses. -/
theorem Query.mem_scalars {q : Query} {selected : List Scalar} {e : Scalar} :
    e ∈ q.scalars selected ↔ (∃ x ∈ selected, e ∈ x.walk) ∨ (∃ x ∈ q.take, e ∈ x.walk) ∨
      (∃ x ∈ q.skip, e ∈ x.walk) ∨ (∃ source ∈ q.allSources, e ∈ source.walk) ∨
      e ∈ q.whereClause.walk ∨ e ∈ walkScalars q.grouping.items ∨ e ∈ q.having.walk ∨
      (∃ item ∈ q.orderBy, e ∈ item.expression.walk) ∨
      ∃ operator ∈ q.setOperators, .query operator.query = e := by
  simp only [scalars, List.mem_append, List.mem_flatMap, List.mem_map, mem_getD_map, or_assoc]

/-- The queries that a table is computed from, if the source reads a table. -/
def Source.tableQueries (reads : TableRef → List QueryRef) (source : Source) : List QueryRef :=
  (source.table?.map reads).getD []

/-- The queries that the rows of a body are computed from. -/
def QueryBody.mentions (reads : TableRef → List QueryRef) (body : QueryBody) : List QueryRef :=
  let sources := body.sources.flatMap Source.all
  queriesOf (sources.flatMap Source.walk ++ body.whereClause.walk ++
    walkScalars body.grouping.items ++ body.having.walk) ++
    sources.flatMap (Source.tableQueries reads)

/-- The queries that a query with the given columns is computed from. -/
def Query.mentions (reads : TableRef → List QueryRef) (q : Query) (selected : List Scalar) :
    List QueryRef :=
  queriesOf (q.scalars selected) ++ q.allSources.flatMap (Source.tableQueries reads)

theorem mem_queriesOf {scalars : List Scalar} {r : QueryRef} :
    r ∈ queriesOf scalars ↔ Scalar.query r ∈ scalars := by
  rw [queriesOf, List.mem_filterMap]
  constructor
  · rintro ⟨e, he, hr⟩
    split at hr
    · cases hr
      exact he
    · cases hr
  · exact fun h => ⟨_, h, rfl⟩

theorem queriesOf_subset {scalars scalars' : List Scalar} (h : scalars ⊆ scalars') :
    queriesOf scalars ⊆ queriesOf scalars' :=
  fun _ hr => mem_queriesOf.mpr (h (mem_queriesOf.mp hr))

/-! ## Engines -/

/-- A database engine.  A clause is computed on blocks, each a row or a group of rows. -/
structure Engine (V Block : Type) where
  blocks : Run V → Env V → QueryBody → List Block
  value : Run V → Scalar → Block → V
  truth : Run V → Predicate → Block → Truth
  /-- How values are ordered. -/
  compare : V → V → Ordering
  /-- The values of natural numbers. -/
  number : Nat → V
  /-- The number that a scalar is worth everywhere, if there is one. -/
  count : Scalar → Option Nat
  /-- A row of a subquery, for a row of the queries around it. -/
  row : Env V → QueryRow V → Block
  /-- The queries that the rows of a table are computed from. -/
  reads : TableRef → List QueryRef
  /-- What is given by a query that its own clauses do not tell the rows of. -/
  other : Run V → Env V → Query → List Scalar → List (QueryRow V) → Prop
  blocks_ofQuery : ∀ run outer r condition,
    blocks run outer ⟨[.ofQuery r], condition, {}, .empty, false⟩ =
      ((run r outer).map (row outer)).filter fun b =>
        condition.truthBy (fun p => truth run p b) == some true
  value_column : ∀ run outer c v, ∀ ρ : QueryRow V, ρ c = some v →
    value run (.column c) (row outer ρ) = v
  value_beq : ∀ run e e' b, (e == e') = true → value run e b = value run e' b
  value_add : ∀ run e e' type b m n, value run e b = number m → value run e' b = number n →
    value run (.binary e .add e' type) b = number (m + n)
  value_count : ∀ run e b n, count e = some n → value run e b = number n
  truth_comparison : ∀ run e op e' b m n, value run e b = number m → value run e' b = number n →
    truth run (.comparison e op e') b = some (op.holds m n)
  compare_number : ∀ m n, compare (number m) (number n) = Ord.compare m n
  /-- Only the rows of the queries that are mentioned count. -/
  value_congr : ∀ run run' e, (∀ r ∈ queriesOf e.walk, run r = run' r) →
    value run e = value run' e
  blocks_congr : ∀ run run' outer body, (∀ r ∈ body.mentions reads, run r = run' r) →
    blocks run outer body = blocks run' outer body
  other_congr : ∀ run run' outer q selected, (∀ r ∈ q.mentions reads selected, run r = run' r) →
    other run outer q selected = other run' outer q selected

namespace Engine

variable {V Block α : Type} (E : Engine V Block)

/-- A query whose own clauses tell its rows: it lists its columns, and no set operators follow. -/
structure Lists (q : Query) : Prop where
  setOperators : q.setOperators = []
  takeHints : q.takeHints = none
  columns : q.columns ≠ []
  take : ∀ e ∈ q.take, (E.count e).isSome = true
  skip : ∀ e ∈ q.skip, (E.count e).isSome = true

/-- How two blocks are ordered. -/
def order (run : Run V) (items : List OrderItem) (b b' : Block) : Ordering :=
  items.foldr (fun item rest =>
    let result := E.compare (E.value run item.expression b) (E.value run item.expression b')
    (if item.descending then result.swap else result).then rest) .eq

/-- The number of rows that a query skips. -/
def skipped (q : Query) : Nat := (q.skip.bind E.count).getD 0

/-- The rows that the paging of a query leaves. -/
def page (q : Query) (rows : List α) : List α :=
  match q.take with
  | none => rows.drop (E.skipped q)
  | some e => (rows.drop (E.skipped q)).take ((E.count e).getD 0)

variable {E}

theorem page_map {β : Type} (q : Query) (f : α → β) (rows : List α) :
    E.page q (rows.map f) = (E.page q rows).map f := by
  unfold page
  split
  · rw [List.map_drop]
  · rw [List.map_take, List.map_drop]

/-- Numbers have different values. -/
theorem number_injective (E : Engine V Block) : Function.Injective E.number := by
  intro m n h
  have hcompare := E.compare_number m n
  rw [h, E.compare_number, Nat.compare_eq_eq.mpr rfl] at hcompare
  exact Nat.compare_eq_eq.mp hcompare.symm

/-- A query without paging leaves all rows. -/
theorem page_eq_self {q : Query} (htake : q.take = none) (hskip : q.skip = none) (rows : List α) :
    E.page q rows = rows := by
  rw [page, skipped, htake, hskip]
  rfl

end Engine

/-! ## Rows of a query -/

/-- A block with the values that a query selects there. -/
structure Selection (V Block : Type) where
  block : Block
  value : ColumnRef → V

namespace Store

variable {V Block : Type} (E : Engine V Block) (s : Store) (run : Run V)
  (outer : Env V) (q : QueryRef)

/-- Selections in an order that agrees with the items of an ordering. -/
def Sorted (items : List OrderItem) (selections : List (Selection V Block)) : Prop :=
  selections.Pairwise fun x y => E.order run items x.block y.block ≠ .gt

/-- What is selected under a column.  Row numbers count the blocks in some order that agrees with
theirs. -/
structure ComputesAs (e : Scalar) (c : ColumnRef) (selections : List (Selection V Block)) : Prop where
  value : ¬e.IsRowNumber → ∀ x ∈ selections, x.value c = E.value run e x.block
  number : ∀ items, e = rowNumber items → ∃ counted, counted.Perm selections ∧
    Sorted E run items counted ∧
      counted.map (·.value c) = (List.range' 1 selections.length).map E.number

/-- What a query selects on its blocks, in any order. -/
structure Computes (selections : List (Selection V Block)) : Prop where
  blocks : (selections.map (·.block)).Perm (E.blocks run outer (s.body q))
  columns : ∀ c ∈ (s.query q).columns, ComputesAs E run (s.column c).expression c selections

section

variable {E s run outer q} {run' : Run V}

theorem order_congr {items : List OrderItem} (h : ∀ item ∈ items,
    E.value run item.expression = E.value run' item.expression) :
    E.order run items = E.order run' items := by
  funext b b'
  induction items with
  | nil => rfl
  | cons item rest ih =>
    obtain ⟨hitem, hrest⟩ := List.forall_mem_cons.mp h
    have hrest := ih hrest
    simp only [Engine.order] at hrest ⊢
    rw [List.foldr_cons, List.foldr_cons, hitem, hrest]

theorem sorted_congr {items : List OrderItem} {selections : List (Selection V Block)}
    (h : ∀ item ∈ items, E.value run item.expression = E.value run' item.expression) :
    Sorted E run items selections ↔ Sorted E run' items selections := by
  rw [Sorted, Sorted, order_congr h]

/-- Without items, every order will do. -/
theorem sorted_nil (selections : List (Selection V Block)) : Sorted E run [] selections :=
  List.pairwise_of_forall fun _ _ => by simp [Engine.order]

/-- Only the blocks of selections are ordered. -/
theorem sorted_iff_blocks {items : List OrderItem} {selections : List (Selection V Block)} :
    Sorted E run items selections ↔
      (selections.map (·.block)).Pairwise fun b b' => E.order run items b b' ≠ .gt := by
  rw [Sorted, List.pairwise_map]

/-- Lists that are another order of what is seen through a function. -/
theorem exists_map_of_perm {α β : Type} {f : α → β} {l : List β} {m : List α}
    (h : l.Perm (m.map f)) : ∃ m' : List α, l = m'.map f ∧ m'.Perm m := by
  have hcomp := congrFun (congrFun (List.eq_map_comp_perm f) l) m
  rwa [← hcomp] at h

/-- Selections may be listed in another order. -/
theorem ComputesAs.perm {e : Scalar} {c : ColumnRef} {selections selections' : List (Selection V Block)}
    (h : ComputesAs E run e c selections) (hperm : selections'.Perm selections) :
    ComputesAs E run e c selections' where
  value hnot x hx := h.value hnot x (hperm.mem_iff.mp hx)
  number items hitems := by
    obtain ⟨counted, hcounted, hsorted, hnumbers⟩ := h.number items hitems
    exact ⟨counted, hcounted.trans hperm.symm, hsorted, by rw [hperm.length_eq, hnumbers]⟩

@[inherit_doc ComputesAs.perm]
theorem Computes.perm {selections selections' : List (Selection V Block)}
    (h : s.Computes E run outer q selections) (hperm : selections'.Perm selections) :
    s.Computes E run outer q selections' where
  blocks := (hperm.map _).trans h.blocks
  columns c hc := (h.columns c hc).perm hperm

/-- The same is selected on the same blocks, under another column. -/
theorem ComputesAs.map {α : Type} {zs : List α} {f g : α → Selection V Block} {e : Scalar}
    {c d : ColumnRef} (hblock : ∀ z ∈ zs, (g z).block = (f z).block)
    (hvalue : ∀ z ∈ zs, (g z).value d = (f z).value c) (h : ComputesAs E run e c (zs.map f)) :
    ComputesAs E run e d (zs.map g) where
  value hnot x hx := by
    obtain ⟨z, hz, rfl⟩ := List.mem_map.mp hx
    rw [hvalue z hz, hblock z hz]
    exact h.value hnot _ (List.mem_map_of_mem hz)
  number items hitems := by
    obtain ⟨counted, hcounted, hsorted, hnumbers⟩ := h.number items hitems
    obtain ⟨zs', rfl, hzs⟩ := exists_map_of_perm hcounted
    refine ⟨zs'.map g, hzs.map g, ?_, ?_⟩
    · rw [Sorted, List.pairwise_map] at hsorted ⊢
      refine hsorted.imp_of_mem fun hx hy hle => ?_
      rw [hblock _ (hzs.mem_iff.mp hx), hblock _ (hzs.mem_iff.mp hy)]
      exact hle
    · rw [List.length_map, List.map_map] at hnumbers ⊢
      rw [← hnumbers]
      exact List.map_congr_left fun z hz => hvalue z (hzs.mem_iff.mp hz)

/-- What is selected where only the blocks that a scalar mentions count. -/
theorem ComputesAs.congr_run {e : Scalar} {c : ColumnRef} {selections : List (Selection V Block)}
    (hvalue : ∀ e' : Scalar, e'.walk ⊆ e.walk → E.value run e' = E.value run' e')
    (h : ComputesAs E run e c selections) : ComputesAs E run' e c selections where
  value hnot x hx := by
    rw [← hvalue e (List.Subset.refl _)]
    exact h.value hnot x hx
  number items hitems := by
    obtain ⟨counted, hcounted, hsorted, hnumbers⟩ := h.number items hitems
    refine ⟨counted, hcounted, (sorted_congr fun item hitem => hvalue _ ?_).mp hsorted, hnumbers⟩
    rw [hitems]
    exact walk_subset_rowNumber hitem

theorem mentions_body_subset (reads : TableRef → List QueryRef) :
    (s.body q).mentions reads ⊆ (s.query q).mentions reads (s.selected q) := by
  refine List.append_subset.mpr ⟨fun r hr => List.mem_append_left _ ?_,
    List.subset_append_right _ _⟩
  refine queriesOf_subset (fun e he => ?_) hr
  simp only [body, Query.scalars, Query.allSources, List.mem_append] at he ⊢
  grind

theorem walk_selected_subset {c : ColumnRef} (hc : c ∈ (s.query q).columns) :
    (s.column c).expression.walk ⊆ (s.query q).scalars (s.selected q) := by
  intro e he
  simp only [Query.scalars, List.append_assoc]
  exact List.mem_append_left _ (List.mem_flatMap.mpr ⟨_, List.mem_map_of_mem hc, he⟩)

theorem walk_orderBy_subset {item : OrderItem} (h : item ∈ (s.query q).orderBy) :
    item.expression.walk ⊆ (s.query q).scalars (s.selected q) := by
  intro e he
  rw [Query.scalars]
  exact List.mem_append_left _
    (List.mem_append_right _ (List.mem_flatMap.mpr ⟨item, h, he⟩))

theorem value_congr {e : Scalar}
    (hrun : ∀ r ∈ (s.query q).mentions E.reads (s.selected q), run r = run' r)
    (he : e.walk ⊆ (s.query q).scalars (s.selected q)) : E.value run e = E.value run' e :=
  E.value_congr run run' e fun r hr =>
    hrun r (List.mem_append_left _ (queriesOf_subset he hr))

/-- A query selects the same where the queries it mentions give the same rows. -/
theorem Computes.congr_run {selections : List (Selection V Block)}
    (hrun : ∀ r ∈ (s.query q).mentions E.reads (s.selected q), run r = run' r)
    (h : s.Computes E run outer q selections) : s.Computes E run' outer q selections where
  blocks := by
    rw [← E.blocks_congr run run' outer _ fun r hr => hrun r (mentions_body_subset _ hr)]
    exact h.blocks
  columns c hc := (h.columns c hc).congr_run fun e he => value_congr hrun
    (List.Subset.trans he (walk_selected_subset hc))

/-- A query orders its blocks in the same way where the queries it mentions give the same rows. -/
theorem sorted_orderBy_congr {selections : List (Selection V Block)}
    (hrun : ∀ r ∈ (s.query q).mentions E.reads (s.selected q), run r = run' r) :
    Sorted E run (s.query q).orderBy selections ↔ Sorted E run' (s.query q).orderBy selections :=
  sorted_congr fun _ hitem => value_congr hrun (walk_orderBy_subset hitem)

end

/-- The tuple that a query selects on a block. -/
def selectedTuple (x : Selection V Block) : List V := (s.query q).columns.map x.value

/-- The row that is given for a block. -/
def rowOf (x : Selection V Block) : QueryRow V := fun c =>
  if c ∈ (s.query q).columns then some (x.value c) else none

variable [DecidableEq V]

/-- What is left of the selections of a query when equal tuples are dropped, if it does so. -/
def distinctly (selections : List (Selection V Block)) : List (Selection V Block) :=
  if (s.query q).distinct then firstOfEach (s.selectedTuple q) selections else selections

theorem distinctly_subset (selections : List (Selection V Block)) :
    s.distinctly q selections ⊆ selections := by
  unfold distinctly
  split
  · exact firstOfEach_subset _ _
  · exact List.Subset.refl _

/-- The lists of rows that a query may give. -/
inductive Gives : List (QueryRow V) → Prop where
  | listed {selections arranged : List (Selection V Block)} (hlists : E.Lists (s.query q))
      (hcomputes : s.Computes E run outer q selections)
      (harranged : arranged.Perm (s.distinctly q selections))
      (hsorted : Sorted E run (s.query q).orderBy arranged) :
      Gives ((E.page (s.query q) arranged).map (s.rowOf q))
  | other {rows : List (QueryRow V)} (hlists : ¬E.Lists (s.query q))
      (h : E.other run outer (s.query q) (s.selected q) rows) : Gives rows

/-! ## What the rows of a query depend on -/

section

variable {E s run outer q} {s' : Store} {run' : Run V}

/-- A query gives the same rows in two stores where it is the same and selects the same. -/
theorem Gives.congr_store {rows : List (QueryRow V)} (hquery : s'.query q = s.query q)
    (hcolumns : ∀ c ∈ (s.query q).columns, (s'.column c).expression = (s.column c).expression)
    (h : s.Gives E run outer q rows) : s'.Gives E run outer q rows := by
  have hselected : s'.selected q = s.selected q := by
    rw [selected, selected, hquery]
    exact List.map_congr_left hcolumns
  have hbody : s'.body q = s.body q := by
    have hexpressions : (s'.query q).columns.map (fun c => (s'.column c).expression) =
        (s.query q).columns.map fun c => (s.column c).expression := hselected
    rw [body, body, aggregates, aggregates, hexpressions, hquery]
  have hrow : (s'.rowOf q : Selection V Block → QueryRow V) = s.rowOf q := by
    funext x c
    rw [rowOf, rowOf, hquery]
  cases h with
  | listed hlists hcomputes harranged hsorted =>
    rw [← hrow, ← hquery]
    refine .listed (hquery ▸ hlists) ⟨hbody ▸ hcomputes.blocks, fun c hc => ?_⟩ ?_ (hquery ▸ hsorted)
    · rw [hquery] at hc
      rw [hcolumns c hc]
      exact hcomputes.columns c hc
    · have htuple : (s'.selectedTuple q : Selection V Block → List V) = s.selectedTuple q := by
        funext x
        rw [selectedTuple, selectedTuple, hquery]
      rw [distinctly, hquery, htuple]
      exact harranged
  | other hlists h => exact .other (hquery ▸ hlists) (by rw [hquery, hselected]; exact h)

/-- A query gives the same rows where the queries it mentions do. -/
theorem Gives.congr_run {rows : List (QueryRow V)}
    (hrun : ∀ r ∈ (s.query q).mentions E.reads (s.selected q), run r = run' r)
    (h : s.Gives E run outer q rows) : s.Gives E run' outer q rows := by
  cases h with
  | listed hlists hcomputes harranged hsorted =>
    exact .listed hlists (hcomputes.congr_run hrun) harranged
      ((sorted_orderBy_congr hrun).mp hsorted)
  | other hlists h =>
    exact .other hlists (by rw [← E.other_congr run run' outer _ _ hrun]; exact h)

end

/-- What all queries of a store give together. -/
def Runs : Prop :=
  ∀ q : QueryRef, q.index < s.queries.size → ∀ outer, s.Gives E run outer q (run q outer)

/-- The queries of a store mention only queries of the store. -/
def Closed : Prop :=
  ∀ q : QueryRef, ∀ r ∈ (s.query q).mentions E.reads (s.selected q), r.index < s.queries.size

/-- Every query of a store still gives in another one what it gave, and nothing else, under the same
columns. -/
structure SameRuns (s' : Store) : Prop where
  queries : s.queries.size ≤ s'.queries.size
  columns : ∀ q : QueryRef, q.index < s.queries.size → (s'.query q).columns = (s.query q).columns
  sound : ∀ run, s'.Runs E run → s.Runs E run
  complete : ∀ run, s.Runs E run → ∃ run', s'.Runs E run' ∧
    ∀ q : QueryRef, q.index < s.queries.size → run' q = run q

namespace SameRuns

variable {E s} {s' s'' : Store}

theorem refl : s.SameRuns E s where
  queries := Nat.le_refl _
  columns _ _ := rfl
  sound _ h := h
  complete run h := ⟨run, h, fun _ _ => rfl⟩

theorem trans (h : s.SameRuns E s') (h' : s'.SameRuns E s'') : s.SameRuns E s'' where
  queries := Nat.le_trans h.queries h'.queries
  columns q hq := (h'.columns q (Nat.lt_of_lt_of_le hq h.queries)).trans (h.columns q hq)
  sound run hruns := h.sound run (h'.sound run hruns)
  complete run hruns := by
    obtain ⟨run', hruns', hsame⟩ := h.complete run hruns
    obtain ⟨run'', hruns'', hsame'⟩ := h'.complete run' hruns'
    exact ⟨run'', hruns'', fun q hq =>
      (hsame' q (Nat.lt_of_lt_of_le hq h.queries)).trans (hsame q hq)⟩

end SameRuns

end Store

end SqlCompiler
