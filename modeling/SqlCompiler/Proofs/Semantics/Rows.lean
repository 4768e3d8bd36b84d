import Mathlib.Data.Finset.Card
import Mathlib.Data.List.Dedup
import SqlCompiler.Proofs.Semantics.Evaluation
import SqlCompiler.Render.Select
import SqlCompiler.Store.Basic

/-!
# Rows of queries

The rows of a query block in the usual order of its clauses: the rows of its source, those that
meet the `WHERE` clause, each selected tuple once if the query is distinct, and of these what is
left after the offset, up to the limit.  A nested query gives its rows in order, and only its
columns can be seen from outside.

A query with a `GROUP BY` clause has one block of rows for each value of its items; one without is
about a single block if it computes an aggregate, and else about each row alone.  The items that
are constants are not printed, so what the printed query has as its blocks depends on the other
ones.

Main results:

- Definition `Query.rowsOf`: the clauses of a query block.
- Definition `Store.Yields`: the rows of a query over a database.
- Theorem `Store.Yields.unique`: a query has one list of rows.
- Definition `Meaning.blocks`: the blocks of rows of a query.
- Theorem `printQueryBody_asPrinted`: a query is printed as the one without constant items.
- Theorem `Meaning.blocks_asPrinted_iff`: when the blocks of the printed query are the groups.
-/

namespace SqlCompiler

/-! ## First occurrences -/

/-- The first item of each key. -/
def firstOfEach {α κ : Type} [DecidableEq κ] (key : α → κ) : List α → List α
  | [] => []
  | a :: rest => a :: (firstOfEach key rest).filter fun b => key b ≠ key a

section

variable {α β κ κ' : Type} [DecidableEq κ] [DecidableEq κ']

theorem firstOfEach_cons (key : α → κ) (a : α) (rest : List α) :
    firstOfEach key (a :: rest) = a :: (firstOfEach key rest).filter fun b => key b ≠ key a :=
  rfl

theorem firstOfEach_subset (key : α → κ) (items : List α) : firstOfEach key items ⊆ items := by
  induction items with
  | nil => exact List.Subset.refl _
  | cons a rest ih =>
    intro b hb
    rw [firstOfEach_cons, List.mem_cons] at hb
    rcases hb with rfl | hb
    · exact List.mem_cons_self
    · exact List.mem_cons_of_mem a (ih (List.mem_filter.mp hb).1)

theorem pairwise_firstOfEach (key : α → κ) (items : List α) :
    (firstOfEach key items).Pairwise fun a b => key b ≠ key a := by
  induction items with
  | nil => exact .nil
  | cons a rest ih =>
    rw [firstOfEach_cons]
    refine .cons (fun b hb => ?_) (ih.filter _)
    simpa using (List.mem_filter.mp hb).2

/-- Items of pairwise different keys are all kept. -/
theorem firstOfEach_eq_self {key : α → κ} {items : List α}
    (h : items.Pairwise fun a b => key b ≠ key a) : firstOfEach key items = items := by
  induction h with
  | nil => rfl
  | cons ha _ ih =>
    rw [firstOfEach_cons, ih, List.filter_eq_self.mpr]
    intro b hb
    simpa using ha b hb

/-- Only which keys are equal matters. -/
theorem firstOfEach_congr {key : α → κ} {key' : α → κ'} {items : List α}
    (h : ∀ a ∈ items, ∀ b ∈ items, key a = key b ↔ key' a = key' b) :
    firstOfEach key items = firstOfEach key' items := by
  induction items with
  | nil => rfl
  | cons a rest ih =>
    have hrest : firstOfEach key rest = firstOfEach key' rest :=
      ih fun b hb c hc => h b (List.mem_cons_of_mem a hb) c (List.mem_cons_of_mem a hc)
    rw [firstOfEach_cons, firstOfEach_cons, hrest]
    congr 1
    refine List.filter_congr fun b hb => ?_
    have hb := firstOfEach_subset key' rest hb
    simp only [ne_eq, h b (List.mem_cons_of_mem a hb) a List.mem_cons_self]

/-- The first items of each key, seen through a function. -/
theorem firstOfEach_map (f : α → β) (key : β → κ) (items : List α) :
    firstOfEach key (items.map f) = (firstOfEach (fun a => key (f a)) items).map f := by
  induction items with
  | nil => rfl
  | cons a rest ih =>
    rw [List.map_cons, firstOfEach_cons, firstOfEach_cons, ih, List.map_cons, List.filter_map]
    rfl

/-- The first items of each key among those that pass a test of the key. -/
theorem firstOfEach_filter {key : α → κ} {p : α → Bool}
    (hp : ∀ a b, key a = key b → p a = p b) (items : List α) :
    firstOfEach key (items.filter p) = (firstOfEach key items).filter p := by
  induction items with
  | nil => rfl
  | cons a rest ih =>
    rw [firstOfEach_cons]
    cases ha : p a with
    | true =>
      rw [List.filter_cons_of_pos ha, List.filter_cons_of_pos ha, firstOfEach_cons, ih,
        List.filter_filter, List.filter_filter]
      simp only [Bool.and_comm]
    | false =>
      have hdropped : ¬p a = true := by simp [ha]
      rw [List.filter_cons_of_neg hdropped, List.filter_cons_of_neg hdropped, ih,
        List.filter_filter]
      refine List.filter_congr fun b _ => ?_
      cases hb : p b with
      | false => rfl
      | true =>
        have hne : key b ≠ key a := fun heq => by
          rw [hp b a heq, ha] at hb
          cases hb
        simp [hne]

theorem mem_firstOfEach_id [DecidableEq α] {a : α} {items : List α} :
    a ∈ firstOfEach id items ↔ a ∈ items := by
  refine ⟨fun h => firstOfEach_subset id items h, fun h => ?_⟩
  induction items with
  | nil => exact h
  | cons b rest ih =>
    rw [firstOfEach_cons, List.mem_cons]
    by_cases hab : a = b
    · exact .inl hab
    · refine .inr (List.mem_filter.mpr ⟨ih ((List.mem_cons.mp h).resolve_left hab), ?_⟩)
      simpa using hab

end

/-! ## Clauses -/

/-- The number a limit or an offset stands for. -/
def Scalar.countValue : Scalar → Nat
  | .value v => (v.value.asInteger?.getD 0).toNat
  | .binary l .add r _ => l.countValue + r.countValue
  | _ => 0
termination_by structural e => e

/-- The rows of a table by the names of its columns. -/
abbrev Database (V : Type) := ObjectName → List (String → V)

section

variable {V : Type} [DecidableEq V] (I : Interpretation V)

/-- The tuple a query selects on a row. -/
def Store.tuple (s : Store) (q : Query) (ρ : Env V) : List V :=
  q.columns.map fun c => (s.column c).expression.eval I ρ

/-- Drop what an offset skips. -/
def skipRows (skip : Option Scalar) (rows : List (Env V)) : List (Env V) :=
  match skip with
  | none => rows
  | some e => rows.drop e.countValue

/-- Keep what a limit leaves. -/
def takeRows (take : Option Scalar) (rows : List (Env V)) : List (Env V) :=
  match take with
  | none => rows
  | some e => rows.take e.countValue

/-- The rows of a query block, given those of its source. -/
def Query.rowsOf (q : Query) (s : Store) (rows : List (Env V)) : List (Env V) :=
  let kept := rows.filter fun ρ => q.whereClause.truth I ρ == some true
  let kept := if q.distinct then firstOfEach (s.tuple I q) kept else kept
  takeRows q.take (skipRows q.skip kept)

/-- A query with no other clauses than the ones above. -/
structure Query.IsPlain (q : Query) : Prop where
  grouping : q.grouping.items = []
  having : q.having.branches = []
  orderBy : q.orderBy = []
  setOperators : q.setOperators = []

/-! ## Sources -/

/-- What can be referred to on a row of a table. -/
def Store.tableEnv (s : Store) (t : TableRef) (row : String → V) : Env V where
  field f := if f ∈ (s.table t).fields then row (s.field f).physicalName else I.unknown
  column _ := I.unknown

/-- What can be referred to on a row of a nested query: its columns. -/
def Store.queryEnv (s : Store) (q : QueryRef) (ρ : Env V) : Env V where
  field _ := I.unknown
  column c := if c ∈ (s.query q).columns then (s.column c).expression.eval I ρ else I.unknown

/-- The rows of a query over a database. -/
inductive Store.Yields (db : Database V) (s : Store) : QueryRef → List (Env V) → Prop where
  | table {q : QueryRef} {t : TableRef} {aliasName : Option String}
      (hsources : (s.query q).sources = [⟨.table t, aliasName, []⟩])
      (hplain : (s.query q).IsPlain) :
      Yields db s q ((s.query q).rowsOf I s ((db (s.table t).name).map (s.tableEnv I t)))
  | query {q inner : QueryRef} {aliasName : Option String} {rows : List (Env V)}
      (hsources : (s.query q).sources = [⟨.query inner, aliasName, []⟩])
      (hplain : (s.query q).IsPlain) (hinner : Yields db s inner rows) :
      Yields db s q ((s.query q).rowsOf I s (rows.map (s.queryEnv I inner)))

/-- Whether a query is plain and reads one source as it is. -/
def Query.readsOnly (q : Query) (item : SourceItem) : Bool :=
  (match q.sources with
    | [⟨read, none, []⟩] => read == item
    | _ => false) &&
  q.grouping.items.isEmpty && q.having.branches.isEmpty && q.orderBy.isEmpty &&
    q.setOperators.isEmpty

theorem Query.sources_of_readsOnly {q : Query} {item : SourceItem} (h : q.readsOnly item = true) :
    q.sources = [⟨item, none, []⟩] ∧ q.IsPlain := by
  simp only [readsOnly, Bool.and_eq_true, List.isEmpty_iff] at h
  obtain ⟨⟨⟨⟨hread, hgrouping⟩, hhaving⟩, horder⟩, hsides⟩ := h
  refine ⟨?_, hgrouping, hhaving, horder, hsides⟩
  split at hread
  · next read hsources => rw [hsources, eq_of_beq hread]
  · cases hread

variable {I}

theorem Store.Yields.ofTable {db : Database V} {s : Store} {q : QueryRef} {t : TableRef}
    (h : (s.query q).readsOnly (.table t) = true) :
    s.Yields I db q ((s.query q).rowsOf I s ((db (s.table t).name).map (s.tableEnv I t))) :=
  .table (Query.sources_of_readsOnly h).1 (Query.sources_of_readsOnly h).2

theorem Store.Yields.ofQuery {db : Database V} {s : Store} {q inner : QueryRef}
    {rows : List (Env V)} (hinner : s.Yields I db inner rows)
    (h : (s.query q).readsOnly (.query inner) = true) :
    s.Yields I db q ((s.query q).rowsOf I s (rows.map (s.queryEnv I inner))) :=
  .query (Query.sources_of_readsOnly h).1 (Query.sources_of_readsOnly h).2 hinner

/-- A query has one list of rows. -/
theorem Store.Yields.unique {db : Database V} {s : Store} {q : QueryRef} {rows rows' : List (Env V)}
    (h : s.Yields I db q rows) (h' : s.Yields I db q rows') : rows = rows' := by
  induction h generalizing rows' with
  | table hsources hplain =>
    cases h' with
    | table hsources' _ =>
      rw [hsources] at hsources'
      cases hsources'
      rfl
    | query hsources' _ _ =>
      rw [hsources] at hsources'
      cases hsources'
  | query hsources hplain _ ih =>
    cases h' with
    | table hsources' _ =>
      rw [hsources] at hsources'
      cases hsources'
    | query hsources' _ hinner' =>
      rw [hsources] at hsources'
      cases hsources'
      rw [ih hinner']

end

/-! ## Groups -/

section

variable {α κ κ' : Type} [DecidableEq κ] [DecidableEq κ']

/-- The items of each key, in the order of the first item of each. -/
def groupsBy (key : α → κ) (items : List α) : List (List α) :=
  (firstOfEach key items).map fun a => items.filter fun b => key b = key a

/-- Only which keys are equal matters. -/
theorem groupsBy_congr {key : α → κ} {key' : α → κ'} (h : ∀ a b, key a = key b ↔ key' a = key' b)
    (items : List α) : groupsBy key items = groupsBy key' items := by
  rw [groupsBy, groupsBy, firstOfEach_congr fun a _ b _ => h a b]
  simp only [h]

/-- Every key is that of a first item. -/
theorem exists_mem_firstOfEach {key : α → κ} {items : List α} {a : α} (ha : a ∈ items) :
    ∃ b ∈ firstOfEach key items, key b = key a := by
  induction items with
  | nil => cases ha
  | cons first rest ih =>
    by_cases hkey : key a = key first
    · exact ⟨first, List.mem_cons_self, hkey.symm⟩
    · obtain ⟨b, hb, heq⟩ := ih ((List.mem_cons.mp ha).resolve_left fun h => hkey (h ▸ rfl))
      refine ⟨b, List.mem_cons_of_mem _ (List.mem_filter.mpr ⟨hb, ?_⟩), heq⟩
      simpa [heq] using hkey

/-- There are as many groups as keys. -/
theorem length_groupsBy (key : α → κ) (items : List α) :
    (groupsBy key items).length = (items.map key).toFinset.card := by
  have hsame : (items.map key).toFinset = ((firstOfEach key items).map key).toFinset := by
    ext k
    simp only [List.mem_toFinset, List.mem_map]
    constructor
    · rintro ⟨a, ha, rfl⟩
      exact exists_mem_firstOfEach ha
    · rintro ⟨a, ha, rfl⟩
      exact ⟨a, firstOfEach_subset key items ha, rfl⟩
  have hnodup : ((firstOfEach key items).map key).Nodup :=
    List.pairwise_map.mpr ((pairwise_firstOfEach key items).imp fun h => h.symm)
  rw [hsame, List.toFinset_card_of_nodup hnodup, List.length_map, groupsBy, List.length_map]

end

/-! ## Printed groups -/

/-- The items of a grouping that are printed. -/
def Grouping.printed (grouping : Grouping) : List Scalar :=
  grouping.items.filter fun item => !isConstantItem item

/-- A query with the groups that are printed. -/
def Query.asPrinted (q : Query) : Query :=
  { q with grouping := { q.grouping with items := q.grouping.printed } }

/-- A query is printed as the one without constant items in its `GROUP BY` clause. -/
theorem printQueryBody_asPrinted (next : NextLevel) (q : Query) :
    printQueryBody next q.asPrinted = printQueryBody next q := by
  have hgrouping : printGrouping next q.asPrinted.grouping = printGrouping next q.grouping := by
    simp only [printGrouping, Query.asPrinted, Grouping.printed, List.filter_filter, Bool.and_self]
  rw [printQueryBody, hgrouping]
  rfl

/-- Nothing is printed for a grouping by constants. -/
theorem Query.isGrouped_asPrinted (q : Query) :
    q.asPrinted.isGrouped = q.grouping.items.any fun item => !isConstantItem item := by
  simp only [isGrouped, asPrinted, Grouping.printed]
  induction q.grouping.items with
  | nil => rfl
  | cons item rest ih =>
    rw [List.filter_cons, List.any_cons]
    split
    · next h => simp [h]
    · next h => rw [Bool.eq_false_iff.mpr h, Bool.false_or, ih]

/-! ## Blocks of rows -/

/-- What scalars are worth on rows; a constant is worth the same on each. -/
structure Meaning (Row V : Type) where
  value : Scalar → Row → V
  constant : ∀ e, isConstantItem e = true → ∀ ρ ρ', value e ρ = value e ρ'

/-- The meaning of scalars under an interpretation of the operators. -/
def Interpretation.meaning {V : Type} (I : Interpretation V) : Meaning (Env V) V where
  value e ρ := e.eval I ρ
  constant e h ρ ρ' := by
    cases e with
    | value v => rfl
    | parameter p => rfl
    | _ => cases h

/-- Whether a query computes an aggregate of its rows. -/
def Store.aggregates (s : Store) (q : Query) : Bool :=
  (q.columns.map fun c => (s.column c).expression).any (·.anyPart Scalar.isAggregate) ||
    q.having.hasAggregate || q.orderBy.any fun item => item.expression.anyPart Scalar.isAggregate

namespace Meaning

variable {Row V : Type} [DecidableEq V] (M : Meaning Row V) (s : Store)

/-- The values of some scalars on a row. -/
def tuple (items : List Scalar) (ρ : Row) : List V := items.map fun e => M.value e ρ

/-- The blocks that a query makes of the rows it reads. -/
def blocks (q : Query) (rows : List Row) : List (List Row) :=
  if q.isGrouped then groupsBy (M.tuple q.grouping.items) rows
  else if s.aggregates q then [rows]
  else rows.map fun ρ => [ρ]

variable {M s}

omit [DecidableEq V] in
/-- Constants do not tell rows apart. -/
theorem tuple_filter_eq_iff {items : List Scalar} {ρ ρ' : Row} :
    M.tuple (items.filter fun item => !isConstantItem item) ρ =
        M.tuple (items.filter fun item => !isConstantItem item) ρ' ↔
      M.tuple items ρ = M.tuple items ρ' := by
  induction items with
  | nil => simp [tuple]
  | cons item rest ih =>
    simp only [tuple, List.map_cons, List.cons.injEq] at ih ⊢
    by_cases h : isConstantItem item = true
    · simp [h, ih, M.constant item h ρ ρ']
    · simp [h, ih]

/-- The blocks of a printed query are the groups of the rows by its items, if one of these is
printed. -/
theorem blocks_asPrinted {q : Query} (h : ∃ item ∈ q.grouping.items, isConstantItem item = false)
    (rows : List Row) :
    M.blocks s q.asPrinted rows = groupsBy (M.tuple q.grouping.items) rows := by
  have hgrouped : q.asPrinted.isGrouped = true := by
    rw [Query.isGrouped_asPrinted]
    simpa using h
  rw [blocks, if_pos hgrouped]
  exact groupsBy_congr (fun ρ ρ' => tuple_filter_eq_iff) rows

/-- A printed query has as many blocks as there are values of its items if and only if one of these
is printed. -/
theorem blocks_asPrinted_iff [Inhabited Row] {q : Query} :
    (∀ rows : List Row, (M.blocks s q.asPrinted rows).length =
        (rows.map (M.tuple q.grouping.items)).toFinset.card) ↔
      ∃ item ∈ q.grouping.items, isConstantItem item = false := by
  refine ⟨fun h => ?_, fun h rows => by rw [blocks_asPrinted h, length_groupsBy]⟩
  by_contra hnone
  have hgrouped : q.asPrinted.isGrouped = false := by
    rw [Query.isGrouped_asPrinted]
    simpa using hnone
  -- Two equal rows are of one group, and no rows are of none.
  have htwo := h [default, default]
  have hzero := h []
  cases haggregates : s.aggregates q.asPrinted with
  | true => simp [blocks, hgrouped, haggregates] at hzero
  | false => simp [blocks, hgrouped, haggregates] at htwo

end Meaning

end SqlCompiler
