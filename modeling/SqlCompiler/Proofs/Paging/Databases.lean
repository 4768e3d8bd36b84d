import Mathlib.Data.Int.Order.Basic
import SqlCompiler.Proofs.Columns.Ownership
import SqlCompiler.Proofs.Lowering.Pipelines
import SqlCompiler.Proofs.Paging.Runs

/-!
# Engines of databases

The queries over one table or subquery can be run on the rows of a database, for any reading of the
operators that counts: its integers are added and compared as numbers.

Main results:

- Definition `Interpretation.Counts.engine`: the engine of a database.
- Theorem `Store.gives_of_values`: what a query gives that selects no row numbers.
-/

namespace SqlCompiler

namespace Interpretation

variable {V : Type}

/-- An order of the values of an interpretation whose integers are numbers. -/
structure Counts (I : Interpretation V) where
  order : V → V → Ordering
  order_integer : ∀ m n : Nat,
    order (I.constant (.integer m)) (I.constant (.integer n)) = Ord.compare m n
  add : ∀ m n : Nat, I.binary .add (I.constant (.integer m)) (I.constant (.integer n)) =
    I.constant (.integer (m + n : Nat))
  compare : ∀ op, ∀ m n : Nat, I.compare op (I.constant (.integer m)) (I.constant (.integer n)) =
    some (op.holds m n)

/-- Integers are numbers, and what is absent comes first. -/
def nullableCounts : nullableIntegers.Counts where
  order
    | some m, some n => Ord.compare m n
    | some _, none => .gt
    | none, some _ => .lt
    | none, none => .eq
  order_integer m n := by
    show compareOfLessAndEq (m : Int) (n : Int) = compareOfLessAndEq m n
    simp only [compareOfLessAndEq, Int.ofNat_lt, Int.natCast_inj]
  add _ _ := rfl
  compare _ _ _ := rfl

end Interpretation

/-- The number that a constant is. -/
def Scalar.literalCount : Scalar → Option Nat
  | .value ⟨_, .integer (.ofNat n)⟩ => some n
  | _ => none

section

variable {V : Type} (I : Interpretation V) (s : Store) (db : Database V)

/-- What can be referred to on a row of a table, inside a row of the queries around it. -/
def Store.tableBlock (outer : Env V) (t : TableRef) (row : String → V) : Env V where
  field f := if f ∈ (s.table t).fields then row (s.field f).physicalName else outer.field f
  column := outer.column

/-- What can be referred to on a row of a subquery, inside a row of the queries around it. -/
def Env.withColumns (outer : Env V) (row : QueryRow V) : Env V :=
  { outer with column := fun c => (row c).getD (outer.column c) }

/-- The rows of the one source of a body. -/
def QueryBody.sourceRows (run : Run V) (outer : Env V) (body : QueryBody) : List (Env V) :=
  match body.sources with
  | [⟨.table t, _, []⟩] => (db (s.table t).name).map (s.tableBlock outer t)
  | [⟨.query q, _, []⟩] => (run q outer).map outer.withColumns
  | _ => []

/-- The rows of a body that meet its condition, if they are not put into groups. -/
def QueryBody.singleRows (run : Run V) (outer : Env V) (body : QueryBody) : List (Env V) :=
  if body.grouping.items.isEmpty && body.having.isEmpty && !body.aggregates then
    (body.sourceRows s db run outer).filter fun ρ => body.whereClause.truth I ρ == some true
  else []

theorem QueryBody.singleRows_congr {run run' : Run V} {outer : Env V} {body : QueryBody}
    {reads : TableRef → List QueryRef} (h : ∀ r ∈ body.mentions reads, run r = run' r) :
    body.singleRows I s db run outer = body.singleRows I s db run' outer := by
  have hrows : body.sourceRows s db run outer = body.sourceRows s db run' outer := by
    unfold sourceRows
    split
    · rfl
    · next q aliasName hsources =>
        rw [h q]
        refine List.mem_append_left _ (mem_queriesOf.mpr ?_)
        simp [hsources, Source.all, Source.joined, Source.walk, Source.query?]
    · rfl
  rw [singleRows, singleRows, hrows]

variable {I}

/-- The engine that runs queries over one table or subquery on a database.  Queries with set
operators, or without listed columns, are given no rows. -/
def Interpretation.Counts.engine (counts : I.Counts) : Engine V (Env V) where
  blocks run outer body := body.singleRows I s db run outer
  value _ e ρ := e.eval I ρ
  truth _ p ρ := p.truth I ρ
  compare := counts.order
  number n := I.constant (.integer n)
  count := Scalar.literalCount
  row := Env.withColumns
  reads _ := []
  other _ _ _ _ rows := rows = []
  blocks_ofQuery run outer r condition := by
    simp [QueryBody.singleRows, QueryBody.sourceRows, Source.ofQuery, Condition.truth_eq]
  value_column run outer c v ρ h := by simp [Scalar.eval, Env.withColumns, h]
  value_beq _ e e' b h := Scalar.eval_congr I b e e' h
  value_add _ e e' _ b m n h h' := by rw [Scalar.eval, h, h', counts.add]
  value_count _ e b n h := by
    unfold Scalar.literalCount at h
    split at h
    · cases h
      rfl
    · cases h
  truth_comparison _ e op e' b m n h h' := by
    rw [Predicate.comparison, Predicate.truth, h, h', counts.compare]
  compare_number := counts.order_integer
  value_congr _ _ _ _ := rfl
  blocks_congr _ _ _ _ h := QueryBody.singleRows_congr I s db h
  other_congr _ _ _ _ _ _ := rfl

end

namespace Store

/-! ## Queries without row numbers -/

section

variable {V Block : Type} (E : Engine V Block) (s : Store) (run : Run V) (outer : Env V)
  (q : QueryRef)

/-- What a query selects on a block if it selects no row numbers. -/
def selectionOf (b : Block) : Selection V Block :=
  ⟨b, fun c => E.value run (s.column c).expression b⟩

/-- The selections of a query on its blocks if it selects no row numbers. -/
def selections : List (Selection V Block) :=
  (E.blocks run outer (s.body q)).map (s.selectionOf E run)

variable {E s run outer q}

theorem computes_selections (h : ∀ e ∈ s.selected q, ¬e.IsRowNumber) :
    s.Computes E run outer q (s.selections E run outer q) where
  blocks := by rw [selections, List.map_map]; exact .of_eq (List.map_id _)
  columns c hc :=
    { value := fun _ x hx => by
        obtain ⟨b, -, rfl⟩ := List.mem_map.mp hx
        rfl
      number := fun items hitems => (h _ (List.mem_map_of_mem hc) ⟨items, hitems⟩).elim }

/-- A query that selects no row numbers gives what its columns are worth on its blocks, in any order
that agrees with its own. -/
theorem gives_of_values [DecidableEq V] (hlists : E.Lists (s.query q))
    (hnumbers : ∀ e ∈ s.selected q, ¬e.IsRowNumber) {arranged : List (Selection V Block)}
    (hperm : arranged.Perm (s.distinctly q (s.selections E run outer q)))
    (hsorted : Sorted E run (s.query q).orderBy arranged) :
    s.Gives E run outer q ((E.page (s.query q) arranged).map (s.rowOf q)) :=
  .listed hlists (computes_selections hnumbers) hperm hsorted

end

/-! ## Queries for nicknames -/

/-- A run in which no query has rows. -/
def noRun : Run (Option Int) := fun _ _ => []

/-- What can be referred to outside of all rows: nothing. -/
def nowhere : Env (Option Int) where
  field _ := none
  column _ := none

/-- A statement for the nicknames of people, with the other clauses of a query. -/
def nicknames (query : Query) : Store where
  tables := #[{ name := { name := "Person" }, fields := [⟨0⟩, ⟨1⟩] }]
  fields := #[{ (default : Field) with physicalName := "Nickname" },
    { (default : Field) with physicalName := "Age" }]
  queries := #[{ query with columns := [⟨0⟩], sources := [.ofTable ⟨0⟩] }]
  columns := #[{ parent := ⟨0⟩, expression := .field ⟨0⟩, aliasName := none }]
  statements := #[{ body := .select, query := ⟨0⟩ }]

/-- Ascending ages. -/
def byAge : List OrderItem := [{ expression := .field ⟨1⟩, descending := false }]

theorem query_nicknames (query : Query) {q : QueryRef} (hq : q ≠ ⟨0⟩) :
    (nicknames query).query q = {} := by
  have hpos : 0 < q.index := Nat.pos_of_ne_zero fun h => hq (by cases q; simp_all)
  exact query_of_le (s := nicknames query) hpos

theorem owned_nicknames (query : Query) : (nicknames query).Owned := by
  have hcolumn {q : QueryRef} {c : ColumnRef} (hc : c ∈ ((nicknames query).query q).columns) :
      q = ⟨0⟩ ∧ c = ⟨0⟩ := by
    by_cases hq : q = ⟨0⟩
    · subst hq
      exact ⟨rfl, List.mem_singleton.mp hc⟩
    · rw [query_nicknames query hq] at hc
      cases hc
  refine ⟨fun q c hc => ?_, fun q c hc => ?_, fun q => ?_⟩
  · rw [(hcolumn hc).2]
    exact Nat.one_pos
  · rw [(hcolumn hc).1, (hcolumn hc).2]
    rfl
  · by_cases hq : q = ⟨0⟩
    · rw [hq]
      exact List.nodup_singleton _
    · rw [query_nicknames query hq]
      exact List.nodup_nil

variable {V Block : Type} {E : Engine V Block}

theorem closed_nicknames {query : Query} (hreads : E.reads ⟨0⟩ = [])
    (h : queriesOf ((nicknames query).walkQuery ⟨0⟩) = []) : (nicknames query).Closed E := by
  intro q r hr
  rw [Query.mentions, scalars_query] at hr
  by_cases hq : q = ⟨0⟩
  · have htables : ((nicknames query).query q).allSources.flatMap (Source.tableQueries E.reads) =
        E.reads ⟨0⟩ := by
      rw [hq]
      exact List.append_nil _
    rw [htables, hreads, hq, h] at hr
    cases hr
  · rw [walkQuery, query_nicknames query hq] at hr
    cases hr

end Store

end SqlCompiler
