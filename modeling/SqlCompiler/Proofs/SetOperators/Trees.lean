import Mathlib.Data.List.Lattice
import SqlCompiler.Proofs.Columns.Selection
import SqlCompiler.Proofs.Lowering.Growth
import SqlCompiler.Proofs.Lowering.Pipelines

/-!
# Tuples of queries and trees of set operators

The block of a query selects a tuple on each of its rows.  The set operators are applied to these
tuples and those of the other sides, from left to right, and tuples are compared position by
position.

A tree of set operators over chains stands for rows, lists of members with their names.  The query
it is built as has the same form: a query whose tuples are the rows of a chain, one that reads all
columns of another query, and one with a set operator more.

Main results:

- Definition `SetOperation.apply`: the set operators on lists.
- Theorem `SetOperation.apply_map`: only which items are equal matters to them.
- Definition `Store.Tuples`: the tuples of a query over a database.
- Theorem `Store.Tuples.congr`: they depend on the queries between two bounds.
- Theorem `Store.Yields.tuples`: the tuples of a query without set operators.
- Definition `SetTree`, with `SetTree.term` and `SetTree.run`: a tree, the term it is written as and
  the rows it stands for.
- Definition `Store.Builds`: a query has the form of a tree.
- Theorem `Store.Builds.tuples`: such a query has the rows of the tree as its tuples.
-/

namespace SqlCompiler

/-! ## Set operators on lists -/

section

variable {α β : Type} [DecidableEq α] [DecidableEq β]

/-- What a set operator makes of two lists.  The operators without `ALL` give each item once, in
the order of its first occurrence. -/
def SetOperation.apply (left right : List α) : SetOperation → List α
  | union => firstOfEach (fun a => a) (left ++ right)
  | unionAll => left ++ right
  | except => firstOfEach (fun a => a) (left.filter fun a => a ∉ right)
  | exceptAll => left.diff right
  | intersect => firstOfEach (fun a => a) (left.filter fun a => a ∈ right)
  | intersectAll => left.bagInter right

variable {left right : List α} {f : α → β}

/-- Nothing but items of the two lists. -/
theorem SetOperation.mem_of_mem_apply {operation : SetOperation} {a : α}
    (h : a ∈ operation.apply left right) : a ∈ left ++ right := by
  have hfilter : ∀ p : α → Bool, a ∈ firstOfEach (fun a => a) (left.filter p) → a ∈ left :=
    fun p ha => (List.mem_filter.mp (firstOfEach_subset _ _ ha)).1
  cases operation with
  | union => exact firstOfEach_subset _ _ h
  | unionAll => exact h
  | except => exact List.mem_append_left right (hfilter _ h)
  | exceptAll => exact List.mem_append_left right (List.diff_subset left right h)
  | intersect => exact List.mem_append_left right (hfilter _ h)
  | intersectAll => exact List.mem_append_left right (List.mem_bagInter.mp h).1

theorem firstOfEach_self_map {items : List α} (hf : ∀ a ∈ items, ∀ b ∈ items, f a = f b → a = b) :
    firstOfEach (fun b => b) (items.map f) = (firstOfEach (fun a => a) items).map f := by
  rw [firstOfEach_map]
  congr 1
  exact firstOfEach_congr fun a ha b hb => ⟨hf a ha b hb, congrArg f⟩

omit [DecidableEq α] [DecidableEq β] in
/-- Whether an item is among others, seen through a function that tells them apart. -/
theorem mem_map_iff_of_inj {a : α} (hf : ∀ b ∈ right, f a = f b → a = b) :
    f a ∈ right.map f ↔ a ∈ right := by
  refine ⟨fun h => ?_, List.mem_map_of_mem⟩
  obtain ⟨b, hb, heq⟩ := List.mem_map.mp h
  rw [hf b hb heq.symm]
  exact hb

theorem map_erase_of_inj {a : α} (hf : ∀ b ∈ left, f a = f b → a = b) :
    (left.erase a).map f = (left.map f).erase (f a) := by
  induction left with
  | nil => rfl
  | cons b rest ih =>
    have hrest := ih fun c hc => hf c (List.mem_cons_of_mem b hc)
    by_cases heq : a = b
    · simp [heq]
    · have hne : f b ≠ f a := fun h => heq (hf b List.mem_cons_self h.symm)
      rw [List.erase_cons_tail (by simpa using Ne.symm heq), List.map_cons, List.map_cons,
        List.erase_cons_tail (by simpa using hne), hrest]

theorem map_diff_of_inj (hf : ∀ a ∈ right, ∀ b ∈ left, f a = f b → a = b) :
    (left.diff right).map f = (left.map f).diff (right.map f) := by
  induction right generalizing left with
  | nil => simp
  | cons a rest ih =>
    rw [List.diff_cons, List.map_cons, List.diff_cons,
      ← map_erase_of_inj (hf a List.mem_cons_self)]
    exact ih fun c hc b hb =>
      hf c (List.mem_cons_of_mem a hc) b (List.erase_subset hb)

theorem map_bagInter_of_inj (hf : ∀ a ∈ left, ∀ b ∈ right, f a = f b → a = b) :
    (left.bagInter right).map f = (left.map f).bagInter (right.map f) := by
  induction left generalizing right with
  | nil => simp
  | cons a rest ih =>
    have hrest : ∀ c ∈ rest, ∀ b ∈ right, f c = f b → c = b := fun c hc =>
      hf c (List.mem_cons_of_mem a hc)
    have hmem : f a ∈ right.map f ↔ a ∈ right := mem_map_iff_of_inj (hf a List.mem_cons_self)
    by_cases ha : a ∈ right
    · rw [List.cons_bagInter_of_mem rest ha, List.map_cons, List.map_cons,
        List.cons_bagInter_of_mem _ (hmem.mpr ha),
        ← map_erase_of_inj (hf a List.mem_cons_self),
        ih fun c hc b hb => hrest c hc b (List.erase_subset hb)]
    · rw [List.cons_bagInter_of_not_mem rest ha, List.map_cons,
        List.cons_bagInter_of_not_mem _ (mt hmem.mp ha), ih hrest]

/-- Set operators on items seen through a function that tells them apart. -/
theorem SetOperation.apply_map (operation : SetOperation)
    (hf : ∀ a ∈ left ++ right, ∀ b ∈ left ++ right, f a = f b → a = b) :
    operation.apply (left.map f) (right.map f) = (operation.apply left right).map f := by
  have hleft : ∀ a ∈ left, a ∈ left ++ right := fun a => List.mem_append_left right
  have hright : ∀ a ∈ right, a ∈ left ++ right := fun a => List.mem_append_right left
  have hmem : ∀ a ∈ left, (f a ∈ right.map f ↔ a ∈ right) := fun a ha =>
    mem_map_iff_of_inj fun b hb => hf a (hleft a ha) b (hright b hb)
  have hfirst : ∀ p : α → Bool, firstOfEach (fun b => b) ((left.filter p).map f) =
      (firstOfEach (fun a => a) (left.filter p)).map f := fun p =>
    firstOfEach_self_map fun a ha b hb =>
      hf a (hleft a (List.mem_filter.mp ha).1) b (hleft b (List.mem_filter.mp hb).1)
  cases operation with
  | union =>
    rw [apply, ← List.map_append, firstOfEach_self_map hf]
    rfl
  | unionAll => exact List.map_append.symm
  | except =>
    rw [apply, apply, ← hfirst, List.filter_map]
    congr 2
    exact List.filter_congr fun a ha => by simp only [Function.comp_apply, hmem a ha]
  | exceptAll =>
    exact (map_diff_of_inj fun a ha b hb => hf a (hright a ha) b (hleft b hb)).symm
  | intersect =>
    rw [apply, apply, ← hfirst, List.filter_map]
    congr 2
    exact List.filter_congr fun a ha => by simp only [Function.comp_apply, hmem a ha]
  | intersectAll =>
    exact (map_bagInter_of_inj fun a ha b hb => hf a (hleft a ha) b (hright b hb)).symm

end

/-! ## Tuples -/

/-- A query block without groups and without an order.  Set operators follow it only if it is not
paged, as paging is about what they give. -/
structure Query.IsBlock (q : Query) : Prop where
  grouping : q.grouping.items = []
  having : q.having.branches = []
  orderBy : q.orderBy = []
  unpaged : q.setOperators ≠ [] → q.hasPagination = false

theorem Query.IsPlain.isBlock {q : Query} (h : q.IsPlain) : q.IsBlock :=
  ⟨h.grouping, h.having, h.orderBy, fun hoperators => absurd h.setOperators hoperators⟩

section

variable {V : Type} [DecidableEq V] (I : Interpretation V) (db : Database V)

/-- What can be referred to on a tuple of a nested query: its columns, by their positions. -/
def Store.tupleEnv (s : Store) (q : QueryRef) (tuple : List V) : Env V where
  field _ := I.unknown
  column c := (tuple[(s.query q).columns.idxOf c]?).getD I.unknown

/-- The tuples of a query after some of its set operators.  The query and all queries that are
read for it are between two bounds. -/
inductive Store.Tuples (s : Store) :
    Nat → Nat → QueryRef → List SetOperator → List (List V) → Prop where
  | table {lo hi : Nat} {q : QueryRef} {t : TableRef} {aliasName : Option String}
      (hlo : lo ≤ q.index) (hhi : q.index < hi)
      (hsources : (s.query q).sources = [⟨.table t, aliasName, []⟩])
      (hblock : (s.query q).IsBlock) :
      Tuples s lo hi q []
        (((s.query q).rowsOf I s ((db (s.table t).name).map (s.tableEnv I t))).map
          (s.tuple I (s.query q)))
  | query {lo hi : Nat} {q inner : QueryRef} {aliasName : Option String} {tuples : List (List V)}
      (hhi : q.index < hi)
      (hsources : (s.query q).sources = [⟨.query inner, aliasName, []⟩])
      (hblock : (s.query q).IsBlock)
      (hinner : Tuples s lo q.index inner (s.query inner).setOperators tuples) :
      Tuples s lo hi q []
        (((s.query q).rowsOf I s (tuples.map (s.tupleEnv I inner))).map (s.tuple I (s.query q)))
  | combine {lo mid hi : Nat} {q : QueryRef} {operators : List SetOperator}
      {operator : SetOperator} {left right : List (List V)}
      (hleft : Tuples s lo mid q operators left)
      (hright : Tuples s mid hi operator.query (s.query operator.query).setOperators right) :
      Tuples s lo hi q (operators ++ [operator]) (operator.operation.apply left right)

end

/-! ## Queries that matter -/

/-- The block of a query is the same, and so is what it refers to. -/
structure Store.SameBlock (s s' : Store) (q : QueryRef) : Prop where
  query : ∃ parent setOperators, s'.query q = { s.query q with parent, setOperators }
  column : ∀ c ∈ (s.query q).columns, s'.column c = s.column c
  table : ∀ source ∈ (s.query q).sources, ∀ t, source.table? = some t →
    s'.table t = s.table t ∧ ∀ f ∈ (s.table t).fields, s'.field f = s.field f

/-- A query is the same but for the query that encloses it, and so is what it refers to. -/
structure Store.SameQuery (s s' : Store) (q : QueryRef) : Prop extends s.SameBlock s' q where
  setOperators : (s'.query q).setOperators = (s.query q).setOperators

section

variable {V : Type} [DecidableEq V] {I : Interpretation V} {db : Database V} {s s' : Store}
  {q r : QueryRef} {lo hi : Nat} {operators : List SetOperator} {listed : List (List V)}
  {rows : List (Env V)}

namespace Store

theorem SameQuery.isBlock (h : s.SameQuery s' q) (hblock : (s.query q).IsBlock) :
    (s'.query q).IsBlock := by
  obtain ⟨parent, setOperators, hquery⟩ := h.query
  have hoperators := h.setOperators
  rw [hquery] at hoperators ⊢
  exact ⟨hblock.grouping, hblock.having, hblock.orderBy, fun hne =>
    hblock.unpaged (hoperators ▸ hne)⟩

theorem SameBlock.sources (h : s.SameBlock s' q) : (s'.query q).sources = (s.query q).sources := by
  obtain ⟨parent, setOperators, hquery⟩ := h.query
  rw [hquery]

theorem SameBlock.columns (h : s.SameBlock s' q) : (s'.query q).columns = (s.query q).columns := by
  obtain ⟨parent, setOperators, hquery⟩ := h.query
  rw [hquery]

/-- The same block selects the same tuples of the same source rows. -/
theorem SameBlock.map_rowsOf (h : s.SameBlock s' q) (rows : List (Env V)) :
    ((s'.query q).rowsOf I s' rows).map (s'.tuple I (s'.query q)) =
      ((s.query q).rowsOf I s rows).map (s.tuple I (s.query q)) := by
  obtain ⟨parent, setOperators, hquery⟩ := h.query
  have htuple : ∀ ρ, s'.tuple I (s.query q) ρ = s.tuple I (s.query q) ρ := fun ρ =>
    List.map_congr_left fun c hc => by rw [h.column c hc]
  have hrows : (s.query q).rowsOf I s' rows = (s.query q).rowsOf I s rows :=
    rowsOf_congr fun c hc => by rw [h.column c hc]
  rw [hquery, ← hrows, ← funext htuple]
  rfl

omit [DecidableEq V] in
theorem SameBlock.tableEnv (h : s.SameBlock s' q) {t : TableRef} {aliasName : Option String}
    (hsources : (s.query q).sources = [⟨.table t, aliasName, []⟩]) :
    s'.table t = s.table t ∧ s'.tableEnv I t = s.tableEnv I t := by
  obtain ⟨htable, hfields⟩ := h.table _ (by rw [hsources]; exact List.mem_singleton_self _) t rfl
  refine ⟨htable, funext fun row => ?_⟩
  unfold Store.tableEnv
  congr 1
  funext f
  rw [htable]
  by_cases hf : f ∈ (s.table t).fields
  · rw [if_pos hf, if_pos hf, hfields f hf]
  · rw [if_neg hf, if_neg hf]

omit [DecidableEq V] in
theorem SameBlock.tupleEnv (h : s.SameBlock s' q) : s'.tupleEnv I q = s.tupleEnv I q := by
  funext tuple
  unfold Store.tupleEnv
  rw [h.columns]

theorem Tuples.bounds (h : s.Tuples I db lo hi q operators listed) :
    lo ≤ q.index ∧ q.index < hi := by
  induction h with
  | table hlo hhi => exact ⟨hlo, hhi⟩
  | query hhi _ _ _ ih => exact ⟨by omega, hhi⟩
  | combine _ _ ihleft ihright => exact ⟨ihleft.1, by omega⟩

theorem Tuples.isBlock (h : s.Tuples I db lo hi q operators listed) : (s.query q).IsBlock := by
  induction h with
  | table _ _ _ hblock => exact hblock
  | query _ _ hblock _ => exact hblock
  | combine _ _ ihleft _ => exact ihleft

/-- The tuples depend on the block of the query and on the other queries between the bounds. -/
theorem Tuples.congr (h : s.Tuples I db lo hi q operators listed) (hroot : s.SameBlock s' q)
    (hblock : (s'.query q).IsBlock)
    (hrest : ∀ r : QueryRef, lo ≤ r.index → r.index < hi → r ≠ q → s.SameQuery s' r) :
    s'.Tuples I db lo hi q operators listed := by
  induction h with
  | table hlo hhi hsources _ =>
    obtain ⟨htable, henv⟩ := hroot.tableEnv (I := I) hsources
    rw [← hroot.map_rowsOf, ← henv, ← htable]
    exact .table hlo hhi (hroot.sources.trans hsources) hblock
  | @query lo hi q inner aliasName tuples hhi hsources _ hinner ih =>
    obtain ⟨hlo, hlt⟩ := hinner.bounds
    have hsame : s.SameQuery s' inner :=
      hrest inner hlo (Nat.lt_trans hlt hhi) fun heq => by rw [heq] at hlt; omega
    rw [← hroot.map_rowsOf, ← hsame.tupleEnv]
    refine .query hhi (hroot.sources.trans hsources) hblock ?_
    rw [hsame.setOperators]
    exact ih hsame.toSameBlock (hsame.isBlock hinner.isBlock) fun r hr hr' _ =>
      hrest r hr (Nat.lt_trans hr' hhi) fun heq => by rw [heq] at hr'; omega
  | combine hleft hright ihleft ihright =>
    obtain ⟨hlo, hlt⟩ := hleft.bounds
    obtain ⟨hle, hhi⟩ := hright.bounds
    have hsame := hrest _ (by omega) hhi fun heq => by rw [heq] at hle; omega
    refine .combine (ihleft hroot hblock fun r hr hr' => hrest r hr (by omega)) ?_
    rw [hsame.setOperators]
    exact ihright hsame.toSameBlock (hsame.isBlock hright.isBlock) fun r hr hr' _ =>
      hrest r (by omega) hr' fun heq => by rw [heq] at hr; omega

/-- A query has one list of tuples. -/
theorem Tuples.unique {lo' hi' : Nat} {operators' : List SetOperator} {tuples' : List (List V)}
    (h : s.Tuples I db lo hi q operators listed)
    (h' : s.Tuples I db lo' hi' q operators' tuples') (heq : operators' = operators) :
    tuples' = listed := by
  induction h generalizing lo' hi' operators' tuples' with
  | table _ _ hsources _ =>
    cases h' with
    | table _ _ hsources' _ =>
      rw [hsources] at hsources'
      cases hsources'
      rfl
    | query _ hsources' _ _ =>
      rw [hsources] at hsources'
      cases hsources'
    | combine _ _ => simp at heq
  | query _ hsources _ _ ih =>
    cases h' with
    | table _ _ hsources' _ =>
      rw [hsources] at hsources'
      cases hsources'
    | query _ hsources' _ hinner' =>
      rw [hsources] at hsources'
      cases hsources'
      rw [ih hinner' rfl]
    | combine _ _ => simp at heq
  | combine _ _ ihleft ihright =>
    cases h' with
    | table _ _ _ _ => simp at heq
    | query _ _ _ _ => simp at heq
    | combine hleft' hright' =>
      obtain ⟨hoperators, hoperator⟩ := List.append_inj' heq rfl
      cases hoperator
      rw [ihleft hleft' hoperators, ihright hright' rfl]

/-! ## Queries without set operators -/

omit [DecidableEq V] in
/-- A tuple of a query stands for the row it was selected on. -/
theorem tupleEnv_tuple (ρ : Env V) : s.tupleEnv I q (s.tuple I (s.query q) ρ) = s.queryEnv I q ρ := by
  unfold Store.tupleEnv Store.queryEnv
  congr 1
  funext c
  rw [Store.tuple, List.getElem?_map]
  by_cases hc : c ∈ (s.query q).columns
  · rw [if_pos hc, List.getElem?_idxOf hc]
    rfl
  · rw [if_neg hc, List.idxOf_eq_length hc, List.getElem?_length]
    rfl

/-- A query without set operators selects its tuples on its rows. -/
theorem Yields.tuples (h : s.Yields I db q rows) (hordered : s.Ordered)
    (habove : ∀ q r : QueryRef, lo ≤ q.index → r ∈ (s.query q).reads → lo ≤ r.index)
    (hlo : lo ≤ q.index) (hhi : q.index < hi) :
    s.Tuples I db lo hi q [] (rows.map (s.tuple I (s.query q))) := by
  induction h generalizing hi with
  | table hsources hplain => exact .table hlo hhi hsources hplain.isBlock
  | @query q inner aliasName rows hsources hplain hinner ih =>
    have hbelow : inner.index < q.index :=
      hordered.source q _ (by rw [hsources]; exact List.mem_singleton_self _) inner rfl
    have hread : inner ∈ (s.query q).reads := by
      simp [Query.reads, Query.subqueries, Query.allSources, hsources, Source.all, Source.joined,
        Source.query?]
    have htuples := ih (habove q inner hlo hread) hbelow
    have hrows : rows.map (s.queryEnv I inner) =
        (rows.map (s.tuple I (s.query inner))).map (s.tupleEnv I inner) := by
      rw [List.map_map]
      exact List.map_congr_left fun ρ _ => (tupleEnv_tuple ρ).symm
    rw [hrows]
    refine .query hhi hsources hplain.isBlock ?_
    rw [hinner.isPlain.setOperators]
    exact htuples

end Store

end

/-! ## Trees -/

/-- The operator on sequences of a set operator. -/
def SetOperation.operator : SetOperation → SequenceOperator
  | union => .union
  | unionAll => .concat
  | except => .except
  | exceptAll => .exceptAll
  | intersect => .intersect
  | intersectAll => .intersectAll

mutual

/-- The paths of the single values of a shape. -/
def Shape.pathsAt (path : String) : Shape → List String
  | .value _ => [path]
  | .record members => pathsOfMembers path members
termination_by structural σ => σ

/-- The paths of the single values of the members of a shape. -/
def pathsOfMembers (path : String) : List (String × Shape) → List String
  | [] => []
  | (name, σ) :: rest => σ.pathsAt (Projection.memberPath path name) ++ pathsOfMembers path rest
termination_by structural ms => ms

end

/-- Set operators over chains of operators on mapped entities. -/
inductive SetTree where
  | chain (name : String) (entity : EntityMapping) (operators : Pipeline)
  | combine (operation : SetOperation) (left right : SetTree)

namespace SetTree

/-- The tree as a query term. -/
def term : SetTree → Term
  | chain name _ operators => operators.term name
  | combine operation left right => left.term.apply operation.operator [right.term]

/-- Every chain reads a mapped entity. -/
def MapsIn (schema : Schema) : SetTree → Prop
  | chain name entity _ => schema.Maps name entity
  | combine _ left right => left.MapsIn schema ∧ right.MapsIn schema

/-- Every chain has elements with these members. -/
def Selects (names : List String) : SetTree → Prop
  | chain _ entity operators => ∃ σ, operators.shape? entity.shape = some σ ∧ σ.pathsAt "" = names
  | combine _ left right => left.Selects names ∧ right.Selects names

/-- The rows a tree stands for: those of its chains, combined by its operators, where rows are the
same if all members are. -/
def run {V : Type} [DecidableEq V] (I : Interpretation V) (db : Database V) :
    SetTree → List (List (String × V))
  | chain _ entity operators => (operators.run I (entity.elements db)).map Element.leaves
  | combine operation left right => operation.apply (left.run I db) (right.run I db)

end SetTree

/-- The values of a row without their names. -/
def rowValues {V : Type} (row : List (String × V)) : List V := row.map (·.2)

/-- Rows with the same names are told apart by their values. -/
theorem rowValues_inj {V : Type} {row row' : List (String × V)}
    (hnames : row.map (·.1) = row'.map (·.1)) (h : rowValues row = rowValues row') :
    row = row' := by
  rw [← List.zip_unzip row, ← List.zip_unzip row', List.unzip_eq_map, List.unzip_eq_map]
  exact congrArg₂ List.zip hnames h

/-! ## Built queries -/

section

variable {V : Type} [DecidableEq V] (I : Interpretation V) (db : Database V) (names : List String)

/-- A query and some of its set operators have the form of a tree whose rows have the given
names. -/
inductive Store.Builds (s : Store) :
    Nat → Nat → QueryRef → List SetOperator → SetTree → Prop where
  /-- The values of the members of the rows of a chain, in order. -/
  | chain {lo hi : Nat} {q : QueryRef} {name : String} {entity : EntityMapping}
      {operators : Pipeline}
      (hnames : ∀ row ∈ (SetTree.chain name entity operators).run I db, row.map (·.1) = names)
      (htuples : s.Tuples I db lo hi q []
        (((SetTree.chain name entity operators).run I db).map rowValues)) :
      Builds s lo hi q [] (.chain name entity operators)
  /-- All columns of another query, in order. -/
  | nested {lo hi : Nat} {q inner : QueryRef} {parent : Option QueryRef}
      {columns : List ColumnRef} {setOperators : List SetOperator} {tree : SetTree}
      (hhi : q.index < hi)
      (hquery : s.query q = { parent, sources := [.ofQuery inner], columns, setOperators })
      (hselected : s.selected q = (s.query inner).columns.map Scalar.column)
      (hnodup : (s.query inner).columns.Nodup)
      (hlength : (s.query inner).columns.length = names.length)
      (hinner : Builds s lo q.index inner (s.query inner).setOperators tree) :
      Builds s lo hi q [] tree
  /-- One set operator more. -/
  | combine {lo mid hi : Nat} {q side : QueryRef} {operators : List SetOperator}
      {operation : SetOperation} {left right : SetTree}
      (hleft : Builds s lo mid q operators left)
      (hright : Builds s mid hi side (s.query side).setOperators right) :
      Builds s lo hi q (operators ++ [⟨operation, side⟩]) (.combine operation left right)

end

section

variable {V : Type} [DecidableEq V] {I : Interpretation V} {db : Database V} {names : List String}
  {s s' : Store} {q : QueryRef} {lo hi : Nat} {operators : List SetOperator} {tree : SetTree}

namespace Store

theorem Builds.names_of_mem (h : s.Builds I db names lo hi q operators tree) :
    ∀ row ∈ tree.run I db, row.map (·.1) = names := by
  induction h with
  | chain hnames _ => exact hnames
  | nested _ _ _ _ _ _ ih => exact ih
  | combine _ _ ihleft ihright =>
    intro row hrow
    rcases List.mem_append.mp (SetOperation.mem_of_mem_apply hrow) with hrow | hrow
    · exact ihleft row hrow
    · exact ihright row hrow

omit [DecidableEq V] in
/-- Columns that are read one by one give back the tuple. -/
theorem map_tupleEnv_column {inner : QueryRef} {tuple : List V}
    (hnodup : (s.query inner).columns.Nodup) (hlength : tuple.length = (s.query inner).columns.length) :
    (s.query inner).columns.map (fun c => (s.tupleEnv I inner tuple).column c) = tuple := by
  refine List.ext_getElem (by rw [List.length_map, hlength]) fun i hi hi' => ?_
  rw [List.getElem_map]
  change (tuple[(s.query inner).columns.idxOf _]?).getD I.unknown = _
  rw [hnodup.idxOf_getElem, List.getElem?_eq_getElem hi', Option.getD_some]

/-- A query of the form of a tree has the rows of the tree as its tuples. -/
theorem Builds.tuples (h : s.Builds I db names lo hi q operators tree) :
    s.Tuples I db lo hi q operators ((tree.run I db).map rowValues) := by
  induction h with
  | chain _ htuples => exact htuples
  | @nested lo hi q inner parent columns setOperators tree hhi hquery hselected hnodup hlength hinner ih =>
    have hblock : (s.query q).IsBlock := by
      rw [hquery]
      exact ⟨rfl, rfl, rfl, fun _ => rfl⟩
    have htuples := Tuples.query hhi (by rw [hquery]; rfl) hblock ih
    have hrows : ∀ rows : List (Env V), (s.query q).rowsOf I s rows = rows := fun rows => by
      rw [hquery]
      simp [Query.rowsOf, takeRows, skipRows]
    rw [hrows, List.map_map] at htuples
    have hsame : ∀ tuple ∈ (tree.run I db).map rowValues,
        (s.tuple I (s.query q) ∘ s.tupleEnv I inner) tuple = tuple := by
      intro tuple htuple
      obtain ⟨row, hrow, rfl⟩ := List.mem_map.mp htuple
      have hwidth : (rowValues row).length = (s.query inner).columns.length := by
        rw [hlength, ← hinner.names_of_mem row hrow, rowValues, List.length_map, List.length_map]
      have heval : s.tuple I (s.query q) (s.tupleEnv I inner (rowValues row)) =
          (s.selected q).map fun e => e.eval I (s.tupleEnv I inner (rowValues row)) :=
        (List.map_map ..).symm
      rw [Function.comp_apply, heval, hselected, List.map_map]
      exact map_tupleEnv_column hnodup hwidth
    rwa [List.map_congr_left hsame, List.map_id'] at htuples
  | @combine lo mid hi q side operators operation left right hleft hright ihleft ihright =>
    have htuples : s.Tuples I db lo hi q (operators ++ [⟨operation, side⟩]) _ :=
      Tuples.combine ihleft ihright
    have hinj : ∀ row ∈ left.run I db ++ right.run I db, ∀ row' ∈ left.run I db ++ right.run I db,
        rowValues row = rowValues row' → row = row' := by
      have hnames : ∀ row ∈ left.run I db ++ right.run I db, row.map (·.1) = names :=
        fun row hrow => (List.mem_append.mp hrow).elim (hleft.names_of_mem row) (hright.names_of_mem row)
      exact fun row hrow row' hrow' =>
        rowValues_inj ((hnames row hrow).trans (hnames row' hrow').symm)
    rwa [SetOperation.apply_map operation hinj] at htuples

/-! ## Queries that matter to a built one -/

theorem SameBlock.selected (h : s.SameBlock s' q) : s'.selected q = s.selected q := by
  unfold Store.selected
  rw [h.columns]
  exact List.map_congr_left fun c hc => by rw [h.column c hc]

/-- The form of a query depends on its block and on the other queries between the bounds. -/
theorem Builds.congr (h : s.Builds I db names lo hi q operators tree) (hroot : s.SameBlock s' q)
    (hblock : (s'.query q).IsBlock)
    (hrest : ∀ r : QueryRef, lo ≤ r.index → r.index < hi → r ≠ q → s.SameQuery s' r) :
    s'.Builds I db names lo hi q operators tree := by
  induction h with
  | chain hnames htuples => exact .chain hnames (htuples.congr hroot hblock hrest)
  | @nested lo hi q inner parent columns setOperators tree hhi hquery hselected hnodup hlength hinner ih =>
    obtain ⟨hlo, hlt⟩ := hinner.tuples.bounds
    have hsame : s.SameQuery s' inner :=
      hrest inner hlo (Nat.lt_trans hlt hhi) fun heq => by rw [heq] at hlt; omega
    obtain ⟨parent', setOperators', hquery'⟩ := hroot.query
    rw [hquery] at hquery'
    rw [← hsame.columns] at hselected hnodup hlength
    refine .nested hhi hquery' (hroot.selected.trans hselected) hnodup hlength ?_
    rw [hsame.setOperators]
    exact ih hsame.toSameBlock (hsame.isBlock hinner.tuples.isBlock) fun r hr hr' _ =>
      hrest r hr (Nat.lt_trans hr' hhi) fun heq => by rw [heq] at hr'; omega
  | combine hleft hright ihleft ihright =>
    obtain ⟨hlo, hlt⟩ := hleft.tuples.bounds
    obtain ⟨hle, hhi⟩ := hright.tuples.bounds
    have hsame := hrest _ (by omega) hhi fun heq => by rw [heq] at hle; omega
    refine .combine (ihleft hroot hblock fun r hr hr' => hrest r hr (by omega)) ?_
    rw [hsame.setOperators]
    exact ihright hsame.toSameBlock (hsame.isBlock hright.tuples.isBlock) fun r hr hr' _ =>
      hrest r (by omega) hr' fun heq => by rw [heq] at hr; omega

/-- The form of a query is the same where the queries are. -/
theorem Builds.same (h : s.Builds I db names lo hi q operators tree)
    (hsame : ∀ r : QueryRef, lo ≤ r.index → r.index < hi → s.SameQuery s' r) :
    s'.Builds I db names lo hi q operators tree :=
  have hroot := hsame q h.tuples.bounds.1 h.tuples.bounds.2
  h.congr hroot.toSameBlock (hroot.isBlock h.tuples.isBlock) fun r hr hr' _ => hsame r hr hr'

end Store

end

end SqlCompiler
