import SqlCompiler.Proofs.Columns.Rewriting
import SqlCompiler.Proofs.Groups.Counts
import SqlCompiler.Proofs.Modifications.Copies
import SqlCompiler.Proofs.Modifications.RowChains
import SqlCompiler.Proofs.Modifications.Updates
import SqlCompiler.Proofs.Paging.NestedOrders
import SqlCompiler.Proofs.Semantics.LegalScalars

/-!
# Rows that a compiled modification changes

The query of a modification of one table is not split, except by DB2 where there is an offset, and
then the modification finds no table.  So the text that is printed names the table and the legal
form of the condition, and nothing of the limit and the offset of the chain but the limit of a
deletion.

Main results:

- Definition `RowsText`, with its text and the rows that it may change.
- Theorem `Store.legalized_readsOnly`: the query of a legal modification of one table.
- Theorems `printUpdate_rows`, `printDelete_rows`: the text of a modification of one table.
- Definition `Modification.Changes`: the elements that a modification is about.
- Theorem `Compiler.modified_rows`: a compiled modification changes these, which are those of the
  chain only if it has neither a limit nor an offset.
-/

namespace SqlCompiler

/-! ## Tables that stay -/

namespace Store

variable {s s' s'' : Store} {q r : QueryRef} {t : StatementRef} {p : Provider} {table : TableRef}

/-- Tables and fields stay while a statement is rewritten. -/
theorem KeepsTables.rewriting : Rewriting KeepsTables where
  refl := .refl
  trans := .trans
  copyTable s t :=
    have h := (KeepsAllBut.refl s default).copyTable t
    ⟨h.table, h.field, h.tables, h.fields⟩
  addQuery _ _ := .of_eq rfl rfl
  addColumn s q e aliasName := by
    unfold Store.addColumn
    split
    · exact .refl s
    · exact .of_eq rfl rfl
  addFreshColumn _ _ _ _ := .of_eq rfl rfl
  modifyQuery _ _ _ _ := .of_eq rfl rfl
  modifyColumn _ _ _ _ _ := .of_eq rfl rfl
  modifyStatement _ _ _ := .of_eq rfl rfl

theorem KeepsTables.finalizeAliases (s : Store) (t : StatementRef) :
    s.KeepsTables (s.finalizeAliases t) := by
  have hsources : s.KeepsTables (s.withNamedSources t) := by
    rw [(namesSources_withNamedSources s t).content]
    exact .of_eq rfl rfl
  refine hsources.trans ?_
  rw [(namesColumns_finalizeAliases s t).content]
  exact .of_eq rfl rfl

theorem KeepsTables.legalized {final : Store}
    (h : (legalizeStatement p t).runOn s = (.ok (), final)) : s.KeepsTables final := by
  obtain ⟨legal, hlegal, rfl⟩ := legalizeStatement_ok_iff.mp h
  have hrestructured := KeepsTables.rewriting.restructured s p t
  rw [hlegal] at hrestructured
  exact (hrestructured.trans (KeepsTables.rewriting.legalizeExpressions legal p t)).trans
    (.finalizeAliases _ t)

end Store

/-! ## Queries that read one table -/

/-- A query reads nothing but a table, and keeps the rows that meet a condition. -/
structure Query.ReadsOnly (query : Query) (table : TableRef) (whereClause : Condition) : Prop where
  sources : ∃ aliasName, query.sources = [⟨.table table, aliasName, []⟩]
  whereClause : query.whereClause = whereClause
  distinct : query.distinct = false

theorem Query.ReadsOnly.single {query : Query} {table : TableRef} {w : Condition}
    (h : query.ReadsOnly table w) : query.isMultiTable = false := by
  obtain ⟨aliasName, hsources⟩ := h.sources
  rw [Query.isMultiTable, hsources]
  rfl

/-- The only source of a query is one without joins. -/
theorem Query.sources_of_content {query : Query} {item : SourceItem}
    (h : query.allSources.map Source.content = [(item, [])]) :
    ∃ aliasName, query.sources = [⟨item, aliasName, []⟩] := by
  unfold Query.allSources at h
  cases hsources : query.sources with
  | nil =>
    rw [hsources] at h
    cases h
  | cons source rest =>
    obtain ⟨read, aliasName, joins⟩ := source
    simp only [hsources, List.flatMap_cons, Source.all, List.cons_append, List.map_cons,
      List.cons.injEq, List.map_append, List.map_eq_nil_iff, List.append_eq_nil_iff] at h
    obtain ⟨hcontent, -, hrest⟩ := h
    obtain ⟨rfl, hjoins⟩ := Prod.mk.inj hcontent
    obtain rfl : joins = [] := List.map_eq_nil_iff.mp hjoins
    obtain rfl : rest = [] := by
      cases rest with
      | nil => rfl
      | cons other rest =>
        cases other
        simp [Source.all] at hrest
    exact ⟨aliasName, rfl⟩

/-- The sources of a query are one query that it reads. -/
def Query.ReadsQuery (query : Query) : Prop :=
  ∃ inner aliasName, query.sources = [⟨.query inner, aliasName, []⟩]

namespace Store

variable {s s' : Store} {q r : QueryRef} {t : StatementRef} {p : Provider} {table : TableRef}
  {w : Condition}

/-- Nothing is dropped from a query without columns. -/
theorem leaves_pruneColumns (s : Store) (t : StatementRef) (h : (s.query q).columns = []) :
    s.Leaves q (s.pruneColumns t) := by
  refine pruneColumns_of_queries
    (R := fun s s' => (s.query q).columns = [] → s.Leaves q s') t (fun s _ => .refl q s)
    (fun h h' hcolumns => (h hcolumns).trans (h' (by rwa [(h hcolumns).query])))
    (fun used s r hcolumns => ?_) s h
  unfold pruneQuery
  dsimp only
  split
  · next hfewer =>
    refine .modifyQuery ?_ _
    rintro rfl
    rw [hcolumns] at hfewer
    cases hfewer
  · exact .refl q s

/-- An order for an offset changes nothing else about a query. -/
theorem readsOnly_foldl_orderForOffset (queries : List QueryRef) (s : Store)
    (h : (s.query q).ReadsOnly table w) :
    (queries.foldl orderForOffset s).statements = s.statements ∧
      (queries.foldl orderForOffset s).queries.size = s.queries.size ∧
        ((queries.foldl orderForOffset s).query q).ReadsOnly table w := by
  induction queries generalizing s with
  | nil => exact ⟨rfl, rfl, h⟩
  | cons r rest ih =>
    have hordered : ((s.orderForOffset r).query q).ReadsOnly table w := by
      rcases query_modifyQuery s r q fun query =>
          if query.skip.isSome && query.orderBy.isEmpty then
            { query with orderBy := [⟨.formatted "(SELECT NULL)" [] .undefined, false⟩] }
          else query with ⟨rfl, hquery⟩ | hquery
      · rw [orderForOffset, hquery]
        split
        · exact ⟨h.sources, h.whereClause, h.distinct⟩
        · exact h
      · rw [orderForOffset, hquery]
        exact h
    obtain ⟨hstatements, hsize, hreads⟩ := ih (s.orderForOffset r) hordered
    exact ⟨hstatements, hsize.trans (size_modifyQuery ..), hreads⟩

/-- Restructuring a modification of one table leaves its query one that reads the table, unless its
rows have to be numbered. -/
theorem restructured_readsOnly (hs : s.Owned) (hstatement : (s.statement t).query = q)
    (hq : q.index < s.queries.size) (hreads : (s.query q).ReadsOnly table w)
    (h : s.restructured p t = (.ok (), s')) :
    s'.statement = s.statement ∧ q.index < s'.queries.size ∧
      ((s'.query q).ReadsOnly table w ∨ (s'.query q).ReadsQuery) := by
  have hseparated : ∃ s₁, s₁ = (if p.rules.pagingWithDistinct then s else s.separateDistinct t) ∧
      s.Leaves q s₁ ∧ s₁.Owned := by
    refine ⟨_, rfl, ?_⟩
    split
    · exact ⟨.refl q s, hs⟩
    · refine ⟨.foldl fun _ _ hr hleaves => ?_,
        hs.evolves (Evolves.rewriting.separateDistinct s t)⟩
      exact leaves_separateDistinctOf (Nat.lt_of_lt_of_le hq hleaves.size)
        (ne_of_mem_matchingQueries (by simp [hreads.distinct]) hr)
  obtain ⟨s₁, hs₁, hleaves, howned⟩ := hseparated
  have hstatements : s₁.statement = s.statement := by
    funext t
    rw [statement, hleaves.statements, statement]
  have hq₁ : q.index < s₁.queries.size := Nat.lt_of_lt_of_le hq hleaves.size
  have hreads₁ : (s₁.query q).ReadsOnly table w := by rwa [hleaves.query]
  have hundivided : s₁.Undivided p.rules t :=
    .of_single (by rw [hstatements, hstatement]; exact hreads₁.single)
  rw [restructured, ← hs₁] at h
  simp only [hundivided.restructureDml] at h
  obtain rfl := (Prod.mk.inj h).2
  split
  · obtain ⟨hkept, hsize, hordered⟩ :=
      readsOnly_foldl_orderForOffset (s₁.statementQueries t) s₁ hreads₁
    refine ⟨?_, by rwa [hsize], .inl hordered⟩
    rw [← hstatements]
    funext t
    rw [statement, hkept, statement]
  · have hpass := pass_numberRows (t := t) (I := fun _ => True) howned trivial
      fun _ _ _ _ => trivial
    refine ⟨(statement_numberRows howned).trans hstatements, Nat.lt_of_lt_of_le hq₁ hpass.grown, ?_⟩
    by_cases hdone : q ∈ s₁.numberedQueries t
    · obtain ⟨-, inner, number, -, -, -, hsources, -⟩ := hpass.changed q hdone
      exact .inr ⟨inner, none, hsources⟩
    · rw [hpass.others q hdone hq₁]
      exact .inl hreads₁
  · exact ⟨hstatements, hq₁, .inl hreads₁⟩

/-- A query without joins reads the same with aliases. -/
theorem sources_finalizeAliases {item : SourceItem} {aliasName : Option String}
    (h : (s.query q).sources = [⟨item, aliasName, []⟩]) :
    ∃ named, ((s.finalizeAliases t).query q).sources = [⟨item, named, []⟩] := by
  refine Query.sources_of_content ?_
  rw [(namesColumns_finalizeAliases s t).query, (namesSources_withNamedSources s t).sources,
    Query.allSources, h]
  rfl

theorem statement_finalizeAliases (s : Store) (t : StatementRef) :
    (s.finalizeAliases t).statement = s.statement := by
  rw [(namesColumns_finalizeAliases s t).content]
  change (s.withNamedSources t).statement = s.statement
  rw [(namesSources_withNamedSources s t).content]
  rfl

theorem statement_transformStatement (transformer : Store → Transformer) (s : Store)
    (t : StatementRef) : ∃ current : Store, (s.transformStatement transformer t).statement t =
      { s.statement t with body := (transformer current).body (s.statement t).body } := by
  refine ⟨(s.statementQueries t).foldl (transformQuery transformer) s, ?_⟩
  have hquery (s : Store) (r : QueryRef) :
      (s.transformQuery transformer r).statements = s.statements :=
    (leaves_transformColumns (q := r) transformer (s.query r).columns).statements
  have hqueries : ∀ (queries : List QueryRef) (s : Store),
      (queries.foldl (transformQuery transformer) s).statements = s.statements := by
    intro queries
    induction queries with
    | nil => exact fun s => rfl
    | cons r rest ih => exact fun s => (ih _).trans (hquery s r)
  rw [transformStatement, statement_transformBody]
  rw [statement, hqueries, statement]

/-- A legal statement of one table. -/
theorem legalized_readsOnly {final : Store} (hs : s.Owned) (hstatement : (s.statement t).query = q)
    (hq : q.index < s.queries.size) (hreads : (s.query q).ReadsOnly table w)
    (h : (legalizeStatement p t).runOn s = (.ok (), final)) :
    ∃ current other depth, final.statement t = { s.statement t with
        body := (legalizerWithin other p depth).body (s.statement t).body } ∧
      ((final.query q).ReadsOnly table ((legalizerWithin current p depth).condition w) ∨
        (final.query q).ReadsQuery) := by
  obtain ⟨legal, hlegal, rfl⟩ := legalizeStatement_ok_iff.mp h
  obtain ⟨hkept, hvalid, hread⟩ := restructured_readsOnly hs hstatement hq hreads hlegal
  let transformer (s : Store) := s.legalizerWithin p (2 * legal.weight + 8)
  obtain ⟨other, hbody⟩ := statement_transformStatement transformer legal t
  obtain ⟨current, hquery⟩ := query_transformStatement (s := legal) transformer t
    (by rwa [hkept, hstatement])
  rw [hkept, hstatement] at hquery
  have hlegalized : (legal.legalizeExpressions p t).query q =
      (transformer current).query (legal.query q) := hquery
  refine ⟨current, other, 2 * legal.weight + 8, ?_, ?_⟩
  · rw [statement_finalizeAliases]
    exact hbody.trans (by rw [hkept])
  · have hclauses := sameClauses_finalizeAliases (legal.legalizeExpressions p t) t q
    rcases hread with ⟨⟨aliasName, hsources⟩, hwhere, hdistinct⟩ | ⟨inner, aliasName, hsources⟩
    · have hsources : ((legal.legalizeExpressions p t).query q).sources =
          [⟨.table table, aliasName, []⟩] := by
        rw [hlegalized, Transformer.query, hsources]
        rfl
      refine .inl ⟨sources_finalizeAliases hsources, ?_, ?_⟩
      · rw [hclauses.whereClause, hlegalized, Transformer.query, hwhere]
      · rw [hclauses.distinct, hlegalized, Transformer.query, hdistinct]
    · have hsources : ((legal.legalizeExpressions p t).query q).sources =
          [⟨.query inner, aliasName, []⟩] := by
        rw [hlegalized, Transformer.query, hsources]
        rfl
      obtain ⟨named, hnamed⟩ := sources_finalizeAliases hsources
      exact .inr ⟨inner, named, hnamed⟩

end Store

/-! ## What a modification says -/

/-- What is done to rows. -/
inductive RowsChange where
  | update (items : List Assignment)
  | delete (limit : Option Nat)

/-- What a modification of the rows of one table says. -/
structure RowsText where
  table : TableRef
  aliasName : Option String
  change : RowsChange
  condition : Condition

namespace RowsText

/-- The table under its alias. -/
def target (text : RowsText) : Source := ⟨.table text.table, text.aliasName, []⟩

/-- How many rows are changed at most. -/
def limit? (text : RowsText) : Option Nat :=
  match text.change with
  | .update _ => none
  | .delete limit => limit

/-- Whether rows are deleted. -/
def isDelete (text : RowsText) : Bool :=
  match text.change with
  | .update _ => false
  | .delete _ => true

/-- Print a modification. -/
def print (text : RowsText) (next : NextLevel) (query : QueryRef) : Print Unit :=
  withReader (fun frame => frame.entering query) do
    match text.change with
    | .update items =>
      printClause "UPDATE" [printWritten text.target false]
      printSet next items
    | .delete limit =>
      Print.indentation
      Print.text "DELETE"
      match limit with
      | none => pure ()
      | some count =>
        Print.text " "
        (PagingClause.top (.constant (.integer count)) none).print next
      Print.newline
      printSources next [text.target]
    printConditionClause next "WHERE" text.condition

end RowsText

section

variable {next : NextLevel} {query : QueryRef} {frame : Frame} {page page' : Page}
  {result : Unit × Page} {table : TableRef} {w : Condition} {q : Query}

/-- The table that is written to is the source of the query. -/
theorem writtenSource_readsOnly (hreads : q.ReadsOnly table w) {target : Source}
    {others : List Source}
    (h : writtenSource q (some table) frame page = .ok ((target, others), page')) :
    ∃ aliasName, q.sources = [⟨.table table, aliasName, []⟩] ∧
      target = ⟨.table table, aliasName, []⟩ ∧ others = [] ∧ page' = page := by
  obtain ⟨aliasName, hsources⟩ := hreads.sources
  simp only [writtenSource, hsources, takeSource?, beq_self_eq_true, if_true] at h
  obtain ⟨hpair, rfl⟩ := Prod.mk.inj (Except.ok.inj h)
  obtain ⟨rfl, rfl⟩ := Prod.mk.inj hpair
  exact ⟨aliasName, hsources, rfl, rfl, rfl⟩

/-- A table is not written to where another query is read. -/
theorem writtenSource_readsQuery (hreads : q.ReadsQuery) {found : Source × List Source} :
    writtenSource q (some table) frame page ≠ .ok (found, page') := by
  obtain ⟨inner, aliasName, hsources⟩ := hreads
  intro h
  simp [writtenSource, hsources, takeSource?, Source.all, Source.joined] at h
  cases h

theorem withReader_run (f : Frame → Frame) (act : Print Unit) (frame : Frame) (page : Page) :
    withReader f act frame page = act (f frame) page := rfl

theorem printOutput_none (next : NextLevel) (place : OutputStyle) :
    printOutput next none place = pure () := rfl

/-- An update of one table says which table it is and what the condition is. -/
theorem printUpdate_rows {update : UpdateClause} (htable : update.table = some table)
    (hreads : (frame.store.query query).ReadsOnly table w ∨ (frame.store.query query).ReadsQuery)
    (h : printUpdate next query update none frame page = .ok result) :
    ∃ aliasName, (RowsText.mk table aliasName (.update update.items) w).print next query frame
      page = .ok result := by
  obtain ⟨⟨target, others⟩, _, hwritten, hbody⟩ := writtenSource_of_ok h
  rw [htable] at hwritten
  rcases hreads with hreads | hreads
  · obtain ⟨aliasName, hsources, rfl, rfl, rfl⟩ := writtenSource_readsOnly hreads hwritten
    simp only [hreads.single, Bool.false_and, hreads.whereClause, Bool.false_eq_true, if_false,
      List.isEmpty_nil, Bool.not_true, Bool.or_false, printOutput_none, pure_bind, bind_pure_unit]
      at hbody
    exact ⟨aliasName, hbody⟩
  · exact absurd hwritten (writtenSource_readsQuery hreads)

/-- A limit of a deletion is printed as one of a query is. -/
theorem printDeleteLimit_some {count : Scalar}
    (h : printDeleteLimit next q (some count) frame page = .ok result) :
    printDeleteLimit next q (some count) frame =
      (do Print.text " "; (PagingClause.top count none).print next : Print Unit) frame := by
  rw [printDeleteLimit, read_bind] at h ⊢
  cases hformat : frame.dialect.firstFormat q with
  | none =>
    rw [hformat] at h
    cases h
  | some format =>
    unfold Dialect.firstFormat at hformat
    split at hformat
    · split at hformat
      · cases hformat
        simp only [PagingClause.print, bind_pure_unit]
      · cases hformat
    · cases hformat

/-- So does a deletion, and its limit. -/
theorem printDelete_rows {limit : Option Nat}
    (hreads : (frame.store.query query).ReadsOnly table w ∨ (frame.store.query query).ReadsQuery)
    (h : printDelete next query (some table)
      (limit.map fun count : Nat => .constant (.integer count)) none frame page = .ok result) :
    ∃ aliasName, (RowsText.mk table aliasName (.delete limit) w).print next query frame page =
      .ok result := by
  obtain ⟨⟨target, others⟩, _, hwritten, hbody⟩ := writtenSource_of_ok h
  rcases hreads with hreads | hreads
  · obtain ⟨aliasName, hsources, rfl, rfl, rfl⟩ := writtenSource_readsOnly hreads hwritten
    simp only [hreads.single, Bool.false_and, hreads.whereClause, hsources, Bool.false_eq_true,
      if_false, printOutput_none, pure_bind, bind_pure_unit] at hbody
    refine ⟨aliasName, ?_⟩
    cases limit with
    | none => exact hbody
    | some count =>
      have hentered := (withReader_run _ _ _ _).symm.trans hbody
      obtain ⟨_, _, -, hrest⟩ := Print.bind_ok_iff.mp hentered
      obtain ⟨_, _, -, hrest⟩ := Print.bind_ok_iff.mp hrest
      obtain ⟨_, _, hlimit, -⟩ := Print.bind_ok_iff.mp hrest
      rw [← hbody]
      rw [RowsText.print, withReader_run, withReader_run]
      refine congrFun (seq_congr rfl (seq_congr rfl ?_)) _
      refine Eq.trans ?_ (seq_congr (printDeleteLimit_some hlimit).symm rfl)
      funext page
      exact (congrFun (congrFun (bind_assoc _ _ _) _) _).symm
  · exact absurd hwritten (writtenSource_readsQuery hreads)

end

/-! ## Rows that are changed -/

/-- All of given rows, or as many of them as a limit lets. -/
structure Picks {α : Type} (limit : Option Nat) (hits picked : List α) : Prop where
  sublist : picked.Sublist hits
  length : picked.length = limit.elim hits.length fun n => min n hits.length

theorem Picks.map {α β : Type} {limit : Option Nat} {hits picked : List α}
    (h : Picks limit hits picked) (f : α → β) : Picks limit (hits.map f) (picked.map f) where
  sublist := h.sublist.map f
  length := by simpa using h.length

theorem Picks.eq_of_unlimited {α : Type} {hits picked : List α} (h : Picks none hits picked) :
    picked = hits := h.sublist.eq_of_length h.length

/-- Whether rows are deleted. -/
def Modification.isDelete : Modification → Bool
  | delete _ => true
  | update .. | setEach .. => false

/-- A text updates or deletes rows as a modification does, with its limit. -/
structure RowsText.Fits (text : RowsText) (m : Modification) : Prop where
  isDelete : text.isDelete = m.isDelete
  limit : text.limit? = m.limit?

section

variable {V : Type} (I : Interpretation V)

/-- Rows of its table that a modification may change. -/
def RowsText.Changes (text : RowsText) (s : Store) (rows changed : List (String → V)) : Prop :=
  Picks text.limit?
    (rows.filter fun row => text.condition.truth I (s.tableEnv I text.table row) == some true)
    changed

/-- Elements of a sequence are those that a modification is about: all that meet the conditions, or
as many of them as the limit of a deletion lets.  Without limits and offsets they are those of the
chain; a deletion is about as many as the chain has. -/
structure Modification.Changes (m : Modification) (elements changed : List (Element V)) : Prop where
  picks : Picks m.limit? (keepEach I m.rows.conditions elements) changed
  run : m.rows.isPaged = false → ∀ arrange, (∀ chain l, (arrange chain l).Perm l) →
    changed.Perm (m.rows.run I arrange elements)
  length : m.isDelete = true → ∀ arrange, (∀ chain l, (arrange chain l).Perm l) →
    changed.length = (m.rows.run I arrange elements).length

variable {I}

theorem Modification.changes_of_picks {m : Modification} (haccepted : m.isAccepted = true)
    {elements changed : List (Element V)}
    (h : Picks m.limit? (keepEach I m.rows.conditions elements) changed) :
    m.Changes I elements changed where
  picks := h
  run hpaged arrange harrange := by
    have hlimit : m.limit? = none := by
      cases m with
      | update | setEach => rfl
      | delete chain =>
        have htakes : chain.takes = [] := by
          simp only [rows, RowChain.isPaged, Bool.or_eq_false_iff] at hpaged
          simpa using hpaged.1
        rw [limit?, htakes]
        rfl
    rw [hlimit] at h
    rw [h.eq_of_unlimited]
    exact (RowChain.run_perm harrange m.rows hpaged elements).symm
  length hdelete arrange harrange := by
    cases m with
    | update | setEach => cases hdelete
    | delete chain =>
      obtain ⟨hdirect, hskips⟩ := Bool.and_eq_true_iff.mp haccepted
      rw [h.length, rows, RowChain.length_run harrange chain hdirect, List.isEmpty_iff.mp hskips]
      rfl

end

/-! ## Compiled modifications -/

section

variable {V : Type} {I : Interpretation V} {ctx : LowerContext} {st st' : LowerState} {s s' : Store}
  {m : Modification} {e : EntityMapping} {t : TableRef} {lowered : Lowered} {statement : Statement}
  {shape : ResultShape}

/-- The statement of a lowered modification. -/
theorem Modification.IsLowered.toStatement (h : m.IsLowered I e st.store t lowered)
    (hgives : lowered.toStatement.Gives ctx st (statement, shape) st') :
    st' = st ∧ statement.query = lowered.query ∧ m.Writes t statement.body := by
  obtain ⟨body, houtcome, hwrites⟩ := h.body
  obtain ⟨⟨_, _⟩, _, hclose, hgives⟩ := hgives.of_bind
  rw [Lowered.close, houtcome] at hclose
  cases hclose
  obtain ⟨_, _, hget, hreturn⟩ := hgives.of_bind
  cases hget
  cases hreturn
  exact ⟨rfl, rfl, hwrites⟩

/-- What is printed for a legal modification of one table. -/
theorem Modification.Writes.printed {w : Condition} {body : StatementBody}
    (hwrites : m.Writes t body) {next : NextLevel} {frame : Frame} {page : Page}
    {result : Unit × Page} {legal : Transformer}
    (hlegal : ∀ c, legal.scalar (.constant c) = .constant c)
    (hbody : statement.body = legal.body body)
    (hreads : (frame.store.query statement.query).ReadsOnly t w ∨
      (frame.store.query statement.query).ReadsQuery)
    (h : printStatementBody next statement frame page = .ok result) :
    ∃ text : RowsText, text.table = t ∧ text.Fits m ∧ text.condition = w ∧
      text.print next statement.query frame page = .ok result := by
  have hupdate {items : List Assignment} (hmatch : body = .update { table := some t, items } none)
      (hlimit : m.limit? = none) (hdelete : m.isDelete = false) :
      ∃ text : RowsText, text.table = t ∧ text.Fits m ∧ text.condition = w ∧
        text.print next statement.query frame page = .ok result := by
    subst hmatch
    rw [printStatementBody, hbody] at h
    obtain ⟨aliasName, htext⟩ := printUpdate_rows rfl hreads h
    exact ⟨.mk t aliasName (.update _) w, rfl, ⟨hdelete.symm, hlimit.symm⟩, rfl, htext⟩
  cases m with
  | update | setEach =>
    obtain ⟨items, hitems⟩ := hwrites
    exact hupdate hitems rfl rfl
  | delete chain =>
    cases hwrites
    rw [printStatementBody, hbody] at h
    have htop : ((delete chain).limit?.map fun count : Nat => Scalar.constant (.integer count)).map
        legal.scalar = (delete chain).limit?.map fun count : Nat => .constant (.integer count) := by
      rw [Option.map_map]
      exact congrArg (fun f => Option.map f _) (funext fun count => hlegal _)
    have hdelete : printDelete next statement.query (some t)
        ((delete chain).limit?.map fun count : Nat => .constant (.integer count)) none frame page =
          .ok result := by
      rw [← htop]
      exact h
    obtain ⟨aliasName, htext⟩ := printDelete_rows hreads hdelete
    exact ⟨_, rfl, ⟨rfl, rfl⟩, rfl, htext⟩

/-- What is printed for a lowered modification. -/
theorem Modification.IsLowered.printed {p : Provider} {options : Options} {final : Store}
    {rendered : Rendered} (h : m.IsLowered I e s t lowered) (howned : s.Owned)
    (hquery : statement.query = lowered.query) (hwrites : m.Writes t statement.body)
    (hcompile : (compileStatement p options (s.addStatement statement).1).runOn
      ((s.addStatement statement).2.pruneColumns (s.addStatement statement).1) =
        (.ok rendered, final)) :
    ∃ (text : RowsText) (current : Store) (depth : Nat),
      rendered.HasBody p final (s.addStatement statement).1 (fun next =>
        text.print next statement.query) ∧
      text.table = t ∧ text.Fits m ∧
      text.condition =
        (Store.legalizerWithin current p depth).condition (s.query statement.query).whereClause ∧
      s.KeepsTables final := by
  obtain ⟨hlegal, hrender⟩ := Store.compileStatement_ok hcompile
  obtain ⟨whereClause, orderBy, take, skip, hclauses, -, -⟩ := h.query
  rw [← hquery] at hclauses
  generalize hroot : (s.addStatement statement).1 = root at *
  have hadded : (s.addStatement statement).2.statement root = statement := by
    rw [← hroot]
    simp [Store.addStatement, Store.statement]
  have hevolves : s.Evolves (s.addStatement statement).2 := .ofContent rfl rfl
  have hkept : (s.addStatement statement).2.query statement.query = s.query statement.query := rfl
  have htables : s.KeepsTables (s.addStatement statement).2 := .of_eq rfl rfl
  generalize (s.addStatement statement).2 = added at *
  have hleaves := Store.leaves_pruneColumns (q := statement.query) added root
    (by rw [hkept, hclauses])
  have hpruned := (howned.evolves hevolves).evolves
    (Store.Evolves.rewriting.pruneColumns added root)
  have hstatement : (added.pruneColumns root).statement root = statement := by
    rw [Store.statement, hleaves.statements]
    exact hadded
  have hvalid : statement.query.index < (added.pruneColumns root).queries.size :=
    Store.valid_of_sources (by rw [hleaves.query, hkept, hclauses]; exact List.cons_ne_nil _ _)
  have hreads : ((added.pruneColumns root).query statement.query).ReadsOnly t
      (s.query statement.query).whereClause := by
    rw [hleaves.query, hkept, hclauses]
    exact ⟨⟨none, rfl⟩, rfl, rfl⟩
  obtain ⟨current, other, depth, hfinal, hread⟩ :=
    Store.legalized_readsOnly hpruned (by rw [hstatement]) hvalid hreads hlegal
  obtain ⟨command, hcommand, frame, fuel, page, hprovider, hstore, hprint, hsql⟩ :=
    printStatement_of_command hrender
  rw [hstatement] at hfinal
  have haround : printAround _ (final.statement root) (printStatementBody _ _) _ _ = _ := hprint
  obtain ⟨before, after, hbody, hreplace⟩ := printAround_ok haround
  have hconstants (c : Constant) :
      (Store.legalizerWithin other p depth).scalar (.constant c) = .constant c :=
    Scalar.IsLegal.leaf (fun _ => rfl) rfl depth
  have hprinted := hwrites.printed hconstants
    (congrArg Statement.body hfinal) (by rw [hstore, hfinal]; exact hread) hbody
  obtain ⟨text, htable, hfits, hcondition, htext⟩ := hprinted
  refine ⟨text, current, depth, ⟨command, hcommand, frame, fuel, page, hprovider, hstore, ?_, hsql⟩,
    htable, hfits, hcondition, ?_⟩
  · rw [hfinal] at htext
    exact hreplace _ htext
  · exact (htables.trans (Store.KeepsTables.rewriting.pruneColumns added root)).trans
      (.legalized hlegal)

/-- The main command of a compiled modification changes rows of a table that the modification is
about, if the legal form of the condition of its query holds of the same rows as that condition. -/
def Compiled.Modifies (compiled : Compiled) (c : Compiler) (r : Ranking) (t : Term)
    (I : Interpretation V) (m : Modification) (e : EntityMapping) : Prop :=
  ∃ statement state final text current depth,
    c.CompilesBy r t compiled statement state final ∧
      compiled.rendered.HasBody c.provider final (state.store.addStatement statement).1 (fun next =>
        RowsText.print text next statement.query) ∧
      text.Fits m ∧
      let condition := (state.store.query statement.query).whereClause
      text.condition = (Store.legalizerWithin current c.provider depth).condition condition ∧
      ((∀ ρ, (text.condition.truth I ρ == some true) = (condition.truth I ρ == some true)) →
        ∀ rows changed, text.Changes I final rows changed →
          m.Changes I (rows.map e.element) (changed.map e.element))

/-- A modification of a chain on a table that compiles has no operators on rows that only a subquery
gives, and a deletion no offset.  The main command changes what the modification is about: an update
all rows that meet the conditions, whatever the limit and the offset of the chain are, and a
deletion no more of them than its limit lets, in any order. -/
theorem Compiler.modified_rows (I : Interpretation V) (c : Compiler)
    (hrules : c.rules = standardRules) (r : Ranking) {t : Term} {m : Modification} {name : String}
    (hmaps : c.schema.Maps name e)
    (hnormal : t.normalize = m.term name)
    (hconditions : ∀ f ∈ m.rows.conditions,
      ∃ absent, f.functionShape? e.shape = some (.value absent))
    {compiled : Compiled} (h : (c.compile r t).1 = .ok compiled) :
    m.isAccepted = true ∧ compiled.Modifies c r t I m e := by
  obtain ⟨statement, state, final, hcompiles⟩ := Compiler.compile_ok h
  have hlower := hcompiles.lowered
  rw [hrules, hnormal] at hlower
  have hgives : LowerM.Gives (do (← lowerSequence standardRules (m.term name)).toStatement)
      { schema := c.schema, provider := c.provider } { ranking := r } (statement, compiled.shape) state :=
    hlower
  obtain ⟨lowered, st, hsequence, hstatement⟩ := hgives.of_bind
  obtain ⟨table, hlowered⟩ :=
    m.lowers I hmaps hconditions (Nat.mul_le_mul_left 4 (Nat.le_succ _)) hsequence
  obtain ⟨rfl, hquery, hwrites⟩ := hlowered.toStatement hstatement
  refine ⟨hlowered.accepted, ?_⟩
  have howned : state.store.Owned :=
    lowerStatement_owned (m.term name) _ { ranking := r } (statement, compiled.shape) state Store.owned_empty
      hlower
  obtain ⟨text, current, depth, hbody, htable, hfits, hcondition, hkeeps⟩ :=
    hlowered.printed howned hquery hwrites hcompiles.finished
  refine ⟨statement, state, final, text, current, depth, hcompiles, hbody, hfits, hcondition,
    fun hlegal rows changed hchanges => ?_⟩
  obtain ⟨whereClause, orderBy, take, skip, hclauses, -, hwhere⟩ := hlowered.query
  have hreads := hlowered.reads.keepsTables hkeeps
  have helement (row : String → V) :
      lowered.projection.denote I (final.tableEnv I table row) = e.element row :=
    hreads.denote fun f hf => if_pos hf
  have hhits (row : String → V) :
      (text.condition.truth I (final.tableEnv I text.table row) == some true) =
      m.rows.conditions.all fun f => f.holdsOf I (e.element row) := by
    rw [hlegal, hquery, hclauses, hwhere, htable, helement]
  refine Modification.changes_of_picks hlowered.accepted ?_
  have hpicked := hchanges.map e.element
  rw [hfits.limit, funext hhits] at hpicked
  rw [keepEach_eq_filter, List.filter_map]
  exact hpicked

end

/-- Two adults become newborn. -/
def Modification.twoAdults : Modification :=
  .update (.take (.filter .table
      (.fn "p" (.binary .greater (.member (.bound "p") "Age") (.constant (.integer 17))))) 2)
    (.fn "p" (.record [("Age", .constant (.integer 0))]))

theorem Modification.normalize_twoAdults :
    (twoAdults.term "Person").normalize = twoAdults.term "Person" :=
  Term.NormalizesTo.normalize ⟨20, 0, rfl⟩

/-- The update changes every adult. -/
theorem Compiler.modified_rows_twoAdults : ∃ compiled,
    (ofServerPeople.compile (.asGiven standardRules) (Modification.twoAdults.term "Person")).1 =
        .ok compiled ∧
      compiled.rendered.commands.map (·.sql) =
        ["UPDATE\n\t[Person]\nSET\n\t[Age] = 0\nWHERE\n\t[Person].[Age] > 17"] ∧
      Modification.twoAdults.isAccepted = true ∧
      ∃ e, ofServerPeople.schema.Maps "Person" e ∧
        compiled.Modifies ofServerPeople (.asGiven standardRules)
          (Modification.twoAdults.term "Person") .nullableIntegers .twoAdults e := by
  have hsql : (ofServerPeople.compile (.asGiven standardRules)
      (Modification.twoAdults.term "Person")).1.toOption.map (·.rendered.commands.map (·.sql)) =
        some ["UPDATE\n\t[Person]\nSET\n\t[Age] = 0\nWHERE\n\t[Person].[Age] > 17"] := by
    unfold Compiler.compile
    dsimp only
    rw [Modification.normalize_twoAdults]
    decide +kernel
  have hmaps : ofServerPeople.schema.Maps "Person"
      { name := "Person", columns := [{ member := "Age", kind := .int32 }] } := ⟨rfl, by simp⟩
  cases hcompile : (ofServerPeople.compile (.asGiven standardRules)
      (Modification.twoAdults.term "Person")).1 with
  | error e =>
    rw [hcompile] at hsql
    cases hsql
  | ok compiled =>
    rw [hcompile] at hsql
    obtain ⟨haccepted, hmodifies⟩ := Compiler.modified_rows .nullableIntegers ofServerPeople rfl
      (.asGiven standardRules) hmaps Modification.normalize_twoAdults (fun f hf => ⟨false, by
        rw [List.mem_singleton.mp hf]
        rfl⟩) hcompile
    exact ⟨compiled, rfl, Option.some.inj hsql, haccepted, _, hmaps, hmodifies⟩

end SqlCompiler
