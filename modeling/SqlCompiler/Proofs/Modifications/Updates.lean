import SqlCompiler.Proofs.Idempotence.Statements
import SqlCompiler.Proofs.Modifications.Combinations
import SqlCompiler.Proofs.Paging.Clauses
import SqlCompiler.Proofs.Rendering.FromClauses

/-!
# The sources that an update names

An update names its target and, in its `FROM` clause, other sources with the conditions on which they
are joined.  The target is left out of the clause together with the sources that are joined to it,
and it is not left out where it is joined to another source itself.

Main results:

- Definition `UpdateText.Keeps`: each source of a query is named once, with its condition.
- Theorem `printUpdate_says`: what an update that is printed says about its sources.
- Theorem `Store.compileStatement_updates`: when a compiled update keeps the sources of its query.
-/

namespace SqlCompiler

/-! ## What an update names -/

/-- What an update says about its sources: the target that it names, with its table or by its alias
alone, and the words of its `FROM` clause. -/
structure UpdateText where
  target : Source
  byAlias : Bool
  fromClause : List FromWord

namespace UpdateText

/-- Print an update. -/
def print (text : UpdateText) (next : NextLevel) (query : QueryRef) (q : Query)
    (update : UpdateClause) (output : Option OutputClause) : Print Unit :=
  withReader (fun frame => frame.entering query) do
    printClause "UPDATE" [printWritten text.target text.byAlias]
    printSet next update.items
    printOutput next output .output
    printFromClause next text.fromClause
    printConditionClause next "WHERE" q.whereClause
    printOutput next output .returning

/-- The sources that it names.  An alias alone names a source of the `FROM` clause. -/
def named? (text : UpdateText) : Option (List JoinedSource) :=
  (readClause text.fromClause).map fun others =>
    if text.byAlias then others else ⟨text.target.item, text.target.aliasName, none⟩ :: others

/-- Each source of a query is named once, with its alias and the condition on which it is joined. -/
def Keeps (text : UpdateText) (q : Query) : Prop :=
  ∃ named, text.named? = some named ∧ named.Perm q.attached

end UpdateText

/-- Whether the first of some trees that reads an item is that item alone. -/
def isLone (item : SourceItem) (sources : List Source) : Bool :=
  (sources.find? fun source => source.all.any (·.item == item)).any fun source =>
    source.item == item && source.joins.isEmpty

/-- Whether the source that is written to has no other sources joined to it, and is not joined to
another one. -/
def Query.writesLone (q : Query) (table : Option TableRef) : Bool :=
  match table with
  | some t => isLone (.table t) q.sources
  | none => q.sources.head?.any (·.joins.isEmpty)

theorem isLone_cons (item : SourceItem) (source : Source) (rest : List Source) :
    isLone item (source :: rest) =
      if source.all.any (·.item == item) then source.item == item && source.joins.isEmpty
      else isLone item rest := by
  rw [isLone, List.find?_cons]
  split
  · next hreads => rw [if_pos hreads]; rfl
  · next hreads => rw [if_neg (Bool.eq_false_iff.mp hreads)]; rfl

/-- A source with joins stands for more than one. -/
theorem length_attached_of_joins {source : Source} (hjoins : source.joins ≠ [])
    (join : Option (JoinKind × Condition)) : 1 < (source.attached join).length := by
  have hattached {joins : List Join} (h : joins ≠ []) : 0 < (attachedJoins joins).length := by
    cases joins with
    | nil => exact absurd rfl h
    | cons first rest =>
      obtain ⟨kind, source, condition⟩ := first
      rw [attachedJoins, Join.attached, Source.attached_eq]
      exact Nat.zero_lt_succ _
  rw [Source.attached_eq]
  exact Nat.succ_lt_succ (hattached hjoins)

/-- With the target named apart from the rest of the clause, the sources are the same ones if it is
a lone one, and another number of them if not. -/
theorem takeSource?_eq {item : SourceItem} {sources others : List Source} {target : Source}
    (h : takeSource? item sources = some (target, others)) :
    if isLone item sources then target.joins = [] ∧ sources.Perm (target :: others)
    else (others.flatMap (Source.attached none)).length + 1 ≠
      (sources.flatMap (Source.attached none)).length := by
  induction sources generalizing others with
  | nil => cases h
  | cons source rest ih =>
    rw [takeSource?] at h
    rw [isLone_cons]
    split at h
    · next hitem =>
      obtain ⟨rfl, rfl⟩ := Prod.mk.inj (Option.some.inj h)
      have hreads : (source.all.any (·.item == item)) = true := by
        cases source
        simp [Source.all, hitem]
      rw [if_pos hreads, hitem, Bool.true_and]
      split
      · next hlone => exact ⟨List.isEmpty_iff.mp hlone, .rfl⟩
      · next hjoined =>
        have hlength := length_attached_of_joins (mt List.isEmpty_iff.mpr hjoined) none
        rw [List.flatMap_cons, List.length_append]
        omega
    · next hitem =>
      have hother : (source.item == item) = false := Bool.eq_false_iff.mpr hitem
      split at h
      · next found hfind =>
        obtain ⟨rfl, rfl⟩ := Prod.mk.inj (Option.some.inj h)
        have hreads : (source.all.any (·.item == item)) = true :=
          List.any_eq_true.mpr ⟨found, List.mem_of_find?_eq_some hfind, by
            simpa using List.find?_some hfind⟩
        rw [if_pos hreads, hother, Bool.false_and]
        exact Nat.succ_ne_self _
      · next hfind =>
        have hreads : ¬(source.all.any (·.item == item)) = true := by
          simpa using List.find?_eq_none.mp hfind
        rw [if_neg hreads]
        obtain ⟨⟨found, left⟩, hrest, hpair⟩ := Option.map_eq_some_iff.mp h
        obtain ⟨rfl, rfl⟩ := Prod.mk.inj hpair
        have hleft := ih hrest
        by_cases hlone : isLone item rest = true
        · rw [if_pos hlone] at hleft ⊢
          exact ⟨hleft.1, (hleft.2.cons _).trans (.swap ..)⟩
        · rw [if_neg hlone] at hleft ⊢
          rw [List.flatMap_cons, List.flatMap_cons, List.length_append, List.length_append]
          omega

/-- Among sources without joins, an item that is read is a lone one. -/
theorem isLone_of_takeSource? {item : SourceItem} {sources : List Source}
    {result : Source × List Source} (hjoins : ∀ source ∈ sources, source.joins = [])
    (h : takeSource? item sources = some result) : isLone item sources = true := by
  induction sources generalizing result with
  | nil => cases h
  | cons source rest ih =>
    obtain ⟨read, aliasName, joins⟩ := source
    obtain rfl : joins = [] := hjoins _ List.mem_cons_self
    rw [isLone_cons]
    cases hitem : read == item with
    | true => simp [Source.all, Source.joined, hitem]
    | false =>
      simp only [takeSource?, Source.all, Source.joined, List.find?_cons, List.find?_nil, hitem] at h
      obtain ⟨left, hrest, -⟩ := Option.map_eq_some_iff.mp h
      have hlone := ih (fun source hsource => hjoins source (List.mem_cons_of_mem _ hsource)) hrest
      simpa [Source.all, Source.joined, hitem] using hlone

/-- The sources of a query with the target named apart. -/
def Query.SplitsOff (q : Query) (table : Option TableRef) (target : Source) (others : List Source) :
    Prop :=
  if q.writesLone table then target.joins = [] ∧ q.sources.Perm (target :: others)
  else (others.flatMap (Source.attached none)).length + 1 ≠ q.attached.length

/-- Looking for the target changes nothing. -/
theorem writtenSource_ok {q : Query} {table : Option TableRef} {frame : Frame} {page page' : Page}
    {target : Source} {others : List Source}
    (h : writtenSource q table frame page = .ok ((target, others), page')) :
    page' = page ∧ q.SplitsOff table target others ∧
      ((∀ source ∈ q.sources, source.joins = []) → q.writesLone table = true) := by
  cases table with
  | some t =>
    cases htake : takeSource? (.table t) q.sources with
    | none =>
      simp only [writtenSource, htake] at h
      cases h
    | some result =>
      simp only [writtenSource, htake] at h
      obtain ⟨rfl, rfl⟩ := Prod.mk.inj (Except.ok.inj h)
      exact ⟨rfl, takeSource?_eq htake, fun hjoins => isLone_of_takeSource? hjoins htake⟩
  | none =>
    cases hsources : q.sources with
    | nil =>
      simp only [writtenSource, hsources] at h
      cases h
    | cons first rest =>
      simp only [writtenSource, hsources] at h
      obtain ⟨hpair, rfl⟩ := Prod.mk.inj (Except.ok.inj h)
      obtain ⟨rfl, rfl⟩ := Prod.mk.inj hpair
      have hwrites : q.writesLone none = first.joins.isEmpty := by
        rw [Query.writesLone, hsources]
        rfl
      refine ⟨rfl, ?_, fun hjoins => ?_⟩
      · rw [Query.SplitsOff, hwrites, Query.attached, hsources]
        split
        · next hlone => exact ⟨List.isEmpty_iff.mp hlone, .rfl⟩
        · next hjoined =>
          have hlength := length_attached_of_joins (mt List.isEmpty_iff.mpr hjoined) none
          rw [List.flatMap_cons, List.length_append]
          omega
      · rw [hwrites]
        exact List.isEmpty_iff.mpr (hjoins _ List.mem_cons_self)

namespace UpdateText

/-- A text whose `FROM` clause has the words of some sources. -/
def ofSources (target : Source) (byAlias crossJoin : Bool) (sources : List Source) : UpdateText :=
  ⟨target, byAlias, fromWords crossJoin sources⟩

/-- What is named, up to its order. -/
theorem named?_ofSources (target : Source) (byAlias crossJoin : Bool) (sources : List Source) :
    ∃ named : List JoinedSource, (ofSources target byAlias crossJoin sources).named? = some named ∧
      named.Perm ((if byAlias then [] else [⟨target.item, target.aliasName, none⟩]) ++
        (sources.flatMap (Source.attached none)).map .asPrinted) := by
  obtain ⟨others, hperm, hread⟩ := readClause_fromWords crossJoin sources
  refine ⟨_, by rw [named?, ofSources, hread, Option.map_some], ?_⟩
  cases byAlias with
  | false => exact hperm.cons _
  | true => exact hperm

end UpdateText

theorem JoinedSource.asPrinted_asPrinted (x : JoinedSource) : x.asPrinted.asPrinted = x.asPrinted := by
  obtain ⟨item, aliasName, _ | ⟨kind, condition⟩⟩ := x
  · rfl
  · cases kind <;> rfl

/-- The sources are named as they are if every condition is printed. -/
theorem perm_asPrinted_iff {l : List JoinedSource} :
    (l.map .asPrinted).Perm l ↔ ∀ x ∈ l, x.asPrinted = x := by
  constructor
  · intro hperm x hx
    obtain ⟨y, -, rfl⟩ := List.mem_map.mp (hperm.mem_iff.mpr hx)
    exact y.asPrinted_asPrinted
  · intro hall
    rw [List.map_congr_left hall, List.map_id']

/-- Whether an update of several tables names its target by the alias alone. -/
def Query.namesByAlias (q : Query) (d : Dialect) : Bool := q.isMultiTable && d.dmlTargetIsAlias

/-- Sources without joins are printed as they are. -/
theorem Query.asPrinted_of_joins {q : Query} (hjoins : ∀ source ∈ q.sources, source.joins = [])
    {x : JoinedSource} (hx : x ∈ q.attached) : x.asPrinted = x := by
  obtain ⟨source, hsource, hx⟩ := List.mem_flatMap.mp hx
  rw [Source.attached_eq, hjoins source hsource] at hx
  cases List.mem_singleton.mp hx
  rfl

/-- When the sources of a query are kept. -/
theorem UpdateText.keeps_iff {q : Query} {table : Option TableRef} {target : Source}
    {others : List Source} (byAlias crossJoin : Bool) (hsplit : q.SplitsOff table target others) :
    (ofSources target byAlias crossJoin (if byAlias then q.sources else others)).Keeps q ↔
      (byAlias = true ∨ q.writesLone table = true) ∧ ∀ x ∈ q.attached, x.asPrinted = x := by
  obtain ⟨named, hnamed, hperm⟩ := named?_ofSources target byAlias crossJoin
    (if byAlias then q.sources else others)
  have hkeeps : (ofSources target byAlias crossJoin (if byAlias then q.sources else others)).Keeps q ↔
      named.Perm q.attached := by
    rw [Keeps, hnamed]
    simp
  rw [hkeeps, ← perm_asPrinted_iff]
  -- all is printed of the sources that are named, and it is all of them unless the target is wrong
  have hwhole (h : named.Perm (q.attached.map .asPrinted)) :
      named.Perm q.attached ↔ (q.attached.map .asPrinted).Perm q.attached :=
    ⟨h.symm.trans, h.trans⟩
  cases byAlias with
  | true => simpa using hwhole hperm
  | false =>
    unfold Query.SplitsOff at hsplit
    by_cases hlone : q.writesLone table = true
    · rw [if_pos hlone] at hsplit
      have hattached : q.attached.Perm
          (⟨target.item, target.aliasName, none⟩ :: others.flatMap (Source.attached none)) := by
        refine (hsplit.2.flatMap_right _).trans ?_
        rw [List.flatMap_cons, Source.attached_eq, hsplit.1]
        exact .rfl
      simpa [hlone] using hwhole (hperm.trans (hattached.map JoinedSource.asPrinted).symm)
    · rw [if_neg hlone] at hsplit
      have hlength : named.length ≠ q.attached.length := by
        simpa [hperm.length_eq] using hsplit
      simp [hlone, mt List.Perm.length_eq hlength]

/-! ## Printing an update -/

/-- What is printed once the table that is written to has been found. -/
theorem writtenSource_of_ok {output : Option OutputClause} {query : QueryRef}
    {table : Option TableRef} {rest : Frame → Source × List Source → Print Unit} {frame : Frame}
    {page : Page} {result : Unit × Page}
    (h : (do
      checkOutput output
      let frame ← read
      let found ← writtenSource (frame.store.query query) table
      rest frame found : Print Unit) frame page = .ok result) :
    ∃ found page', writtenSource (frame.store.query query) table frame page = .ok (found, page') ∧
      rest frame found frame page' = .ok result := by
  obtain ⟨_, checked, hcheck, hrest⟩ := Print.bind_ok_iff.mp h
  obtain rfl : checked = page := by
    change (if ((usedOutput? output).isSome && frame.dialect.outputStyle == .unsupported) = true then _
      else _ : Print Unit) frame page = _ at hcheck
    split at hcheck
    · cases hcheck
    · exact (Prod.mk.inj (Except.ok.inj hcheck)).2.symm
  obtain ⟨_, _, hread, hrest⟩ := Print.bind_ok_iff.mp hrest
  obtain ⟨rfl, rfl⟩ := Prod.mk.inj (Except.ok.inj hread)
  exact Print.bind_ok_iff.mp hrest

/-- An update that is printed names its target, and in its `FROM` clause the sources beside the
target, or all of them if it goes by its alias. -/
theorem printUpdate_says {next : NextLevel} {query : QueryRef} {update : UpdateClause}
    {output : Option OutputClause} {frame : Frame} {page : Page} {result : Unit × Page}
    (h : printUpdate next query update output frame page = .ok result) :
    ∃ text : UpdateText,
      text.print next query (frame.store.query query) update output frame page = .ok result ∧
      (text.Keeps (frame.store.query query) ↔
        ((frame.store.query query).namesByAlias frame.dialect = true ∨
          (frame.store.query query).writesLone update.table = true) ∧
        ∀ x ∈ (frame.store.query query).attached, x.asPrinted = x) ∧
      ((∀ source ∈ (frame.store.query query).sources, source.joins = []) →
        text.Keeps (frame.store.query query)) := by
  obtain ⟨⟨target, others⟩, _, hwritten, hbody⟩ := writtenSource_of_ok h
  obtain ⟨rfl, hsplit, hlone⟩ := writtenSource_ok hwritten
  dsimp only at hbody
  split at hbody
  · obtain ⟨_, _, hrefused, -⟩ := Print.bind_ok_iff.mp hbody
    cases hrefused
  · have hkeeps := UpdateText.keeps_iff ((frame.store.query query).namesByAlias frame.dialect)
      frame.capabilities.crossJoin hsplit
    refine ⟨_, ?_, hkeeps, fun hjoins => hkeeps.mpr ⟨.inr (hlone hjoins), fun x hx => ?_⟩⟩
    rotate_left
    · exact Query.asPrinted_of_joins hjoins hx
    rw [← hbody]
    refine congrFun (seq_congr rfl (seq_congr rfl (seq_congr rfl ?_))) _
    unfold Query.namesByAlias
    generalize hbyAlias : ((frame.store.query query).isMultiTable &&
      frame.dialect.dmlTargetIsAlias) = byAlias
    have hclause := @printFromClause_fromWords (frame.entering query) next
      (if byAlias then (frame.store.query query).sources else others)
    have hsome : (byAlias || !others.isEmpty) =
        !(if byAlias then (frame.store.query query).sources else others).isEmpty := by
      cases byAlias with
      | false => rfl
      | true =>
        obtain ⟨hmulti, -⟩ := Bool.and_eq_true_iff.mp hbyAlias
        have hsources : (frame.store.query query).sources ≠ [] := by
          intro hnone
          rw [Query.isMultiTable, hnone] at hmulti
          cases hmulti
        simpa using hsources
    rw [hsome]
    generalize (if byAlias then (frame.store.query query).sources else others) = sources
      at hclause ⊢
    cases hempty : sources.isEmpty with
    | false =>
      rw [hempty] at hclause
      exact seq_congr hclause rfl
    | true =>
      rw [hempty] at hclause
      exact (seq_congr hclause rfl).trans rfl

/-! ## Compiled updates -/

/-- Print a statement with a step in place of its body. -/
def printAround (next : NextLevel) (statement : Statement) (body : Print Unit) : Print Unit := do
  printTag statement.tag
  printCtes next statement.ctes
  body
  fillDeferredNames
  printHints statement.hints

/-- The body of a statement may be printed by another step that does the same. -/
theorem printAround_ok {next : NextLevel} {statement : Statement} {body : Print Unit} {frame : Frame}
    {page : Page} {result : Unit × Page}
    (h : printAround next statement body frame page = .ok result) :
    ∃ before after, body frame before = .ok after ∧ ∀ body' : Print Unit,
      body' frame before = .ok after → printAround next statement body' frame page = .ok result := by
  obtain ⟨_, tagged, htag, hrest⟩ := Print.bind_ok_iff.mp h
  obtain ⟨_, before, hctes, hrest⟩ := Print.bind_ok_iff.mp hrest
  obtain ⟨_, after, hbody, hrest⟩ := Print.bind_ok_iff.mp hrest
  refine ⟨before, _, hbody, fun body' hbody' => ?_⟩
  change (printTag statement.tag frame page >>= fun r => _) = _
  rw [htag]
  change (printCtes next statement.ctes frame tagged >>= fun r => _) = _
  rw [hctes]
  change (body' frame before >>= fun r => _) = _
  rw [hbody']
  exact hrest

/-- The text of the main command is that of a statement with a step in place of its body. -/
def Rendered.HasBody (rendered : Rendered) (p : Provider) (s : Store) (t : StatementRef)
    (body : NextLevel → Print Unit) : Prop :=
  ∃ command, rendered.commands.head? = some command ∧
    ∃ frame fuel page, frame.provider = p ∧ frame.store = s ∧
      printAround (NextLevel.within fuel) (s.statement t) (body (NextLevel.within fuel)) frame
        frame.emptyPage = .ok ((), page) ∧ command.sql = page.writer.trimEnd.text

namespace Store

variable {s s' : Store} {p : Provider} {t : StatementRef}

theorem statements_rebase (s : Store) (q : QueryRef) (target : TableRef) :
    (s.rebase q target).2.statements = s.statements := by
  rw [rebase]
  dsimp only [modifyQuery, addQuery]
  rw [content_copyTable]

/-- An update that is split is one of the copy. -/
theorem isUpdate_splitUpdate {update : UpdateClause} {output : Option OutputClause}
    (hbody : (s.statement t).body = .update update output)
    (h : s.splitUpdate t = (.ok (), s')) : (s'.statement t).body.isUpdate = true := by
  simp only [splitUpdate, hbody] at h
  split at h
  · obtain rfl := (Prod.mk.inj h).2
    rw [hbody]
    rfl
  · split at h
    · cases h
    · next target _ =>
      obtain rfl := (Prod.mk.inj h).2
      obtain ⟨-, -, hlt⟩ := s.lone_rebase (s.statement t).query target
      have hleaves := leaves_rebaseItems (s.statement t).query target
        (s.rebase (s.statement t).query target).1 update.items hlt
      rw [statement_modifyStatement]
      · rfl
      · rw [hleaves.statements, statements_rebase]
        exact lt_of_body_ne (by simp [hbody])

theorem isUpdate_restructureDml {rules : Capabilities}
    (hbody : (s.statement t).body.isUpdate = true)
    (h : s.restructureDml rules t = (.ok (), s')) : (s'.statement t).body.isUpdate = true := by
  unfold restructureDml at h
  split at h
  · obtain rfl := (Prod.mk.inj h).2
    exact hbody
  · split at h
    · next hdelete =>
      rw [hdelete] at hbody
      cases hbody
    · next hupdate =>
      split at h
      · simp only [flattenUpdate, hupdate] at h
        split at h
        · obtain rfl := (Prod.mk.inj h).2
          exact hbody
        · split at h
          · exact isUpdate_splitUpdate hupdate h
          · obtain rfl := (Prod.mk.inj h).2
            exact hbody
      · exact isUpdate_splitUpdate hupdate h
    · obtain rfl := (Prod.mk.inj h).2
      exact hbody

/-- A legalized update is an update that is not to be rebuilt. -/
theorem update_legalized {final : Store} (hs : s.Owned)
    (hvalid : (s.statement t).query.index < s.queries.size)
    (hbody : (s.statement t).body.isUpdate = true)
    (hrun : (legalizeStatement p t).runOn s = (.ok (), final)) :
    (final.statement t).body.isUpdate = true ∧ final.Undivided p.rules t := by
  obtain ⟨legal, hlegal, rfl⟩ := legalizeStatement_ok_iff.mp hrun
  have howned := (hs.restructured hlegal).evolves (Evolves.rewriting.legalizeExpressions legal p t)
  have hnarrows : legal.Narrows ((legal.legalizeExpressions p t).finalizeAliases t) t :=
    (narrows_legalizeExpressions p).trans (narrows_finalizeAliases howned)
  suffices hsuffices : (legal.statement t).body.isUpdate = true ∧ legal.Undivided p.rules t from
    ⟨hnarrows.isUpdate.trans hsuffices.1, hsuffices.2.narrows hnarrows⟩
  obtain ⟨separated, hdef, hseparated, hgrown, -, hcontent⟩ :=
    separated_of_distinct (p := p) (t := t) hs
  have hstatement : separated.statement = s.statement := by rw [hcontent]; rfl
  have hvalid' : (separated.statement t).query.index < separated.queries.size := by
    rw [hstatement]
    exact Nat.lt_of_lt_of_le hvalid hgrown
  rw [restructured, ← hdef] at hlegal
  split at hlegal
  · cases hlegal
  · next rebuilt hrebuilt =>
    have hready := ready_restructureDml hvalid' hrebuilt
    have hupdate := isUpdate_restructureDml (by rw [hstatement]; exact hbody) hrebuilt
    have hrebuiltOwned : rebuilt.Owned := by
      have hevolves := Evolves.rewriting.restructureDml separated p.rules t
      rw [hrebuilt] at hevolves
      exact hseparated.evolves hevolves
    obtain rfl := (Prod.mk.inj hlegal).2
    cases hdialect : p.dialect with
    | sqlServer =>
      have hordered : rebuilt.Narrows ((rebuilt.statementQueries t).foldl orderForOffset rebuilt)
          t := .foldl narrows_orderForOffset _ _
      exact ⟨hordered.isUpdate.trans hupdate, hready.undivided.narrows hordered⟩
    | db2 =>
      refine ⟨?_, hready.undivided.numberRows hrebuiltOwned hready.valid⟩
      dsimp only
      rw [statement_numberRows hrebuiltOwned]
      exact hupdate
    | _ => exact ⟨hupdate, hready.undivided⟩

/-- An update that is rebuilt has no joins. -/
theorem Undivided.joins {rules : Capabilities} (h : s.Undivided rules t)
    (hrules : rules.multiTableDml = false) (hbody : (s.statement t).body.isUpdate = true) :
    ∀ source ∈ (s.query (s.statement t).query).sources, source.joins = [] := by
  have hlone : ∀ lone ∈ (s.query (s.statement t).query).lone, lone = true := by
    have hsingle := (h hrules).2 hbody
    split at hsingle
    · exact hsingle
    · intro lone hlone
      rw [Query.isMultiTable_eq, Bool.or_eq_false_iff, List.any_eq_false] at hsingle
      simpa using hsingle.2 lone hlone
  exact fun source hsource => List.isEmpty_iff.mp (hlone _ (List.mem_map_of_mem hsource))

/-- What a compiled update says about the sources of its legalized query.  Each is named once, with
the condition on which it is joined, exactly if the target goes by its alias, or is neither joined to
another source nor has sources joined to it, and no `APPLY` has a condition.  This is always so
unless the rules of the provider let updates of several tables through. -/
theorem compileStatement_updates {options : Options} {final : Store} {rendered : Rendered}
    (hs : s.Owned) (hvalid : (s.statement t).query.index < s.queries.size)
    (hbody : (s.statement t).body.isUpdate = true)
    (hrun : (compileStatement p options t).runOn s = (.ok rendered, final)) :
    ∃ update output text, (final.statement t).body = .update update output ∧
      rendered.HasBody p final t (fun next => UpdateText.print text next (final.statement t).query
        (final.query (final.statement t).query) update output) ∧
      (text.Keeps (final.query (final.statement t).query) ↔
        ((final.query (final.statement t).query).namesByAlias p.dialect = true ∨
          (final.query (final.statement t).query).writesLone update.table = true) ∧
        ∀ x ∈ (final.query (final.statement t).query).attached, x.asPrinted = x) ∧
      (p.rules.multiTableDml = false → text.Keeps (final.query (final.statement t).query)) := by
  obtain ⟨hlegal, hrender⟩ := compileStatement_ok hrun
  obtain ⟨hupdate, hundivided⟩ := update_legalized hs hvalid hbody hlegal
  obtain ⟨command, hcommand, frame, fuel, page, hprovider, hstore, hprint, hsql⟩ :=
    printStatement_of_command hrender
  have hjoins := fun hrules => hundivided.joins hrules hupdate
  generalize hstatement : (final.statement t).body = body at hupdate
  cases body with
  | update update output =>
    change printAround _ _ (printStatementBody _ _) _ _ = _ at hprint
    obtain ⟨before, after, hprinted, hreplace⟩ := printAround_ok hprint
    rw [printStatementBody, hstatement] at hprinted
    obtain ⟨text, htext, hkeeps, hlone⟩ := printUpdate_says hprinted
    rw [hstore] at htext hkeeps hlone
    have hdialect : frame.dialect = p.dialect := by rw [Frame.dialect, hprovider]
    rw [hdialect] at hkeeps
    exact ⟨update, output, text, rfl, ⟨command, hcommand, frame, fuel, page, hprovider, hstore,
      hreplace _ htext, hsql⟩, hkeeps, fun hrules => hlone (hjoins hrules)⟩
  | _ => cases hupdate

/-- A provider that lets updates of several tables through as they are. -/
def severalTables : Provider := .generic "Several" { multiTableDml := true }

theorem owned_pricedAges : pricedAges.Owned := by
  refine owned_of_columns_nil fun q => ?_
  obtain ⟨_ | i⟩ := q
  · rfl
  · rw [query_of_le (s := pricedAges) (Nat.succ_le_succ (Nat.zero_le i))]

/-- Whether prices can be set, with the people joined to their orders and items. -/
def compilesPricedAges : Bool :=
  match (compileStatement severalTables {} ⟨0⟩).runOn pricedAges with
  | (.ok _, final) =>
    match (final.statement ⟨0⟩).body with
    | .update update _ => !(final.query (final.statement ⟨0⟩).query).writesLone update.table
    | _ => false
  | (.error _, _) => false

/-- Without rules, the orders and the items are lost with the conditions on which they are joined. -/
theorem compileStatement_updates_pricedAges : ∃ rendered final text update output,
    (compileStatement severalTables {} ⟨0⟩).runOn pricedAges = (.ok rendered, final) ∧
      rendered.HasBody severalTables final ⟨0⟩ (fun next => UpdateText.print text next
        (final.statement ⟨0⟩).query (final.query (final.statement ⟨0⟩).query) update output) ∧
        ¬text.Keeps (final.query (final.statement ⟨0⟩).query) := by
  have hcompiles : compilesPricedAges = true := by decide +kernel
  unfold compilesPricedAges at hcompiles
  split at hcompiles
  · next rendered final hrun =>
    obtain ⟨update, output, text, hbody, htold, hkeeps, -⟩ :=
      compileStatement_updates owned_pricedAges (by decide) rfl hrun
    rw [hbody] at hcompiles
    dsimp only at hcompiles
    refine ⟨rendered, final, text, update, output, hrun, htold, fun h => ?_⟩
    obtain ⟨halias | hlone, -⟩ := hkeeps.mp h
    · simp [Query.namesByAlias, severalTables, Provider.generic, Provider.ofDialect,
        Dialect.dmlTargetIsAlias] at halias
    · rw [hlone] at hcompiles
      cases hcompiles
  · cases hcompiles

end Store

end SqlCompiler
