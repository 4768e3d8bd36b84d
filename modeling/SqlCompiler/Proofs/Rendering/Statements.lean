import SqlCompiler.Proofs.Rendering.Queries
import SqlCompiler.Render.Statement

/-!
# References of printed statements

Printing a statement is a run whose placeholders stand for allowed parameters, and it opens only
allowed queries: what a modification assigns, tests and hands back belongs to the statement, the rest
to its queries.

Main results:

- Definition `Assignments.Allowed`, `OutputClause.Allowed`: clauses with allowed references only.
- Definition `Printing.Covers`: a statement with allowed references only.
- Theorem `printStatementBody_alike`: one case for each kind of statement.
- Theorem `printStatement_alike`: a whole statement, its deferred names and hints included.
-/

namespace SqlCompiler

/-! ## Clauses -/

/-- Assignments whose targets and values hold allowed references only. -/
structure Assignments.Allowed (P : Printing) (items : List Assignment) : Prop where
  targets : Within P (targetsOf items)
  values : Within P (walkAssignments items)

namespace Assignments.Allowed

variable {P : Printing} {items : List Assignment}

theorem target (h : Allowed P items) {item : Assignment} (hitem : item ∈ items) :
    Within P item.target.walk :=
  Within.flatMap.mp h.targets item hitem

theorem value (h : Allowed P items) {item : Assignment} (hitem : item ∈ items) {e : Scalar}
    (he : item.value = some e) : Within P e.walk :=
  Within.of_option (Within.flatMap.mp h.values item hitem) he

theorem filter (h : Allowed P items) (keep : Assignment → Bool) :
    Allowed P (items.filter keep) where
  targets := Within.flatMap.mpr fun _ hitem => h.target (List.mem_filter.mp hitem).1
  values := Within.flatMap.mpr fun item hitem =>
    Within.flatMap.mp h.values item (List.mem_filter.mp hitem).1

end Assignments.Allowed

/-- An output clause that names and hands back allowed references only. -/
structure OutputClause.Allowed (P : Printing) (output : Option OutputClause) : Prop where
  items : ∀ o, output = some o → Assignments.Allowed P o.items
  columns : ∀ o, output = some o → Within P (SqlCompiler.walkScalars o.columns)

theorem OutputClause.Allowed.intro {P : Printing} {output : Option OutputClause}
    (htargets : Within P (OutputClause.targets output))
    (hvalues : Within P (OutputClause.walk output)) : OutputClause.Allowed P output := by
  cases output with
  | none => exact ⟨by simp, by simp⟩
  | some o =>
    simp only [OutputClause.targets] at htargets
    simp only [OutputClause.walk, Within.append] at hvalues
    constructor
    · rintro _ ⟨⟩
      exact ⟨htargets, hvalues.1⟩
    · rintro _ ⟨⟩
      exact hvalues.2

variable {P : Printing} {next next' : NextLevel}

/-! ## Written columns -/

mutual

/-- A written column. -/
theorem printTarget_alike (hnext : next.Alike P next') (e : Scalar)
    (h : Within P e.walk) : Print.Alike P (printTarget next e)
      (printTarget next' e) := by
  cases e with
  | field f => exact .read fun _ _ => .identifier _
  | row items =>
    simp only [Scalar.walk, Within.cons] at h
    exact (Print.Alike.text _).andThen <|
      (Print.Alike.separated _ (targetPrinters_alike hnext items h.2)).andThen (.text _)
  | _ => exact Scalar.print_alike hnext _ h _ _ _

/-- The printers of written columns. -/
theorem targetPrinters_alike (hnext : next.Alike P next') (items : List Scalar)
    (h : Within P (walkScalars items)) :
    List.Forall₂ (Print.Alike P) (targetPrinters next items) (targetPrinters next' items) := by
  cases items with
  | nil => exact .nil
  | cons e rest =>
    simp only [walkScalars, Within.append] at h
    exact .cons (printTarget_alike hnext e h.1) (targetPrinters_alike hnext rest h.2)

end

namespace Print.Alike

/-! ## Parts of modifications -/

theorem insertTarget (insert : InsertClause) :
    Runs P (SqlCompiler.insertTarget insert) := by
  unfold SqlCompiler.insertTarget
  split
  · exact .pure _
  · exact .throw _

theorem printAssigned (hnext : next.Alike P next') {items : List Assignment}
    (h : Assignments.Allowed P items) {item : Assignment} (hitem : item ∈ items) :
    Alike P (SqlCompiler.printAssigned next item)
      (SqlCompiler.printAssigned next' item) := by
  unfold SqlCompiler.printAssigned
  split
  · next e he => exact printScalar hnext (h.value hitem he)
  · exact text _

theorem printBlock {items items' : List (Print Unit)} (h : List.Forall₂ (Alike P) items items') :
    Alike P (SqlCompiler.printBlock items) (SqlCompiler.printBlock items') :=
  (indentedLine _).andThen <| (indented (lines h)).andThen <| newline.andThen (indentedLine _)

theorem printTargets (hnext : next.Alike P next') {targets : List Scalar}
    (h : ∀ e ∈ targets, Within P e.walk) :
    Alike P (SqlCompiler.printTargets next targets)
      (SqlCompiler.printTargets next' targets) := by
  exact printBlock (forItems fun e he => printTarget_alike hnext e (h e he))

theorem printAssignedTargets (hnext : next.Alike P next') {items : List Assignment}
    (h : Assignments.Allowed P items) :
    Alike P (SqlCompiler.printTargets next (items.map (·.target)))
      (SqlCompiler.printTargets next' (items.map (·.target))) := by
  refine printTargets hnext fun e he => ?_
  obtain ⟨item, hitem, rfl⟩ := List.mem_map.mp he
  exact h.target hitem

theorem printValues (hnext : next.Alike P next') {items : List Assignment}
    (h : Assignments.Allowed P items) :
    Alike P (SqlCompiler.printValues next items)
      (SqlCompiler.printValues next' items) := by
  exact (indentedLine _).andThen
    (printBlock (forItems fun item hitem => printAssigned hnext h hitem))

theorem printInsertInto (hnext : next.Alike P next') (into : TableRef)
    {items : List Assignment} (h : Assignments.Allowed P items) :
    Alike P (SqlCompiler.printInsertInto next into items)
      (SqlCompiler.printInsertInto next' into items) :=
  indentation.andThen <| (text _).andThen <| .read fun _ _ => (objectName _).andThen <|
    ite (line _) (newline.andThen (printAssignedTargets hnext h))

theorem printAssignment (hnext : next.Alike P next') {items : List Assignment}
    (h : Assignments.Allowed P items) {item : Assignment} (hitem : item ∈ items) :
    Alike P (SqlCompiler.printAssignment next item)
      (SqlCompiler.printAssignment next' item) := by
  have hrest := (printTarget_alike hnext _ (h.target hitem)).andThen
    ((text " = ").andThen (printAssigned hnext h hitem))
  unfold SqlCompiler.printAssignment
  split
  · exact .read fun _ _ => whenThen (.throw _) fun _ => hrest
  · exact hrest

theorem printSet (hnext : next.Alike P next') {items : List Assignment}
    (h : Assignments.Allowed P items) :
    Alike P (SqlCompiler.printSet next items)
      (SqlCompiler.printSet next' items) := by
  exact printClause _ (forItems fun item hitem => printAssignment hnext h hitem)

theorem checkOutput (output : Option OutputClause) :
    Runs P (SqlCompiler.checkOutput output) :=
  .read fun _ _ => when (unsupported _)

theorem printOutput (hnext : next.Alike P next') {output : Option OutputClause}
    (h : OutputClause.Allowed P output) (place : OutputStyle) :
    Alike P (SqlCompiler.printOutput next output place)
      (SqlCompiler.printOutput next' output place) := by
  refine .read fun frame _ => ?_
  cases hused : usedOutput? output with
  | none => exact .pure ()
  | some o =>
    have ho : output = some o := (Option.filter_eq_some_iff.mp hused).1
    have hitems := h.items o ho
    refine when ((printClause _ (forItems fun item hitem => ?_)).andThen ?_)
    · refine printScalar hnext ?_
      cases hvalue : item.value with
      | none => exact hitems.target hitem
      | some e => exact hitems.value hitem hvalue
    · split
      · exact .pure ()
      · refine indentation.andThen <| (text _).andThen <| (objectName _).andThen <|
          newline.andThen ?_
        split
        · exact printAssignedTargets hnext hitems
        · exact printTargets hnext (Within.walkScalars.mp (h.columns o ho))

theorem printIdentity (into : TableRef) (output : Option OutputClause) :
    Runs P (SqlCompiler.printIdentity into output) := by
  refine .read fun frame _ => ?_
  split
  · exact unsupported _
  · exact newline.andThen (line _)
  · refine when ?_
    split
    · exact .throw _
    · exact (text _).andThen ((identifier _).andThen newline)
  · exact .pure ()

/-! ## Inserts, updates and deletes -/

theorem printInsert (hnext : next.Alike P next') {query : QueryRef} (hquery : P.query query)
    {insert : InsertClause} (hitems : Assignments.Allowed P insert.items)
    {output : Option OutputClause} (houtput : OutputClause.Allowed P output) :
    Alike P (SqlCompiler.printInsert next query insert output)
      (SqlCompiler.printInsert next' query insert output) := by
  refine (checkOutput output).andThen <| (insertTarget insert).bind fun into =>
    (printInsertInto hnext into hitems).andThen <|
    (printOutput hnext houtput _).andThen <| .read fun frame _ => ?_
  have hend := whenThen (c := insert.withIdentity = true) (printIdentity into output)
    fun _ => printOutput hnext houtput .returning
  have hnaming (readsRows : Bool) (q : Query) (frame : Frame) (hframe : P.Frames frame) :
      P.Frames (if readsRows then frame.naming q else frame) := by
    split
    · exact ⟨hframe.provider, hframe.store, hframe.scopes⟩
    · exact hframe
  exact ite ((printQuery_alike hnext hquery).andThen (withReader (hnaming _ _) hend))
    (whenThen (printValues hnext hitems) fun _ => withReader (hnaming _ _) hend)

theorem writtenSource (q : Query) (table : Option TableRef) :
    Runs P (SqlCompiler.writtenSource q table) := by
  refine .read fun frame _ => ?_
  split
  · split
    · exact .pure _
    · exact .throw _
  · split
    · exact .pure _
    · exact .throw _

theorem takeSource?_subset {item : SourceItem} {found : Source} :
    ∀ {sources others : List Source}, takeSource? item sources = some (found, others) →
      others ⊆ sources
  | [], _, h => by simp [takeSource?] at h
  | _ :: rest, others, h => by
    rw [takeSource?] at h
    split at h
    · cases h
      exact List.subset_cons_self _ rest
    · split at h
      · cases h
        exact List.Subset.refl _
      · obtain ⟨⟨_, inner⟩, hinner, heq⟩ := Option.map_eq_some_iff.mp h
        cases heq
        exact List.cons_subset_cons _ (takeSource?_subset hinner)

/-- The sources besides the written one are sources of the query. -/
theorem writtenSource_subset {q : Query} {table : Option TableRef} {frame : Frame}
    {page page' : Page} {result : Source × List Source}
    (h : SqlCompiler.writtenSource q table frame page = .ok (result, page')) :
    result.2 ⊆ q.sources := by
  cases table with
  | some t =>
    cases hfound : takeSource? (.table t) q.sources with
    | none =>
      simp only [SqlCompiler.writtenSource, hfound] at h
      cases h
    | some found =>
      simp only [SqlCompiler.writtenSource, hfound] at h
      cases h
      exact takeSource?_subset hfound
  | none =>
    cases hsources : q.sources with
    | nil =>
      simp only [SqlCompiler.writtenSource, hsources] at h
      cases h
    | cons first rest =>
      simp only [SqlCompiler.writtenSource, hsources] at h
      cases h
      exact List.subset_cons_self first rest

theorem printWritten (target : Source) (byAlias : Bool) :
    Runs P (SqlCompiler.printWritten target byAlias) := by
  refine .read fun frame _ => ?_
  split
  · exact text _
  · refine (objectName _).andThen ?_
    split
    · exact text _
    · exact .pure ()
  · exact .throw _

theorem printUpdate (hnext : next.Alike P next') {query : QueryRef} (hquery : P.query query)
    {update : UpdateClause} (hitems : Assignments.Allowed P update.items)
    {output : Option OutputClause} (houtput : OutputClause.Allowed P output) :
    Alike P (SqlCompiler.printUpdate next query update output)
      (SqlCompiler.printUpdate next' query update output) := by
  refine (checkOutput output).andThen (.read fun frame hframe => ?_)
  rw [hframe.store]
  have hq := hnext.closed.query query hquery
  refine (writtenSource _ _).bindOf (fun _ _ _ _ _ h => writtenSource_subset h) ?_
  rintro ⟨target, others⟩ hothers
  refine whenThen (unsupported _) fun _ => entering hquery ?_
  have hend := (printConditionClause hnext "WHERE" hq.whereClause).andThen
    (printOutput hnext houtput .returning)
  refine (printClause _ (single (printWritten target _))).andThen <| (printSet hnext hitems).andThen <|
    (printOutput hnext houtput _).andThen <| whenThen (printSources hnext ?_) fun _ => hend
  intro source hsource
  split at hsource
  · exact hq.sources hsource
  · exact hq.sources (hothers hsource)

theorem printDeleteLimit (hnext : next.Alike P next') (q : Query) {top : Option Scalar}
    (h : ∀ e, top = some e → Within P e.walk) :
    Alike P (SqlCompiler.printDeleteLimit next q top)
      (SqlCompiler.printDeleteLimit next' q top) := by
  cases top with
  | none => exact .pure ()
  | some e =>
    refine .read fun frame _ => ?_
    split
    · exact unsupported _
    · exact (text _).andThen (printTemplate _ (single (printScalar hnext (h e rfl))))

theorem printDelete (hnext : next.Alike P next') {query : QueryRef} (hquery : P.query query)
    (table : Option TableRef) {top : Option Scalar} (htop : ∀ e, top = some e → Within P e.walk)
    {output : Option OutputClause} (houtput : OutputClause.Allowed P output) :
    Alike P (SqlCompiler.printDelete next query table top output)
      (SqlCompiler.printDelete next' query table top output) := by
  refine (checkOutput output).andThen (.read fun frame hframe => ?_)
  rw [hframe.store]
  have hq := hnext.closed.query query hquery
  refine (writtenSource _ _).bind fun written => whenThen (unsupported _) fun _ =>
    entering hquery ?_
  refine indentation.andThen <| (text _).andThen <| (printDeleteLimit hnext _ htop).andThen <|
    whenThen ((text _).andThen (printWritten _ _)) fun _ => newline.andThen <|
    (printOutput hnext houtput _).andThen <| (printSources hnext fun _ => hq.sources).andThen <|
    (printConditionClause hnext _ hq.whereClause).andThen (printOutput hnext houtput _)

/-! ## Upserts -/

theorem upsertKeys (into : TableRef) (insert : InsertClause) (update : UpdateClause) :
    Runs P (SqlCompiler.upsertKeys into insert update) :=
  .read fun _ _ => ite (.pure _) (whenThen (.throw _) fun _ => .pure _)

/-- The keys of an upsert are given, or are among the inserted items. -/
theorem upsertKeys_allowed {into : TableRef} {insert : InsertClause} {update : UpdateClause}
    (hkeys : Assignments.Allowed P update.keys) (hitems : Assignments.Allowed P insert.items)
    {frame : Frame} {page page' : Page} {keys : List Assignment}
    (h : SqlCompiler.upsertKeys into insert update frame page = .ok (keys, page')) :
    Assignments.Allowed P keys := by
  cases hgiven : update.keys.isEmpty with
  | false =>
    simp only [SqlCompiler.upsertKeys, hgiven] at h
    cases h
    exact hkeys
  | true =>
    have hguard {c : Prop} [Decidable c] {e : SqlError} {found : List Assignment}
        (h : (if c then (MonadExcept.throw e : Print Unit) >>= fun _ => Pure.pure found
          else Pure.pure found : Print _) frame page = .ok (keys, page')) : keys = found := by
      split at h
      · cases h
      · cases h
        rfl
    simp only [SqlCompiler.upsertKeys, hgiven] at h
    rw [hguard h]
    exact hitems.filter _

theorem printKeyName (key : Assignment) :
    Runs P (SqlCompiler.printKeyName key) := by
  unfold SqlCompiler.printKeyName
  split
  · exact .read fun _ _ => identifier _
  · exact .throw _

theorem printKeyValue (hnext : next.Alike P next') {keys : List Assignment}
    (h : Assignments.Allowed P keys) {key : Assignment} (hkey : key ∈ keys) :
    Alike P (SqlCompiler.printKeyValue next key)
      (SqlCompiler.printKeyValue next' key) := by
  unfold SqlCompiler.printKeyValue
  split
  · next e he => exact printScalar hnext (h.value hkey he)
  · exact .throw _

theorem printKeyOperand (hnext : next.Alike P next') {keys : List Assignment}
    (h : Assignments.Allowed P keys) {key : Assignment} (hkey : key ∈ keys) :
    Alike P (SqlCompiler.printKeyOperand next key)
      (SqlCompiler.printKeyOperand next' key) :=
  Scalar.print_alike hnext _ (h.target hkey) _ _ _

theorem printKeyTests (hnext : next.Alike P next') {keys : List Assignment}
    (h : Assignments.Allowed P keys) :
    Alike P (SqlCompiler.printKeyTests next keys)
      (SqlCompiler.printKeyTests next' keys) :=
  separated _ (forItems fun _ hkey => (printKeyOperand hnext h hkey).andThen <|
    (text _).andThen (printKeyValue hnext h hkey))

theorem printMergeInsert (hnext : next.Alike P next') {items : List Assignment}
    (h : Assignments.Allowed P items) :
    Alike P (SqlCompiler.printMergeInsert next items)
      (SqlCompiler.printMergeInsert next' items) :=
  (indentedLine _).andThen ((printAssignedTargets hnext h).andThen (printValues hnext h))

theorem printKeyMatch (hnext : next.Alike P next') (source : String)
    {keys : List Assignment} (h : Assignments.Allowed P keys) {key : Assignment}
    (hkey : key ∈ keys) : Alike P (SqlCompiler.printKeyMatch next source key)
      (SqlCompiler.printKeyMatch next' source key) := by
  have hoperand := printKeyOperand hnext h hkey
  have hsource : Runs P (do
      Print.text (source ++ ".")
      SqlCompiler.printKeyName key) := (text _).andThen (printKeyName key)
  have htest := hoperand.andThen ((text " = ").andThen hsource)
  exact .read fun _ _ => parenthesized _ <|
    ite (hoperand.andThen <| (text _).andThen <| hsource.andThen <| (text _).andThen htest) htest

theorem printUpsertAsMerge (hnext : next.Alike P next') (into : TableRef)
    {insert : InsertClause} (hinsert : Assignments.Allowed P insert.items)
    {update : UpdateClause} (hupdate : Assignments.Allowed P update.items)
    {keys : List Assignment} (hkeys : Assignments.Allowed P keys) :
    Alike P (SqlCompiler.printUpsertAsMerge next into insert update keys)
      (SqlCompiler.printUpsertAsMerge next' into insert update keys) := by
  have hsource := separated (P := P) ", " (forItems fun key (hkey : key ∈ keys) =>
    (printKeyValue hnext hkeys hkey).andThen ((text " AS ").andThen (printKeyName key)))
  have htests (source : String) := separated (P := P) " AND " (forItems fun key
    (hkey : key ∈ keys) => printKeyMatch hnext source hkeys hkey)
  have hinserted := (line (P := P) "WHEN NOT MATCHED THEN").andThen
    ((indented (printMergeInsert hnext hinsert)).andThen (text P.provider.dialect.mergeTerminator))
  have hupdated := (line (P := P) "WHEN MATCHED THEN").andThen
    ((indented ((indentedLine "UPDATE").andThen (printSet hnext hupdate))).andThen hinserted)
  have hclauses (source : String) := (line (P := P) (") " ++ source)).andThen <|
    (text "ON ").andThen <| (parenthesized true (htests source)).andThen <| newline.andThen <|
    ite (c := (!update.items.isEmpty) = true) hupdated hinserted
  refine .read fun frame hframe => (text _).andThen <| (objectName _).andThen <|
    newline.andThen <| (text _).andThen <| hsource.andThen ?_
  rw [Frame.dialect, hframe.provider]
  cases P.provider.dialect.dummyTable with
  | none => exact hclauses _
  | some dummy => exact (text _).andThen (hclauses _)

theorem printUpsertOnConflict (hnext : next.Alike P next') (into : TableRef)
    {insert : InsertClause} (hinsert : Assignments.Allowed P insert.items)
    {update : UpdateClause} (hupdate : Assignments.Allowed P update.items)
    (keys : List Assignment) :
    Alike P (SqlCompiler.printUpsertOnConflict next into insert update keys)
      (SqlCompiler.printUpsertOnConflict next' into insert update keys) := by
  refine (printInsertInto hnext into hinsert).andThen <| (printValues hnext hinsert).andThen <|
    (text _).andThen <| (parenthesized _ (separated _ (forItems fun key _ => ?_))).andThen <|
    ite (text _) ((line _).andThen (printSet hnext hupdate))
  exact printKeyName key

theorem printUpsertInSteps (hnext : next.Alike P next') (into : TableRef)
    {insert : InsertClause} (hinsert : Assignments.Allowed P insert.items)
    {update : UpdateClause} (hupdate : Assignments.Allowed P update.items)
    {keys : List Assignment} (hkeys : Assignments.Allowed P keys) :
    Alike P (SqlCompiler.printUpsertInSteps next into insert update keys)
      (SqlCompiler.printUpsertInSteps next' into insert update keys) := by
  have htests := printKeyTests hnext hkeys
  have hinserted := (line (P := P) "BEGIN").andThen <|
    (indented ((printInsertInto hnext into hinsert).andThen (printValues hnext hinsert))).andThen
      (text "END")
  have hsearch (name : ObjectName) := indented (indentation.andThen <|
    (text "SELECT 1 FROM ").andThen <| (objectName name).andThen <| (text " WHERE ").andThen htests)
  refine .read fun frame _ => ite ?_ ?_
  · exact (line _).andThen <| (hsearch _).andThen <| newline.andThen <| (line _).andThen hinserted
  · exact (line _).andThen <| (indented (indentation.andThen (objectName _))).andThen <|
      newline.andThen <| (printSet hnext hupdate).andThen <| (line _).andThen <|
      (indented (indentation.andThen htests)).andThen <| newline.andThen <| newline.andThen <|
      (line _).andThen hinserted

theorem printUpsert (hnext : next.Alike P next') {query : QueryRef} (hquery : P.query query)
    {insert : InsertClause} (hinsert : Assignments.Allowed P insert.items)
    {update : UpdateClause} (hupdate : Assignments.Allowed P update.items)
    (hkeys : Assignments.Allowed P update.keys) :
    Alike P (SqlCompiler.printUpsert next query insert update)
      (SqlCompiler.printUpsert next' query insert update) := by
  refine .read fun frame _ => whenThen (unsupported _) fun _ => (insertTarget insert).bind
    fun into => (upsertKeys into insert update).bindOf
    (fun _ _ _ _ _ h => upsertKeys_allowed hkeys hinsert h) fun keys hused =>
    entering hquery ?_
  split
  · exact printUpsertAsMerge hnext into hinsert hupdate hused
  · exact printUpsertOnConflict hnext into hinsert hupdate keys
  · exact printUpsertInSteps hnext into hinsert hupdate hused

/-! ## Merges -/

theorem printMergeAction (hnext : next.Alike P next') {operation : MergeOperation}
    (hitems : Assignments.Allowed P operation.items)
    (hdelete : ∀ c, operation.whereDelete = some c → Within P c.walk) :
    Alike P (SqlCompiler.printMergeAction next operation)
      (SqlCompiler.printMergeAction next' operation) := by
  have hset := printSet hnext hitems
  unfold SqlCompiler.printMergeAction
  cases operation.action with
  | delete => exact indentedLine _
  | deleteBySource => exact indentedLine _
  | insert => exact printMergeInsert hnext hitems
  | _ =>
    refine (indentedLine _).andThen (hset.andThen ?_)
    cases hused : usedCondition? operation.whereDelete with
    | none => exact .pure ()
    | some c =>
      have hc := hdelete c (Option.filter_eq_some_iff.mp hused).1
      exact indentation.andThen <| (text _).andThen <|
        (c.print_alike hnext hc _ _).andThen newline

theorem printMergeOperation (hnext : next.Alike P next') {operation : MergeOperation}
    (hitems : Assignments.Allowed P operation.items) (hwalk : Within P operation.walk) :
    Alike P (SqlCompiler.printMergeOperation next operation)
      (SqlCompiler.printMergeOperation next' operation) := by
  simp only [MergeOperation.walk, Within.append] at hwalk
  have hend := (line (P := P) " THEN").andThen (indented (printMergeAction hnext hitems fun c hc =>
    Within.of_option hwalk.1.2 hc))
  refine (text _).andThen ?_
  cases hused : usedCondition? operation.whereClause with
  | none => exact hend
  | some c =>
    have hc := Within.of_option hwalk.1.1 (Option.filter_eq_some_iff.mp hused).1
    exact (text _).andThen ((c.print_alike hnext hc _ _).andThen hend)

theorem printMergeBody (hnext : next.Alike P next') {target source : Source}
    (htarget : ∀ x ∈ target.all, P.Joins x) (hsource : ∀ x ∈ source.all, P.Joins x)
    {on : Condition} (hon : Within P on.walk) {operations : List MergeOperation}
    (hoperations : ∀ operation ∈ operations,
      Assignments.Allowed P operation.items ∧ Within P operation.walk)
    {output : Option OutputClause} (houtput : OutputClause.Allowed P output)
    (hint : Option String) :
    Alike P (SqlCompiler.printMergeBody next target source on operations output hint)
      (SqlCompiler.printMergeBody next' target source on operations output hint) := by
  have hoperation (operation : MergeOperation) (h : operation ∈ operations) :=
    printMergeOperation hnext (hoperations operation h).1 (hoperations operation h).2
  have hclauses (terminator : String) := newline.andThen <| (text "USING ").andThen <|
    (source.print_alike hnext hsource).andThen <| newline.andThen <| (text "ON ").andThen <|
    (parenthesized true (on.print_alike hnext hon .unknown false)).andThen <| newline.andThen <|
    (forM hoperation).andThen <| (printOutput hnext houtput .output).andThen <|
    (printOutput hnext houtput .returning).andThen (text terminator)
  refine .read fun frame _ => (text _).andThen ?_
  have hprinted := target.print_alike hnext htarget
  cases hint with
  | none => exact (text _).andThen (hprinted.andThen (hclauses _))
  | some hint =>
    exact whenThen (text _) fun _ => (text _).andThen <| hprinted.andThen <|
      whenThen (text _) fun _ => hclauses _

theorem printMerge (hnext : next.Alike P next') {query : QueryRef} (hquery : P.query query)
    {on : Condition} (hon : Within P on.walk) {operations : List MergeOperation}
    (hoperations : ∀ operation ∈ operations,
      Assignments.Allowed P operation.items ∧ Within P operation.walk)
    {output : Option OutputClause} (houtput : OutputClause.Allowed P output)
    (hint : Option String) :
    Alike P (SqlCompiler.printMerge next query on operations output hint)
      (SqlCompiler.printMerge next' query on operations output hint) := by
  have hsources : ∀ source ∈ (P.store.query query).sources, ∀ x ∈ source.all, P.Joins x :=
    fun _ => (hnext.closed.query query hquery).sources
  refine .read fun frame hframe => whenThen (unsupported _) fun _ =>
    whenThen (unsupported _) fun _ => (checkOutput output).andThen ?_
  rw [hframe.store]
  split
  · next target source heq =>
    rw [heq] at hsources
    exact entering hquery (printMergeBody hnext (hsources target (by simp))
      (hsources source (by simp)) hon hoperations houtput hint)
  · exact .throw _

/-! ## Multi-table inserts -/

theorem printInsertedValue (hnext : next.Alike P next') (query : QueryRef)
    {items : List Assignment} (h : Assignments.Allowed P items) {item : Assignment}
    (hitem : item ∈ items) :
    Alike P (SqlCompiler.printInsertedValue next query item)
      (SqlCompiler.printInsertedValue next' query item) := by
  refine .read fun frame _ => ?_
  split
  · refine ite (printKeyValue hnext h hitem) ?_
    split
    · exact identifier _
    · exact .throw _
  · exact printKeyValue hnext h hitem

theorem printConditionalInsert (hnext : next.Alike P next') (query : QueryRef)
    (mode : MultiInsertMode) {branch : ConditionalInsert}
    (hcondition : ∀ c, branch.condition = some c → Within P c.walk)
    (hitems : Assignments.Allowed P branch.insert.items) :
    Alike P (SqlCompiler.printConditionalInsert next query mode branch)
      (SqlCompiler.printConditionalInsert next' query mode branch) := by
  have hvalues := separated (P := P) ", " (forItems fun item (hitem : item ∈ branch.insert.items) =>
    printInsertedValue hnext query hitems hitem)
  have hinsert := indented <| (insertTarget branch.insert).bind fun into =>
    (printInsertInto hnext into hitems).andThen <| indentation.andThen <|
      (text "VALUES ").andThen <| (parenthesized true hvalues).andThen newline
  unfold SqlCompiler.printConditionalInsert
  cases hc : branch.condition with
  | some c =>
    exact (text _).andThen <| (c.print_alike hnext (hcondition c hc) _ _).andThen <|
      (line _).andThen hinsert
  | none => exact whenThen (line _) fun _ => hinsert

theorem printMultiInsert (hnext : next.Alike P next') {query : QueryRef} (hquery : P.query query)
    (mode : MultiInsertMode) {inserts : List ConditionalInsert}
    (hinserts : ∀ branch ∈ inserts, (∀ c, branch.condition = some c → Within P c.walk) ∧
      Assignments.Allowed P branch.insert.items) :
    Alike P (SqlCompiler.printMultiInsert next query mode inserts)
      (SqlCompiler.printMultiInsert next' query mode inserts) :=
  .read fun _ _ => whenThen (unsupported _) fun _ => (line _).andThen <|
    (entering hquery
      (forM fun branch h => printConditionalInsert hnext query mode (hinserts branch h).1
        (hinserts branch h).2)).andThen (printQuery_alike hnext hquery)

/-! ## Table definitions -/

theorem printFieldDefinition (nameWidth typeWidth : Nat) (field : Field) :
    Runs P (SqlCompiler.printFieldDefinition nameWidth typeWidth field) := by
  refine .read fun frame _ => (text _).andThen (ite ?_ (text _))
  split
  · exact (text _).andThen (text _)
  · exact text _

theorem printKeyDefinition (t : TableRef) :
    Runs P (SqlCompiler.printKeyDefinition t) :=
  .read fun _ _ => when <| (line _).andThen <| newline.andThen <| (text _).andThen <|
    (identifier _).andThen <| (text _).andThen (parenthesized _ (identifiers _ _))

theorem printFooter (footer : Option String) (withName : String → String) :
    Runs P (match footer with
      | some footer => do
        Print.newline
        Print.text (withName footer)
      | none => Pure.pure ()) := by
  cases footer with
  | some footer => exact newline.andThen (text _)
  | none => exact .pure ()

/-- The fields of a table in brackets, and what follows them. -/
theorem printFields (t : TableRef) (nameWidth typeWidth : Nat) (fields : List Field)
    (footer : Option String) (withName : String → String) :
    Runs P (do
      Print.line "("
      Print.separated ",\n" (fields.map (SqlCompiler.printFieldDefinition nameWidth typeWidth))
      SqlCompiler.printKeyDefinition t
      Print.newline
      Print.text ")"
      match footer with
      | some footer =>
        Print.newline
        Print.text (withName footer)
      | none => Pure.pure ()) := by
  exact (line _).andThen <|
    (separated _ (forItems fun field _ => printFieldDefinition _ _ field)).andThen <|
    (printKeyDefinition t).andThen <| newline.andThen <| (text _).andThen (printFooter footer _)

theorem printCreateTable (t : TableRef) (header footer : Option String) :
    Runs P (SqlCompiler.printCreateTable t header footer) := by
  refine .read fun frame _ => ?_
  cases header with
  | some header => exact (line _).andThen (printFields t _ _ _ footer _)
  | none => exact (line _).andThen (printFields t _ _ _ footer _)

theorem printDropTable (t : TableRef) (ifExists : Bool) :
    Runs P (SqlCompiler.printDropTable t ifExists) :=
  .read fun _ _ => whenThen (unsupported _) fun _ => (text _).andThen (objectName _)

theorem printTruncateTable (t : TableRef) (resetIdentity : Bool) :
    Runs P (SqlCompiler.printTruncateTable t resetIdentity) :=
  .read fun _ _ => ite ((text _).andThen ((objectName _).andThen (text _)))
    ((text _).andThen (objectName _))

/-! ## Around the statement -/

theorem printTag (tag : Option String) : Runs P (SqlCompiler.printTag tag) := by
  cases tag with
  | none => exact .pure ()
  | some tag => exact line _

theorem printCteFields (names : List String) :
    Runs P (SqlCompiler.printCteFields names) :=
  ite (newline.andThen <| (line _).andThen <| (text _).andThen <| (identifiers _ _).andThen <|
    newline.andThen (text _)) (when ((text _).andThen (parenthesized _ (identifiers _ _))))

theorem printCte (hnext : next.Alike P next') {c : CteRef} (h : P.query (P.store.cte c).body) :
    Alike P (SqlCompiler.printCte next c) (SqlCompiler.printCte next' c) := by
  refine .read fun frame hframe => ?_
  rw [hframe.store]
  exact (identifier _).andThen <| (printCteFields _).andThen <|
    newline.andThen <| (line _).andThen <| (line _).andThen <|
    (nestedQuery _ _ (hnext.query _ h)).andThen (text _)

theorem printCtes (hnext : next.Alike P next') {ctes : List CteRef}
    (h : ∀ c ∈ ctes, P.query (P.store.cte c).body) :
    Alike P (SqlCompiler.printCtes next ctes) (SqlCompiler.printCtes next' ctes) :=
  .read fun _ _ => when (whenThen (unsupported _) fun _ => (text _).andThen <|
    whenThen (text _) fun _ =>
      (separated _ (forItems fun c hc => printCte hnext (h c hc))).andThen newline)

theorem fillDeferredNames (hedits : P.edits) : Runs P SqlCompiler.fillDeferredNames := by
  refine .get fun page => forM fun name _ => .get fun page' => ?_
  split
  · exact .throw _
  · exact write fun page => (Page.Run.refl page).replaceAll hedits _ _

theorem printHints (hedits : P.edits) (hints : List String) :
    Runs P (SqlCompiler.printHints hints) := by
  unfold SqlCompiler.printHints
  extract_lets leading trailing
  have htrailing : Runs P (do
      if !trailing.isEmpty then
        Print.write Writer.trimEnd
        trailing.forM fun hint => Print.text ("\n" ++ hint)) :=
    when ((write fun page => (Page.Run.refl page).trimEnd hedits).andThen (forM fun _ _ => text _))
  exact ite ((write fun page => (Page.Run.refl page).prepend hedits _).andThen htrailing) htrailing

end Print.Alike

/-! ## Statements -/

/-- A statement holds allowed references only. -/
structure Printing.Covers (P : Printing) (t : StatementRef) : Prop where
  closed : P.Closed
  root : P.query (P.store.statement t).query
  ctes : ∀ c ∈ (P.store.statement t).ctes, P.query (P.store.cte c).body
  walk : Within P (P.store.statement t).body.walk
  targets : Within P (P.store.statement t).body.targets

/-- What a statement does, one case for each kind of statement. -/
theorem printStatementBody_alike (hnext : next.Alike P next') {t : StatementRef}
    (h : P.Covers t) :
    Print.Alike P (printStatementBody next (P.store.statement t))
      (printStatementBody next' (P.store.statement t)) := by
  have hroot := h.root
  have hwalk := h.walk
  have htargets := h.targets
  unfold printStatementBody
  cases hbody : (P.store.statement t).body with
  | select =>
    exact .withReader (fun _ hframe => ⟨hframe.provider, hframe.store, hframe.scopes⟩)
      (printQuery_alike hnext hroot)
  | insert insert output =>
    simp only [hbody, StatementBody.walk, StatementBody.targets, Within.append] at hwalk htargets
    exact .printInsert hnext hroot ⟨htargets.1, hwalk.1⟩ (.intro htargets.2 hwalk.2)
  | update update output =>
    simp only [hbody, StatementBody.walk, StatementBody.targets, Within.append] at hwalk htargets
    exact .printUpdate hnext hroot ⟨htargets.1.2, hwalk.1.2⟩ (.intro htargets.2 hwalk.2)
  | delete table top output =>
    simp only [hbody, StatementBody.walk, StatementBody.targets, Within.append] at hwalk htargets
    exact .printDelete hnext hroot table (fun e he => Within.of_option hwalk.1 he)
      (.intro htargets hwalk.2)
  | upsert insert update =>
    simp only [hbody, StatementBody.walk, StatementBody.targets, Within.append] at hwalk htargets
    exact .printUpsert hnext hroot ⟨htargets.1.1, hwalk.1.1⟩ ⟨htargets.2, hwalk.2⟩
      ⟨htargets.1.2, hwalk.1.2⟩
  | merge on operations output hint =>
    simp only [hbody, StatementBody.walk, StatementBody.targets, Within.append] at hwalk htargets
    refine .printMerge hnext hroot hwalk.1.1 (fun operation h => ?_)
      (.intro htargets.2 hwalk.2) hint
    have hoperation := Within.flatMap.mp hwalk.1.2 operation h
    refine ⟨⟨Within.flatMap.mp htargets.1 operation h, ?_⟩, hoperation⟩
    simp only [MergeOperation.walk, Within.append] at hoperation
    exact hoperation.2
  | createTable table header footer => exact .printCreateTable table header footer
  | dropTable table ifExists => exact .printDropTable table ifExists
  | truncateTable table resetIdentity => exact .printTruncateTable table resetIdentity
  | multiInsert mode inserts =>
    simp only [hbody, StatementBody.walk, StatementBody.targets] at hwalk htargets
    refine .printMultiInsert hnext hroot mode fun branch h => ?_
    have hbranch := Within.flatMap.mp hwalk branch h
    simp only [ConditionalInsert.walk, Within.append] at hbranch
    exact ⟨fun c hc => Within.of_option hbranch.1 hc,
      ⟨Within.flatMap.mp htargets branch h, hbranch.2⟩⟩

/-- A whole statement, its deferred names and hints included. -/
theorem printStatement_alike (hnext : next.Alike P next') {t : StatementRef} (h : P.Covers t)
    (hedits : P.edits) : Print.Alike P (printStatement next (P.store.statement t))
      (printStatement next' (P.store.statement t)) :=
  (Print.Alike.printTag _).andThen <| (Print.Alike.printCtes hnext h.ctes).andThen <|
    (printStatementBody_alike hnext h).andThen <| (Print.Alike.fillDeferredNames hedits).andThen <|
    .printHints hedits _

end SqlCompiler
