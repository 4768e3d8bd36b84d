import SqlCompiler.Proofs.Rendering.Expressions
import SqlCompiler.Render.Select

/-!
# References of printed queries

Printing a query block is a run whose placeholders stand for allowed parameters, and it opens only
allowed queries.  The printers of what a query refers to are bounded by fuel; the induction is on the
fuel.

Main results:

- Theorem `Query.Allowed.of_walkQuery`: the query blocks that hold allowed references.
- Definition `NextLevel.only`: printers that refuse to open any but allowed queries.
- Theorem `printQuery_alike`: a query block with its set operators.
- Theorem `NextLevel.only_alike`: the refusal makes no difference at any level.
-/

namespace SqlCompiler

/-! ## Scalars of a query -/

/-- A query block holds allowed references if its scalars are allowed, and those of its tables. -/
theorem Query.Allowed.of_walkQuery {P : Printing} {q : QueryRef}
    (hwalk : Within P (P.store.walkQuery q))
    (htables : ∀ source ∈ (P.store.query q).allSources, ∀ t, source.item = .table t →
      Within P (P.store.table t).kind.walk) : (P.store.query q).Allowed P := by
  simp only [Store.walkQuery, Within.append] at hwalk
  obtain ⟨⟨⟨⟨⟨⟨⟨⟨hcolumns, htake⟩, hskip⟩, hsources⟩, hwhere⟩, hgrouping⟩, hhaving⟩, horder⟩,
    hoperators⟩ := hwalk
  have hsource (source : Source) (hsource : source ∈ (P.store.query q).allSources) :
      Within P source.walk := Within.flatMap.mp hsources source hsource
  constructor
  · exact Within.flatMap.mp hcolumns
  · exact fun e he => Within.of_option htake he
  · exact fun e he => Within.of_option hskip he
  · intro source hmem
    have hquery := hsource source hmem
    cases hitem : source.item with
    | table t => exact htables source hmem t hitem
    | query r => exact hquery (.query r) (by simp [Source.walk, Source.query?, hitem])
  · intro source hmem join hjoin
    have hconditions := hsource source hmem
    rw [Source.walk, Within.append] at hconditions
    exact Within.flatMap.mp hconditions.2 join hjoin
  · exact hwhere
  · exact Within.walkScalars.mp hgrouping
  · exact hhaving
  · exact Within.flatMap.mp horder
  · exact fun operator hmem => hoperators (.query operator.query) (List.mem_map_of_mem hmem)

namespace Print.Alike

variable {P : Printing} {next next' : NextLevel}

theorem printScalar (hnext : next.Alike P next') {e : Scalar} (h : Within P e.walk) :
    Alike P (SqlCompiler.printScalar next e) (SqlCompiler.printScalar next' e) :=
  e.print_alike hnext h _ _ _

theorem printClause (keyword : String) {items items' : List (Print Unit)}
    (h : List.Forall₂ (Alike P) items items') :
    Alike P (SqlCompiler.printClause keyword items) (SqlCompiler.printClause keyword items') :=
  (indentedLine _).andThen ((indented (lines h)).andThen newline)

/-- A list with one step. -/
theorem single {act act' : Print Unit} (h : Alike P act act') :
    List.Forall₂ (Alike P) [act] [act'] :=
  .cons h .nil

/-! ## What is selected -/

theorem checkPaging (q : Query) : Runs P (SqlCompiler.checkPaging q) := by
  have hskip (c c' : Bool) : Runs P (do
      if q.skip.isSome then
        if c then Print.unsupported "Skip"
        if c' then Print.unsupported "Skip for subqueries") :=
    when (whenThen (unsupported _) fun _ => when (unsupported _))
  exact .read fun frame _ =>
    ite (whenThen (unsupported _) fun _ => whenThen (unsupported _) fun _ => hskip _ _) (hskip _ _)

theorem printFirst (hnext : next.Alike P next') {q : Query} (hq : q.Allowed P) :
    Alike P (SqlCompiler.printFirst next q) (SqlCompiler.printFirst next' q) := by
  refine .read fun frame _ => ?_
  dsimp only
  split
  · next format take _ htake =>
    refine (text _).andThen ((printTemplate _ (single ?_)).andThen ?_)
    · exact printScalar hnext (hq.take take htake)
    · split
      · exact .pure ()
      · exact whenThen (unsupported _) fun _ => whenThen (text _) fun _ => when (text _)
  · exact when (unsupported _)

theorem printSelected (hnext : next.Alike P next') {column : OutputColumn}
    (h : Within P column.expression.walk) :
    Alike P (SqlCompiler.printSelected next column) (SqlCompiler.printSelected next' column) := by
  refine .read fun frame _ => (printScalar hnext h).andThen ?_
  split
  · exact .pure ()
  · exact when ((text _).andThen (identifier _))

theorem printColumns (hnext : next.Alike P next') {columns : List ColumnRef}
    (h : ∀ c ∈ columns, Within P (P.store.column c).expression.walk) :
    List.Forall₂ (Alike P)
      (if columns.isEmpty then [Print.text "*"]
        else columns.map fun c => SqlCompiler.printSelected next (P.store.column c))
      (if columns.isEmpty then [Print.text "*"]
        else columns.map fun c => SqlCompiler.printSelected next' (P.store.column c)) := by
  split
  · exact single (text _)
  · exact forItems fun c hc => printSelected hnext (h c hc)

theorem printSelect (hnext : next.Alike P next') {q : Query} (hq : q.Allowed P) :
    Alike P (SqlCompiler.printSelect next q) (SqlCompiler.printSelect next' q) := by
  have hrest := whenThen (c := q.distinct = true) (text " DISTINCT") fun _ =>
    (printFirst hnext hq).andThen <| newline.andThen <|
      (indented (lines (printColumns hnext hq.columns))).andThen newline
  refine .read fun frame hframe => indentation.andThen ((text _).andThen ?_)
  rw [hframe.store]
  cases q.name with
  | none => exact hrest
  | some name => exact whenThen (text _) fun _ => hrest

/-! ## Sources -/

theorem recordPlace (t : TableRef) (aliasName : Option String) :
    Runs P (SqlCompiler.recordPlace t aliasName) := by
  refine .read fun frame _ => ?_
  dsimp only
  split
  · exact .pure ()
  · exact modifyPage fun page => (Page.Run.refl page).places _

theorem printRows (hnext : next.Alike P next') (table : Table)
    {rows : List (List Scalar)} (h : Within P (rows.flatMap walkScalars))
    (aliasName : Option String) :
    Alike P (SqlCompiler.printRows next table rows aliasName)
      (SqlCompiler.printRows next' table rows aliasName) := by
  refine .read fun frame _ => ?_
  split
  · exact .throw _
  · exact (text _).andThen <| (separated _ <| forItems fun row hrow => parenthesized _ <|
      printList (scalarPrinters_alike hnext row (Within.flatMap.mp h row hrow))).andThen <|
      (text _).andThen (parenthesized _ (identifiers _ _))

theorem printRawTable (hnext : next.Alike P next') (sql : String) {args : List Scalar}
    (h : Within P (walkScalars args)) :
    Alike P (SqlCompiler.printRawTable next sql args)
      (SqlCompiler.printRawTable next' sql args) := by
  unfold SqlCompiler.printRawTable
  exact parenthesized _ (printTemplate _ ((scalarPrinters_alike hnext args h).map _ _))

theorem printTable (hnext : next.Alike P next') {t : TableRef}
    (htable : Within P (P.store.table t).kind.walk) (aliasName : Option String) :
    Alike P (SqlCompiler.printTable next t aliasName)
      (SqlCompiler.printTable next' t aliasName) := by
  refine .read fun frame hframe => ?_
  rw [hframe.store]
  dsimp only
  cases hkind : (P.store.table t).kind with
  | physical => exact (objectName _).andThen (recordPlace t aliasName)
  | cte c => exact (objectName _).andThen (recordPlace t aliasName)
  | raw sql args =>
    rw [hkind] at htable
    exact (printRawTable hnext sql htable).andThen (recordPlace t aliasName)
  | values rows =>
    rw [hkind] at htable
    exact (printRows hnext _ htable aliasName).andThen (recordPlace t aliasName)
  | inserted => exact (text _).andThen (recordPlace t aliasName)
  | deleted => exact (text _).andThen (recordPlace t aliasName)

theorem printSourceItem (hnext : next.Alike P next') {item : SourceItem} (h : P.Reads item)
    (aliasName : Option String) :
    Alike P (SqlCompiler.printSourceItem next item aliasName)
      (SqlCompiler.printSourceItem next' item aliasName) := by
  refine .read fun frame _ => bind ?_ fun includesAlias => when ?_
  · cases item with
    | table t => exact (printTable hnext h aliasName).bind fun _ => .pure _
    | query q => exact (printSubquery hnext h aliasName).bind fun _ => .pure _
  · split
    · exact text _
    · exact .pure ()

theorem printJoinCondition (hnext : next.Alike P next') {condition : Condition}
    (h : Within P condition.walk) :
    Alike P (SqlCompiler.printJoinCondition next condition)
      (SqlCompiler.printJoinCondition next' condition) :=
  (text _).andThen (ite (text _) (condition.print_alike hnext h _ _))

end Print.Alike

variable {P : Printing} {next next' : NextLevel}

/-- Whether a source reads what is allowed, and is joined under allowed conditions. -/
def Printing.Joins (P : Printing) (source : Source) : Prop :=
  P.Reads source.item ∧ ∀ join ∈ source.joins, Within P join.condition.walk

theorem Query.Allowed.sources {q : Query} (h : q.Allowed P) {source : Source}
    (hsource : source ∈ q.sources) : ∀ x ∈ source.all, P.Joins x := by
  intro x hx
  have hmem : x ∈ q.allSources := List.mem_flatMap_of_mem hsource hx
  exact ⟨h.items x hmem, h.joins x hmem⟩

mutual

/-- A source with the sources joined to it. -/
theorem Source.print_alike (hnext : next.Alike P next') (source : Source)
    (h : ∀ x ∈ source.all, P.Joins x) :
    Print.Alike P (source.print next) (source.print next') := by
  obtain ⟨item, aliasName, joins⟩ := source
  obtain ⟨⟨hitem, hconditions⟩, hjoined⟩ := List.forall_mem_cons.mp h
  exact (Print.Alike.printSourceItem hnext hitem aliasName).andThen
    (.indented (printJoins_alike hnext joins hconditions hjoined))

/-- A joined source. -/
theorem Join.print_alike (hnext : next.Alike P next') (join : Join)
    (hcondition : Within P join.condition.walk) (h : ∀ x ∈ Source.ofJoin join, P.Joins x) :
    Print.Alike P (join.print next) (join.print next') := by
  obtain ⟨kind, source, condition⟩ := join
  have hsource := source.print_alike hnext h
  exact .read fun frame _ =>
    .ite ((Print.Alike.text _).andThen hsource) <|
    .ite (.whenThen (.unsupported _) fun _ => (Print.Alike.text _).andThen hsource) <|
    (Print.Alike.text _).andThen (hsource.andThen (.printJoinCondition hnext hcondition))

/-- The sources joined to a source. -/
theorem printJoins_alike (hnext : next.Alike P next') (joins : List Join)
    (hconditions : ∀ join ∈ joins, Within P join.condition.walk)
    (h : ∀ x ∈ Source.joined joins, P.Joins x) :
    Print.Alike P (printJoins next joins) (printJoins next' joins) := by
  cases joins with
  | nil => exact .pure ()
  | cons join rest =>
    rw [Source.joined, List.forall_mem_append] at h
    exact Print.Alike.newline.andThen <| Print.Alike.indentation.andThen <|
      (join.print_alike hnext (hconditions join List.mem_cons_self) h.1).andThen <|
      printJoins_alike hnext rest (fun j hj => hconditions j (List.mem_cons_of_mem _ hj)) h.2

end

namespace Print.Alike

theorem printSources (hnext : next.Alike P next') {sources : List Source}
    (h : ∀ source ∈ sources, ∀ x ∈ source.all, P.Joins x) :
    Alike P (SqlCompiler.printSources next sources) (SqlCompiler.printSources next' sources) :=
  printClause _ (forItems fun source hsource => source.print_alike hnext (h source hsource))

theorem printFrom (hnext : next.Alike P next') {q : Query} (hq : q.Allowed P) :
    Alike P (SqlCompiler.printFrom next q) (SqlCompiler.printFrom next' q) := by
  refine ite (printSources hnext fun _ => hq.sources) (.read fun frame _ => ?_)
  split
  · exact printClause _ (single (text _))
  · exact .pure ()

/-! ## The other clauses -/

theorem printConditionClause (hnext : next.Alike P next') (keyword : String)
    {condition : Condition} (h : Within P condition.walk) :
    Alike P (SqlCompiler.printConditionClause next keyword condition)
      (SqlCompiler.printConditionClause next' keyword condition) :=
  ite (.pure ()) (printClause _ (single (condition.print_alike hnext h _ _)))

theorem printGrouping (hnext : next.Alike P next') {grouping : Grouping}
    (h : ∀ e ∈ grouping.items, Within P e.walk) :
    Alike P (SqlCompiler.printGrouping next grouping)
      (SqlCompiler.printGrouping next' grouping) := by
  have hitems (keyword : String) := printClause (P := P) keyword
    (forItems fun e (he : e ∈ grouping.items.filter fun item => !isConstantItem item) =>
      printScalar hnext (h e (List.mem_filter.mp he).1))
  refine ite (.pure ()) ?_
  split
  · exact hitems _
  · exact .read fun _ _ => whenThen (unsupported _) fun _ =>
      (hitems _).andThen (indentedLine _)

theorem printOrder (hnext : next.Alike P next') {items : List OrderItem}
    (h : ∀ item ∈ items, Within P item.expression.walk) :
    Alike P (SqlCompiler.printOrder next items) (SqlCompiler.printOrder next' items) :=
  ite (.pure ()) (printClause _ (forItems fun item hitem =>
    (printScalar hnext (h item hitem)).andThen (when (text _))))

theorem printPaging (hnext : next.Alike P next') {q : Query} (hq : q.Allowed P) :
    Alike P (SqlCompiler.printPaging next q) (SqlCompiler.printPaging next' q) := by
  refine .read fun frame _ => when ?_
  refine indentation.andThen ((separated _ (forItems fun part hpart => ?_)).andThen newline)
  obtain ⟨format, value⟩ := part
  refine printTemplate _ (forItems fun e he => ?_)
  have hvalue : value = some e := by simpa using he
  have hpaging : value = q.take ∨ value = q.skip := by
    have hmapped {format? : Option String} {v : Option Scalar}
        (h : format?.map (·, v) = some (format, value)) : value = v := by
      obtain ⟨_, _, heq⟩ := Option.map_eq_some_iff.mp h
      exact (congrArg Prod.snd heq).symm
    obtain ⟨part, hpart, hvalue⟩ := List.mem_filterMap.mp hpart
    rw [id] at hvalue
    split at hpart <;> simp only [List.mem_cons, List.not_mem_nil, or_false] at hpart
    · rcases hpart with rfl | rfl
      · exact .inr (hmapped hvalue)
      · exact .inl (hmapped hvalue)
    · rcases hpart with rfl | rfl
      · exact .inl (hmapped hvalue)
      · exact .inr (hmapped hvalue)
  rcases hpaging with htake | hskip
  · exact printScalar hnext (hq.take e (htake ▸ hvalue))
  · exact printScalar hnext (hq.skip e (hskip ▸ hvalue))

/-! ## Queries -/

theorem printQueryBody (hnext : next.Alike P next') {q : Query} (hq : q.Allowed P) :
    Alike P (SqlCompiler.printQueryBody next q) (SqlCompiler.printQueryBody next' q) :=
  (checkPaging q).andThen <| (printSelect hnext hq).andThen <| (printFrom hnext hq).andThen <|
    (printConditionClause hnext _ hq.whereClause).andThen <|
    (printGrouping hnext hq.grouping).andThen <|
    (printConditionClause hnext _ hq.having).andThen <| (printOrder hnext hq.orderBy).andThen <|
    printPaging hnext hq

theorem printSetOperator (hnext : next.Alike P next') {operator : SetOperator}
    (h : P.query operator.query) :
    Alike P (SqlCompiler.printSetOperator next operator)
      (SqlCompiler.printSetOperator next' operator) :=
  .read fun _ _ => whenThen (unsupported _) fun _ => whenThen (unsupported _) fun _ =>
    (indentedLine _).andThen (nested
      (fun _ hframe => ⟨hframe.provider, hframe.store, hframe.scopes⟩) (hnext.query _ h))

/-- A step in the scope of an allowed query. -/
theorem entering {ref : QueryRef} (href : P.query ref) {act act' : Print Unit}
    (h : Alike P act act') :
    Alike P (MonadWithReader.withReader (fun frame : Frame => frame.entering ref) act)
      (MonadWithReader.withReader (fun frame : Frame => frame.entering ref) act') :=
  withReader (fun _ hframe => ⟨hframe.provider, hframe.store,
    List.forall_mem_cons.mpr ⟨P.inScope ref href, hframe.scopes⟩⟩) h

end Print.Alike

/-- A query block with its set operators. -/
theorem printQuery_alike (hnext : next.Alike P next') {ref : QueryRef} (href : P.query ref) :
    Print.Alike P (printQuery next ref) (printQuery next' ref) := by
  have hquery := hnext.closed.query ref href
  refine .read fun frame hframe => ?_
  rw [hframe.store]
  refine .withReader (fun _ hframe => ⟨hframe.provider, hframe.store, hframe.scopes⟩) ?_
  exact (Print.Alike.entering href (.printQueryBody hnext hquery)).andThen
    (.forM fun operator hoperator =>
      .printSetOperator hnext (hquery.operators operator hoperator))

/-! ## Printers of every level -/

/-- The printers of what is referred to, at most `fuel` references deep, that refuse to open any
queries but the listed ones. -/
def NextLevel.only (queries : List QueryRef) : Nat → NextLevel
  | 0 => .within 0
  | fuel + 1 =>
    { query := fun q =>
        if q ∈ queries then printQuery (NextLevel.only queries fuel) q
        else throw (.resolution "The query is not listed.")
      scalar := fun e => e.print (NextLevel.only queries fuel) true
      predicate := fun p => p.print (NextLevel.only queries fuel) }

/-- The printers of every level print allowed references. -/
theorem NextLevel.within_alike (hclosed : P.Closed) (fuel : Nat) :
    (NextLevel.within fuel).Alike P (NextLevel.within fuel) := by
  induction fuel with
  | zero => exact ⟨hclosed, fun _ _ => .throw _, fun _ _ _ => .throw _, fun _ _ _ => .throw _⟩
  | succ fuel ih =>
    exact {
      closed := hclosed
      query := fun _ hq => printQuery_alike ih hq
      scalar := fun h => Scalar.print_alike ih _ h true
      predicate := fun h => Predicate.print_alike ih _ h }

/-- It makes no difference at any level if other queries are refused. -/
theorem NextLevel.only_alike (hclosed : P.Closed) {queries : List QueryRef}
    (hqueries : ∀ q, P.query q → q ∈ queries) (fuel : Nat) :
    (NextLevel.within fuel).Alike P (NextLevel.only queries fuel) := by
  induction fuel with
  | zero => exact NextLevel.within_alike hclosed 0
  | succ fuel ih =>
    constructor
    · exact hclosed
    · intro q hq
      change Print.Alike P _ (if q ∈ queries then _ else _)
      rw [if_pos (hqueries q hq)]
      exact printQuery_alike ih hq
    · exact fun h => Scalar.print_alike ih _ h true
    · exact fun h => Predicate.print_alike ih _ h

end SqlCompiler
