import SqlCompiler.Proofs.Queries.Reachable
import SqlCompiler.Render.Statement

/-!
# Embedded queries are printed

A printing step that succeeds has printed what it consists of.  So a statement that can be rendered
has every query printed that is embedded in it.

Main results:

- Definition `Print.Forces` and its closure lemmas: what a printing step succeeds for.
- Theorem `printQuery_forces`: a query is only printed with its subqueries and set operators.
- Theorem `embeds_printed`: the queries embedded in a selecting statement are printed.
-/

namespace SqlCompiler

/-! ## What a printing step succeeds for -/

/-- A printing step for a provider and over a store succeeds only if something is so. -/
def Print.Forces (provider : Provider) (store : Store) (P : Prop) {α : Type} (act : Print α) :
    Prop :=
  ∀ frame : Frame, frame.provider = provider → frame.store = store → ∀ page r,
    act frame page = .ok r → P

namespace Print.Forces

variable {provider : Provider} {store : Store} {P : Prop} {α β : Type}

theorem ofTrue {act : Print α} (h : P) : Forces provider store P act := fun _ _ _ _ _ _ => h

/-- What comes first. -/
theorem first {act : Print α} {next : α → Print β} (h : Forces provider store P act) :
    Forces provider store P (act >>= next) := by
  intro frame hprovider hstore page r hrun
  change (act frame page >>= fun r => next r.1 frame r.2) = _ at hrun
  cases hact : act frame page with
  | error e => simp [hact, Bind.bind, Except.bind] at hrun
  | ok r' => exact h frame hprovider hstore page r' hact

/-- What follows. -/
theorem following {act : Print α} {next : α → Print β} (h : ∀ a, Forces provider store P (next a)) :
    Forces provider store P (act >>= next) := by
  intro frame hprovider hstore page r hrun
  change (act frame page >>= fun r => next r.1 frame r.2) = _ at hrun
  cases hact : act frame page with
  | error e => simp [hact, Bind.bind, Except.bind] at hrun
  | ok r' =>
    rw [hact] at hrun
    exact h r'.1 frame hprovider hstore r'.2 r hrun

/-- A step after another one. -/
theorem andThen {act : Print α} {next : Print β} (h : Forces provider store P next) :
    Forces provider store P (do let _ ← act; next) :=
  following fun _ => h

theorem read {next : Frame → Print β} (h : ∀ frame, frame.provider = provider → frame.store = store →
    Forces provider store P (next frame)) :
    Forces provider store P (MonadReader.read >>= next) := by
  intro frame hprovider hstore page r hrun
  exact h frame hprovider hstore frame hprovider hstore page r hrun

theorem unsupported (construct : String) :
    Forces provider store P (Print.unsupported construct : Print α) := by
  intro frame _ _ page r hrun
  cases hrun

theorem ite {c : Prop} [Decidable c] {act other : Print α} (h : Forces provider store P act)
    (hother : Forces provider store P other) :
    Forces provider store P (if c then act else other) := by
  split
  · exact h
  · exact hother

theorem withReader {f : Frame → Frame} {act : Print α}
    (hf : ∀ frame, (f frame).provider = frame.provider ∧ (f frame).store = frame.store)
    (h : Forces provider store P act) :
    Forces provider store P (MonadWithReader.withReader f act) := by
  intro frame hprovider hstore
  exact h (f frame) ((hf frame).1.trans hprovider) ((hf frame).2.trans hstore)

theorem indented {act : Print Unit} (h : Forces provider store P act) :
    Forces provider store P (Print.indented act) :=
  andThen h.first

theorem separatedBy {separator : Print Unit} : ∀ {acts : List (Print Unit)},
    (∃ act ∈ acts, Forces provider store P act) →
      Forces provider store P (Print.separatedBy separator acts)
  | [], ⟨_, hact, _⟩ => by cases hact
  | [act], ⟨_, hact, h⟩ => by
    rw [List.mem_singleton.mp hact] at h
    exact h
  | act :: next :: rest, ⟨act', hact, h⟩ => by
    rcases List.mem_cons.mp hact with rfl | hact
    · exact h.first
    · exact andThen (andThen (separatedBy ⟨act', hact, h⟩))

theorem separated {separator : String} {acts : List (Print Unit)}
    (h : ∃ act ∈ acts, Forces provider store P act) :
    Forces provider store P (Print.separated separator acts) :=
  separatedBy h

theorem lines {acts : List (Print Unit)} (h : ∃ act ∈ acts, Forces provider store P act) :
    Forces provider store P (Print.lines acts) := by
  obtain ⟨act, hact, h⟩ := h
  exact separated ⟨_, List.mem_map_of_mem hact, andThen h⟩

theorem forM {γ : Type} {act : γ → Print Unit} : ∀ {items : List γ},
    (∃ item ∈ items, Forces provider store P (act item)) →
      Forces provider store P (items.forM act)
  | [], ⟨_, hitem, _⟩ => by cases hitem
  | item :: rest, ⟨item', hitem, h⟩ => by
    rcases List.mem_cons.mp hitem with rfl | hitem
    · exact h.first
    · exact andThen (forM ⟨item', hitem, h⟩)

/-- A part on a page of its own. -/
theorem nested {f : Frame → Frame} {act : Print Unit}
    (hf : ∀ frame, (f frame).provider = frame.provider ∧ (f frame).store = frame.store)
    (h : Forces provider store P act) : Forces provider store P (Print.nested f act) := by
  intro frame hprovider hstore page r hrun
  change (act (f frame) { writer := page.writer.nested } >>= fun r => _) = _ at hrun
  cases hact : act (f frame) { writer := page.writer.nested } with
  | error e => simp [hact, Bind.bind, Except.bind] at hrun
  | ok r' =>
    exact h (f frame) ((hf frame).1.trans hprovider) ((hf frame).2.trans hstore) _ r' hact

theorem nestedQuery {query : Print Unit} {aliasName : Option String} {isSubquery : Bool}
    (h : Forces provider store P query) :
    Forces provider store P (Print.nestedQuery query aliasName isSubquery) :=
  nested (fun _ => ⟨rfl, rfl⟩) (andThen h)

end Print.Forces

/-! ## Queries -/

variable {provider : Provider} {store : Store} {P : Prop} {next : NextLevel} {r : QueryRef}

theorem printSubquery_forces (h : Print.Forces provider store P (next.query r))
    (aliasName : Option String) : Print.Forces provider store P (printSubquery next r aliasName) :=
  .andThen (.first (.nestedQuery h))

theorem printSourceItem_forces (h : Print.Forces provider store P (next.query r))
    (aliasName : Option String) :
    Print.Forces provider store P (printSourceItem next (.query r) aliasName) :=
  .read fun _ _ _ => .first (.first (printSubquery_forces h aliasName))

mutual

/-- A source is printed with the sources joined to it. -/
theorem Source.print_forces (h : Print.Forces provider store P (next.query r)) (source : Source)
    (hr : r ∈ source.all.filterMap Source.query?) :
    Print.Forces provider store P (source.print next) := by
  obtain ⟨item, aliasName, joins⟩ := source
  simp only [Source.all, List.mem_filterMap, List.mem_cons] at hr
  obtain ⟨source', hsource, hr⟩ := hr
  rcases hsource with rfl | hsource
  · rw [Source.query?_eq_some] at hr
    obtain rfl : item = .query r := hr
    exact .first (printSourceItem_forces h aliasName)
  · exact .andThen (.indented
      (printJoins_forces h joins (List.mem_filterMap.mpr ⟨source', hsource, hr⟩)))

/-- A joined source is printed. -/
theorem Join.print_forces (h : Print.Forces provider store P (next.query r)) (join : Join)
    (hr : r ∈ (Source.ofJoin join).filterMap Source.query?) :
    Print.Forces provider store P (join.print next) := by
  obtain ⟨kind, source, condition⟩ := join
  have hsource := source.print_forces h hr
  refine .read fun frame _ _ => .ite (.andThen hsource) (.ite ?_ (.andThen (.first hsource)))
  split
  · exact .andThen (.andThen hsource)
  · exact .andThen hsource

/-- The sources joined to a source are printed. -/
theorem printJoins_forces (h : Print.Forces provider store P (next.query r)) (joins : List Join)
    (hr : r ∈ (Source.joined joins).filterMap Source.query?) :
    Print.Forces provider store P (printJoins next joins) := by
  cases joins with
  | nil => cases hr
  | cons join rest =>
    rw [Source.joined, List.filterMap_append] at hr
    rcases List.mem_append.mp hr with hr | hr
    · exact .andThen (.andThen (.first (join.print_forces h hr)))
    · exact .andThen (.andThen (.andThen (printJoins_forces h rest hr)))

end

theorem printFrom_forces (h : Print.Forces provider store P (next.query r)) {q : Query}
    (hr : r ∈ q.subqueries) : Print.Forces provider store P (printFrom next q) := by
  rw [Query.subqueries, Query.allSources, List.filterMap_flatMap] at hr
  obtain ⟨source, hsource, hr⟩ := List.mem_flatMap.mp hr
  have hsources : q.sources.isEmpty = false := by
    cases hempty : q.sources with
    | nil => simp [hempty] at hsource
    | cons => rfl
  rw [printFrom, hsources]
  exact .andThen (.first (.indented (.lines
    ⟨_, List.mem_map_of_mem hsource, source.print_forces h hr⟩)))

theorem printSetOperator_forces (operator : SetOperator)
    (h : Print.Forces provider store P (next.query operator.query)) :
    Print.Forces provider store P (printSetOperator next operator) := by
  have hquery : Print.Forces provider store P (do
      Print.indentedLine operator.operation.keyword
      Print.nested (fun frame => { frame with finalAliases := false })
        (next.query operator.query)) := .andThen (.nested (fun _ => ⟨rfl, rfl⟩) h)
  refine .read fun frame _ _ => ?_
  dsimp only
  split
  · exact .first (.unsupported _)
  · split
    · exact .first (.unsupported _)
    · exact hquery

/-- A query is printed with its subqueries, and with the queries after its set operators. -/
theorem printQuery_forces (h : Print.Forces provider store P (next.query r)) {q : QueryRef}
    (hr : r ∈ (store.query q).reads) : Print.Forces provider store P (printQuery next q) := by
  refine .read fun frame _ hstore => .withReader (fun _ => ⟨rfl, rfl⟩) ?_
  rw [hstore]
  rcases List.mem_append.mp hr with hr | hr
  · refine .first (.withReader (fun _ => ⟨rfl, rfl⟩) ?_)
    exact .andThen (.andThen (.first (printFrom_forces h hr)))
  · obtain ⟨operator, hoperator, rfl⟩ := List.mem_map.mp hr
    exact .andThen (.forM ⟨operator, hoperator, printSetOperator_forces operator h⟩)

/-! ## Statements -/

/-- A query block and its set operators are printed somewhere. -/
def Printed (provider : Provider) (store : Store) (q : QueryRef) : Prop :=
  ∃ fuel frame page page', frame.provider = provider ∧ frame.store = store ∧
    printQuery (NextLevel.within fuel) q frame page = .ok ((), page')

/-- The printer of any level prints queries. -/
theorem Printed.ofWithin (fuel : Nat) (q : QueryRef) :
    Print.Forces provider store (Printed provider store q) ((NextLevel.within fuel).query q) := by
  intro frame hprovider hstore page result hrun
  cases fuel with
  | zero => cases hrun
  | succ fuel => exact ⟨fuel, frame, page, result.2, hprovider, hstore, hrun⟩

/-- What a printed query reads is printed. -/
theorem Printed.reads {q : QueryRef} (h : Printed provider store q)
    (hr : r ∈ (store.query q).reads) : Printed provider store r := by
  obtain ⟨fuel, frame, page, page', hprovider, hstore, hrun⟩ := h
  exact printQuery_forces (.ofWithin fuel r) hr frame hprovider hstore page _ hrun

theorem Printed.hasBlock {q b : QueryRef} (h : Printed provider store q) (hb : store.HasBlock q b) :
    Printed provider store b := by
  induction hb with
  | self => exact h
  | side _ hr ih => exact ih.reads (List.mem_append_right _ hr)

theorem printCte_forces {c : CteRef}
    (h : Print.Forces provider store P (next.query (store.cte c).body)) :
    Print.Forces provider store P (printCte next c) := by
  refine .read fun frame _ hstore => ?_
  rw [hstore]
  exact .andThen (.andThen (.andThen (.andThen (.andThen (.first (.nestedQuery h))))))

theorem printCtes_forces {ctes : List CteRef} {c : CteRef} (hc : c ∈ ctes)
    (h : Print.Forces provider store P (next.query (store.cte c).body)) :
    Print.Forces provider store P (printCtes next ctes) := by
  have hnonempty : ctes.isEmpty = false := by
    cases ctes with
    | nil => cases hc
    | cons => rfl
  have hlist : Print.Forces provider store P (do
      Print.separated ",\n" (ctes.map (printCte next))
      Print.newline) := .first (.separated ⟨_, List.mem_map_of_mem hc, printCte_forces h⟩)
  refine .read fun frame _ _ => ?_
  simp only [hnonempty, Bool.not_false, if_true]
  split
  · exact .first (.unsupported _)
  · refine .andThen ?_
    split
    · exact .andThen hlist
    · exact hlist

/-- The text of the main command of a rendered statement is what is printed of it. -/
theorem printStatement_of_command {options : Options} {t : StatementRef} {rendered : Rendered}
    (h : renderStatement provider options store t = .ok rendered) :
    ∃ command, rendered.commands.head? = some command ∧
      ∃ frame fuel page, frame.provider = provider ∧ frame.store = store ∧
        printStatement (NextLevel.within fuel) (store.statement t) frame frame.emptyPage =
          .ok ((), page) ∧ command.sql = page.writer.trimEnd.text := by
  let frame : Frame :=
    { provider, store, options
      scopes := store.enclosingQueries store.statements.size (store.statement t).parent }
  let fuel := 4 * store.weight + 16
  have hcommand : Frame.command { provider, store, options } t =
      (printStatement (NextLevel.within fuel) (store.statement t) frame frame.emptyPage >>=
        fun result => .ok (⟨result.2.writer.trimEnd.text, result.2.writer.trimEnd.params,
          result.2.writer.trimEnd.placeholders⟩, result.2.places)) := rfl
  cases hrun : printStatement (NextLevel.within fuel) (store.statement t) frame frame.emptyPage with
  | ok result =>
    rw [hrun] at hcommand
    rw [renderStatement, hcommand] at h
    obtain rfl := Except.ok.inj h
    exact ⟨_, rfl, frame, fuel, result.2, rfl, rfl, hrun, rfl⟩
  | error e =>
    rw [hrun] at hcommand
    rw [renderStatement, hcommand] at h
    cases h

/-- A statement that is rendered is printed. -/
theorem printStatement_of_render {options : Options} {t : StatementRef} {rendered : Rendered}
    (h : renderStatement provider options store t = .ok rendered) :
    ∃ frame fuel result, frame.provider = provider ∧ frame.store = store ∧
      printStatement (NextLevel.within fuel) (store.statement t) frame frame.emptyPage =
        .ok result := by
  obtain ⟨_, -, frame, fuel, _, hprovider, hstore, hrun, -⟩ := printStatement_of_command h
  exact ⟨frame, fuel, _, hprovider, hstore, hrun⟩

/-- The queries embedded in a selecting statement are printed if the statement is. -/
theorem embeds_printed {options : Options} {t : StatementRef} {rendered : Rendered} {q : QueryRef}
    (hbody : (store.statement t).body = .select) (hq : store.Embeds t q)
    (hrender : renderStatement provider options store t = .ok rendered) :
    Printed provider store q := by
  have hprinted {P : Prop} (hforces : ∀ fuel, Print.Forces provider store P
      (printStatement (NextLevel.within fuel) (store.statement t))) : P := by
    obtain ⟨frame, fuel, result, hprovider, hstore, hrun⟩ := printStatement_of_render hrender
    exact hforces fuel frame hprovider hstore _ result hrun
  induction hq with
  | root =>
    refine hprinted fun fuel => .andThen (.andThen (.first ?_))
    rw [printStatementBody, hbody]
    refine .withReader (fun _ => ⟨rfl, rfl⟩) ?_
    intro frame hprovider hstore page r hrun
    exact ⟨fuel, frame, page, r.2, hprovider, hstore, hrun⟩
  | cte hc =>
    exact hprinted fun fuel => .andThen (.first (printCtes_forces hc (.ofWithin fuel _)))
  | subquery _ hb hr ih => exact (ih.hasBlock hb).reads (List.mem_append_left _ hr)

end SqlCompiler
