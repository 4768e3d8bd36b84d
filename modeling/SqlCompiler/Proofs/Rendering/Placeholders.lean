import SqlCompiler.Proofs.Rendering.DeferredNames

/-!
# Placeholders in the text of a command

The placeholders of a statement are printed by many nested parts, each of which binds its own parameters
until it is put at the end of another one.  In the end the parameters of a command are those of its
placeholders, each name once, in the order of their first placeholders.  What comes after the last
placeholder may still change the text: deferred names are filled in wherever their marks are found, and
blanks are dropped at the end.

Main results:

- Theorem `Writer.names_foldl_bind`: in which order names are bound.
- Definition `Frame.draft`: what is printed of a statement before deferred names are filled in.
- Theorem `renderStatement_binds_placeholders`: the parameters of a command, and where its text has
  their placeholders.
-/

namespace SqlCompiler

/-! ## The order of the names -/

/-- Names are bound in the order of their first parameters, each once. -/
theorem Writer.names_foldl_bind (ps : List Parameter) :
    (ps.foldl bind []).map (·.name) = (ps.map (·.name)).eraseDups := by
  induction ps using List.reverseRecOn with
  | nil => rfl
  | append_singleton ps p ih =>
    rw [List.foldl_append, List.foldl_cons, List.foldl_nil, List.map_append, List.eraseDups_append,
      ← ih]
    by_cases h : p.name ∈ ps.map (·.name)
    · rw [bind_of_mem (mem_names_foldl_bind ps [] h)]
      simp [List.removeAll, List.mem_map.mp h]
    · have hnew : p.name ∉ (ps.foldl bind []).map (·.name) := by
        rwa [ih, List.mem_eraseDups]
      rw [bind_of_notMem hnew]
      rw [List.mem_map] at h
      simp [List.removeAll, h, List.eraseDups_cons]

/-! ## Finished texts -/

namespace Piece

/-- What a piece looks like in the end. -/
def finished (lead : Char) (places : Members TablePlace) : Piece → String
  | text s => s
  | mark name => name.filling places
  | placeholder p => String.singleton lead ++ p.name

/-- The text of a row of pieces, with the names filled in. -/
def write (lead : Char) (places : Members TablePlace) (row : List Piece) : String :=
  String.join (row.map (finished lead places))

/-- What segments look like once the names among them have been filled in. -/
theorem toList_write (lead : Char) (places : Members TablePlace) {row : List Piece}
    {filled : List DeferredName} (h : Segment.names (row.map (segment lead)) ⊆ filled) :
    (write lead places row).toList = Segment.spell places filled (row.map (segment lead)) := by
  have hpiece : ∀ piece ∈ row, (piece.finished lead places).toList =
      (piece.segment lead).shown places filled := by
    intro piece hpiece
    cases piece with
    | text s => rfl
    | placeholder p => rfl
    | mark name =>
      have hname : name ∈ Segment.names (row.map (segment lead)) :=
        List.mem_filterMap.mpr ⟨.mark name, List.mem_map_of_mem hpiece, rfl⟩
      exact (if_pos (h hname)).symm
  rw [write, String.toList_join, List.flatMap_map, Segment.spell, List.flatMap_map]
  exact List.flatMap_congr hpiece

end Piece

/-! ## Hints -/

/-- A text with hints around it. -/
def hinted (hints : List String) (text : String) : String :=
  let leading := hints.filterMap leadingHint?
  let trailing := hints.filter fun hint => (leadingHint? hint).isNone
  let text := String.join (leading.map (· ++ "\n")) ++ text
  if trailing.isEmpty then text
  else trailing.foldl (fun text hint => text ++ ("\n" ++ hint)) (Text.trimEnd text)

theorem printTexts_eq (texts : List String) (frame : Frame) (page : Page) :
    (texts.forM fun text => Print.text ("\n" ++ text) : Print Unit) frame page =
      .ok ((), page.onWriter fun w =>
        { w with text := texts.foldl (fun text new => text ++ ("\n" ++ new)) w.text }) := by
  induction texts generalizing page with
  | nil => rfl
  | cons text rest ih => exact ih _

theorem printHints_eq (hints : List String) (frame : Frame) (page : Page) :
    printHints hints frame page =
      .ok ((), page.onWriter fun w => { w with text := hinted hints w.text }) := by
  unfold printHints hinted
  dsimp only
  generalize hints.filterMap leadingHint? = leading
  generalize hints.filter (fun hint => (leadingHint? hint).isNone) = trailing
  cases hleading : leading.isEmpty with
  | false =>
    cases trailing.isEmpty with
    | false => exact printTexts_eq trailing frame _
    | true => rfl
  | true =>
    obtain rfl := List.isEmpty_iff.mp hleading
    simp only [List.map_nil, String.join_nil, String.empty_append]
    cases trailing.isEmpty with
    | false => exact printTexts_eq trailing frame _
    | true => rfl

/-! ## Commands -/

/-- What is printed of a statement in front of its hints, with marks for the deferred names. -/
def Frame.draft (frame : Frame) (t : StatementRef) : Except SqlError (Unit × Page) :=
  let statement := frame.store.statement t
  let scopes := frame.store.enclosingQueries frame.store.statements.size statement.parent
  printDraft (.within (4 * frame.store.weight + 16)) statement { frame with scopes } frame.emptyPage

/-- A draft is a row of pieces, and its placeholders begin as the dialect has them begin. -/
theorem Frame.draft_emits {frame : Frame} {t : StatementRef} {draft : Page}
    (h : frame.draft t = .ok ((), draft)) :
    (∃ row, draft.Emits row) ∧ draft.writer.parameterPrefix = frame.dialect.parameterPrefix := by
  unfold Frame.draft at h
  dsimp only at h
  generalize 4 * frame.store.weight + 16 = fuel at h
  generalize frame.store.enclosingQueries _ _ = scopes at h
  exact @emits_draft { frame with scopes } t fuel draft h

/-- The main command is the draft of its statement with the deferred names filled in, the hints around
it and without the blanks at the end. -/
theorem Frame.command_draft {frame : Frame} {t : StatementRef} {command : Command}
    {places : Members TablePlace} (h : frame.command t = .ok (command, places)) :
    ∃ draft : Page, frame.draft t = .ok ((), draft) ∧
      command.params = draft.writer.params ∧ command.placeholders = draft.writer.placeholders ∧
      command.sql = Text.trimEnd (hinted (frame.store.statement t).hints
        (draft.pending.foldl (fun text name => name.fillIn draft.places text) draft.writer.text)) := by
  unfold Frame.draft
  rw [Frame.command] at h
  dsimp only at h ⊢
  generalize 4 * frame.store.weight + 16 = fuel at h ⊢
  generalize frame.store.enclosingQueries _ _ = scopes at h ⊢
  generalize frame.store.statement t = statement at h ⊢
  change (printStatement (.within fuel) statement { frame with scopes } frame.emptyPage >>= _) = _ at h
  cases hprinted : printStatement (.within fuel) statement { frame with scopes } frame.emptyPage with
  | error e =>
    rw [hprinted] at h
    cases h
  | ok r =>
    rw [hprinted] at h
    rw [printStatement_eq] at hprinted
    obtain ⟨_, draft, hdraft, hprinted⟩ := Print.bind_ok_iff.mp hprinted
    obtain ⟨_, filled, hfilled, hhints⟩ := Print.bind_ok_iff.mp hprinted
    rw [fillDeferredNames_eq, fillNames_ok_iff] at hfilled
    rw [hfilled.2, printHints_eq] at hhints
    cases hhints
    cases h
    exact ⟨draft, hdraft, rfl, rfl, rfl⟩

/-- A draft is a row of texts, of marks for deferred names and of placeholders, and the parameters of the
main command are those of these placeholders, each name once, in the order of their first placeholders.
If no mark is found but in the places of its name, the text of the command is that of the row, with the
names filled in and the placeholders as they were printed, with the hints around it and without the
blanks at the end.  Other commands have no placeholders and no parameters. -/
theorem renderStatement_binds_placeholders {provider : Provider} {options : Options} {s : Store}
    {t : StatementRef} {rendered : Rendered}
    (h : renderStatement provider options s t = .ok rendered) :
    ∃ main others draft, rendered.commands = main :: others ∧
      (∀ command ∈ others, command.params = [] ∧ command.placeholders = []) ∧
      Frame.draft { provider, store := s, options } t = .ok ((), draft) ∧
      (∃ row, draft.Emits row) ∧
      ∀ row, draft.Emits row →
        main.params.map (·.name) = ((Piece.parameters row).map (·.name)).eraseDups ∧
        (main.params.map (·.name)).Nodup ∧
        (Segment.MarksApart draft.places
            (row.map (Piece.segment provider.dialect.parameterPrefix)) →
          main.sql = Text.trimEnd (hinted (s.statement t).hints
            (Piece.write provider.dialect.parameterPrefix draft.places row))) := by
  rw [renderStatement] at h
  dsimp only at h
  cases hmain : Frame.command { provider, store := s, options } t with
  | error e =>
    rw [hmain] at h
    cases h
  | ok r =>
    rw [hmain] at h
    cases h
    obtain ⟨draft, hdraft, hparams, hplaceholders, hsql⟩ := Frame.command_draft hmain
    obtain ⟨hemits, hlead⟩ := Frame.draft_emits hdraft
    have hbound := (Frame.command_bound hmain).1
    refine ⟨_, _, draft, rfl, List.forall_mem_map.mpr fun _ _ => ⟨rfl, rfl⟩, hdraft, hemits,
      fun row hrow => ⟨?_, ?_, fun hapart => ?_⟩⟩
    · rw [hbound, Writer.names_foldl_bind, hplaceholders, hrow.placeholders]
    · rw [hbound]
      exact Writer.nodup_foldl_bind _ List.nodup_nil
    · have hspells := hrow.spells
      rw [hlead] at hspells
      have hnames : Segment.names _ ⊆ draft.pending := fun _ hname => hspells.pending ▸ hname
      have hpending : draft.pending ⊆ Segment.names _ := fun _ hname => hspells.pending ▸ hname
      have hfilled := Segment.foldl_fillIn hapart hpending hspells.text
      have hwritten := Piece.toList_write _ draft.places
        (List.Subset.trans hnames (List.subset_append_left draft.pending []))
      rw [hsql, String.toList_inj.mp (hfilled.trans hwritten.symm)]
      rfl

/-- A parameter whose value is an integer. -/
def Scalar.integerParameter (name : String) (i : Int) : Scalar :=
  .parameter (.natural name (.integer i))

/-- A select of some expressions from `Person`, which is called `p`, with a hint. -/
def selectedWithHint (columns : List Scalar) : Store :=
  let (t, s) := Store.addTable {} { name := { name := "Person" }, tableId := some "T" }
    [{ name := "Name", type := .nVarChar }]
  let (q, s) := s.addQuery none
  let s := columns.foldl (fun s e => (s.addFreshColumn q e none).2) s
  let s := s.modifyQuery q fun query =>
    { query with sources := [{ Source.ofTable t with aliasName := some "p" }] }
  (s.addStatement { body := .select, query := q, hints := ["OPTION (RECOMPILE)"] }).2

/-- A parameter, the alias of the table and a sum with that parameter in it. -/
def parametersAroundAlias : Store :=
  selectedWithHint [.integerParameter "b" 2, .deferredName ⟨.aliasName, "T"⟩,
    .binary (.integerParameter "a" 1) .add (.integerParameter "b" 2) .int32]

/-- The names are bound in the order of their first placeholders, and the placeholders are in the
text. -/
theorem renderStatement_binds_placeholders_person : ∃ rendered main,
    renderStatement (.ofDialect .postgreSql) {} parametersAroundAlias ⟨0⟩ = .ok rendered ∧
      rendered.commands = [main] ∧ main.params.map (·.name) = ["b", "a"] ∧
      main.sql = "SELECT\n\t:b,\n\tp,\n\t:a + :b\nFROM\n\t\"Person\" p\nOPTION (RECOMPILE)" := by
  let provider := Provider.ofDialect .postgreSql
  cases hrun : renderStatement provider {} parametersAroundAlias ⟨0⟩ with
  | error e =>
    have hrenders : (renderStatement provider {} parametersAroundAlias ⟨0⟩).isOk = true := by
      decide +kernel
    rw [hrun] at hrenders
    cases hrenders
  | ok rendered =>
    obtain ⟨main, others, draft, hcommands, -, hdraft, -, hmain⟩ :=
      renderStatement_binds_placeholders hrun
    have hcount : (renderStatement provider {} parametersAroundAlias ⟨0⟩).toOption.map
        (·.commands.length) = some 1 := by decide +kernel
    rw [hrun] at hcount
    obtain rfl : others = [] := by simpa [Except.toOption, hcommands] using hcount
    let drafted := Frame.draft { provider, store := parametersAroundAlias, options := {} } ⟨0⟩
    have hpage : drafted.toOption.map (fun r => (r.2.writer.text, r.2.writer.parameterPrefix,
        r.2.pending, r.2.places)) =
        some ("SELECT\n\t:b,\n\t$$$a:T$$$,\n\t:a + :b\nFROM\n\t\"Person\" p\n", ':',
          [⟨.aliasName, "T"⟩], [("T", ⟨some "p", "Person", "p"⟩)]) := by decide +kernel
    have hparameters : drafted.toOption.map (·.2.writer.placeholders) =
        some [.natural "b" (.integer 2), .natural "a" (.integer 1),
          .natural "b" (.integer 2)] := rfl
    change drafted = _ at hdraft
    rw [hdraft] at hpage hparameters
    obtain ⟨htext, hlead, hpending, hplaces⟩ : draft.writer.text = _ ∧
        draft.writer.parameterPrefix = _ ∧ draft.pending = _ ∧ draft.places = _ := by
      simpa [Except.toOption] using hpage
    have hplaceholders : draft.writer.placeholders = _ := Option.some.inj hparameters
    let row : List Piece := [.text "SELECT\n\t", .placeholder (.natural "b" (.integer 2)),
      .text ",\n\t", .mark ⟨.aliasName, "T"⟩, .text ",\n\t",
      .placeholder (.natural "a" (.integer 1)), .text " + ",
      .placeholder (.natural "b" (.integer 2)), .text "\nFROM\n\t\"Person\" p\n"]
    have hrow : draft.Emits row := by
      refine ⟨⟨?_, ?_⟩, hplaceholders⟩
      · rw [htext, hplaces, hlead]
        decide
      · rw [hpending, hlead]
        rfl
    have hapart : Segment.MarksApart draft.places (row.map (Piece.segment ':')) := by
      rw [hplaces]
      decide +kernel
    obtain ⟨hnames, -, hsql⟩ := hmain row hrow
    refine ⟨rendered, main, rfl, hcommands, hnames.trans (by decide), ?_⟩
    rw [hsql hapart, hplaces]
    decide +kernel

/-- A placeholder that makes a text look like the mark of a pending name is lost with it. -/
example : (renderStatement (.ofDialect .postgreSql) {} (selectedWithHint
      [.raw "$$$a{0}$$$" [.integerParameter "T" 1] .int32 .primary,
        .deferredName ⟨.aliasName, "T"⟩]) ⟨0⟩).toOption.map
        (·.commands.map fun c => (c.sql, c.params.map (·.name))) =
    some [("SELECT\n\tp,\n\tp\nFROM\n\t\"Person\" p\nOPTION (RECOMPILE)", ["T"])] := by
  decide +kernel

end SqlCompiler
