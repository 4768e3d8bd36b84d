import SqlCompiler.Proofs.Rendering.Statements

/-!
# Parameter binding

A placeholder is written with the name of its parameter, and a name is bound once, to the
parameter of the first placeholder with that name.  So a command sends every parameter its own
value unless two of its placeholders share a name and differ in their values.  The values of
parameters also change on the way: a search that is spelled as `LIKE` refers to the pattern
under the name of the text that is searched for.

Main results:

- Definition `Writer.Bound`, Theorem `Page.Run.bound`: the parameters of a writer are bound in
  the order of its placeholders, along every run.
- Definition `Command.valueOf?`, `Command.BindsEach`: what a name is bound to, and commands that
  send every parameter its own value.
- Theorem `compileStatement_binds_first`: which commands of a compiled statement these are.
- Theorem `search_loses_its_text`: a search that is compared with its own pattern.
-/

namespace SqlCompiler

/-! ## Binding names -/

namespace Writer

variable {p : Parameter} {ps qs : List Parameter} {name : String}

/-- Binding a parameter to a name that is bound changes nothing. -/
theorem bind_of_mem (h : p.name ∈ ps.map (·.name)) : bind ps p = ps := by
  have hany : ps.any (·.name == p.name) = true := by simpa using h
  simp [bind, hany]

/-- A parameter with a new name is bound behind the others. -/
theorem bind_of_notMem (h : p.name ∉ ps.map (·.name)) : bind ps p = ps ++ [p] := by
  have hany : ps.any (·.name == p.name) = false := by simpa using h
  simp [bind, hany]

theorem names_subset_bind : ps.map (·.name) ⊆ (bind ps p).map (·.name) := by
  by_cases h : p.name ∈ ps.map (·.name)
  · rw [bind_of_mem h]
    exact List.Subset.refl _
  · rw [bind_of_notMem h]
    simp

theorem names_subset_foldl_bind (qs : List Parameter) :
    ps.map (·.name) ⊆ (qs.foldl bind ps).map (·.name) := by
  induction qs generalizing ps with
  | nil => exact List.Subset.refl _
  | cons q rest ih => exact List.Subset.trans names_subset_bind ih

/-- Binding some parameters binds each of their names. -/
theorem mem_names_foldl_bind (ps acc : List Parameter) (h : name ∈ ps.map (·.name)) :
    name ∈ (ps.foldl bind acc).map (·.name) := by
  induction ps generalizing acc with
  | nil => simp at h
  | cons p rest ih =>
    rw [List.map_cons, List.mem_cons] at h
    rcases h with rfl | h
    · refine names_subset_foldl_bind rest ?_
      by_cases hp : p.name ∈ acc.map (·.name)
      · rwa [bind_of_mem hp]
      · rw [bind_of_notMem hp]
        simp
    · exact ih (bind acc p) h

/-- Every name stays bound once. -/
theorem nodup_bind (h : (ps.map (·.name)).Nodup) : ((bind ps p).map (·.name)).Nodup := by
  by_cases hp : p.name ∈ ps.map (·.name)
  · rwa [bind_of_mem hp]
  · rw [bind_of_notMem hp, List.map_append, List.nodup_append]
    refine ⟨h, by simp, ?_⟩
    rintro n hn m hm rfl
    exact hp (by simpa [List.mem_singleton.mp hm] using hn)

theorem nodup_foldl_bind (qs : List Parameter) (h : (ps.map (·.name)).Nodup) :
    ((qs.foldl bind ps).map (·.name)).Nodup := by
  induction qs generalizing ps with
  | nil => exact h
  | cons q rest ih => exact ih (nodup_bind h)

theorem find?_bind : (bind ps p).find? (·.name == name) =
    (ps.find? (·.name == name)).or ([p].find? (·.name == name)) := by
  by_cases h : p.name ∈ ps.map (·.name)
  · rw [bind_of_mem h]
    obtain ⟨q, hq, hname⟩ := List.mem_map.mp h
    by_cases hp : p.name = name
    · have hfound : (ps.find? (·.name == name)).isSome := by
        rw [List.find?_isSome]
        exact ⟨q, hq, by simp [hname, hp]⟩
      obtain ⟨r, hr⟩ := Option.isSome_iff_exists.mp hfound
      simp [hr]
    · simp [hp]
  · rw [bind_of_notMem h, List.find?_append]

/-- A name is bound to the first parameter of that name. -/
theorem find?_foldl_bind (qs : List Parameter) :
    (qs.foldl bind ps).find? (·.name == name) =
      (ps.find? (·.name == name)).or (qs.find? (·.name == name)) := by
  induction qs generalizing ps with
  | nil => simp
  | cons q rest ih =>
    calc (rest.foldl bind (bind ps q)).find? (·.name == name)
        = ((bind ps q).find? (·.name == name)).or (rest.find? (·.name == name)) := ih
      _ = ((ps.find? (·.name == name)).or ([q].find? (·.name == name))).or
            (rest.find? (·.name == name)) := by rw [find?_bind]
      _ = (ps.find? (·.name == name)).or ((q :: rest).find? (·.name == name)) := by
          rw [Option.or_assoc, ← List.find?_append, List.singleton_append]

/-- Binding what a part has bound is binding what its placeholders stand for. -/
theorem foldl_bind_foldl_bind (ps qs acc : List Parameter) :
    (qs.foldl bind ps).foldl bind acc = (ps ++ qs).foldl bind acc := by
  induction qs generalizing ps with
  | nil => rw [List.append_nil, List.foldl_nil]
  | cons q rest ih =>
    have hbind : (bind ps q).foldl bind acc = (ps ++ [q]).foldl bind acc := by
      by_cases h : q.name ∈ ps.map (·.name)
      · have hbound := mem_names_foldl_bind ps acc h
        rw [bind_of_mem h, List.foldl_append, List.foldl_cons, List.foldl_nil,
          bind_of_mem hbound]
      · rw [bind_of_notMem h]
    calc (rest.foldl bind (bind ps q)).foldl bind acc
        = (bind ps q ++ rest).foldl bind acc := ih (bind ps q)
      _ = rest.foldl bind ((bind ps q).foldl bind acc) := List.foldl_append
      _ = rest.foldl bind ((ps ++ [q]).foldl bind acc) := by rw [hbind]
      _ = (ps ++ q :: rest).foldl bind acc := by
          rw [← List.foldl_append, List.append_assoc, List.singleton_append]

/-! ## Along a run -/

/-- The parameters of a writer are bound in the order of its placeholders, and the placeholders
stand for allowed parameters. -/
structure Bound (S : Parameter → Prop) (w : Writer) : Prop where
  params : w.params = w.placeholders.foldl bind []
  placeholders : ∀ p ∈ w.placeholders, S p

theorem Bound.of_eq {S : Parameter → Prop} {w v : Writer} (h : w.Bound S)
    (hparams : v.params = w.params) (hplaceholders : v.placeholders = w.placeholders) :
    v.Bound S := by
  refine ⟨?_, ?_⟩
  · rw [hparams, hplaceholders, h.params]
  · rw [hplaceholders]
    exact h.placeholders

end Writer

/-- What is bound stays bound along every run; a part printed on its own starts from nothing. -/
theorem Page.Run.bound {P : Printing} {page page' : Page} (h : page.Run P page')
    (hpage : page.writer.Bound P.parameter) : page'.writer.Bound P.parameter := by
  induction h with
  | refl => exact hpage
  | add _ s ih => exact (ih hpage).of_eq rfl rfl
  | deeper _ ih => exact (ih hpage).of_eq rfl rfl
  | shallower _ ih => exact (ih hpage).of_eq rfl rfl
  | @parameter _ q _ x hx ih =>
    refine ⟨?_, ?_⟩
    · simp only [onWriter, Writer.parameter, List.foldl_append, (ih hpage).params, List.foldl_cons,
        List.foldl_nil]
    · intro y hy
      rcases List.mem_append.mp hy with hy | hy
      · exact (ih hpage).placeholders y hy
      · rwa [List.mem_singleton.mp hy]
  | places _ _ ih => exact ih hpage
  | defer _ name ih => exact (ih hpage).of_eq rfl rfl
  | @append _ q inner _ _ ih ihinner =>
    have hq := ih hpage
    have hi : inner.writer.Bound P.parameter := ihinner ⟨rfl, by simp [Writer.nested]⟩
    refine ⟨?_, ?_⟩
    · calc inner.writer.params.foldl Writer.bind q.writer.params
          = (inner.writer.placeholders.foldl Writer.bind []).foldl Writer.bind
              q.writer.params := by rw [hi.params]
        _ = inner.writer.placeholders.foldl Writer.bind q.writer.params :=
            Writer.foldl_bind_foldl_bind [] _ _
        _ = (q.writer.placeholders ++ inner.writer.placeholders).foldl Writer.bind [] := by
            rw [List.foldl_append, ← hq.params]
    · intro x hx
      rcases List.mem_append.mp hx with hx | hx
      · exact hq.placeholders x hx
      · exact hi.placeholders x hx
  | replaceAll _ _ pattern new ih => exact (ih hpage).of_eq rfl rfl
  | prepend _ _ s ih => exact (ih hpage).of_eq rfl rfl
  | trimEnd _ _ ih => exact (ih hpage).of_eq rfl rfl

/-! ## Commands -/

namespace Command

/-- The value a name is bound to. -/
def valueOf? (c : Command) (name : String) : Option Constant :=
  (c.params.find? (·.name == name)).map (·.value)

/-- Every placeholder is bound to the value of the parameter it stands for. -/
def BindsEach (c : Command) : Prop :=
  ∀ p ∈ c.placeholders, c.valueOf? p.name = some p.value

/-- The first placeholder of a name decides about its value. -/
theorem bindsEach_iff {c : Command} (h : c.params = c.placeholders.foldl Writer.bind []) :
    c.BindsEach ↔
      ∀ p ∈ c.placeholders, ∀ q ∈ c.placeholders, p.name = q.name → p.value = q.value := by
  have hfirst (name : String) : c.valueOf? name =
      (c.placeholders.find? (·.name == name)).map (·.value) := by
    rw [valueOf?, h, Writer.find?_foldl_bind]
    simp
  constructor
  · intro heach p hp q hq hname
    have hvalue := heach p hp
    rw [hname, heach q hq] at hvalue
    exact (Option.some.inj hvalue).symm
  · intro hequal p hp
    have hfound : (c.placeholders.find? (·.name == p.name)).isSome := by
      rw [List.find?_isSome]
      exact ⟨p, hp, by simp⟩
    obtain ⟨q, hq⟩ := Option.isSome_iff_exists.mp hfound
    have hname : q.name = p.name := by simpa using List.find?_some hq
    rw [hfirst, hq, Option.map_some, hequal q (List.mem_of_find?_eq_some hq) p hp hname]

end Command

/-! ## Statements -/

/-- What is rendered is the statement as it was legalized. -/
theorem compileStatement_ok {provider : Provider} {options : Options} {t : StatementRef}
    {s s' : Store} {rendered : Rendered}
    (h : (compileStatement provider options t).runOn s = (.ok rendered, s')) :
    renderStatement provider options s' t = .ok rendered := by
  rw [compileStatement, StoreM.runOn_bind] at h
  split at h
  · next s₁ _ =>
    rw [StoreM.runOn_bind, StoreM.runOn_get] at h
    dsimp only at h
    generalize hrender : renderStatement provider options s₁ t = result at h
    cases result with
    | ok r =>
      cases h
      exact hrender
    | error e => cases h
  · cases h

/-- The main command is what a page holds after printing the statement on it. -/
theorem Frame.command_ok {frame : Frame} {t : StatementRef} {command : Command}
    {places : Members TablePlace} (h : frame.command t = .ok (command, places)) :
    ∃ (scopes : List QueryRef) (fuel : Nat) (page : Page),
      printStatement (.within fuel) (frame.store.statement t) { frame with scopes }
        frame.emptyPage = .ok ((), page) ∧
      command.params = page.writer.params ∧
      command.placeholders = page.writer.placeholders := by
  rw [Frame.command] at h
  dsimp only at h
  generalize 4 * frame.store.weight + 16 = fuel at h
  generalize frame.store.enclosingQueries _ _ = scopes at h
  change (printStatement (.within fuel) (frame.store.statement t) { frame with scopes }
    frame.emptyPage >>= _) = _ at h
  cases hrun : printStatement (.within fuel) (frame.store.statement t) { frame with scopes }
      frame.emptyPage with
  | error e =>
    rw [hrun] at h
    cases h
  | ok r =>
    rw [hrun] at h
    cases h
    exact ⟨scopes, fuel, _, hrun, rfl, rfl⟩

/-- The printing of a store with all of its parameters and queries. -/
def Printing.whole (provider : Provider) (s : Store) (edits : Prop) : Printing where
  provider
  store := s
  edits
  parameter := s.Carries provider.dialect
  query _ := True
  scope _ := True
  inScope _ _ := trivial

/-- A statement may refer to everything in its store. -/
theorem Printing.covers_whole (provider : Provider) (s : Store) (edits : Prop) (t : StatementRef) :
    (whole provider s edits).Covers t := by
  have hwithin {scalars : List Scalar} (h : ∀ p, .parameter p ∈ scalars → s.Mentions p) :
      Within (whole provider s edits) scalars := by
    intro e he
    cases e with
    | parameter p => exact .occurs (h p he)
    | _ => trivial
  constructor
  · constructor
    · exact Store.Carries.closed s provider.dialect
    · exact fun c _ => hwithin fun p hp => .column c hp
    · intro q _
      apply Query.Allowed.of_walkQuery
      · exact hwithin fun p hp => .query q hp
      · exact fun _ _ table _ => hwithin fun p hp => .table table hp
  · trivial
  · exact fun _ _ => trivial
  · exact hwithin fun p hp => .statement t hp
  · exact hwithin fun p hp => .target t hp

/-- The main command binds the parameters of its placeholders, which the store holds. -/
theorem Frame.command_bound {frame : Frame} {t : StatementRef} {command : Command}
    {places : Members TablePlace} (h : frame.command t = .ok (command, places)) :
    command.params = command.placeholders.foldl Writer.bind [] ∧
      ∀ p ∈ command.placeholders, frame.store.Carries frame.provider.dialect p := by
  obtain ⟨scopes, fuel, page, hrun, hparams, hplaceholders⟩ := Frame.command_ok h
  have hcovers := Printing.covers_whole frame.provider frame.store True t
  have hframe : (Printing.whole frame.provider frame.store True).Frames { frame with scopes } :=
    ⟨rfl, rfl, fun _ _ => trivial⟩
  have hrun := (printStatement_alike (NextLevel.within_alike hcovers.closed fuel) hcovers trivial _
    hframe _).2 _ _ hrun
  have hbound := hrun.bound ⟨rfl, by simp [Frame.emptyPage, Writer.new]⟩
  rw [hparams, hplaceholders]
  exact ⟨hbound.params, hbound.placeholders⟩

/-- Every command binds the parameters of its placeholders, which the store holds. -/
theorem renderStatement_bound {provider : Provider} {options : Options} {s : Store}
    {t : StatementRef} {rendered : Rendered}
    (h : renderStatement provider options s t = .ok rendered) {command : Command}
    (hcommand : command ∈ rendered.commands) :
    command.params = command.placeholders.foldl Writer.bind [] ∧
      ∀ p ∈ command.placeholders, s.Carries provider.dialect p := by
  rw [renderStatement] at h
  dsimp only at h
  cases hmain : Frame.command { provider, store := s, options } t with
  | error e =>
    rw [hmain] at h
    cases h
  | ok r =>
    rw [hmain] at h
    cases h
    rcases List.mem_cons.mp hcommand with rfl | hsecond
    · exact Frame.command_bound hmain
    · obtain ⟨sql, _, rfl⟩ := List.mem_map.mp hsecond
      exact ⟨rfl, by simp⟩

/-- In every command of a compiled statement, the placeholders stand for parameters that occur
in the legalized statement or for the patterns of its searches; each name is bound once, to the
value of its first placeholder.  So every placeholder is bound to the value of its own parameter
exactly if placeholders with the same name have the same value. -/
theorem compileStatement_binds_first {provider : Provider} {options : Options}
    {t : StatementRef} {s s' : Store} {rendered : Rendered}
    (h : (compileStatement provider options t).runOn s = (.ok rendered, s'))
    {command : Command} (hcommand : command ∈ rendered.commands) :
    (∀ p ∈ command.placeholders, s'.Carries provider.dialect p) ∧
    (command.params.map (·.name)).Nodup ∧
    (∀ name, command.params.find? (·.name == name) =
      command.placeholders.find? (·.name == name)) ∧
    (command.BindsEach ↔ ∀ p ∈ command.placeholders, ∀ q ∈ command.placeholders,
      p.name = q.name → p.value = q.value) := by
  obtain ⟨hparams, hcarries⟩ := renderStatement_bound (compileStatement_ok h) hcommand
  refine ⟨hcarries, ?_, fun name => ?_, Command.bindsEach_iff hparams⟩
  · rw [hparams]
    exact Writer.nodup_foldl_bind _ (by simp)
  · rw [hparams, Writer.find?_foldl_bind]
    simp

/-- `SELECT Name FROM Person` where the name contains a parameter, letter case included. -/
def searchedNames : Store × StatementRef :=
  let (t, s) := Store.addTable {} { name := { name := "Person" } }
    [{ name := "Name", type := .nVarChar }]
  let name : Scalar := .field ⟨0⟩
  let (q, s) := s.addQuery none
  let (_, s) := s.addColumn q name none
  let s := s.modifyQuery q fun query =>
    { query with
      sources := [.ofTable t]
      whereClause := .ofPredicate
        (.search name .contains (.parameter (.natural "q" (.text "Ab"))) true false) }
  let (t, s) := s.addStatement { body := .select, query := q }
  (s, t)

/-- The text a constant is. -/
def Constant.asText? : Constant → Option String
  | .text s => some s
  | _ => none

/-- The placeholders of the commands, with the texts of their values. -/
def Rendered.placeholderTexts (rendered : Rendered) : List (List (String × Option String)) :=
  rendered.commands.map fun command =>
    command.placeholders.map fun p => (p.name, p.value.asText?)

/-- The compared text of a search is lost where the search is spelled with its pattern: both go
by one name. -/
theorem search_loses_its_text :
    ∃ rendered s', (compileStatement (.ofDialect .sqlite) {} searchedNames.2).runOn
        searchedNames.1 = (.ok rendered, s') ∧
      ∃ command ∈ rendered.commands, ¬ command.BindsEach := by
  have hwritten : ((compileStatement (.ofDialect .sqlite) {} searchedNames.2).runOn
      searchedNames.1).1.toOption.map Rendered.placeholderTexts =
        some [[("q", some "%Ab%"), ("q", some "Ab")]] := by
    decide +kernel
  cases hrun : (compileStatement (.ofDialect .sqlite) {} searchedNames.2).runOn
      searchedNames.1 with
  | mk result s' =>
    rw [hrun] at hwritten
    cases result with
    | error e => cases hwritten
    | ok rendered =>
      obtain ⟨command, hcommands, hplaceholders⟩ :=
        List.map_eq_singleton_iff.mp (Option.some.inj hwritten)
      have hcommand : command ∈ rendered.commands := by simp [hcommands]
      refine ⟨rendered, s', rfl, command, hcommand, fun heach => ?_⟩
      obtain ⟨_, _, _, hiff⟩ := compileStatement_binds_first hrun hcommand
      rcases hlist : command.placeholders with _ | ⟨p, _ | ⟨q, rest⟩⟩
      · simp [hlist] at hplaceholders
      · simp [hlist] at hplaceholders
      · simp only [hlist, List.map_cons, List.cons.injEq, Prod.mk.injEq] at hplaceholders
        obtain ⟨⟨hp, hptext⟩, ⟨hq, hqtext⟩, _⟩ := hplaceholders
        have hvalue := hiff.mp heach p (by simp [hlist]) q (by simp [hlist])
          (hp.trans hq.symm)
        rw [hvalue, hqtext] at hptext
        exact absurd hptext (by decide)

end SqlCompiler
