import SqlCompiler.Proofs.Modifications.Moves
import SqlCompiler.Proofs.Modifications.Updates

/-!
# What modifications hand back

An output clause lists values, each under a keyword of the dialect, and may list the columns of a
table that the values go into.  It has two forms: values with the targets they are for, and values
alone.  Only the first form is printed and named.

Main results:

- Definition `OutputWord`: the words of an output clause, with the reader `readOutput`.
- Theorem `readOutput_words`: what the printed words say.
- Theorem `printStatementBody_printsOnce`: a modification prints its output clause once, and nothing
  else in it depends on the clause.
- Theorem `Store.compileStatement_handsBack`: a compiled modification hands back everything that its
  clause asks for exactly if the clause has no values alone.
-/

namespace SqlCompiler

/-! ## Words of an output clause -/

/-- A word of an output clause. -/
inductive OutputWord where
  | layout (step : Layout)
  | keyword (place : OutputStyle)
  | value (e : Scalar)
  | comma
  | into (t : TableRef)
  | opening
  | target (e : Scalar)
  | closing

namespace OutputWord

/-- Print a word. -/
def print (next : NextLevel) : OutputWord → Print Unit
  | layout step => step.print
  | keyword place => Print.text (if place == .returning then "RETURNING" else "OUTPUT")
  | value e => printScalar next e
  | comma => Print.text ",\n"
  | into t => do
    Print.text "INTO "
    Print.objectName ((← read).store.table t).name
  | opening => Print.text "("
  | target e => printTarget next e
  | closing => Print.text ")"

/-- A value that is listed. -/
def value? : OutputWord → Option Scalar
  | value e => some e
  | _ => none

/-- A column that a value goes into. -/
def target? : OutputWord → Option Scalar
  | target e => some e
  | _ => none

/-- Whether a word does more than space the others. -/
def isRead : OutputWord → Bool
  | layout _ => false
  | _ => true

end OutputWord

/-- Print a row of words. -/
def printOutputWords (next : NextLevel) : List OutputWord → Print Unit
  | [] => pure ()
  | word :: rest => do
    word.print next
    printOutputWords next rest

/-- Words in a list, each on a line of its own. -/
def listedWords : List OutputWord → List OutputWord
  | [] => []
  | [word] => [.layout .indentation, word]
  | word :: rest => .layout .indentation :: word :: .comma :: listedWords rest

/-- A list of words, one level deeper. -/
def indentedWords (words : List OutputWord) : List OutputWord :=
  .layout .deeper :: (listedWords words ++ [.layout .shallower, .layout .newline])

/-- The words of the columns of a table that values go into. -/
def intoWords (t : TableRef) (targets : List Scalar) : List OutputWord :=
  .layout .indentation :: .into t :: .layout .newline :: .layout .indentation :: .opening ::
    .layout .newline :: (indentedWords (targets.map .target) ++
      [.layout .indentation, .closing, .layout .newline])

namespace OutputClause

/-- The values with targets. -/
def values (o : OutputClause) : List Scalar := o.items.map fun item => item.value.getD item.target

/-- The values that a clause asks for, in either form. -/
def asked (o : OutputClause) : List Scalar := o.values ++ o.columns

/-- The columns that the values go into. -/
def intoTargets (o : OutputClause) : List Scalar :=
  if o.columns.isEmpty then o.items.map (·.target) else o.columns

/-- The words of a clause, in one of the places where a dialect may have it. -/
def words (o : OutputClause) (place : OutputStyle) : List OutputWord :=
  .layout .indentation :: .keyword place :: .layout .newline ::
    (indentedWords (o.values.map .value) ++ (o.into.map fun t => intoWords t o.intoTargets).getD [])

end OutputClause

section

variable (next : NextLevel)

theorem printOutputWords_append (words words' : List OutputWord) :
    printOutputWords next (words ++ words') = (do
      printOutputWords next words
      printOutputWords next words') := by
  induction words with
  | nil => simp [printOutputWords]
  | cons word rest ih => simp [printOutputWords, ih]

theorem printOutputWords_listed (words : List OutputWord) :
    printOutputWords next (listedWords words) = Print.lines (words.map (·.print next)) := by
  induction words with
  | nil => rfl
  | cons word rest ih =>
    cases rest with
    | nil => simp [listedWords, printOutputWords, Print.lines, Print.separated,
        Print.separatedBy, OutputWord.print, Layout.print]
    | cons other rest =>
      rw [listedWords, printOutputWords, printOutputWords, printOutputWords, ih]
      · simp [Print.lines, Print.separated, Print.separatedBy, OutputWord.print, Layout.print]
      · simp

theorem printOutputWords_indented (words : List OutputWord) :
    printOutputWords next (indentedWords words) = (do
      Print.indented (Print.lines (words.map (·.print next)))
      Print.newline) := by
  simp [indentedWords, printOutputWords, printOutputWords_append, printOutputWords_listed,
    Print.indented, OutputWord.print, Layout.print]

/-- The columns that values go into are printed word by word. -/
theorem printOutputWords_into (frame : Frame) (t : TableRef) (targets : List Scalar) :
    printOutputWords next (intoWords t targets) frame = (do
      Print.indentation
      Print.text "INTO "
      Print.objectName (frame.store.table t).name
      Print.newline
      printTargets next targets : Print Unit) frame := by
  have hread : printOutputWords next (intoWords t targets) = (do
      Print.indentation
      Print.text "INTO "
      (do Print.objectName ((← read).store.table t).name)
      Print.newline
      printTargets next targets) := by
    simp [intoWords, printOutputWords, printOutputWords_append, printOutputWords_indented,
      OutputWord.print, Layout.print, printTargets, printBlock, Print.indentedLine, Print.line,
      Function.comp_def]
  rw [hread]
  exact seq_congr rfl (seq_congr rfl (seq_congr rfl rfl))

end

/-! ## Reading the words -/

/-- What an output clause says: the values it lists, and the table they go into with its columns. -/
structure OutputText where
  values : List Scalar
  into : Option (TableRef × List Scalar)

/-- Read a list of at least one item, with commas between them. -/
def readList (item? : OutputWord → Option Scalar) :
    List OutputWord → Option (List Scalar × List OutputWord)
  | [] => none
  | word :: .comma :: rest => do
    let e ← item? word
    let (items, left) ← readList item? rest
    some (e :: items, left)
  | word :: rest => (item? word).map fun e => ([e], rest)

/-- Read what follows the values. -/
def readInto (values : List Scalar) : List OutputWord → Option OutputText
  | [] => some ⟨values, none⟩
  | .into t :: .opening :: rest =>
    match readList OutputWord.target? rest with
    | some (targets, [.closing]) => some ⟨values, some (t, targets)⟩
    | _ => none
  | _ => none

/-- Read an output clause, whatever spaces its words. -/
def readOutput (words : List OutputWord) : Option OutputText :=
  match words.filter OutputWord.isRead with
  | .keyword _ :: rest => do
    let (values, left) ← readList OutputWord.value? rest
    readInto values left
  | _ => none

theorem filter_listedWords {words : List OutputWord} (h : ∀ word ∈ words, word.isRead = true) :
    (listedWords words).filter OutputWord.isRead = words.intersperse .comma := by
  induction words with
  | nil => rfl
  | cons word rest ih =>
    have hword := h word List.mem_cons_self
    have hrest := ih fun word hmem => h word (List.mem_cons_of_mem _ hmem)
    cases rest with
    | nil => exact List.filter_cons_of_pos hword
    | cons other rest =>
      have hrow : (listedWords (word :: other :: rest)).filter OutputWord.isRead =
          (word :: .comma :: listedWords (other :: rest)).filter OutputWord.isRead := rfl
      rw [hrow, List.filter_cons_of_pos hword, List.filter_cons_of_pos rfl, hrest,
        List.intersperse_cons_cons]

theorem filter_indentedWords {words : List OutputWord}
    (h : ∀ word ∈ words, word.isRead = true) :
    (indentedWords words).filter OutputWord.isRead = words.intersperse .comma := by
  rw [indentedWords, ← filter_listedWords h]
  simp [OutputWord.isRead]

/-- A list of words is read item by item, up to what follows it. -/
theorem readList_intersperse {item? : OutputWord → Option Scalar} {word : Scalar → OutputWord}
    (hword : ∀ e, item? (word e) = some e) {items : List Scalar} (hitems : items ≠ [])
    {rest : List OutputWord} (hrest : ∀ later, rest ≠ .comma :: later) :
    readList item? ((items.map word).intersperse .comma ++ rest) = some (items, rest) := by
  induction items with
  | nil => exact absurd rfl hitems
  | cons e items ih =>
    cases items with
    | nil =>
      have hlast : readList item? (word e :: rest) = (item? (word e)).map fun e => ([e], rest) := by
        cases rest with
        | nil => rfl
        | cons first later =>
          cases first with
          | comma => exact absurd rfl (hrest later)
          | _ => rfl
      exact hlast.trans (by rw [hword, Option.map_some])
    | cons other items =>
      have hmore := ih (List.cons_ne_nil _ _)
      change ((item? (word e)).bind fun e => (readList item?
        (((other :: items).map word).intersperse .comma ++ rest)).bind fun (es, left) =>
          some (e :: es, left)) = _
      rw [hword, hmore]
      rfl

/-- A clause is read as its values with targets, with as many columns to go into as there are values
alone if it has any, and as a clause that lists nothing if it has only these. -/
theorem readOutput_words (o : OutputClause) (place : OutputStyle) (ho : o.isEmpty = false) :
    readOutput (o.words place) =
      if o.items = [] then none else some ⟨o.values, o.into.map fun t => (t, o.intoTargets)⟩ := by
  have hvalues : ∀ word ∈ o.values.map OutputWord.value, word.isRead = true := by
    intro word hword
    obtain ⟨e, -, rfl⟩ := List.mem_map.mp hword
    rfl
  have htargets : ∀ word ∈ o.intoTargets.map OutputWord.target, word.isRead = true := by
    intro word hword
    obtain ⟨e, -, rfl⟩ := List.mem_map.mp hword
    rfl
  have hsome : o.intoTargets ≠ [] := by
    rw [OutputClause.intoTargets]
    simp only [OutputClause.isEmpty, Bool.and_eq_false_iff, List.isEmpty_eq_false_iff] at ho
    split
    · next hcolumns => simpa [List.isEmpty_iff.mp hcolumns] using ho
    · next hcolumns => exact mt List.isEmpty_iff.mpr hcolumns
  -- What follows the values, with nothing that spaces it.
  obtain ⟨behind, hbehind⟩ : ∃ behind, behind =
      ((o.into.map fun t => intoWords t o.intoTargets).getD []).filter OutputWord.isRead := ⟨_, rfl⟩
  have hinto : behind = (o.into.map fun t => OutputWord.into t :: .opening ::
      ((o.intoTargets.map OutputWord.target).intersperse .comma ++ [.closing])).getD [] := by
    rw [hbehind, ← filter_indentedWords htargets]
    cases o.into with
    | none => rfl
    | some t =>
      change .into t :: .opening :: (indentedWords _ ++ _).filter OutputWord.isRead = _
      rw [List.filter_append]
      rfl
  have hread : readOutput (o.words place) = (readList OutputWord.value?
      ((o.values.map OutputWord.value).intersperse .comma ++ behind)).bind fun (values, left) =>
        readInto values left := by
    have hfilter : (o.words place).filter OutputWord.isRead = .keyword place ::
        ((o.values.map OutputWord.value).intersperse .comma ++ behind) := by
      rw [← filter_indentedWords hvalues, hbehind, ← List.filter_append]
      rfl
    rw [readOutput, hfilter]
    rfl
  have hcomma : ∀ later, behind ≠ .comma :: later := by
    intro later
    rw [hinto]
    cases o.into <;> simp
  rw [hread]
  split
  · next hitems =>
    rw [OutputClause.values, hitems, hinto]
    cases o.into <;> rfl
  · next hitems =>
    have hvalues : o.values ≠ [] := by simpa [OutputClause.values] using hitems
    rw [readList_intersperse (fun _ => rfl) hvalues hcomma, Option.bind_some, hinto]
    cases o.into with
    | none => rfl
    | some t =>
      change (match readList OutputWord.target? _ with
        | some (targets, [.closing]) => some (⟨o.values, some (t, targets)⟩ : OutputText)
        | _ => none) = _
      rw [readList_intersperse (fun _ => rfl) hsome (by simp)]
      rfl

/-! ## Where a clause is printed -/

/-- A place for the words of an output clause: the steps before and behind it, and the frame in which
it is printed. -/
structure OutputSite where
  before : Print Unit
  after : Print Unit
  scope : Frame → Frame
  keeps : ∀ frame, (scope frame).provider = frame.provider ∧ (scope frame).store = frame.store

/-- Print words in a place. -/
def OutputSite.print (site : OutputSite) (next : NextLevel) (words : List OutputWord) :
    Print Unit := do
  site.before
  withReader site.scope (printOutputWords next words)
  site.after

/-- In a frame, a step prints output clauses in a place, the same one for all of them. -/
def OutputSite.Fits (site : OutputSite) (next : NextLevel) (frame : Frame)
    (act : OutputClause → Print Unit) : Prop :=
  ∀ o : OutputClause, o.isEmpty = false →
    act o frame = site.print next (o.words frame.dialect.outputStyle) frame

/-- A step prints each output clause once. -/
abbrev PrintsOnce (next : NextLevel) (frame : Frame) (act : OutputClause → Print Unit) : Prop :=
  ∃ site : OutputSite, site.Fits next frame act

theorem usedOutput?_some {o : OutputClause} (ho : o.isEmpty = false) :
    usedOutput? (some o) = some o := by
  simp [usedOutput?, Option.filter, ho]

/-- A clause is printed word by word. -/
theorem printOutputWords_words (next : NextLevel) (o : OutputClause) (place : OutputStyle) :
    printOutputWords next (o.words place) = (do
      printClause (if place == .returning then "RETURNING" else "OUTPUT")
        (o.items.map fun item => printScalar next (item.value.getD item.target))
      printOutputWords next ((o.into.map fun t => intoWords t o.intoTargets).getD [])) := by
  simp [OutputClause.words, OutputClause.values, printOutputWords, printOutputWords_append,
    printOutputWords_indented, OutputWord.print, Layout.print, printClause, Print.indentedLine,
    Print.line, Function.comp_def]

/-- In one place the clause is printed. -/
theorem printOutput_here {next : NextLevel} {frame : Frame} {o : OutputClause} {place : OutputStyle}
    (ho : o.isEmpty = false) (hplace : (frame.dialect.outputStyle == place) = true) :
    printOutput next (some o) place frame = printOutputWords next (o.words place) frame := by
  rw [printOutputWords_words]
  rw [printOutput, read_bind, usedOutput?_some ho]
  dsimp only
  rw [if_pos hplace]
  refine seq_congr rfl ?_
  cases o.into with
  | none => rfl
  | some t =>
    dsimp only [Option.map_some, Option.getD_some]
    rw [printOutputWords_into, OutputClause.intoTargets]

/-- In the other place nothing is printed. -/
theorem printOutput_elsewhere {next : NextLevel} {frame : Frame} {place : OutputStyle}
    (hplace : (frame.dialect.outputStyle == place) = false) (output : Option OutputClause) :
    printOutput next output place frame = (pure () : Print Unit) frame := by
  rw [printOutput, read_bind]
  cases usedOutput? output with
  | none => rfl
  | some o =>
    dsimp only
    rw [hplace]
    rfl

namespace PrintsOnce

variable {next : NextLevel} {frame : Frame} {act act' : OutputClause → Print Unit}

theorem congr (h : PrintsOnce next frame act')
    (heq : ∀ o : OutputClause, o.isEmpty = false → act o frame = act' o frame) :
    PrintsOnce next frame act := by
  obtain ⟨site, hsite⟩ := h
  exact ⟨site, fun o ho => (heq o ho).trans (hsite o ho)⟩

theorem here {place : OutputStyle} (hplace : frame.dialect.outputStyle = place) :
    PrintsOnce next frame fun o => printOutput next (some o) place := by
  refine ⟨⟨pure (), pure (), id, fun _ => ⟨rfl, rfl⟩⟩, fun o ho => ?_⟩
  refine (printOutput_here ho (beq_iff_eq.mpr hplace)).trans ?_
  rw [hplace]
  simp only [OutputSite.print, pure_bind]
  exact (bind_pure (printOutputWords next _ frame)).symm

theorem after (first : Print Unit) (h : PrintsOnce next frame act) :
    PrintsOnce next frame fun o => (do first; act o) := by
  obtain ⟨site, hsite⟩ := h
  refine ⟨{ site with before := do first; site.before }, fun o ho => ?_⟩
  refine (seq_congr rfl (hsite o ho)).trans ?_
  simp [OutputSite.print]

theorem before (h : PrintsOnce next frame act) (last : Print Unit)
    {rest : OutputClause → Print Unit}
    (hrest : ∀ o : OutputClause, o.isEmpty = false → rest o frame = last frame) :
    PrintsOnce next frame fun o => (do act o; rest o) := by
  obtain ⟨site, hsite⟩ := h
  refine ⟨{ site with after := do site.after; last }, fun o ho => ?_⟩
  refine (seq_congr (hsite o ho) (hrest o ho)).trans ?_
  simp [OutputSite.print]

theorem withReader {f : Frame → Frame}
    (hf : ∀ frame, (f frame).provider = frame.provider ∧ (f frame).store = frame.store)
    (h : PrintsOnce next (f frame) act) :
    PrintsOnce next frame fun o => MonadWithReader.withReader f (act o) := by
  obtain ⟨site, hsite⟩ := h
  refine ⟨⟨MonadWithReader.withReader f site.before, MonadWithReader.withReader f site.after,
    fun frame => site.scope (f frame), fun frame => ?_⟩, fun o ho => ?_⟩
  · exact ⟨(site.keeps _).1.trans (hf frame).1, (site.keeps _).2.trans (hf frame).2⟩
  · have hstyle : (f frame).dialect = frame.dialect := by
      rw [Frame.dialect, Frame.dialect, (hf frame).1]
    rw [← hstyle]
    exact hsite o ho

/-- What follows a look at the frame. -/
theorem reading {act : Frame → OutputClause → Print Unit} (h : PrintsOnce next frame (act frame)) :
    PrintsOnce next frame fun o => (do act (← read) o) := h

theorem throws (e : SqlError) : PrintsOnce next frame fun _ => throw e :=
  ⟨⟨throw e, pure (), id, fun _ => ⟨rfl, rfl⟩⟩, fun _ _ => rfl⟩

end PrintsOnce

/-! ## Modifications -/

/-- An output clause is accepted where the dialect has one. -/
theorem checkOutput_supported {frame : Frame} (hstyle : frame.dialect.outputStyle ≠ .unsupported)
    (output : Option OutputClause) : checkOutput output frame = (pure () : Print Unit) frame := by
  unfold checkOutput
  change (if ((usedOutput? output).isSome && frame.dialect.outputStyle == .unsupported) = true then _
    else _ : Print Unit) frame = _
  rw [beq_eq_false_iff_ne.mpr hstyle, Bool.and_false]
  rfl

/-- What is read back of a generated identity is the same beside all output clauses. -/
theorem printIdentity_eq (into : TableRef) {o : OutputClause} (ho : o.isEmpty = false)
    (o' : OutputClause) (ho' : o'.isEmpty = false) : printIdentity into (some o) = printIdentity into (some o') := by
  simp only [printIdentity, usedOutput?_some ho, usedOutput?_some ho', Option.isNone_some]

/-- The frame of what follows the rows of an insert. -/
def Frame.behindRows (q : Query) (frame : Frame) : Frame :=
  if q.sources.isEmpty then frame else frame.naming q

theorem Frame.behindRows_keeps (q : Query) (frame : Frame) :
    (frame.behindRows q).provider = frame.provider ∧ (frame.behindRows q).store = frame.store := by
  unfold Frame.behindRows
  split <;> exact ⟨rfl, rfl⟩

/-- Print the rows of an insert, and what is read back of a generated identity. -/
def printInsertedRows (next : NextLevel) (query : QueryRef) (q : Query) (insert : InsertClause)
    (into : TableRef) (output : Option OutputClause) : Print Unit := do
  if !q.sources.isEmpty then printQuery next query
  else if !insert.items.isEmpty then printValues next insert.items
  withReader (Frame.behindRows q) do
    if insert.withIdentity then printIdentity into output

/-- An insert ends with what is behind its rows. -/
theorem printInsert_end (next : NextLevel) (query : QueryRef) (q : Query) (insert : InsertClause)
    (into : TableRef) (output : Option OutputClause) : (do
      let readsRows := !q.sources.isEmpty
      if readsRows then printQuery next query
      else if !insert.items.isEmpty then printValues next insert.items
      withReader (fun frame => if readsRows then frame.naming q else frame) do
        if insert.withIdentity then printIdentity into output
        printOutput next output .returning : Print Unit) = (do
      printInsertedRows next query q insert into output
      withReader (Frame.behindRows q) (printOutput next output .returning)) := by
  obtain ⟨_, items, withIdentity⟩ := insert
  have hscope : (fun frame : Frame => if !q.sources.isEmpty then frame.naming q else frame) =
      Frame.behindRows q := by
    funext frame
    unfold Frame.behindRows
    cases q.sources.isEmpty <;> rfl
  simp only [hscope, printInsertedRows]
  cases withIdentity <;> cases q.sources.isEmpty <;> cases items.isEmpty <;>
    simp only [Bool.not_true, Bool.not_false, Bool.false_eq_true, if_true, if_false, bind_assoc] <;>
    rfl

/-- Looking for the target of a modification gives a result that does not depend on the page. -/
theorem writtenSource_outcome (q : Query) (table : Option TableRef) (frame : Frame) :
    (∃ found, writtenSource q table frame = (pure found : Print (Source × List Source)) frame) ∨
      ∃ e, writtenSource q table frame = (throw e : Print (Source × List Source)) frame := by
  cases table with
  | some t =>
    cases htake : takeSource? (.table t) q.sources with
    | some found => exact .inl ⟨found, by simp only [writtenSource, htake]; rfl⟩
    | none => exact .inr ⟨_, by simp only [writtenSource, htake]; rfl⟩
  | none =>
    cases hsources : q.sources with
    | cons first rest => exact .inl ⟨(first, rest), by simp only [writtenSource, hsources]; rfl⟩
    | nil => exact .inr ⟨_, by simp only [writtenSource, hsources]; rfl⟩

/-- A modification goes on with its target, if it is found. -/
theorem PrintsOnce.ofTarget {next : NextLevel} {frame : Frame} {q : Query}
    {table : Option TableRef} {act : Source × List Source → OutputClause → Print Unit}
    (h : ∀ found, PrintsOnce next frame (act found)) :
    PrintsOnce next frame fun o => (do act (← writtenSource q table) o) := by
  rcases writtenSource_outcome q table frame with ⟨found, hfound⟩ | ⟨e, he⟩
  · refine (h found).congr fun o _ => ?_
    change (writtenSource q table frame >>= fun found => act found o frame) = _
    rw [hfound]
    rfl
  · refine (PrintsOnce.throws e).congr fun o _ => ?_
    change (writtenSource q table frame >>= fun found => act found o frame) = _
    rw [he]
    rfl

/-- A modification goes on, if it is not refused. -/
theorem PrintsOnce.unless {next : NextLevel} {frame : Frame} {act : OutputClause → Print Unit}
    (c : Bool) (refuse : Print Unit) (h : PrintsOnce next frame act) :
    PrintsOnce next frame fun o => (do
      if c then refuse
      act o) := by
  cases c with
  | false => exact h
  | true => exact h.after refuse

section

variable {next : NextLevel} {frame : Frame} (hstyle : frame.dialect.outputStyle ≠ .unsupported)
include hstyle

theorem PrintsOnce.checked {act : OutputClause → Print Unit} (h : PrintsOnce next frame act) :
    PrintsOnce next frame fun o => (do checkOutput (some o); act o) :=
  h.congr fun _ _ => (seq_congr (checkOutput_supported hstyle _) rfl).trans rfl

/-- One of the two places for a clause is used, of which the second one may be in another frame. -/
theorem PrintsOnce.eitherPlace {f : Frame → Frame}
    (hf : ∀ frame, (f frame).provider = frame.provider ∧ (f frame).store = frame.store)
    {middle : OutputClause → Print Unit} {middle' : Print Unit}
    (hmiddle : ∀ o : OutputClause, o.isEmpty = false → middle o frame = middle' frame) :
    PrintsOnce next frame fun o => (do
      printOutput next (some o) .output
      middle o
      MonadWithReader.withReader f (printOutput next (some o) .returning)) := by
  have hdialect : (f frame).dialect = frame.dialect := by
    rw [Frame.dialect, Frame.dialect, (hf frame).1]
  cases hplace : frame.dialect.outputStyle with
  | unsupported => exact absurd hplace hstyle
  | output =>
    refine (here hplace).before middle' fun o ho => ?_
    have hnone : (MonadWithReader.withReader f (printOutput next (some o) .returning) :
        Print Unit) frame = (pure () : Print Unit) frame :=
      printOutput_elsewhere (by rw [hdialect, hplace]; rfl) (some o)
    refine (seq_congr (hmiddle o ho) hnone).trans ?_
    exact bind_pure (middle' frame)
  | returning =>
    refine (((here (hdialect ▸ hplace)).withReader hf).after middle').congr fun o ho => ?_
    have hnone : printOutput next (some o) .output frame = (pure () : Print Unit) frame :=
      printOutput_elsewhere (by rw [hplace]; rfl) (some o)
    exact (seq_congr hnone (seq_congr (hmiddle o ho) rfl)).trans rfl

theorem printInsert_printsOnce (query : QueryRef) (insert : InsertClause) :
    PrintsOnce next frame fun o => printInsert next query insert (some o) := by
  refine PrintsOnce.checked hstyle ?_
  cases hinto : insert.into with
  | none =>
    refine (PrintsOnce.throws (.resolution "Insert target table is not set.")).congr fun o _ => ?_
    rw [insertTarget, hinto]
    rfl
  | some t =>
    simp only [insertTarget, hinto, pure_bind]
    refine .after _ ?_
    have hmiddle (o : OutputClause) (ho : o.isEmpty = false) :
        printInsertedRows next query (frame.store.query query) insert t (some o) frame =
          printInsertedRows next query (frame.store.query query) insert t
            (some { columns := [default] }) frame := by
      simp only [printInsertedRows, printIdentity_eq t ho { columns := [default] } rfl]
    refine (PrintsOnce.eitherPlace hstyle (Frame.behindRows_keeps (frame.store.query query))
      hmiddle).congr fun o _ => seq_congr rfl ?_
    exact congrFun (printInsert_end next query _ insert t (some o)) frame

/-- A clause is in front of the sources and the filter of a modification or behind them. -/
theorem PrintsOnce.around (c : Bool) (sources filter : Print Unit) :
    PrintsOnce next frame fun o => (do
      printOutput next (some o) .output
      if c then sources
      filter
      printOutput next (some o) .returning) := by
  have hmiddle (middle : Print Unit) : PrintsOnce next frame fun o => (do
      printOutput next (some o) .output
      middle
      printOutput next (some o) .returning) :=
    PrintsOnce.eitherPlace hstyle (f := id) (fun _ => ⟨rfl, rfl⟩) fun _ _ =>
      (rfl : middle frame = middle frame)
  cases c with
  | false => exact hmiddle filter
  | true =>
    refine (hmiddle (do sources; filter)).congr fun o _ => seq_congr rfl ?_
    rw [bind_assoc]
    rfl

theorem printUpdate_printsOnce (query : QueryRef) (update : UpdateClause) :
    PrintsOnce next frame fun o => printUpdate next query update (some o) := by
  have hentered : (frame.entering query).dialect.outputStyle ≠ .unsupported := hstyle
  refine .checked hstyle (.reading (.ofTarget fun (target, others) => ?_))
  refine .unless _ _ (.withReader (fun _ => ⟨rfl, rfl⟩) (.after _ (.after _ ?_)))
  exact .around hentered _ _ _

theorem printDelete_printsOnce (query : QueryRef) (table : Option TableRef) (top : Option Scalar) :
    PrintsOnce next frame fun o => printDelete next query table top (some o) := by
  have hentered : (frame.entering query).dialect.outputStyle ≠ .unsupported := hstyle
  refine .checked hstyle (.reading (.ofTarget fun (target, others) => ?_))
  refine .unless _ _ (.withReader (fun _ => ⟨rfl, rfl⟩) (.after _ (.after _ (.after _ ?_))))
  have hend : PrintsOnce next (frame.entering query) _ := .around hentered true
    (printSources next (frame.store.query query).sources)
    (printConditionClause next "WHERE" (frame.store.query query).whereClause)
  dsimp only
  split
  · exact .after _ (.after _ (.after _ hend))
  · exact .after _ hend

/-- The clause of a merge is behind its branches. -/
theorem printMergeBody_printsOnce (target source : Source) (on : Condition)
    (operations : List MergeOperation) (hint : Option String) :
    PrintsOnce next frame fun o => printMergeBody next target source on operations (some o) hint := by
  have hend : PrintsOnce next frame fun o => (do
      printOutput next (some o) .output
      printOutput next (some o) .returning
      Print.text frame.dialect.mergeTerminator) := by
    refine ((PrintsOnce.around hstyle false (pure ()) (pure ())).before
      (Print.text frame.dialect.mergeTerminator) fun _ _ => rfl).congr fun o _ => ?_
    simp only [bind_assoc, pure_bind]
    rfl
  have hbranches : PrintsOnce next frame fun o => (do
      Print.newline
      Print.text "USING "
      source.print next
      Print.newline
      Print.text "ON "
      Print.parenthesized true (on.print next .unknown false)
      Print.newline
      operations.forM (printMergeOperation next)
      printOutput next (some o) .output
      printOutput next (some o) .returning
      Print.text frame.dialect.mergeTerminator) :=
    .after _ (.after _ (.after _ (.after _ (.after _ (.after _ (.after _ (.after _ hend)))))))
  refine .reading (.after _ ?_)
  cases hint with
  | none => exact .after _ (.after _ hbranches)
  | some hint => exact .unless _ _ (.after _ (.after _ (.unless _ _ hbranches)))

theorem printMerge_printsOnce (query : QueryRef) (on : Condition) (operations : List MergeOperation)
    (hint : Option String) :
    PrintsOnce next frame fun o => printMerge next query on operations (some o) hint := by
  have hentered : (frame.entering query).dialect.outputStyle ≠ .unsupported := hstyle
  refine .reading (.unless _ _ (.unless _ _ (.checked hstyle ?_)))
  split
  · exact .withReader (fun _ => ⟨rfl, rfl⟩) (printMergeBody_printsOnce hentered _ _ on operations hint)
  · exact .throws _

end

/-! ## Statements -/

/-- The same modification with another output clause. -/
def StatementBody.handingBack (o : OutputClause) : StatementBody → StatementBody
  | insert clause _ => .insert clause (some o)
  | update clause _ => .update clause (some o)
  | delete table top _ => .delete table top (some o)
  | merge on operations _ hint => .merge on operations (some o) hint
  | other => other

@[inherit_doc StatementBody.handingBack]
def Statement.handingBack (statement : Statement) (o : OutputClause) : Statement :=
  { statement with body := statement.body.handingBack o }

theorem Statement.handingBack_self {statement : Statement} {o : OutputClause}
    (ho : statement.body.output? = some o) : statement.handingBack o = statement := by
  obtain ⟨body, _, _, _, _, _⟩ := statement
  cases body with
  | insert clause output | update clause output | delete table top output
  | merge on operations output hint =>
    obtain rfl : output = some o := ho
    rfl
  | _ => cases ho

/-- A modification prints its output clause once, and nothing else in it depends on the clause. -/
theorem printStatementBody_printsOnce {next : NextLevel} {frame : Frame} {statement : Statement}
    (hstyle : frame.dialect.outputStyle ≠ .unsupported)
    (houtput : statement.body.output?.isSome = true) :
    PrintsOnce next frame fun o => printStatementBody next (statement.handingBack o) := by
  obtain ⟨body, query, _, _, _, _⟩ := statement
  cases body with
  | insert clause output => exact printInsert_printsOnce hstyle query clause
  | update clause output => exact printUpdate_printsOnce hstyle query clause
  | delete table top output => exact printDelete_printsOnce hstyle query table top
  | merge on operations output hint => exact printMerge_printsOnce hstyle query on operations hint
  | _ => cases houtput

/-- A clause is only accepted where the dialect has one. -/
theorem checkOutput_forces {provider : Provider} {store : Store} {o : OutputClause}
    (ho : o.isEmpty = false) :
    Print.Forces provider store (provider.dialect.outputStyle ≠ .unsupported)
      (checkOutput (some o)) := by
  intro frame hprovider _ page result hrun hstyle
  unfold checkOutput at hrun
  change (if ((usedOutput? (some o)).isSome && frame.dialect.outputStyle == .unsupported) = true then
    _ else _ : Print Unit) frame page = _ at hrun
  have hdialect : frame.dialect = provider.dialect := by rw [Frame.dialect, hprovider]
  rw [usedOutput?_some ho, hdialect, hstyle] at hrun
  cases hrun

/-- A modification with an output clause is refused where the dialect has none. -/
theorem printStatementBody_forces {provider : Provider} {store : Store} {next : NextLevel}
    {statement : Statement} {o : OutputClause} (ho : o.isEmpty = false)
    (houtput : statement.body.output? = some o) :
    Print.Forces provider store (provider.dialect.outputStyle ≠ .unsupported)
      (printStatementBody next statement) := by
  obtain ⟨body, query, _, _, _, _⟩ := statement
  cases body with
  | insert clause output | update clause output | delete table top output =>
    obtain rfl : output = some o := houtput
    exact .first (checkOutput_forces ho)
  | merge on operations output hint =>
    obtain rfl : output = some o := houtput
    refine .read fun frame _ _ => .ite (.first (.unsupported _)) (.ite ?_ ?_)
    · exact .first (.unsupported _)
    · exact .first (checkOutput_forces ho)
  | _ => cases houtput

/-! ## Legalized statements -/

/-- Two clauses with the same targets and as many values alone. -/
structure OutputClause.SameForm (o o' : OutputClause) : Prop where
  targets : o'.items.map (·.target) = o.items.map (·.target)
  columns : o'.columns.length = o.columns.length
  into : o'.into = o.into

theorem OutputClause.SameForm.isEmpty {o o' : OutputClause} (h : o.SameForm o') :
    o'.isEmpty = o.isEmpty := by
  have hitems : o'.items.length = o.items.length := by simpa using congrArg List.length h.targets
  rw [Bool.eq_iff_iff]
  simp only [OutputClause.isEmpty, Bool.and_eq_true, List.isEmpty_iff, ← List.length_eq_zero_iff,
    hitems, h.columns]

theorem OutputClause.sameForm_output (w : Transformer) (o : OutputClause) :
    o.SameForm (w.output o) where
  targets := by simp [Transformer.output, Transformer.assignments, Function.comp_def]
  columns := by simp [Transformer.output, Transformer.scalars_eq_map]
  into := rfl

namespace Store

variable {s s' s'' : Store} {p : Provider} {t : StatementRef}

/-- A statement hands back a clause of the same form. -/
def KeepsOutput (s s' : Store) (t : StatementRef) : Prop :=
  ∀ o, (s.statement t).body.output? = some o →
    ∃ o', (s'.statement t).body.output? = some o' ∧ o.SameForm o'

theorem KeepsOutput.trans (h : s.KeepsOutput s' t) (h' : s'.KeepsOutput s'' t) :
    s.KeepsOutput s'' t := by
  intro o ho
  obtain ⟨o', ho', hform⟩ := h o ho
  obtain ⟨o'', ho'', hform'⟩ := h' o' ho'
  exact ⟨o'', ho'', hform'.targets.trans hform.targets, hform'.columns.trans hform.columns,
    hform'.into.trans hform.into⟩

theorem KeepsOutput.ofStatements (h : s'.statements = s.statements) : s.KeepsOutput s' t := by
  intro o ho
  rw [statement, h]
  exact ⟨o, ho, rfl, rfl, rfl⟩

/-- A statement is replaced by one that hands back transformed values. -/
theorem KeepsOutput.modifyStatement {f : Statement → Statement} (w : Transformer)
    (h : s'.statements = s.statements)
    (hf : (f (s.statement t)).body.output? = (s.statement t).body.output?.map w.output) :
    s.KeepsOutput (s'.modifyStatement t f) t := by
  intro o ho
  have hlt : t.index < s'.statements.size := by
    rw [h]
    exact lt_of_body_ne fun hselect => by rw [hselect] at ho; cases ho
  have hsame : s'.statement t = s.statement t := by rw [statement, h]; rfl
  rw [statement_modifyStatement f hlt, hsame, hf, ho]
  exact ⟨w.output o, rfl, o.sameForm_output w⟩

theorem output?_body (w : Transformer) (body : StatementBody) :
    (w.body body).output? = body.output?.map w.output := by
  cases body <;> rfl

theorem keepsOutput_splitDelete {table : Option TableRef} {top : Option Scalar}
    {output : Option OutputClause} (hbody : (s.statement t).body = .delete table top output)
    (h : s.splitDelete t = (.ok (), s')) : s.KeepsOutput s' t := by
  simp only [splitDelete, hbody] at h
  split at h
  · obtain rfl := (Prod.mk.inj h).2
    exact .ofStatements rfl
  · split at h
    · cases h
    · obtain rfl := (Prod.mk.inj h).2
      exact .modifyStatement _ (rebase_keeps s _ _).1 (by rw [hbody]; rfl)

theorem keepsOutput_splitUpdate {update : UpdateClause} {output : Option OutputClause}
    (hbody : (s.statement t).body = .update update output)
    (h : s.splitUpdate t = (.ok (), s')) : s.KeepsOutput s' t := by
  simp only [splitUpdate, hbody] at h
  split at h
  · obtain rfl := (Prod.mk.inj h).2
    exact .ofStatements rfl
  · split at h
    · cases h
    · obtain rfl := (Prod.mk.inj h).2
      exact .modifyStatement (fieldRenaming _)
        ((rebaseItems_keeps _ _ _ _ _).1.trans (rebase_keeps s _ _).1) (by rw [hbody]; rfl)

theorem keepsOutput_flattenUpdate {update : UpdateClause} {output : Option OutputClause}
    (hbody : (s.statement t).body = .update update output)
    (h : s.flattenUpdate t = (.ok (), s')) : s.KeepsOutput s' t := by
  simp only [flattenUpdate, hbody] at h
  split at h
  · obtain rfl := (Prod.mk.inj h).2
    exact .ofStatements rfl
  · split at h
    · exact keepsOutput_splitUpdate hbody h
    · obtain rfl := (Prod.mk.inj h).2
      exact .ofStatements rfl

theorem keepsOutput_restructureDml {rules : Capabilities}
    (h : s.restructureDml rules t = (.ok (), s')) : s.KeepsOutput s' t := by
  unfold restructureDml at h
  split at h
  · obtain rfl := (Prod.mk.inj h).2
    exact .ofStatements rfl
  · split at h
    · next hbody => exact keepsOutput_splitDelete hbody h
    · next hbody =>
      split at h
      · exact keepsOutput_flattenUpdate hbody h
      · exact keepsOutput_splitUpdate hbody h
    · obtain rfl := (Prod.mk.inj h).2
      exact .ofStatements rfl

/-! ### Steps that change no statement -/

theorem statements_foldl {α : Type} {f : Store → α → Store}
    (hf : ∀ (s : Store) (a : α), (f s a).statements = s.statements) (items : List α) (s : Store) :
    (items.foldl f s).statements = s.statements := by
  induction items generalizing s with
  | nil => rfl
  | cons a rest ih => exact (ih _).trans (hf s a)

theorem statements_addColumn (s : Store) (q : QueryRef) (e : Scalar) (aliasName : Option String) :
    (s.addColumn q e aliasName).2.statements = s.statements := by
  unfold addColumn
  split <;> rfl

theorem statements_wrapBody (s : Store) (q : QueryRef) :
    (s.wrapBody q).2.statements = s.statements :=
  statements_foldl (f := fun s c => s.moveColumn _ c) (fun _ _ => rfl) _ _

theorem statements_projectOrder (s : Store) (inner : QueryRef) (items : List OrderItem) :
    (s.projectOrder inner items).2.statements = s.statements := by
  induction items generalizing s with
  | nil => rfl
  | cons item rest ih => exact (ih _).trans (statements_addColumn s inner _ _)

theorem statements_separateDistinct (s : Store) (t : StatementRef) :
    (s.separateDistinct t).statements = s.statements := by
  have hquery (s : Store) (q : QueryRef) : (s.separateDistinctOf q).statements = s.statements := by
    rw [separateDistinctOf]
    dsimp only [modifyQuery]
    rw [statements_projectOrder, statements_wrapBody]
  exact statements_foldl hquery _ s

theorem statements_numberRows (s : Store) (t : StatementRef) (onlySkip : Bool) :
    (s.numberRows t onlySkip).statements = s.statements := by
  have hquery (s : Store) (q : QueryRef) : (s.numberRowsOf q).statements = s.statements := by
    rw [numberRowsOf]
    dsimp only [modifyQuery, addFreshColumn]
    rw [statements_wrapBody]
  exact statements_foldl hquery _ s

theorem keepsOutput_restructured (h : s.restructured p t = (.ok (), s')) : s.KeepsOutput s' t := by
  have hseparated : s.KeepsOutput
      (if p.rules.pagingWithDistinct then s else s.separateDistinct t) t := by
    split
    · exact .ofStatements rfl
    · exact .ofStatements (statements_separateDistinct s t)
  unfold restructured at h
  refine hseparated.trans ?_
  dsimp only at h
  split at h
  · cases h
  · next rebuilt hrebuilt =>
    refine (keepsOutput_restructureDml hrebuilt).trans ?_
    obtain rfl := (Prod.mk.inj h).2
    split
    · exact .ofStatements (statements_foldl (f := orderForOffset) (fun _ _ => rfl) _ _)
    · exact .ofStatements (statements_numberRows _ t true)
    · exact .ofStatements rfl

theorem keepsOutput_legalizeExpressions : s.KeepsOutput (s.legalizeExpressions p t) t := by
  have hquery (transformer : Store → Transformer) (s : Store) (q : QueryRef) :
      (transformQuery transformer s q).statements = s.statements :=
    statements_foldl (f := transformColumn transformer) (fun _ _ => rfl) _ s
  exact .modifyStatement _ (statements_foldl (hquery _) _ s) (output?_body _ _)

theorem keepsOutput_finalizeAliases : s.KeepsOutput (s.finalizeAliases t) t := by
  refine .ofStatements ?_
  rw [(namesColumns_finalizeAliases s t).content]
  change (s.withNamedSources t).statements = s.statements
  rw [(namesSources_withNamedSources s t).content]

/-- A legalized statement hands back as many values under the same targets. -/
theorem keepsOutput_legalized {final : Store}
    (h : (legalizeStatement p t).runOn s = (.ok (), final)) : s.KeepsOutput final t := by
  obtain ⟨legal, hlegal, rfl⟩ := legalizeStatement_ok_iff.mp h
  exact ((keepsOutput_restructured hlegal).trans keepsOutput_legalizeExpressions).trans
    keepsOutput_finalizeAliases

end Store

/-! ## Complete clauses -/

/-- Everything that a clause asks for is handed back: words list one value for each, in order, there
are as many names, and as many columns of a table that the values go into. -/
def OutputClause.HandedBack (o : OutputClause) (words : List OutputWord) (names : List String) :
    Prop :=
  ∃ text, readOutput words = some text ∧ text.values = o.asked ∧
    names.length = o.asked.length ∧ ∀ t, o.into = some t →
      ∃ targets, text.into = some (t, targets) ∧ targets.length = o.asked.length

/-- There is a name for each value with a target. -/
theorem Frame.length_outputNames {frame : Frame} {statement : Statement} {o : OutputClause}
    (ho : o.isEmpty = false) (houtput : statement.body.output? = some o) :
    (frame.outputNames statement).length = o.items.length := by
  rw [Frame.outputNames, houtput, usedOutput?_some ho]
  simp

/-- Values alone are not handed back, and the others are. -/
theorem OutputClause.handedBack_iff {o : OutputClause} (ho : o.isEmpty = false)
    (place : OutputStyle) {names : List String} (hnames : names.length = o.items.length) :
    o.HandedBack (o.words place) names ↔ o.columns = [] := by
  rw [HandedBack, readOutput_words o place ho]
  constructor
  · rintro ⟨text, htext, hvalues, -, -⟩
    split at htext
    · cases htext
    · obtain rfl := Option.some.inj htext
      exact List.self_eq_append_right.mp hvalues
  · intro hcolumns
    have hitems : o.items ≠ [] := by
      rintro hitems
      rw [OutputClause.isEmpty, hitems, hcolumns] at ho
      cases ho
    have hasked : o.asked = o.values := by rw [asked, hcolumns, List.append_nil]
    have hlength : o.asked.length = o.items.length := by rw [hasked, values, List.length_map]
    rw [if_neg hitems]
    refine ⟨_, rfl, hasked.symm, hnames.trans hlength.symm, fun t ht => ⟨o.intoTargets, ?_, ?_⟩⟩
    · rw [ht, Option.map_some]
    · rw [hlength, intoTargets, hcolumns, List.isEmpty_nil, if_pos rfl, List.length_map]

/-! ## Compiled modifications -/

/-- The main command has the words of an output clause, in the place where the statement would have
those of any other clause. -/
def Rendered.HasOutput (rendered : Rendered) (p : Provider) (s : Store) (t : StatementRef)
    (words : List OutputWord) : Prop :=
  ∃ command, rendered.commands.head? = some command ∧
    ∃ frame fuel page, frame.provider = p ∧ frame.store = s ∧ ∃ site : OutputSite,
      site.Fits (NextLevel.within fuel) frame
        (fun o => printStatementBody (NextLevel.within fuel) ((s.statement t).handingBack o)) ∧
      printAround (NextLevel.within fuel) (s.statement t) (site.print (NextLevel.within fuel) words)
        frame frame.emptyPage = .ok ((), page) ∧ command.sql = page.writer.trimEnd.text

namespace Store

variable {s : Store} {p : Provider} {t : StatementRef}

theorem renderStatement_outputs {options : Options} {rendered : Rendered}
    (h : renderStatement p options s t = .ok rendered) :
    ∃ frame : Frame, rendered.outputs = frame.outputNames (s.statement t) := by
  unfold renderStatement at h
  cases hcommand : Frame.command { provider := p, store := s, options } t with
  | error e =>
    simp only [hcommand] at h
    cases h
  | ok result =>
    simp only [hcommand] at h
    obtain rfl := Except.ok.inj h
    exact ⟨_, rfl⟩

/-- What a compiled modification hands back.  Its legalized clause has the same targets and as many
values alone, and its words are printed once.  Everything that is asked for is handed back exactly if
there are no values alone. -/
theorem compileStatement_handsBack {options : Options} {final : Store} {rendered : Rendered}
    {o : OutputClause} (houtput : (s.statement t).body.output? = some o) (ho : o.isEmpty = false)
    (hrun : (compileStatement p options t).runOn s = (.ok rendered, final)) :
    ∃ legal, (final.statement t).body.output? = some legal ∧ o.SameForm legal ∧
      p.dialect.outputStyle ≠ .unsupported ∧
      rendered.HasOutput p final t (legal.words p.dialect.outputStyle) ∧
      rendered.outputs.length = o.items.length ∧
      (legal.HandedBack (legal.words p.dialect.outputStyle) rendered.outputs ↔ o.columns = []) := by
  obtain ⟨hlegal, hrender⟩ := compileStatement_ok hrun
  obtain ⟨legal, houtput', hform⟩ := keepsOutput_legalized hlegal o houtput
  have ho' : legal.isEmpty = false := hform.isEmpty.trans ho
  have hitems : legal.items.length = o.items.length := by
    simpa using congrArg List.length hform.targets
  obtain ⟨rendering, hnames⟩ := renderStatement_outputs hrender
  have hlength : rendered.outputs.length = legal.items.length := by
    rw [hnames, Frame.length_outputNames ho' houtput']
  obtain ⟨command, hcommand, frame, fuel, page, hprovider, hstore, hprint, hsql⟩ :=
    printStatement_of_command hrender
  change printAround _ _ (printStatementBody _ _) _ _ = _ at hprint
  obtain ⟨before, after, hbody, hreplace⟩ := printAround_ok hprint
  have hstyle : p.dialect.outputStyle ≠ .unsupported :=
    printStatementBody_forces ho' houtput' frame hprovider hstore before _ hbody
  have hdialect : frame.dialect = p.dialect := by rw [Frame.dialect, hprovider]
  have honce : PrintsOnce (.within fuel) frame fun o =>
      printStatementBody (.within fuel) ((final.statement t).handingBack o) :=
    printStatementBody_printsOnce (hdialect ▸ hstyle) (by rw [houtput']; rfl)
  obtain ⟨site, hsite⟩ := honce
  have hwords := hsite legal ho'
  dsimp only at hwords
  rw [Statement.handingBack_self houtput', hdialect] at hwords
  refine ⟨legal, houtput', hform, hstyle, ⟨command, hcommand, frame, fuel, page, hprovider, hstore,
    site, hsite, hreplace _ (congrFun hwords before ▸ hbody), hsql⟩, hlength.trans hitems, ?_⟩
  rw [legal.handedBack_iff ho' _ hlength, ← List.length_eq_zero_iff, hform.columns,
    List.length_eq_zero_iff]

/-- Ids and ages of people, as values alone. -/
def idsAndAges : OutputClause := { columns := [.field ⟨0⟩, .field ⟨1⟩] }

/-- People that are removed, of whom the ids and ages are asked for. -/
def removedPeople : Store where
  tables := #[{ name := { name := "Person" }, fields := [⟨0⟩, ⟨1⟩] }]
  fields := #[{ (default : Field) with name := "Id", physicalName := "Id" },
    { (default : Field) with name := "Age", physicalName := "Age" }]
  queries := #[{ sources := [.ofTable ⟨0⟩] }]
  statements := #[{ body := .delete none none (some idsAndAges), query := ⟨0⟩ }]

/-- Whether they can be removed. -/
def compilesRemovedPeople : Bool :=
  match (compileStatement (.ofDialect .postgreSql) {} ⟨0⟩).runOn removedPeople with
  | (.ok _, _) => true
  | (.error _, _) => false

/-- Nothing is handed back of them. -/
theorem compileStatement_handsBack_removedPeople : ∃ rendered final legal,
    (compileStatement (.ofDialect .postgreSql) {} ⟨0⟩).runOn removedPeople = (.ok rendered, final) ∧
      (final.statement ⟨0⟩).body.output? = some legal ∧ legal.columns.length = 2 ∧
        rendered.HasOutput (.ofDialect .postgreSql) final ⟨0⟩ (legal.words .returning) ∧
          rendered.outputs = [] ∧ ¬legal.HandedBack (legal.words .returning) rendered.outputs := by
  have hcompiles : compilesRemovedPeople = true := by decide +kernel
  unfold compilesRemovedPeople at hcompiles
  split at hcompiles
  · next rendered final hrun =>
    obtain ⟨legal, houtput, hform, -, hwords, hnames, hcomplete⟩ :=
      compileStatement_handsBack (o := idsAndAges) rfl rfl hrun
    exact ⟨rendered, final, legal, hrun, houtput, hform.columns, hwords,
      List.length_eq_zero_iff.mp hnames, fun h => List.cons_ne_nil _ _ (hcomplete.mp h)⟩
  · cases hcompiles

end Store

end SqlCompiler
