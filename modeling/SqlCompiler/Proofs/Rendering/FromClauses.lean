import Mathlib.Data.List.Perm.Basic
import SqlCompiler.Proofs.Joins.Sources
import SqlCompiler.Proofs.Reading.Grouping

/-!
# The words of `FROM` clauses

A `FROM` clause is printed as a row of words: sources, keywords of joins, and the conditions on which
sources are joined, where the sources that are joined to a source stand before its own condition.

Main results:

- Definition `Query.attached`: the sources of a query, each with the way it is joined.
- Definition `FromWord`: the words of a clause, with the reader `readClause`.
- Theorem `printSources_words`: a clause is printed word by word.
- Theorem `readClause_fromWords`: a clause is read as its sources, each with its condition.
-/

namespace SqlCompiler

/-! ## Sources with their joins -/

/-- A source with the way it is joined to the sources before it, if it is. -/
structure JoinedSource where
  item : SourceItem
  aliasName : Option String
  join : Option (JoinKind × Condition)

/-- What is printed of it: the condition of an `APPLY` is not. -/
def JoinedSource.asPrinted (x : JoinedSource) : JoinedSource :=
  { x with join := x.join.map fun (kind, c) => (kind, if kind.isApply then .empty else c) }

mutual

/-- The sources of a tree, each with the way it is joined. -/
def Source.attached (join : Option (JoinKind × Condition)) : Source → List JoinedSource
  | ⟨item, aliasName, joins⟩ => ⟨item, aliasName, join⟩ :: attachedJoins joins
termination_by structural source => source

/-- The sources of a join. -/
def Join.attached : Join → List JoinedSource
  | ⟨kind, source, condition⟩ => source.attached (some (kind, condition))
termination_by structural join => join

/-- The sources of a list of joins. -/
def attachedJoins : List Join → List JoinedSource
  | [] => []
  | join :: rest => join.attached ++ attachedJoins rest
termination_by structural joins => joins

end

/-- The sources of a query, each with the way it is joined. -/
def Query.attached (q : Query) : List JoinedSource := q.sources.flatMap (Source.attached none)

/-! ## Words of a `FROM` clause -/

/-- What is printed between words. -/
inductive Layout where
  | newline | indentation | deeper | shallower
  deriving DecidableEq, Repr

/-- A word of a `FROM` clause. -/
inductive FromWord where
  | layout (step : Layout)
  | comma
  | crossJoin
  | join (kind : JoinKind)
  | source (item : SourceItem) (aliasName : Option String)
  | on (condition : Condition)

def Layout.print : Layout → Print Unit
  | newline => Print.newline
  | indentation => Print.indentation
  | deeper => Print.deeper
  | shallower => Print.shallower

/-- Print a word. -/
def FromWord.print (next : NextLevel) : FromWord → Print Unit
  | layout step => step.print
  | comma => Print.text ",\n"
  | crossJoin => Print.text "CROSS JOIN "
  | join kind => do
    if kind.isApply then
      if !(← read).capabilities.applyJoin then Print.unsupported kind.keyword
    Print.text (kind.keyword ++ " ")
  | source item aliasName => printSourceItem next item aliasName
  | on condition => printJoinCondition next condition

/-- Print a row of words. -/
def printFromWords (next : NextLevel) : List FromWord → Print Unit
  | [] => pure ()
  | word :: rest => do
    word.print next
    printFromWords next rest

theorem printFromWords_append (next : NextLevel) (words words' : List FromWord) :
    printFromWords next (words ++ words') = (do
      printFromWords next words
      printFromWords next words') := by
  induction words with
  | nil => simp [printFromWords]
  | cons word rest ih => simp [printFromWords, ih]

@[simp]
theorem printFromWords_single (next : NextLevel) (word : FromWord) :
    printFromWords next [word] = word.print next := by
  simp [printFromWords]

mutual

/-- The words of a source with the sources joined to it. -/
def Source.words (crossJoin : Bool) : Source → List FromWord
  | ⟨item, aliasName, joins⟩ =>
    .source item aliasName :: .layout .deeper :: (joinsWords crossJoin joins ++ [.layout .shallower])
termination_by structural source => source

/-- The words of a join. -/
def Join.words (crossJoin : Bool) : Join → List FromWord
  | ⟨kind, source, condition⟩ =>
    if kind == .inner && condition.isEmpty && crossJoin then .crossJoin :: source.words crossJoin
    else if kind.isApply then .join kind :: source.words crossJoin
    else .join kind :: (source.words crossJoin ++ [.on condition])
termination_by structural join => join

/-- The words of joins, each on a line of its own. -/
def joinsWords (crossJoin : Bool) : List Join → List FromWord
  | [] => []
  | join :: rest =>
    .layout .newline :: .layout .indentation :: (join.words crossJoin ++ joinsWords crossJoin rest)
termination_by structural joins => joins

end

/-- The words of sources, each on a line of its own. -/
def fromWords (crossJoin : Bool) : List Source → List FromWord
  | [] => []
  | [source] => .layout .indentation :: source.words crossJoin
  | source :: rest =>
    .layout .indentation :: (source.words crossJoin ++ .comma :: fromWords crossJoin rest)

/-- Print a `FROM` clause, if it has words. -/
def printFromClause (next : NextLevel) (words : List FromWord) : Print Unit :=
  if words.isEmpty then pure ()
  else do
    Print.indentedLine "FROM"
    Print.indented (printFromWords next words)
    Print.newline

/-- The word of an `APPLY` is refused by some providers. -/
theorem applyWord_andThen (next : NextLevel) {kind : JoinKind} (hkind : kind.isApply = true)
    (act : Print Unit) : ((do
      if !(← read).capabilities.applyJoin then Print.unsupported kind.keyword
      Print.text (kind.keyword ++ " ")
      act) : Print Unit) = (do (FromWord.join kind).print next; act) := by
  simp only [FromWord.print, hkind, if_true, bind_assoc]
  refine bind_congr fun frame => ?_
  split
  · simp only [bind_assoc]
  · rfl

section

variable {frame : Frame} (next : NextLevel)

mutual

/-- A source is printed word by word. -/
theorem Source.print_words (source : Source) : source.print next frame =
    printFromWords next (source.words frame.capabilities.crossJoin) frame := by
  cases source with
  | mk item aliasName joins =>
    rw [Source.print, Source.words, printFromWords, printFromWords, printFromWords_append,
      printFromWords_single]
    exact seq_congr rfl (seq_congr rfl (seq_congr (printJoins_words joins) rfl))
termination_by structural source

theorem Join.print_words (join : Join) : join.print next frame =
    printFromWords next (join.words frame.capabilities.crossJoin) frame := by
  cases join with
  | mk kind source condition =>
    have hsource := Source.print_words source
    rw [Join.words]
    change (if (kind == .inner && condition.isEmpty && frame.capabilities.crossJoin) = true then _
      else _ : Print Unit) frame = _
    split
    · exact seq_congr rfl hsource
    · cases kind with
      | crossApply | outerApply =>
        exact (congrFun (applyWord_andThen next rfl _) frame).trans (seq_congr rfl hsource)
      | inner | left | right | full =>
        refine seq_congr rfl ?_
        rw [printFromWords_append, printFromWords_single]
        exact seq_congr hsource rfl
termination_by structural join

theorem printJoins_words (joins : List Join) : printJoins next joins frame =
    printFromWords next (joinsWords frame.capabilities.crossJoin joins) frame := by
  cases joins with
  | nil => rfl
  | cons join rest =>
    rw [printJoins, joinsWords, printFromWords, printFromWords, printFromWords_append]
    exact seq_congr rfl (seq_congr rfl (seq_congr (Join.print_words join) (printJoins_words rest)))
termination_by structural joins

end

/-- A `FROM` clause is printed word by word. -/
theorem printSources_words (sources : List Source) (hsources : sources ≠ []) :
    printSources next sources frame =
      printFromClause next (fromWords frame.capabilities.crossJoin sources) frame := by
  have hlines (sources : List Source) : Print.lines (sources.map fun source => source.print next)
      frame = printFromWords next (fromWords frame.capabilities.crossJoin sources) frame := by
    induction sources with
    | nil => rfl
    | cons source rest ih =>
      cases rest with
      | nil => exact seq_congr rfl (source.print_words next)
      | cons other rest =>
        have hrow : fromWords frame.capabilities.crossJoin (source :: other :: rest) =
            .layout .indentation :: (source.words frame.capabilities.crossJoin ++
              .comma :: fromWords frame.capabilities.crossJoin (other :: rest)) := rfl
        rw [hrow, printFromWords, printFromWords_append]
        change ((do
          Print.indentation
          source.print next
          Print.text ",\n"
          Print.lines ((other :: rest).map fun source => source.print next)) : Print Unit)
            frame = _
        exact seq_congr rfl (seq_congr (source.print_words next) (seq_congr rfl ih))
  have hwords : (fromWords frame.capabilities.crossJoin sources).isEmpty = false := by
    cases sources with
    | nil => exact absurd rfl hsources
    | cons source rest => cases rest <;> rfl
  rw [printFromClause, hwords]
  exact seq_congr rfl (seq_congr (seq_congr rfl (seq_congr (hlines sources) rfl)) rfl)

theorem printFromClause_fromWords (sources : List Source) :
    printFromClause next (fromWords frame.capabilities.crossJoin sources) frame =
      (if sources.isEmpty then pure () else printSources next sources : Print Unit) frame := by
  cases sources with
  | nil => rfl
  | cons source rest => exact (printSources_words next _ (by simp)).symm

end

/-! ## Reading the words -/

/-- What is to follow in a `FROM` clause: a source with nothing before it, a source that is joined
and has a condition behind it or not, or anything that goes on. -/
inductive Awaited where
  | first
  | joined (kind : JoinKind) (hasCondition : Bool)
  | more
  deriving DecidableEq, Repr

/-- A source that waits for the condition of its join. -/
structure OpenJoin where
  kind : JoinKind
  item : SourceItem
  aliasName : Option String

/-- Read the sources of a clause.  A condition belongs to the source that has been joined last and
has none yet. -/
def readFrom : List FromWord → Awaited → List OpenJoin → Option (List JoinedSource)
  | [], .more, [] => some []
  | .layout _ :: rest, awaited, pending => readFrom rest awaited pending
  | .comma :: rest, .more, [] => readFrom rest .first []
  | .crossJoin :: rest, .more, pending => readFrom rest (.joined .inner false) pending
  | .join kind :: rest, .more, pending => readFrom rest (.joined kind (!kind.isApply)) pending
  | .source item aliasName :: rest, .first, pending =>
    (readFrom rest .more pending).map (⟨item, aliasName, none⟩ :: ·)
  | .source item aliasName :: rest, .joined kind false, pending =>
    (readFrom rest .more pending).map (⟨item, aliasName, some (kind, .empty)⟩ :: ·)
  | .source item aliasName :: rest, .joined kind true, pending =>
    readFrom rest .more (⟨kind, item, aliasName⟩ :: pending)
  | .on condition :: rest, .more, ⟨kind, item, aliasName⟩ :: pending =>
    (readFrom rest .more pending).map (⟨item, aliasName, some (kind, condition)⟩ :: ·)
  | _, _, _ => none
termination_by structural words => words

/-- Words that are read as some sources, in any order, wherever a clause may go on. -/
def ReadsAs (words : List FromWord) (sources : List JoinedSource) : Prop :=
  ∃ l : List JoinedSource, l.Perm sources ∧ ∀ rest pending,
    readFrom (words ++ rest) .more pending = (readFrom rest .more pending).map (l ++ ·)

namespace ReadsAs

variable {words words' : List FromWord} {sources sources' : List JoinedSource}

theorem nil : ReadsAs [] [] := ⟨[], .rfl, fun rest pending => by simp⟩

theorem append (h : ReadsAs words sources) (h' : ReadsAs words' sources') :
    ReadsAs (words ++ words') (sources ++ sources') := by
  obtain ⟨l, hl, hread⟩ := h
  obtain ⟨r, hr, hread'⟩ := h'
  refine ⟨l ++ r, hl.append hr, fun rest pending => ?_⟩
  rw [List.append_assoc, hread, hread', Option.map_map]
  simp [Function.comp_def]

/-- Words between which nothing else stands do not matter. -/
theorem layout (step : Layout) (h : ReadsAs words sources) :
    ReadsAs (.layout step :: words) sources := h

theorem layout_end (step : Layout) (h : ReadsAs words sources) :
    ReadsAs (words ++ [.layout step]) sources := by
  have hlayout : ReadsAs [.layout step] [] := layout step nil
  simpa using h.append hlayout

variable {kind : JoinKind} {item : SourceItem} {aliasName : Option String}

theorem crossJoin (h : ReadsAs words sources) :
    ReadsAs (.crossJoin :: .source item aliasName :: words)
      (⟨item, aliasName, some (.inner, .empty)⟩ :: sources) := by
  obtain ⟨l, hl, hread⟩ := h
  refine ⟨⟨item, aliasName, some (.inner, .empty)⟩ :: l, hl.cons _, fun rest pending => ?_⟩
  change (readFrom (words ++ rest) .more pending).map _ = _
  rw [hread, Option.map_map]
  rfl

theorem apply (hkind : kind.isApply = true) (h : ReadsAs words sources) :
    ReadsAs (.join kind :: .source item aliasName :: words)
      (⟨item, aliasName, some (kind, .empty)⟩ :: sources) := by
  obtain ⟨l, hl, hread⟩ := h
  refine ⟨⟨item, aliasName, some (kind, .empty)⟩ :: l, hl.cons _, fun rest pending => ?_⟩
  change readFrom (.source item aliasName :: (words ++ rest)) (.joined kind (!kind.isApply))
    pending = _
  rw [hkind]
  change (readFrom (words ++ rest) .more pending).map _ = _
  rw [hread, Option.map_map]
  rfl

/-- What is joined to a source stands before the condition of that. -/
theorem conditional {c : Condition} (hkind : kind.isApply = false) (h : ReadsAs words sources) :
    ReadsAs (.join kind :: .source item aliasName :: (words ++ [.on c]))
      (⟨item, aliasName, some (kind, c)⟩ :: sources) := by
  obtain ⟨l, hl, hread⟩ := h
  refine ⟨l ++ [⟨item, aliasName, some (kind, c)⟩],
    (List.perm_append_singleton _ l).trans (hl.cons _), fun rest pending => ?_⟩
  change readFrom (.source item aliasName :: (words ++ [.on c] ++ rest))
    (.joined kind (!kind.isApply)) pending = _
  rw [hkind]
  change readFrom (words ++ [.on c] ++ rest) .more (⟨kind, item, aliasName⟩ :: pending) = _
  rw [List.append_assoc, hread]
  change ((readFrom rest .more pending).map _).map _ = _
  rw [Option.map_map]
  simp [Function.comp_def]

end ReadsAs

section

variable (crossJoin : Bool)

/-- The words behind a source, up to the condition of its own join. -/
def Source.wordsBelow (source : Source) : List FromWord :=
  .layout .deeper :: (joinsWords crossJoin source.joins ++ [.layout .shallower])

theorem Source.words_eq (source : Source) : source.words crossJoin =
    .source source.item source.aliasName :: source.wordsBelow crossJoin := by
  cases source
  rfl

theorem Source.attached_eq (join : Option (JoinKind × Condition)) (source : Source) :
    source.attached join = ⟨source.item, source.aliasName, join⟩ :: attachedJoins source.joins := by
  cases source
  rfl

mutual

/-- The sources joined to a source are read. -/
theorem Source.readsAs_below (source : Source) : ReadsAs (source.wordsBelow crossJoin)
    ((attachedJoins source.joins).map .asPrinted) := by
  cases source with
  | mk item aliasName joins => exact ((readsAs_joinsWords joins).layout_end .shallower).layout .deeper
termination_by structural source

/-- A join is read with its source and the sources joined to that. -/
theorem Join.readsAs_words (join : Join) :
    ReadsAs (join.words crossJoin) (join.attached.map .asPrinted) := by
  cases join with
  | mk kind source condition =>
    have hbelow := Source.readsAs_below source
    rw [Join.words, Join.attached, Source.words_eq, Source.attached_eq, List.map_cons,
      JoinedSource.asPrinted, Option.map_some]
    split
    · next hcrossed =>
      simp only [Bool.and_eq_true, beq_iff_eq] at hcrossed
      obtain ⟨⟨rfl, hempty⟩, -⟩ := hcrossed
      obtain ⟨branches⟩ := condition
      obtain rfl : branches = [] := List.isEmpty_iff.mp hempty
      exact hbelow.crossJoin
    · split
      · next happly =>
        simp only [happly, if_true]
        exact hbelow.apply happly
      · next hplain =>
        have hkind := Bool.eq_false_iff.mpr hplain
        simp only [hkind, Bool.false_eq_true, if_false]
        exact hbelow.conditional hkind
termination_by structural join

theorem readsAs_joinsWords (joins : List Join) :
    ReadsAs (joinsWords crossJoin joins) ((attachedJoins joins).map .asPrinted) := by
  cases joins with
  | nil => exact .nil
  | cons join rest =>
    rw [attachedJoins, List.map_append]
    exact (Join.readsAs_words join).append (readsAs_joinsWords rest)
termination_by structural joins

end

/-- The words of sources are read as these, each with what is printed of its join. -/
theorem readFrom_fromWords {sources : List Source} (hsources : sources ≠ []) :
    ∃ l : List JoinedSource, l.Perm ((sources.flatMap (Source.attached none)).map .asPrinted) ∧
      readFrom (fromWords crossJoin sources) .first [] = some l := by
  induction sources with
  | nil => exact absurd rfl hsources
  | cons source rest ih =>
    obtain ⟨l, hl, hread⟩ := source.readsAs_below crossJoin
    let root : JoinedSource := ⟨source.item, source.aliasName, none⟩
    have hroot : (source.attached none).map JoinedSource.asPrinted =
        root :: (attachedJoins source.joins).map .asPrinted := by
      rw [Source.attached_eq]
      rfl
    rw [List.flatMap_cons, List.map_append, hroot]
    cases rest with
    | nil =>
      refine ⟨root :: l, by simpa using hl, ?_⟩
      rw [fromWords, Source.words_eq, readFrom, readFrom, ← List.append_nil (source.wordsBelow _),
        hread]
      simp [readFrom, root]
    | cons other rest =>
      obtain ⟨l', hl', hread'⟩ := ih (by simp)
      refine ⟨root :: l ++ l', (hl.cons _).append hl', ?_⟩
      have hrow : fromWords crossJoin (source :: other :: rest) =
          .layout .indentation :: (source.words crossJoin ++
            .comma :: fromWords crossJoin (other :: rest)) := rfl
      rw [hrow, Source.words_eq, readFrom, List.cons_append, readFrom, hread, readFrom, hread']
      simp [root]

end

/-- Read the sources of a clause, which is left out if it has no words. -/
def readClause (words : List FromWord) : Option (List JoinedSource) :=
  if words.isEmpty then some [] else readFrom words .first []

/-- A `FROM` clause is read as its sources, each with what is printed of its join. -/
theorem readClause_fromWords (crossJoin : Bool) (sources : List Source) :
    ∃ l : List JoinedSource, l.Perm ((sources.flatMap (Source.attached none)).map .asPrinted) ∧
      readClause (fromWords crossJoin sources) = some l := by
  cases sources with
  | nil => exact ⟨[], .rfl, rfl⟩
  | cons source rest =>
    have hwords : (fromWords crossJoin (source :: rest)).isEmpty = false := by
      cases rest <;> rfl
    rw [readClause, hwords]
    exact readFrom_fromWords crossJoin (by simp)

end SqlCompiler
