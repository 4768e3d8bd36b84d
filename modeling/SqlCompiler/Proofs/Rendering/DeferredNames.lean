import Mathlib.Data.List.Sublists
import SqlCompiler.Proofs.Rendering.ParameterBinding
import SqlCompiler.Proofs.Rendering.Tags

/-!
# Deferred names

A name of a table that is not known yet is printed as a mark.  When the statement has been printed, one
pending name after the other is filled in, by replacing its mark wherever the text has it.  That is in
the places of the name alone only if nothing else that is printed looks like a mark: no literal, no
identifier and no tag, no name that was filled in earlier, and nothing across the border of two.

Main results:

- Theorem `Text.replaceFrom_append`: what has no occurrence of a pattern is kept by its replacement.
- Definition `Piece`, Theorem `Page.Run.emits`: a page is a row of texts, marks and placeholders; its
  pending names are those of its marks.
- Definition `Segment.MarksApart`: a mark stands in the places of its name only.
- Theorem `fillDeferredNames_draft`: how the deferred names of a statement are filled in.
-/

namespace SqlCompiler

/-! ## Replacement -/

namespace Text

variable {pattern new text rest : List Char}

theorem replaceFrom_skip (k : Nat) (text : List Char) :
    replaceFrom pattern new k text = replaceFrom pattern new 0 (text.drop k) := by
  induction text generalizing k with
  | nil => simp [replaceFrom]
  | cons c text ih =>
    cases k with
    | zero => rfl
    | succ k => rw [replaceFrom, ih, List.drop_succ_cons]

/-- An occurrence of the pattern is replaced. -/
theorem replaceFrom_pattern (hne : pattern ≠ []) :
    replaceFrom pattern new 0 (pattern ++ rest) = new ++ replaceFrom pattern new 0 rest := by
  obtain ⟨c, tail, rfl⟩ := List.exists_cons_of_ne_nil hne
  have hstart : (c :: tail).isPrefixOf (c :: (tail ++ rest)) = true :=
    List.isPrefixOf_iff_prefix.mpr (List.prefix_append (c :: tail) rest)
  rw [List.cons_append, replaceFrom, if_pos hstart, replaceFrom_skip]
  simp

/-- A text is kept if the pattern occurs nowhere from its first to its last character. -/
theorem replaceFrom_append (new : List Char) (h : ∀ i < text.length, ¬pattern <+: (text ++ rest).drop i) :
    replaceFrom pattern new 0 (text ++ rest) = text ++ replaceFrom pattern new 0 rest := by
  induction text with
  | nil => rfl
  | cons c text ih =>
    have hno : ¬pattern.isPrefixOf (c :: (text ++ rest)) = true := fun hstart =>
      h 0 (Nat.succ_pos _) (List.isPrefixOf_iff_prefix.mp hstart)
    have hrest : ∀ i < text.length, ¬pattern <+: (text ++ rest).drop i := fun i hi =>
      h (i + 1) (Nat.succ_lt_succ hi)
    rw [List.cons_append, replaceFrom, if_neg hno, ih hrest, List.cons_append]

end Text

/-! ## Names that are filled in -/

namespace DeferredName

/-- What a name stands for, once the places of the tables are known. -/
def filling? (places : Members TablePlace) (name : DeferredName) : Option String :=
  (Members.get? name.id places).map fun place =>
    match name.kind with
    | .aliasName => place.aliasName.getD place.name
    | .name => place.name
    | .path => place.path

/-- What is written for a name. -/
def filling (places : Members TablePlace) (name : DeferredName) : String :=
  (name.filling? places).getD ""

theorem mark_ne_nil (name : DeferredName) : name.mark.toList ≠ [] := by
  simp [mark]

/-- Fill in a name everywhere in a text. -/
def fillIn (places : Members TablePlace) (text : String) (name : DeferredName) : String :=
  Text.replaceAll text name.mark (name.filling places)

theorem toList_fillIn (places : Members TablePlace) (text : String) (name : DeferredName) :
    (name.fillIn places text).toList =
      Text.replaceFrom name.mark.toList (name.filling places).toList 0 text.toList := by
  refine Text.toList_replaceAll ?_ _ _
  rw [Bool.eq_false_iff, ne_eq, String.isEmpty_iff, ← String.toList_eq_nil_iff]
  exact mark_ne_nil name

end DeferredName

/-! ## Texts and marks -/

/-- A part of a text: something that is printed for good, or the mark of a name. -/
inductive Segment where
  | text (s : String)
  | mark (name : DeferredName)
  deriving DecidableEq

namespace Segment

/-- What a segment looks like after some names have been filled in. -/
def shown (places : Members TablePlace) (filled : List DeferredName) : Segment → List Char
  | text s => s.toList
  | mark name => if name ∈ filled then (name.filling places).toList else name.mark.toList

/-- What a row of segments looks like. -/
def spell (places : Members TablePlace) (filled : List DeferredName) (row : List Segment) :
    List Char :=
  row.flatMap (shown places filled)

/-- The names of a row of segments, in the order of their marks. -/
def names (row : List Segment) : List DeferredName :=
  row.filterMap fun
    | text _ => none
    | mark name => some name

/-- After some names have been filled in, the mark of a name stands in the places of the name only,
and nowhere if the name is one of these. -/
def StandsAlone (places : Members TablePlace) (filled : List DeferredName) (row : List Segment)
    (name : DeferredName) : Prop :=
  ∀ i < (spell places filled row).length, name.mark.toList <+: (spell places filled row).drop i →
    name ∉ filled ∧ ∃ k < row.length, row[k]? = some (mark name) ∧
      (spell places filled (row.take k)).length = i

/-- Whatever has been filled in so far, the marks that are left stand in the places of their names
only. -/
def MarksApart (places : Members TablePlace) (row : List Segment) : Prop :=
  ∀ filled ∈ (names row).sublists, ∀ name ∈ names row, StandsAlone places filled row name

instance (places : Members TablePlace) (row : List Segment) : Decidable (MarksApart places row) := by
  unfold MarksApart StandsAlone
  infer_instance

section

variable {places : Members TablePlace} {filled : List DeferredName} {row rest : List Segment}
  {segment : Segment} {name : DeferredName}

@[simp]
theorem spell_nil : spell places filled [] = [] := rfl

@[simp]
theorem spell_cons : spell places filled (segment :: rest) =
    segment.shown places filled ++ spell places filled rest := by
  simp [spell]

theorem spell_append : spell places filled (row ++ rest) =
    spell places filled row ++ spell places filled rest := by
  simp [spell]

theorem names_append : names (row ++ rest) = names row ++ names rest := by
  simp [names]

/-- A row looks the same if the same of its names have been filled in. -/
theorem spell_congr {filled' : List DeferredName}
    (h : ∀ name ∈ names row, name ∈ filled ↔ name ∈ filled') :
    spell places filled row = spell places filled' row := by
  induction row with
  | nil => rfl
  | cons segment rest ih =>
    have hrest : ∀ name ∈ names rest, name ∈ filled ↔ name ∈ filled' := fun name hname =>
      h name (by rw [← List.singleton_append, names_append]; exact List.mem_append_right _ hname)
    rw [spell_cons, spell_cons, ih hrest]
    congr 1
    cases segment with
    | text s => rfl
    | mark name => simp only [shown, h name (by simp [names])]

/-- Before any name has been filled in, it does not matter where the tables are. -/
theorem spell_unfilled (row : List Segment) {places' : Members TablePlace} :
    spell places [] row = spell places' [] row := by
  refine congrArg (row.flatMap ·) (funext fun segment => ?_)
  cases segment with
  | text s => rfl
  | mark name => simp [shown]

/-- A mark that stands in the places of its name only does so in the rest of a row. -/
theorem StandsAlone.tail (h : StandsAlone places filled (segment :: rest) name) :
    StandsAlone places filled rest name := by
  intro i hi hmark
  have hsplit : (spell places filled (segment :: rest)).drop
      ((segment.shown places filled).length + i) = (spell places filled rest).drop i := by
    rw [spell_cons, List.drop_length_add_append]
  obtain ⟨hname, k, hk, hat, hlength⟩ := h ((segment.shown places filled).length + i)
    (by rw [spell_cons, List.length_append]; omega) (by rwa [hsplit])
  refine ⟨hname, ?_⟩
  cases k with
  | zero =>
    -- the mark would be the first one, which is not empty
    have hsegment : segment = mark name := Option.some.inj hat
    have hpos : 0 < (segment.shown places filled).length := by
      rw [hsegment, shown, if_neg hname]
      exact List.length_pos_iff.mpr name.mark_ne_nil
    simp only [List.take_zero, spell_nil, List.length_nil] at hlength
    omega
  | succ k =>
    refine ⟨k, Nat.lt_of_succ_lt_succ hk, hat, ?_⟩
    rw [List.take_succ_cons, spell_cons, List.length_append] at hlength
    omega

/-- Where its mark stands in its places only, replacing the mark fills in a name and nothing else. -/
theorem replaceFrom_spell (hname : name ∉ filled) (h : StandsAlone places filled row name) :
    Text.replaceFrom name.mark.toList (name.filling places).toList 0 (spell places filled row) =
      spell places (name :: filled) row := by
  induction row with
  | nil => rfl
  | cons segment rest ih =>
    have hrest := ih h.tail
    rw [spell_cons, spell_cons]
    by_cases hsegment : segment = mark name
    · subst hsegment
      have hbefore : shown places filled (mark name) = name.mark.toList := if_neg hname
      have hafter : shown places (name :: filled) (mark name) = (name.filling places).toList :=
        if_pos List.mem_cons_self
      rw [hbefore, hafter, Text.replaceFrom_pattern name.mark_ne_nil, hrest]
    · have hsame : shown places (name :: filled) segment = shown places filled segment := by
        cases segment with
        | text s => rfl
        | mark other =>
          have hne : other ≠ name := fun heq => hsegment (heq ▸ rfl)
          simp only [shown, List.mem_cons, hne, false_or]
      have hnone : ∀ i < (segment.shown places filled).length,
          ¬name.mark.toList <+: (segment.shown places filled ++ spell places filled rest).drop i := by
        intro i hi hmark
        obtain ⟨-, k, -, hat, hlength⟩ := h i
          (by rw [spell_cons, List.length_append]; omega) (by rwa [spell_cons])
        cases k with
        | zero => exact hsegment (Option.some.inj hat)
        | succ k =>
          rw [List.take_succ_cons, spell_cons, List.length_append] at hlength
          omega
      rw [Text.replaceFrom_append _ hnone, hrest, hsame]

/-- A name that has been filled in is not filled in again. -/
theorem replaceFrom_spell_filled {new : List Char} (hname : name ∈ filled)
    (h : StandsAlone places filled row name) :
    Text.replaceFrom name.mark.toList new 0 (spell places filled row) = spell places filled row := by
  have hnone : ∀ i < (spell places filled row).length,
      ¬name.mark.toList <+: (spell places filled row ++ []).drop i := by
    intro i hi hmark
    rw [List.append_nil] at hmark
    exact (h i hi hmark).1 hname
  simpa [Text.replaceFrom] using Text.replaceFrom_append new hnone

/-- What has been filled in only matters as far as the row has names of it. -/
theorem MarksApart.standsAlone (h : MarksApart places row) (hname : name ∈ names row) :
    StandsAlone places filled row name := by
  have hcongr (row' : List Segment) (hrow : row' <+: row) : spell places filled row' =
      spell places ((names row).filter (· ∈ filled)) row' := by
    refine spell_congr fun other hother => ?_
    have hmem : other ∈ names row := (hrow.filterMap _).subset hother
    simp [hmem]
  have halone := h ((names row).filter (· ∈ filled))
    (List.mem_sublists.mpr List.filter_sublist) name hname
  intro i hi hmark
  rw [hcongr row (List.prefix_refl row)] at hi hmark
  obtain ⟨hfilled, k, hk, hat, hlength⟩ := halone i hi hmark
  refine ⟨fun h => hfilled (by simp [h, hname]), k, hk, hat, ?_⟩
  rw [hcongr _ (List.take_prefix k row), hlength]

/-- If the marks stand apart, filling in names one after the other fills in these names and nothing
else. -/
theorem foldl_fillIn (hapart : MarksApart places row) {order : List DeferredName}
    (horder : order ⊆ names row) {text : String} (htext : text.toList = spell places filled row) :
    (order.foldl (fun text name => name.fillIn places text) text).toList =
      spell places (order ++ filled) row := by
  induction order generalizing text filled with
  | nil => exact htext
  | cons name order ih =>
    obtain ⟨hname, hrest⟩ := List.cons_subset.mp horder
    have halone : StandsAlone places filled row name := hapart.standsAlone hname
    have hstep : (name.fillIn places text).toList = spell places (name :: filled) row := by
      rw [DeferredName.toList_fillIn, htext]
      by_cases hfilled : name ∈ filled
      · rw [replaceFrom_spell_filled hfilled halone]
        refine spell_congr fun other _ => ?_
        rw [List.mem_cons]
        exact ⟨.inr, fun h => h.elim (fun heq => heq ▸ hfilled) id⟩
      · exact replaceFrom_spell hfilled halone
    rw [List.foldl_cons, ih hrest hstep]
    refine spell_congr fun other _ => ?_
    simp only [List.mem_append, List.mem_cons]
    exact ⟨fun h => h.elim (.inl ∘ .inr) fun h => h.elim (.inl ∘ .inl) .inr,
      fun h => h.elim (fun h => h.elim (.inr ∘ .inl) .inl) (.inr ∘ .inr)⟩

end

end Segment

/-! ## Placeholders -/

/-- What is put on a page: a text, the mark of a name, or the placeholder of a parameter. -/
inductive Piece where
  | text (s : String)
  | mark (name : DeferredName)
  | placeholder (p : Parameter)

namespace Piece

/-- A piece as a part of a text; a placeholder is the name of its parameter behind a character. -/
def segment (lead : Char) : Piece → Segment
  | text s => .text s
  | mark name => .mark name
  | placeholder p => .text (String.singleton lead ++ p.name)

/-- The parameters of a row of pieces, in the order of their placeholders. -/
def parameters (row : List Piece) : List Parameter :=
  row.filterMap fun
    | text _ | mark _ => none
    | placeholder p => some p

theorem parameters_append (row rest : List Piece) :
    parameters (row ++ rest) = parameters row ++ parameters rest := by
  simp [parameters]

end Piece

/-! ## Pages -/

namespace Page

/-- A page is a row of texts and marks, and its pending names are those of its marks. -/
structure Spells (page : Page) (row : List Segment) : Prop where
  text : page.writer.text.toList = Segment.spell page.places [] row
  pending : page.pending = Segment.names row

/-- A page after some names have been filled in. -/
def filledWith (page : Page) (row : List Segment) : Page :=
  page.onWriter fun w =>
    { w with text := String.ofList (Segment.spell page.places page.pending row) }

theorem Spells.of_text {page page' : Page} {row : List Segment} (h : page.Spells row)
    (htext : page'.writer.text = page.writer.text) (hpending : page'.pending = page.pending) :
    page'.Spells row := by
  refine ⟨?_, hpending.trans h.pending⟩
  rw [htext, h.text, Segment.spell_unfilled]

/-- Texts and marks put at the end of a page. -/
theorem Spells.append {page page' : Page} {row : List Segment} (h : page.Spells row)
    (rest : List Segment)
    (htext : page'.writer.text.toList = page.writer.text.toList ++ Segment.spell [] [] rest)
    (hpending : page'.pending = page.pending ++ Segment.names rest) :
    page'.Spells (row ++ rest) := by
  constructor
  · rw [htext, h.text, Segment.spell_append, Segment.spell_unfilled row,
      Segment.spell_unfilled rest]
  · rw [hpending, h.pending, Segment.names_append]

/-- A page is a row of pieces: its text has them one after the other, its pending names are those of
the marks, and its placeholders those of the row. -/
structure Emits (page : Page) (row : List Piece) : Prop where
  spells : page.Spells (row.map (Piece.segment page.writer.parameterPrefix))
  placeholders : page.writer.placeholders = Piece.parameters row

/-- Pieces put at the end of a page. -/
theorem Emits.append {page page' : Page} {row : List Piece} (h : page.Emits row) (rest : List Piece)
    (hlead : page'.writer.parameterPrefix = page.writer.parameterPrefix)
    (htext : page'.writer.text.toList = page.writer.text.toList ++
      Segment.spell [] [] (rest.map (Piece.segment page.writer.parameterPrefix)))
    (hpending : page'.pending = page.pending ++
      Segment.names (rest.map (Piece.segment page.writer.parameterPrefix)))
    (hplaceholders : page'.writer.placeholders =
      page.writer.placeholders ++ Piece.parameters rest) : page'.Emits (row ++ rest) := by
  constructor
  · rw [hlead, List.map_append]
    exact h.spells.append _ htext hpending
  · rw [hplaceholders, h.placeholders, Piece.parameters_append]

/-- As long as nothing is changed, a run puts pieces on a page, and the placeholders among them begin
with the same character. -/
theorem Run.emits {P : Printing} (hedits : ¬P.edits) {page page' : Page} (h : page.Run P page')
    {row : List Piece} (hpage : page.Emits row) :
    (∃ row', page'.Emits row') ∧ page'.writer.parameterPrefix = page.writer.parameterPrefix := by
  induction h generalizing row with
  | refl => exact ⟨⟨row, hpage⟩, rfl⟩
  | add _ s ih =>
    obtain ⟨⟨row', hq⟩, hlead⟩ := ih hpage
    exact ⟨⟨_, hq.append [.text s] rfl
      (by simp [onWriter, Writer.add, Piece.segment, Segment.shown])
      (by simp [onWriter, Piece.segment, Segment.names])
      (by simp [onWriter, Writer.add, Piece.parameters])⟩, hlead⟩
  | deeper _ ih =>
    obtain ⟨⟨row', hq⟩, hlead⟩ := ih hpage
    exact ⟨⟨row', hq.spells.of_text rfl rfl, hq.placeholders⟩, hlead⟩
  | shallower _ ih =>
    obtain ⟨⟨row', hq⟩, hlead⟩ := ih hpage
    exact ⟨⟨row', hq.spells.of_text rfl rfl, hq.placeholders⟩, hlead⟩
  | @parameter _ _ _ x _ ih =>
    obtain ⟨⟨row', hq⟩, hlead⟩ := ih hpage
    exact ⟨⟨_, hq.append [.placeholder x] rfl
      (by simp [onWriter, Writer.parameter, Writer.add, Piece.segment, Segment.shown])
      (by simp [onWriter, Piece.segment, Segment.names])
      (by simp [onWriter, Writer.parameter, Piece.parameters])⟩, hlead⟩
  | places _ _ ih =>
    obtain ⟨⟨row', hq⟩, hlead⟩ := ih hpage
    exact ⟨⟨row', hq.spells.of_text rfl rfl, hq.placeholders⟩, hlead⟩
  | defer _ name ih =>
    obtain ⟨⟨row', hq⟩, hlead⟩ := ih hpage
    exact ⟨⟨_, hq.append [.mark name] rfl
      (by simp [Page.defer, Writer.add, Piece.segment, Segment.shown])
      (by simp [Page.defer, Piece.segment, Segment.names])
      (by simp [Page.defer, Writer.add, Piece.parameters])⟩, hlead⟩
  | append _ _ ih ihinner =>
    obtain ⟨⟨row', hq⟩, hlead⟩ := ih hpage
    obtain ⟨⟨rest, hinner⟩, hleadInner⟩ := ihinner (show Page.Emits _ [] from ⟨⟨rfl, rfl⟩, rfl⟩)
    have hspells := hinner.spells
    rw [hleadInner] at hspells
    refine ⟨⟨_, hq.append rest rfl ?_ (congrArg _ hspells.pending)
      (congrArg _ hinner.placeholders)⟩, hlead⟩
    rw [Page.append, Writer.append, String.toList_append, hspells.text, Segment.spell_unfilled]
    rfl
  | replaceAll _ he => exact absurd he hedits
  | prepend _ he => exact absurd he hedits
  | trimEnd _ he => exact absurd he hedits

end Page

/-! ## Filling in -/

/-- Print what stands in front of the hints, with marks for the deferred names. -/
def printDraft (next : NextLevel) (statement : Statement) : Print Unit := do
  printTag statement.tag
  printCtes next statement.ctes
  printStatementBody next statement

/-- A statement is its draft with the deferred names filled in, and the hints. -/
theorem printStatement_eq (next : NextLevel) (statement : Statement) :
    printStatement next statement = (do
      printDraft next statement
      fillDeferredNames
      printHints statement.hints) := by
  simp [printStatement, printDraft]

/-- Fill in a pending name. -/
def fillName (name : DeferredName) : Print Unit := fun _ page =>
  match name.filling? page.places with
  | none => .error (.resolution ("Table ID '" ++ name.id ++ "' is not defined."))
  | some text => .ok ((), page.onWriter (·.replaceAll name.mark text))

theorem fillDeferredNames_eq (frame : Frame) (page : Page) :
    fillDeferredNames frame page = page.pending.forM fillName frame page := by
  change (page.pending.forM _ : Print Unit) frame page = _
  refine congrArg (fun fill : DeferredName → Print Unit =>
    page.pending.forM fill frame page) ?_
  funext name frame page
  have hget (f : Page → Print Unit) : (get >>= f) frame page = f page frame page := rfl
  rw [hget, fillName, DeferredName.filling?]
  cases Members.get? name.id page.places with
  | none => rfl
  | some place => rfl

/-- Filling in fails if the place of a pending name is not known.  Otherwise it fills in one name after
the other. -/
theorem fillNames_ok_iff {names : List DeferredName} {frame : Frame} {page filled : Page} :
    names.forM fillName frame page = .ok ((), filled) ↔
      (∀ name ∈ names, (name.filling? page.places).isSome = true) ∧
      filled = page.onWriter fun w =>
        { w with text := names.foldl (fun text name => name.fillIn page.places text) w.text } := by
  induction names generalizing page with
  | nil =>
    constructor
    · intro h
      cases h
      exact ⟨List.forall_mem_nil _, rfl⟩
    · rintro ⟨-, rfl⟩
      rfl
  | cons name rest ih =>
    change (fillName name frame page >>= fun r => rest.forM fillName frame r.2) = _ ↔ _
    rw [fillName]
    cases hname : name.filling? page.places with
    | none => simp [hname, Bind.bind, Except.bind]
    | some text =>
      have hfill : page.onWriter (·.replaceAll name.mark text) =
          page.onWriter fun w => { w with text := name.fillIn page.places w.text } := by
        simp [Page.onWriter, Writer.replaceAll, DeferredName.fillIn, DeferredName.filling, hname]
      change rest.forM fillName frame (page.onWriter (·.replaceAll name.mark text)) = _ ↔ _
      rw [hfill, ih, List.forall_mem_cons, hname, Option.isSome_some]
      simp [Page.onWriter]

/-- The draft of a statement is a row of texts, marks and placeholders; the dialect says with which
character these begin. -/
theorem emits_draft {frame : Frame} {t : StatementRef} {fuel : Nat} {page : Page}
    (h : printDraft (.within fuel) (frame.store.statement t) frame frame.emptyPage =
      .ok ((), page)) :
    (∃ row, page.Emits row) ∧ page.writer.parameterPrefix = frame.dialect.parameterPrefix := by
  have hcovers := Printing.covers_whole frame.provider frame.store False t
  have hnext := NextLevel.within_alike hcovers.closed fuel
  have hframe : (Printing.whole frame.provider frame.store False).Frames frame :=
    ⟨rfl, rfl, fun _ _ => trivial⟩
  have hdraft : Print.Runs (.whole frame.provider frame.store False)
      (printDraft (.within fuel) (frame.store.statement t)) :=
    (Print.Alike.printTag _).andThen <| (Print.Alike.printCtes hnext hcovers.ctes).andThen <|
      printStatementBody_alike hnext hcovers
  have hrun := (hdraft frame hframe frame.emptyPage).2 _ _ h
  have hempty : frame.emptyPage.Emits [] := ⟨⟨rfl, rfl⟩, rfl⟩
  exact hrun.emits id hempty

/-- The draft of a statement is a row of texts and marks, with the names of the marks pending.  If no
mark is found but in the places of its name, these are filled in in whatever order, and nothing else
is changed; filling in fails exactly if the place of a name is not known. -/
theorem fillDeferredNames_draft {frame : Frame} {t : StatementRef} {fuel : Nat} {page : Page}
    (h : printDraft (.within fuel) (frame.store.statement t) frame frame.emptyPage =
      .ok ((), page)) :
    (∃ row, page.Spells row) ∧
    ∀ row, page.Spells row → Segment.MarksApart page.places row →
      ∀ order, order.Perm page.pending → ∀ filled,
        fillDeferredNames frame { page with pending := order } = .ok ((), filled) ↔
          (∀ name ∈ page.pending, (name.filling? page.places).isSome = true) ∧
          filled = { page.filledWith row with pending := order } := by
  obtain ⟨⟨pieces, hpieces⟩, -⟩ := emits_draft h
  refine ⟨⟨_, hpieces.spells⟩, fun row hrow hapart order horder filled => ?_⟩
  have hsubset : order ⊆ Segment.names row := hrow.pending ▸ horder.subset
  have hfold := Segment.foldl_fillIn hapart hsubset hrow.text
  have hspell : Segment.spell page.places (order ++ []) row =
      Segment.spell page.places page.pending row :=
    Segment.spell_congr fun name _ => by rw [List.append_nil, horder.mem_iff]
  rw [hspell] at hfold
  rw [fillDeferredNames_eq, fillNames_ok_iff]
  refine and_congr ?_ ?_
  · exact forall_congr' fun name => imp_congr_left horder.mem_iff
  · rw [Page.filledWith, ← hfold, String.ofList_toList]
    exact Iff.rfl

/-- A select of something and of the alias of its table from `Person`, which is called `p`. -/
def selectedFromPerson (first : Scalar) : Store :=
  let (t, s) := Store.addTable {} { name := { name := "Person" }, tableId := some "T" }
    [{ name := "Name", type := .nVarChar }]
  let (q, s) := s.addQuery none
  let (_, s) := s.addColumn q first none
  let (_, s) := s.addColumn q (.deferredName ⟨.aliasName, "T"⟩) none
  let s := s.modifyQuery q fun query =>
    { query with sources := [{ Source.ofTable t with aliasName := some "p" }] }
  (s.addStatement { body := .select, query := q }).2

/-- The name and the alias of a table are filled in, the last one first. -/
theorem fillDeferredNames_draft_person : ∃ frame page filled,
    frame.store = selectedFromPerson (.deferredName ⟨.name, "T"⟩) ∧
    printDraft (.within 8) (frame.store.statement ⟨0⟩) frame frame.emptyPage = .ok ((), page) ∧
    page.pending = [⟨.name, "T"⟩, ⟨.aliasName, "T"⟩] ∧
    fillDeferredNames frame { page with pending := page.pending.reverse } = .ok ((), filled) ∧
    filled.writer.text = "SELECT\n\tPerson,\n\tp\nFROM\n\tPerson p\n" := by
  let frame : Frame :=
    { provider := .ofDialect .generic, options := {}
      store := selectedFromPerson (.deferredName ⟨.name, "T"⟩) }
  have hdraft : ((printDraft (.within 8) (frame.store.statement ⟨0⟩) frame frame.emptyPage).toOption.map
      fun r => (r.2.writer.text, r.2.pending, r.2.places)) =
        some ("SELECT\n\t$$$n:T$$$,\n\t$$$a:T$$$\nFROM\n\tPerson p\n",
          [⟨.name, "T"⟩, ⟨.aliasName, "T"⟩], [("T", ⟨some "p", "Person", "p"⟩)]) := by
    decide +kernel
  cases hpage : printDraft (.within 8) (frame.store.statement ⟨0⟩) frame frame.emptyPage with
  | error e =>
    rw [hpage] at hdraft
    cases hdraft
  | ok r =>
    obtain ⟨⟨⟩, page⟩ := r
    rw [hpage] at hdraft
    obtain ⟨htext, hpending, hplaces⟩ : page.writer.text = _ ∧ page.pending = _ ∧ page.places = _ := by
      simpa [Except.toOption] using hdraft
    let row : List Segment := [.text "SELECT\n\t", .mark ⟨.name, "T"⟩, .text ",\n\t",
      .mark ⟨.aliasName, "T"⟩, .text "\nFROM\n\tPerson p\n"]
    have hrow : page.Spells row := by
      constructor
      · rw [htext, hplaces]
        decide
      · exact hpending
    have hapart : Segment.MarksApart page.places row := by
      rw [hplaces]
      decide +kernel
    have hknown : ∀ name ∈ page.pending, (name.filling? page.places).isSome = true := by
      rw [hpending, hplaces]
      decide
    refine ⟨frame, page, _, rfl, hpage, hpending,
      ((fillDeferredNames_draft hpage).2 row hrow hapart page.pending.reverse
        (List.reverse_perm _) _).mpr ⟨hknown, rfl⟩, ?_⟩
    change String.ofList (Segment.spell page.places page.pending row) = _
    rw [hpending, hplaces]
    decide

/-- A literal that looks like the mark of a pending name is filled in with it. -/
example : (renderStatement (.ofDialect .generic) {} (selectedFromPerson (.text "$$$a:T$$$"))
      ⟨0⟩).toOption.map (·.commands.map (·.sql)) =
    some ["SELECT\n\t'p',\n\tp\nFROM\n\tPerson p"] := by
  decide +kernel

end SqlCompiler
