import Mathlib.Data.List.Forall2
import SqlCompiler.Proofs.Rendering.Occurrences
import SqlCompiler.Render.Expression

/-!
# Runs of a page

Whatever a printing step does to the page, it does through a handful of operations.  A run is a
sequence of these; parts printed on a page of their own are runs inside a run.  What one operation
keeps, every printed statement keeps.  What a printing step refers to is left to other printers; two
steps are alike if it does not matter by which ones.

Main results:

- Definition `Page.Run`: the pages reached from a page, by placeholders that stand for allowed
  parameters only.
- Theorem `Page.Run.trans`: runs compose.
- Definition `Print.Alike` and its closure lemmas: printing steps that do the same in every frame of
  a printing, and change the page by a run.
-/

namespace SqlCompiler

/-! ## Runs -/

namespace Page

/-- A change of the text only. -/
def onWriter (page : Page) (f : Writer → Writer) : Page :=
  { page with writer := f page.writer }

/-- A page with another one at the end. -/
def append (page inner : Page) : Page where
  writer := page.writer.append inner.writer
  places := inner.places.foldl (fun places (id, place) => Members.insert id place places) page.places
  pending := page.pending ++ inner.pending

/-- A page with the mark of a name that is to be filled in. -/
def defer (page : Page) (name : DeferredName) : Page :=
  { page with writer := page.writer.add name.mark, pending := page.pending ++ [name] }

/-- The second page is reached from the first one by operations on the page, where every placeholder
that is added stands for an allowed parameter.  What has been printed is changed where that is
allowed only. -/
inductive Run (P : Printing) : Page → Page → Prop where
  | refl (page : Page) : Run P page page
  | add {p q : Page} (h : Run P p q) (s : String) : Run P p (q.onWriter (·.add s))
  | deeper {p q : Page} (h : Run P p q) : Run P p (q.onWriter Writer.deeper)
  | shallower {p q : Page} (h : Run P p q) : Run P p (q.onWriter Writer.shallower)
  | parameter {p q : Page} (h : Run P p q) {x : Parameter} (hx : P.parameter x) :
      Run P p (q.onWriter (·.parameter x))
  | places {p q : Page} (h : Run P p q) (places : Members TablePlace) : Run P p { q with places }
  | defer {p q : Page} (h : Run P p q) (name : DeferredName) : Run P p (q.defer name)
  /-- A part printed on its own, from an empty page. -/
  | append {p q inner : Page} (h : Run P p q) (hinner : Run P { writer := q.writer.nested } inner) :
      Run P p (q.append inner)
  | replaceAll {p q : Page} (h : Run P p q) (hedits : P.edits) (pattern new : String) :
      Run P p (q.onWriter (·.replaceAll pattern new))
  | prepend {p q : Page} (h : Run P p q) (hedits : P.edits) (s : String) :
      Run P p (q.onWriter (·.prepend s))
  | trimEnd {p q : Page} (h : Run P p q) (hedits : P.edits) : Run P p (q.onWriter Writer.trimEnd)

namespace Run

variable {P : Printing} {p q r : Page}

/-- Runs compose. -/
theorem trans (h : Run P p q) (h' : Run P q r) : Run P p r := by
  induction h' with
  | refl => exact h
  | add _ s ih => exact (ih h).add s
  | deeper _ ih => exact (ih h).deeper
  | shallower _ ih => exact (ih h).shallower
  | parameter _ hx ih => exact (ih h).parameter hx
  | places _ places ih => exact (ih h).places places
  | defer _ name ih => exact (ih h).defer name
  | append _ hinner ih => exact (ih h).append hinner
  | replaceAll _ hedits pattern new ih => exact (ih h).replaceAll hedits pattern new
  | prepend _ hedits s ih => exact (ih h).prepend hedits s
  | trimEnd _ hedits ih => exact (ih h).trimEnd hedits

theorem identifier (h : Run P p q) (s : String) : Run P p (q.onWriter (·.identifier s)) := h.add _

theorem identifiers (h : Run P p q) (names : List String) (separator : String) :
    Run P p (q.onWriter (·.identifiers names separator)) :=
  h.add _

theorem column (h : Run P p q) (qualifier : Option String) (name : String) :
    Run P p (q.onWriter (·.column qualifier name)) := by
  cases qualifier with
  | none => exact h.identifier name
  | some q => exact (h.add (q ++ ".")).identifier name

/-- As long as nothing is changed, a run only puts text behind what has been printed. -/
theorem text_append (hedits : ¬P.edits) (h : Run P p q) :
    ∃ text, q.writer.text = p.writer.text ++ text := by
  have hadd {a b c s : String} (hb : ∃ text, b = a ++ text) (hc : c = b ++ s) :
      ∃ text, c = a ++ text := by
    obtain ⟨text, rfl⟩ := hb
    exact ⟨text ++ s, by rw [hc, String.append_assoc]⟩
  induction h with
  | refl => exact ⟨"", String.append_empty.symm⟩
  | add _ _ ih | parameter _ _ ih | defer _ _ ih | append _ _ ih => exact hadd ih rfl
  | deeper _ ih | shallower _ ih | places _ _ ih => exact ih
  | replaceAll _ he | prepend _ he | trimEnd _ he => exact absurd he hedits

end Run

end Page

/-! ## Printing steps as runs -/

/-- A step puts its text behind what has been printed. -/
def Print.Extends (frame : Frame) (act : Print Unit) : Prop :=
  ∀ page page', act frame page = .ok ((), page') →
    ∃ text, page'.writer.text = page.writer.text ++ text

/-- A frame in which something is printed. -/
structure Printing.Frames (P : Printing) (frame : Frame) : Prop where
  provider : frame.provider = P.provider
  store : frame.store = P.store
  scopes : ∀ q ∈ frame.scopes, P.scope q

/-- Two printing steps do the same in every frame of a printing, and change the page by a run. -/
def Print.Alike (P : Printing) {α : Type} (act act' : Print α) : Prop :=
  ∀ frame, P.Frames frame → ∀ page, act' frame page = act frame page ∧
    ∀ a page', act frame page = .ok (a, page') → page.Run P page'

/-- A printing step changes the page by a run. -/
abbrev Print.Runs (P : Printing) {α : Type} (act : Print α) : Prop :=
  Print.Alike P act act

namespace Print.Alike

variable {P : Printing} {α β : Type}

/-- A step that succeeds by runs alone. -/
theorem self {act : Print α}
    (h : ∀ frame, P.Frames frame → ∀ page a page', act frame page = .ok (a, page') →
      page.Run P page') : Runs P act :=
  fun frame hframe page => ⟨rfl, h frame hframe page⟩

theorem pure (a : α) : Runs P (Pure.pure a : Print α) := by
  refine self fun frame _ page b page' h => ?_
  cases h
  exact .refl _

/-- What follows a step may rely on what is known of its result. -/
theorem bindOf {Q : α → Prop} {act act' : Print α} {next next' : α → Print β}
    (h : Alike P act act')
    (hresult : ∀ frame, P.Frames frame → ∀ page a page', act frame page = .ok (a, page') → Q a)
    (hnext : ∀ a, Q a → Alike P (next a) (next' a)) :
    Alike P (act >>= next) (act' >>= next') := by
  intro frame hframe page
  obtain ⟨hsame, hrun⟩ := h frame hframe page
  change (act' frame page >>= fun r => next' r.1 frame r.2) =
    (act frame page >>= fun r => next r.1 frame r.2) ∧ ∀ b page',
      (act frame page >>= fun r => next r.1 frame r.2) = .ok (b, page') →
        page.Run P page'
  rw [hsame]
  cases hact : act frame page with
  | error e => simp [Bind.bind, Except.bind]
  | ok r =>
    have hr := hresult frame hframe _ _ _ hact
    obtain ⟨hsame, hlater⟩ := hnext r.1 hr frame hframe r.2
    refine ⟨hsame, fun b page' h => ?_⟩
    exact (hrun _ _ hact).trans (hlater b page' h)

theorem bind {act act' : Print α} {next next' : α → Print β} (h : Alike P act act')
    (hnext : ∀ a, Alike P (next a) (next' a)) : Alike P (act >>= next) (act' >>= next') :=
  h.bindOf (Q := fun _ => True) (fun _ _ _ _ _ _ => trivial) fun a _ => hnext a

/-- A step after another one whose result is not used. -/
theorem andThen {act act' : Print Unit} {next next' : Print β} (h : Alike P act act')
    (hnext : Alike P next next') : Alike P (do act; next) (do act'; next') :=
  h.bind fun _ => hnext

/-- What follows a look at the frame may rely on what is in it. -/
theorem read {next next' : Frame → Print β}
    (hnext : ∀ frame, P.Frames frame → Alike P (next frame) (next' frame)) :
    Alike P (MonadReader.read >>= next) (MonadReader.read >>= next') := by
  intro frame hframe page
  exact hnext frame hframe frame hframe page

/-- What follows a look at the page. -/
theorem get {next next' : Page → Print β} (hnext : ∀ page, Alike P (next page) (next' page)) :
    Alike P (MonadState.get >>= next) (MonadState.get >>= next') := by
  intro frame hframe page
  exact hnext page frame hframe page

theorem throw (e : SqlError) : Runs P (MonadExcept.throw e : Print α) := by
  refine self fun frame _ page b page' h => ?_
  cases h

/-- A result that may be an error. -/
theorem except (r : Except SqlError α) : Runs P (liftM r : Print α) := by
  refine self fun frame _ page b page' h => ?_
  cases r with
  | error e => cases h
  | ok a =>
    cases h
    exact .refl _

theorem unsupported (construct : String) : Runs P (Print.unsupported construct : Print α) :=
  .read fun _ _ => .throw _

/-- A step under a condition. -/
theorem when {c : Prop} [Decidable c] {act act' : Print Unit} (h : Alike P act act') :
    Alike P (if c then act else Pure.pure ()) (if c then act' else Pure.pure ()) := by
  split
  · exact h
  · exact .pure _

/-- One of two steps. -/
theorem ite {c : Prop} [Decidable c] {act act' other other' : Print α} (h : Alike P act act')
    (hother : Alike P other other') :
    Alike P (if c then act else other) (if c then act' else other') := by
  split
  · exact h
  · exact hother

/-- A step under a condition and what follows in either case. -/
theorem whenThen {c : Prop} [Decidable c] {act act' : Print Unit} {next next' : Unit → Print β}
    (h : Alike P act act') (hnext : ∀ u, Alike P (next u) (next' u)) :
    Alike P (if c then act >>= next else next ()) (if c then act' >>= next' else next' ()) := by
  split
  · exact h.bind hnext
  · exact hnext ()

/-- A step in a frame of the same printing. -/
theorem withReader {f : Frame → Frame} {act act' : Print α}
    (hf : ∀ frame, P.Frames frame → P.Frames (f frame)) (h : Alike P act act') :
    Alike P (MonadWithReader.withReader f act) (MonadWithReader.withReader f act') := by
  intro frame hframe
  exact h (f frame) (hf frame hframe)

/-! ## The basic steps -/

theorem write {f : Writer → Writer} (h : ∀ page : Page, page.Run P (page.onWriter f)) :
    Runs P (Print.write f) := by
  refine self fun frame _ page a page' hrun => ?_
  cases hrun
  exact h page

theorem text (s : String) : Runs P (Print.text s) :=
  .write fun page => (Page.Run.refl page).add s

theorem newline : Runs P Print.newline :=
  .write fun page => (Page.Run.refl page).add _

theorem indentation : Runs P Print.indentation :=
  .write fun page => (Page.Run.refl page).add _

theorem line (s : String) : Runs P (Print.line s) :=
  (text s).andThen newline

theorem indentedLine (s : String) : Runs P (Print.indentedLine s) :=
  indentation.andThen (line s)

theorem identifier (s : String) : Runs P (Print.identifier s) :=
  .write fun page => (Page.Run.refl page).identifier s

theorem identifiers (names : List String) (separator : String) :
    Runs P (Print.write fun w => w.identifiers names separator) :=
  .write fun page => (Page.Run.refl page).identifiers names separator

theorem column (qualifier : Option String) (name : String) :
    Runs P (Print.write fun w => w.column qualifier name) :=
  .write fun page => (Page.Run.refl page).column qualifier name

theorem parameter {p : Parameter} (hp : P.parameter p) :
    Runs P (Print.write fun w => w.parameter p) :=
  .write fun page => (Page.Run.refl page).parameter hp

theorem objectName (n : ObjectName) : Runs P (Print.objectName n) :=
  .read fun _ _ => text _

/-- A step that changes the page alone. -/
theorem modifyPage {f : Page → Page} (h : ∀ page : Page, page.Run P (f page)) :
    Runs P (modify f : Print Unit) := by
  refine self fun frame _ page a page' hrun => ?_
  cases hrun
  exact h page

/-! ## Compound steps -/

theorem indented {act act' : Print Unit} (h : Alike P act act') :
    Alike P (Print.indented act) (Print.indented act') := by
  have hdeeper : Runs P Print.deeper := .write fun page => (Page.Run.refl page).deeper
  have hshallower : Runs P Print.shallower := .write fun page => (Page.Run.refl page).shallower
  exact hdeeper.andThen (h.andThen hshallower)

theorem parenthesized (wrap : Bool) {act act' : Print Unit} (h : Alike P act act') :
    Alike P (Print.parenthesized wrap act) (Print.parenthesized wrap act') :=
  whenThen (text "(") fun _ => h.andThen (when (text ")"))

theorem separatedBy {separator : Print Unit} (hseparator : Runs P separator)
    {acts acts' : List (Print Unit)} (h : List.Forall₂ (Alike P) acts acts') :
    Alike P (Print.separatedBy separator acts) (Print.separatedBy separator acts') := by
  induction h with
  | nil => exact .pure ()
  | cons hact hrest ih =>
    cases hrest with
    | nil => exact hact
    | cons hnext hlater => exact hact.andThen (hseparator.andThen ih)

theorem separated (separator : String) {acts acts' : List (Print Unit)}
    (h : List.Forall₂ (Alike P) acts acts') :
    Alike P (Print.separated separator acts) (Print.separated separator acts') :=
  separatedBy (text separator) h

theorem lines {acts acts' : List (Print Unit)} (h : List.Forall₂ (Alike P) acts acts') :
    Alike P (Print.lines acts) (Print.lines acts') := by
  apply separated
  rw [List.forall₂_map_left_iff, List.forall₂_map_right_iff]
  exact h.imp fun _ _ hact => indentation.andThen hact

/-- Steps for the items of a list. -/
theorem forItems {γ : Type} {act act' : γ → Print Unit} {items : List γ}
    (h : ∀ item ∈ items, Alike P (act item) (act' item)) :
    List.Forall₂ (Alike P) (items.map act) (items.map act') := by
  rw [List.forall₂_map_left_iff, List.forall₂_map_right_iff, List.forall₂_same]
  exact h

theorem forM {γ : Type} {act act' : γ → Print Unit} :
    ∀ {items : List γ}, (∀ item ∈ items, Alike P (act item) (act' item)) →
      Alike P (items.forM act) (items.forM act')
  | [], _ => .pure ()
  | item :: _, h =>
    (h item List.mem_cons_self).andThen <| forM fun a ha => h a (List.mem_cons_of_mem item ha)

/-- A part on a page of its own is a run from an empty writer that is appended. -/
theorem nested {f : Frame → Frame} {act act' : Print Unit}
    (hf : ∀ frame, P.Frames frame → P.Frames (f frame)) (h : Alike P act act') :
    Alike P (Print.nested f act) (Print.nested f act') := by
  intro frame hframe page
  obtain ⟨hsame, hrun⟩ := h (f frame) (hf frame hframe) { writer := page.writer.nested }
  change (act' (f frame) { writer := page.writer.nested } >>= fun r => _) =
    (act (f frame) { writer := page.writer.nested } >>= fun r => _) ∧ ∀ a page',
      (act (f frame) { writer := page.writer.nested } >>= fun r => _) = .ok (a, page') → _
  rw [hsame]
  refine ⟨rfl, fun a page' h => ?_⟩
  cases hact : act (f frame) { writer := page.writer.nested } with
  | error e => simp [hact, Bind.bind, Except.bind] at h
  | ok r =>
    rw [hact] at h
    cases h
    exact (Page.Run.refl page).append (hrun _ _ hact)

theorem nestedQuery {query query' : Print Unit} (aliasName : Option String) (isSubquery : Bool)
    (h : Alike P query query') :
    Alike P (Print.nestedQuery query aliasName isSubquery)
      (Print.nestedQuery query' aliasName isSubquery) := by
  have hdeeper : Runs P Print.deeper := .write fun page => (Page.Run.refl page).deeper
  exact nested (fun _ hframe => ⟨hframe.provider, hframe.store, hframe.scopes⟩)
    (hdeeper.andThen h)

end Print.Alike

end SqlCompiler
