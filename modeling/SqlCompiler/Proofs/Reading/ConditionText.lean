import SqlCompiler.Proofs.Reading.Grouping
import SqlCompiler.Proofs.Rendering.Queries
import SqlCompiler.Proofs.Semantics.Truth
import SqlCompiler.Render.Select

/-!
# The text of conditions

A condition is printed as a row of leaves, `NOT`, `AND`, `OR` and parentheses.  Where its lines are
broken depends on how much has been printed before, so the row of lexemes that a printing step
prints depends on the page.

Main results:

- Definition `Predicate.isLeaf`: predicates that are not put together from others.
- Definition `LogicUnit`, `LogicJoint`: the operands and connectives of a condition's text.
- Theorem `printLogic_addsTo`: what a row of these adds to a page are the texts of its lexemes.
- Definition `Print.Says` and its closure lemmas: a step prints a row of lexemes of some kind.
- Definition `conditionOperators`: `NOT` binds tighter than `AND`, and `AND` tighter than `OR`.
- Definition `logicOperators`: the same for someone who can read some tests for membership only.
- Definition `Leaves.spelled`: a search has the truth of the form that a dialect gives it.
-/

namespace SqlCompiler

/-! ## Leaves -/

/-- A scalar that is no condition with branches. -/
def Scalar.isLeaf : Scalar → Bool
  | .condition c => c.isEmpty
  | _ => true

/-- A predicate that is neither put together from others nor a search, which is printed in the form
that the dialect gives it. -/
def Predicate.isLeaf : Predicate → Bool
  | .nested _ | .search .. => false
  | .scalar e _ => e.isLeaf
  | .notScalar e negated _ => !negated && e.isLeaf
  | _ => true

/-- A search has the truth of the form that a dialect gives it. -/
def Leaves.spelled (α : Leaves) (d : Dialect) : Leaves :=
  { α with
    predicate := fun p =>
      match p with
      | .search .. => (d.legalSearch p).truthUnder α
      | p => α.predicate p }

theorem Dialect.truthUnder_legalSearch (d : Dialect) (α : Leaves) (operand : Scalar)
    (kind : SearchKind) (pattern : Scalar) (caseSensitive negated : Bool) :
    (d.legalSearch (.search operand kind pattern caseSensitive negated)).truthUnder (α.spelled d) =
      (Predicate.search operand kind pattern caseSensitive negated).truthUnder (α.spelled d) := by
  change _ = (d.legalSearch (.search operand kind pattern caseSensitive negated)).truthUnder α
  rw [legalSearch]
  split
  · cases negated <;> cases kind <;> rfl
  · rfl

/-! ## Lexemes -/

/-- An operand of a condition's text: a leaf in its place. -/
inductive LogicUnit where
  | predicate (p : Predicate) (isLeaf : p.isLeaf = true) (parent : Precedence) (wrapLines : Bool)
  | scalar (e : Scalar) (isLeaf : e.isLeaf = true) (parent : Precedence)
  /-- A part of the form that a dialect gives a search, which is printed a level below. -/
  | spelled (p : Predicate) (isLeaf : p.isLeaf = true) (parent : Precedence) (wrapLines : Bool)

/-- A connective between two operands, before a blank or a line break. -/
structure LogicJoint where
  joinsOr : Bool
  breaksLine : Bool
  deriving DecidableEq, Repr

/-- A row of leaves, connectives and parentheses. -/
abbrev LogicText := List (Lexeme LogicUnit Unit LogicJoint)

/-- How leaves are grouped by connectives. -/
abbrev LogicTree := ReadTree LogicUnit Unit LogicJoint

section

variable (fuel : Nat)

/-- Print an operand. -/
def LogicUnit.print : LogicUnit → Print Unit
  | predicate p _ parent wrapLines => p.print (.within (fuel + 1)) parent wrapLines
  | scalar e _ parent => e.print (.within (fuel + 1)) false parent false
  | spelled p _ parent wrapLines => p.print (.within fuel) parent wrapLines

/-- Print a connective. -/
def LogicJoint.print (joint : LogicJoint) : Print Unit := do
  Print.text (if joint.joinsOr then " OR" else " AND")
  if joint.breaksLine then
    Print.newline
    Print.indentation
  else Print.text " "

/-- Print a row of leaves, connectives and parentheses. -/
def printLogic : LogicText → Print Unit :=
  printLexemes (LogicUnit.print fuel) (fun _ => Print.text "NOT ") LogicJoint.print

end

/-- The truth of an operand. -/
def LogicUnit.truth (α : Leaves) : LogicUnit → Truth
  | predicate p _ _ _ | spelled p _ _ _ => p.truthUnder α
  | scalar e _ _ => e.truthUnder α

/-- What a connective makes of two truth values. -/
def LogicJoint.apply (joint : LogicJoint) : Truth → Truth → Truth :=
  if joint.joinsOr then Truth.or else Truth.and

/-- The truth of grouped leaves. -/
def LogicTree.truth (α : Leaves) : LogicTree → Truth :=
  ReadTree.value (LogicUnit.truth α) (fun _ => Truth.not) LogicJoint.apply

/-- `NOT` binds tighter than `AND`, and `AND` tighter than `OR`. -/
def conditionOperators : OperatorTable LogicUnit Unit LogicJoint where
  operand _ := Precedence.primary
  sign _ := Precedence.logicalNegation
  joint joint :=
    if joint.joinsOr then Precedence.logicalDisjunction else Precedence.logicalConjunction
  chains _ := true

/-- Of which operands the tests for membership in which lists can be read. -/
abbrev Legibility := Scalar → List Scalar → Bool

/-- How tightly a leaf binds for someone who can read some tests for membership only. -/
def LogicUnit.strength (legible : Legibility) : LogicUnit → Int
  | predicate (.inList operand items _ _) _ _ _ =>
    if legible operand items then Precedence.primary else Precedence.unknown - 1
  | _ => Precedence.primary

/-- How tightly the operators of a condition bind for someone who can read some tests for membership
only. -/
def logicOperators (legible : Legibility) : OperatorTable LogicUnit Unit LogicJoint :=
  { conditionOperators with operand := LogicUnit.strength legible }

theorem logicOperators_all : logicOperators (fun _ _ => true) = conditionOperators := by
  have hoperand : LogicUnit.strength (fun _ _ => true) = conditionOperators.operand := by
    funext u
    cases u with
    | predicate p isLeaf parent wrapLines => cases p <;> rfl
    | scalar | spelled => rfl
  rw [logicOperators, hoperand]

/-- What has been added to a page are texts of the lexemes of a row, one behind the other. -/
def LogicText.AddsTo (fuel : Nat) (frame : Frame) (ls : LogicText) (page page' : Page) : Prop :=
  ∃ texts : List String, List.Forall₂ (fun l => Print.Adds frame (printLogic fuel [l])) ls texts ∧
    page'.writer.text = page.writer.text ++ String.join texts

/-! ## Printing steps -/

/-- The printing of whatever there is, where what has been printed stays. -/
def Frame.printing (frame : Frame) : Printing where
  provider := frame.provider
  store := frame.store
  edits := False
  parameter _ := True
  query _ := True
  scope _ := True
  inScope _ _ := trivial

section

variable {fuel : Nat} {frame : Frame}

theorem Frame.printing_within (scalars : List Scalar) : Within frame.printing scalars := by
  intro e _
  cases e <;> trivial

theorem Frame.within_alike : (NextLevel.within fuel).Alike frame.printing (.within fuel) :=
  NextLevel.within_alike ⟨fun _ _ _ _ _ => trivial, fun _ _ => printing_within _,
    fun _ _ => .of_walkQuery (printing_within _) fun _ _ _ _ => printing_within _⟩ fuel

/-- A step that changes the page by a run extends it. -/
theorem Print.Runs.extends {act : Print Unit} (h : Print.Runs frame.printing act) :
    Print.Extends frame act := fun page page' hact =>
  ((h frame ⟨rfl, rfl, fun _ _ => trivial⟩ page).2 () page' hact).text_append id

theorem LogicUnit.print_extends (u : LogicUnit) : Print.Extends frame (u.print fuel) := by
  cases u with
  | predicate p isLeaf parent wrapLines | spelled p isLeaf parent wrapLines =>
    exact Print.Runs.extends
      (Predicate.print_alike Frame.within_alike p (Frame.printing_within _) parent wrapLines)
  | scalar e isLeaf parent =>
    exact Print.Runs.extends
      (Scalar.print_alike Frame.within_alike e (Frame.printing_within _) false parent false)

theorem printLogic_addsTo {ls : LogicText} {page page' : Page}
    (h : printLogic fuel ls frame page = .ok ((), page')) : ls.AddsTo fuel frame page page' := by
  have htext (s : String) : Print.Extends frame (Print.text s) :=
    Print.Runs.extends (.text s)
  simp only [LogicText.AddsTo, printLogic, printLexemes_single]
  refine printLexemes_text (fun l => ?_) h
  cases l with
  | opening | closing | sign => exact htext _
  | operand u => exact u.print_extends
  | joint op =>
    exact Print.Runs.extends (.andThen (.text _) (.ite (.andThen .newline .indentation) (.text _)))

end

/-- In a frame, a step prints a row of lexemes of some kind, or fails like printing it. -/
def Print.Says (fuel : Nat) (frame : Frame) (act : Print Unit) (S : LogicText → Prop) : Prop :=
  ∀ page, ∃ ls, S ls ∧ act frame page = printLogic fuel ls frame page

namespace Print.Says

variable {fuel : Nat} {frame : Frame} {act act' : Print Unit} {S S' : LogicText → Prop}

theorem of_lexemes {ls : LogicText} (h : S ls) (hact : act frame = printLogic fuel ls frame) :
    Says fuel frame act S := fun _ => ⟨ls, h, by rw [hact]⟩

theorem mono (h : Says fuel frame act S) (hS : ∀ ls, S ls → S' ls) : Says fuel frame act S' := fun page => by
  obtain ⟨ls, hls, hact⟩ := h page
  exact ⟨ls, hS ls hls, hact⟩

theorem congr (h : Says fuel frame act S) (hact : act' frame = act frame) : Says fuel frame act' S :=
  fun page => by
    obtain ⟨ls, hls, hprint⟩ := h page
    exact ⟨ls, hls, by rw [hact, hprint]⟩

/-- Steps one after the other print their rows one behind the other. -/
theorem append (h : Says fuel frame act S) (h' : Says fuel frame act' S') :
    Says fuel frame (do act; act') fun ls => ∃ l r, S l ∧ S' r ∧ ls = l ++ r := by
  intro page
  obtain ⟨l, hl, hact⟩ := h page
  have hprint (r : LogicText) : printLogic fuel (l ++ r) frame page =
      printLogic fuel l frame page >>= fun result => printLogic fuel r frame result.2 := by
    rw [printLogic, printLexemes_append]
    rfl
  have hbind : (do act; act' : Print Unit) frame page =
      printLogic fuel l frame page >>= fun result => act' frame result.2 := by
    rw [← hact]
    rfl
  cases hpage : printLogic fuel l frame page with
  | error e =>
    obtain ⟨r, hr, -⟩ := h' page
    refine ⟨l ++ r, ⟨l, r, hl, hr, rfl⟩, ?_⟩
    rw [hbind, hprint, hpage]
    rfl
  | ok result =>
    obtain ⟨r, hr, hact'⟩ := h' result.2
    refine ⟨l ++ r, ⟨l, r, hl, hr, rfl⟩, ?_⟩
    rw [hbind, hprint, hpage]
    exact hact'

/-- A step in parentheses prints its row in parentheses. -/
theorem parenthesized (h : Says fuel frame act S) (wrap : Bool) :
    Says fuel frame (Print.parenthesized wrap act) fun ls => ∃ l, S l ∧ ls = parenthesize wrap l := by
  cases wrap with
  | false =>
    have hbare : Print.parenthesized false act = act := by simp [Print.parenthesized]
    rw [hbare]
    exact h.mono fun ls hls => ⟨ls, hls, rfl⟩
  | true =>
    have hopening : Says fuel frame (Print.text "(") fun ls => ls = [.opening] :=
      of_lexemes rfl (by simp [printLogic, Lexeme.print])
    have hclosing : Says fuel frame (Print.text ")") fun ls => ls = [.closing] :=
      of_lexemes rfl (by simp [printLogic, Lexeme.print])
    refine (hopening.append (h.append hclosing)).mono ?_
    rintro _ ⟨_, _, rfl, ⟨l, _, hl, rfl, rfl⟩, rfl⟩
    exact ⟨l, hl, rfl⟩

/-- A step may look at the length of the page. -/
theorem afterLength {next : Nat → Print Unit} (h : ∀ n, Says fuel frame (next n) S) :
    Says fuel frame (Print.length >>= next) S := fun page => h page.writer.length page

/-- `NOT` in front of what a step prints. -/
theorem sign (h : Says fuel frame act S) :
    Says fuel frame (do Print.text "NOT "; act) fun ls => ∃ l, S l ∧ ls = .sign () :: l := by
  have hsign : Says fuel frame (Print.text "NOT ") fun ls => ls = [.sign ()] :=
    of_lexemes rfl (by simp [printLogic, Lexeme.print])
  refine (hsign.append h).mono ?_
  rintro _ ⟨_, l, rfl, hl, rfl⟩
  exact ⟨l, hl, rfl⟩

/-- What joins a branch to the next one is its connective. -/
theorem joint (layout : BranchLayout) (joinsOr : Bool) :
    Says fuel frame (printJoint layout joinsOr) fun ls =>
      ∃ breaksLine, ls = [.joint ⟨joinsOr, breaksLine⟩] := by
  intro page
  have hgap (page : Page) : ∃ breaksLine : Bool,
      (do
        let fits := layout.count < 4 && (← Print.length) - layout.start < 50
        if fits || !layout.wrapLines then Print.text " "
        else
          Print.newline
          Print.indentation : Print Unit) frame page =
        (if breaksLine then do
          Print.newline
          Print.indentation
        else Print.text " " : Print Unit) frame page := by
    refine ⟨!((layout.count < 4 && page.writer.length - layout.start < 50) ||
      !layout.wrapLines), ?_⟩
    change (if ((layout.count < 4 && page.writer.length - layout.start < 50) ||
      !layout.wrapLines) = true then _ else _ : Print Unit) frame page = _
    cases (layout.count < 4 && page.writer.length - layout.start < 50 : Bool) ||
      !layout.wrapLines <;> rfl
  obtain ⟨breaksLine, hbreaks⟩ :=
    hgap { page with writer := page.writer.add (if joinsOr then " OR" else " AND") }
  refine ⟨[.joint ⟨joinsOr, breaksLine⟩], ⟨breaksLine, rfl⟩, ?_⟩
  rw [printLogic, printLexemes_single]
  exact hbreaks

theorem unit (u : LogicUnit) (h : S [.operand u]) : Says fuel frame (u.print fuel) S :=
  of_lexemes h (by simp [printLogic, Lexeme.print])

end Print.Says

end SqlCompiler
