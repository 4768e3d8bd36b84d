import SqlCompiler.Proofs.Reading.ConditionText
import SqlCompiler.Render.Select

/-!
# Reading conditions back

The printer of a condition knows only the strength of its parent, and puts parentheses around what
binds less tightly.  A reader who knows how `NOT`, `AND` and `OR` bind finds the truth of the
condition in the text.

What is known of a text is its strength: it is read on every level below it.  What a predicate, a
branch or a condition prints has the strength that its parent asks for, and a parent that joins such
texts makes one of its own strength.

Main results:

- Definition `GroupsAs`: on which levels a text is read.
- Theorem `printBranches_groupsAs`: the text of branches has the strength of their condition.
- Theorem `Predicate.readsBack`: the text of a predicate stands under a parent of any strength up to
  that of `NOT`.
- Definition `Condition.isLegible`: which tests for membership a reader has to know to read a
  condition.
- Theorem `Condition.print_reads`: the text of a condition is grouped with its truth.
- Theorem `Condition.printed_keepsTruth`: a condition survives printing.
-/

namespace SqlCompiler

open Precedence (logicalDisjunction logicalConjunction logicalNegation)

/-! ## How tightly a text binds -/

/-- A text is read as operands with `AND` between them. -/
abbrev Conjunction (legible : Legibility) (ls : LogicText) (v : LogicTree) : Prop :=
  (logicOperators legible).Chain logicalConjunction (logicalConjunction + 1) (·.joinsOr = false) ls v

/-- A text is read as conjunctions with `OR` between them. -/
abbrev Disjunction (legible : Legibility) (ls : LogicText) (v : LogicTree) : Prop :=
  (logicOperators legible).Chain logicalDisjunction (logicalDisjunction + 1) (·.joinsOr = true) ls v

/-- A text is read as one that binds as tightly as given. -/
structure GroupsAs (legible : Legibility) (strength : Int) (ls : LogicText)
    (v : LogicTree) : Prop where
  disjunction : Disjunction legible ls v
  conjunction : (logicalDisjunction : Int) < strength → Conjunction legible ls v
  factor : (logicalConjunction : Int) < strength →
    (logicOperators legible).Reads (logicalConjunction + 1) ls v
  operand : (logicalNegation : Int) < strength →
    (logicOperators legible).Reads (logicalNegation + 1) ls v

variable {legible : Legibility}

namespace GroupsAs

variable {strength strength' : Int} {ls : LogicText} {v : LogicTree}

theorem of_disjunction (h : Disjunction legible ls v) (hle : strength ≤ logicalDisjunction) :
    GroupsAs legible strength ls v where
  disjunction := h
  conjunction hlt := absurd hlt (Int.not_lt.mpr hle)
  factor hlt := absurd (Int.lt_of_lt_of_le hlt hle) (by decide)
  operand hlt := absurd (Int.lt_of_lt_of_le hlt hle) (by decide)

theorem of_conjunction (h : Conjunction legible ls v) (hle : strength ≤ logicalConjunction) :
    GroupsAs legible strength ls v where
  disjunction := .first ((h.reads (by decide)).mono (by decide))
  conjunction _ := h
  factor hlt := absurd hlt (Int.not_lt.mpr hle)
  operand hlt := absurd (Int.lt_of_lt_of_le hlt hle) (by decide)

theorem of_factor (h : (logicOperators legible).Reads (logicalConjunction + 1) ls v)
    (hle : strength ≤ logicalNegation) : GroupsAs legible strength ls v where
  disjunction := .first (h.mono (by decide))
  conjunction _ := .first h
  factor _ := h
  operand hlt := absurd hlt (Int.not_lt.mpr hle)

theorem of_operand (h : (logicOperators legible).Reads (logicalNegation + 1) ls v) :
    GroupsAs legible strength ls v where
  disjunction := .first (h.mono (by decide))
  conjunction _ := .first (h.mono (by decide))
  factor _ := h.mono (by decide)
  operand _ := h

theorem reads (h : GroupsAs legible strength ls v) :
    (logicOperators legible).Reads Precedence.unknown ls v :=
  (h.disjunction.reads (by decide)).mono (by decide)

/-- What is in parentheses binds as tightly as anything. -/
theorem parenthesize (h : GroupsAs legible strength ls v) :
    GroupsAs legible strength' (parenthesize true ls) v :=
  .of_operand (.group (by decide) h.reads)

theorem enclosed (h : GroupsAs legible strength ls v) (wrap : Bool) :
    GroupsAs legible strength (SqlCompiler.parenthesize wrap ls) v := by
  cases wrap with
  | true => exact h.parenthesize
  | false => exact h

/-- A leaf that can be read binds as tightly as anything. -/
theorem unit {u : LogicUnit} (hu : u.strength legible = Precedence.primary) :
    GroupsAs legible strength [.operand u] (.operand u) := by
  refine .of_operand (.operand ?_)
  change (logicalNegation + 1 : Int) ≤ u.strength legible
  rw [hu]
  decide

/-- `NOT` in front of an operand. -/
theorem sign (h : GroupsAs legible strength ls v) (hlt : (logicalNegation : Int) < strength) :
    GroupsAs legible logicalNegation (.sign () :: ls) (.signed () v) :=
  .of_factor (.signed (show logicalConjunction + 1 ≤ logicalNegation by decide) (h.operand hlt))
    (Int.le_refl _)

end GroupsAs

/-! ## Connectives -/

section

variable {ls rs : LogicText} {v w : LogicTree}

/-- A conjunction behind an `AND` goes on with the one before it. -/
theorem Conjunction.and (h : Conjunction legible ls v) (hr : Conjunction legible rs w)
    (breaksLine : Bool) :
    ∃ u, Conjunction legible (ls ++ .joint ⟨false, breaksLine⟩ :: rs) u ∧
      ∀ α, u.truth α = Truth.and (v.truth α) (w.truth α) := by
  obtain ⟨u, hu, hvalue⟩ := h.extend ⟨false, breaksLine⟩ rfl rfl rfl hr fun _ h => h
  refine ⟨u, hu, fun α => hvalue _ _ _ fun op' hop' a b c => ?_⟩
  simp only [LogicJoint.apply, hop', Bool.false_eq_true, if_false]
  exact (Truth.and_assoc a b c).symm

/-- A disjunction behind an `OR` goes on with the one before it. -/
theorem Disjunction.or (h : Disjunction legible ls v) (hr : Disjunction legible rs w)
    (breaksLine : Bool) :
    ∃ u, Disjunction legible (ls ++ .joint ⟨true, breaksLine⟩ :: rs) u ∧
      ∀ α, u.truth α = Truth.or (v.truth α) (w.truth α) := by
  obtain ⟨u, hu, hvalue⟩ := h.extend ⟨true, breaksLine⟩ rfl rfl rfl hr fun _ h => h
  refine ⟨u, hu, fun α => hvalue _ _ _ fun op' hop' a b c => ?_⟩
  simp only [LogicJoint.apply, hop', if_true]
  exact (Truth.or_assoc a b c).symm

/-- A conjunction is a disjunction of one. -/
theorem Conjunction.disjunction (h : Conjunction legible ls v) : Disjunction legible ls v :=
  .first ((h.reads (by decide)).mono (by decide))

end

/-! ## Branches -/

section

variable {fuel : Nat} {next : NextLevel} {frame : Frame}

/-- Grouped leaves have a truth, where searches are spelled as the dialect does. -/
def LogicTree.Means (frame : Frame) (v : LogicTree) (truth : Leaves → Truth) : Prop :=
  ∀ α : Leaves, v.truth (α.spelled frame.dialect) = truth (α.spelled frame.dialect)

/-- The text of branches is a conjunction, which goes on with any conjunction before it. -/
def SaysConjunction (legible : Legibility) (frame : Frame) (branches : List Branch)
    (ls : LogicText) : Prop :=
  ∃ v, Conjunction legible ls v ∧ ∀ (α : Leaves) (acc : Truth),
    branchesTruthUnder (α.spelled frame.dialect) branches acc =
      Truth.and acc (v.truth (α.spelled frame.dialect))

/-- The text of branches is a conjunction, which goes on with any conjunction before it, and a
disjunction after it. -/
def SaysDisjunction (legible : Legibility) (frame : Frame) (branches : List Branch)
    (ls : LogicText) : Prop :=
  ∃ first rest v w breaksLine, ls = first ++ .joint ⟨true, breaksLine⟩ :: rest ∧
    Conjunction legible first v ∧ Disjunction legible rest w ∧ ∀ (α : Leaves) (acc : Truth),
      branchesTruthUnder (α.spelled frame.dialect) branches acc =
        Truth.or (Truth.and acc (v.truth (α.spelled frame.dialect)))
          (w.truth (α.spelled frame.dialect))

/-- The text of a branch is a conjunction. -/
def Branch.IsConjunct (legible : Legibility) (fuel : Nat) (next : NextLevel) (frame : Frame)
    (layout : BranchLayout) (b : Branch) : Prop :=
  Print.Says fuel frame (b.print next layout) fun ls =>
    ∃ v, Conjunction legible ls v ∧ LogicTree.Means frame v fun α => b.truthUnder α

/-- As a disjunction, the branches have the truth they have after no conjunction. -/
theorem SaysDisjunction.disjunction {branches : List Branch} {ls : LogicText}
    (h : SaysConjunction legible frame branches ls ∨ SaysDisjunction legible frame branches ls) :
    ∃ v, Disjunction legible ls v ∧ LogicTree.Means frame v
      fun α => branchesTruthUnder α branches (some true) := by
  rcases h with ⟨v, hv, htruth⟩ | ⟨first, rest, v, w, breaksLine, rfl, hv, hw, htruth⟩
  · exact ⟨v, hv.disjunction, fun α => by simp [htruth]⟩
  · obtain ⟨u, hu, hvalue⟩ := hv.disjunction.or hw breaksLine
    exact ⟨u, hu, fun α => by simp [htruth, hvalue]⟩

/-- Branches in a row are printed as a conjunction or as a disjunction; as a conjunction, if none
but the last is joined by `OR`. -/
theorem printBranches_grouped (layout : BranchLayout) :
    ∀ {branches : List Branch}, branches ≠ [] →
      (∀ b ∈ branches, b.IsConjunct legible fuel next frame layout) →
      Print.Says fuel frame (printBranches next layout branches) fun ls =>
        SaysConjunction legible frame branches ls ∨
          onlyAnds branches = false ∧ SaysDisjunction legible frame branches ls
  | [], hne, _ => absurd rfl hne
  | [b], _, hall => by
    have hprint : printBranches next layout [b] = b.print next layout := by
      simp [printBranches]
    rw [hprint]
    refine (hall b (List.mem_singleton_self b)).mono ?_
    rintro ls ⟨v, hv, htruth⟩
    exact .inl ⟨v, hv, fun α acc => by rw [htruth α]; rfl⟩
  | b :: c :: rest, _, hall => by
    have hprint : printBranches next layout (b :: c :: rest) = (do
        b.print next layout
        printJoint layout b.joinsOr
        printBranches next layout (c :: rest)) := by
      rw [printBranches]
      rfl
    have hrest := printBranches_grouped layout (List.cons_ne_nil c rest)
      fun d hd => hall d (List.mem_cons_of_mem b hd)
    rw [hprint]
    refine ((hall b (List.mem_cons_self ..)).append ((Print.Says.joint layout b.joinsOr).append
      hrest)).mono ?_
    rintro _ ⟨ls, _, ⟨v, hv, htruth⟩, ⟨_, rs, ⟨breaksLine, rfl⟩, hrs, rfl⟩, rfl⟩
    have hstep (α : Leaves) (acc : Truth) :
        branchesTruthUnder α (b :: c :: rest) acc =
          if b.joinsOr then Truth.or (Truth.and acc (b.truthUnder α))
            (branchesTruthUnder α (c :: rest) (some true))
          else branchesTruthUnder α (c :: rest) (Truth.and acc (b.truthUnder α)) := rfl
    rw [onlyAnds_cons_cons]
    cases hjoins : b.joinsOr with
    | true =>
      obtain ⟨w, hw, hwtruth⟩ := SaysDisjunction.disjunction (hrs.imp_right And.right)
      refine .inr ⟨rfl, ls, rs, v, w, breaksLine, rfl, hv, hw, fun α acc => ?_⟩
      rw [hstep, hjoins, if_pos rfl, htruth α, hwtruth α]
    | false =>
      rcases hrs with ⟨w, hw, hwtruth⟩ |
        ⟨honly, first, after, w, w', breaks', rfl, hw, hw', hwtruth⟩
      · obtain ⟨u, hu, hutruth⟩ := hv.and hw breaksLine
        refine .inl ⟨u, hu, fun α acc => ?_⟩
        rw [hstep, hjoins, if_neg Bool.false_ne_true, hwtruth, hutruth, htruth α,
          Truth.and_assoc]
      · obtain ⟨u, hu, hutruth⟩ := hv.and hw breaksLine
        refine .inr ⟨by rw [honly]; rfl, _, after, u, w', breaks', by simp, hu, hw',
          fun α acc => ?_⟩
        rw [hstep, hjoins, if_neg Bool.false_ne_true, hwtruth, hutruth, htruth α,
          Truth.and_assoc]

/-! ## Predicates in their places -/

/-- A text stands without any more parentheses under a parent of given strength.  As an operand of
`AND`, it also binds tighter than `NOT` if the strength that it is known by is higher, or so low
that there are parentheses around it. -/
def Stands (legible : Legibility) (parent known : Int) (ls : LogicText) (v : LogicTree) :
    Prop :=
  ∃ strength, Precedence.needsWrap strength parent = false ∧
    ((logicalConjunction : Int) < parent → known < parent ∨ (logicalNegation : Int) < known →
      (logicalNegation : Int) < strength) ∧
    GroupsAs legible strength ls v

/-- Under a parent that binds at most as tightly as `NOT`, the text of a predicate stands, and has
the truth of the predicate. -/
def Predicate.ReadsBack (legible : Legibility) (fuel : Nat) (next : NextLevel) (frame : Frame)
    (p : Predicate) : Prop :=
  ∀ parent : Int, parent ≤ logicalNegation → ∀ wrapLines : Bool,
    Print.Says fuel frame (p.print next parent wrapLines) fun ls => ∃ v,
      Stands legible parent p.precedence ls v ∧ LogicTree.Means frame v fun α => p.truthUnder α

/-- The text of a branch binds as tightly as its condition asks for. -/
theorem Branch.print_groupsAs {b : Branch} (h : b.predicate.ReadsBack legible fuel next frame)
    {layout : BranchLayout} (hstrength : (layout.strength : Int) ≤ logicalNegation) :
    Print.Says fuel frame (b.print next layout) fun ls => ∃ v strength,
      (layout.strength : Int) ≤ strength ∧
      ((logicalConjunction : Int) < layout.strength → (logicalNegation : Int) < b.precedence →
        (logicalNegation : Int) < strength) ∧
      GroupsAs legible strength ls v ∧ LogicTree.Means frame v fun α => b.truthUnder α := by
  obtain ⟨negated, predicate, joinsOr⟩ := b
  cases negated with
  | false =>
    refine (h layout.strength hstrength layout.wrapLines).mono ?_
    rintro ls ⟨v, ⟨strength, hbare, htight, hgroups⟩, htruth⟩
    exact ⟨v, strength, Precedence.le_of_needsWrap hbare, fun hlt hb => htight hlt (.inr hb),
      hgroups, htruth⟩
  | true =>
    refine ((h logicalNegation (Int.le_refl _) layout.wrapLines).sign).mono ?_
    rintro _ ⟨ls, ⟨v, ⟨strength, hbare, -, hgroups⟩, htruth⟩, rfl⟩
    refine ⟨.signed () v, logicalNegation, hstrength, fun _ hlt => absurd hlt (Int.lt_irrefl _),
      hgroups.sign (Precedence.lt_of_needsWrap hbare), fun α => ?_⟩
    exact congrArg Truth.not (htruth α)

/-- The branches of a condition are printed as a text that binds as tightly as the condition. -/
theorem printBranches_groupsAs {branches : List Branch} (hne : branches ≠ [])
    (hall : ∀ b ∈ branches, b.predicate.ReadsBack legible fuel next frame) {layout : BranchLayout}
    (hlayout : layout.strength = (if Condition.hasOr ⟨branches⟩ then
      logicalDisjunction else logicalConjunction : Precedence) + 1) :
    Print.Says fuel frame (printBranches next layout branches) fun ls => ∃ v,
      GroupsAs legible (Condition.precedence ⟨branches⟩) ls v ∧
        LogicTree.Means frame v fun α => branchesTruthUnder α branches (some true) := by
  have hlow : (logicalDisjunction : Int) < layout.strength ∧
      (layout.strength : Int) ≤ logicalNegation := by
    rw [hlayout]
    split <;> decide
  match branches, hne with
  | [b], _ =>
    have hb := Branch.print_groupsAs (hall b (List.mem_singleton_self b)) hlow.2
    have hprint : printBranches next layout [b] = b.print next layout := by
      simp [printBranches]
    have htight : (logicalConjunction : Int) < layout.strength := by
      rw [hlayout]
      exact Int.lt_succ _
    rw [hprint]
    refine hb.mono ?_
    rintro ls ⟨v, strength, hle, hlt, hgroups, htruth⟩
    refine ⟨v, ?_, fun α => by rw [htruth α]; simp [branchesTruthUnder]⟩
    by_cases hb : (logicalNegation : Int) < b.precedence
    · exact .of_operand (hgroups.operand (hlt htight hb))
    · exact .of_factor (hgroups.factor (Int.lt_of_lt_of_le htight hle)) (Int.not_lt.mp hb)
  | b :: c :: rest, hne =>
    have hconjuncts : ∀ d ∈ b :: c :: rest, d.IsConjunct legible fuel next frame layout := fun d hd => by
      refine (Branch.print_groupsAs (hall d hd) hlow.2).mono ?_
      rintro ls ⟨v, strength, hle, -, hgroups, htruth⟩
      exact ⟨v, hgroups.conjunction (Int.lt_of_lt_of_le hlow.1 hle), htruth⟩
    refine (printBranches_grouped layout hne hconjuncts).mono fun ls hls => ?_
    cases hor : Condition.hasOr ⟨b :: c :: rest⟩ with
    | true =>
      have hprecedence : Condition.precedence ⟨b :: c :: rest⟩ = logicalDisjunction :=
        if_pos hor
      obtain ⟨v, hv, htruth⟩ := SaysDisjunction.disjunction (hls.imp_right And.right)
      exact ⟨v, .of_disjunction hv (Int.le_of_eq hprecedence), htruth⟩
    | false =>
      have hprecedence : Condition.precedence ⟨b :: c :: rest⟩ = logicalConjunction :=
        if_neg (Bool.eq_false_iff.mp hor)
      have honly : onlyAnds (b :: c :: rest) = true := congrArg not hor
      rcases hls with ⟨v, hv, htruth⟩ | ⟨hnot, -⟩
      · exact ⟨v, .of_conjunction hv (Int.le_of_eq hprecedence), fun α => by simp [htruth]⟩
      · exact absurd (honly.symm.trans hnot) (by decide)

/-- The text of a condition without parentheses around it binds as tightly as the condition. -/
theorem Condition.print_groupsAs {c : Condition} (hne : c.branches ≠ [])
    (hall : ∀ b ∈ c.branches, b.predicate.ReadsBack legible fuel next frame) (parent : Precedence)
    (wrapLines : Bool) :
    Print.Says fuel frame (c.print next parent wrapLines) fun ls => ∃ l v,
      ls = parenthesize (c.precedence.needsWrap parent) l ∧ GroupsAs legible c.precedence l v ∧
        LogicTree.Means frame v fun α => c.truthUnder α := by
  obtain ⟨branches⟩ := c
  rw [print]
  refine (Print.Says.parenthesized (.afterLength fun start => printBranches_groupsAs hne hall rfl)
    _).mono ?_
  rintro _ ⟨ls, ⟨v, hgroups, htruth⟩, rfl⟩
  exact ⟨ls, v, rfl, hgroups, htruth⟩

/-! ## Kinds of predicates -/

/-- What is put in parentheses where its parent asks for it stands there. -/
theorem Stands.of_groupsAs {parent known strength : Int} {wrap : Bool} {ls : LogicText}
    {v : LogicTree} (hparent : parent ≤ logicalNegation) (h : GroupsAs legible strength ls v)
    (hbare : wrap = false → Precedence.needsWrap strength parent = false ∧ parent ≤ known ∧
      ((logicalNegation : Int) < known → (logicalNegation : Int) < strength)) :
    Stands legible parent known (parenthesize wrap ls) v := by
  cases wrap with
  | true => exact ⟨Precedence.primary, Precedence.needsWrap_primary hparent, fun _ _ => by decide,
      h.parenthesize⟩
  | false =>
    obtain ⟨hstands, hle, htight⟩ := hbare rfl
    have hhigher : (logicalConjunction : Int) < parent →
        known < parent ∨ (logicalNegation : Int) < known → (logicalNegation : Int) < strength :=
      fun _ hknown => htight (hknown.resolve_left (Int.not_lt.mpr hle))
    exact ⟨strength, hstands, hhigher, h⟩

/-- A leaf that can be read is an operand of the text. -/
theorem Predicate.readsBack_leaf {p : Predicate} (h : p.isLeaf = true)
    (hlegible : ∀ parent wrapLines,
      (LogicUnit.predicate p h parent wrapLines).strength legible = Precedence.primary) :
    p.ReadsBack legible fuel (.within (fuel + 1)) frame := by
  intro parent hparent wrapLines
  exact .unit (.predicate p h parent wrapLines) ⟨_, ⟨Precedence.primary,
    Precedence.needsWrap_primary hparent, fun _ _ => by decide, .unit (hlegible _ _)⟩,
    fun _ => rfl⟩

/-- So is a part of the form that a dialect gives a search. -/
theorem Predicate.readsBack_spelled {p : Predicate} (h : p.isLeaf = true) :
    p.ReadsBack legible fuel (.within fuel) frame := by
  intro parent hparent wrapLines
  exact .unit (.spelled p h parent wrapLines) ⟨_, ⟨Precedence.primary,
    Precedence.needsWrap_primary hparent, fun _ _ => by decide, .unit rfl⟩, fun _ => rfl⟩

/-- A nested condition is a text of its own, in parentheses where they are needed. -/
theorem Predicate.readsBack_nested {c : Condition} (hne : c.branches ≠ [])
    (hall : ∀ b ∈ c.branches, b.predicate.ReadsBack legible fuel next frame) :
    (Predicate.nested c).ReadsBack legible fuel next frame := by
  intro parent hparent wrapLines
  refine ((Condition.print_groupsAs hne hall parent wrapLines).congr ?_).mono ?_
  · rw [Predicate.print]
  · rintro _ ⟨ls, v, rfl, hgroups, htruth⟩
    refine ⟨v, .of_groupsAs hparent hgroups fun hbare => ?_, htruth⟩
    exact ⟨hbare, Precedence.le_of_needsWrap hbare, id⟩

/-- A dialect spells a search as one predicate, or as a condition of two where it has to look at the
case. -/
theorem Dialect.legalSearch_form (d : Dialect) (operand : Scalar) (kind : SearchKind)
    (pattern : Scalar) (caseSensitive negated : Bool) :
    d.legalSearch (.search operand kind pattern caseSensitive negated) =
        d.likeSearch operand kind pattern negated ∨
      d.legalSearch (.search operand kind pattern caseSensitive negated) =
        .nested ⟨[⟨false, d.likeSearch operand kind pattern negated, negated⟩,
          ⟨negated, caseSensitiveCheck kind operand pattern, false⟩]⟩ := by
  rw [legalSearch]
  split
  · exact .inr (by cases negated <;> cases kind <;> rfl)
  · exact .inl rfl

/-- The text of a scalar in the place of a predicate binds as tightly as its parent asks for. -/
def Scalar.ReadsBack (legible : Legibility) (fuel : Nat) (next : NextLevel) (frame : Frame)
    (e : Scalar) : Prop :=
  ∀ parent : Int, Print.Says fuel frame (e.print next false parent false) fun ls => ∃ v strength,
    (strength = Precedence.primary ∨ Precedence.needsWrap strength parent = false) ∧
      GroupsAs legible strength ls v ∧ LogicTree.Means frame v fun α => e.truthUnder α

theorem Scalar.readsBack_leaf {e : Scalar} (h : e.isLeaf = true) :
    e.ReadsBack legible fuel (.within (fuel + 1)) frame := fun parent => .unit (.scalar e h parent)
    ⟨_, Precedence.primary, .inl rfl, .unit rfl, fun _ => rfl⟩

/-- A condition as a scalar is a text of its own. -/
theorem Scalar.readsBack_condition {c : Condition} (hne : c.branches ≠ [])
    (hall : ∀ b ∈ c.branches, b.predicate.ReadsBack legible fuel next frame) :
    (Scalar.condition c).ReadsBack legible fuel next frame := by
  intro parent
  have hprint : (Scalar.condition c).print next false parent false frame =
      Print.parenthesized (c.precedence.needsWrap parent) (c.print next .unknown false) frame := by
    have hbranches : c.isEmpty = false := by simpa [Condition.isEmpty] using hne
    have hstrength (page : Page) :
        printedPrecedence (.condition c) false frame page = .ok (c.precedence, page) := rfl
    rw [Scalar.print, enclose_eq hstrength]
    refine parenthesized_congr ?_ _
    change (if c.isEmpty = true then _ else c.print next .unknown false : Print Unit) frame = _
    rw [hbranches, if_neg Bool.false_ne_true]
  refine (((Condition.print_groupsAs hne hall .unknown false).parenthesized _).congr hprint).mono ?_
  rintro _ ⟨_, ⟨ls, v, rfl, hgroups, htruth⟩, rfl⟩
  cases hwrap : c.precedence.needsWrap parent with
  | true => exact ⟨v, Precedence.primary, .inl rfl, (hgroups.enclosed _).parenthesize, htruth⟩
  | false => exact ⟨v, c.precedence, .inr hwrap, hgroups.enclosed _, htruth⟩

/-- A scalar in the place of a predicate. -/
theorem Predicate.readsBack_scalar {e : Scalar} (he : e.ReadsBack legible fuel next frame)
    (precedence : Int) {p : Predicate} (hp : p.precedence = precedence)
    (hprint : ∀ parent wrapLines, p.print next parent wrapLines =
      Print.parenthesized (Precedence.needsWrap precedence parent)
        (e.print next false precedence false))
    (htruth : ∀ α, p.truthUnder α = e.truthUnder α) : p.ReadsBack legible fuel next frame := by
  intro parent hparent wrapLines
  rw [hprint]
  refine ((he precedence).parenthesized _).mono ?_
  rintro _ ⟨ls, ⟨v, strength, hstrength, hgroups, hmeans⟩, rfl⟩
  refine ⟨v, .of_groupsAs hparent hgroups fun hbare => ?_,
    fun α => (hmeans α).trans (htruth _).symm⟩
  rcases hstrength with rfl | hinner
  · exact ⟨Precedence.needsWrap_primary hparent, hp ▸ Precedence.le_of_needsWrap hbare,
      fun _ => by decide⟩
  · refine ⟨Precedence.needsWrap_trans hinner hbare, hp ▸ Precedence.le_of_needsWrap hbare,
      fun hlt => ?_⟩
    exact Int.lt_of_lt_of_le (hp ▸ hlt) (Precedence.le_of_needsWrap hinner)

/-- `NOT` in front of a scalar. -/
theorem Predicate.readsBack_notScalar {e : Scalar} (he : e.ReadsBack legible fuel next frame)
    (precedence : Precedence) :
    (Predicate.notScalar e true precedence).ReadsBack legible fuel next frame := by
  intro parent hparent wrapLines
  have hprint : (Predicate.notScalar e true precedence).print next parent wrapLines =
      Print.parenthesized (Precedence.needsWrap logicalNegation parent) (do
        Print.text "NOT "
        e.print next false logicalNegation false) := by
    rw [Predicate.print]
    rfl
  rw [hprint]
  refine ((he logicalNegation).sign.parenthesized _).mono ?_
  rintro _ ⟨_, ⟨ls, ⟨v, strength, hstrength, hgroups, hmeans⟩, rfl⟩, rfl⟩
  have hlt : (logicalNegation : Int) < strength := by
    rcases hstrength with rfl | hinner
    · decide
    · exact Precedence.lt_of_needsWrap hinner
  refine ⟨.signed () v, .of_groupsAs hparent (hgroups.sign hlt) fun hbare =>
    ⟨hbare, Precedence.le_of_needsWrap hbare, id⟩, fun α => ?_⟩
  exact congrArg Truth.not (hmeans α)

/-- What a search is spelled as is printed by the printer of the next level. -/
theorem Predicate.print_search (fuel : Nat) (operand : Scalar) (kind : SearchKind) (pattern : Scalar)
    (caseSensitive negated : Bool) (parent : Precedence) (wrapLines : Bool) (frame : Frame) :
    (Predicate.search operand kind pattern caseSensitive negated).print (.within (fuel + 1)) parent
        wrapLines frame =
      (frame.dialect.legalSearch (.search operand kind pattern caseSensitive negated)).print
        (.within fuel) parent wrapLines frame := by
  have hlegal : frame.store.legalPredicate frame.provider
      (.search operand kind pattern caseSensitive negated) =
        frame.dialect.legalSearch (.search operand kind pattern caseSensitive negated) := by
    rw [Store.legalPredicate]
    split <;> rfl
  have hread (step : Frame → Print Unit) : (read >>= step : Print Unit) frame = step frame frame :=
    rfl
  rw [print, printLegal, hread, hlegal]
  rcases Dialect.legalSearch_form frame.dialect operand kind pattern caseSensitive negated
    with h | h <;> rw [h] <;> rfl

/-- A search is read back as what the dialect spells it as. -/
theorem Predicate.readsBack_search (operand : Scalar) (kind : SearchKind) (pattern : Scalar)
    (caseSensitive negated : Bool) :
    (Predicate.search operand kind pattern caseSensitive negated).ReadsBack legible fuel
      (.within (fuel + 1)) frame := by
  intro parent hparent wrapLines
  have hspelled := Dialect.legalSearch_form frame.dialect operand kind pattern caseSensitive negated
  have htruth (α : Leaves) := frame.dialect.truthUnder_legalSearch α operand kind pattern
    caseSensitive negated
  have hprint := print_search fuel operand kind pattern caseSensitive negated parent
    wrapLines frame
  generalize frame.dialect.legalSearch (.search operand kind pattern caseSensitive negated) = legal
    at hspelled htruth hprint
  have hlike : (frame.dialect.likeSearch operand kind pattern negated).ReadsBack legible fuel
      (.within fuel) frame := readsBack_spelled rfl
  have hcheck : (caseSensitiveCheck kind operand pattern).ReadsBack legible fuel (.within fuel)
      frame := by
    cases kind <;> exact readsBack_spelled rfl
  have hreads : legal.ReadsBack legible fuel (.within fuel) frame ∧
      ((legal.precedence : Int) ≤ logicalConjunction ∨
        (logicalNegation : Int) < legal.precedence) := by
    rcases hspelled with rfl | rfl
    · exact ⟨hlike, .inr (show (logicalNegation : Int) < Precedence.comparison by decide)⟩
    · refine ⟨readsBack_nested (by simp) (by simpa using ⟨hlike, hcheck⟩), .inl ?_⟩
      cases negated with
      | false => exact Int.le_refl logicalConjunction
      | true => exact (by decide : (logicalDisjunction : Int) ≤ logicalConjunction)
  refine ((hreads.1 parent hparent wrapLines).congr hprint).mono ?_
  rintro ls ⟨v, ⟨strength, hbare, htight, hgroups⟩, hmeans⟩
  refine ⟨v, ⟨strength, hbare, fun hlt _ => htight hlt ?_, hgroups⟩, fun α => ?_⟩
  · exact hreads.2.imp_left fun hle => Int.lt_of_le_of_lt hle hlt
  · exact (hmeans α).trans (htruth α)

end

/-! ## Conditions of any nesting -/

mutual

/-- Whether no condition nested in a scalar is without branches. -/
def Scalar.isFilled : Scalar → Bool
  | .condition c => c.isFilled
  | _ => true
termination_by structural e => e

/-- Whether no condition nested in a predicate is without branches. -/
def Predicate.isFilled : Predicate → Bool
  | .nested c => !c.isEmpty && c.isFilled
  | .scalar e _ => e.isFilled
  | .notScalar e _ _ => e.isFilled
  | _ => true
termination_by structural p => p

/-- Whether no condition nested in a branch is without branches. -/
def Branch.isFilled : Branch → Bool
  | ⟨_, predicate, _⟩ => predicate.isFilled
termination_by structural b => b

/-- Whether no condition nested in some branches is without branches. -/
def areFilled : List Branch → Bool
  | [] => true
  | b :: rest => b.isFilled && areFilled rest
termination_by structural bs => bs

/-- Whether no condition nested in a condition is without branches. -/
def Condition.isFilled : Condition → Bool
  | ⟨branches⟩ => areFilled branches
termination_by structural c => c

end

mutual

/-- Whether the tests for membership in a condition that stands as a scalar can be read. -/
def Scalar.isLegible (legible : Legibility) : Scalar → Bool
  | .condition c => c.isLegible legible
  | _ => true
termination_by structural e => e

/-- Whether the tests for membership in a predicate can be read. -/
def Predicate.isLegible (legible : Legibility) : Predicate → Bool
  | .nested c => c.isLegible legible
  | .scalar e _ => e.isLegible legible
  | .notScalar e _ _ => e.isLegible legible
  | .inList operand items _ _ => legible operand items
  | _ => true
termination_by structural p => p

/-- Whether the tests for membership in a branch can be read. -/
def Branch.isLegible (legible : Legibility) : Branch → Bool
  | ⟨_, predicate, _⟩ => predicate.isLegible legible
termination_by structural b => b

/-- Whether the tests for membership in some branches can be read. -/
def areLegible (legible : Legibility) : List Branch → Bool
  | [] => true
  | b :: rest => b.isLegible legible && areLegible legible rest
termination_by structural bs => bs

/-- Whether the tests for membership in a condition can be read. -/
def Condition.isLegible (legible : Legibility) : Condition → Bool
  | ⟨branches⟩ => areLegible legible branches
termination_by structural c => c

end

mutual

theorem Scalar.isLegible_all (e : Scalar) : e.isLegible (fun _ _ => true) = true := by
  match e with
  | .condition c => exact Condition.isLegible_all c
  | .value _ | .parameter _ | .field _ | .allFields _ | .column _ | .function _ | .binary ..
  | .raw .. | .convert .. | .query _ | .type _ | .row _ | .tableSource _ | .deferredName _ => rfl
termination_by structural e

theorem Predicate.isLegible_all (p : Predicate) : p.isLegible (fun _ _ => true) = true := by
  match p with
  | .nested c => exact Condition.isLegible_all c
  | .scalar e _ => exact Scalar.isLegible_all e
  | .notScalar e _ _ => exact Scalar.isLegible_all e
  | .inList .. | .compare .. | .like .. | .search .. | .between .. | .isNull .. | .isDistinct ..
  | .inQuery .. | .functionLike _ => rfl
termination_by structural p

theorem areLegible_all (branches : List Branch) : areLegible (fun _ _ => true) branches = true := by
  match branches with
  | [] => rfl
  | ⟨_, predicate, _⟩ :: rest =>
    exact Bool.and_eq_true_iff.mpr ⟨Predicate.isLegible_all predicate, areLegible_all rest⟩
termination_by structural branches

/-- Who can read all tests can read those of a condition. -/
theorem Condition.isLegible_all (c : Condition) : c.isLegible (fun _ _ => true) = true := by
  match c with
  | ⟨branches⟩ => exact areLegible_all branches
termination_by structural c

end

section

variable {fuel : Nat} {frame : Frame}

mutual

/-- A scalar in the place of a predicate is read back. -/
theorem Scalar.readsBack (e : Scalar) (h : e.isFilled = true)
    (hlegible : e.isLegible legible = true) : e.ReadsBack legible fuel (.within (fuel + 1)) frame := by
  match e with
  | .condition ⟨branches⟩ =>
    by_cases hne : branches = []
    · exact Scalar.readsBack_leaf (by subst hne; rfl)
    · exact Scalar.readsBack_condition hne (branches_readBack branches h hlegible)
  | .value _ | .parameter _ | .field _ | .allFields _ | .column _ | .function _ | .binary ..
  | .raw .. | .convert .. | .query _ | .type _ | .row _ | .tableSource _ | .deferredName _ =>
    exact Scalar.readsBack_leaf rfl
termination_by structural e

/-- A predicate is read back, wherever it stands in a condition. -/
theorem Predicate.readsBack (p : Predicate) (h : p.isFilled = true)
    (hlegible : p.isLegible legible = true) : p.ReadsBack legible fuel (.within (fuel + 1)) frame := by
  match p with
  | .nested ⟨branches⟩ =>
    have hfilled : (!branches.isEmpty && areFilled branches) = true := h
    rw [Bool.and_eq_true] at hfilled
    have hne : branches ≠ [] := by simpa using hfilled.1
    exact Predicate.readsBack_nested hne (branches_readBack branches hfilled.2 hlegible)
  | .scalar e precedence =>
    cases hleaf : e.isLeaf with
    | true =>
      have hleaf : (Predicate.scalar e precedence).isLeaf = true := hleaf
      exact Predicate.readsBack_leaf hleaf fun _ _ => rfl
    | false =>
      have hprint (parent : Int) (wrapLines : Bool) :
          (Predicate.scalar e precedence).print (.within (fuel + 1)) parent wrapLines =
            Print.parenthesized (Precedence.needsWrap precedence parent)
              (e.print (.within (fuel + 1)) false precedence false) := by
        cases e <;> first | cases hleaf | rfl
      exact Predicate.readsBack_scalar (Scalar.readsBack e h hlegible) precedence rfl
        hprint fun _ => rfl
  | .notScalar e false precedence =>
    exact Predicate.readsBack_scalar (Scalar.readsBack e h hlegible) precedence rfl
      (fun _ _ => rfl) fun _ => rfl
  | .notScalar e true precedence =>
    exact Predicate.readsBack_notScalar (Scalar.readsBack e h hlegible) precedence
  | .search operand kind pattern caseSensitive negated =>
    exact Predicate.readsBack_search operand kind pattern caseSensitive negated
  | .inList operand items negated withNull =>
    refine Predicate.readsBack_leaf (h := rfl) fun _ _ => if_pos ?_
    exact hlegible
  | .compare .. | .like .. | .between .. | .isNull .. | .isDistinct .. | .inQuery ..
  | .functionLike _ => exact Predicate.readsBack_leaf (h := rfl) fun _ _ => rfl
termination_by structural p

/-- The predicates of branches are read back. -/
theorem branches_readBack (branches : List Branch) (h : areFilled branches = true)
    (hlegible : areLegible legible branches = true) :
    ∀ b ∈ branches, b.predicate.ReadsBack legible fuel (.within (fuel + 1)) frame := by
  match branches with
  | [] => exact fun b hb => nomatch hb
  | ⟨negated, predicate, joinsOr⟩ :: rest =>
    have hfilled : (predicate.isFilled && areFilled rest) = true := h
    have hlegible : (predicate.isLegible legible && areLegible legible rest) = true := hlegible
    rw [Bool.and_eq_true] at hfilled hlegible
    intro b hb
    rcases List.mem_cons.mp hb with rfl | hb
    · exact Predicate.readsBack predicate hfilled.1 hlegible.1
    · exact branches_readBack rest hfilled.2 hlegible.2 b hb
termination_by structural branches

end

end

/-! ## Reading a condition back -/

/-- The text of a condition that has branches is grouped with the truth of the condition, for
someone who can read its tests for membership. -/
theorem Condition.print_reads {fuel : Nat} {frame : Frame} {c : Condition} (hne : c.branches ≠ [])
    (h : c.isFilled = true) (hlegible : c.isLegible legible = true) (parent : Precedence)
    (wrapLines : Bool) :
    Print.Says fuel frame (c.print (.within (fuel + 1)) parent wrapLines) fun ls =>
      ∃ v, (logicOperators legible).Reads Precedence.unknown ls v ∧
        LogicTree.Means frame v fun α => c.truthUnder α := by
  obtain ⟨branches⟩ := c
  refine (print_groupsAs hne (branches_readBack branches h hlegible) parent wrapLines).mono ?_
  rintro _ ⟨ls, v, rfl, hgroups, htruth⟩
  exact ⟨v, (hgroups.enclosed _).reads, htruth⟩

/-- The truth that the text of a condition is read with: no condition at all always holds. -/
def readTruth (α : Leaves) : LogicText → Option Truth
  | [] | [.opening, .closing] => some (some true)
  | ls => (conditionOperators.read? ls).map (LogicTree.truth α)

theorem readTruth_eq {ls : LogicText} {v : LogicTree}
    (h : conditionOperators.Reads Precedence.unknown ls v) (α : Leaves) :
    readTruth α ls = some (v.truth α) := by
  have hread := h.read?_eq
  unfold readTruth
  split
  · cases hread
  · cases hread
  · rw [hread]
    rfl

/-- A condition without branches is printed as nothing, or as nothing in parentheses. -/
theorem Condition.print_nothing (fuel : Nat) (frame : Frame) (next : NextLevel) (parent : Precedence)
    (wrapLines : Bool) :
    Print.Says fuel frame (Condition.print next ⟨[]⟩ parent wrapLines) fun ls =>
      ls = [] ∨ ls = [.opening, .closing] := by
  have hnothing : Print.Says fuel frame (pure ()) fun ls => ls = [] := .of_lexemes rfl rfl
  rw [print]
  refine (Print.Says.parenthesized (.afterLength fun _ => hnothing) _).mono ?_
  rintro _ ⟨_, rfl, rfl⟩
  cases Precedence.needsWrap (Condition.precedence ⟨[]⟩) parent with
  | false => exact .inl rfl
  | true => exact .inr rfl

/-- A search condition survives printing.  On every page, under every parent and whether or not its
lines may be broken, its text is a row of leaves, `NOT`, `AND`, `OR` and parentheses; a reader for
whom `NOT` binds tighter than `AND` and `AND` tighter than `OR` finds the truth of the condition in
it, for every truth of the leaves, provided that no nested condition is without branches.  What is
added to the page are the texts of the row, one behind the other. -/
theorem Condition.printed_keepsTruth (fuel : Nat) (frame : Frame) (c : Condition)
    (parent : Precedence) (wrapLines : Bool) (h : c.isFilled = true) (page : Page) :
    ∃ ls : LogicText,
      c.print (.within (fuel + 1)) parent wrapLines frame page = printLogic fuel ls frame page ∧
        (∀ page', c.print (.within (fuel + 1)) parent wrapLines frame page = .ok ((), page') →
          ls.AddsTo fuel frame page page') ∧
        ∀ α : Leaves, readTruth (α.spelled frame.dialect) ls =
          some (c.truthUnder (α.spelled frame.dialect)) := by
  obtain ⟨branches⟩ := c
  by_cases hne : branches = []
  · subst hne
    obtain ⟨ls, hls, hprint⟩ :=
      Condition.print_nothing fuel frame (.within (fuel + 1)) parent wrapLines page
    refine ⟨ls, hprint, fun _ h => printLogic_addsTo (hprint.symm.trans h), fun α => ?_⟩
    rcases hls with rfl | rfl <;> rfl
  · obtain ⟨ls, ⟨v, hreads, htruth⟩, hprint⟩ :=
      Condition.print_reads hne h (Condition.isLegible_all _) parent wrapLines page
    rw [logicOperators_all] at hreads
    exact ⟨ls, hprint, fun _ h => printLogic_addsTo (hprint.symm.trans h),
      fun α => by rw [readTruth_eq hreads, htruth α]⟩

/-- `NOT (Id = 1 AND (Age < 18 OR NOT Age > 65)) OR NOT Active`. -/
theorem Condition.printed_keepsTruth_outsideAges :
    let frame : Frame := { provider := .ofDialect .postgreSql, store := {}, options := {} }
    let isFirst : Predicate := .comparison (.field ⟨0⟩) .equal (.int 1)
    let isYoung : Predicate := .comparison (.field ⟨1⟩) .less (.int 18)
    let isOld : Predicate := .comparison (.field ⟨1⟩) .greater (.int 65)
    let active : Scalar := .field ⟨2⟩
    let c : Condition := ⟨[
      ⟨true, .nested ⟨[⟨false, isFirst, false⟩,
        ⟨false, .nested ⟨[⟨false, isYoung, true⟩, ⟨true, isOld, false⟩]⟩, false⟩]⟩, true⟩,
      ⟨false, .notScalar active true .primary, false⟩]⟩
    c.isFilled = true ∧ ∀ page, ∃ ls : LogicText,
      c.print (.within 1) .unknown true frame page = printLogic 0 ls frame page ∧
        ∀ α : Leaves, readTruth (α.spelled .postgreSql) ls = some (Truth.or
          (Truth.not (Truth.and (α.predicate isFirst)
            (Truth.or (α.predicate isYoung) (Truth.not (α.predicate isOld)))))
          (Truth.not (α.scalar active))) := by
  intro frame isFirst isYoung isOld active c
  refine ⟨rfl, fun page => ?_⟩
  obtain ⟨ls, hprint, -, htruth⟩ := printed_keepsTruth 0 frame c .unknown true rfl page
  refine ⟨ls, hprint, fun α => (htruth α).trans (congrArg some ?_)⟩
  simp [c, truthUnder, branchesTruthUnder, Branch.truthUnder, Predicate.truthUnder]
  rfl

end SqlCompiler
