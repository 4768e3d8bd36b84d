import SqlCompiler.Lowering.Clauses

/-!
# Truth of conditions

SQL knows three truth values.  A condition is a list of branches joined by `AND` and `OR`, where
`AND` binds tighter; its truth follows from the truth of its predicates, and that of these from the
predicates and scalars they are built from, through conditions at any depth: nested ones, and those
that stand as scalars in the place of a predicate.

Main results:

- Definition `Truth` with `and`, `or` and `not`.
- Definition `Condition.truthBy`: the truth of a condition, given that of its predicates.
- Theorem `Condition.truthBy_conjoinAll`, `Condition.truthBy_disjunction`,
  `Condition.truthBy_negation`: the ways a condition grows mean what they say.
- Definition `Leaves`: a truth value for each predicate and each scalar.
- Definitions `Predicate.truthUnder`, `Condition.truthUnder`: the truth of what is built from them.
- Theorem `Condition.truthUnder_eq`: a condition has the truth that its predicates give it.
-/

namespace SqlCompiler

/-! ## Truth values -/

/-- A truth value of SQL: true, false or unknown. -/
abbrev Truth := Option Bool

namespace Truth

/-- Negation; the negation of the unknown is unknown. -/
def not (a : Truth) : Truth := a.map fun b => !b

/-- Conjunction; one false operand is enough. -/
def and : Truth → Truth → Truth
  | some false, _ => some false
  | _, some false => some false
  | some true, some true => some true
  | _, _ => none

/-- Disjunction; one true operand is enough. -/
def or : Truth → Truth → Truth
  | some true, _ => some true
  | _, some true => some true
  | some false, some false => some false
  | _, _ => none

@[simp]
theorem true_and (a : Truth) : and (some true) a = a := by
  rcases a with _ | _ | _ <;> rfl

@[simp]
theorem and_true (a : Truth) : and a (some true) = a := by
  rcases a with _ | _ | _ <;> rfl

@[simp]
theorem or_false (a : Truth) : or a (some false) = a := by
  rcases a with _ | _ | _ <;> rfl

theorem and_assoc (a b c : Truth) : and (and a b) c = and a (and b c) := by
  rcases a with _ | _ | _ <;> rcases b with _ | _ | _ <;> rcases c with _ | _ | _ <;> rfl

theorem or_assoc (a b c : Truth) : or (or a b) c = or a (or b c) := by
  rcases a with _ | _ | _ <;> rcases b with _ | _ | _ <;> rcases c with _ | _ | _ <;> rfl

@[simp]
theorem not_not (a : Truth) : not (not a) = a := by
  rcases a with _ | _ | _ <;> rfl

theorem and_beq_true (a b : Truth) :
    (and a b == some true) = (a == some true && b == some true) := by
  rcases a with _ | _ | _ <;> rcases b with _ | _ | _ <;> rfl

theorem and_eq_true_iff {a b : Truth} : and a b = some true ↔ a = some true ∧ b = some true := by
  rcases a with _ | _ | _ <;> rcases b with _ | _ | _ <;> decide

theorem or_eq_true_iff {a b : Truth} : or a b = some true ↔ a = some true ∨ b = some true := by
  rcases a with _ | _ | _ <;> rcases b with _ | _ | _ <;> decide

theorem some_and_some (a b : Bool) : and (some a) (some b) = some (a && b) := by
  cases a <;> cases b <;> rfl

theorem not_or_not (a b : Truth) : or (not a) (not b) = not (and a b) := by
  rcases a with _ | _ | _ <;> rcases b with _ | _ | _ <;> rfl

end Truth

/-! ## Branches -/

/-- The truth of a branch, given that of its predicate. -/
def Branch.truthBy (τ : Predicate → Truth) (b : Branch) : Truth :=
  if b.negated then Truth.not (τ b.predicate) else τ b.predicate

/-- The truth of branches, after a conjunction of given truth that goes on with the first of
them. -/
def truthOfBranches (τ : Predicate → Truth) (acc : Truth) : List Branch → Truth
  | [] => acc
  | b :: rest =>
    let acc := Truth.and acc (b.truthBy τ)
    if rest.isEmpty then acc
    else if b.joinsOr then Truth.or acc (truthOfBranches τ (some true) rest)
    else truthOfBranches τ acc rest

/-- The truth of a condition, given that of its predicates. -/
def Condition.truthBy (τ : Predicate → Truth) (c : Condition) : Truth :=
  truthOfBranches τ (some true) c.branches

section

variable {τ : Predicate → Truth}

/-- No branch but the last is joined to the next one by `OR`. -/
def onlyAnds (branches : List Branch) : Bool := !branches.dropLast.any (·.joinsOr)

theorem onlyAnds_cons_cons {b c : Branch} {rest : List Branch} :
    onlyAnds (b :: c :: rest) = (!b.joinsOr && onlyAnds (c :: rest)) := by
  simp [onlyAnds]

/-- The branches of a conjunction all count. -/
theorem truthOfBranches_onlyAnds {branches : List Branch} (h : onlyAnds branches = true)
    (acc : Truth) :
    truthOfBranches τ acc branches = Truth.and acc (truthOfBranches τ (some true) branches) := by
  induction branches generalizing acc with
  | nil => simp [truthOfBranches]
  | cons b rest ih =>
    cases rest with
    | nil => simp [truthOfBranches]
    | cons c rest =>
      rw [onlyAnds_cons_cons, Bool.and_eq_true] at h
      obtain ⟨hb, hrest⟩ := h
      have hor : b.joinsOr = false := by simpa using hb
      have hacc := ih hrest (Truth.and acc (b.truthBy τ))
      have htrue := ih hrest (Truth.and (some true) (b.truthBy τ))
      rw [truthOfBranches, truthOfBranches.eq_def τ (some true) (b :: c :: rest)]
      simp only [List.isEmpty_cons, hor, Bool.false_eq_true, if_false]
      rw [hacc, htrue, Truth.true_and, Truth.and_assoc]

/-- The truth of a branch does not depend on what follows it. -/
theorem Branch.truthBy_joinsOr (b : Branch) (joinsOr : Bool) :
    Branch.truthBy τ { b with joinsOr } = b.truthBy τ := rfl

/-- A conjunction that goes on. -/
theorem truthOfBranches_joinLast_false {acc : Truth} {xs ys : List Branch}
    (h : onlyAnds xs = true) :
    truthOfBranches τ acc (Condition.joinLast false xs ++ ys) =
      truthOfBranches τ (truthOfBranches τ acc xs) ys := by
  induction xs generalizing acc with
  | nil => rfl
  | cons b rest ih =>
    cases rest with
    | nil =>
      simp only [Condition.joinLast, List.cons_append, List.nil_append, truthOfBranches,
        Branch.truthBy_joinsOr, Bool.false_eq_true, if_false, List.isEmpty_nil, if_true]
      cases ys with
      | nil => rfl
      | cons c ys => rfl
    | cons c rest =>
      rw [onlyAnds_cons_cons, Bool.and_eq_true] at h
      obtain ⟨hb, hrest⟩ := h
      have hor : b.joinsOr = false := by simpa using hb
      have hne : (Condition.joinLast false (c :: rest) ++ ys).isEmpty = false := by
        cases rest <;> rfl
      rw [Condition.joinLast, List.cons_append, truthOfBranches, truthOfBranches]
      · simp only [hne, hor, List.isEmpty_cons, Bool.false_eq_true, if_false]
        exact ih hrest
      · simp

/-- A disjunction that goes on. -/
theorem truthOfBranches_joinLast_true {acc : Truth} {xs ys : List Branch} (hxs : xs ≠ [])
    (hys : ys ≠ []) :
    truthOfBranches τ acc (Condition.joinLast true xs ++ ys) =
      Truth.or (truthOfBranches τ acc xs) (truthOfBranches τ (some true) ys) := by
  induction xs generalizing acc with
  | nil => exact absurd rfl hxs
  | cons b rest ih =>
    cases rest with
    | nil =>
      cases ys with
      | nil => exact absurd rfl hys
      | cons c ys => rfl
    | cons c rest =>
      have hne : (Condition.joinLast true (c :: rest) ++ ys).isEmpty = false := by
        cases rest <;> rfl
      rw [Condition.joinLast, List.cons_append, truthOfBranches,
        truthOfBranches.eq_def τ acc (b :: c :: rest)]
      · simp only [hne, List.isEmpty_cons, Bool.false_eq_true, if_false]
        cases b.joinsOr
        · exact ih (by simp)
        · simp only [if_true]
          rw [ih (by simp), Truth.or_assoc]
      · simp

/-! ## Conditions that say something -/

mutual

/-- Whether no condition inside of a predicate is without branches. -/
def Predicate.isSolid : Predicate → Bool
  | .nested c => c.isSolid
  | _ => true
termination_by structural p => p

/-- Whether no condition inside of a branch is without branches. -/
def Branch.isSolid : Branch → Bool
  | ⟨_, predicate, _⟩ => predicate.isSolid
termination_by structural b => b

/-- Whether no condition inside of some branches is without branches. -/
def areSolid : List Branch → Bool
  | [] => true
  | b :: rest => b.isSolid && areSolid rest
termination_by structural bs => bs

/-- Whether neither the condition nor one inside of it is without branches. -/
def Condition.isSolid : Condition → Bool
  | ⟨branches⟩ => !branches.isEmpty && areSolid branches
termination_by structural c => c

end

attribute [local simp] areSolid Branch.isSolid Predicate.isSolid Condition.isSolid

theorem areSolid_append {xs ys : List Branch} :
    areSolid (xs ++ ys) = (areSolid xs && areSolid ys) := by
  induction xs with
  | nil => rfl
  | cons b rest ih => simp [areSolid, ih, Bool.and_assoc]

theorem areSolid_joinLast {joinsOr : Bool} {branches : List Branch} :
    areSolid (Condition.joinLast joinsOr branches) = areSolid branches := by
  fun_induction Condition.joinLast joinsOr branches with
  | case1 => rfl
  | case2 last =>
    cases last
    rfl
  | case3 first rest hne ih => simp [areSolid, ih]

namespace Condition

variable {c d : Condition} {p : Predicate}

theorem isSolid_iff : c.isSolid = true ↔ c.branches ≠ [] ∧ areSolid c.branches = true := by
  obtain ⟨branches⟩ := c
  cases branches <;> simp [isSolid]

theorem ne_nil_of_isSolid (h : c.isSolid = true) : c.branches ≠ [] := (isSolid_iff.mp h).1

theorem isSolid_branch : (branch p).isSolid = p.isSolid := rfl

theorem isSolid_ofPredicate : (ofPredicate p).isSolid = p.isSolid := by
  simp [ofPredicate, isSolid, areSolid, isSolid_branch]

/-- What is conjoined to a condition says something. -/
theorem isSolid_conjoin (hp : p.isSolid = true) (hc : areSolid c.branches = true) :
    (c.conjoin p).isSolid = true := by
  have hplain : (⟨joinLast false c.branches ++ [branch p]⟩ : Condition).isSolid = true := by
    rw [isSolid_iff]
    simp [areSolid_append, areSolid_joinLast, hc, areSolid, isSolid_branch, hp]
  cases p with
  | nested inner =>
    cases hor : inner.hasOr with
    | true => simpa [conjoin, hor] using hplain
    | false =>
      obtain ⟨hne, hinner⟩ := isSolid_iff.mp hp
      simp only [conjoin, hor, Bool.false_eq_true, if_false]
      rw [isSolid_iff]
      simp [areSolid_append, areSolid_joinLast, hc, hinner, hne]
  | _ => exact hplain

theorem isSolid_disjoin (hp : p.isSolid = true) (hc : areSolid c.branches = true) :
    (c.disjoin p).isSolid = true := by
  rw [isSolid_iff]
  simp [disjoin, areSolid_append, areSolid_joinLast, hc, areSolid, isSolid_branch, hp]

theorem isSolid_conjoinAll (hc : c.isSolid = true) (hd : d.isSolid = true) :
    (c.conjoinAll d).isSolid = true := by
  have hne := ne_nil_of_isSolid hc
  have hne' := ne_nil_of_isSolid hd
  have hgrouped : areSolid (if c.hasOr then ofPredicate (.nested c) else c).branches = true := by
    split
    · exact (isSolid_iff.mp ((isSolid_ofPredicate (p := .nested c)).trans hc)).2
    · exact (isSolid_iff.mp hc).2
  unfold conjoinAll
  simp only [isEmpty, List.isEmpty_iff, hne, hne', if_false]
  exact isSolid_conjoin hd hgrouped

theorem isSolid_asPredicate (hc : c.isSolid = true) : c.asPredicate.isSolid = true := by
  unfold asPredicate
  split
  · next single hsingle =>
    split
    · exact hc
    · have hbranches := (isSolid_iff.mp hc).2
      rw [hsingle] at hbranches
      cases single
      simpa [areSolid, Branch.isSolid] using hbranches
  · exact hc

theorem isSolid_disjunction (hc : c.isSolid = true) (hd : d.isSolid = true) :
    (c.disjunction d).isSolid = true := by
  have hstart := isSolid_conjoin (c := empty) (isSolid_asPredicate hc) rfl
  exact isSolid_disjoin (isSolid_asPredicate hd) (isSolid_iff.mp hstart).2

theorem isSolid_negation (hc : c.isSolid = true) : c.negation.isSolid = true := by
  unfold negation
  split
  · next single hsingle =>
    have hbranches := (isSolid_iff.mp hc).2
    rw [hsingle] at hbranches
    cases single
    simpa [isSolid, areSolid, Branch.isSolid] using hbranches
  · simp [isSolid, conjoinNot, empty, joinLast, areSolid, Branch.isSolid, Predicate.isSolid, hc]

end Condition

/-! ## Conditions -/

namespace Condition

variable {c d : Condition} {p : Predicate}

@[simp]
theorem truthBy_empty : empty.truthBy τ = some true := rfl

@[simp]
theorem truthBy_ofPredicate : (ofPredicate p).truthBy τ = τ p := by
  simp [truthBy, ofPredicate, truthOfBranches, Branch.truthBy, branch]

theorem onlyAnds_branches : onlyAnds c.branches = !c.hasOr := rfl

theorem joinsOr_joinLast (branches : List Branch) :
    (joinLast false branches).any (·.joinsOr) = branches.dropLast.any (·.joinsOr) := by
  induction branches with
  | nil => rfl
  | cons b rest ih =>
    cases rest with
    | nil => rfl
    | cons c rest =>
      have hjoin : joinLast false (b :: c :: rest) = b :: joinLast false (c :: rest) := rfl
      rw [hjoin, List.any_cons, ih, List.dropLast_cons_cons, List.any_cons]

section

variable (hc : c.hasOr = false) (l : Scalar) (op : Comparison) (r : Scalar)
include hc

/-- A comparison is added to a conjunction. -/
theorem hasOr_conjoin_comparison : (c.conjoin (.comparison l op r)).hasOr = false := by
  change (joinLast false c.branches ++ [branch (.comparison l op r)]).dropLast.any (·.joinsOr) =
    false
  rw [List.dropLast_concat, joinsOr_joinLast]
  exact hc

/-- A conjunction grows by a comparison. -/
theorem truthBy_conjoin_comparison : (c.conjoin (.comparison l op r)).truthBy τ =
    Truth.and (c.truthBy τ) (τ (.comparison l op r)) := by
  have hconjoin : c.conjoin (.comparison l op r) =
      ⟨joinLast false c.branches ++ [branch (.comparison l op r)]⟩ := rfl
  have hands : onlyAnds c.branches = true := by rw [onlyAnds_branches, hc]; rfl
  rw [hconjoin, truthBy, truthOfBranches_joinLast_false hands]
  rfl

end

/-- Equalities that are conjoined one after the other hold together. -/
theorem truthBy_foldl_equal {α : Type} (f g : α → Scalar) (items : List α)
    (hc : c.hasOr = false) :
    ((items.foldl (fun c a => c.conjoin (.equal (f a) (g a))) c).truthBy τ == some true) =
      (c.truthBy τ == some true && items.all fun a => τ (.equal (f a) (g a)) == some true) := by
  induction items generalizing c with
  | nil => simp
  | cons a rest ih =>
    have hor : (c.conjoin (.equal (f a) (g a))).hasOr = false :=
      hasOr_conjoin_comparison hc (f a) .equal (g a)
    have htruth : (c.conjoin (.equal (f a) (g a))).truthBy τ =
        Truth.and (c.truthBy τ) (τ (.equal (f a) (g a))) :=
      truthBy_conjoin_comparison hc (f a) .equal (g a)
    rw [List.foldl_cons, ih hor, htruth, Truth.and_beq_true, List.all_cons, Bool.and_assoc]

/-- A disjunction grows by a predicate. -/
theorem truthBy_disjoin (hc : c.branches ≠ []) :
    (c.disjoin p).truthBy τ = Truth.or (c.truthBy τ) (τ p) := by
  rw [truthBy, disjoin, truthOfBranches_joinLast_true hc (by simp)]
  simp [truthBy, truthOfBranches, Branch.truthBy, branch]

variable (hτ : ∀ c : Condition, τ (.nested c) = c.truthBy τ)
include hτ

/-- A conjunction grows by a predicate. -/
theorem truthBy_conjoin (hc : c.hasOr = false) :
    (c.conjoin p).truthBy τ = Truth.and (c.truthBy τ) (τ p) := by
  have hands : onlyAnds c.branches = true := by rw [onlyAnds_branches, hc]; rfl
  have hsingle : truthOfBranches τ (c.truthBy τ) [branch p] =
      Truth.and (c.truthBy τ) (τ p) := by
    simp [truthOfBranches, Branch.truthBy, branch]
  have hplain : truthOfBranches τ (some true) (joinLast false c.branches ++ [branch p]) =
      Truth.and (c.truthBy τ) (τ p) := by
    rw [truthOfBranches_joinLast_false hands, ← hsingle]
    rfl
  cases p with
  | nested inner =>
    cases hor : inner.hasOr with
    | true => simpa [truthBy, conjoin, hor] using hplain
    | false =>
      have hinner : onlyAnds inner.branches = true := by rw [onlyAnds_branches, hor]; rfl
      calc (c.conjoin (.nested inner)).truthBy τ
          = truthOfBranches τ (some true) (joinLast false c.branches ++ inner.branches) := by
            simp [truthBy, conjoin, hor]
        _ = truthOfBranches τ (c.truthBy τ) inner.branches :=
            truthOfBranches_joinLast_false hands
        _ = Truth.and (c.truthBy τ) (inner.truthBy τ) := truthOfBranches_onlyAnds hinner _
        _ = Truth.and (c.truthBy τ) (τ (.nested inner)) := by rw [hτ]
  | _ => exact hplain

/-- The conjunction of two conditions. -/
theorem truthBy_conjoinAll :
    (c.conjoinAll d).truthBy τ = Truth.and (c.truthBy τ) (d.truthBy τ) := by
  unfold conjoinAll
  split
  · next hd =>
    have hd : d.branches = [] := by simpa [isEmpty] using hd
    simp [truthBy, hd, truthOfBranches]
  · split
    · next hc =>
      have hc : c.branches = [] := by simpa [isEmpty] using hc
      simp [truthBy, hc, truthOfBranches]
    · cases hor : c.hasOr with
      | true =>
        simp only [if_true]
        rw [truthBy_conjoin hτ (by rfl), truthBy_ofPredicate, hτ, hτ]
      | false =>
        simp only [Bool.false_eq_true, if_false]
        rw [truthBy_conjoin hτ hor, hτ]

/-- A condition as one predicate. -/
theorem truth_asPredicate : τ c.asPredicate = c.truthBy τ := by
  unfold asPredicate
  split
  · next single hsingle =>
    cases hneg : single.negated with
    | true => simpa using hτ c
    | false => simp [truthBy, hsingle, truthOfBranches, Branch.truthBy, hneg]
  · exact hτ c

/-- The negation of a condition. -/
theorem truthBy_negation : c.negation.truthBy τ = Truth.not (c.truthBy τ) := by
  unfold negation
  split
  · next single hsingle =>
    cases hneg : single.negated <;>
      simp [truthBy, hsingle, truthOfBranches, Branch.truthBy, hneg]
  · simp [truthBy, conjoinNot, empty, joinLast, truthOfBranches, Branch.truthBy, hτ]

/-- The disjunction of two conditions, where the first one says something. -/
theorem truthBy_disjunction (hc : c.isSolid = true) :
    (c.disjunction d).truthBy τ = Truth.or (c.truthBy τ) (d.truthBy τ) := by
  have hstart : (empty.conjoin c.asPredicate).branches ≠ [] := by
    have hsolid := isSolid_conjoin (p := c.asPredicate) (isSolid_asPredicate hc) (c := empty) rfl
    exact ne_nil_of_isSolid hsolid
  rw [disjunction, truthBy_disjoin hstart, truthBy_conjoin hτ (by rfl), truthBy_empty,
    Truth.true_and, truth_asPredicate hτ, truth_asPredicate hτ]

end Condition

end

/-! ## Truth from leaves -/

/-- A truth value for each predicate and for each scalar in the place of one. -/
structure Leaves where
  predicate : Predicate → Truth
  scalar : Scalar → Truth

section

variable (α : Leaves)

mutual

/-- The truth of a scalar in the place of a predicate; a constant has its own. -/
def Scalar.truthUnder : Scalar → Truth
  | .condition c => c.truthUnder
  | e =>
    match e.evaluate? with
    | some (.boolean b) => some b
    | _ => α.scalar e
termination_by structural e => e

/-- The truth of a predicate. -/
def Predicate.truthUnder : Predicate → Truth
  | .nested c => c.truthUnder
  | .scalar e _ => e.truthUnder
  | .notScalar e negated _ => if negated then Truth.not e.truthUnder else e.truthUnder
  | p => α.predicate p
termination_by structural p => p

/-- The truth of a branch. -/
def Branch.truthUnder : Branch → Truth
  | ⟨negated, predicate, _⟩ =>
    if negated then Truth.not predicate.truthUnder else predicate.truthUnder
termination_by structural b => b

/-- The truth of branches, after a conjunction of given truth. -/
def branchesTruthUnder : List Branch → Truth → Truth
  | [], acc => acc
  | b :: rest, acc =>
    let acc := Truth.and acc b.truthUnder
    if rest.isEmpty then acc
    else if b.joinsOr then Truth.or acc (branchesTruthUnder rest (some true))
    else branchesTruthUnder rest acc
termination_by structural bs => bs

/-- The truth of a condition. -/
def Condition.truthUnder : Condition → Truth
  | ⟨branches⟩ => branchesTruthUnder branches (some true)
termination_by structural c => c

end

theorem Branch.truthUnder_eq (b : Branch) :
    b.truthUnder α = b.truthBy (Predicate.truthUnder α) := by
  cases b
  rfl

theorem branchesTruthUnder_eq (branches : List Branch) (acc : Truth) :
    branchesTruthUnder α branches acc =
      truthOfBranches (Predicate.truthUnder α) acc branches := by
  induction branches generalizing acc with
  | nil => rfl
  | cons b rest ih => simp only [branchesTruthUnder, truthOfBranches, ih, Branch.truthUnder_eq]

/-- The truth of a condition follows from that of its predicates. -/
theorem Condition.truthUnder_eq (c : Condition) :
    c.truthUnder α = c.truthBy (Predicate.truthUnder α) := by
  obtain ⟨branches⟩ := c
  exact branchesTruthUnder_eq α branches (some true)

theorem Predicate.truthUnder_nested (c : Condition) :
    Predicate.truthUnder α (.nested c) = c.truthBy (Predicate.truthUnder α) :=
  Condition.truthUnder_eq α c

end

end SqlCompiler
