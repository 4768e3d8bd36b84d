import SqlCompiler.Proofs.Lowering.Steps
import SqlCompiler.Proofs.Semantics.Truth

/-!
# Propositions in terms

A term that is put together from comparisons by `&&`, `||`, `!` and truth values is lowered to a
condition.  A condition is a list of branches, each with a negation of its own and a connective to
the next one, so conjoining, disjoining and negating splice lists, negate branches in place or nest
them.

Main results:

- Definition `Proposition`, with `Proposition.truth`: what such a term says.
- Theorem `Proposition.lower_eq`: lowering it is lowering its atoms and building up its condition.
- Theorem `Proposition.lowerAtoms_gives`: the atoms can be lowered if each of them can.
- Theorem `Proposition.truth_condition`: the condition means what the proposition means.
- Theorem `Proposition.condition_exact`: propositions are lowered exactly, and conditions conjoined.
-/

namespace SqlCompiler

/-! ## Propositions -/

/-- A proposition over atoms. -/
inductive Proposition (α : Type) where
  | constant (b : Bool)
  | atom (a : α)
  | both (left right : Proposition α)
  | either (left right : Proposition α)
  | negated (operand : Proposition α)
  deriving DecidableEq, Repr

/-- The truth of a proposition, given that of its atoms. -/
def Proposition.truth {α : Type} (τ : α → Truth) : Proposition α → Truth
  | constant b => some b
  | atom a => τ a
  | both l r => Truth.and (l.truth τ) (r.truth τ)
  | either l r => Truth.or (l.truth τ) (r.truth τ)
  | negated p => Truth.not (p.truth τ)

/-- A proposition over other atoms. -/
def Proposition.map {α β : Type} (f : α → β) : Proposition α → Proposition β
  | constant b => constant b
  | atom a => atom (f a)
  | both l r => both (l.map f) (r.map f)
  | either l r => either (l.map f) (r.map f)
  | negated p => negated (p.map f)

/-- The atoms of a proposition, from left to right. -/
def Proposition.atoms {α : Type} : Proposition α → List α
  | constant _ => []
  | atom a => [a]
  | both l r | either l r => l.atoms ++ r.atoms
  | negated p => p.atoms

/-- How many levels a proposition has, its atoms or constants included. -/
def Proposition.depth {α : Type} : Proposition α → Nat
  | constant _ | atom _ => 1
  | both l r | either l r => max l.depth r.depth + 1
  | negated p => p.depth + 1

/-- A comparison of two terms. -/
structure TermComparison where
  operator : TermOperator
  comparison : Comparison
  isComparison : operator.comparison? = some comparison
  left : Term
  right : Term

/-- A comparison of two scalars. -/
structure ScalarComparison where
  comparison : Comparison
  left : Scalar
  right : Scalar

/-- Both operands of a comparison can be lowered, one after the other, where a number of levels of
lowering is left or more. -/
def TermComparison.Lowers (a : TermComparison) (rules : List Rule) (q : QueryRef) (k : Nat)
    (ctx : LowerContext) : Prop :=
  ∀ n st, k ≤ n → ∃ left st₁ right st₂,
    ((lowererWithin rules n).scalar a.left q).Gives ctx st left st₁ ∧
      ((lowererWithin rules n).scalar a.right q).Gives ctx st₁ right st₂

/-- The predicate that a comparison is lowered to. -/
def ScalarComparison.predicate (a : ScalarComparison) : Predicate :=
  a.comparison.predicate a.left a.right

namespace Proposition

/-- The term that a proposition is written as. -/
def term : Proposition TermComparison → Term
  | constant b => .constant (.boolean b)
  | atom a => .binary a.operator a.left a.right
  | both l r => .binary .and l.term r.term
  | either l r => .binary .or l.term r.term
  | negated p => .not p.term

/-- The condition that a proposition is built up to. -/
def condition : Proposition ScalarComparison → Condition
  | constant b => .ofPredicate (.constant b)
  | atom a => .ofPredicate a.predicate
  | both l r => l.condition.conjoinAll r.condition
  | either l r => l.condition.disjunction r.condition
  | negated p => p.condition.negation

/-- Lower the atoms of a proposition from left to right, each where it stands: the levels of
lowering that are left are counted down on the way to it. -/
def lowerAtoms (rules : List Rule) (q : QueryRef) :
    Nat → Proposition TermComparison → LowerM (Proposition ScalarComparison)
  | 0, p => throw (.sequenceNotConvertible p.term.text)
  | _ + 1, constant b => return constant b
  | n + 1, atom a => do
    let left ← (lowererWithin rules n).scalar a.left q
    let right ← (lowererWithin rules n).scalar a.right q
    return atom ⟨a.comparison, left, right⟩
  | n + 1, both l r => do
    let l ← l.lowerAtoms rules q n
    return both l (← r.lowerAtoms rules q n)
  | n + 1, either l r => do
    let l ← l.lowerAtoms rules q n
    return either l (← r.lowerAtoms rules q n)
  | n + 1, negated p => return negated (← p.lowerAtoms rules q n)

/-! ## Truth -/

theorem isSolid_condition (p : Proposition ScalarComparison) : p.condition.isSolid = true := by
  induction p with
  | constant b => rfl
  | atom a =>
    change (Condition.ofPredicate (a.comparison.predicate a.left a.right)).isSolid = true
    rw [Condition.isSolid_ofPredicate, Comparison.predicate]
    split <;> rfl
  | both l r ihl ihr => exact Condition.isSolid_conjoinAll ihl ihr
  | either l r ihl ihr => exact Condition.isSolid_disjunction ihl ihr
  | negated p ih => exact Condition.isSolid_negation ih

/-- The condition of a proposition means what the proposition means. -/
theorem truth_condition (α : Leaves) (p : Proposition ScalarComparison) :
    p.condition.truthUnder α = p.truth fun a => a.predicate.truthUnder α := by
  have hnested := Predicate.truthUnder_nested α
  induction p with
  | constant b =>
    rw [condition, Condition.truthUnder_eq, Condition.truthBy_ofPredicate]
    rfl
  | atom a =>
    rw [condition, Condition.truthUnder_eq, Condition.truthBy_ofPredicate]
    rfl
  | both l r ihl ihr =>
    rw [condition, Condition.truthUnder_eq, Condition.truthBy_conjoinAll hnested,
      ← Condition.truthUnder_eq, ← Condition.truthUnder_eq, ihl, ihr, truth]
  | either l r ihl ihr =>
    rw [condition, Condition.truthUnder_eq,
      Condition.truthBy_disjunction hnested (isSolid_condition l), ← Condition.truthUnder_eq,
      ← Condition.truthUnder_eq, ihl, ihr, truth]
  | negated p ih =>
    rw [condition, Condition.truthUnder_eq, Condition.truthBy_negation hnested,
      ← Condition.truthUnder_eq, ih, truth]

/-! ## Lowering -/

section

variable {rules : List Rule} {q : QueryRef} {ctx : LowerContext} {st st' : LowerState}

/-- Lowering its atoms keeps a proposition's form, and what each atom compares by. -/
theorem lowerAtoms_form (n : Nat) (p : Proposition TermComparison)
    {lowered : Proposition ScalarComparison}
    (h : (p.lowerAtoms rules q n).Gives ctx st lowered st') :
    lowered.map ScalarComparison.comparison = p.map TermComparison.comparison := by
  induction n generalizing p lowered st st' with
  | zero => exact nomatch h
  | succ n ih =>
    cases p with
    | constant b =>
      cases h
      rfl
    | atom a =>
      obtain ⟨left, st₁, -, h⟩ := LowerM.Gives.of_bind h
      obtain ⟨right, st₂, -, h⟩ := LowerM.Gives.of_bind h
      cases h
      rfl
    | both l r =>
      obtain ⟨l', st₁, hl, h⟩ := LowerM.Gives.of_bind h
      obtain ⟨r', st₂, hr, h⟩ := LowerM.Gives.of_bind h
      cases h
      rw [map, map, ih l hl, ih r hr]
    | either l r =>
      obtain ⟨l', st₁, hl, h⟩ := LowerM.Gives.of_bind h
      obtain ⟨r', st₂, hr, h⟩ := LowerM.Gives.of_bind h
      cases h
      rw [map, map, ih l hl, ih r hr]
    | negated p =>
      obtain ⟨p', st₁, hp, h⟩ := LowerM.Gives.of_bind h
      cases h
      rw [map, map, ih p hp]

theorem depth_pos {α : Type} (p : Proposition α) : 0 < p.depth := by
  cases p <;> simp [depth]

/-- The atoms of a proposition can be lowered if each of them can, and enough levels are left. -/
theorem lowerAtoms_gives {k : Nat} (n : Nat) (p : Proposition TermComparison)
    (hatoms : ∀ a ∈ p.atoms, a.Lowers rules q k ctx) (hdepth : p.depth + k ≤ n)
    (st : LowerState) :
    ∃ lowered st', (p.lowerAtoms rules q n).Gives ctx st lowered st' := by
  induction n generalizing p st with
  | zero =>
    have hpos := p.depth_pos
    omega
  | succ n ih =>
    cases p with
    | constant b => exact ⟨_, _, LowerM.Gives.pure _⟩
    | atom a =>
      have hlevels : k ≤ n := by simpa [depth, Nat.add_comm] using hdepth
      obtain ⟨left, st₁, right, st₂, hleft, hright⟩ :=
        hatoms a (List.mem_singleton_self a) n st hlevels
      exact ⟨_, st₂, hleft.bind (hright.bind (LowerM.Gives.pure _))⟩
    | both l r | either l r =>
      have hlevels : max l.depth r.depth + 1 + k ≤ n + 1 := hdepth
      obtain ⟨l', st₁, hl⟩ :=
        ih l (fun a ha => hatoms a (List.mem_append_left _ ha)) (by omega) st
      obtain ⟨r', st₂, hr⟩ :=
        ih r (fun a ha => hatoms a (List.mem_append_right _ ha)) (by omega) st₁
      exact ⟨_, st₂, hl.bind (hr.bind (LowerM.Gives.pure _))⟩
    | negated p =>
      have hlevels : p.depth + 1 + k ≤ n + 1 := hdepth
      obtain ⟨p', st₁, hp⟩ := ih p hatoms (by omega) st
      exact ⟨_, st₁, hp.bind (LowerM.Gives.pure _)⟩

end

/-- Lowering a proposition is lowering its atoms and building its condition. -/
theorem lower_eq (rules : List Rule) (q : QueryRef) (n : Nat) (p : Proposition TermComparison) :
    (lowererWithin rules n).condition p.term q = condition <$> p.lowerAtoms rules q n := by
  induction n generalizing p with
  | zero => rfl
  | succ n ih =>
    cases p with
    | constant b => rfl
    | atom a =>
      obtain ⟨operator, comparison, hcomparison, left, right⟩ := a
      have hatom : (lowererWithin rules (n + 1)).condition (.binary operator left right) q = (do
          let left ← (lowererWithin rules n).scalar left q
          let right ← (lowererWithin rules n).scalar right q
          return .ofPredicate (comparison.predicate left right)) := by
        cases operator <;> cases hcomparison <;> rfl
      rw [term, hatom]
      simp [lowerAtoms, condition, ScalarComparison.predicate]
    | both l r =>
      change (do
        let left ← (lowererWithin rules n).condition l.term q
        return left.conjoinAll (← (lowererWithin rules n).condition r.term q)) = _
      simp [ih, lowerAtoms, condition]
    | either l r =>
      change (do
        let left ← (lowererWithin rules n).condition l.term q
        return left.disjunction (← (lowererWithin rules n).condition r.term q)) = _
      simp [ih, lowerAtoms, condition]
    | negated p =>
      change (do return (← (lowererWithin rules n).condition p.term q).negation) = _
      simp [ih, lowerAtoms, condition]

/-- From the lowered atoms of a proposition comes its condition. -/
theorem condition_gives {rules : List Rule} {q : QueryRef} {n : Nat}
    {p : Proposition TermComparison} {ctx : LowerContext} {st st' : LowerState}
    {lowered : Proposition ScalarComparison}
    (h : (p.lowerAtoms rules q n).Gives ctx st lowered st') :
    ((lowererWithin rules n).condition p.term q).Gives ctx st lowered.condition st' := by
  rw [lower_eq, map_eq_pure_bind]
  exact h.bind (LowerM.Gives.pure _)

/-- A proposition is lowered exactly.  Its condition is what building it up from the lowered atoms
gives, and there is one if the atoms can be lowered and enough levels are left.  The lowered atoms
stand in the same form and compare by the same operators, and the condition has the truth of that
form for every truth of the atoms, where `AND` binds tighter than `OR`.  Whatever two conditions are
conjoined, the result is their conjunction. -/
theorem condition_exact (rules : List Rule) (q : QueryRef) (n : Nat)
    (p : Proposition TermComparison) :
    (lowererWithin rules n).condition p.term q = condition <$> p.lowerAtoms rules q n ∧
      (∀ ctx st lowered st', (p.lowerAtoms rules q n).Gives ctx st lowered st' →
        lowered.map ScalarComparison.comparison = p.map TermComparison.comparison ∧
          ∀ α : Leaves, lowered.condition.truthUnder α =
            lowered.truth fun a => a.predicate.truthUnder α) ∧
      (∀ ctx st k, (∀ a ∈ p.atoms, a.Lowers rules q k ctx) → p.depth + k ≤ n →
        ∃ c st', ((lowererWithin rules n).condition p.term q).Gives ctx st c st') ∧
      ∀ (c d : Condition) (α : Leaves),
        (c.conjoinAll d).truthUnder α = Truth.and (c.truthUnder α) (d.truthUnder α) := by
  refine ⟨lower_eq rules q n p, fun ctx st lowered st' h => ?_, fun ctx st k hatoms hdepth => ?_,
    fun c d α => ?_⟩
  · exact ⟨lowerAtoms_form n p h, fun α => lowered.truth_condition α⟩
  · obtain ⟨lowered, st', h⟩ := lowerAtoms_gives n p hatoms hdepth st
    exact ⟨lowered.condition, st', condition_gives h⟩
  · rw [Condition.truthUnder_eq, Condition.truthBy_conjoinAll (Predicate.truthUnder_nested α),
      ← Condition.truthUnder_eq, ← Condition.truthUnder_eq]

/-- `!(1 < 2 && (false || @name == "a"))`. -/
theorem condition_exact_notBoth :
    let ctx : LowerContext := { schema := { entities := [] }, provider := .ofDialect .generic }
    let p : Proposition TermComparison := .negated (.both
      (.atom ⟨.less, .less, rfl, .constant (.integer 1), .constant (.integer 2)⟩)
      (.either (.constant false)
        (.atom ⟨.equal, .equal, rfl, .parameter "name" (.text "b"), .constant (.text "a")⟩)))
    let named : Scalar := .parameter (.natural "name" (.text "b"))
    ∃ c, ((lowererWithin standardRules 9).condition p.term ⟨0⟩).Gives ctx {} c {} ∧
      ∀ α : Leaves, c.truthUnder α = Truth.not (Truth.and
        (α.predicate (.comparison (.int 1) .less (.int 2)))
        (Truth.or (some false) (α.predicate (.comparison named .equal (.text "a"))))) := by
  intro ctx p named
  let lowered : Proposition ScalarComparison := .negated (.both (.atom ⟨.less, .int 1, .int 2⟩)
    (.either (.constant false) (.atom ⟨.equal, named, .text "a"⟩)))
  have hatoms : (p.lowerAtoms standardRules ⟨0⟩ 9).Gives ctx {} lowered {} := rfl
  obtain ⟨-, hexact, -⟩ := condition_exact standardRules ⟨0⟩ 9 p
  exact ⟨lowered.condition, condition_gives hatoms, (hexact ctx {} lowered {} hatoms).2⟩

end Proposition

end SqlCompiler
