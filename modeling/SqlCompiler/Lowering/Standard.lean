import SqlCompiler.Lowering.Folding
import SqlCompiler.Lowering.Merging
import SqlCompiler.Lowering.Modifying
import SqlCompiler.Lowering.Scalar

/-!
# The standard rules

Main definitions:

- `standardRules`: a rule for every family of operators.
- `lowererWithin`: lowering with a bound on the nesting of terms.
- `lowerSequence`: lowering of a whole term.
-/

namespace SqlCompiler

/-- The rules for the operators on sequences, in the order they are given to a compiler. -/
def standardRules : List Rule :=
  [tableRule, whereRule, selectRule, orderByRule, groupByRule, joinRule, takeSkipRule,
    distinctRule, firstSingleRule, aggregationRule, anyAllRule, setOperationRule, ofTypeRule,
    modifierRule, insertRule, insertOrUpdateRule, updateRule, deleteRule, mergeRule,
    multiInsertRule, ddlRule, valuesRule]

/-- Lowering by rules, at most `fuel` levels deep. -/
def lowererWithin (rules : List Rule) : Nat → Lowerer
  | 0 =>
    { sequence := fun t _ => throw (.sequenceNotConvertible t.text)
      projection := fun t _ => throw (.sequenceNotConvertible t.text)
      scalar := fun t _ => throw (.sequenceNotConvertible t.text)
      condition := fun t _ => throw (.sequenceNotConvertible t.text) }
  | fuel + 1 =>
    let inner := lowererWithin rules fuel
    { sequence := dispatch rules inner
      projection := inner.projectionOf
      scalar := inner.scalarOf
      condition := inner.conditionOf }

/-- A bound on the levels of lowering a term: at every node it may be lowered as a condition, a
scalar, a projection and a sequence before its parts are. -/
def loweringDepth (t : Term) : Nat := 4 * (t.size + 1)

/-- Lower a whole term. -/
def lowerSequence (rules : List Rule) (t : Term) : LowerM Lowered :=
  (lowererWithin rules (loweringDepth t)).sequence t none

end SqlCompiler
