import SqlCompiler.Lowering.Clauses

/-!
# Joins and set operators

Main definitions:

- `joinRule`: an inner sequence of a single table joins as that table, its conditions as a part
  of the join condition; any other one joins as a subquery.
- `setOperationRule`: both sides select the same members, one column for each.
-/

namespace SqlCompiler

/-! ## Joins -/

/-- Equality of the scalars of two keys, pair by pair. -/
def keyCondition (left right : List Scalar) : Condition :=
  (left.zip right).foldl (fun condition (a, b) => condition.conjoin (.equal a b)) .empty

/-- The table a query reads, if it reads one table and nothing else. -/
def Query.onlyTable? (q : Query) : Option TableRef :=
  match q.sources with
  | [⟨.table t, _, []⟩] => some t
  | _ => none

/-- What a lowered sequence joins as: a source, the projection seen through it, and a condition
that is a part of the join condition. -/
def Lowered.joinSource (inner : Lowered) : LowerM (Source × Projection × Condition) := do
  let query := (← LowerM.store).query inner.query
  let plain := !query.isGrouped && query.having.isEmpty && !query.hasFixedRows
  match query.onlyTable?, plain with
  | some t, true => return (.ofTable t, inner.projection, query.whereClause)
  | _, _ =>
    LowerM.modifyQuery inner.query fun q =>
      if q.hasPagination then q else { q with orderBy := [] }
    return (.ofQuery inner.query, ← LowerM.expose inner.query inner.projection, .empty)

/-- The inner sequence of a join and the kind of the join, where `DefaultIfEmpty` makes an inner
join a left one. -/
def joinedTerm (kind : JoinKind) (inner : Term) : LowerM (JoinKind × Term) := do
  match inner with
  | .call .defaultIfEmpty args =>
    let site : CallSite := { operator := .defaultIfEmpty, args, parent := none }
    return (if kind == .inner then .left else kind, ← site.arg 0)
  | other => return (kind, other)

/-- Join a sequence to another one. -/
def lowerJoin (l : Lowerer) (c : CallSite) (kind : JoinKind) : LowerM Lowered := do
  let outer ← LowerM.wrapIf (fun q => q.hasFixedRows || q.isGrouped) (← c.lowerSource l)
  let (kind, innerTerm) ← joinedTerm kind (← c.arg 1)
  let inner ← l.sequence innerTerm (some outer.query)
  if !inner.outcome.isSequence then
    LowerM.refuse innerTerm.text "the inner side of a join must be a sequence"
  let (source, innerProjection, condition) ← inner.joinSource
  let outerKey ← l.applyProjection (← c.arg 2) [outer.projection] outer.query
  let innerKey ← l.applyProjection (← c.arg 3) [innerProjection] outer.query
  let outerParts := outerKey.scalars
  let innerParts := innerKey.scalars
  if outerParts.length != innerParts.length then
    c.refuse ("the outer key has " ++ toString outerParts.length ++
      " part(s) but the inner key has " ++ toString innerParts.length)
  let join : Join := ⟨kind, source, (keyCondition outerParts innerParts).conjoinAll condition⟩
  match ((← LowerM.store).query outer.query).sources with
  | [] => c.refuse "the outer sequence reads no table"
  | first :: rest =>
    let first : Source := { first with joins := first.joins ++ [join] }
    LowerM.modifyQuery outer.query fun q => { q with sources := first :: rest }
  let projection ←
    l.applyProjection (← c.arg 4) [outer.projection, innerProjection] outer.query
  return { outer with projection }

/-- Joins. -/
def joinRule : Rule :=
  .ofCall "Join"
    (fun operator _ =>
      match operator with
      | .join _ => true
      | _ => false)
    fun l c =>
      match c.operator with
      | .join kind => lowerJoin l c kind
      | _ => c.refuse "expected a join"

/-! ## Set operators -/

/-- The set operator of an operator on sequences. -/
def SequenceOperator.setOperation? : SequenceOperator → Option SetOperation
  | union => some .union
  | concat => some .unionAll
  | except => some .except
  | exceptAll => some .exceptAll
  | intersect => some .intersect
  | intersectAll => some .intersectAll
  | _ => none

/-- Make a lowered sequence a side of a set operator, with one column for each member.  An order
without a limit means nothing there.  A limited query, and one whose columns are selected for
another reason, becomes a subquery, as does one that meets the test. -/
def Lowered.asSide (lowered : Lowered) (test : Query → Bool) : LowerM Lowered := do
  LowerM.modifyQuery lowered.query fun q => if q.hasPagination then q else { q with orderBy := [] }
  let side ← LowerM.wrapIf
    (fun q => q.hasPagination || (!q.columns.isEmpty && !q.hasSetOperators) || test q) lowered
  if ((← LowerM.store).query side.query).columns.isEmpty then
    LowerM.materialize side.query side.projection true
  return side

/-- Combine two sequences by a set operator. -/
def lowerSetOperation (l : Lowerer) (c : CallSite) (operation : SetOperation) :
    LowerM Lowered := do
  let left ← (← c.lowerSource l).asSide fun q =>
    q.setOperators.any fun other => other.operation != operation
  let rightTerm ← c.arg 1
  let right ← l.sequence rightTerm c.parent
  if !right.outcome.isSequence then
    LowerM.refuse rightTerm.text ("'" ++ c.operator.text ++ "' needs a sequence on both sides")
  let right ← right.asSide Query.hasSetOperators
  let names (side : Lowered) : List String := side.projection.leaves.map (·.1)
  if names left != names right then
    c.refuseWhole ("both sides must select the same members, found [" ++
      ", ".intercalate (names left) ++ "] and [" ++ ", ".intercalate (names right) ++ "]")
  LowerM.modifyQuery left.query fun q =>
    { q with setOperators := q.setOperators ++ [⟨operation, right.query⟩] }
  return left

/-- Set operators. -/
def setOperationRule : Rule :=
  .ofCall "SetOperation" (fun operator _ => operator.setOperation?.isSome) fun l c =>
    match c.operator.setOperation? with
    | some operation => lowerSetOperation l c operation
    | none => c.refuse "expected a set operator"

end SqlCompiler
