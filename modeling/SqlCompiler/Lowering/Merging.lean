import SqlCompiler.Lowering.Combining
import SqlCompiler.Lowering.Modifying

/-!
# Merges and multi-table inserts

Both are written as a chain: a merge gets a source, a condition and then its operations, a
multi-table insert its branches.

Main definitions:

- `mergeRule`: the query of a merge reads the target first and the source second.
- `multiInsertRule`: the values of the branches are columns of the query.
-/

namespace SqlCompiler

/-! ## Merges -/

/-- Begin a merge into a table. -/
def lowerMerge (c : CallSite) : LowerM Lowered := do
  let (target, projection) ← LowerM.tableOf (← c.arg 0)
  let query ← LowerM.newQuery c.parent
  LowerM.addSource query (.ofTable target)
  return { query, projection, outcome := .merge { target, targetProjection := projection } }

/-- Let the query of a merge read its source, and give the projection as the merge sees it.  A
plain table is read directly, anything else as a subquery. -/
def lowerMergeSource (l : Lowerer) (merge : QueryRef) (term : Term) : LowerM Projection := do
  let lowered ← l.sequence term (some merge)
  if !lowered.outcome.isSequence then
    LowerM.refuse term.text "the merge source must be a sequence"
  let query := (← LowerM.store).query lowered.query
  let (source, projection) ←
    match query.onlyTable?, query.isSimple with
    | some t, true => pure (Source.ofTable t, lowered.projection)
    | _, _ => do
      let projection ← LowerM.expose lowered.query lowered.projection
      pure (Source.ofQuery lowered.query, projection)
  LowerM.addSource merge source
  return projection

namespace MergeDraft

/-- The projection of the source, which must be there. -/
def sourceFor (d : MergeDraft) (c : CallSite) : LowerM Projection :=
  match d.source with
  | some p => return p
  | none => c.refuse "Using(...) must come before the match condition"

/-- The condition that a key of the target is equal to a key of the source. -/
def lowerKeys (d : MergeDraft) (l : Lowerer) (q : QueryRef) (source : Projection)
    (targetKey sourceKey : Term) : LowerM Condition := do
  let target ← l.applyProjection targetKey [d.targetProjection] q
  let source ← l.applyProjection sourceKey [source] q
  let targetParts := target.scalars
  let sourceParts := source.scalars
  if targetParts.length != sourceParts.length then
    LowerM.refuse SequenceOperator.mergeOn.text
      ("the target key has " ++ toString targetParts.length ++
        " part(s) but the source key has " ++ toString sourceParts.length)
  return keyCondition targetParts sourceParts

/-- The condition under which rows of target and source belong together. -/
def lowerOn (d : MergeDraft) (l : Lowerer) (c : CallSite) (q : QueryRef) : LowerM Condition := do
  if d.on.isSome then c.refuse "the merge already has a match condition"
  let source ← d.sourceFor c
  match c.args with
  | [_, condition] => l.applyCondition condition [d.targetProjection, source] q
  | [_, targetKey, sourceKey] => d.lowerKeys l q source targetKey sourceKey
  | _ => c.refuse "unexpected arguments"

end MergeDraft

/-- How an operation of a merge is written. -/
structure MergeForm where
  action : MergeAction
  /-- Whether the operation assigns, and to which kind of fields. -/
  assigns : Option WriteKind
  readsTarget : Bool
  readsSource : Bool

/-- The form of an operation of a merge. -/
def SequenceOperator.mergeForm? : SequenceOperator → Option MergeForm
  | insertWhenNotMatched => some ⟨.insert, some .insert, false, true⟩
  | updateWhenMatched => some ⟨.update, some .update, true, true⟩
  | updateWhenMatchedThenDelete => some ⟨.updateWithDelete, some .update, true, true⟩
  | deleteWhenMatched => some ⟨.delete, none, true, true⟩
  | updateWhenNotMatchedBySource => some ⟨.updateBySource, some .update, true, false⟩
  | deleteWhenNotMatchedBySource => some ⟨.deleteBySource, none, true, false⟩
  | _ => none

/-- An operation of a merge.  Its arguments are a setter if it assigns, a condition for deleting
if it is an update that deletes, and perhaps a condition. -/
def MergeDraft.lowerOperation (d : MergeDraft) (l : Lowerer) (c : CallSite) (q : QueryRef)
    (form : MergeForm) : LowerM MergeOperation := do
  if d.on.isNone then c.refuse "On(...) must come before the operations"
  let source ← d.sourceFor c
  let args := (if form.readsTarget then [d.targetProjection] else []) ++
    (if form.readsSource then [source] else [])
  let items ←
    match form.assigns with
    | some kind => l.assignments (← c.arg 1) args d.target q kind
    | none => pure []
  let afterSetter := if form.assigns.isSome then 2 else 1
  let alsoDeletes := form.action == .updateWithDelete
  let whereDelete ←
    if alsoDeletes then some <$> l.applyCondition (← c.arg afterSetter) args q else pure none
  let whereClause ←
    match c.args[if alsoDeletes then afterSetter + 1 else afterSetter]? with
    | some condition => some <$> l.applyCondition condition args q
    | none => pure none
  if form.assigns.isSome && items.isEmpty then c.refuse "the operation sets no columns"
  return { action := form.action, whereClause, whereDelete, items }

/-- The next link of the chain of a merge. -/
def MergeDraft.extend (d : MergeDraft) (l : Lowerer) (c : CallSite) (q : QueryRef) :
    LowerM MergeDraft := do
  match c.operator with
  | .mergeUsing =>
    if d.source.isSome then c.refuse "the merge already has a source"
    let source ← lowerMergeSource l q (← c.arg 1)
    return { d with source := some source }
  | .mergeOn =>
    let on ← d.lowerOn l c q
    return { d with on := some on }
  | operator =>
    match operator.mergeForm? with
    | some form =>
      let operation ← d.lowerOperation l c q form
      return { d with operations := d.operations ++ [operation] }
    | none => c.refuse "not a merge operation"

/-- Begin a merge or extend the chain of one. -/
def lowerMergeLink (l : Lowerer) (c : CallSite) : LowerM Lowered := do
  if c.operator == .merge then lowerMerge c
  else
    let lowered ← c.lowerFirst l
    match lowered.outcome with
    | .merge d => return { lowered with outcome := .merge (← d.extend l c lowered.query) }
    | _ => c.refuse "expected a merge started with Merge(table)"

/-- Merges. -/
def mergeRule : Rule :=
  .ofCall "Merge"
    (fun operator _ =>
      operator == .merge || operator == .mergeUsing || operator == .mergeOn ||
        operator.mergeForm?.isSome)
    lowerMergeLink

/-! ## Multi-table inserts -/

/-- A branch of a multi-table insert.  Its values become columns of the query, which the branch
refers to. -/
def lowerBranch (l : Lowerer) (lowered : Lowered) (table setter : Term) : LowerM InsertClause := do
  let (into, _) ← LowerM.tableOf table
  let items ← l.assignments setter [lowered.projection] into lowered.query .insert
  let items ← items.mapM fun item => do
    match item.value with
    | some e =>
      let column ← LowerM.allocate fun s => s.addColumn lowered.query e none
      return { item with value := some (.column column) }
    | none => return item
  return { into := some into, items }

namespace MultiInsertDraft

/-- Add a branch. -/
def add (d : MultiInsertDraft) (condition : Option Condition) (insert : InsertClause) :
    MultiInsertDraft :=
  { d with inserts := d.inserts ++ [{ condition, insert }] }

/-- The statement that a finished chain stands for. -/
def close (d : MultiInsertDraft) (c : CallSite) : LowerM StatementBody := do
  if d.inserts.isEmpty then c.refuse "the multi-table insert has no branches"
  if c.operator == .insertFirst then
    if !d.hasWhen then c.refuse "InsertFirst needs When branches"
    return .multiInsert .first d.inserts
  else
    return .multiInsert (if d.unconditional then .unconditional else .all) d.inserts

/-- The next link of the chain of a multi-table insert. -/
def extend (d : MultiInsertDraft) (l : Lowerer) (c : CallSite) (lowered : Lowered) :
    LowerM Outcome := do
  match c.operator with
  | .into =>
    if d.hasWhen || d.hasElse then c.refuse "Into cannot be mixed with When or Else"
    let insert ← lowerBranch l lowered (← c.arg 1) (← c.arg 2)
    return .multiInsert { d.add none insert with unconditional := true }
  | .insertWhen =>
    if d.unconditional || d.hasElse then
      c.refuse "When must come before Else and cannot follow Into"
    let condition ← l.applyCondition (← c.arg 1) [lowered.projection] lowered.query
    let insert ← lowerBranch l lowered (← c.arg 2) (← c.arg 3)
    return .multiInsert (d.add (some condition) insert)
  | .insertElse =>
    if !d.hasWhen || d.hasElse then c.refuse "Else needs a preceding When and may appear once"
    let insert ← lowerBranch l lowered (← c.arg 1) (← c.arg 2)
    return .multiInsert { d.add none insert with hasElse := true }
  | .insertAll | .insertFirst => return .statement (← d.close c)
  | _ => c.refuse "not a multi-table insert operation"

end MultiInsertDraft

/-- Begin a multi-table insert or extend the chain of one. -/
def lowerMultiInsert (l : Lowerer) (c : CallSite) : LowerM Lowered := do
  if c.operator == .multiInsert then
    return { ← c.lowerSource l with outcome := .multiInsert {} }
  else
    let lowered ← c.lowerFirst l
    match lowered.outcome with
    | .multiInsert d => return { lowered with outcome := ← d.extend l c lowered }
    | _ => c.refuse "expected a multi-table insert started with MultiInsert()"

/-- Multi-table inserts.  `Into` without a setter begins a chain of values instead. -/
def multiInsertRule : Rule :=
  .ofCall "MultiInsert"
    (fun operator args =>
      match operator with
      | .multiInsert | .insertWhen | .insertElse | .insertAll | .insertFirst => true
      | .into => args.length == 3
      | _ => false)
    lowerMultiInsert

end SqlCompiler
