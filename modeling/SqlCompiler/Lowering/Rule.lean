import SqlCompiler.Lowering.Subquery

/-!
# Calls of operators and rules

A sequence is lowered by the first rule that accepts it.  Rules that were used more often are
asked first, except that fallbacks come last; the order changes between two terms only.

Main definitions:

- `CallSite`: an operator with its arguments, and the query it is nested in.
- `CallSite.lowerSource`: the sequence an operator is applied to.
- `Lowered.target`: the table a data modification writes to.
- `LowerM.tableOf`: a table for an entity that is written to.
- `Rule`: which terms it accepts and how it lowers them.
- `Ranking.ofRules`, `Ranking.recordUse`, `Ranking.reorder`: the order in which rules are asked.
- `dispatch`: lowering by the first rule that accepts.
-/

namespace SqlCompiler

/-! ## Calls of operators -/

/-- A call of an operator and the query it is nested in. -/
structure CallSite where
  operator : SequenceOperator
  args : List Term
  parent : Option QueryRef

namespace CallSite

variable (c : CallSite)

/-- The call as it was written. -/
def text : String := (Term.call c.operator c.args).text

/-- Fail because the operator is not applied as it has to be. -/
def refuse {α : Type} (reason : String) : LowerM α :=
  LowerM.refuse c.operator.text reason

/-- Fail because the call as a whole has no form in SQL. -/
def refuseWhole {α : Type} (reason : String) : LowerM α :=
  LowerM.refuse c.text reason

/-- The argument at a position. -/
def arg (index : Nat) : LowerM Term :=
  match c.args[index]? with
  | some t => return t
  | none => c.refuse ("missing argument " ++ toString index)

/-- Fail unless a lowered argument is a sequence. -/
def checkSequence (term : Term) (lowered : Lowered) : LowerM Unit :=
  if lowered.outcome.isSequence then return
  else LowerM.refuse term.text ("'" ++ c.operator.text ++ "' needs a sequence as its source")

/-- Lower the sequence the operator is applied to. -/
def lowerSource (l : Lowerer) : LowerM Lowered := do
  match c.args with
  | [] => c.refuse "missing source sequence"
  | source :: _ =>
    let lowered ← l.sequence source c.parent
    c.checkSequence source lowered
    return lowered

/-- Lower the first argument, whatever its outcome. -/
def lowerFirst (l : Lowerer) : LowerM Lowered := do
  l.sequence (← c.arg 0) c.parent

end CallSite

/-! ## Tables that are written to -/

/-- The table of an entity that a query reads directly. -/
def Lowered.target (lowered : Lowered) : LowerM TableRef := do
  let sources := ((← LowerM.store).query lowered.query).allSources
  let refused := throw (.resolution "The target of a data modification must be a table.")
  match lowered.projection with
  | .entity _ (some t) _ => if sources.any (·.table? == some t) then return t else refused
  | _ => refused

namespace LowerM

/-- A new table for the entity a term names, with its projection. -/
def tableOf : Term → LowerM (TableRef × Projection)
  | .table name => do
    let (entity, _) ← ofExcept ((← read).schema.resolve name)
    let t ← ofStoreM entity.instantiate
    return (t, .ofTable (← store) name t)
  | .quote inner => tableOf inner
  | other => refuse other.text "expected a mapped table"

/-- A new query that reads nothing. -/
def newQuery (parent : Option QueryRef) : LowerM QueryRef :=
  allocate fun s => s.addQuery parent

/-- Let a query read one more source. -/
def addSource (q : QueryRef) (source : Source) : LowerM Unit :=
  modifyQuery q fun query => { query with sources := query.sources ++ [source] }

end LowerM

/-! ## Rules -/

/-- A way to lower some terms. -/
structure Rule where
  name : String
  isFallback : Bool := false
  accepts : Term → Bool
  lower : Lowerer → Term → Option QueryRef → LowerM Lowered

/-- A rule for calls of operators. -/
def Rule.ofCall (name : String) (accepts : SequenceOperator → List Term → Bool)
    (lower : Lowerer → CallSite → LowerM Lowered) : Rule where
  name := name
  accepts
    | .call operator args => accepts operator args
    | _ => false
  lower l t parent :=
    match t with
    | .call operator args => lower l { operator, args, parent }
    | other => LowerM.refuse other.text "expected a method call"

/-! ## The order of rules -/

namespace Ranking

/-- Whether a rule is asked before another one: fallbacks last, then by use, then as given. -/
def precedes (a b : RuleUse) : Bool :=
  if a.isFallback != b.isFallback then b.isFallback
  else if a.count != b.count then a.count > b.count
  else a.order ≤ b.order

/-- The order of rules none of which has been used. -/
def ofRules (rules : List Rule) : Ranking :=
  let uses := rules.zipIdx.map fun (rule, order) =>
    { name := rule.name, isFallback := rule.isFallback, order : RuleUse }
  { uses := uses.mergeSort precedes }

/-- Bring an outdated order up to date. -/
def reorder (r : Ranking) : Ranking :=
  if r.isOutdated then { uses := r.uses.mergeSort precedes } else r

/-- Count a use of the rule at a position. -/
def recordUse (r : Ranking) (position : Nat) : Ranking :=
  let uses := r.uses.modify position fun use => { use with count := use.count + 1 }
  let overtakes : Bool :=
    match position, uses[position]? with
    | before + 1, some use =>
      match uses[before]? with
      | some previous => previous.isFallback == use.isFallback && use.count > previous.count
      | none => false
    | _, _ => false
  { uses, isOutdated := r.isOutdated || overtakes }

/-- The rule that is asked at a position. -/
def ruleAt? (r : Ranking) (rules : List Rule) (position : Nat) : Option Rule := do
  rules[(← r.uses[position]?).order]?

/-- The first position whose rule accepts a term, and the rule. -/
def find? (r : Ranking) (rules : List Rule) (t : Term) : Option (Nat × Rule) :=
  (List.range r.uses.length).findSome? fun position =>
    match r.ruleAt? rules position with
    | some rule => if rule.accepts t then some (position, rule) else none
    | none => none

end Ranking

/-- Lower a sequence by the first rule that accepts it. -/
def dispatch (rules : List Rule) (l : Lowerer) (t : Term) (parent : Option QueryRef) :
    LowerM Lowered := do
  match (← get).ranking.find? rules t with
  | none => throw (.sequenceNotConvertible t.text)
  | some (position, rule) =>
    let lowered ← rule.lower l t parent
    modify fun s => { s with ranking := s.ranking.recordUse position }
    return lowered

end SqlCompiler
